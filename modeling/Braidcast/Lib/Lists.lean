import Mathlib.Data.List.Nodup
import Mathlib.Data.List.Perm.Subperm
import Mathlib.Algebra.Order.Ring.Int
import Mathlib.Data.List.Induction

/-!
# Lists by place

What setting one place of a list or taking it out leaves, and what a loop over one keeps.
-/
namespace Braidcast.Lib

variable {α : Type} {xs : List α}

/-- What stands at a place after one place was set: the new item there, the old ones elsewhere. -/
theorem getElem?_set_cases {place i : Nat} {new x : α}
    (here : (xs.set place new)[i]? = some x) : i = place ∧ x = new ∨ i ≠ place ∧ xs[i]? = some x := by
  rw [List.getElem?_set] at here
  split at here
  next same =>
    split at here
    · exact .inl ⟨same.symm, (Option.some.inj here).symm⟩
    · cases here
  next other => exact .inr ⟨Ne.symm other, here⟩

theorem getElem?_append_new {new x : α} {i : Nat} (here : (xs ++ [new])[i]? = some x) :
    xs[i]? = some x ∨ i = xs.length ∧ x = new := by
  rw [List.getElem?_append] at here
  split at here
  · exact .inl here
  next beyond =>
    have place : i - xs.length = 0 := by
      by_contra further
      rw [List.getElem?_eq_none (by simp; omega)] at here
      cases here
    rw [place] at here
    exact .inr ⟨by omega, by simpa using here.symm⟩

theorem getElem?_append_old {new x : α} {i : Nat} (here : xs[i]? = some x) :
    (xs ++ [new])[i]? = some x := by
  rw [List.getElem?_append_left (List.getElem?_eq_some_iff.mp here).1]
  exact here

theorem mem_eraseIdx_of_ne {place : Nat} {x y : α} (there : xs[place]? = some y)
    (member : x ∈ xs) (apart : x ≠ y) : x ∈ xs.eraseIdx place := by
  obtain ⟨i, bound, rfl⟩ := List.mem_iff_getElem.mp member
  rw [List.mem_eraseIdx_iff_getElem]
  refine ⟨i, bound, fun same => apart ?_, rfl⟩
  subst same
  simpa [bound] using there

section Maps

variable {β : Type} {f : α → β} {x : α}

theorem map_set_of_eq {place : Nat} {x y : α} (there : xs[place]? = some x)
    (same : f y = f x) : (xs.set place y).map f = xs.map f := by
  apply List.ext_getElem?
  intro i
  rw [List.getElem?_map, List.getElem?_map]
  by_cases here : place = i
  · subst here
    rw [List.getElem?_set_self (List.getElem?_eq_some_iff.mp there).1, there, Option.map_some, Option.map_some, same]
  · rw [List.getElem?_set_ne here]

theorem nodup_map_concat (nodup : (xs.map f).Nodup) (new : f x ∉ xs.map f) : ((xs ++ [x]).map f).Nodup := by
  rw [List.map_append, List.map_singleton, List.nodup_append]
  refine ⟨nodup, by simp, ?_⟩
  rintro a old b last rfl
  exact new (List.mem_singleton.mp last ▸ old)

theorem perm_cons_eraseP {p : α → Bool} (found : xs.find? p = some x) :
    xs.Perm (x :: xs.eraseP p) := by
  induction xs with
  | nil => cases found
  | cons y xs ih =>
    cases matched : p y with
    | true =>
      rw [List.find?_cons_of_pos matched] at found
      cases found
      rw [List.eraseP_cons_of_pos matched]
    | false =>
      have other : ¬ p y = true := by simp [matched]
      rw [List.find?_cons_of_neg other] at found
      rw [List.eraseP_cons_of_neg other]
      exact ((ih found).cons _).trans (List.Perm.swap _ _ _)

/-- What one place gives to a list of all places' shares, taken back and given anew. -/
theorem perm_flatMap_set {f : α → List β} {place : Nat} (y : α)
    (there : xs[place]? = some x) : ((xs.set place y).flatMap f ++ f x).Perm (xs.flatMap f ++ f y) := by
  induction xs generalizing place with
  | nil => cases there
  | cons z xs ih =>
    cases place with
    | zero =>
      cases there
      rw [List.set_cons_zero, List.flatMap_cons, List.flatMap_cons]
      rw [List.append_assoc (f x)]
      exact List.perm_append_comm.trans (List.perm_append_comm.append_left _)
    | succ place =>
      rw [List.set_cons_succ, List.flatMap_cons, List.flatMap_cons, List.append_assoc, List.append_assoc]
      exact (ih there).append_left _

/-- Where the keys are distinct, the one taken out is gone. -/
theorem not_mem_map_eraseP [DecidableEq β] {key : β} (nodup : (xs.map f).Nodup) :
    key ∉ (xs.eraseP fun x => f x = key).map f := by
  cases found : xs.find? fun x => f x = key with
  | some x =>
    have keyed : f x = key := by simpa using List.find?_some found
    have rest := ((perm_cons_eraseP found).map f).nodup_iff.mp nodup
    rw [List.map_cons, List.nodup_cons, keyed] at rest
    exact rest.1
  | none =>
    rw [List.find?_eq_none] at found
    intro member
    obtain ⟨x, left, keyed⟩ := List.mem_map.mp member
    exact found x (List.mem_of_mem_eraseP left) (decide_eq_true keyed)

/-- Where keys are unique, the first match is the only one. -/
theorem eraseP_key_eq_filter [DecidableEq β] {key : β} (nodup : (xs.map f).Nodup) :
    xs.eraseP (fun x => f x = key) = xs.filter fun x => f x ≠ key := by
  induction xs with
  | nil => rfl
  | cons x xs ih =>
    rw [List.map_cons, List.nodup_cons] at nodup
    by_cases here : f x = key
    · rw [List.eraseP_cons_of_pos (by simp [here]), List.filter_cons_of_neg (by simp [here])]
      symm
      refine List.filter_eq_self.mpr fun y member => decide_eq_true fun same => ?_
      rw [here, ← same] at nodup
      exact nodup.1 (List.mem_map_of_mem member)
    · rw [List.eraseP_cons_of_neg (by simp [here]), List.filter_cons_of_pos (by simp [here]), ih nodup.2]

end Maps

/-- The first match is replaced. -/
def modifyFirst {α : Type} (p : α → Bool) (f : α → α) : List α → List α
  | [] => []
  | x :: xs => if p x then f x :: xs else x :: modifyFirst p f xs

variable {β : Type} {f : α → α} {x : α}

variable {p : α → Bool}

theorem mem_modifyFirst {y : α} (member : y ∈ modifyFirst p f xs) :
    y ∈ xs ∨ ∃ x ∈ xs, p x = true ∧ y = f x := by
  induction xs with
  | nil => cases member
  | cons x xs ih =>
    simp only [modifyFirst] at member
    split at member
    next here =>
      rcases List.mem_cons.mp member with first | later
      · exact .inr ⟨x, List.mem_cons_self, here, first⟩
      · exact .inl (List.mem_cons_of_mem _ later)
    · rcases List.mem_cons.mp member with rfl | later
      · exact .inl List.mem_cons_self
      · rcases ih later with old | ⟨x, old, here, new⟩
        · exact .inl (List.mem_cons_of_mem _ old)
        · exact .inr ⟨x, List.mem_cons_of_mem _ old, here, new⟩

theorem modifyFirst_split (f : α → α) (found : xs.find? p = some x) :
    ∃ before after, xs = before ++ x :: after ∧ modifyFirst p f xs = before ++ f x :: after := by
  induction xs with
  | nil => cases found
  | cons y xs ih =>
    by_cases here : p y
    · rw [List.find?_cons_of_pos here] at found
      cases found
      exact ⟨[], xs, rfl, by simp [modifyFirst, here]⟩
    · rw [List.find?_cons_of_neg here] at found
      obtain ⟨before, after, rfl, changed⟩ := ih found
      exact ⟨y :: before, after, rfl, by simp [modifyFirst, here, changed]⟩

theorem modifyFirst_const (f : α → α) (found : xs.find? p = some x) :
    modifyFirst p (fun _ => f x) xs = modifyFirst p f xs := by
  induction xs with
  | nil => rfl
  | cons y xs ih =>
    by_cases here : p y = true
    · rw [List.find?_cons_of_pos here] at found
      cases found
      simp [modifyFirst, here]
    · rw [List.find?_cons_of_neg here] at found
      simp [modifyFirst, here, ih found]

theorem modifyFirst_of_find?_eq_none (f : α → α) (absent : xs.find? p = none) :
    modifyFirst p f xs = xs := by
  induction xs with
  | nil => rfl
  | cons x xs ih =>
    by_cases here : p x = true
    · rw [List.find?_cons_of_pos here] at absent
      cases absent
    · rw [List.find?_cons_of_neg here] at absent
      simp [modifyFirst, here, ih absent]

theorem modifyFirst_self (found : xs.find? p = some x) (same : f x = x) :
    modifyFirst p f xs = xs := by
  obtain ⟨before, after, split, changed⟩ := modifyFirst_split f found
  rw [changed, same, split]

/-- The first match is put back in the place of what had taken its own. -/
theorem modifyFirst_restore {x y : α} (found : xs.find? p = some x) (matching : p y = true) :
    modifyFirst p (fun _ => x) (modifyFirst p (fun _ => y) xs) = xs := by
  induction xs with
  | nil => rfl
  | cons z xs ih =>
    by_cases here : p z = true
    · rw [List.find?_cons_of_pos here] at found
      cases found
      simp [modifyFirst, here, matching]
    · rw [List.find?_cons_of_neg here] at found
      simp [modifyFirst, here, ih found]

/-- Where at most one item matches, the first match is every match. -/
theorem modifyFirst_eq_map (f : α → α) (one : xs.countP p ≤ 1) :
    modifyFirst p f xs = xs.map fun x => if p x then f x else x := by
  induction xs with
  | nil => rfl
  | cons x xs ih =>
    rw [modifyFirst, List.map_cons]
    by_cases here : p x = true
    · rw [List.countP_cons_of_pos here] at one
      have none (y) (member : y ∈ xs) : ¬ p y = true := List.countP_eq_zero.mp (by omega) y member
      rw [if_pos here, if_pos here]
      congr 1
      exact ((List.map_congr_left fun y member => if_neg (none y member)).trans (List.map_id xs)).symm
    · rw [List.countP_cons_of_neg here] at one
      rw [if_neg here, if_neg here, ih one]

/-- The last match is replaced; `none` where there is no match. -/
def modifyLast {α : Type} (p : α → Bool) (f : α → α) : List α → Option (List α)
  | [] => none
  | x :: xs =>
    match modifyLast p f xs with
    | some ys => some (x :: ys)
    | none => if p x then some (f x :: xs) else none

theorem modifyLast_eq_none :
    modifyLast p f xs = none ↔ ∀ x ∈ xs, p x = false := by
  induction xs with
  | nil => simp [modifyLast]
  | cons x xs ih =>
    rw [modifyLast]
    cases later : modifyLast p f xs with
    | some ys =>
      have some : ¬ ∀ x ∈ xs, p x = false := fun none => by
        rw [ih.mpr none] at later
        cases later
      simp only [reduceCtorEq, false_iff]
      exact fun none => some fun y member => none y (List.mem_cons_of_mem _ member)
    | none =>
      have rest := ih.mp later
      dsimp only
      constructor
      · intro same y member
        rcases List.mem_cons.mp member with rfl | old
        · by_contra here
          rw [if_pos (by simpa using here)] at same
          cases same
        · exact rest y old
      · intro none
        rw [if_neg (by simp [none x List.mem_cons_self])]

/-- What is in front of the match and behind it stays. -/
theorem modifyLast_eq_some {xs ys : List α} (done : modifyLast p f xs = some ys) :
    ∃ front x back, xs = front ++ x :: back ∧ p x = true ∧ ys = front ++ f x :: back := by
  induction xs generalizing ys with
  | nil => cases done
  | cons x xs ih =>
    rw [modifyLast] at done
    cases later : modifyLast p f xs with
    | some zs =>
      rw [later] at done
      cases done
      obtain ⟨front, y, back, rfl, here, rfl⟩ := ih later
      exact ⟨x :: front, y, back, rfl, here, rfl⟩
    | none =>
      rw [later] at done
      dsimp only at done
      split at done
      next here =>
        cases done
        exact ⟨[], x, xs, rfl, here, rfl⟩
      next => cases done

/-- Replacing the first match changes what all have by what the two have. -/
theorem perm_flatMap_modifyFirst (g : α → List β)
    (found : xs.find? p = some x) : ((modifyFirst p f xs).flatMap g ++ g x).Perm (xs.flatMap g ++ g (f x)) := by
  induction xs with
  | nil => cases found
  | cons y xs ih =>
    simp only [modifyFirst]
    by_cases here : p y = true
    · rw [List.find?_cons_of_pos here] at found
      cases found
      rw [if_pos here, List.flatMap_cons, List.flatMap_cons, List.append_assoc]
      calc g (f x) ++ (xs.flatMap g ++ g x)
        List.Perm _ ((xs.flatMap g ++ g x) ++ g (f x)) := List.perm_append_comm
        List.Perm _ ((g x ++ xs.flatMap g) ++ g (f x)) := List.perm_append_comm.append_right _
    · rw [List.find?_cons_of_neg here] at found
      rw [if_neg here, List.flatMap_cons, List.flatMap_cons, List.append_assoc, List.append_assoc]
      exact (ih found).append_left _

/-- The new item takes the place of the one that is found. -/
theorem mem_modifyFirst_of_find? {x y : α}
    (found : xs.find? p = some x) (member : y ∈ modifyFirst p f xs) : y ∈ xs ∨ y = f x := by
  have perm := perm_flatMap_modifyFirst (f := f) (fun y => [y]) found
  rw [List.flatMap_singleton', List.flatMap_singleton'] at perm
  have listed := perm.mem_iff.mp (List.mem_append_left _ member)
  rwa [List.mem_append, List.mem_singleton] at listed

theorem map_modifyFirst {g : α → β} (same : ∀ x, g (f x) = g x) (xs : List α) :
    (modifyFirst p f xs).map g = xs.map g := by
  induction xs with
  | nil => rfl
  | cons x xs ih =>
    simp only [modifyFirst]
    split
    · rw [List.map_cons, List.map_cons, same]
    · rw [List.map_cons, List.map_cons, ih]

/-- Replacing the first match by one more of it. -/
theorem sum_modifyFirst {g : α → Nat} (more : ∀ x, g (f x) = g x + 1)
    (found : xs.any p = true) : ((modifyFirst p f xs).map g).sum = (xs.map g).sum + 1 := by
  induction xs with
  | nil => cases found
  | cons x xs ih =>
    simp only [modifyFirst]
    by_cases here : p x = true
    · rw [if_pos here, List.map_cons, List.map_cons, List.sum_cons, List.sum_cons, more]
      omega
    · have later : xs.any p = true := by simpa [here] using found
      rw [if_neg here, List.map_cons, List.map_cons, List.sum_cons, List.sum_cons, ih later]
      omega

/-- Where the new item is kept only if the old one was, nothing is kept that was not. -/
theorem modifyFirst_filter_sublist {p kept : α → Bool} {g : α → β}
    (same : ∀ x, g (f x) = g x) (back : ∀ x ∈ xs, p x = true → kept (f x) = true → kept x = true) :
    (((modifyFirst p f xs).filter kept).map g).Sublist ((xs.filter kept).map g) := by
  induction xs with
  | nil => exact .slnil
  | cons x xs ih =>
    have later := ih fun y member => back y (List.mem_cons_of_mem _ member)
    simp only [modifyFirst]
    split
    next here =>
      by_cases new : kept (f x) = true
      · have old := back x List.mem_cons_self here new
        rw [List.filter_cons_of_pos new, List.filter_cons_of_pos old, List.map_cons, List.map_cons]
        exact same x ▸ List.Sublist.refl _
      · rw [List.filter_cons_of_neg new]
        exact ((List.sublist_cons_self x xs).filter _).map _
    · by_cases old : kept x = true
      · rw [List.filter_cons_of_pos old, List.filter_cons_of_pos old, List.map_cons, List.map_cons]
        exact later.cons_cons _
      · rw [List.filter_cons_of_neg old, List.filter_cons_of_neg old]
        exact later

/-- What an evaluation of a list finds of each item. -/
theorem forall_mem_of_all {p : α → Prop} [DecidablePred p] (all : xs.all (fun x => decide (p x)) = true) :
    ∀ x ∈ xs, p x :=
  fun x member => of_decide_eq_true (List.all_eq_true.mp all x member)

/-- What one item alone is mapped to. -/
theorem mem_filterMap_iff {f : α → Option β} {a : α} {b : β} (only : ∀ x, f x = some b ↔ x = a) :
    b ∈ xs.filterMap f ↔ a ∈ xs := by
  rw [List.mem_filterMap]
  constructor
  · rintro ⟨x, member, mapped⟩
    rwa [(only x).mp mapped] at member
  · exact fun member => ⟨a, member, (only a).mpr rfl⟩

/-- The keys of the entries that some items make are keys of those items. -/
theorem keys_filterMap_sublist {α β κ : Type} {entry : β → Option (κ × α)} {key : β → Option κ}
    (keyed : ∀ b e, entry b = some e → key b = some e.1) (xs : List β) :
    ((xs.filterMap entry).map Prod.fst).Sublist (xs.filterMap key) := by
  induction xs with
  | nil => exact List.Sublist.slnil
  | cons x xs ih =>
    cases made : entry x with
    | some e =>
      rw [List.filterMap_cons_some made, List.filterMap_cons_some (keyed x e made), List.map_cons]
      exact ih.cons_cons e.1
    | none =>
      rw [List.filterMap_cons_none made]
      exact ih.trans ((List.sublist_cons_self x xs).filterMap key)

/-- A list is converted when each of its items is. -/
theorem mapM_eq_some_iff {f : α → Option β} {ys : List β} :
    xs.mapM f = some ys ↔ List.Forall₂ (fun x y => f x = some y) xs ys := by
  induction xs generalizing ys with
  | nil =>
    rw [List.mapM_nil, List.forall₂_nil_left_iff]
    exact ⟨fun same => (Option.some.inj same).symm, fun empty => congrArg some empty.symm⟩
  | cons x xs ih =>
    rw [List.mapM_cons]
    constructor
    · intro done
      obtain ⟨y, first, done⟩ := Option.bind_eq_some_iff.mp done
      obtain ⟨rest, later, done⟩ := Option.bind_eq_some_iff.mp done
      obtain rfl := Option.some.inj done
      exact .cons first (ih.mp later)
    · rintro (_ | ⟨first, later⟩)
      rw [first, ih.mpr later]
      rfl

/-- The rule of a loop: what holds before it, and is kept by each item for the items done so
far, holds of them all after it. -/
theorem foldl_rule {f : β → α → β} {P : List α → β → Prop} {b : β} (first : P [] b)
    (keeps : ∀ done x b, P done b → P (done ++ [x]) (f b x)) (xs : List α) : P xs (xs.foldl f b) := by
  induction xs using List.reverseRecOn with
  | nil => exact first
  | append_singleton xs x ih =>
    rw [List.foldl_append]
    exact keeps xs x _ ih

end Braidcast.Lib
