import Mathlib.Data.List.Sort

/-!
# Windows over an ordered history

A window holds some keys of a linear order, and knows of each end whether there is more past
it. It accounts for a key that it holds, or that lies past an end where there is more. What
keeps every key accounted for is stated once for each way a window changes.
-/
namespace Braidcast.Lib

variable {α K : Type} [LinearOrder K] {older newer : Bool} {held : List K} {k : K}

/-- Older than everything held. -/
def Before (held : List K) (k : K) : Prop := held ≠ [] ∧ ∀ x ∈ held, k < x

/-- Newer than everything held. -/
def Past (held : List K) (k : K) : Prop := held ≠ [] ∧ ∀ x ∈ held, x < k

/-- Held, or past an end where there is more. -/
def Accounted (older newer : Bool) (held : List K) (k : K) : Prop :=
  k ∈ held ∨ older = true ∧ Before held k ∨ newer = true ∧ Past held k

theorem before_iff_head (sorted : held.Pairwise (· < ·)) : held.head?.any (k < ·) = true ↔ Before held k := by
  cases held with
  | nil => simp [Before]
  | cons x rest =>
    obtain ⟨first, -⟩ := List.pairwise_cons.mp sorted
    simp only [List.head?_cons, Option.any_some, decide_eq_true_eq, Before, ne_eq, reduceCtorEq, not_false_eq_true,
      true_and, List.mem_cons, forall_eq_or_imp, iff_self_and]
    exact fun less y member => less.trans (first y member)

theorem before_of_head (sorted : held.Pairwise (· < ·)) {x : K} (head : held.head? = some x) (less : k < x) :
    Before held k := (before_iff_head sorted).mp (by simpa [head] using less)

theorem past_iff_last (sorted : held.Pairwise (· < ·)) : held.getLast?.any (· < k) = true ↔ Past held k := by
  rcases List.eq_nil_or_concat held with rfl | ⟨rest, x, rfl⟩
  · simp [Past]
  · obtain ⟨-, -, last⟩ := List.pairwise_append.mp (List.concat_eq_append ▸ sorted)
    simp only [List.concat_eq_append, List.getLast?_append, List.getLast?_singleton, Option.some_or, Option.any_some,
      decide_eq_true_eq, Past, List.mem_append, List.mem_singleton]
    refine ⟨fun less => ⟨by simp, ?_⟩, fun past => past.2 x (.inr rfl)⟩
    rintro y (member | rfl)
    · exact (last y member x (by simp)).trans less
    · exact less

namespace Accounted

/-- Letting the oldest go: there is more at that end now. -/
theorem drop (sorted : held.Pairwise (· < ·)) {n : Nat} (left : n < held.length)
    (inv : Accounted older newer held k) : Accounted true newer (held.drop n) k := by
  have some_ : held.drop n ≠ [] := by simpa using left
  have order : ∀ x ∈ held.take n, ∀ y ∈ held.drop n, x < y := by
    rw [← List.take_append_drop n held] at sorted
    exact (List.pairwise_append.mp sorted).2.2
  rcases inv with here | ⟨-, -, before⟩ | ⟨more, -, past⟩
  · rw [← List.take_append_drop n held, List.mem_append] at here
    rcases here with gone | kept
    · exact .inr (.inl ⟨rfl, some_, order k gone⟩)
    · exact .inl kept
  · exact .inr (.inl ⟨rfl, some_, fun x member => before x (List.mem_of_mem_drop member)⟩)
  · exact .inr (.inr ⟨more, some_, fun x member => past x (List.mem_of_mem_drop member)⟩)

/-- Letting the newest go. -/
theorem take (sorted : held.Pairwise (· < ·)) {n : Nat} (left : held.take n ≠ [])
    (inv : Accounted older newer held k) : Accounted older true (held.take n) k := by
  have order : ∀ x ∈ held.take n, ∀ y ∈ held.drop n, x < y := by
    rw [← List.take_append_drop n held] at sorted
    exact (List.pairwise_append.mp sorted).2.2
  rcases inv with here | ⟨more, -, before⟩ | ⟨-, -, past⟩
  · rw [← List.take_append_drop n held, List.mem_append] at here
    rcases here with kept | gone
    · exact .inl kept
    · exact .inr (.inr ⟨rfl, left, fun x member => order x member k gone⟩)
  · exact .inr (.inl ⟨more, left, fun x member => before x (List.mem_of_mem_take member)⟩)
  · exact .inr (.inr ⟨rfl, left, fun x member => past x (List.mem_of_mem_take member)⟩)

/-- Adding keys, none of them past an end where there is more. -/
theorem join {added joined : List K} (inv : Accounted older newer held k)
    (members : ∀ x, x ∈ joined ↔ x ∈ held ∨ x ∈ added)
    (inside : ∀ a ∈ added, ¬ (older = true ∧ Before held a) ∧ ¬ (newer = true ∧ Past held a)) :
    Accounted older newer joined k := by
  have nonempty (some_ : held ≠ []) : joined ≠ [] := by
    obtain ⟨x, member⟩ := List.exists_mem_of_ne_nil held some_
    exact List.ne_nil_of_mem ((members x).mpr (.inl member))
  rcases inv with here | ⟨more, some_, before⟩ | ⟨more, some_, past⟩
  · exact .inl ((members k).mpr (.inl here))
  · refine .inr (.inl ⟨more, nonempty some_, fun x member => ?_⟩)
    rcases (members x).mp member with old | new
    · exact before x old
    · by_contra below
      exact (inside x new).1 ⟨more, some_, fun y there => (not_lt.mp below).trans_lt (before y there)⟩
  · refine .inr (.inr ⟨more, nonempty some_, fun x member => ?_⟩)
    rcases (members x).mp member with old | new
    · exact past x old
    · by_contra above
      exact (inside x new).2 ⟨more, some_, fun y there => (past y there).trans_le (not_lt.mp above)⟩

end Accounted

/-- Adding keys, none of them older than everything held, leaves the oldest where it was. -/
theorem head?_of_join {added joined : List K} (sorted : held.Pairwise (· < ·)) (sorted' : joined.Pairwise (· < ·))
    (some_ : held ≠ []) (members : ∀ x, x ∈ joined ↔ x ∈ held ∨ x ∈ added) (inside : ∀ a ∈ added, ¬ Before held a) :
    joined.head? = held.head? := by
  cases held with
  | nil => exact absurd rfl some_
  | cons first rest =>
    have least : ∀ x ∈ first :: rest, first ≤ x := fun x member => by
      rcases List.mem_cons.mp member with rfl | later
      · exact le_refl x
      · exact ((List.pairwise_cons.mp sorted).1 x later).le
    cases joined with
    | nil => simpa using (members first).mpr (by simp)
    | cons first' rest' =>
      have le : first' ≤ first := by
        rcases List.mem_cons.mp ((members first).mpr (by simp)) with rfl | later
        · exact le_refl first
        · exact ((List.pairwise_cons.mp sorted').1 first later).le
      have ge : first ≤ first' := by
        rcases (members first').mp (by simp) with old | new
        · exact least first' old
        · by_contra below
          exact inside first' new ⟨by simp, fun x member => (not_le.mp below).trans_le (least x member)⟩
      simp [le_antisymm le ge]

/-- Sorting by a key that no two share sorts strictly. -/
theorem sorted_insertionSort {key : α → K} {xs : List α} (nodup : (xs.map key).Nodup) :
    ((xs.insertionSort fun a b => key a ≤ key b).map key).Pairwise (· < ·) := by
  have sorted : (xs.insertionSort fun a b => key a ≤ key b).Pairwise fun a b => key a ≤ key b := by
    exact List.pairwise_insertionSort _ xs
  have distinct : ((xs.insertionSort fun a b => key a ≤ key b).map key).Nodup :=
    ((List.perm_insertionSort _ xs).map key).nodup_iff.mpr nodup
  rw [List.Nodup, List.pairwise_map] at distinct
  rw [List.pairwise_map]
  exact (sorted.and distinct).imp fun ⟨le, ne⟩ => lt_of_le_of_ne le ne

end Braidcast.Lib
