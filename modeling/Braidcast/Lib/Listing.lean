import Mathlib.Data.List.Nodup

/-!
# An order kept of a changing set

What is listed comes and goes. The order keeps what is still there as it was and takes what is new at
its end, and a move puts one of it elsewhere.
-/
namespace Braidcast.Lib

variable {α : Type} [DecidableEq α] {order live kept xs ys as bs cs ds : List α} {x y : α}

def keepUp (order live : List α) : List α := order.filter (· ∈ live) ++ live.filter (· ∉ order)

theorem mem_keepUp : x ∈ keepUp order live ↔ x ∈ live := by
  simp only [keepUp, List.mem_append, List.mem_filter, decide_eq_true_eq]
  by_cases listed : x ∈ order <;> simp [listed]

/-- Only what was listed twice is listed twice. -/
theorem nodup_keepUp_iff (nodup : live.Nodup) : (keepUp order live).Nodup ↔ (order.filter (· ∈ live)).Nodup := by
  refine ⟨fun all => all.of_append_left, fun old => List.Nodup.append old (nodup.filter _) ?_⟩
  intro x listed fresh
  have known := (List.mem_filter.mp listed).1
  exact of_decide_eq_true (List.mem_filter.mp fresh).2 known

theorem nodup_keepUp (nodup : live.Nodup) (listed : order.Nodup) : (keepUp order live).Nodup :=
  (nodup_keepUp_iff nodup).mpr (listed.filter _)

theorem keepUp_of_mem_iff (same : ∀ x, x ∈ order ↔ x ∈ live) : keepUp order live = order := by
  have old : order.filter (· ∈ live) = order := List.filter_eq_self.mpr fun x listed => decide_eq_true ((same x).mp listed)
  have fresh : live.filter (· ∉ order) = [] :=
    List.filter_eq_nil_iff.mpr fun x there absent => of_decide_eq_true absent ((same x).mpr there)
  rw [keepUp, old, fresh, List.append_nil]

theorem keepUp_keepUp (order live : List α) : keepUp (keepUp order live) live = keepUp order live :=
  keepUp_of_mem_iff fun _ => mem_keepUp

/-- Taking in what is missing, one after the other. -/
theorem foldl_append_missing (nodup : live.Nodup) (kept : List α) :
    live.foldl (fun (kept : List α) x => if x ∈ kept then kept else kept ++ [x]) kept = kept ++ live.filter (· ∉ kept) := by
  induction live generalizing kept with
  | nil => exact (List.append_nil kept).symm
  | cons x live ih =>
    obtain ⟨new, nodup⟩ := List.nodup_cons.mp nodup
    rw [List.foldl_cons, ih nodup]
    by_cases known : x ∈ kept
    · simp [known]
    · have rest : live.filter (· ∉ kept ++ [x]) = live.filter (· ∉ kept) :=
        List.filter_congr fun y member => by
          have other : y ≠ x := fun same => new (same ▸ member)
          simp [other]
      rw [if_neg known, rest, List.append_assoc, List.filter_cons_of_pos (by simpa using known)]
      rfl

theorem keepUp_eq_foldl (nodup : live.Nodup) (order : List α) :
    live.foldl (fun (kept : List α) x => if x ∈ kept then kept else kept ++ [x]) (order.filter (· ∈ live)) = keepUp order live := by
  rw [foldl_append_missing nodup, keepUp]
  congr 1
  exact List.filter_congr fun x there => by simp [there]

/-- The two lists are one but for the places of `x`. -/
def MovesOnly (x : α) (xs ys : List α) : Prop := ys.Perm xs ∧ ys.filter (· ≠ x) = xs.filter (· ≠ x)

theorem MovesOnly.refl (x : α) (xs : List α) : MovesOnly x xs xs := ⟨.refl xs, rfl⟩

theorem movesOnly_of_rest (rest : as ++ bs = cs ++ ds) : MovesOnly x (as ++ x :: bs) (cs ++ x :: ds) := by
  have perm : (cs ++ x :: ds).Perm (as ++ x :: bs) :=
    calc (cs ++ x :: ds).Perm (x :: (cs ++ ds)) := List.perm_middle
      _ = x :: (as ++ bs) := by rw [rest]
      _ |>.Perm (as ++ x :: bs) := List.perm_middle.symm
  refine ⟨perm, ?_⟩
  have filtered := congrArg (List.filter (· ≠ x)) rest
  simpa using filtered.symm

theorem MovesOnly.nodup_iff (moves : MovesOnly x xs ys) : ys.Nodup ↔ xs.Nodup := moves.1.nodup_iff

def swapAt (xs : List α) (i j : Nat) : List α :=
  match xs[i]?, xs[j]? with
  | some x, some y => (xs.set i y).set j x
  | _, _ => xs

omit [DecidableEq α] in
theorem swapAt_next (as bs : List α) (x y : α) : swapAt (as ++ x :: y :: bs) as.length (as.length + 1) = as ++ y :: x :: bs := by
  simp [swapAt]

omit [DecidableEq α] in
theorem swapAt_prev (as bs : List α) (x y : α) : swapAt (as ++ x :: y :: bs) (as.length + 1) as.length = as ++ y :: x :: bs := by
  simp [swapAt]

/-- What follows `x` changes places with it. -/
theorem movesOnly_swapAt_next (follows : as.length + 1 < (as ++ x :: bs).length) :
    MovesOnly x (as ++ x :: bs) (swapAt (as ++ x :: bs) as.length (as.length + 1)) := by
  cases bs with
  | nil => simp at follows
  | cons y bs =>
    rw [swapAt_next]
    have moved : as ++ y :: x :: bs = (as ++ [y]) ++ x :: bs := by simp
    rw [moved]
    exact movesOnly_of_rest (by simp)

theorem movesOnly_swapAt_prev (precedes : 0 < as.length) :
    MovesOnly x (as ++ x :: bs) (swapAt (as ++ x :: bs) as.length (as.length - 1)) := by
  rcases List.eq_nil_or_concat as with rfl | ⟨as, y, rfl⟩
  · cases precedes
  · have here : (as ++ [y]) ++ x :: bs = as ++ y :: x :: bs := by simp
    rw [List.concat_eq_append, List.length_append, List.length_singleton, Nat.add_sub_cancel, here, swapAt_prev, ← here]
    exact movesOnly_of_rest (by simp)

omit [DecidableEq α] in
theorem eraseIdx_split (as bs : List α) (x : α) : (as ++ x :: bs).eraseIdx as.length = as ++ bs := by
  rw [List.eraseIdx_append_of_length_le (Nat.le_refl _), Nat.sub_self]
  rfl

theorem movesOnly_front : MovesOnly x (as ++ x :: bs) (x :: (as ++ x :: bs).eraseIdx as.length) := by
  rw [eraseIdx_split]
  have inFront : x :: (as ++ bs) = [] ++ x :: (as ++ bs) := rfl
  rw [inFront]
  exact movesOnly_of_rest rfl

theorem movesOnly_end : MovesOnly x (as ++ x :: bs) ((as ++ x :: bs).eraseIdx as.length ++ [x]) := by
  rw [eraseIdx_split]
  exact movesOnly_of_rest (List.append_nil _).symm

omit [DecidableEq α] in
theorem insertIdx_eq_append {i : Nat} (within : i ≤ xs.length) : xs.insertIdx i x = xs.take i ++ x :: xs.drop i := by
  induction i generalizing xs with
  | zero => rfl
  | succ i ih =>
    cases xs with
    | nil => cases within
    | cons y xs => simpa using ih (Nat.le_of_succ_le_succ within)

/-- One taken out is put back at any place. -/
theorem movesOnly_insertIdx (there : x ∈ xs) {i : Nat} (within : i ≤ (xs.erase x).length) :
    MovesOnly x xs ((xs.erase x).insertIdx i x) := by
  obtain ⟨as, bs, -, rfl, erased⟩ := List.exists_erase_eq there
  rw [insertIdx_eq_append within, erased]
  exact movesOnly_of_rest (List.take_append_drop i (as ++ bs)).symm

end Braidcast.Lib
