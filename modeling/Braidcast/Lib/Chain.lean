import Mathlib.Data.List.Nodup

/-!
# Chains

Nodes that point to the next one: what a pointer to the first of them reaches, and taking one out.
-/
namespace Braidcast.Lib

variable {α : Type} {next next' : α → Option α} {xs ys : List α} {a p : α}

/-- Each node points to the one behind it. -/
def Linked (next : α → Option α) : List α → Prop
  | [] => True
  | a :: rest => next a = rest.head? ∧ Linked next rest

theorem Linked.suffix (linked : Linked next (xs ++ ys)) : Linked next ys := by
  induction xs with
  | nil => exact linked
  | cons a rest ih => exact ih linked.2

/-- Only the pointers of the nodes themselves count. -/
theorem Linked.congr (linked : Linked next xs) (same : ∀ a ∈ xs, next' a = next a) : Linked next' xs := by
  induction xs with
  | nil => trivial
  | cons a rest ih =>
    exact ⟨(same a List.mem_cons_self).trans linked.1, ih linked.2 fun b later => same b (List.mem_cons_of_mem _ later)⟩

theorem Linked.next_of_append (linked : Linked next (xs ++ a :: ys)) : next a = ys.head? := linked.suffix.1

section Unlinking

variable [DecidableEq α]

/-- The node in front takes over the pointer of the one that goes. -/
theorem Linked.unlink (linked : Linked next (xs ++ p :: a :: ys)) (nodup : (xs ++ p :: a :: ys).Nodup) :
    Linked (Function.update next p (next a)) (xs ++ p :: ys) := by
  induction xs with
  | nil =>
    have apart : p ∉ a :: ys := (List.nodup_cons.mp nodup).1
    refine ⟨?_, linked.2.2.congr fun b member => Function.update_of_ne ?_ ..⟩
    · rw [Function.update_self]
      exact linked.2.1
    · rintro rfl
      exact apart (List.mem_cons_of_mem _ member)
  | cons b xs ih =>
    obtain ⟨first, rest⟩ := List.nodup_cons.mp nodup
    refine ⟨?_, ih linked.2 rest⟩
    have other : b ≠ p := by
      rintro rfl
      exact first (by simp)
    rw [Function.update_of_ne other, linked.1]
    cases xs <;> rfl

/-- The node in front of `a`, looked for from a pointer on. -/
def predecessor (next : α → Option α) (a : α) : Nat → Option α → Option α
  | 0, _ => none
  | _, none => none
  | n + 1, some b => if next b = some a then some b else predecessor next a n (next b)

theorem predecessor_eq {n : Nat} (linked : Linked next (xs ++ p :: a :: ys)) (nodup : (xs ++ p :: a :: ys).Nodup)
    (enough : xs.length < n) : predecessor next a n (xs ++ p :: a :: ys).head? = some p := by
  induction xs generalizing n with
  | nil =>
    obtain ⟨n, rfl⟩ : ∃ m, n = m + 1 := ⟨n - 1, by omega⟩
    exact if_pos linked.1
  | cons b xs ih =>
    rw [List.length_cons] at enough
    obtain ⟨n, rfl⟩ : ∃ m, n = m + 1 := ⟨n - 1, by omega⟩
    have later : next b ≠ some a := by
      intro here
      have follows : (xs ++ p :: a :: ys).head? = some a := linked.1.symm.trans here
      cases xs with
      | nil =>
        cases follows
        exact absurd List.mem_cons_self (List.nodup_cons.mp (List.nodup_cons.mp nodup).2).1
      | cons c xs =>
        cases follows
        exact absurd (by simp) (List.nodup_cons.mp (List.nodup_cons.mp nodup).2).1
    have found := ih linked.2 (List.nodup_cons.mp nodup).2 (Nat.lt_of_succ_lt_succ enough)
    have same : next b = (xs ++ p :: a :: ys).head? := linked.1
    rw [← same] at found
    exact (if_neg later).trans found

end Unlinking

end Braidcast.Lib
