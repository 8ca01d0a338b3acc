import Mathlib.Data.List.Basic
import Mathlib.Algebra.Order.Ring.Int

/-!
# Evicting from the front

What a pass leaves that drops the oldest items, all but the exempt ones, until what is left fits two bounds.
-/
namespace Braidcast.Lib

section

variable {α : Type} (exempt : α → Bool) (size : α → Nat) (maxTotal maxCount : Nat)

/-- The pass, with the total and the count of what there still is. -/
def evict : Nat → Nat → List α → List α
  | _, _, [] => []
  | total, count, a :: rest =>
    if total ≤ maxTotal ∧ count ≤ maxCount then a :: rest
    else if exempt a then a :: evict total count rest
    else evict (total - size a) (count - 1) rest

def totalSize (xs : List α) : Nat := (xs.map size).sum

variable {exempt size maxTotal maxCount} {total count : Nat} {xs ys : List α} {a : α}

theorem totalSize_cons : totalSize size (a :: xs) = size a + totalSize size xs := rfl

theorem totalSize_append : totalSize size (xs ++ ys) = totalSize size xs + totalSize size ys := by
  simp [totalSize]

theorem totalSize_perm (perm : xs.Perm ys) : totalSize size xs = totalSize size ys := (perm.map size).sum_nat

theorem totalSize_congr {other : α → Nat} (same : ∀ a ∈ xs, other a = size a) : totalSize other xs = totalSize size xs := by
  rw [totalSize, totalSize, List.map_congr_left same]

theorem totalSize_eq_zero (empty : ∀ a ∈ xs, size a = 0) : totalSize size xs = 0 := by
  rw [totalSize, List.sum_eq_zero_iff_forall_eq_nat]
  intro n member
  obtain ⟨a, there, rfl⟩ := List.mem_map.mp member
  exact empty a there

theorem evict_sublist (total count : Nat) (xs : List α) : (evict exempt size maxTotal maxCount total count xs).Sublist xs := by
  induction xs generalizing total count with
  | nil => exact List.Sublist.refl []
  | cons a rest ih =>
    unfold evict
    split
    · exact List.Sublist.refl _
    · split
      · exact (ih total count).cons_cons a
      · exact (ih _ _).cons a

theorem mem_evict_of_exempt (member : a ∈ xs) (spared : exempt a = true) :
    a ∈ evict exempt size maxTotal maxCount total count xs := by
  induction xs generalizing total count with
  | nil => cases member
  | cons b rest ih =>
    unfold evict
    split
    · exact member
    · rcases List.mem_cons.mp member with rfl | later
      · rw [if_pos spared]
        exact List.mem_cons_self
      · split
        · exact List.mem_cons_of_mem b (ih later)
        · exact ih later

/-- Either what is left fits, or all of it is exempt. The pass has left `xs` behind it so far. -/
theorem evict_fits (xs ys : List α) :
    (totalSize size (xs ++ evict exempt size maxTotal maxCount (totalSize size (xs ++ ys)) (xs ++ ys).length ys) ≤ maxTotal ∧
        (xs ++ evict exempt size maxTotal maxCount (totalSize size (xs ++ ys)) (xs ++ ys).length ys).length ≤ maxCount) ∨
      ∀ a ∈ evict exempt size maxTotal maxCount (totalSize size (xs ++ ys)) (xs ++ ys).length ys, exempt a = true := by
  induction ys generalizing xs with
  | nil => exact .inr fun a member => nomatch member
  | cons b rest ih =>
    unfold evict
    split
    next fits => exact .inl fits
    next =>
      split
      next spared =>
        have kept := ih (xs ++ [b])
        have same : xs ++ [b] ++ rest = xs ++ b :: rest := by rw [List.append_assoc, List.singleton_append]
        rw [same] at kept
        refine kept.imp (fun fits => ?_) (fun all => ?_)
        · simpa [List.append_assoc] using fits
        · exact List.forall_mem_cons.mpr ⟨spared, all⟩
      next =>
        have total : totalSize size (xs ++ b :: rest) - size b = totalSize size (xs ++ rest) := by
          rw [totalSize_append, totalSize_append, totalSize_cons]
          omega
        have count : (xs ++ b :: rest).length - 1 = (xs ++ rest).length := by
          simp only [List.length_append, List.length_cons]
          omega
        rw [total, count]
        exact ih xs

end

end Braidcast.Lib
