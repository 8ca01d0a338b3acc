import Mathlib.Algebra.Order.Ring.Int

/-!
# Stamps that expire

A list of stamps is a multiset with an end to expire at: stamps join at the back, are taken back
wherever they stand and are pruned as a prefix. Two lists agree from a level on where every stamp
not below it stands in both equally often. Pruning below the level keeps that whatever the order
of the stamps; that the length of what is left is the count takes one more thing, and exactly that.
-/
namespace Braidcast.Lib

variable {K : Type} [LinearOrder K] {level cutoff v : K} {xs ys zs : List K}

/-- The last stamp of a value goes, where there is one. -/
def eraseLast (v : K) (xs : List K) : List K := (xs.reverse.erase v).reverse

/-- The stamps below the cutoff go from the front. -/
def prune (cutoff : K) (xs : List K) : List K := xs.dropWhile (· < cutoff)

/-- From the level on. -/
def Agree (level : K) (xs ys : List K) : Prop := ∀ v, level ≤ v → xs.count v = ys.count v

/-- No stamp below the cutoff stands behind one that is not. -/
def Straight (cutoff : K) (xs : List K) : Prop := xs.Pairwise fun s t => t < cutoff → s < cutoff

theorem eraseLast_sublist : (eraseLast v xs).Sublist xs := by
  have shorter : (xs.reverse.erase v).Sublist xs.reverse := List.erase_sublist
  have turned := shorter.reverse
  rwa [List.reverse_reverse] at turned

theorem prune_sublist : (prune cutoff xs).Sublist xs := (List.dropWhile_suffix _).sublist

theorem eraseLast_perm : (eraseLast v xs).Perm (xs.erase v) :=
  (List.reverse_perm _).trans ((List.reverse_perm xs).erase v)

namespace Agree

theorem push (agree : Agree level xs ys) (v : K) : Agree level (xs ++ [v]) (ys ++ [v]) := fun w high => by
  rw [List.count_append, List.count_append, agree w high]

theorem perm (agree : Agree level xs ys) (same : ys.Perm zs) : Agree level xs zs :=
  fun w high => (agree w high).trans (same.count_eq w)

/-- A stamp that may have been pruned goes from both. -/
theorem takeBack (agree : Agree level xs (v :: ys)) : Agree level (eraseLast v xs) ys := fun w high => by
  have before := agree w high
  rw [eraseLast_perm.count_eq, List.count_erase, before, List.count_cons]
  exact Nat.add_sub_cancel ..

/-- What a prune drops is below its cutoff. -/
theorem count_prune (high : cutoff ≤ v) : (prune cutoff xs).count v = xs.count v := by
  induction xs with
  | nil => rfl
  | cons x xs ih =>
    unfold prune at ih ⊢
    by_cases old : x < cutoff
    · rw [List.dropWhile_cons_of_pos (by simpa using old), ih]
      exact (List.count_cons_of_ne (ne_of_lt (lt_of_lt_of_le old high))).symm
    · rw [List.dropWhile_cons_of_neg (by simpa using old)]

theorem prune (agree : Agree level xs ys) (below : cutoff ≤ level) : Agree level (prune cutoff xs) ys :=
  fun w high => (count_prune (below.trans high)).trans (agree w high)

/-- Lists that agree hold equally many stamps from the level on. -/
theorem countP_eq (agree : Agree level xs ys) : xs.countP (level ≤ ·) = ys.countP (level ≤ ·) := by
  have same : (xs.filter (level ≤ ·)).Perm (ys.filter (level ≤ ·)) := by
    rw [List.perm_iff_count]
    intro w
    by_cases high : level ≤ w
    · rw [List.count_filter (by simpa using high), List.count_filter (by simpa using high)]
      exact agree w high
    · have absent (zs : List K) : w ∉ zs.filter (level ≤ ·) := fun member => high (by simpa using (List.mem_filter.mp member).2)
      rw [List.count_eq_zero_of_not_mem (absent xs), List.count_eq_zero_of_not_mem (absent ys)]
  rw [List.countP_eq_length_filter, List.countP_eq_length_filter]
  exact same.length_eq

end Agree

theorem Straight.sublist (straight : Straight cutoff ys) (part : xs.Sublist ys) : Straight cutoff xs := List.Pairwise.sublist part straight

theorem straight_of_sorted (sorted : xs.Pairwise (· ≤ ·)) (cutoff : K) : Straight cutoff xs :=
  sorted.imp fun before old => lt_of_le_of_lt before old

/-- A pruned list is as long as it has stamps in the window just where no old stamp was behind a
new one. -/
theorem length_prune_iff : (prune cutoff xs).length = xs.countP (cutoff ≤ ·) ↔ Straight cutoff xs := by
  induction xs with
  | nil => exact ⟨fun _ => List.Pairwise.nil, fun _ => rfl⟩
  | cons x xs ih =>
    unfold prune Straight at ih ⊢
    by_cases old : x < cutoff
    · have out : ¬ cutoff ≤ x := not_le.mpr old
      rw [List.dropWhile_cons_of_pos (by simpa using old), List.countP_cons_of_neg (by simpa using out), ih, List.pairwise_cons]
      exact ⟨fun rest => ⟨fun _ _ _ => old, rest⟩, And.right⟩
    · -- everything from here on stays, so all of it has to be in the window
      have here : cutoff ≤ x := not_lt.mp old
      rw [List.dropWhile_cons_of_neg (by simpa using old), eq_comm, List.countP_eq_length, List.pairwise_cons]
      constructor
      · intro all
        have inside (y) (member : y ∈ xs) : cutoff ≤ y := by simpa using all y (List.mem_cons_of_mem _ member)
        refine ⟨fun y member late => absurd late (not_lt.mpr (inside y member)), ?_⟩
        exact List.pairwise_of_forall_mem_list fun _ _ y member late => absurd late (not_lt.mpr (inside y member))
      · rintro ⟨first, -⟩ y member
        rcases List.mem_cons.mp member with rfl | later
        · simpa using here
        · simpa using not_lt.mp fun late => old (first y later late)

end Braidcast.Lib
