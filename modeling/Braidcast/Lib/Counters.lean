import Mathlib.Data.List.SplitBy
import Mathlib.Algebra.BigOperators.Group.List.Basic
import Mathlib.Algebra.Order.Group.Defs

/-!
# Differences of a counter that may be reset

The readings of a counter that only grows, but may be set back at any time: a reading below
the one before was taken since a reset. Taken as differences the readings add up, over each
run between resets, to the last reading of the run.
-/
namespace Braidcast.Lib.Counters

variable {α : Type} [AddCommGroup α] [LinearOrder α] {before v : α} {xs ys values : List α}

/-- What was counted between two readings, or since the reset between them. -/
def delta (now before : α) : α := if before ≤ now then now - before else now

/-- The differences of some readings, from the reading before them on. -/
def deltas : α → List α → List α
  | _, [] => []
  | before, v :: rest => delta v before :: deltas v rest

/-- The differences of some readings, the first of them taken whole. -/
def intervals : List α → List α
  | [] => []
  | v :: rest => v :: deltas v rest

theorem deltas_append : deltas before (xs ++ ys) = deltas before xs ++ deltas (xs.getLastD before) ys := by
  induction xs generalizing before with
  | nil => rfl
  | cons x xs ih =>
    rw [List.cons_append, deltas, deltas, ih, List.getLastD_cons]
    rfl

theorem intervals_concat : intervals (xs ++ [v]) = intervals xs ++ [if xs = [] then v else delta v (xs.getLastD 0)] := by
  cases xs with
  | nil => rfl
  | cons x xs =>
    rw [List.cons_append, intervals, intervals, deltas_append, List.getLastD_cons]
    rfl

/-- Without a reset the differences telescope. -/
theorem sum_deltas (chain : (before :: xs).IsChain (· ≤ ·)) : (deltas before xs).sum = xs.getLastD before - before := by
  induction xs generalizing before with
  | nil => simp [deltas]
  | cons x xs ih =>
    obtain ⟨grows, rest⟩ := List.isChain_cons_cons.mp chain
    rw [deltas, delta, if_pos grows, List.sum_cons, ih rest, List.getLastD_cons]
    exact sub_add_sub_cancel' ..

theorem sum_intervals_of_isChain (chain : values.IsChain (· ≤ ·)) : (intervals values).sum = values.getLastD 0 := by
  cases values with
  | nil => rfl
  | cons x xs =>
    rw [intervals, List.sum_cons, sum_deltas chain, List.getLastD_cons]
    exact add_sub_cancel ..

/-- A run that starts with a reset counts from 0. -/
theorem sum_deltas_of_reset {run : List α} (chain : run.IsChain (· ≤ ·)) (reset : ∀ x ∈ run.head?, x < before) :
    (deltas before run).sum = run.getLastD 0 := by
  cases run with
  | nil => rfl
  | cons x xs =>
    have back : ¬before ≤ x := not_le.mpr (reset x rfl)
    rw [deltas, delta, if_neg back, ← sum_intervals_of_isChain chain, intervals]

omit [AddCommGroup α] in
/-- The last reading of a run is above the first of the next one. -/
theorem below_of_boundary {run next : List α} (boundary : ∃ here there, next.head there < run.getLast here) :
    ∀ x ∈ next.head?, x < run.getLastD before := by
  obtain ⟨here, there, below⟩ := boundary
  intro x head
  rw [List.head?_eq_some_head there] at head
  rw [← Option.some.inj head, List.getLastD_eq_getLast?, List.getLast?_eq_some_getLast here]
  exact below

theorem sum_deltas_flatten {runs : List (List α)} (filled : [] ∉ runs) (chains : ∀ run ∈ runs, run.IsChain (· ≤ ·))
    (resets : runs.IsChain fun run next => ∃ here there, next.head there < run.getLast here)
    (reset : ∀ run ∈ runs.head?, ∀ x ∈ run.head?, x < before) :
    (deltas before runs.flatten).sum = (runs.map fun run => run.getLastD 0).sum := by
  induction runs generalizing before with
  | nil => rfl
  | cons run runs ih =>
    obtain ⟨next, later⟩ := List.isChain_cons.mp resets
    have rest := @ih (run.getLastD before) (fun member => filled (List.mem_cons_of_mem _ member))
      (fun other member => chains other (List.mem_cons_of_mem _ member)) later
      fun other first => below_of_boundary (next other first)
    rw [List.flatten_cons, deltas_append, List.sum_append, rest, List.map_cons, List.sum_cons,
      sum_deltas_of_reset (chains run List.mem_cons_self) (reset run rfl)]

/-- Over all the readings the differences add up to the last reading of each run between resets. -/
theorem sum_intervals (values : List α) :
    (intervals values).sum = ((values.splitBy fun a b => decide (a ≤ b)).map fun run => run.getLastD 0).sum := by
  have whole := List.flatten_splitBy (fun a b => decide (a ≤ b)) values
  have filled := List.nil_notMem_splitBy (fun a b => decide (a ≤ b)) values
  have chains : ∀ run ∈ values.splitBy fun a b => decide (a ≤ b), run.IsChain (· ≤ ·) := by
    intro run member
    simpa using List.isChain_of_mem_splitBy member
  have resets := List.isChain_getLast_head_splitBy (fun a b => decide (a ≤ b)) values
  simp only [decide_eq_false_iff_not, not_le] at resets
  generalize values.splitBy (fun a b => decide (a ≤ b)) = runs at *
  subst whole
  cases runs with
  | nil => rfl
  | cons run runs =>
    have mine : run ≠ [] := fun empty => filled (empty ▸ List.mem_cons_self)
    obtain ⟨next, later⟩ := List.isChain_cons.mp resets
    obtain ⟨x, xs, rfl⟩ := List.exists_cons_of_ne_nil mine
    have rest : (deltas (xs.getLastD x) runs.flatten).sum = (runs.map fun run => run.getLastD 0).sum := by
      refine sum_deltas_flatten (fun member => filled (List.mem_cons_of_mem _ member))
        (fun other member => chains other (List.mem_cons_of_mem _ member)) later fun other first => ?_
      simpa only [List.getLastD_cons] using @below_of_boundary α _ x _ _ (next other first)
    have first := sum_intervals_of_isChain (chains (x :: xs) List.mem_cons_self)
    rw [List.flatten_cons, List.cons_append, intervals, deltas_append, List.sum_cons, List.sum_append, rest,
      List.map_cons, List.sum_cons, ← first, intervals, List.sum_cons, add_assoc]

end Braidcast.Lib.Counters
