import Mathlib.Order.MinMax
import Mathlib.Order.WellFounded

/-!
# Shedding by priority

Items arrive one after another on tracks, and some of them are shed. An item may refer to what came
before it on its track with a lower priority, so the first one kept after one that was shed should have
a higher priority. `Waits` says that none has been kept since.
-/
namespace Braidcast.Lib

/-- What is known of an item: its place in the order of arrival, its track and its priority. -/
structure Shedding (α τ : Type) where
  place : α → Nat
  track : α → τ
  priority : α → Int

namespace Shedding

variable {α τ : Type} (σ : Shedding α τ) {arrived kept kept' : List α} {p q r : α} {mark h : Int}

/-- `q` comes after `p` on one track. -/
def After (p q : α) : Prop := σ.track q = σ.track p ∧ σ.place p < σ.place q

/-- Of a shed item no later one of its track is kept. -/
def Waits (arrived kept : List α) (p : α) : Prop := p ∈ arrived ∧ p ∉ kept ∧ ∀ q ∈ kept, ¬ σ.After p q

/-- `q` is the next one kept after `p`. -/
def Next (kept : List α) (p q : α) : Prop := q ∈ kept ∧ σ.After p q ∧ ∀ r ∈ kept, σ.After p r → σ.place q ≤ σ.place r

/-- The next one kept after a shed item has a higher priority. -/
def Refers (arrived kept : List α) : Prop :=
  ∀ p ∈ arrived, p ∉ kept → ∀ q, σ.Next kept p q → σ.priority p < σ.priority q

/-- What still waits is below the mark. -/
def Below (arrived kept : List α) (mark : Int) : Prop := ∀ p, σ.Waits arrived kept p → σ.priority p < mark

/-- A cut of the kept items at a priority. -/
structure Cut (kept kept' : List α) (h : Int) : Prop where
  of_mem : ∀ r ∈ kept', r ∈ kept
  shed_lt : ∀ r ∈ kept, r ∉ kept' → σ.priority r < h
  le_kept : ∀ r ∈ kept, r ∉ kept' → ∀ q ∈ kept', σ.After r q → h ≤ σ.priority q

instance [DecidableEq τ] : Decidable (σ.After p q) :=
  inferInstanceAs (Decidable (σ.track q = σ.track p ∧ σ.place p < σ.place q))

instance [DecidableEq α] [DecidableEq τ] : Decidable (σ.Waits arrived kept p) :=
  inferInstanceAs (Decidable (p ∈ arrived ∧ p ∉ kept ∧ ∀ q ∈ kept, ¬ σ.After p q))

instance [DecidableEq α] [DecidableEq τ] : Decidable (σ.Next kept p q) :=
  inferInstanceAs (Decidable (q ∈ kept ∧ σ.After p q ∧ ∀ r ∈ kept, σ.After p r → σ.place q ≤ σ.place r))

variable {σ}

/-- Of two items after one, the one further on is after the other. -/
theorem After.of_lt (first : σ.After p q) (second : σ.After p r) (further : σ.place q < σ.place r) : σ.After q r :=
  ⟨second.1.trans first.1.symm, further⟩

theorem exists_next (member : q ∈ kept) (later : σ.After p q) : ∃ r, σ.Next kept p r := by
  obtain ⟨r, ⟨there, after⟩, least⟩ :=
    (measure σ.place).wf.has_min {r | r ∈ kept ∧ σ.After p r} ⟨q, member, later⟩
  exact ⟨r, there, after, fun x here beyond => Nat.not_lt.mp (least x ⟨here, beyond⟩)⟩

/-- A cut keeps the law: the next one kept after a shed item is the one it was, or comes after one
that the cut sheds. -/
theorem Refers.cut (law : σ.Refers arrived kept) (cut : σ.Cut kept kept' h) : σ.Refers arrived kept' := by
  rintro p member shed q ⟨there, later, least⟩
  by_cases before : p ∈ kept
  · have low := cut.shed_lt p before shed
    have high := cut.le_kept p before shed q there later
    exact lt_of_lt_of_le low high
  · obtain ⟨r, next⟩ := exists_next (cut.of_mem q there) later
    have lower := law p member before r next
    obtain ⟨inside, after, first⟩ := next
    rcases Nat.lt_or_eq_of_le (first q (cut.of_mem q there) later) with further | same
    · have gone : r ∉ kept' := fun stays => absurd further (Nat.not_lt.mpr (least r stays after))
      have high := cut.le_kept r inside gone q there (after.of_lt later further)
      exact lower.trans (lt_of_lt_of_le (cut.shed_lt r inside gone) high)
    · exact law p member before q ⟨cut.of_mem q there, later, fun x here beyond => same ▸ first x here beyond⟩

theorem Below.cut (law : σ.Refers arrived kept) (low : σ.Below arrived kept mark) (cut : σ.Cut kept kept' h) :
    σ.Below arrived kept' (max mark h) := by
  rintro p ⟨member, shed, alone⟩
  by_cases before : p ∈ kept
  · exact lt_max_of_lt_right (cut.shed_lt p before shed)
  by_cases waits : σ.Waits arrived kept p
  · exact lt_max_of_lt_left (low p waits)
  -- what was kept after it is shed now
  have since : ∃ q ∈ kept, σ.After p q := by
    by_contra none
    exact waits ⟨member, before, fun q there later => none ⟨q, there, later⟩⟩
  obtain ⟨q, there, later⟩ := since
  obtain ⟨r, next⟩ := exists_next there later
  have lower := law p member before r next
  have gone : r ∉ kept' := fun stays => alone r stays next.2.1
  exact lt_max_of_lt_right (lower.trans (cut.shed_lt r next.1 gone))

/-- The law where a last item is kept that is no lower than what waits on its track. -/
theorem Refers.keep (law : σ.Refers arrived kept) (last : ∀ p ∈ arrived, σ.place p < σ.place q)
    (sub : ∀ r ∈ kept, r ∈ arrived)
    (high : ∀ p, σ.Waits arrived kept p → σ.track q = σ.track p → σ.priority p < σ.priority q) :
    σ.Refers (arrived ++ [q]) (kept ++ [q]) := by
  rintro p member shed r ⟨there, later, least⟩
  simp only [List.mem_append, List.mem_singleton, not_or] at member shed there
  have arrives : p ∈ arrived := member.resolve_right shed.2
  rcases there with there | rfl
  · exact law p arrives shed.1 r
      ⟨there, later, fun x here beyond => least x (List.mem_append_left _ here) beyond⟩
  · refine high p ⟨arrives, shed.1, fun x here beyond => ?_⟩ later.1
    have bound := least x (List.mem_append_left _ here) beyond
    exact absurd (last x (sub x here)) (Nat.not_lt.mpr bound)

/-- What waits after a last item is kept is not of its track. -/
theorem Waits.of_keep (last : ∀ p ∈ arrived, σ.place p < σ.place q)
    (waits : σ.Waits (arrived ++ [q]) (kept ++ [q]) p) : σ.Waits arrived kept p ∧ σ.track q ≠ σ.track p := by
  obtain ⟨member, shed, alone⟩ := waits
  simp only [List.mem_append, List.mem_singleton, not_or] at member shed
  have arrives : p ∈ arrived := member.resolve_right shed.2
  exact ⟨⟨arrives, shed.1, fun x here => alone x (List.mem_append_left _ here)⟩,
    fun same => alone q (by simp) ⟨same, last p arrives⟩⟩

/-- The law where a last item is shed. -/
theorem Refers.shed (law : σ.Refers arrived kept) (last : ∀ p ∈ arrived, σ.place p < σ.place q)
    (sub : ∀ r ∈ kept, r ∈ arrived) : σ.Refers (arrived ++ [q]) kept := by
  rintro p member shed r next
  rcases List.mem_append.mp member with old | new
  · exact law p old shed r next
  · rw [List.mem_singleton.mp new] at next
    exact absurd (last r (sub r next.1)) (Nat.lt_asymm next.2.1.2)

theorem Below.shed (low : σ.Below arrived kept mark) (under : σ.priority q < mark) :
    σ.Below (arrived ++ [q]) kept mark := by
  rintro p ⟨member, shed, alone⟩
  rcases List.mem_append.mp member with old | new
  · exact low p ⟨old, shed, alone⟩
  · rw [List.mem_singleton.mp new]
    exact under

end Shedding

end Braidcast.Lib
