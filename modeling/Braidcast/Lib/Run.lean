import Mathlib.Data.List.Basic
import Mathlib.Logic.Relation

/-!
# Runs of a step relation

A run is recorded as the list of its moments, each with the state before the step,
the input the step took and the state after it. Every rule below turns a fact about
one step into a fact about whole runs.
-/
namespace Braidcast.Lib

/-- One step of a run, with the states on either side of it. -/
structure Moment (σ ι : Type) where
  before : σ
  input : ι
  after : σ

inductive Run {σ ι : Type} (Step : σ → ι → σ → Prop) : σ → List (Moment σ ι) → σ → Prop
  | nil (s : σ) : Run Step s [] s
  | cons {s t u : σ} {i : ι} {ms : List (Moment σ ι)} :
      Step s i t → Run Step t ms u → Run Step s (⟨s, i, t⟩ :: ms) u

namespace Run

variable {σ ι : Type} {Step : σ → ι → σ → Prop} {s u : σ} {ms : List (Moment σ ι)}

theorem cons_iff {m : Moment σ ι} :
    Run Step s (m :: ms) u ↔ m.before = s ∧ Step s m.input m.after ∧ Run Step m.after ms u := by
  constructor
  · intro run
    cases run with
    | cons step rest => exact ⟨rfl, step, rest⟩
  · rintro ⟨rfl, step, rest⟩
    exact .cons step rest

theorem append_iff {xs ys : List (Moment σ ι)} :
    Run Step s (xs ++ ys) u ↔ ∃ t, Run Step s xs t ∧ Run Step t ys u := by
  induction xs generalizing s with
  | nil =>
    constructor
    · exact fun run => ⟨s, .nil s, run⟩
    · rintro ⟨t, first, rest⟩
      cases first
      exact rest
  | cons m xs ih =>
    simp only [List.cons_append, cons_iff, ih]
    constructor
    · rintro ⟨same, step, t, first, rest⟩
      exact ⟨t, ⟨same, step, first⟩, rest⟩
    · rintro ⟨t, ⟨same, step, first⟩, rest⟩
      exact ⟨same, step, t, first, rest⟩

/-- Every recorded moment is a step. -/
theorem step_of_mem (run : Run Step s ms u) {m : Moment σ ι} (member : m ∈ ms) :
    Step m.before m.input m.after := by
  induction run with
  | nil => cases member
  | cons step _ ih =>
    rcases List.mem_cons.mp member with rfl | later
    · exact step
    · exact ih later

/-- The part of a run between two of its moments. -/
theorem between {xs ys zs : List (Moment σ ι)} {m m' : Moment σ ι}
    (run : Run Step s (xs ++ m :: (ys ++ m' :: zs)) u) : Run Step m.after ys m'.before := by
  obtain ⟨_, _, rest⟩ := append_iff.mp run
  obtain ⟨_, _, rest⟩ := cons_iff.mp rest
  obtain ⟨_, middle, last⟩ := append_iff.mp rest
  rw [(cons_iff.mp last).1]
  exact middle

variable {P : σ → Prop}

/-- The invariant rule: what every step meeting `Q` preserves holds on both sides of
every moment of a run whose steps all meet it, and at its end. -/
theorem invariant {Q : Moment σ ι → Prop} (keeps : ∀ m, Q m → Step m.before m.input m.after → P m.before → P m.after)
    (run : Run Step s ms u) (ok : ∀ m ∈ ms, Q m) (start : P s) :
    P u ∧ ∀ m ∈ ms, P m.before ∧ P m.after := by
  induction run with
  | nil => exact ⟨start, by simp⟩
  | @cons s t u i ms step _ ih =>
    have next : P t := keeps ⟨s, i, t⟩ (ok _ (by simp)) step start
    obtain ⟨last, each⟩ := ih (fun m h => ok m (by simp [h])) next
    refine ⟨last, fun m member => ?_⟩
    rcases List.mem_cons.mp member with rfl | later
    · exact ⟨start, next⟩
    · exact each m later

/-- The invariant rule where every step preserves it. -/
theorem always (keeps : ∀ s i t, Step s i t → P s → P t) (run : Run Step s ms u) (start : P s) :
    P u := by
  induction run with
  | nil => exact start
  | cons step _ ih => exact ih (keeps _ _ _ step start)

/-- The same run, where every step meets `Ok` as well. -/
theorem also {Ok : σ → ι → Prop} (run : Run Step s ms u) (ok : ∀ m ∈ ms, Ok m.before m.input) :
    Run (fun s i t => Ok s i ∧ Step s i t) s ms u := by
  induction run with
  | nil s => exact .nil s
  | cons step _ ih => exact .cons ⟨ok _ List.mem_cons_self, step⟩ (ih fun m later => ok m (List.mem_cons_of_mem _ later))

/-- A run seen through its inputs, where every step is one of the other relation. -/
theorem relabel {κ : Type} {Other : σ → κ → σ → Prop} {label : Moment σ ι → κ}
    (simulates : ∀ m : Moment σ ι, Step m.before m.input m.after → Other m.before (label m) m.after) (run : Run Step s ms u) :
    Run Other s (ms.map fun m => ⟨m.before, label m, m.after⟩) u := by
  induction run with
  | nil s => exact .nil s
  | @cons s t u i ms step _ ih => exact .cons (simulates ⟨s, i, t⟩ step) ih

/-- A fact that only the moments in `Ends` can end still holds after a run without one. -/
theorem persists {Ok Ends : Moment σ ι → Prop}
    (keeps : ∀ m, Ok m → Step m.before m.input m.after → P m.before → P m.after ∨ Ends m)
    (run : Run Step s ms u) (ok : ∀ m ∈ ms, Ok m) (start : P s) : P u ∨ ∃ m ∈ ms, Ends m := by
  induction run with
  | nil => exact .inl start
  | @cons s t u i ms step _ ih =>
    rcases keeps ⟨s, i, t⟩ (ok _ (by simp)) step start with next | ends
    · rcases ih (fun m h => ok m (by simp [h])) next with last | ⟨m, member, ends⟩
      · exact .inl last
      · exact .inr ⟨m, List.mem_cons_of_mem _ member, ends⟩
    · exact .inr ⟨_, List.mem_cons_self, ends⟩

end Run

/-- The invariant rule for a chain of unlabelled steps. -/
theorem star_keeps {σ : Type} {R : σ → σ → Prop} {P : σ → Prop} (keeps : ∀ s t, R s t → P s → P t)
    {s t : σ} (steps : Relation.ReflTransGen R s t) (start : P s) : P t := by
  induction steps with
  | refl => exact start
  | tail _ step ih => exact keeps _ _ step ih

/-- The moments of a run of a deterministic step on the given inputs. -/
def trace {σ ι : Type} (next : σ → ι → σ) (s : σ) : List ι → List (Moment σ ι)
  | [] => []
  | i :: is => ⟨s, i, next s i⟩ :: trace next (next s i) is

variable {σ ι : Type}

theorem run_trace (next : σ → ι → σ) (s : σ) (is : List ι) :
    Run (fun s i t => next s i = t) s (trace next s is) (is.foldl next s) := by
  induction is generalizing s with
  | nil => exact .nil s
  | cons i is ih => exact .cons rfl (ih (next s i))

theorem last_mem_trace (next : σ → ι → σ) (s : σ) (is : List ι) (i : ι) :
    ⟨is.foldl next s, i, next (is.foldl next s) i⟩ ∈ trace next s (is ++ [i]) := by
  induction is generalizing s with
  | nil => exact List.mem_singleton.mpr rfl
  | cons j is ih => exact List.mem_cons_of_mem _ (ih (next s j))

theorem input_of_mem_trace {next : σ → ι → σ} {s : σ} {is : List ι} {m : Moment σ ι}
    (member : m ∈ trace next s is) : m.input ∈ is := by
  induction is generalizing s with
  | nil => cases member
  | cons i is ih =>
    rcases List.mem_cons.mp member with rfl | later
    · exact List.mem_cons_self
    · exact List.mem_cons_of_mem _ (ih later)

/-- The moments of a run of a partial step on the given inputs, where each can be taken. -/
def follow {σ ι : Type} (step : σ → ι → Option σ) (s : σ) : List ι → Option (List (Moment σ ι) × σ)
  | [] => some ([], s)
  | i :: is => (step s i).bind fun t => (follow step t is).map fun p => (⟨s, i, t⟩ :: p.1, p.2)

theorem run_follow {step : σ → ι → Option σ} {s u : σ} {is : List ι} {ms : List (Moment σ ι)}
    (followed : follow step s is = some (ms, u)) : Run (fun s i t => step s i = some t) s ms u := by
  induction is generalizing s ms with
  | nil =>
    cases followed
    exact .nil _
  | cons i is ih =>
    obtain ⟨t, taken, rest⟩ := Option.bind_eq_some_iff.mp followed
    obtain ⟨⟨ms', u'⟩, followed', same⟩ := Option.map_eq_some_iff.mp rest
    cases same
    exact .cons taken (ih followed')

theorem input_of_mem_follow {step : σ → ι → Option σ} {s u : σ} {is : List ι} {ms : List (Moment σ ι)}
    (followed : follow step s is = some (ms, u)) {m : Moment σ ι} (member : m ∈ ms) : m.input ∈ is := by
  induction is generalizing s ms with
  | nil =>
    cases followed
    cases member
  | cons i is ih =>
    obtain ⟨t, _, rest⟩ := Option.bind_eq_some_iff.mp followed
    obtain ⟨⟨ms', u'⟩, followed', same⟩ := Option.map_eq_some_iff.mp rest
    cases same
    rcases List.mem_cons.mp member with rfl | later
    · exact List.mem_cons_self
    · exact List.mem_cons_of_mem _ (ih followed' later)

/-- A run found by following the inputs, with what a computation shows of it. -/
theorem exists_run_of_follow (step : σ → ι → Option σ) (s : σ) (is : List ι) (shows : List (Moment σ ι) → σ → Bool)
    (computed : (follow step s is).any (fun p => shows p.1 p.2) = true) :
    ∃ ms u, Run (fun s i t => step s i = some t) s ms u ∧ shows ms u = true := by
  obtain ⟨p, followed, shown⟩ := (Option.any_eq_true _ _).mp computed
  exact ⟨p.1, p.2, run_follow followed, shown⟩

/-- The same, with the run cut at its step number `n`. -/
theorem exists_run_through (step : σ → ι → Option σ) (s : σ) (is : List ι) (n : Nat)
    (shows : Moment σ ι → List (Moment σ ι) → σ → Bool)
    (computed : (follow step s is).any (fun p =>
      match p.1.drop n with
      | m :: ys => shows m ys p.2
      | [] => false) = true) :
    ∃ xs m ys u, Run (fun s i t => step s i = some t) s (xs ++ m :: ys) u ∧ shows m ys u = true := by
  obtain ⟨⟨ms, u⟩, followed, shown⟩ := (Option.any_eq_true _ _).mp computed
  have run := run_follow followed
  rw [← List.take_append_drop n ms] at run
  split at shown
  next m ys cut =>
    rw [cut] at run
    exact ⟨ms.take n, m, ys, u, run, shown⟩
  · cases shown

end Braidcast.Lib
