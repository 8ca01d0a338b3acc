import Braidcast.History.Recorder
import Braidcast.Lib.Counters
import Mathlib.Algebra.Order.Ring.Int

/-!
# What the health rows of a session add up to

A row's frames are counted from the last sample whose row was written. Whatever the throttle
leaves out and whichever inserts fail, the rows of a session are the differences of the samples
it persisted.
-/
namespace Braidcast.History

open Lib

namespace Recorder

theorem delta_eq (now before : Int) : delta now before = Counters.delta now before := rfl

/-- The sample whose row a step writes. -/
def persisted (m : Moment Recorder Input) : Option HealthSample :=
  match m.input with
  | .sample sample none => if m.before.takes sample then some sample else none
  | _ => none

def healthOf (r : Recorder) (id : String) : List SessionHealth := r.db.health.filter fun row => row.sessionId = id

/-- The rows of the session `id` are the differences of `samples`, and the baseline is the last of them. -/
structure Counts (r : Recorder) (id : String) (samples : List HealthSample) : Prop where
  current : r.currentId = id
  dropped : (r.healthOf id).map (·.droppedFrames) = Counters.intervals (samples.map (·.cumulativeDroppedFrames))
  skipped : (r.healthOf id).map (·.encodeSkipped) = Counters.intervals (samples.map (·.cumulativeEncodeSkipped))
  have_ : r.havePersisted = !samples.isEmpty
  last : samples ≠ [] → r.lastPersisted = samples.getLastD {}

section

variable {r r' : Recorder} {id : String} {samples : List HealthSample} {input : Input}

section

variable (counts : r.Counts id samples)
include counts

/-- A step that neither writes a health row nor moves the baseline. -/
theorem Counts.same (current : r'.currentId = id) (health : r'.db.health = r.db.health)
    (have_ : r'.havePersisted = r.havePersisted) (last : r'.lastPersisted = r.lastPersisted) : r'.Counts id samples := by
  have rows : r'.healthOf id = r.healthOf id := by rw [healthOf, healthOf, health]
  exact ⟨current, rows ▸ counts.dropped, rows ▸ counts.skipped, have_ ▸ counts.have_, last ▸ counts.last⟩

/-- The next difference is taken from the last sample persisted. -/
theorem intervals_concat_sample (field : HealthSample → Int) (sample : HealthSample) :
    Counters.intervals ((samples ++ [sample]).map field) = Counters.intervals (samples.map field) ++
      [if r.havePersisted then delta (field sample) (field r.lastPersisted) else field sample] := by
  rw [List.map_append, List.map_singleton, Counters.intervals_concat, counts.have_]
  rcases List.eq_nil_or_concat samples with rfl | ⟨earlier, last, rfl⟩
  · rfl
  · have baseline := counts.last (by simp)
    simp [baseline, delta_eq]

theorem Counts.insert (sample : HealthSample) :
    ({ r with
      db := { r.db with health := r.db.health ++ [r.healthRow sample] }
      lastPersisted := sample
      havePersisted := true } : Recorder).Counts id (samples ++ [sample]) := by
  have rows : ({ r with
      db := { r.db with health := r.db.health ++ [r.healthRow sample] }
      lastPersisted := sample
      havePersisted := true } : Recorder).healthOf id = r.healthOf id ++ [r.healthRow sample] := by
    simp [healthOf, healthRow, counts.current]
  refine ⟨counts.current, ?_, ?_, by simp, fun _ => by simp⟩
  · rw [rows, List.map_append, counts.dropped, intervals_concat_sample counts (·.cumulativeDroppedFrames)]
    rfl
  · rw [rows, List.map_append, counts.skipped, intervals_concat_sample counts (·.cumulativeEncodeSkipped)]
    rfl

theorem Counts.onSample (sample : HealthSample) (thrown : Option String) :
    (r.onSample sample thrown).Counts id (samples ++ (persisted ⟨r, .sample sample thrown, r.onSample sample thrown⟩).toList) := by
  unfold Recorder.onSample persisted
  cases thrown with
  | none =>
    dsimp only
    split
    · exact counts.insert sample
    · simpa using counts
  | some what =>
    -- the insert threw, and the baseline stays
    rw [Option.toList_none, List.append_nil]
    dsimp only
    split
    · exact counts.same counts.current rfl rfl rfl
    · exact counts

theorem Counts.step (real : id ≠ "") (step : Step r input r') (still : r'.currentId = id) :
    r'.Counts id (samples ++ (persisted ⟨r, input, r'⟩).toList) := by
  have recording : r.isRecording = true := by simpa [isRecording, counts.current] using real
  cases input with
  | sample sample thrown =>
    cases step
    exact counts.onSample sample thrown
  | attach thrown =>
    cases step
    cases thrown <;> exact absurd still.symm real
  | detach =>
    cases step
    exact absurd still.symm real
  | begin_ c =>
    obtain ⟨-, taken⟩ := Option.ite_none_right_eq_some.mp step
    cases taken
    have unchanged : (r.begin_ c).1 = r := by simp [Recorder.begin_, recording]
    rw [unchanged]
    simpa [persisted] using counts
  | destinationEnded bindingUuid finalState error thrown =>
    cases step
    simp only [persisted, Option.toList_none, List.append_nil]
    unfold onDestinationEnded
    split
    · exact counts
    · split
      · exact counts
      · exact counts.same counts.current rfl rfl rfl
      · exact counts.same counts.current rfl rfl rfl
  | end_ endedAtMs reason thrown =>
    cases step
    simp only [persisted, Option.toList_none, List.append_nil]
    unfold end_ at still ⊢
    split
    · exact counts
    · next recorded =>
      rw [if_neg recorded] at still
      exact absurd still.symm real
  | setThumbnail relPath thrown =>
    cases step
    simp only [persisted, Option.toList_none, List.append_nil]
    unfold setThumbnail updateSession
    split
    · exact counts
    · cases thrown <;> exact counts.same counts.current rfl rfl rfl

end

end

/-! ### Begin -/

theorem writeDestinations_keeps (sessionId : String) (now : Int) (r : Recorder) (rows : List (DestinationRecord × String))
    (left : Option Nat) :
    (writeDestinations sessionId now r rows left).1.db.sessions = r.db.sessions ∧
      (writeDestinations sessionId now r rows left).1.db.health = r.db.health := by
  induction rows generalizing r left with
  | nil => exact ⟨rfl, rfl⟩
  | cons row rows ih =>
    unfold writeDestinations
    split
    · exact ⟨rfl, rfl⟩
    · exact ih ..

/-- A session begins with no rows. -/
theorem counts_begin {r : Recorder} {c : BeginCall} (draws : Draws r.db c) (returned : (r.begin_ c).2 ≠ "") :
    (r.begin_ c).1.Counts c.id [] := by
  obtain ⟨-, -, unheard, -⟩ := draws
  have none : r.db.health.filter (fun row => row.sessionId = c.id) = [] := by
    refine List.filter_eq_nil_iff.mpr fun row member same => unheard ?_
    exact of_decide_eq_true same ▸ List.mem_map_of_mem member
  have kept := (writeDestinations_keeps c.id c.now { r with db := r.db.replaceSession (sessionOf c.start c.id c.now) }
    (c.start.destinations.zip c.rowIds) (c.thrown.map fun t => t.1 - 1)).2
  unfold Recorder.begin_ at returned ⊢
  split at returned
  · exact absurd rfl returned
  next open_ =>
  split at returned
  · exact absurd rfl returned
  next unthrown =>
  split at returned
  · next done =>
    rw [if_neg open_, if_neg unthrown, if_pos done]
    have rows : ((r.writeRows c).1.db.health.filter fun row => row.sessionId = c.id) = [] := by
      rw [writeRows, kept]
      exact none
    refine ⟨rfl, ?_, ?_, rfl, fun some => absurd rfl some⟩ <;> simp [healthOf, rows, Counters.intervals]
  · exact absurd rfl returned

/-! ### Whole sessions -/

/-- The rows add up to the last reading of each run of readings between resets, and without resets to the last
reading of all. -/
def AddUp (rows readings : List Int) : Prop :=
  rows.sum = ((readings.splitBy fun a b => decide (a ≤ b)).map fun run => run.getLastD 0).sum ∧
    (readings.IsChain (· ≤ ·) → rows.sum = readings.getLastD 0)

theorem addUp_intervals (readings : List Int) : AddUp (Counters.intervals readings) readings :=
  ⟨Counters.sum_intervals readings, Counters.sum_intervals_of_isChain⟩

theorem Counts.run {r u : Recorder} {id : String} {samples : List HealthSample} {ms : List (Moment Recorder Input)}
    (counts : r.Counts id samples) (real : id ≠ "") (run : Run Step r ms u) (within : ∀ n ∈ ms, n.after.currentId = id) :
    u.Counts id (samples ++ ms.filterMap persisted) := by
  induction run generalizing samples with
  | nil s => simpa using counts
  | @cons s t u input ms step _ ih =>
    have next := counts.step real step (within _ List.mem_cons_self)
    have last := ih next fun n member => within n (List.mem_cons_of_mem _ member)
    rw [List.append_assoc] at last
    rw [List.filterMap_cons]
    cases written : persisted ⟨s, input, t⟩ <;> simpa [written] using last

/-- Up to any moment of a session, its health rows add up to what its persisted samples counted. -/
theorem health_adds_up {db : Tables} {xs ys : List (Moment Recorder Input)} {m : Moment Recorder Input} {r : Recorder}
    (run : Run Step (fresh db) (xs ++ m :: ys) r) {c : BeginCall} (began : m.input = .begin_ c)
    (returned : (m.before.begin_ c).2 = c.id) (within : ∀ n ∈ ys, n.after.currentId = c.id) :
    AddUp ((r.healthOf c.id).map (·.droppedFrames)) ((ys.filterMap persisted).map (·.cumulativeDroppedFrames)) ∧
      AddUp ((r.healthOf c.id).map (·.encodeSkipped)) ((ys.filterMap persisted).map (·.cumulativeEncodeSkipped)) := by
  have step := run.step_of_mem (m := m) (by simp)
  rw [began] at step
  obtain ⟨draws, taken⟩ := Option.ite_none_right_eq_some.mp step
  have real : c.id ≠ "" := draws.1
  have first : m.after.Counts c.id [] := by
    rw [← Option.some.inj taken]
    exact counts_begin draws (returned.trans_ne real)
  obtain ⟨_, _, rest⟩ := Run.append_iff.mp run
  obtain ⟨_, _, rest⟩ := Run.cons_iff.mp rest
  have all := first.run real rest within
  rw [List.nil_append] at all
  rw [all.dropped, all.skipped]
  exact ⟨addUp_intervals _, addUp_intervals _⟩

/-- A session with a throttled sample, an insert that throws and a reset. -/
def sampledSession : List Input :=
  [.attach none, .begin_ { start := ⟨0, "", "", [], []⟩, id := "s", rowIds := [], now := 0 },
    .sample { cumulativeDroppedFrames := 5 } none, .sample { tMs := 4000, cumulativeDroppedFrames := 6 } none,
    .sample { tMs := 10000, cumulativeDroppedFrames := 8 } (some "disk full"),
    .sample { tMs := 12000, cumulativeDroppedFrames := 9 } none, .sample { tMs := 22000, cumulativeDroppedFrames := 2 } none]

/-- `m` begins the session, and what is stored of it and read from it is known. -/
def sampledFrom (m : Moment Recorder Input) (ys : List (Moment Recorder Input)) (r : Recorder) : Bool :=
  match m.input with
  | .begin_ c => decide ((m.before.begin_ c).2 = c.id ∧ c.id = "s" ∧ (∀ n ∈ ys, n.after.currentId = c.id) ∧
      (ys.filterMap persisted).map (·.cumulativeDroppedFrames) = [5, 9, 2] ∧
      (r.healthOf c.id).map (·.droppedFrames) = [5, 4, 2])
  | _ => false

theorem health_adds_up_sampled : ∃ r : Recorder,
    (r.healthOf "s").map (·.droppedFrames) = [5, 4, 2] ∧ AddUp ((r.healthOf "s").map (·.droppedFrames)) [5, 9, 2] := by
  obtain ⟨xs, m, ys, r, run, shown⟩ := exists_run_through Recorder.step (fresh {}) sampledSession 1
    (fun m ys r => sampledFrom m ys r) (by decide)
  rw [sampledFrom] at shown
  split at shown
  next c began =>
    obtain ⟨returned, same, within, readings, rows⟩ := of_decide_eq_true shown
    have adds := (health_adds_up run began returned within).1
    rw [readings] at adds
    rw [same] at rows adds
    exact ⟨r, rows, adds⟩
  next => cases shown

end Recorder

end Braidcast.History
