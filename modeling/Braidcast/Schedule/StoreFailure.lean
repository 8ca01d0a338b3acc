import Braidcast.Schedule.Sound

/-!
# A tick on a store that does not answer

`Get` returns null both for a row that is gone and for a read that failed, and a tick takes
the second for the first. What it keeps through a failed read is exactly what is in flight.
-/
namespace Braidcast.Schedule

open Braidcast.Lib (Moment Run run_trace)

/-- Everything the runner remembers. -/
structure Slots where
  occurrences : AList (fun _ : String => Occurrence)
  armedIds : List String
  startingId : String
  liveId : String
  appliedId : String

def World.slots (w : World) : Slots := ⟨w.occurrences, w.armedIds, w.startingId, w.liveId, w.appliedId⟩

/-- Nothing is remembered but starts in flight. -/
def Airborne (a : Answers) (w : World) : Prop :=
  (∀ id ∈ w.occurrences, w.isStartInFlight a id = true) ∧ w.armedIds = [] ∧ w.liveId = "" ∧
    (w.startingId ≠ "" → w.isStartInFlight a w.startingId = true) ∧
    (w.appliedId ≠ "" → w.isStartInFlight a w.appliedId = true)

namespace World

variable {a : Answers} (w : World)

/-! ### Occurrences -/

section

variable (down : a.storeUp = false)
include down

theorem pruneOccurrence_down (p : World × Bool) (id : String) :
    (pruneOccurrence a p id).1 = if p.1.isStartInFlight a id then p.1 else p.1.eraseOccurrence id := by
  simp only [pruneOccurrence, keepsOccurrence, down, ScheduleStore.get, Bool.false_eq_true, if_false, Bool.or_false]
  split <;> rfl

theorem pruneOccurrences_airborne (p : World × Bool) (ids : List String) (flying : ∀ id ∈ ids, p.1.isStartInFlight a id = true) :
    (ids.foldl (pruneOccurrence a) p).1 = p.1 := by
  induction ids generalizing p with
  | nil => rfl
  | cons id ids ih =>
    have kept : (pruneOccurrence a p id).1 = p.1 := by
      rw [pruneOccurrence_down down, if_pos (flying id (by simp))]
    rw [List.foldl_cons, ih _ (by rw [kept]; exact fun other member => flying other (by simp [member])), kept]

/-- An occurrence that is not in flight does not outlive the pass. -/
theorem pruneOccurrences_drop {id : String} (grounded : w.isStartInFlight a id = false) (ids : List String) (p : World × Bool)
    (same : p.1.liveId = w.liveId ∧ (id ∈ p.1.occurrences → p.1.occurrence id = w.occurrence id))
    (due : id ∈ ids ∨ id ∉ p.1.occurrences) : id ∉ (ids.foldl (pruneOccurrence a) p).1.occurrences := by
  induction ids generalizing p with
  | nil => exact due.resolve_left (by simp)
  | cons next ids ih =>
    rw [List.foldl_cons]
    refine ih _ ?_ ?_
    · rw [pruneOccurrence_down down]
      split
      · exact same
      · refine ⟨same.1, fun member => ?_⟩
        -- still there, so another occurrence was dropped
        have apart : id ≠ next := fun here => by simp [eraseOccurrence, here] at member
        rw [occurrence_eraseOccurrence, if_neg apart]
        exact same.2 (by simpa [eraseOccurrence, apart] using member)
    · rw [pruneOccurrence_down down]
      by_cases gone : id ∉ p.1.occurrences
      · right
        split
        · exact gone
        · simp only [eraseOccurrence, AList.mem_erase, not_and]
          exact fun _ => gone
      -- its own turn drops it, since nothing in it is in flight
      · rcases List.mem_cons.mp (due.resolve_right gone) with rfl | later
        · right
          have still : p.1.isStartInFlight a id = false := by
            simpa only [isStartInFlight, same.1, same.2 (not_not.mp gone)] using grounded
          simp [still, eraseOccurrence]
        · exact .inl later

/-! ### The tick -/

theorem pruneArmedIds_down (ids : List String) (p : World × Bool) :
    ids.foldl (pruneArmedId a) p = p := by
  induction ids generalizing p with
  | nil => rfl
  | cons id ids ih =>
    have kept : pruneArmedId a p id = p := by
      simp [pruneArmedId, down, ScheduleStore.get]
    rw [List.foldl_cons, kept, ih]

theorem pruneStarting_down : w.pruneStarting a =
    if w.startingId ≠ "" ∧ w.isStartInFlight a w.startingId = false then { w with startingId := "" } else w := by
  simp only [pruneStarting, down, ScheduleStore.get, Bool.false_eq_true, if_false]

theorem pruneLive_down : w.pruneLive a = { w with liveId := "" } := by
  simp only [pruneLive, down, ScheduleStore.get, Bool.false_eq_true, if_false]
  split
  · rfl
  next unnamed =>
    have empty : w.liveId = "" := not_not.mp unnamed
    rw [← empty]

theorem settleApplied_down : w.settleApplied a =
    if w.appliedId = "" ∨ w.isStartInFlight a w.appliedId = true then w else w.revertApplied := by
  simp only [settleApplied, down, ScheduleStore.get, Bool.false_eq_true, if_false]

/-- The tick without its rows: nothing is listed, armed, started or swept. -/
theorem tick_down :
    let v := (({ (w.occurrences.keys.foldl (pruneOccurrence a) (w, false)).1 with
      armedIds := [] }.pruneStarting a).pruneLive a)
    w.tick a = v.settleApplied a ∨ w.tick a = (v.settleApplied a).emit .onChanged := by
  intro v
  simp only [tick, pruneStale, pruneArmedIds_down down, down, ScheduleStore.listRange, ScheduleStore.sweepMissed,
    ScheduleStore.sweptCount, Bool.false_eq_true, if_false, List.foldl_nil, lt_irrefl, decide_false, Bool.or_false]
  split
  · exact .inr rfl
  · exact .inl rfl

end

theorem settleApplied_store : (w.settleApplied a).store = w.store := by
  have put : w.revertApplied.store = w.store := by
    unfold revertApplied
    split <;> rfl
  unfold settleApplied
  split
  · rfl
  · split
    · split
      · rfl
      · exact put
    · exact put

section

variable (down : a.storeUp = false)
include down

theorem tick_down_store : (w.tick a).store = w.store := by
  have pruned : ((w.occurrences.keys.foldl (pruneOccurrence a) (w, false)).1).store = w.store :=
    (pruneOccurrences_keep w.occurrences.keys (w, false)).2
  rcases w.tick_down down with same | same <;>
  · rw [same]
    simp only [emit, settleApplied_store, pruneLive_down _ down, pruneStarting_down _ down]
    split <;> exact pruned

/-- What is in flight is kept. -/
theorem tick_airborne (airborne : Airborne a w) : (w.tick a).slots = w.slots := by
  obtain ⟨flying, unlisted, grounded, starting, applied⟩ := airborne
  have pruned := pruneOccurrences_airborne down (w, false) w.occurrences.keys
    (fun id member => flying id (AList.mem_keys.mpr member))
  -- no occurrence is dropped and no id was remembered as armed
  have relisted : ({ (w.occurrences.keys.foldl (pruneOccurrence a) (w, false)).1 with armedIds := [] } : World) =
      w := by
    rw [pruned, ← unlisted]
  have waited : w.pruneStarting a = w := by
    rw [pruneStarting_down _ down, if_neg]
    exact fun lost => by simp [starting lost.1] at lost
  have ended : w.pruneLive a = w := by
    rw [pruneLive_down _ down, ← grounded]
  have settled : w.settleApplied a = w := by
    rw [settleApplied_down _ down, if_pos]
    by_cases loaded : w.appliedId = ""
    · exact .inl loaded
    · exact .inr (applied loaded)
  rcases w.tick_down down with same | same
  · rw [same, relisted, waited, ended, settled]
  · rw [same, relisted, waited, ended, settled]
    rfl

theorem settleApplied_slots : (w.settleApplied a).slots = { w.slots with
    appliedId := if w.isStartInFlight a w.appliedId = true then w.appliedId else "" } := by
  rw [settleApplied_down _ down]
  by_cases empty : w.appliedId = ""
  · simp [slots, empty]
  · by_cases flying : w.isStartInFlight a w.appliedId = true
    · simp [slots, flying]
    · simp [slots, flying, empty, revertApplied]

theorem pruneStarting_slots : (w.pruneStarting a).slots = { w.slots with
    startingId := if w.isStartInFlight a w.startingId = true then w.startingId else "" } := by
  rw [pruneStarting_down _ down]
  by_cases empty : w.startingId = ""
  · simp [slots, empty]
  · by_cases flying : w.isStartInFlight a w.startingId = true
    · simp [slots, flying]
    · simp [slots, flying, empty]

/-- Whatever is not in flight is lost. -/
theorem airborne_of_tick (kept : (w.tick a).slots = w.slots) : Airborne a w := by
  have ticked : (((({ (w.occurrences.keys.foldl (pruneOccurrence a) (w, false)).1 with
      armedIds := [] } : World).pruneStarting a).pruneLive a).settleApplied a).slots = w.slots := by
    rcases w.tick_down down with same | same
    · rw [← kept, same]
    · rw [← kept, same]
      rfl
  rw [settleApplied_slots _ down, pruneLive_down _ down] at ticked
  have waited := pruneStarting_slots (a := a)
    { (w.occurrences.keys.foldl (pruneOccurrence a) (w, false)).1 with armedIds := [] } down
  have flying : ∀ id ∈ w.occurrences, w.isStartInFlight a id = true := by
    intro id member
    by_contra grounded
    -- an occurrence not in flight would be dropped, and the slots would differ
    have dropped := w.pruneOccurrences_drop down (by simpa using grounded) w.occurrences.keys (w, false)
      ⟨rfl, fun _ => rfl⟩ (.inl (AList.mem_keys.mp member))
    have same : (w.occurrences.keys.foldl (pruneOccurrence a) (w, false)).1.occurrences = w.occurrences :=
      (congrArg Slots.occurrences waited).symm.trans (congrArg Slots.occurrences ticked)
    exact dropped (by rw [same]; exact member)
  rw [pruneOccurrences_airborne down (w, false) w.occurrences.keys
    (fun id member => flying id (AList.mem_keys.mpr member))] at ticked waited
  have unlisted : [] = w.armedIds :=
    (congrArg Slots.armedIds waited).symm.trans (congrArg Slots.armedIds ticked)
  have grounded : "" = w.liveId := congrArg Slots.liveId ticked
  refine ⟨flying, unlisted.symm, grounded.symm, fun named => ?_, fun named => ?_⟩
  · have start : (if w.isStartInFlight a w.startingId = true then w.startingId else "") = w.startingId :=
      (congrArg Slots.startingId waited).symm.trans (congrArg Slots.startingId ticked)
    by_contra lost
    rw [if_neg lost] at start
    exact named start.symm
  · by_contra lost
    -- whether the loaded entry is in flight is read off the slots that stayed
    generalize ({ w with armedIds := [] } : World).pruneStarting a = v at ticked waited
    have applied : v.appliedId = w.appliedId := congrArg Slots.appliedId waited
    have tracked : v.occurrences = w.occurrences := congrArg Slots.occurrences waited
    have end_ : (if isStartInFlight a { v with liveId := "" } v.appliedId = true then v.appliedId else "") =
        w.appliedId := congrArg Slots.appliedId ticked
    have same : isStartInFlight a { v with liveId := "" } v.appliedId = w.isStartInFlight a w.appliedId := by
      unfold isStartInFlight occurrence
      rw [applied, tracked, grounded]
    rw [same, if_neg lost] at end_
    exact named end_.symm

end

end World

/-- An operation reads the slots and the store, and nothing else of the runner. -/
theorem step_congr {v w : World} (slots : v.slots = w.slots) (store : v.store = w.store) (i : Input) :
    v.step i = w.step i := by
  simp only [World.slots, Slots.mk.injEq] at slots
  obtain ⟨occurrences, armedIds, startingId, liveId, appliedId⟩ := slots
  simp only [World.step, occurrences, armedIds, startingId, liveId, appliedId, store]

/-- A tick through which the store does not answer changes nothing exactly when nothing is
remembered but starts in flight. -/
theorem failed_tick_changes_nothing_iff {a : Answers} (down : a.storeUp = false) (w : World) :
    ((w.step ⟨a, .tick⟩).slots = w.slots ∧ ∀ i, (w.step ⟨a, .tick⟩).step i = w.step i) ↔ Airborne a w := by
  have wiped : Airborne a { w with effects := [] } ↔ Airborne a w := Iff.rfl
  rw [← wiped]
  constructor
  · exact fun unchanged => World.airborne_of_tick _ down unchanged.1
  · intro airborne
    have slots := World.tick_airborne { w with effects := [] } down airborne
    exact ⟨slots, fun i => step_congr slots (World.tick_down_store { w with effects := [] } down) i⟩

/-- "a" is armed and canceled, and the store stops answering: the tick forgets the cancel. -/
def canceledThenDown : List Input :=
  [⟨{ now := 0 }, .tick⟩, ⟨{ now := 1000 }, .cancelCountdown "a"⟩]

theorem failed_tick_forgets_cancel :
    ¬∀ (store : ScheduleStore) (ms : List (Moment World Input)) (w : World) (a : Answers),
      Run Step (World.attach store) ms w → a.storeUp = false →
      (w.step ⟨a, .tick⟩).slots = w.slots := by
  intro law
  have slots := law oneEntry _ _ { now := 2000, storeUp := false }
    (run_trace World.step (World.attach oneEntry) canceledThenDown) rfl
  have flag := congrArg (fun slots : Slots => (slots.occurrences.lookup "a").map (·.canceled)) slots
  revert flag
  decide

/-- "a" is on its way up when its row is deleted: only the start is remembered. -/
def deletedInFlight : List Input :=
  [⟨{ now := 0 }, .startNow "a"⟩, ⟨{ now := 1000 }, .deleteRow "a"⟩, ⟨{ now := 2000 }, .tick⟩]

theorem failed_tick_keeps_start :
    let w := deletedInFlight.foldl World.step (World.attach oneEntry)
    w.startingId = "a" ∧ (w.step ⟨{ now := 3000, storeUp := false }, .tick⟩).slots = w.slots := by
  intro w
  refine ⟨by decide,
    ((failed_tick_changes_nothing_iff (a := { now := 3000, storeUp := false }) rfl w).mpr ?_).1⟩
  have keys : w.occurrences.keys = ["a"] := by decide
  refine ⟨fun id member => ?_, by decide, by decide, by decide, by decide⟩
  have named := AList.mem_keys.mp member
  rw [keys] at named
  rw [List.mem_singleton.mp named]
  decide

end Braidcast.Schedule
