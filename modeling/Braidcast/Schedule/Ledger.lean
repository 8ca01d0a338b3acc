import Braidcast.Lib.Lists
import Braidcast.Schedule.Runner

/-!
# What an operation can do

The ledger keeps of the runner only what its promises are about: the rows, the flags of
each occurrence, the three slots, and which entries were reverted or started. Block
reasons, refusals, countdowns and the armed list are gone. `Prune` and `Move` list
everything the two halves of a tick can do to a ledger, and `Acts` everything each operation
can do; `perform_acts` shows that the runner does nothing else while its store answers.
-/
namespace Braidcast.Schedule

open Relation (ReflTransGen)

/-- The part of an `Occurrence` that decides whether it may start. -/
structure Flags where
  canceled : Bool := false
  requested : Bool := false
  failed : Bool := false
  since : Int := 0

def Occurrence.flags (o : Occurrence) : Flags :=
  ⟨o.canceled, o.startRequested, o.startFailed, o.startRequestedAtMs⟩

structure Ledger where
  row : String → Option ScheduleEntry
  flags : String → Flags
  startingId : String
  liveId : String
  appliedId : String
  reverted : List String
  launched : List String

def Effect.revertedId : Effect → Option String
  | .revertEntry id => some id
  | _ => none

def Effect.launchedId : Effect → Option String
  | .goLive id => some id
  | _ => none

theorem Effect.revertedId_eq_some {effect : Effect} {id : String} : effect.revertedId = some id ↔ effect = .revertEntry id := by
  cases effect <;> simp [Effect.revertedId]

theorem Effect.launchedId_eq_some {effect : Effect} {id : String} : effect.launchedId = some id ↔ effect = .goLive id := by
  cases effect <;> simp [Effect.launchedId]

def World.ledger (w : World) : Ledger where
  row := w.store.get true
  flags := fun id => (w.occurrence id).flags
  startingId := w.startingId
  liveId := w.liveId
  appliedId := w.appliedId
  reverted := w.effects.filterMap Effect.revertedId
  launched := w.effects.filterMap Effect.launchedId

namespace Ledger

/-- A start asked for and neither refused nor past its allowance. -/
def Pending (now : Int) (L : Ledger) (id : String) : Prop :=
  (L.flags id).requested = true ∧ (L.flags id).failed = false ∧
    now - (L.flags id).since < kStartInFlightMs

def InFlight (now : Int) (L : Ledger) (id : String) : Prop :=
  (id ≠ "" ∧ L.liveId = id) ∨ L.Pending now id

instance (now : Int) (L : Ledger) (id : String) : Decidable (L.InFlight now id) :=
  inferInstanceAs (Decidable ((_ ∧ _) ∨ (_ ∧ _ ∧ _)))

/-- Nothing stands between this entry and the routing: neither it nor the entry that is
loaded is on its way up. -/
def Free (now : Int) (L : Ledger) (id : String) : Prop :=
  ¬L.InFlight now id ∧ (L.appliedId = "" ∨ ¬L.InFlight now L.appliedId)

/-- Gone, moved out of reach of its arm window, or long past. -/
def Stale (now : Int) (L : Ledger) (id : String) : Prop :=
  ∀ e, L.row id = some e → kArmLeadMs < e.startsAt - now ∨ kOccurrenceRetentionMs < now - e.startsAt

/-- The entry named live reads live. -/
def LiveRow (L : Ledger) : Prop :=
  L.liveId ≠ "" → ∃ e, L.row L.liveId = some e ∧ e.state = .live

def setState (L : Ledger) (id : String) (state : ScheduleState) : Ledger :=
  { L with row := Function.update L.row id ((L.row id).map fun e => { e with state }) }

def miss (L : Ledger) (late : ScheduleEntry → Bool) : Ledger :=
  { L with row := fun id => (L.row id).map fun e => if late e then { e with state := .missed } else e }

def setFlags (L : Ledger) (id : String) (flags : Flags) : Ledger :=
  { L with flags := Function.update L.flags id flags }

def revert (L : Ledger) : Ledger :=
  if L.appliedId = "" then L
  else { L with appliedId := "", reverted := L.reverted ++ [L.appliedId] }

def release (L : Ledger) (id : String) : Ledger := if L.appliedId = id then L.revert else L

/-- The entry's configuration replaces whatever was loaded. -/
def load (a : Answers) (L : Ledger) (id : String) : Ledger :=
  if a.applyEntry.isSome then { L.revert with appliedId := id } else L

def mark (now : Int) (L : Ledger) (id : String) : Ledger :=
  { L.setFlags id { L.flags id with requested := true, since := now } with startingId := id }

def rearm (L : Ledger) (id : String) : Ledger :=
  (L.setState id .armed).setFlags id
    { L.flags id with canceled := false, requested := false, failed := false }

/-- What the runner drops when a row it held has been deleted. -/
def letGo (now : Int) (L : Ledger) (id : String) : Ledger :=
  let kept := { L.setFlags id {} with
    startingId := if L.startingId = id then "" else L.startingId
    liveId := if L.liveId = id then "" else L.liveId }
  if L.appliedId = id ∧ L.InFlight now id then { kept with appliedId := "" } else kept.release id

section Fields

variable (L : Ledger) (a : Answers) (now : Int) (id other : String) (state : ScheduleState) (flags : Flags)

@[grind =] theorem setState_row : (L.setState id state).row other =
    if other = id then (L.row other).map fun e => { e with state } else L.row other := by
  simp only [setState, Function.update_apply]
  split
  next same => rw [same]
  · rfl

@[grind →] theorem of_setState_row {e : ScheduleEntry} (found : (L.setState id state).row other = some e) :
    (other = id ∧ e.state = state) ∨ (other ≠ id ∧ L.row other = some e) := by
  rw [setState_row] at found
  split at found
  next same =>
    obtain ⟨old, _, rfl⟩ := Option.map_eq_some_iff.mp found
    exact .inl ⟨same, rfl⟩
  next differs => exact .inr ⟨differs, found⟩

@[grind =] theorem setFlags_flags :
    (L.setFlags id flags).flags other = if other = id then flags else L.flags other := by
  simp only [setFlags, Function.update_apply]

@[simp, grind =] theorem setState_flags : (L.setState id state).flags other = L.flags other := rfl
@[simp, grind =] theorem setState_startingId : (L.setState id state).startingId = L.startingId := rfl
@[simp, grind =] theorem setState_liveId : (L.setState id state).liveId = L.liveId := rfl
@[simp, grind =] theorem setState_appliedId : (L.setState id state).appliedId = L.appliedId := rfl
@[simp, grind =] theorem setState_launched : (L.setState id state).launched = L.launched := rfl

@[simp, grind =] theorem setFlags_row : (L.setFlags id flags).row other = L.row other := rfl
@[simp, grind =] theorem setFlags_startingId : (L.setFlags id flags).startingId = L.startingId := rfl
@[simp, grind =] theorem setFlags_liveId : (L.setFlags id flags).liveId = L.liveId := rfl
@[simp, grind =] theorem setFlags_appliedId : (L.setFlags id flags).appliedId = L.appliedId := rfl
@[simp, grind =] theorem setFlags_launched : (L.setFlags id flags).launched = L.launched := rfl

@[simp, grind =] theorem revert_row : L.revert.row other = L.row other := by unfold revert; split <;> rfl
@[simp, grind =] theorem revert_flags : L.revert.flags other = L.flags other := by
  unfold revert; split <;> rfl
@[simp, grind =] theorem revert_startingId : L.revert.startingId = L.startingId := by
  unfold revert; split <;> rfl
@[simp, grind =] theorem revert_liveId : L.revert.liveId = L.liveId := by unfold revert; split <;> rfl
@[simp, grind =] theorem revert_launched : L.revert.launched = L.launched := by
  unfold revert; split <;> rfl
@[simp, grind =] theorem revert_appliedId : L.revert.appliedId = "" := by
  simp only [revert]
  split
  next empty => exact empty
  · rfl

@[simp, grind =] theorem release_row : (L.release id).row other = L.row other := by
  unfold release; split <;> simp
@[simp, grind =] theorem release_flags : (L.release id).flags other = L.flags other := by
  unfold release; split <;> simp
@[simp, grind =] theorem release_startingId : (L.release id).startingId = L.startingId := by
  unfold release; split <;> simp
@[simp, grind =] theorem release_liveId : (L.release id).liveId = L.liveId := by
  unfold release; split <;> simp
@[simp, grind =] theorem release_launched : (L.release id).launched = L.launched := by
  unfold release; split <;> simp
@[simp, grind =] theorem release_appliedId :
    (L.release id).appliedId = if L.appliedId = id then "" else L.appliedId := by
  unfold release; split <;> simp_all

@[simp, grind =] theorem load_row : (L.load a id).row other = L.row other := by
  unfold load; split <;> simp
@[simp, grind =] theorem load_flags : (L.load a id).flags other = L.flags other := by
  unfold load; split <;> simp
@[simp, grind =] theorem load_liveId : (L.load a id).liveId = L.liveId := by
  unfold load; split <;> simp
@[simp, grind =] theorem load_launched : (L.load a id).launched = L.launched := by
  unfold load; split <;> simp
@[simp, grind =] theorem load_appliedId :
    (L.load a id).appliedId = if a.applyEntry.isSome then id else L.appliedId := by
  unfold load; split <;> rfl

@[simp, grind =] theorem mark_row : (L.mark now id).row other = L.row other := rfl
@[simp, grind =] theorem mark_startingId : (L.mark now id).startingId = id := rfl
@[simp, grind =] theorem mark_liveId : (L.mark now id).liveId = L.liveId := rfl
@[simp, grind =] theorem mark_appliedId : (L.mark now id).appliedId = L.appliedId := rfl
@[simp, grind =] theorem mark_launched : (L.mark now id).launched = L.launched := rfl
@[simp, grind =] theorem mark_reverted : (L.mark now id).reverted = L.reverted := rfl
@[grind =] theorem mark_flags : (L.mark now id).flags other =
    if other = id then { L.flags id with requested := true, since := now } else L.flags other :=
  setFlags_flags L id other _

@[grind =] theorem rearm_row : (L.rearm id).row other =
    if other = id then (L.row other).map fun e => { e with state := .armed } else L.row other :=
  setState_row L id other .armed
@[grind =] theorem rearm_flags : (L.rearm id).flags other =
    if other = id then { L.flags id with canceled := false, requested := false, failed := false }
    else L.flags other :=
  setFlags_flags _ id other _
@[simp, grind =] theorem rearm_startingId : (L.rearm id).startingId = L.startingId := rfl
@[simp, grind =] theorem rearm_liveId : (L.rearm id).liveId = L.liveId := rfl
@[simp, grind =] theorem rearm_appliedId : (L.rearm id).appliedId = L.appliedId := rfl

@[simp, grind =] theorem letGo_row : (L.letGo now id).row other = L.row other := by
  simp only [letGo]; split <;> simp
@[grind =] theorem letGo_flags : (L.letGo now id).flags other = if other = id then {} else L.flags other := by
  simp only [letGo]; split <;> simp [setFlags_flags]
@[simp, grind =] theorem letGo_startingId :
    (L.letGo now id).startingId = if L.startingId = id then "" else L.startingId := by
  simp only [letGo]; split <;> simp
@[simp, grind =] theorem letGo_liveId :
    (L.letGo now id).liveId = if L.liveId = id then "" else L.liveId := by
  simp only [letGo]; split <;> simp
@[simp, grind =] theorem letGo_appliedId :
    (L.letGo now id).appliedId = if L.appliedId = id then "" else L.appliedId := by
  simp only [letGo]; split <;> simp_all

theorem miss_row (late : ScheduleEntry → Bool) : (L.miss late).row id =
    (L.row id).map fun e => if late e then { e with state := .missed } else e := rfl
@[grind =] theorem miss_row_eq_none (late : ScheduleEntry → Bool) :
    (L.miss late).row id = none ↔ L.row id = none := by
  simp [miss_row]
@[grind →] theorem of_miss_row {late : ScheduleEntry → Bool} {e : ScheduleEntry}
    (found : (L.miss late).row id = some e) : ∃ old, L.row id = some old ∧ e.startsAt = old.startsAt ∧
      (late old = true ∧ e.state = .missed ∨ e = old) := by
  obtain ⟨old, stored, rfl⟩ := Option.map_eq_some_iff.mp found
  refine ⟨old, stored, ?_⟩
  split
  next missed => exact ⟨rfl, .inl ⟨missed, rfl⟩⟩
  · exact ⟨rfl, .inr rfl⟩
section

variable (late : ScheduleEntry → Bool)

@[simp, grind =] theorem miss_flags :
    (L.miss late).flags other = L.flags other := rfl
@[simp, grind =] theorem miss_startingId :
    (L.miss late).startingId = L.startingId := rfl
@[simp, grind =] theorem miss_liveId :
    (L.miss late).liveId = L.liveId := rfl
@[simp, grind =] theorem miss_appliedId :
    (L.miss late).appliedId = L.appliedId := rfl
@[simp, grind =] theorem miss_launched :
    (L.miss late).launched = L.launched := rfl

end

end Fields

variable {L : Ledger}

theorem LiveRow.ne_of_armed {e : ScheduleEntry} (live : L.LiveRow)
    (stored : L.row e.id = some e) (armed : e.state = .armed) (named : e.id ≠ "") :
    L.liveId ≠ e.id := by
  -- the live entry reads live, and this one reads armed
  intro same
  obtain ⟨other, found, state⟩ := live (same ▸ named)
  rw [same, stored] at found
  cases found
  rw [armed] at state
  cases state

theorem setState_self {e : ScheduleEntry} (stored : L.row e.id = some e) :
    L.setState e.id e.state = L := by
  simp only [setState, stored, Option.map_some]
  rw [← stored, Function.update_eq_self]

theorem mem_reverted_revert {id : String} :
    id ∈ L.revert.reverted ↔ id ∈ L.reverted ∨ (L.appliedId ≠ "" ∧ id = L.appliedId) := by
  simp only [revert]
  split <;> simp_all

theorem mem_reverted_release {id other : String} :
    id ∈ (L.release other).reverted ↔
      id ∈ L.reverted ∨ (L.appliedId ≠ "" ∧ L.appliedId = other ∧ id = other) := by
  simp only [release]
  split
  next same => subst same; simp [mem_reverted_revert]
  next differs => simp [differs]

theorem mem_reverted_load {a : Answers} {id other : String} :
    id ∈ (L.load a other).reverted ↔
      id ∈ L.reverted ∨ (a.applyEntry.isSome = true ∧ L.appliedId ≠ "" ∧ id = L.appliedId) := by
  simp only [load]
  split
  next wired => simp [mem_reverted_revert, wired]
  next unwired => simp [unwired]

end Ledger

/-- One thing the pruning at the head of a tick can do. -/
inductive Prune (a : Answers) : Ledger → Ledger → Prop
  | drop {L : Ledger} (id : String) (free : ¬L.InFlight a.now id) (stale : L.Stale a.now id) :
      Prune a L (L.setFlags id {})
  | disarm {L : Ledger} (e : ScheduleEntry) (stored : L.row e.id = some e) (armed : e.state = .armed)
      (ahead : kArmLeadMs < e.startsAt - a.now) (free : ¬L.InFlight a.now e.id) :
      Prune a L (((L.setState e.id .planned).setFlags e.id {}).release e.id)
  | dropStarting {L : Ledger} (free : ¬L.InFlight a.now L.startingId)
      (unarmed : ∀ e, L.row L.startingId = some e → e.state ≠ .armed) :
      Prune a L { L with startingId := "" }
  | dropLive {L : Ledger} (ended : ∀ e, L.row L.liveId = some e → e.state ≠ .live) :
      Prune a L { L with liveId := "" }

theorem Prune.liveId {a : Answers} {L M : Ledger} (prunes : ReflTransGen (Prune a) L M) :
    M.liveId = L.liveId ∨ M.liveId = "" := by
  induction prunes with
  | refl => exact .inl rfl
  | tail _ step ih =>
    cases step with
    | drop | disarm | dropStarting => simpa using ih
    | dropLive => exact .inr rfl

/-- One thing the rest of a tick can do. -/
inductive Move (a : Answers) : Ledger → Ledger → Prop
  | arm {L : Ledger} (e : ScheduleEntry) (stored : L.row e.id = some e) (planned : e.state = .planned)
      (due : a.now < e.startsAt ∧ e.startsAt - a.now ≤ kArmLeadMs)
      (wanted : (L.flags e.id).canceled = false) : Move a L (L.setState e.id .armed)
  | launch {L : Ledger} (e : ScheduleEntry) (stored : L.row e.id = some e) (armed : e.state = .armed)
      (due : a.now - kMissedGraceMs ≤ e.startsAt ∧ e.startsAt ≤ a.now)
      (wanted : (L.flags e.id).canceled = false) (unasked : (L.flags e.id).requested = false)
      (free : L.Free a.now e.id) :
      Move a L { (L.load a e.id).mark a.now e.id with launched := L.launched ++ [e.id] }
  | refuse {L : Ledger} (e : ScheduleEntry) (apply : String → Option String) (reason : String)
      (stored : L.row e.id = some e) (wired : a.applyEntry = some apply)
      (refused : apply e.id = some reason) (free : L.Free a.now e.id) : Move a L L.revert
  | miss {L : Ledger} (late : ScheduleEntry → Bool)
      (waiting : ∀ e, late e = true → e.state = .planned ∨ e.state = .armed)
      (idle : ∀ e, L.row e.id = some e → late e = true → ¬L.Pending a.now e.id) :
      Move a L (L.miss late)
  | settle {L : Ledger} (free : ¬L.InFlight a.now L.appliedId)
      (ended : ∀ e, L.row L.appliedId = some e → e.state ≠ .armed ∧ e.state ≠ .live) :
      Move a L L.revert

/-- What pruning leaves: a live entry reads live, and a start the runner still waits for was
live at the head of the tick, is on its way up, or is armed. -/
structure Pruned (now : Int) (before L : Ledger) : Prop where
  live : L.LiveRow
  starting : L.startingId ≠ "" → L.startingId = before.liveId ∨ L.Pending now L.startingId ∨
    ∃ e, L.row L.startingId = some e ∧ e.state = .armed

/-- What each operation can do. An operation that refuses, or finds nothing to do, is `idle`. -/
inductive Acts (a : Answers) : Call → Ledger → Ledger → Prop
  | idle {L : Ledger} (call : Call) : Acts a call L L
  | ticked {L M L' : Ledger} (prunes : ReflTransGen (Prune a) L M) (pruned : Pruned a.now L M)
      (moves : ReflTransGen (Move a) M L') : Acts a .tick L L'
  | canceled {L : Ledger} (e : ScheduleEntry) (stored : L.row e.id = some e) (armed : e.state = .armed)
      (free : ¬L.InFlight a.now e.id) :
      Acts a (.cancelCountdown e.id) L
        (((L.setState e.id .planned).setFlags e.id { L.flags e.id with canceled := true }).release e.id)
  | started {L : Ledger} (e : ScheduleEntry) (stored : L.row e.id = some e)
      (fresh : e.state ≠ .live ∧ e.state ≠ .done) (free : L.Free a.now e.id) :
      Acts a (.startNow e.id) L
        { ((L.rearm e.id).load a e.id).mark a.now e.id with launched := L.launched ++ [e.id] }
  | startRefused {L : Ledger} (e : ScheduleEntry) (apply : String → Option String) (reason : String)
      (wired : a.applyEntry = some apply) (refused : apply e.id = some reason)
      (stored : L.row e.id = some e) (fresh : e.state ≠ .live ∧ e.state ≠ .done)
      (free : L.Free a.now e.id) : Acts a (.startNow e.id) L (L.rearm e.id).revert
  | adopted {L : Ledger} (e : ScheduleEntry) (stored : L.row e.id = some e) (armed : e.state = .armed)
      (unasked : (L.flags e.id).requested = false) (idle : L.startingId = "" ∧ L.liveId = "")
      (free : L.Free a.now e.id) : Acts a .adoptImminentArmed L ((L.load a e.id).mark a.now e.id)
  | adoptRefused {L : Ledger} (id : String) (idle : L.startingId = "" ∧ L.liveId = "")
      (free : L.Free a.now id) : Acts a .adoptImminentArmed L L.revert
  | disarmed {L : Ledger} (e : ScheduleEntry) (stored : L.row e.id = some e)
      (armed : e.state = .armed) (ahead : kArmLeadMs < e.startsAt - a.now)
      (free : ¬L.InFlight a.now e.id) :
      Acts a (.noteEntryChanged e.id) L
        (((L.setState e.id .planned).setFlags e.id {}).release e.id)
  | forgotten {L : Ledger} (id : String) (deleted : L.row id = none) :
      Acts a (.noteEntryChanged id) L (L.letGo a.now id)
  | unclaimed {L : Ledger} (unarmed : ∀ e, L.row L.startingId = some e → e.state ≠ .armed) :
      Acts a .noteWentLive L { L with startingId := "" }
  | wentLive {L : Ledger} (e : ScheduleEntry) (stored : L.row e.id = some e) (armed : e.state = .armed)
      (asked : L.startingId = e.id) :
      Acts a .noteWentLive L { L.setState e.id .live with startingId := "", liveId := e.id }
  | startFailed {L : Ledger} (flags : Flags) (asked : L.startingId ≠ "")
      (same : flags = L.flags L.startingId ∨ flags = { L.flags L.startingId with failed := true }) :
      Acts a .noteStartFailed L
        ({ L.setFlags L.startingId flags with startingId := "" }.release L.startingId)
  | stopped {L : Ledger} (live : L.liveId ≠ "") :
      Acts a .noteStoppedStreaming L
        ({ (L.setState L.liveId .done).setFlags L.liveId {} with liveId := "" }.release L.liveId)
  | created {L : Ledger} (e : ScheduleEntry) (destinations : List ScheduleDestination)
      (planned : e.state = .planned) (named : e.id ≠ "") (absent : L.row e.id = none)
      (unheld : L.startingId ≠ e.id ∧ L.liveId ≠ e.id ∧ L.appliedId ≠ e.id ∧ L.flags e.id = {}) :
      Acts a (.createRow e.id e.startsAt e.autoStart destinations) L
        { L with row := Function.update L.row e.id (some e) }
  | edited {L : Ledger} (e : ScheduleEntry) (startsAt : Int) (autoStart : Bool)
      (destinations : List ScheduleDestination) (stored : L.row e.id = some e) :
      Acts a (.editRow e.id startsAt autoStart destinations) L
        { L with row := Function.update L.row e.id (some { e with startsAt, autoStart }) }
  | deleted {L : Ledger} (id : String) :
      Acts a (.deleteRow id) L { L with row := Function.update L.row id none }

/-! ### The runner on its ledger -/

namespace World

variable {a : Answers} (w : World) (id : String)

theorem occurrence_setOccurrence (o : Occurrence) (other : String) :
    (w.setOccurrence id o).occurrence other = if other = id then o else w.occurrence other := by
  simp only [occurrence, setOccurrence]
  split
  next same => rw [same, AList.lookup_insert]; rfl
  next differs => rw [AList.lookup_insert_ne differs]

theorem occurrence_eraseOccurrence (other : String) :
    (w.eraseOccurrence id).occurrence other = if other = id then {} else w.occurrence other := by
  simp only [occurrence, eraseOccurrence]
  split
  next same => rw [same, AList.lookup_erase]; rfl
  next differs => rw [AList.lookup_erase_ne differs]

@[simp] theorem ledger_setOccurrence (o : Occurrence) :
    (w.setOccurrence id o).ledger = w.ledger.setFlags id o.flags := by
  simp only [ledger, Ledger.setFlags, occurrence_setOccurrence]
  congr 1
  funext other
  by_cases same : other = id
  · simp [same]
  · simp [same]

theorem ledger_setOccurrence_same (o : Occurrence) (same : o.flags = (w.occurrence id).flags) :
    (w.setOccurrence id o).ledger = w.ledger := by
  rw [ledger_setOccurrence, same]
  have unchanged := Function.update_eq_self id w.ledger.flags
  simp only [Ledger.setFlags]
  exact congrArg (fun flags => { w.ledger with flags }) unchanged

@[simp] theorem ledger_eraseOccurrence :
    (w.eraseOccurrence id).ledger = w.ledger.setFlags id {} := by
  simp only [ledger, Ledger.setFlags, occurrence_eraseOccurrence]
  congr 1
  funext other
  by_cases same : other = id
  · simp only [same, if_true, Function.update_self]
    rfl
  · simp [same]

@[simp] theorem ledger_setState (state : ScheduleState) :
    (w.setState id state).ledger = w.ledger.setState id state := by
  simp only [ledger, Ledger.setState, setState]
  congr 1
  funext other
  rw [ScheduleStore.get_setState]
  by_cases same : other = id
  · simp [same]
  · simp [same]

@[simp] theorem ledger_rememberArmed : (w.rememberArmed id).ledger = w.ledger := by
  simp only [rememberArmed]
  split <;> rfl

@[simp] theorem ledger_forgetArmed : (w.forgetArmed id).ledger = w.ledger := rfl

@[simp] theorem ledger_revertApplied : w.revertApplied.ledger = w.ledger.revert := by
  simp only [revertApplied, Ledger.revert]
  simp only [show w.ledger.appliedId = w.appliedId from rfl]
  split
  · rfl
  · simp [ledger, occurrence, Effect.revertedId, Effect.launchedId]

theorem ledger_emit (effect : Effect) (plain : effect.revertedId = none ∧ effect.launchedId = none) :
    (w.emit effect).ledger = w.ledger := by
  simp [emit, ledger, occurrence, plain]

@[simp] theorem ledger_emit_answered (error : Option String) :
    (w.emit (.answered error)).ledger = w.ledger := ledger_emit w _ ⟨rfl, rfl⟩

@[simp] theorem ledger_emit_onChanged : (w.emit .onChanged).ledger = w.ledger :=
  ledger_emit w _ ⟨rfl, rfl⟩

@[simp] theorem ledger_emit_applyEntry (accepted : Bool) :
    (w.emit (.applyEntry id accepted)).ledger = w.ledger := ledger_emit w _ ⟨rfl, rfl⟩

@[simp] theorem ledger_emit_goLive :
    (w.emit (.goLive id)).ledger = { w.ledger with launched := w.ledger.launched ++ [id] } := by
  simp [emit, ledger, occurrence, Effect.revertedId, Effect.launchedId]

@[simp] theorem ledger_release :
    (if w.appliedId = id then w.revertApplied else w).ledger = w.ledger.release id := by
  simp only [Ledger.release]
  simp only [show w.ledger.appliedId = w.appliedId from rfl]
  split
  · exact ledger_revertApplied w
  · rfl

theorem isStartInFlight_iff : w.isStartInFlight a id = true ↔ w.ledger.InFlight a.now id := by
  simp only [isStartInFlight, Ledger.InFlight, Ledger.Pending, ledger, Occurrence.flags]
  split
  next live => simp [live]
  next grounded => simp [grounded, and_assoc]

theorem not_isStartInFlight_iff :
    w.isStartInFlight a id = false ↔ ¬w.ledger.InFlight a.now id := by
  rw [← isStartInFlight_iff, Bool.not_eq_true]

end World

end Braidcast.Schedule
