import Braidcast.Schedule.Store
import Mathlib.Data.List.AList

/-!
# The schedule runner

`ScheduleRunner` as functions on the runner's fields together with the store it is
attached to. What the injected callables answer during one operation is `Answers`,
keyed by the entry they are asked about: no entry is asked the same thing twice in one
operation. What the operation does to the outside is collected in `effects`.
-/
namespace Braidcast.Schedule

def kArmLeadMs : Int := 5 * 60 * 1000
def kCountdownLeadMs : Int := 60 * 1000
def kMissedGraceMs : Int := 2 * 60 * 1000
def kOccurrenceRetentionMs : Int := 60 * 60 * 1000
def kStartInFlightMs : Int := 10 * 60 * 1000

def kAlreadyStreamingReason : String := "something is already streaming"
def kNoDestinationsReason : String := "this entry has no destinations"

structure DestinationRefusal where
  profileId : String
  reason : String
  deriving DecidableEq

structure Occurrence where
  canceled : Bool := false
  countdownOpen : Bool := false
  startRequested : Bool := false
  startFailed : Bool := false
  startRequestedAtMs : Int := 0
  blockReason : String := ""
  destinationRefusals : List DestinationRefusal := []

/-- What the outside answers while one operation runs. -/
structure Answers where
  now : Int
  storeUp : Bool := true
  /-- `LastError` of a store that is not up. -/
  storeError : String := ""
  /-- Asked while deciding about this entry. -/
  isStreaming : String → Bool := fun _ => false
  /-- Why this entry's destination cannot carry an output, if it cannot. -/
  canArm : String → String → Option String := fun _ _ => none
  requireAllDestinations : String → Bool := fun _ => false
  /-- Unset, or why loading this entry is refused, if it is. -/
  applyEntry : Option (String → Option String) := some fun _ => none

inductive Effect where
  | applyEntry (id : String) (accepted : Bool)
  /-- `id` is the entry whose configuration was loaded. -/
  | revertEntry (id : String)
  | goLive (id : String)
  | onChanged
  /-- What the caller is told: nothing, or the error text. -/
  | answered (error : Option String)
  deriving DecidableEq

structure World where
  store : ScheduleStore
  occurrences : AList (fun _ : String => Occurrence)
  armedIds : List String
  startingId : String
  liveId : String
  appliedId : String
  effects : List Effect

namespace World

def attach (store : ScheduleStore) : World :=
  { store, occurrences := ∅, armedIds := [], startingId := "", liveId := "", appliedId := "", effects := [] }

def emit (w : World) (effect : Effect) : World := { w with effects := w.effects ++ [effect] }

def rememberArmed (w : World) (id : String) : World :=
  if id ∈ w.armedIds then w else { w with armedIds := w.armedIds ++ [id] }

def forgetArmed (w : World) (id : String) : World := { w with armedIds := w.armedIds.erase id }

/-- `occurrences_[id]`, made when it is not there. -/
def occurrence (w : World) (id : String) : Occurrence := (w.occurrences.lookup id).getD {}

def setOccurrence (w : World) (id : String) (o : Occurrence) : World :=
  { w with occurrences := w.occurrences.insert id o }

def eraseOccurrence (w : World) (id : String) : World :=
  { w with occurrences := w.occurrences.erase id }

def setState (w : World) (id : String) (state : ScheduleState) : World :=
  { w with store := w.store.setState id state }

def isCountdownCanceled (w : World) (id : String) : Bool := (w.occurrence id).canceled

def hasRequestedStart (w : World) (id : String) : Bool := (w.occurrence id).startRequested

def blockReason (w : World) (id : String) : String := (w.occurrence id).blockReason

def isStartInFlight (a : Answers) (w : World) (id : String) : Bool :=
  -- a broadcast that is up outlasts the allowance for a request that nothing reported on
  if id ≠ "" ∧ w.liveId = id then true
  else
    let o := w.occurrence id
    o.startRequested && !o.startFailed && decide (a.now - o.startRequestedAtMs < kStartInFlightMs)

def inFlightIds (a : Answers) (w : World) : List String :=
  w.occurrences.keys.filter (w.isStartInFlight a)

def revertApplied (w : World) : World :=
  if w.appliedId = "" then w
  else { w with appliedId := "", effects := w.effects ++ [.revertEntry w.appliedId] }

/-! ### Pruning -/

def disarmIfOutOfWindow (a : Answers) (entry : ScheduleEntry) (w : World) : World × Bool :=
  if entry.state ≠ .armed ∨ entry.startsAt - a.now ≤ kArmLeadMs then (w, false)
  -- a start on its way up is committed: its outputs go out to the routing as it is
  else if w.isStartInFlight a entry.id then (w, false)
  else if !a.storeUp then (w, false)
  else
    let w := ((w.setState entry.id .planned).eraseOccurrence entry.id).forgetArmed entry.id
    (if w.appliedId = entry.id then w.revertApplied else w, true)

def keepsOccurrence (a : Answers) (w : World) (id : String) : Bool :=
  w.isStartInFlight a id ||
    match w.store.get a.storeUp id with
    | some entry =>
      decide (entry.startsAt - a.now ≤ kArmLeadMs) &&
        decide (a.now - entry.startsAt ≤ kOccurrenceRetentionMs)
    | none => false

def pruneOccurrence (a : Answers) (p : World × Bool) (id : String) : World × Bool :=
  if p.1.keepsOccurrence a id then p
  else
    let o := p.1.occurrence id
    (p.1.eraseOccurrence id,
      p.2 || o.canceled || o.blockReason ≠ "" || !o.destinationRefusals.isEmpty)

def pruneArmedId (a : Answers) (p : World × Bool) (id : String) : World × Bool :=
  match p.1.store.get a.storeUp id with
  | none => p
  | some row =>
    if row.state ≠ .armed then p
    else
      let q := p.1.disarmIfOutOfWindow a row
      -- an entry moved out of its window is no longer in the range a tick reads
      if q.2 then (q.1, true) else (q.1.rememberArmed id, p.2)

def pruneStarting (a : Answers) (w : World) : World :=
  -- held for as long as the start is on its way up, whatever the row says
  if w.startingId ≠ "" ∧ w.isStartInFlight a w.startingId = false then
    match w.store.get a.storeUp w.startingId with
    | some starting => if starting.state = .armed then w else { w with startingId := "" }
    | none => { w with startingId := "" }
  else w

def pruneLive (a : Answers) (w : World) : World :=
  if w.liveId ≠ "" then
    match w.store.get a.storeUp w.liveId with
    | some live => if live.state = .live then w else { w with liveId := "" }
    | none => { w with liveId := "" }
  else w

def pruneStale (a : Answers) (w : World) : World × Bool :=
  let p := w.occurrences.keys.foldl (pruneOccurrence a) (w, false)
  -- armed ids are kept apart: an armed entry need not have an occurrence
  let q := p.1.armedIds.foldl (pruneArmedId a) ({ p.1 with armedIds := [] }, p.2)
  ((q.1.pruneStarting a).pruneLive a, q.2)

/-! ### Arming -/

def armIfDue (a : Answers) (row : ScheduleEntryWithDestinations) (w : World) :
    World × ScheduleEntryWithDestinations × Bool :=
  let entry := row.entry
  if entry.state ≠ .planned ∨ entry.startsAt ≤ a.now ∨ kArmLeadMs < entry.startsAt - a.now then
    (w, row, false)
  else if w.isCountdownCanceled entry.id then (w, row, false)
  else if !a.storeUp then (w, row, false)
  else
    ((w.setState entry.id .armed).rememberArmed entry.id,
      { row with entry := { entry with state := .armed } }, true)

def setBlockReason (w : World) (id reason : String) : World × Bool :=
  -- nothing tracked and nothing to say: tracking does not start
  if reason = "" ∧ id ∉ w.occurrences then (w, false)
  else if (w.occurrence id).blockReason = reason then (w, false)
  else (w.setOccurrence id { w.occurrence id with blockReason := reason }, true)

def setDestinationRefusals (w : World) (id : String) (refusals : List DestinationRefusal) :
    World × Bool :=
  if refusals = [] ∧ id ∉ w.occurrences then (w, false)
  else if (w.occurrence id).destinationRefusals = refusals then (w, false)
  else (w.setOccurrence id { w.occurrence id with destinationRefusals := refusals }, true)

def joinRefusals (refusals : List DestinationRefusal) : String :=
  refusals.foldl (fun out r => if out = "" then r.reason else out ++ "; " ++ r.reason) ""

/-- The destinations that cannot go live, each profile asked once. -/
def askDestinations (canArm : String → Option String) (destinations : List ScheduleDestination) :
    List DestinationRefusal × Nat :=
  let profiles := (destinations.map (·.profileId)).foldl
    (fun asked id => if id ∈ asked then asked else asked ++ [id]) []
  (profiles.filterMap (fun id => (canArm id).map fun why =>
      { profileId := id, reason := if why = "" then "it cannot go live" else why }),
    (profiles.filter (fun id => (canArm id).isNone)).length)

structure Armability where
  armable : Bool
  reason : String
  changed : Bool

def armable (a : Answers) (row : ScheduleEntryWithDestinations) (w : World) : World × Armability :=
  if row.destinations = [] then (w, ⟨false, kNoDestinationsReason, false⟩)
  else
    -- every destination is asked, not only up to the first that can route
    let (refusals, routable) := askDestinations (a.canArm row.entry.id) row.destinations
    let p := w.setDestinationRefusals row.entry.id refusals
    if refusals = [] then (p.1, ⟨true, "", p.2⟩)
    else
      (p.1, ⟨!a.requireAllDestinations row.entry.id && decide (0 < routable), joinRefusals refusals, p.2⟩)

def routingHeldElsewhere (a : Answers) (w : World) (id : String) : Bool :=
  -- whatever is coming up is this entry's own
  if w.isStartInFlight a id then false
  else if w.appliedId ≠ "" ∧ w.appliedId ≠ id ∧ w.isStartInFlight a w.appliedId then true
  else a.isStreaming id

def refreshArmability (a : Answers) (row : ScheduleEntryWithDestinations) (w : World) : World × Bool :=
  if row.entry.state ≠ .armed then (w, false)
  else
    -- asked even where the routing is held elsewhere: it keeps the destinations' reasons current
    let p := w.armable a row
    let reason :=
      if p.1.routingHeldElsewhere a row.entry.id then kAlreadyStreamingReason
      else if p.2.armable then "" else p.2.reason
    let q := p.1.setBlockReason row.entry.id reason
    (q.1, q.2 || p.2.changed)

def openCountdownIfDue (a : Answers) (row : ScheduleEntryWithDestinations) (w : World) : World :=
  let entry := row.entry
  if entry.state ≠ .armed ∨ entry.autoStart = false ∨ entry.startsAt ≤ a.now ∨
      kCountdownLeadMs < entry.startsAt - a.now then w
  else
    let o := w.occurrence entry.id
    if o.canceled || o.countdownOpen then w
    else w.setOccurrence entry.id { o with countdownOpen := true }

/-! ### Starting -/

/-- Mark the occurrence as having asked to go live. -/
def markRequested (a : Answers) (id : String) (w : World) : World :=
  { w.setOccurrence id { w.occurrence id with startRequested := true, startRequestedAtMs := a.now } with
    startingId := id }

/-- The error the start is refused with, if it is. -/
def prepareStart (a : Answers) (row : ScheduleEntryWithDestinations) (w : World) :
    World × Option String :=
  let id := row.entry.id
  if w.blockReason id ≠ "" then (w, some (w.blockReason id))
  else
    match a.applyEntry with
    | none => (w.markRequested a id, none)
    | some apply =>
      let w := w.revertApplied
      -- a refusal is not latched: the next tick asks again
      match apply id with
      | some reason =>
        (w.emit (.applyEntry id false),
          some (if reason = "" then "could not load this entry's destinations" else reason))
      | none => ({ w.emit (.applyEntry id true) with appliedId := id }.markRequested a id, none)

def requestStart (a : Answers) (row : ScheduleEntryWithDestinations) (w : World) :
    World × Option String :=
  let p := w.prepareStart a row
  match p.2 with
  | some error => (p.1, some error)
  | none => (p.1.emit (.goLive row.entry.id), none)

def startIfDue (a : Answers) (row : ScheduleEntryWithDestinations) (w : World) : World × Bool :=
  let entry := row.entry
  if entry.state ≠ .armed ∨ entry.autoStart = false ∨ a.now < entry.startsAt then (w, false)
  -- an occurrence that has asked once does not ask again, even where the start was given up on
  else if w.isCountdownCanceled entry.id || w.hasRequestedStart entry.id then (w, false)
  else
    let p := w.requestStart a row
    match p.2 with
    | some error => p.1.setBlockReason entry.id error
    | none => (p.1, true)

def settleApplied (a : Answers) (w : World) : World :=
  if w.appliedId = "" ∨ w.isStartInFlight a w.appliedId then w
  else
    match w.store.get a.storeUp w.appliedId with
    | some entry => if entry.state = .armed ∨ entry.state = .live then w else w.revertApplied
    | none => w.revertApplied

def tickRow (a : Answers) (p : World × Bool) (row : ScheduleEntryWithDestinations) : World × Bool :=
  let q := p.1.armIfDue a row
  let r := q.1.refreshArmability a q.2.1
  let s := (r.1.openCountdownIfDue a q.2.1).startIfDue a q.2.1
  (s.1, p.2 || q.2.2 || r.2 || s.2)

def tick (a : Answers) (w : World) : World :=
  let p := w.pruneStale a
  let rows := p.1.store.listRange a.storeUp (a.now - kMissedGraceMs) (a.now + kArmLeadMs + 1)
  let q := rows.foldl (tickRow a) p
  -- after the starts, so that an entry due on this tick is not called missed by it
  let except := q.1.inFlightIds a
  let missed := q.1.store.sweptCount a.storeUp (a.now - kMissedGraceMs) except
  let swept := { q.1 with store := q.1.store.sweepMissed a.storeUp (a.now - kMissedGraceMs) except }
  let settled := swept.settleApplied a
  if q.2 || decide (0 < missed) then settled.emit .onChanged else settled

/-! ### The other operations -/

/-- Everything the runner keeps about an id, but for the loaded configuration. -/
def forget (w : World) (id : String) : World :=
  { (w.eraseOccurrence id).forgetArmed id with
    startingId := if w.startingId = id then "" else w.startingId
    liveId := if w.liveId = id then "" else w.liveId }

def noteEntryChanged (a : Answers) (id : String) (w : World) : World :=
  match w.store.get a.storeUp id with
  | some entry => (w.disarmIfOutOfWindow a entry).1
  | none =>
    let committed := w.isStartInFlight a id
    if w.appliedId ≠ id then w.forget id
    -- the broadcast it asked for goes on, so the routing stays
    else if committed then { w.forget id with appliedId := "" }
    else (w.forget id).revertApplied

def cancelCountdown (a : Answers) (id : String) (w : World) : World :=
  match w.store.get a.storeUp id with
  | none => w.emit (.answered (some ("no scheduled entry with id '" ++ id ++ "'")))
  | some entry =>
    if entry.state ≠ .armed then
      w.emit (.answered (some ("that entry is " ++ entry.state.text ++ ", not armed")))
    -- its outputs are on their way up: a cancelled countdown does not stop a broadcast
    else if w.isStartInFlight a id then
      w.emit (.answered (some "that entry is already going live"))
    else if !a.storeUp then w.emit (.answered (some ("failed to disarm the entry: " ++ a.storeError)))
    else
      let o := w.occurrence id
      let w := ((w.setState id .planned).setOccurrence id
        { o with canceled := true, countdownOpen := false, blockReason := "",
                 destinationRefusals := [] }).forgetArmed id
      let w := if w.appliedId = id then w.revertApplied else w
      (w.emit .onChanged).emit (.answered none)

/-- Arm the entry and start its occurrence afresh. -/
def rearm (entry : ScheduleEntry) (w : World) : World :=
  let w := if entry.state ≠ .armed then (w.setState entry.id .armed).rememberArmed entry.id else w
  w.setOccurrence entry.id { w.occurrence entry.id with
    canceled := false, startRequested := false, startFailed := false, blockReason := "" }

def startNow (a : Answers) (id : String) (w : World) : World :=
  match w.store.get a.storeUp id with
  | none => w.emit (.answered (some ("no scheduled entry with id '" ++ id ++ "'")))
  | some entry =>
    if w.isStartInFlight a id then w.emit (.answered (some "that entry is already going live"))
    else if entry.state = .live ∨ entry.state = .done ∨ entry.state = .canceled then
      w.emit (.answered (some ("that entry is " ++ entry.state.text ++ " and cannot be started")))
    else
      let row : ScheduleEntryWithDestinations :=
        { entry, destinations := w.store.destinationsFor a.storeUp id }
      let p := w.armable a row
      -- no tick would report the refusals of an entry that is not armed
      let w := if p.2.changed then p.1.emit .onChanged else p.1
      if !p.2.armable then w.emit (.answered (some p.2.reason))
      else if w.routingHeldElsewhere a id then w.emit (.answered (some kAlreadyStreamingReason))
      else if entry.state ≠ .armed ∧ !a.storeUp then
        w.emit (.answered (some ("failed to arm the entry: " ++ a.storeError)))
      else
        let q := (w.rearm entry).requestStart a { row with entry := { entry with state := .armed } }
        match q.2 with
        | some error => q.1.emit (.answered (some error))
        | none => (q.1.emit .onChanged).emit (.answered none)

/-- The candidate so far against the next remembered id. -/
def sooner (a : Answers) (w : World) (best : String × Int) (id : String) : String × Int :=
  match w.store.get a.storeUp id with
  | none => best
  | some row =>
    if row.state ≠ .armed then best
    else if best.1 = "" ∨ row.startsAt < best.2 then (id, row.startsAt) else best

/-- The armed entry whose start comes first, the earliest remembered one on a tie. -/
def imminentArmedId (a : Answers) (w : World) : String := (w.armedIds.foldl (w.sooner a) ("", 0)).1

def adoptImminentArmed (a : Answers) (w : World) : World :=
  if w.startingId ≠ "" ∨ w.liveId ≠ "" then w
  else
    let id := w.imminentArmedId a
    if id = "" then w
    else if w.hasRequestedStart id then w
    else if w.routingHeldElsewhere a id then w
    else
      match w.store.get a.storeUp id with
      | none => w
      | some entry =>
        (w.prepareStart a { entry, destinations := w.store.destinationsFor a.storeUp id }).1

def noteWentLive (a : Answers) (w : World) : World :=
  let id := w.startingId
  let w := { w with startingId := "" }
  if id = "" then w
  else
    match w.store.get a.storeUp id with
    | none => w.forgetArmed id
    | some entry =>
      if entry.state ≠ .armed then w.forgetArmed id
      else if !a.storeUp then w
      else ({ w.setState id .live with liveId := id }.forgetArmed id).emit .onChanged

def noteStoppedStreaming (a : Answers) (w : World) : World :=
  if w.liveId = "" then w
  else
    let id := w.liveId
    let w := { w with liveId := "" }
    if !a.storeUp then w
    else
      let w := (w.setState id .done).eraseOccurrence id
      (if w.appliedId = id then w.revertApplied else w).emit .onChanged

def noteStartFailed (w : World) : World :=
  if w.startingId = "" then w
  else
    let id := w.startingId
    let w := { w with startingId := "" }
    -- the request is over, so the entry stops being committed
    let w := if id ∈ w.occurrences then w.setOccurrence id { w.occurrence id with startFailed := true } else w
    (if w.appliedId = id then w.revertApplied else w).emit .onChanged

end World

/-! ### Steps -/

/-- Whether the runner knows this id. A new entry's id is none of these. -/
def World.holds (w : World) (id : String) : Prop :=
  id ∈ w.occurrences ∨ id ∈ w.armedIds ∨ w.startingId = id ∨ w.liveId = id ∨ w.appliedId = id

instance (w : World) (id : String) : Decidable (w.holds id) :=
  inferInstanceAs (Decidable (_ ∨ _ ∨ _ ∨ _ ∨ _))

/-- The runner's operations, and the changes `schedule.create`, `schedule.update` and
`schedule.delete` make to the rows. -/
inductive Call where
  | tick
  | cancelCountdown (id : String)
  | startNow (id : String)
  | adoptImminentArmed
  | noteEntryChanged (id : String)
  | noteWentLive
  | noteStartFailed
  | noteStoppedStreaming
  | createRow (id : String) (startsAt : Int) (autoStart : Bool) (destinations : List ScheduleDestination)
  | editRow (id : String) (startsAt : Int) (autoStart : Bool) (destinations : List ScheduleDestination)
  | deleteRow (id : String)
  deriving DecidableEq

structure Input where
  answers : Answers
  call : Call

def World.perform (a : Answers) (w : World) : Call → World
  | .tick => w.tick a
  | .cancelCountdown id => w.cancelCountdown a id
  | .startNow id => w.startNow a id
  | .adoptImminentArmed => w.adoptImminentArmed a
  | .noteEntryChanged id => w.noteEntryChanged a id
  | .noteWentLive => w.noteWentLive a
  | .noteStartFailed => w.noteStartFailed
  | .noteStoppedStreaming => w.noteStoppedStreaming a
  | .createRow id startsAt autoStart destinations =>
    if w.holds id then w else { w with store := w.store.create id startsAt autoStart destinations }
  | .editRow id startsAt autoStart destinations =>
    { w with store := w.store.update id startsAt autoStart destinations }
  | .deleteRow id => { w with store := w.store.remove id }

/-- One operation, with the effects of the one before it forgotten. -/
def World.step (w : World) (i : Input) : World := { w with effects := [] }.perform i.answers i.call

def Step (w : World) (i : Input) (w' : World) : Prop := w.step i = w'

end Braidcast.Schedule
