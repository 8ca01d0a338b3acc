import Braidcast.Lib.Run
import Mathlib.Data.Rat.Defs

/-!
# The session recorder

`SessionRecorder` over the tables it writes. A storage write either takes place or throws, and
each call is told which of its writes throws and with what text. It is the only writer during a
broadcast.
-/
namespace Braidcast.History

open Lib

/-- One destination as it was at go-live. -/
structure DestinationRecord where
  bindingUuid : String
  profileId : String := ""
  platform : String := ""
  accountLabel : String := ""
  title : String := ""
  category : String := ""
  tags : List String := []

structure SessionStart where
  startedAtMs : Int
  title : String
  scheduleId : String
  canvasUuids : List String
  destinations : List DestinationRecord

/-- One tick of the host sampler, its frame counters cumulative. -/
structure HealthSample where
  tMs : Int := 0
  bitrateKbps : Int := 0
  cumulativeDroppedFrames : Int := 0
  cumulativeEncodeSkipped : Int := 0
  congestionPct : ℚ := 0
  cpuPct : ℚ := 0

def kHealthIntervalMs : Int := 10000

/-! ### Rows -/

/-- A row of `sessions`. Its canvas uuids are the array that the column's text dumps. -/
structure Session where
  id : String
  createdAt : Int
  updatedAt : Int
  startedAt : Int
  endedAt : Option Int := none
  endReason : Option String := none
  scheduleId : Option String
  title : String
  canvasUuids : List String
  thumbPath : Option String := none

structure SessionDestination where
  id : String
  createdAt : Int
  updatedAt : Int
  sessionId : String
  profileId : String
  platform : String
  accountLabel : String
  title : String
  category : String
  tags : List String
  finalState : String := ""
  error : String := ""
  deriving DecidableEq

structure SessionHealth where
  sessionId : String
  t : Int
  bitrateKbps : Int
  droppedFrames : Int
  congestionPct : ℚ
  encodeSkipped : Int
  cpuPct : ℚ

structure Tables where
  sessions : List Session := []
  destinations : List SessionDestination := []
  health : List SessionHealth := []

namespace Tables

/-- `replace`, by primary key. -/
def replaceSession (db : Tables) (row : Session) : Tables :=
  { db with sessions := (db.sessions.filter fun other => other.id ≠ row.id) ++ [row] }

def replaceDestination (db : Tables) (row : SessionDestination) : Tables :=
  { db with destinations := (db.destinations.filter fun other => other.id ≠ row.id) ++ [row] }

end Tables

/-- The recorder and the database it is attached to. -/
structure Recorder where
  db : Tables
  attached : Bool := false
  currentId : String := ""
  startedAtMs : Int := 0
  /-- By binding uuid, the id of its destination's row. -/
  bindings : String → Option String := fun _ => none
  lastPersisted : HealthSample := {}
  havePersisted : Bool := false
  lastError : String := ""

namespace Recorder

variable (r : Recorder)

def isRecording : Bool := r.currentId ≠ ""

def detach : Recorder :=
  { r with attached := false, currentId := "", bindings := fun _ => none, havePersisted := false }

def attach (thrown : Option String) : Recorder :=
  match thrown with
  | none => { r.detach with attached := true, lastError := "" }
  | some what => { r.detach with lastError := what }

/-! ### Begin -/

def sessionOf (start : SessionStart) (id : String) (now : Int) : Session where
  id
  createdAt := now
  updatedAt := now
  startedAt := start.startedAtMs
  scheduleId := if start.scheduleId = "" then none else some start.scheduleId
  title := start.title
  canvasUuids := start.canvasUuids

def destinationOf (d : DestinationRecord) (sessionId id : String) (now : Int) : SessionDestination where
  id
  createdAt := now
  updatedAt := now
  sessionId
  profileId := d.profileId
  platform := d.platform
  accountLabel := d.accountLabel
  title := d.title
  category := d.category
  tags := d.tags

/-- The loop over the destinations, each with the id drawn for its row. `left` is how many writes there are
before the one that throws. The binding is recorded before the row is written. -/
def writeDestinations (sessionId : String) (now : Int) : Recorder → List (DestinationRecord × String) → Option Nat →
    Recorder × Bool
  | r, [], _ => (r, true)
  | r, (d, rowId) :: rest, left =>
    let bound := { r with bindings := Function.update r.bindings d.bindingUuid (some rowId) }
    match left with
    | some 0 => (bound, false)
    | left =>
      writeDestinations sessionId now { bound with db := bound.db.replaceDestination (destinationOf d sessionId rowId now) }
        rest (left.map (· - 1))

/-- What a `Begin` is given: the ids that `UuidUtil::New` draws, the clock, and the number and text of the write
that throws, the session's being number 0. -/
structure BeginCall where
  start : SessionStart
  id : String
  rowIds : List String
  now : Int
  thrown : Option (Nat × String) := none

/-- The text of what a call's write throws. -/
def BeginCall.what (c : BeginCall) : String := (c.thrown.map (·.2)).getD ""

/-- The session's row and the loop. -/
def writeRows (c : BeginCall) : Recorder × Bool :=
  writeDestinations c.id c.now { r with db := r.db.replaceSession (sessionOf c.start c.id c.now) }
    (c.start.destinations.zip c.rowIds) (c.thrown.map fun t => t.1 - 1)

/-- `Begin`, with what it returns. -/
def begin_ (c : BeginCall) : Recorder × String :=
  if !r.attached || r.isRecording then (r, "")
  else if c.thrown.map (·.1) = some 0 then ({ r with lastError := c.what }, "")
  else if (r.writeRows c).2 then
    ({ (r.writeRows c).1 with
      currentId := c.id, startedAtMs := c.start.startedAtMs, havePersisted := false, lastError := "" }, c.id)
  else ({ (r.writeRows c).1 with lastError := c.what }, "")

/-! ### During a session -/

/-- A counter that went backwards was reset, so its value is the delta. -/
def delta (now before : Int) : Int := if before ≤ now then now - before else now

/-- The sample is not left out by the throttle. -/
def takes (sample : HealthSample) : Bool :=
  r.attached && r.isRecording && !(r.havePersisted && decide (sample.tMs - r.lastPersisted.tMs < kHealthIntervalMs))

def healthRow (sample : HealthSample) : SessionHealth where
  sessionId := r.currentId
  t := sample.tMs
  bitrateKbps := sample.bitrateKbps
  droppedFrames :=
    if r.havePersisted then delta sample.cumulativeDroppedFrames r.lastPersisted.cumulativeDroppedFrames
    else sample.cumulativeDroppedFrames
  congestionPct := sample.congestionPct
  encodeSkipped :=
    if r.havePersisted then delta sample.cumulativeEncodeSkipped r.lastPersisted.cumulativeEncodeSkipped
    else sample.cumulativeEncodeSkipped
  cpuPct := sample.cpuPct

def onSample (sample : HealthSample) (thrown : Option String) : Recorder :=
  if r.takes sample then
    match thrown with
    | none =>
      { r with
        db := { r.db with health := r.db.health ++ [r.healthRow sample] }
        lastPersisted := sample
        havePersisted := true }
    -- the baseline stays, so the next row carries this interval too
    | some what => { r with lastError := what }
  else r

def onDestinationEnded (bindingUuid finalState error : String) (thrown : Option String) : Recorder :=
  if !r.attached || !r.isRecording then r
  else
    match r.bindings bindingUuid, thrown with
    | none, _ => r
    | some _, some what => { r with lastError := what }
    | some rowId, none =>
      { r with
        db := { r.db with
          destinations := r.db.destinations.map fun row => if row.id = rowId then { row with finalState, error } else row } }

def updateSession (change : Session → Session) (thrown : Option String) : Recorder :=
  match thrown with
  | some what => { r with lastError := what }
  | none =>
    { r with
      db := { r.db with sessions := r.db.sessions.map fun row => if row.id = r.currentId then change row else row } }

def end_ (endedAtMs : Int) (reason : String) (thrown : Option String) : Recorder :=
  if !r.attached || !r.isRecording then r
  else
    { r.updateSession (fun row => { row with endedAt := some endedAtMs, endReason := some reason }) thrown with
      currentId := "", bindings := fun _ => none, havePersisted := false }

def setThumbnail (relPath : String) (thrown : Option String) : Recorder :=
  if !r.attached || !r.isRecording then r
  else r.updateSession (fun row => { row with thumbPath := some relPath }) thrown

/-! ### Steps -/

inductive Input
  | attach (thrown : Option String)
  | detach
  | begin_ (c : BeginCall)
  | sample (sample : HealthSample) (thrown : Option String)
  | destinationEnded (bindingUuid finalState error : String) (thrown : Option String)
  | end_ (endedAtMs : Int) (reason : String) (thrown : Option String)
  | setThumbnail (relPath : String) (thrown : Option String)

/-- The ids that a call draws are new. -/
def Draws (db : Tables) (c : BeginCall) : Prop :=
  c.id ≠ "" ∧ c.id ∉ db.sessions.map (·.id) ∧ c.id ∉ db.health.map (·.sessionId) ∧
    c.rowIds.length = c.start.destinations.length ∧ c.rowIds.Nodup ∧ ∀ rowId ∈ c.rowIds, rowId ∉ db.destinations.map (·.id)

instance (db : Tables) (c : BeginCall) : Decidable (Draws db c) := inferInstanceAs (Decidable (_ ∧ _))

def step : Input → Option Recorder
  | .attach thrown => some (r.attach thrown)
  | .detach => some r.detach
  | .begin_ c => if Draws r.db c then some (r.begin_ c).1 else none
  | .sample sample thrown => some (r.onSample sample thrown)
  | .destinationEnded bindingUuid finalState error thrown => some (r.onDestinationEnded bindingUuid finalState error thrown)
  | .end_ endedAtMs reason thrown => some (r.end_ endedAtMs reason thrown)
  | .setThumbnail relPath thrown => some (r.setThumbnail relPath thrown)

def Step (r : Recorder) (input : Input) (r' : Recorder) : Prop := r.step input = some r'

/-- A recorder that nothing is attached to yet, over what earlier launches stored. -/
def fresh (db : Tables) : Recorder := { db }

end Recorder

end Braidcast.History
