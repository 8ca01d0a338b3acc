import Braidcast.Chat.Moderation
import Braidcast.Lib.Run

/-!
# The event store

`EventStore` with events.json. A call is what it does under `mutex_`, one step, and the write
it then makes under `writeMutex_`, another: in between it is in flight with the snapshot it
took and the epoch it stamped it with. A write that failed marks the store dirty in a third
step.

The store's id set is read off the events. The store of the self-tests that keeps nothing on
disk is left out.
-/
namespace Braidcast.Events

open Lib
open Chat (normalizePlatform)

structure NormalizedEvent where
  id : String
  platform : String
  type : String
  ts : Int := 0
  accountId : String := ""
  profileUuid : String := ""
  actorName : String := ""
  actorColor : String := ""
  amount : Int := 0
  currency : String := ""
  tier : String := ""
  months : Int := 0
  count : Int := 0
  message : String := ""
  msgId : String := ""
  authorId : String := ""
  deleted : String := ""
  deriving DecidableEq

/-! ### JSON -/

def putStr (key value : String) (fields : Fields) : Fields :=
  if value = "" then fields else Fields.set key (.str value) fields

def putNum (key : String) (value : Int) (fields : Fields) : Fields :=
  if value = 0 then fields else Fields.set key (.num value) fields

/-- The fields every event is written with. -/
def NormalizedEvent.required (ev : NormalizedEvent) : Fields :=
  Fields.set "actorName" (.str ev.actorName) (Fields.set "ts" (.num ev.ts) (Fields.set "type" (.str ev.type)
    (Fields.set "platform" (.str ev.platform) (Fields.set "id" (.str ev.id) []))))

/-- `ToJson`: an optional field that is empty or zero is left out. -/
def NormalizedEvent.toJson (ev : NormalizedEvent) : Json :=
  .obj (putStr "deleted" ev.deleted (putStr "authorId" ev.authorId (putStr "msgId" ev.msgId
    (putStr "message" ev.message (putNum "count" ev.count (putNum "months" ev.months (putStr "tier" ev.tier
      (putStr "currency" ev.currency (putNum "amount" ev.amount (putStr "actorColor" ev.actorColor
        (putStr "profileUuid" ev.profileUuid (putStr "accountId" ev.accountId ev.required))))))))))))

/-- `value`, which throws on a field of another type. -/
def strValue (fields : Fields) (key : String) : Option String :=
  match fields.get? key with
  | none => some ""
  | some (.str s) => some s
  | some _ => none

def numValue (fields : Fields) (key : String) : Option Int :=
  match fields.get? key with
  | none => some 0
  | some (.num n) => some n
  | some _ => none

def eventFromJson : Json → Option NormalizedEvent
  | .obj j => do
    return {
      id := ← strValue j "id"
      platform := ← strValue j "platform"
      type := ← strValue j "type"
      ts := ← numValue j "ts"
      accountId := ← strValue j "accountId"
      profileUuid := ← strValue j "profileUuid"
      actorName := ← strValue j "actorName"
      actorColor := ← strValue j "actorColor"
      amount := ← numValue j "amount"
      currency := ← strValue j "currency"
      tier := ← strValue j "tier"
      months := ← numValue j "months"
      count := ← numValue j "count"
      message := ← strValue j "message"
      msgId := ← strValue j "msgId"
      authorId := ← strValue j "authorId"
      deleted := ← strValue j "deleted" }
  | _ => some { id := "", platform := "", type := "" }

def buildJson (events : List NormalizedEvent) : Json :=
  .obj [("events", .arr (events.map NormalizedEvent.toJson))]

/-- The events a file holds. -/
def eventsIn : Json → List NormalizedEvent
  | .obj root =>
    match Fields.get? root "events" with
    | some (.arr items) => items.filterMap eventFromJson
    | _ => []
  | _ => []

/-! ### The file -/

/-- events.json and the finished temp file a save left beside it. -/
structure Files where
  saved : Option Json
  temp : Option Json

def Files.events (files : Files) : List NormalizedEvent := (files.saved.map eventsIn).getD []

/-- How far a save that failed came with its temp file. -/
inductive TempFile where
  | unopened
  | abandoned
  | finished
  deriving DecidableEq

/-- What the file system does to one save. -/
inductive Attempt where
  | succeeds
  /-- The temp file is not moved into place: `outgoing` is whether the file it was to replace
  is gone by then, `promotes` whether a temp file can still be moved to where none is, and
  `clears` whether one can be removed. -/
  | fails (temp : TempFile) (outgoing promotes clears : Bool)
  deriving DecidableEq

/-- The finished temp file beside events.json once a save gave up on its own. -/
def Files.left (files : Files) (root : Json) : TempFile → Option Json
  | .unopened => files.temp
  | .abandoned => none
  | .finished => some root

/-- `SaveJsonAtomicDroppingHistory`: whether the new state is in the file. A failed save still
puts a finished temp file in place where the file is missing, its own or an older one. -/
def Files.save (files : Files) (root : Json) : Attempt → Files × Bool
  | .succeeds => (⟨some root, none⟩, true)
  | .fails temp outgoing promotes clears =>
    let file := if temp = .finished ∧ outgoing then none else files.saved
    match file, files.left root temp with
    | none, some t => if promotes then (⟨some t, none⟩, decide (t = root)) else (⟨none, some t⟩, false)
    | none, none => (⟨none, none⟩, false)
    | some file, left => (⟨some file, if clears then none else left⟩, false)

/-! ### The store -/

def kCap : Nat := 500
def kSaveIntervalNs : UInt64 := 3000000000

/-- A call past its locked step. -/
inductive Call where
  /-- Its snapshot waits for `writeMutex_`. `number` is its place among all snapshots taken. -/
  | writing (number : Nat) (snapshot : Json) (epoch : Nat)
  /-- Its write failed and the store is not marked dirty for it yet. -/
  | unsaved

structure EventStore where
  events : List NormalizedEvent
  dirty : Bool
  lastSaveNs : UInt64
  seq : Nat
  lastWrittenSeq : Nat
  files : Files
  /-- The calls in flight. -/
  calls : List Call
  /-- How many snapshots were taken. -/
  taken : Nat

/-- The oldest go past the cap. -/
def capped (events : List NormalizedEvent) : List NormalizedEvent := events.drop (events.length - kCap)

/-- What `Load` keeps of a file: the first event of each id, up to the cap. -/
def loaded (events : List NormalizedEvent) : List NormalizedEvent :=
  capped (events.foldl (fun held ev =>
    if ev.id = "" ∨ held.any (fun h => h.id == ev.id) then held else held ++ [ev]) [])

namespace EventStore

/-- The store as `Load` leaves it. -/
def load (files : Files) : EventStore :=
  { events := loaded files.events, dirty := false, lastSaveNs := 0, seq := 0, lastWrittenSeq := 0, files
    calls := [], taken := 0 }

def contains (s : EventStore) (id : String) : Bool := s.events.any fun ev => ev.id == id

def select (s : EventStore) (pick : NormalizedEvent → Bool) : List NormalizedEvent := s.events.filter pick

/-- A snapshot of the events is on its way to disk, stamped with the epoch. -/
def snapshot (s : EventStore) (now : UInt64) : EventStore :=
  { s with
    dirty := false
    lastSaveNs := now
    calls := s.calls ++ [.writing (s.taken + 1) (buildJson s.events) s.seq]
    taken := s.taken + 1 }

/-- `NewEpochSnapshotLocked`. -/
def newEpochSnapshot (s : EventStore) (now : UInt64) : EventStore := { s with seq := s.seq + 1 }.snapshot now

/-- One field of the stored copy, filled in where it is missing. -/
def adopt (field known : String) : String := if field = "" ∧ known ≠ "" then known else field

/-- What the stored copy takes from a duplicate: never the text. -/
def adoptFrom (copy ev : NormalizedEvent) : NormalizedEvent :=
  { ev with
    msgId := adopt ev.msgId copy.msgId
    authorId := adopt ev.authorId copy.authorId
    profileUuid := adopt ev.profileUuid copy.profileUuid }

/-- Change the first event that is found. -/
def updateFirst (found : NormalizedEvent → Bool) (change : NormalizedEvent → NormalizedEvent) :
    List NormalizedEvent → List NormalizedEvent
  | [] => []
  | ev :: rest => if found ev then change ev :: rest else ev :: updateFirst found change rest

/-- `AdoptIdentityLocked`. -/
def adoptIdentity (s : EventStore) (copy : NormalizedEvent) : EventStore :=
  match s.events.find? fun ev => ev.id == copy.id with
  | none => s
  | some ev =>
    if ev.accountId ≠ copy.accountId ∨ adoptFrom copy ev = ev then s
    else
      { s with
        events := updateFirst (fun ev => ev.id == copy.id) (adoptFrom copy) s.events
        dirty := true }

/-- The locked part of `Add`, with whether the event was stored. -/
def add (s : EventStore) (ev : NormalizedEvent) (now : UInt64) : EventStore × Bool :=
  if ev.id = "" then (s, false)
  else if s.contains ev.id then (s.adoptIdentity ev, false)
  else
    let s := { s with events := capped (s.events ++ [ev]), dirty := true }
    (if s.lastSaveNs = 0 ∨ kSaveIntervalNs ≤ now - s.lastSaveNs then s.snapshot now else s, true)

def clear (s : EventStore) (now : UInt64) : EventStore := { s with events := [] }.newEpochSnapshot now

def removeIf (s : EventStore) (drop : NormalizedEvent → Bool) (now : UInt64) : EventStore :=
  if s.events.any drop then { s with events := s.events.filter fun ev => !drop ev }.newEpochSnapshot now else s

def purgeAccount (s : EventStore) (accountId : String) (now : UInt64) : EventStore :=
  if accountId = "" then s else s.removeIf (fun ev => ev.accountId == accountId) now

def pruneOlderThan (s : EventStore) (platform : String) (cutoffMs : Int) (now : UInt64) : EventStore :=
  s.removeIf (fun ev => decide (ev.ts < cutoffMs) && normalizePlatform ev.platform == platform) now

/-- Whether `RedactMessages` takes the words of an event. -/
def redacts (reaches : NormalizedEvent → Bool) (ev : NormalizedEvent) : Bool := ev.message != "" && reaches ev

def redactEvent (reaches : NormalizedEvent → Bool) (mark : String) (ev : NormalizedEvent) : NormalizedEvent :=
  if redacts reaches ev then { ev with message := "", deleted := mark } else ev

def redactMessages (s : EventStore) (reaches : NormalizedEvent → Bool) (mark : String) (now : UInt64) : EventStore :=
  if s.events.any (redacts reaches) then
    { s with events := s.events.map (redactEvent reaches mark) }.newEpochSnapshot now
  else s

def flush (s : EventStore) (now : UInt64) : EventStore := if s.dirty then s.snapshot now else s

/-- `WriteToDisk`, by the call at this place: a snapshot an epoch already superseded is
dropped. -/
def write (s : EventStore) (place : Nat) (attempt : Attempt) : Option EventStore :=
  match s.calls[place]? with
  | some (.writing _ snapshot epoch) =>
    if epoch < s.lastWrittenSeq then some { s with calls := s.calls.eraseIdx place }
    else
      let (files, written) := s.files.save snapshot attempt
      some { s with
        lastWrittenSeq := epoch
        files
        calls := if written then s.calls.eraseIdx place else s.calls.set place .unsaved }
  | _ => none

/-- The rest of `Persist`, after a failed write. -/
def markDirty (s : EventStore) (place : Nat) : Option EventStore :=
  match s.calls[place]? with
  | some .unsaved => some { s with dirty := true, calls := s.calls.eraseIdx place }
  | _ => none

end EventStore

/-! ### Steps -/

inductive StoreEvent where
  | add (ev : NormalizedEvent) (now : UInt64)
  | flush (now : UInt64)
  | clear (now : UInt64)
  | purgeAccount (accountId : String) (now : UInt64)
  | pruneOlderThan (platform : String) (cutoffMs : Int) (now : UInt64)
  | redactMessages (reaches : NormalizedEvent → Bool) (mark : String) (now : UInt64)
  | write (place : Nat) (attempt : Attempt)
  | markDirty (place : Nat)

def EventStore.step (s : EventStore) : StoreEvent → Option EventStore
  | .add ev now => some (s.add ev now).1
  | .flush now => some (s.flush now)
  | .clear now => some (s.clear now)
  | .purgeAccount accountId now => some (s.purgeAccount accountId now)
  | .pruneOlderThan platform cutoffMs now => some (s.pruneOlderThan platform cutoffMs now)
  | .redactMessages reaches mark now => some (s.redactMessages reaches mark now)
  | .write place attempt => s.write place attempt
  | .markDirty place => s.markDirty place

def StoreStep (s : EventStore) (event : StoreEvent) (t : EventStore) : Prop := s.step event = some t

/-! ### Reading a snapshot back -/

section

variable {key other : String} (value : String) (number : Int) (fields : Fields)

theorem get?_putStr :
    (putStr key value fields).get? other = if other = key ∧ value ≠ "" then some (.str value) else fields.get? other := by
  unfold putStr
  split
  next empty => simp [empty]
  next named => by_cases same : other = key <;> simp [Fields.get?_set, same, named]

theorem get?_putNum :
    (putNum key number fields).get? other =
      if other = key ∧ number ≠ 0 then some (.num number) else fields.get? other := by
  unfold putNum
  split
  next zero => simp [zero]
  next some => by_cases same : other = key <;> simp [Fields.get?_set, same, some]

/-- A field that was not there reads as what is put. -/
theorem strValue_putStr (absent : fields.get? key = none) : strValue (putStr key value fields) key = some value := by
  by_cases empty : value = "" <;> simp [strValue, get?_putStr, absent, empty]

theorem numValue_putNum (absent : fields.get? key = none) : numValue (putNum key number fields) key = some number := by
  by_cases zero : number = 0 <;> simp [numValue, get?_putNum, absent, zero]

variable (apart : other ≠ key)
include apart

theorem get?_putStr_of_ne : (putStr key value fields).get? other = fields.get? other := by
  simp [get?_putStr, apart]

theorem get?_putNum_of_ne : (putNum key number fields).get? other = fields.get? other := by
  simp [get?_putNum, apart]

theorem strValue_putStr_of_ne : strValue (putStr key value fields) other = strValue fields other := by
  simp only [strValue, get?_putStr_of_ne _ _ apart]

theorem strValue_putNum_of_ne : strValue (putNum key number fields) other = strValue fields other := by
  simp only [strValue, get?_putNum_of_ne _ _ apart]

theorem numValue_putStr_of_ne : numValue (putStr key value fields) other = numValue fields other := by
  simp only [numValue, get?_putStr_of_ne _ _ apart]

theorem numValue_putNum_of_ne : numValue (putNum key number fields) other = numValue fields other := by
  simp only [numValue, get?_putNum_of_ne _ _ apart]

end

theorem get?_required (ev : NormalizedEvent) (key : String) :
    ev.required.get? key =
      if key = "actorName" then some (.str ev.actorName)
      else if key = "ts" then some (.num ev.ts)
      else if key = "type" then some (.str ev.type)
      else if key = "platform" then some (.str ev.platform)
      else if key = "id" then some (.str ev.id)
      else none := by
  simp only [NormalizedEvent.required, Fields.get?_set]
  rfl

/-- An event is read back as it was written. -/
theorem eventFromJson_toJson (ev : NormalizedEvent) : eventFromJson ev.toJson = some ev := by
  have words (key : String) : strValue ev.required key = match ev.required.get? key with
    | none => some ""
    | some (.str s) => some s
    | some _ => none := rfl
  have figure : numValue ev.required "ts" = some ev.ts := by simp [numValue, get?_required]
  simp (disch := simp [get?_putStr_of_ne, get?_putNum_of_ne, get?_required]) only [NormalizedEvent.toJson,
    eventFromJson, strValue_putStr, numValue_putNum, strValue_putStr_of_ne, strValue_putNum_of_ne, numValue_putStr_of_ne,
    numValue_putNum_of_ne, figure, words, get?_required]
  rfl

theorem eventsIn_buildJson (events : List NormalizedEvent) : eventsIn (buildJson events) = events := by
  have each : events.filterMap (fun ev => eventFromJson ev.toJson) = events := by
    simp [eventFromJson_toJson]
  simpa [eventsIn, buildJson, Fields.get?, List.filterMap_map, Function.comp_def] using each

end Braidcast.Events
