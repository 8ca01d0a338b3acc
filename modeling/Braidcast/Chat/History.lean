import Braidcast.Chat.Archive
import Braidcast.Lib.Run

/-!
# The ring, its steps and its pages

`ChatHistory`'s calls over the shared state, what boot leaves, and the runs of the whole.
An Add is two steps, since the writer may move between its Enqueue and its eviction while
the ring lock is held.
-/
namespace Braidcast.Chat

open Lib

def heldKey (destKey id : String) : String := destKey ++ ":" ++ id

def makeRow (codec : Codec) (dest : DestinationId) (message : Fields) (seq : Nat) (rx : Int) : Row :=
  { seq, rx
    ts := frameTs message
    dest := destinationKey dest
    msgId := str message "id"
    platform := normalizePlatform (str message "platform")
    accountId := str message "accountId"
    profileUuid := str message "profileUuid"
    authorId := frameAuthorId message
    body := codec.dump (.obj message) }

/-- `EvictLocked`'s loop: the oldest leave while there are more than `kCap`. -/
def evict (waitForDisk : Bool) (persisted : Nat) : List Held → List Held
  | [] => []
  | front :: rest =>
    if kCap < rest.length + 1 ∧ (waitForDisk = false ∨ front.seq ≤ persisted) then
      evict waitForDisk persisted rest
    else front :: rest

/-- A held message under a redaction that covers it: the first one keeps what was said. -/
def Held.redact (held : Held) (op : ModerationOp) : Held :=
  { held with
    retracted :=
      match held.retracted, held.frame.get? "fragments" with
      | none, some (.arr (first :: more)) => some (first :: more)
      | kept, _ => kept
    label := if op.label = "" then held.label else op.label
    frame := redactFrame held.frame op.action }

/-- `Redact` on one held message. -/
def Redaction.onHeld (ρ : Redaction) (op : ModerationOp) (held : Held) : Held :=
  if ρ.matchesFrame held.dest held.seq held.frame then held.redact op else held

namespace World

/-! ### Calls under the ring lock -/

def holds (w : World) (key : String) : Bool := w.messages.any fun held => held.key == key

/-- Take a seq for the message and hold it. -/
def hold (w : World) (held : Held) : World :=
  { w with nextSeq := w.nextSeq + 1, messages := w.messages ++ [held], adding := true }

/-- The message as the ring would hold it, stamped with its seq and receipt time. -/
def heldOf (w : World) (dest : DestinationId) (message : Fields) (now : Int) : Held :=
  { seq := w.nextSeq
    dest := destinationKey dest
    key := heldKey (destinationKey dest) (str message "id")
    frame := Fields.set "rx" (.num now) (Fields.set "seq" (.num w.nextSeq) message)
    retracted := none
    label := "" }

/-- Add, up to the row it queues. A message without an id takes a seq and is not held. -/
def add (env : Env) (w : World) (dest : DestinationId) (message : Fields) (now : Int) : Option World :=
  if w.adding then none
  else if str message "id" = "" then some { w with nextSeq := w.nextSeq + 1 }
  else if w.holds (w.heldOf dest message now).key then some w
  else
    some ((w.enqueue (makeRow env.codec dest message w.nextSeq now)).hold (w.heldOf dest message now))

/-- Past the hard cap the archive degrades. -/
def overflow (w : World) : World :=
  if kRingHardCap < w.messages.length ∧ w.active then w.degrade else w

def evictLocked (w : World) : World :=
  { w with messages := evict w.active w.persistedSeq w.messages, adding := false }

/-- The rest of Add. -/
def trim (w : World) : Option World := if w.adding then some w.overflow.evictLocked else none

def clear (w : World) (starts : Bool) (now : Int) : Option World :=
  if w.adding then none
  else some ({ w with messages := [], epoch := w.epoch + 1 }.enqueueControl (.clear w.nextSeq none) starts now)

def redact (w : World) (op : ModerationOp) (starts : Bool) (now : Int) : Option World :=
  if w.adding then none
  else
    some ({ w with messages := w.messages.map ((Redaction.ofOp op w.nextSeq).onHeld op) }.enqueueControl
      (.redact (Redaction.ofOp op w.nextSeq)) starts now)

/-- `PurgeAccount`, which takes no ring lock. -/
def purgeAccount (w : World) (accountId : String) (starts : Bool) (now : Int) : World :=
  if accountId = "" then w else w.enqueueControl (.purge accountId) starts now

def setRetention (w : World) (retention : Retention) (starts : Bool) : Option World :=
  if w.adding then none else some (w.changeRetention retention (w.nextSeq - 1) starts)

end World

/-! ### Steps -/

inductive Event where
  | add (dest : DestinationId) (message : Fields) (now : Int)
  | trim
  | clear (starts : Bool) (now : Int)
  | redact (op : ModerationOp) (starts : Bool) (now : Int)
  | purgeAccount (accountId : String) (starts : Bool) (now : Int)
  | setRetention (retention : Retention) (starts : Bool)
  | take
  | beginCommit
  | skipCommit (now : Int) (left : Bool)
  | tryCommit (outcome : Option Unfit)
  | giveUpCommit
  | raisePersisted
  | dropPending
  | finish
  | sweepDue (now : Int)
  | nextMode
  | applyOff (deleted left : Bool)
  | applyKeep (now : Int) (swept : Bool)
  | applyDegraded (left : Bool)
  | openFails (newer : Bool)
  | openStore (found : Found) (recovered : Bool)
  | owedFails (found : Found) (left : Bool)
  | replayMissed (unfit : Unfit)
  | replayFails (left : Bool)
  | raiseSeqAbove
  | publish (now : Int)
  | sweepFails
  | readerFails
  | stop
  | joined

/-- The state after the event, where it can happen. -/
def World.step (env : Env) (w : World) : Event → Option World
  | .add dest message now => w.add env dest message now
  | .trim => w.trim
  | .clear starts now => w.clear starts now
  | .redact op starts now => w.redact op starts now
  | .purgeAccount accountId starts now => some (w.purgeAccount accountId starts now)
  | .setRetention retention starts => w.setRetention retention starts
  | .take => w.take
  | .beginCommit => w.beginCommit
  | .skipCommit now left => w.skipCommit now left
  | .tryCommit outcome => w.tryCommit env outcome
  | .giveUpCommit => w.giveUpCommit
  | .raisePersisted => w.raisePersisted
  | .dropPending => w.dropPending
  | .finish => w.finish
  | .sweepDue now => w.sweepDue env now
  | .nextMode => w.nextMode
  | .applyOff deleted left => w.applyOff deleted left
  | .applyKeep now swept => w.applyKeep env now swept
  | .applyDegraded left => w.applyDegraded left
  | .openFails newer => w.openFails newer
  | .openStore found recovered => w.openStore env found recovered
  | .owedFails found left => w.owedFails found left
  | .replayMissed unfit => w.replayMissed env unfit
  | .replayFails left => w.replayFails left
  | .raiseSeqAbove => w.raiseSeqAbove
  | .publish now => w.publish env now
  | .sweepFails => w.sweepFails
  | .readerFails => w.readerFails
  | .stop => some w.stop
  | .joined => w.joined

def Step (env : Env) (w : World) (event : Event) (w' : World) : Prop := w.step env event = some w'

/-! ### Boot -/

/-- What `OpenArchive` met. -/
inductive Boot where
  /-- Retention is Off. -/
  | off (left : Bool)
  /-- This session or 7 days is set, or a setting this build does not know, and
  `OpenStore` failed. -/
  | failed (session unknownSetting newer : Bool)
  /-- The store opened. `swept` is when its sweep succeeded; `starts` is whether the writer
  could be started. -/
  | opened (session unknownSetting recovered : Bool) (found : Found) (swept : Option Int)
      (starts left : Bool)

/-- `BuildSeed`: the newest rows that parse, oldest first. -/
def buildSeed (codec : Codec) (t : Table) : List (String × Fields) :=
  ((t.rows.reverse.take kCap).filterMap fun r => (frameFromRow codec r).map (r.dest, ·)).reverse

/-- The ring's copy of the seed, a key held once. -/
def seedRing (seed : List (String × Fields)) : List Held :=
  seed.foldl (fun held entry =>
    let key := heldKey entry.1 (str entry.2 "id")
    if held.any fun h => h.key == key then held
    else
      let seq := match entry.2.get? "seq" with
        | some (.num n) => n.toNat
        | _ => 0
      held ++ [⟨seq, entry.1, key, entry.2, none, ""⟩]) []

def seedNextSeq (t : Table) : Nat :=
  (t.rows.reverse.take kCap).foldl (fun newest r => max newest (asUint64 r.seq)) 0 + 1

def World.fresh (mode : Retention) (status : ArchiveStatus) : World :=
  { messages := [], nextSeq := 1, epoch := 0, adding := false, ops := [], pending := [], mode
    owedRemoval := false, unknownSetting := false, degraded := false, stopped := false, status
    started := false, active := false, persistedSeq := 0, foreignMax := 0, writer := .idle
    retention := mode, db := none, readDb := false, missed := {}, sessionKeepsThrough := 0
    leftOnDisk := [], adoptions := 0, ledger := [] }

/-- An unknown setting runs as 7 days. -/
def bootRetention (session unknownSetting : Bool) : Retention :=
  if session && !unknownSetting then .session else .sevenDays

/-- `OpenArchive`. -/
def boot (env : Env) : Boot → World
  | .off left => { World.fresh .off .off with owedRemoval := left }
  | .failed session unknownSetting newer =>
    { World.fresh (bootRetention session unknownSetting) (if newer then .newerSchema else .disabled) with
      unknownSetting }
  | .opened session unknownSetting recovered found swept starts left =>
    let retention := bootRetention session unknownSetting
    let t := match swept with
      | some now => found.sweep env.options retention 0 now
      | none => found.toTable
    let w := { World.fresh retention (if recovered then .recovered else .ok) with
      messages := seedRing (buildSeed env.codec t)
      nextSeq := seedNextSeq t
      persistedSeq := seedNextSeq t - 1 }
    if starts then
      { w with
        db := some t
        readDb := true
        started := true
        active := !unknownSetting
        unknownSetting
        status := if unknownSetting then .unknownSetting else w.status }
    else
      { w with
        unknownSetting
        degraded := true
        status := .degraded
        owedRemoval := left }

/-! ### Pages -/

/-- Where an item of a page comes from. -/
inductive Source where
  | ring (held : Held)
  | disk (row : StoredRow)

structure Item where
  source : Source
  frame : Fields

structure Request where
  beforeSeq : Option Nat
  limit : Nat
  filter : Filter

structure ChatPage where
  items : List Item
  more : Bool
  epoch : Nat
  unreadable : Bool

/-- A held message as a page hands it out. -/
def Held.shown (held : Held) : Fields :=
  let frame := match held.retracted with
    | some fragments => Fields.set "retracted" (.arr fragments) held.frame
    | none => held.frame
  if held.label = "" then frame else Fields.set "deletedLabel" (.str held.label) frame

/-- `ReadOlder`'s scan with each frame's row beside it. -/
def Table.readItems (t : Table) (codec : Codec) (foreignMax : Nat) (pending : List PendingOp)
    (beforeSeq limit : Nat) (filter : Filter) : List Item :=
  let selected := t.rows.reverse.filter fun r =>
    decide (r.seq < sqlSeq beforeSeq) && decide (sqlSeq (clearedBelow foreignMax pending) ≤ r.seq) &&
      filter.selects r
  (selected.filterMap fun r => (readRow codec foreignMax pending r).map fun frame => ⟨.disk r, frame⟩).take limit

namespace World

def readable (w : World) : Bool := w.active || (w.unknownSetting && !w.degraded && !w.stopped)

def ringOldest (w : World) : Nat :=
  match w.messages with
  | [] => w.nextSeq
  | front :: _ => front.seq

/-- The ring's part of a page, newest first, one past the limit. -/
def ringItems (w : World) (q : Request) : List Item :=
  let chosen := w.messages.reverse.filter fun held =>
    (match q.beforeSeq with
      | some bound => decide (held.seq < bound)
      | none => true) &&
    q.filter.matchesItem (str held.frame "platform") (str held.frame "profileUuid") (str held.frame "accountId")
  (chosen.take (q.limit + 1)).map fun held => ⟨.ring held, held.shown⟩

/-- `ReadOlder`, with the pending ops copied earlier. Nothing while the store is not open
for reading but rows are being queued. -/
def readOlder (env : Env) (w : World) (copied : List PendingOp) (beforeSeq limit : Nat) (filter : Filter) :
    Option (List Item) :=
  if limit = 0 then some []
  else
    match w.readDb, w.db with
    | true, some t => some (t.readItems env.codec w.foreignMax copied beforeSeq limit filter)
    | _, _ => if w.active then none else some []

end World

/-- Newest first to a page: the one past the limit only says there are more. -/
def pageOf (newestFirst : List Item) (limit epoch : Nat) (unreadable : Bool) : ChatPage :=
  { items := (newestFirst.take limit).reverse
    more := unreadable || decide (limit < newestFirst.length)
    epoch, unreadable }

/-- `Page`, as it meets the state at its four moments: the scan under the ring lock with
the Readable check, the copy of the pending ops, the read of the store, and the check for
a Clear meanwhile. -/
def page (env : Env) (scan copy read check : World) (q : Request) : ChatPage :=
  let held := scan.ringItems q
  if scan.readable && decide (held.length ≤ q.limit) then
    let below := match q.beforeSeq with
      | some bound => min bound scan.ringOldest
      | none => scan.ringOldest
    match read.readOlder env copy.pending below (q.limit + 1 - held.length) q.filter with
    | none => pageOf held q.limit scan.epoch true
    | some older =>
      if check.epoch ≠ scan.epoch then ⟨[], false, check.epoch, false⟩
      else pageOf (held ++ older) q.limit scan.epoch false
  else pageOf held q.limit scan.epoch false

end Braidcast.Chat
