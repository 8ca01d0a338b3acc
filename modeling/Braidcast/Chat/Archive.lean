import Braidcast.Chat.Table

/-!
# The archive and the ring it serves

`ChatHistory` and `ChatArchive` as one state. What the ring does under its lock, and what
the writer does between two of its lock sections, are single steps; a page of history is
read by an observer (`Page`), since it changes nothing.

The writer is where its thread stands. A batch it took off the queue is cut at each mode
change: the run before the change is committed first, retried, then dropped from what
readers look through.
-/
namespace Braidcast.Chat

open Lib

def kCap : Nat := 1000
def kRingHardCap : Nat := 20000
def kMaxMissedRedactions : Nat := 4096
/-- How often a failed commit is tried again. -/
def kRetries : Nat := 3

inductive ArchiveStatus where
  | off
  | ok
  | disabled
  | recovered
  | newerSchema
  | degraded
  | unknownSetting
  deriving DecidableEq

/-- What does not change during a launch. -/
structure Env where
  codec : Codec
  options : Options

structure Held where
  seq : Nat
  dest : String
  key : String
  frame : Fields
  /-- A removed message's own fragments. -/
  retracted : Option (List Json)
  label : String
  deriving DecidableEq

structure Missed where
  clearedAt : Option Int := none
  purgedAccounts : List String := []
  redactions : List Redaction := []

/-- What became of a row the writer settled. -/
inductive Fate where
  | stored
  | duplicate
  | unfit
  /-- Its seq is among those of a store adopted after it was admitted. -/
  | passedOver
  deriving DecidableEq

/-- Where the writer thread stands. -/
inductive Writer where
  | idle
  /-- In `Apply`, with this much of the batch to go. -/
  | applying (batch : List Op)
  /-- In `Commit`, after this many failed attempts. -/
  | trying (run rest : List Op) (failures : Nat)
  /-- Every attempt failed; not degraded for it yet. -/
  | failed (run rest : List Op)
  /-- `TryCommit` succeeded; `persistedSeq_` not raised yet. -/
  | stored (run rest : List Op) (maxSeq : Nat)
  /-- The run is dealt with; its ops are still in `pending_`. -/
  | settled (run rest : List Op) (committed : Bool)
  /-- In `ApplyMode`, leaving the mode `before`. -/
  | changing (before : Retention) (rest : List Op)
  /-- In `AdoptStore`: `foreignMax_` set, the missed ops not replayed. -/
  | replaying (rest : List Op)
  /-- Replayed; the ring's seqs not raised. -/
  | raising (rest : List Op)
  /-- Raised; the store not swept and its reader not published. -/
  | publishing (rest : List Op)
  deriving DecidableEq

structure World where
  -- the ring's, under its lock
  messages : List Held
  nextSeq : Nat
  epoch : Nat
  /-- An Add has queued its row and still holds the lock. -/
  adding : Bool
  -- the archive's, under the queue lock
  ops : List Op
  pending : List PendingOp
  mode : Retention
  owedRemoval : Bool
  unknownSetting : Bool
  degraded : Bool
  stopped : Bool
  status : ArchiveStatus
  /-- `writer_.joinable()`. -/
  started : Bool
  active : Bool
  persistedSeq : Nat
  foreignMax : Nat
  -- the writer's
  writer : Writer
  retention : Retention
  db : Option Table
  /-- The read connection is published. -/
  readDb : Bool
  missed : Missed
  sessionKeepsThrough : Nat
  /-- What is in a chat.db this launch closed and could not remove. -/
  leftOnDisk : List StoredRow
  -- kept for the statements only
  /-- How many stores were adopted after boot. -/
  adoptions : Nat
  /-- Every row settled so far. -/
  ledger : List (Nat × Fate)

def Op.isRow : Op → Bool
  | .row _ => true
  | _ => false

def Op.isSetMode : Op → Bool
  | .setMode _ => true
  | _ => false

/-- A batch is cut at its mode changes: what is written before the next one, and the rest. -/
def runOf (batch : List Op) : List Op := batch.takeWhile fun op => !op.isSetMode
def restOf (batch : List Op) : List Op := batch.dropWhile fun op => !op.isSetMode

/-- What a queued op is to a reader, if it looks through it. -/
def Op.pending? : Op → Option PendingOp
  | .redact ρ => some (.redact ρ)
  | .purge accountId => some (.purge accountId)
  | .clear belowSeq _ => some (.clear belowSeq)
  | _ => none

namespace World

def writing (env : Env) (w : World) : Writing := ⟨env.codec, env.options.launchId, w.foreignMax⟩

/-! ### Under the queue lock -/

def setStatus (w : World) (status : ArchiveStatus) : World := if w.degraded then w else { w with status }

def dropRows (w : World) : World := { w with active := false, ops := w.ops.filter fun op => !op.isRow }

/-- `DegradeFromWriter`. -/
def degradeFromWriter (w : World) : World :=
  if w.degraded then w else { w with degraded := true, status := .degraded }.dropRows

/-- `Degrade`, the ring's. -/
def degrade (w : World) : World := if w.degraded || w.stopped then w else w.degradeFromWriter

def stopPersisting (w : World) : World := w.dropRows

def enqueue (w : World) (row : Row) : World :=
  if w.stopped || w.degraded || !w.active then w else { w with ops := w.ops ++ [.row row] }

/-- `starts` is whether a thread can be created. -/
def startWriter (w : World) (starts : Bool) : World :=
  if w.stopped || w.started then w
  else if starts then { w with started := true }
  else
    { w with
      active := false
      ops := []
      pending := []
      degraded := true
      status := .degraded }

def nothingToReach (w : World) : Bool := w.mode == .off && !w.started && !w.owedRemoval

def keepMissed (now : Int) (missed : Missed) : Op → Missed
  | .clear _ _ => { missed with clearedAt := some now }
  | .purge accountId =>
    if accountId ∈ missed.purgedAccounts then missed
    else { missed with purgedAccounts := missed.purgedAccounts ++ [accountId] }
  | .redact ρ =>
    let kept := if ρ.action ≠ .delete ∧ ρ.beforeTs = none then { ρ with beforeTs := some now } else ρ
    let old := if kMaxMissedRedactions ≤ missed.redactions.length then missed.redactions.tail else missed.redactions
    { missed with redactions := old ++ [kept] }
  | _ => missed

def pushControl (w : World) (op : Op) : World :=
  { w with
    pending := w.pending ++ op.pending?.toList
    ops := w.ops ++ [op] }

def enqueueControl (w : World) (op : Op) (starts : Bool) (now : Int) : World :=
  if w.stopped then w
  else if w.nothingToReach then { w with missed := keepMissed now w.missed op }
  else (w.pushControl op).startWriter starts

/-- A mode was chosen, so the setting is no longer one this build does not know. -/
def settingKnown (w : World) : World :=
  if w.unknownSetting then
    { w with unknownSetting := false, status := if w.status = .unknownSetting then .ok else w.status }
  else w

/-- The archive's `SetRetention`. -/
def changeRetention (w : World) (retention : Retention) (lastIssuedSeq : Nat) (starts : Bool) : World :=
  if w.stopped then w
  else if retention = .off then
    if w.nothingToReach then { w.settingKnown with mode := .off, active := false }
    else ({ w.settingKnown with mode := .off, active := false }.pushControl (.setMode .off)).startWriter starts
  else if !w.active && !w.degraded then
    ({ w.settingKnown with
      mode := retention
      persistedSeq := max w.persistedSeq lastIssuedSeq
      active := true }.pushControl (.setMode retention)).startWriter starts
  else ({ w.settingKnown with mode := retention }.pushControl (.setMode retention)).startWriter starts

/-! ### The writer -/

/-- `RemoveOrOwe`; `left` is whether a file this build may remove is still there. -/
def removeOrOwe (w : World) (left : Bool) : World :=
  { w with owedRemoval := left, leftOnDisk := if left then w.leftOnDisk else [] }

def removeWhatIsOwed (w : World) (left : Bool) : World :=
  if w.db.isSome then w
  else if w.retention = .off ∨ w.owedRemoval then w.removeOrOwe left
  else w

def closeStore (w : World) : World := { w with db := none, readDb := false }

def goto (w : World) (writer : Writer) : World := { w with writer }

/-- Take the queue as a batch. -/
def take (w : World) : Option World :=
  match w.writer with
  | .idle => if w.started ∧ w.ops ≠ [] then some ({ w with ops := [] }.goto (.applying w.ops)) else none
  | _ => none

/-- The ops a commit attempts: a degraded archive writes no rows. -/
def attempted (w : World) (run : List Op) : List Op :=
  if w.degraded then run.filter fun op => !op.isRow else run

/-- `Commit` of the next run, up to its first attempt. -/
def beginCommit (w : World) : Option World :=
  match w.writer with
  | .applying batch =>
    if runOf batch ≠ [] ∧ w.db.isSome ∧ w.attempted (runOf batch) ≠ [] then
      some (w.goto (.trying (w.attempted (runOf batch)) (restOf batch) 0))
    else none
  | _ => none

/-- `Commit` with nothing to attempt: no store is open, or only rows were left to a
degraded archive. -/
def skipCommit (w : World) (now : Int) (left : Bool) : Option World :=
  match w.writer with
  | .applying batch =>
    if runOf batch ≠ [] ∧ ¬ (w.db.isSome ∧ w.attempted (runOf batch) ≠ []) then
      let missed := if w.db.isSome ∨ w.degraded then w.missed else (runOf batch).foldl (keepMissed now) w.missed
      some (({ w with missed }.removeWhatIsOwed left).goto (.settled (runOf batch) (restOf batch) true))
    else none
  | _ => none

/-- What becomes of one row. -/
def fate (c : Writing) (unfit : Unfit) (t : Table) (row : Row) : Fate :=
  if row.seq ≤ c.foreignMax then .passedOver
  else if row.seq ∈ unfit.stored then .unfit
  else if ∀ r ∈ t.rows, r.seq ≠ (row.stored c.launchId).seq ∧ ¬ r.sameKey (row.stored c.launchId) then .stored
  else .duplicate

def fates (c : Writing) (unfit : Unfit) : Table × Nat → List Op → List (Nat × Fate)
  | _, [] => []
  | p, op :: ops =>
    match op with
    | .row row => (row.seq, fate c unfit p.1 row) :: fates c unfit (c.apply unfit p op) ops
    | _ => fates c unfit (c.apply unfit p op) ops

/-- One attempt: it commits, skipping the unfit rows, or it is rolled back. -/
def tryCommit (env : Env) (w : World) (outcome : Option Unfit) : Option World :=
  match w.writer, w.db, outcome with
  | .trying run rest _, some t, some unfit =>
    let p := (w.writing env).tryCommit unfit run t
    some ({ w with db := some p.1, ledger := w.ledger ++ fates (w.writing env) unfit (t, 0) run }.goto
      (.stored run rest p.2))
  | .trying run rest failures, some _, none =>
    some (w.goto (if failures < kRetries then .trying run rest (failures + 1) else .failed run rest))
  | _, _, _ => none

def giveUpCommit (w : World) : Option World :=
  match w.writer with
  | .failed run rest => some (w.degradeFromWriter.goto (.settled run rest false))
  | _ => none

def raisePersisted (w : World) : Option World :=
  match w.writer with
  | .stored run rest maxSeq =>
    some ({ w with persistedSeq := max w.persistedSeq maxSeq }.goto (.settled run rest true))
  | _ => none

/-- The run's ops leave `pending_`, whether or not they were committed. -/
def dropPending (w : World) : Option World :=
  match w.writer with
  | .settled run rest _ =>
    some ({ w with pending := w.pending.drop (run.filterMap Op.pending?).length }.goto (.applying rest))
  | _ => none

def finish (w : World) : Option World :=
  match w.writer with
  | .applying [] => some (w.goto .idle)
  | _ => none

def sweep (env : Env) (w : World) (now : Int) : World :=
  { w with db := w.db.map fun t => t.sweep env.options w.retention w.sessionKeepsThrough now }

/-- The hourly sweep, or the one after a batch. -/
def sweepDue (env : Env) (w : World) (now : Int) : Option World :=
  match w.writer with
  | .idle => if w.started then some (w.sweep env now) else none
  | .applying [] => some (w.sweep env now)
  | _ => none

/-! ### `ApplyMode` -/

def nextMode (w : World) : Option World :=
  match w.writer with
  | .applying (.setMode retention :: rest) =>
    some ({ w with retention }.goto (.changing w.retention rest))
  | _ => none

/-- Off: `deleted` is whether the rows could be deleted before the file is. -/
def applyOff (w : World) (deleted left : Bool) : Option World :=
  match w.writer with
  | .changing _ rest =>
    if w.retention = .off then
      let leftOnDisk :=
        match w.db with
        | some t => if deleted then [] else t.rows
        | none => w.leftOnDisk
      some ((({ w.closeStore with leftOnDisk, sessionKeepsThrough := 0 }.setStatus .off).removeOrOwe left).goto
        (.applying rest))
    else none
  | _ => none

/-- The move to This session the user confirms forgets what a late open kept. -/
def confirmSession (w : World) (before : Retention) : World :=
  if w.retention = .session ∧ before = .sevenDays then { w with sessionKeepsThrough := 0 } else w

/-- A keeping mode with the store open sweeps it; a sweep that fails changes nothing. -/
def applyKeep (env : Env) (w : World) (now : Int) (swept : Bool) : Option World :=
  match w.writer with
  | .changing before rest =>
    if w.retention ≠ .off ∧ w.db.isSome then
      let w := w.confirmSession before
      some ((if swept then w.sweep env now else w).goto (.applying rest))
    else none
  | _ => none

/-- A keeping mode after degrading opens nothing. -/
def applyDegraded (w : World) (left : Bool) : Option World :=
  match w.writer with
  | .changing before rest =>
    if w.retention ≠ .off ∧ w.db = none ∧ w.degraded then
      some (((w.confirmSession before).removeWhatIsOwed left).goto (.applying rest))
    else none
  | _ => none

/-- `SetOwedRemoval` after a confirmed move to This session met no store. -/
def oweSession (w : World) (before : Retention) : World :=
  if w.retention = .session ∧ before = .sevenDays then { w with owedRemoval := true } else w

/-- `OpenStore` failed: another instance holds the file, or it cannot be used. -/
def openFails (w : World) (newer : Bool) : Option World :=
  match w.writer with
  | .changing before rest =>
    if w.retention ≠ .off ∧ w.db = none ∧ w.degraded = false then
      some (((((w.confirmSession before).setStatus
        (if newer then .newerSchema else .disabled)).stopPersisting).oweSession before).goto (.applying rest))
    else none
  | _ => none

def storedMax (t : Table) : Nat := (t.rows.foldl (fun (newest : Int) r => max newest r.seq) 0).toNat

/-- `OpenStore` found these rows. Of this launch it finds only what it left there itself. -/
def Finds (env : Env) (w : World) (found : Found) : Prop :=
  ∀ r ∈ found.rows, r.launchId = env.options.launchId → r ∈ w.leftOnDisk

instance (env : Env) (w : World) (found : Found) : Decidable (w.Finds env found) :=
  inferInstanceAs (Decidable (∀ r ∈ found.rows, _ → _))

/-- Close a store that could not be adopted. -/
def giveUpAdoption (w : World) : World := w.closeStore.stopPersisting

/-- A removal the user confirmed is still owed to what was found. -/
def owes (w : World) (found : Found) : Bool := w.owedRemoval && !found.rows.isEmpty

/-- `AdoptStore` up to `foreignMax_`, with the rows it keeps. A move to This session from
Off asks nothing, so it deletes nothing the store held. -/
def adopt (w : World) (before : Retention) (kept : Table) : World :=
  { w with
    db := some kept
    owedRemoval := false
    leftOnDisk := []
    foreignMax := storedMax kept
    sessionKeepsThrough :=
      if w.retention = Retention.session ∧ before ≠ Retention.sevenDays then storedMax kept
      else w.sessionKeepsThrough
    adoptions := w.adoptions + 1 }

/-- `OpenStore` succeeded. A removal still owed takes the rows found. -/
def openStore (env : Env) (w : World) (found : Found) (recovered : Bool) : Option World :=
  match w.writer with
  | .changing before rest =>
    if w.retention ≠ .off ∧ w.db = none ∧ w.degraded = false ∧ w.Finds env found then
      some ((((w.confirmSession before).setStatus (if recovered then .recovered else .ok)).adopt before
        (if w.owes found then Table.empty else found.toTable)).goto (.replaying rest))
    else none
  | _ => none

/-- The rows a removal is owed could not be deleted: the store is not adopted. -/
def owedFails (w : World) (found : Found) (left : Bool) : Option World :=
  match w.writer with
  | .changing before rest =>
    if w.retention ≠ .off ∧ w.db = none ∧ w.degraded = false ∧ w.owes found then
      some (((w.confirmSession before).degradeFromWriter.giveUpAdoption.removeOrOwe left).goto (.applying rest))
    else none
  | _ => none

def missedOps (missed : Missed) : List Op :=
  (missed.clearedAt.map fun time => Op.clear 0 (some time)).toList ++
    missed.purgedAccounts.map Op.purge ++ missed.redactions.map Op.redact

/-- The missed ops reach the adopted store. -/
def replayMissed (env : Env) (w : World) (unfit : Unfit) : Option World :=
  match w.writer, w.db with
  | .replaying rest, some t =>
    some ({ w with
      db := some ((w.writing env).tryCommit unfit (missedOps w.missed) t).1
      missed := {} }.goto (.raising rest))
  | _, _ => none

/-- The missed ops could not be written: the store goes. -/
def replayFails (w : World) (left : Bool) : Option World :=
  match w.writer with
  | .replaying rest =>
    if missedOps w.missed = [] then none
    else some ((({ w with missed := {} }.degradeFromWriter.giveUpAdoption).removeOrOwe left).goto (.applying rest))
  | _ => none

/-- `RaiseSeqAbove`, which takes the ring lock. -/
def raiseSeqAbove (w : World) : Option World :=
  match w.writer with
  | .raising rest =>
    if w.adding then none else some ({ w with nextSeq := max w.nextSeq (w.foreignMax + 1) }.goto (.publishing rest))
  | _ => none

/-- The last of `AdoptStore`: sweep, then publish the reader. -/
def publish (env : Env) (w : World) (now : Int) : Option World :=
  match w.writer with
  | .publishing rest => some ({ w.sweep env now with readDb := true }.goto (.applying rest))
  | _ => none

/-- The sweep of an adopted store failed. -/
def sweepFails (w : World) : Option World :=
  match w.writer with
  | .publishing rest => some (w.degradeFromWriter.giveUpAdoption.goto (.applying rest))
  | _ => none

/-- The read connection could not be opened. -/
def readerFails (w : World) : Option World :=
  match w.writer with
  | .publishing rest => some ((w.setStatus .disabled).giveUpAdoption.goto (.applying rest))
  | _ => none

/-! ### `Shutdown` -/

def stop (w : World) : World := { w with stopped := true }

/-- The writer has drained the queue and was joined. -/
def joined (w : World) : Option World :=
  if w.stopped ∧ w.ops = [] ∧ w.writer = .idle then some { w.closeStore with active := false } else none

end World

end Braidcast.Chat
