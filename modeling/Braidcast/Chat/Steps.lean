import Braidcast.Chat.History
import Mathlib.Data.List.TakeWhile

/-!
# The steps of the writer

The ops the writer has yet to deal with, whether they wait in the queue or in the batch it
took, and what the mode changes among them will leave: an open store or none.
-/
namespace Braidcast.Chat

open Lib

/-- The ops of the batch the writer has not come to. -/
def Writer.waiting : Writer → List Op
  | .idle => []
  | .applying batch => batch
  | .trying _ rest _ => rest
  | .failed _ rest => rest
  | .stored _ rest _ => rest
  | .settled _ rest _ => rest
  | .changing _ rest => rest
  | .replaying rest => rest
  | .raising rest => rest
  | .publishing rest => rest

/-- Everything the writer has not come to, in queue order. -/
def World.queue (w : World) : List Op := w.writer.waiting ++ w.ops

/-- Whether the mode changes among the ops leave a store wanted open. -/
def opensAfter (wanted : Bool) (ops : List Op) : Bool :=
  ops.foldl (fun wanted op =>
    match op with
    | .setMode retention => decide (retention ≠ .off)
    | _ => wanted) wanted

/-- Whether the store is open, or is to be once the mode change in hand succeeds. -/
def World.opening (w : World) : Bool :=
  match w.writer with
  | .changing _ _ => decide (w.retention ≠ .off)
  | _ => w.db.isSome

/-- Whether the store is open once everything queued has been dealt with, unless a store
fails to open. -/
def World.willOpen (w : World) : Bool := opensAfter w.opening w.queue

section opensAfter

variable (wanted : Bool)

@[simp, grind =] theorem opensAfter_nil : opensAfter wanted [] = wanted := rfl

@[grind =] theorem opensAfter_append (xs ys : List Op) :
    opensAfter wanted (xs ++ ys) = opensAfter (opensAfter wanted xs) ys := List.foldl_append

@[simp] theorem opensAfter_setMode (retention : Retention) (ops : List Op) :
    opensAfter wanted (.setMode retention :: ops) = opensAfter (decide (retention ≠ .off)) ops := rfl

theorem opensAfter_cons_of_not_setMode {op : Op} (other : op.isSetMode = false) (ops : List Op) :
    opensAfter wanted (op :: ops) = opensAfter wanted ops := by
  cases op <;> first | rfl | cases other

theorem opensAfter_of_no_setMode {ops : List Op} (none_ : ∀ op ∈ ops, op.isSetMode = false) :
    opensAfter wanted ops = wanted := by
  induction ops with
  | nil => rfl
  | cons op ops ih =>
    rw [opensAfter_cons_of_not_setMode wanted (none_ op (by simp))]
    exact ih fun op member => none_ op (by simp [member])

/-- Rows do not matter. -/
theorem opensAfter_filter_rows (ops : List Op) :
    opensAfter wanted (ops.filter fun op => !op.isRow) = opensAfter wanted ops := by
  induction ops generalizing wanted with
  | nil => rfl
  | cons op ops ih => cases op <;> exact ih _

/-- The run before the next mode change does not matter. -/
theorem opensAfter_run (batch : List Op) :
    opensAfter wanted (runOf batch) = wanted := by
  refine opensAfter_of_no_setMode wanted fun op member => ?_
  simpa using List.mem_takeWhile_imp member

theorem opensAfter_rest (batch : List Op) : opensAfter wanted (restOf batch) = opensAfter wanted batch := by
  conv_rhs => rw [← List.takeWhile_append_dropWhile (p := fun op : Op => !op.isSetMode) (l := batch)]
  rw [opensAfter_append]
  exact congrArg (opensAfter · _) (opensAfter_run wanted batch).symm

theorem opensAfter_mono (ops : List Op) (opens : opensAfter false ops = true) : opensAfter wanted ops = true := by
  induction ops generalizing wanted with
  | nil => cases opens
  | cons op ops ih =>
    cases op with
    | setMode retention => exact opens
    | _ => exact ih wanted opens

end opensAfter

theorem mem_of_mem_rest {batch : List Op} {op : Op} (member : op ∈ restOf batch) : op ∈ batch :=
  List.dropWhile_subset _ member

end Braidcast.Chat

/-!
## What each step can do

One inversion for each operation that can be refused: where the writer stood, the guard it
passed and the state it left. The invariants are proved from these, never by unfolding an
operation again.
-/
namespace Braidcast.Chat.World

open Lib

variable {env : Env} {w w' : World}

/-! ### The ring -/

variable {now : Int}

theorem add_inv {dest : DestinationId} {message : Fields} (step : w.add env dest message now = some w') :
    w.adding = false ∧ (w' = { w with nextSeq := w.nextSeq + 1 } ∨ w' = w ∨
      w' = (w.enqueue (makeRow env.codec dest message w.nextSeq now)).hold (w.heldOf dest message now)) := by
  grind [add]

theorem trim_inv (step : w.trim = some w') : w.adding = true ∧ w' = w.overflow.evictLocked := by
  grind [trim]

theorem clear_inv {starts : Bool} (step : w.clear starts now = some w') :
    w.adding = false ∧
      w' = { w with messages := [], epoch := w.epoch + 1 }.enqueueControl (.clear w.nextSeq none) starts now := by
  grind [clear]

theorem redact_inv {op : ModerationOp} {starts : Bool} (step : w.redact op starts now = some w') :
    w.adding = false ∧
      w' = { w with messages := w.messages.map ((Redaction.ofOp op w.nextSeq).onHeld op) }.enqueueControl
        (.redact (Redaction.ofOp op w.nextSeq)) starts now := by
  grind [redact]

theorem setRetention_inv {retention : Retention} {starts : Bool}
    (step : w.setRetention retention starts = some w') :
    w.adding = false ∧ w' = w.changeRetention retention (w.nextSeq - 1) starts := by
  grind [setRetention]

/-- A control op that is taken at all is kept for a store to come, or it is queued. -/
theorem enqueueControl_cases (op : Op) (starts : Bool) (now : Int) :
    w.enqueueControl op starts now = w ∧ w.stopped = true ∨
      w.stopped = false ∧ w.started = false ∧
        (∃ missed, w.enqueueControl op starts now = { w with missed }) ∨
      w.stopped = false ∧ w.enqueueControl op starts now = (w.pushControl op).startWriter starts := by
  grind [enqueueControl, nothingToReach]

theorem settingKnown_eq (w : World) : ∃ status, w.settingKnown = { w with unknownSetting := false, status } := by
  unfold settingKnown
  split
  · exact ⟨_, rfl⟩
  next known =>
    have same : w.unknownSetting = false := by simpa using known
    exact ⟨w.status, by rw [← same]⟩

/-- Where a mode change is queued, rows are queued from then on unless it is Off or the
archive degraded; what was issued before that is settled. -/
theorem setRetention_cases {retention : Retention} {starts : Bool} (step : w.setRetention retention starts = some w') :
    w' = w ∧ w.stopped = true ∨
      w.stopped = false ∧ ∃ status,
        (w.started = false ∧ retention = .off ∧ w' = { w with unknownSetting := false, status, mode := .off, active := false }) ∨
        ∃ active persistedSeq,
          (active = true ↔ retention ≠ .off ∧ (w.active = true ∨ w.degraded = false)) ∧
          (persistedSeq = w.persistedSeq ∨ w.active = false ∧ persistedSeq = max w.persistedSeq (w.nextSeq - 1)) ∧
          w' = ({ w with unknownSetting := false, status, mode := retention, active, persistedSeq }.pushControl
              (.setMode retention)).startWriter starts := by
  obtain ⟨-, rfl⟩ := setRetention_inv step
  obtain ⟨status, known⟩ := settingKnown_eq w
  unfold changeRetention
  split
  next stopped => exact .inl ⟨rfl, stopped⟩
  next running =>
    refine .inr ⟨by simpa using running, status, ?_⟩
    rw [known]
    split
    next off =>
      split
      next nothing => exact .inl ⟨by grind [nothingToReach], off, rfl⟩
      next reach => exact .inr ⟨false, w.persistedSeq, by simp [off], .inl rfl, by rw [off]⟩
    next keeping =>
      split
      next idle => exact .inr ⟨true, max w.persistedSeq (w.nextSeq - 1), by simp_all, .inr ⟨by simp_all, rfl⟩, rfl⟩
      next busy => exact .inr ⟨w.active, w.persistedSeq, by grind, .inl rfl, rfl⟩

/-! ### A batch -/

/-- Removing what is owed touches no more than the files left on disk. -/
theorem removeWhatIsOwed_eq (w : World) (left : Bool) :
    ∃ owedRemoval leftOnDisk, w.removeWhatIsOwed left = { w with owedRemoval, leftOnDisk } := by
  unfold removeWhatIsOwed removeOrOwe
  split
  · exact ⟨w.owedRemoval, w.leftOnDisk, rfl⟩
  · split
    · exact ⟨_, _, rfl⟩
    · exact ⟨w.owedRemoval, w.leftOnDisk, rfl⟩

theorem take_inv (step : w.take = some w') :
    w.writer = .idle ∧ w.started = true ∧ w' = { w with ops := [] }.goto (.applying w.ops) := by
  grind [take]

theorem beginCommit_inv (step : w.beginCommit = some w') :
    ∃ batch, w.writer = .applying batch ∧ w.db.isSome = true ∧
      w' = w.goto (.trying (w.attempted (runOf batch)) (restOf batch) 0) := by
  grind [beginCommit]

variable {left : Bool}

theorem skipCommit_inv (step : w.skipCommit now left = some w') :
    ∃ batch missed, w.writer = .applying batch ∧
      (w.db = none ∨ w.degraded = true ∧ ∀ op ∈ runOf batch, op.isRow = true) ∧
      w' = ({ w with missed }.removeWhatIsOwed left).goto (.settled (runOf batch) (restOf batch) true) := by
  unfold skipCommit at step
  split at step
  next batch here =>
    split at step
    next skipped =>
      refine ⟨batch, _, here, ?_, (Option.some.inj step).symm⟩
      obtain ⟨some_, idle⟩ := skipped
      by_cases closed : w.db = none
      · exact .inl closed
      · have nothing : w.attempted (runOf batch) = [] := by
          by_contra rest
          exact idle ⟨Option.isSome_iff_ne_none.mpr closed, rest⟩
        unfold attempted at nothing
        split at nothing
        next degraded => exact .inr ⟨degraded, by simpa [List.filter_eq_nil_iff] using nothing⟩
        next fine => exact absurd nothing some_
    · cases step
  · cases step

theorem tryCommit_inv {outcome : Option Unfit} (step : w.tryCommit env outcome = some w') :
    ∃ run rest failures t, w.writer = .trying run rest failures ∧ w.db = some t ∧
      ((∃ unfit, outcome = some unfit ∧
        w' = { w with
          db := some ((w.writing env).tryCommit unfit run t).1
          ledger := w.ledger ++ fates (w.writing env) unfit (t, 0) run }.goto
            (.stored run rest ((w.writing env).tryCommit unfit run t).2)) ∨
      w' = w.goto (.trying run rest (failures + 1)) ∨ w' = w.goto (.failed run rest)) := by
  unfold tryCommit at step
  split at step
  · grind
  · grind
  · cases step

theorem giveUpCommit_inv (step : w.giveUpCommit = some w') :
    ∃ run rest, w.writer = .failed run rest ∧ w' = w.degradeFromWriter.goto (.settled run rest false) := by
  grind [giveUpCommit]

theorem raisePersisted_inv (step : w.raisePersisted = some w') :
    ∃ run rest maxSeq, w.writer = .stored run rest maxSeq ∧
      w' = { w with persistedSeq := max w.persistedSeq maxSeq }.goto (.settled run rest true) := by
  grind [raisePersisted]

theorem dropPending_inv (step : w.dropPending = some w') :
    ∃ run rest committed, w.writer = .settled run rest committed ∧
      w' = { w with pending := w.pending.drop (run.filterMap Op.pending?).length }.goto (.applying rest) := by
  grind [dropPending]

theorem finish_inv (step : w.finish = some w') : w.writer = .applying [] ∧ w' = w.goto .idle := by
  grind [finish]

theorem sweepDue_inv (step : w.sweepDue env now = some w') :
    (w.writer = .idle ∧ w.started = true ∨ w.writer = .applying []) ∧ w' = w.sweep env now := by
  grind [sweepDue]

/-! ### A mode change -/

theorem nextMode_inv (step : w.nextMode = some w') :
    ∃ retention rest, w.writer = .applying (.setMode retention :: rest) ∧
      w' = { w with retention }.goto (.changing w.retention rest) := by
  grind [nextMode]

theorem applyOff_inv {deleted left : Bool} (step : w.applyOff deleted left = some w') :
    ∃ before rest leftOnDisk, w.writer = .changing before rest ∧ w.retention = .off ∧
      w' = (({ w.closeStore with leftOnDisk, sessionKeepsThrough := 0 }.setStatus .off).removeOrOwe left).goto
        (.applying rest) := by
  grind [applyOff]

theorem applyKeep_inv {swept : Bool} (step : w.applyKeep env now swept = some w') :
    ∃ before rest, w.writer = .changing before rest ∧ w.retention ≠ .off ∧ w.db.isSome = true ∧
      (w' = ((w.confirmSession before).sweep env now).goto (.applying rest) ∨
        w' = (w.confirmSession before).goto (.applying rest)) := by
  grind [applyKeep]

theorem applyDegraded_inv (step : w.applyDegraded left = some w') :
    ∃ before rest, w.writer = .changing before rest ∧ w.retention ≠ .off ∧ w.db = none ∧ w.degraded = true ∧
      w' = ((w.confirmSession before).removeWhatIsOwed left).goto (.applying rest) := by
  grind [applyDegraded]

theorem openFails_inv {newer : Bool} (step : w.openFails newer = some w') :
    ∃ before rest, w.writer = .changing before rest ∧ w.retention ≠ .off ∧ w.db = none ∧ w.degraded = false ∧
      w' = ((((w.confirmSession before).setStatus
        (if newer then .newerSchema else .disabled)).stopPersisting).oweSession before).goto (.applying rest) := by
  grind [openFails]

theorem openStore_inv {found : Found} {recovered : Bool} (step : w.openStore env found recovered = some w') :
    ∃ before rest, w.writer = .changing before rest ∧ w.retention ≠ .off ∧ w.db = none ∧ w.degraded = false ∧
      w.Finds env found ∧
      w' = (((w.confirmSession before).setStatus (if recovered then .recovered else .ok)).adopt before
        (if w.owes found then Table.empty else found.toTable)).goto (.replaying rest) := by
  grind [openStore]

theorem owedFails_inv {found : Found} (step : w.owedFails found left = some w') :
    ∃ before rest, w.writer = .changing before rest ∧ w.retention ≠ .off ∧ w.db = none ∧
      w' = ((w.confirmSession before).degradeFromWriter.giveUpAdoption.removeOrOwe left).goto (.applying rest) := by
  grind [owedFails]

theorem replayMissed_inv {unfit : Unfit} (step : w.replayMissed env unfit = some w') :
    ∃ rest t, w.writer = .replaying rest ∧ w.db = some t ∧
      w' = { w with
        db := some ((w.writing env).tryCommit unfit (missedOps w.missed) t).1
        missed := {} }.goto (.raising rest) := by
  grind [replayMissed]

theorem replayFails_inv (step : w.replayFails left = some w') :
    ∃ rest, w.writer = .replaying rest ∧
      w' = (({ w with missed := {} }.degradeFromWriter.giveUpAdoption).removeOrOwe left).goto (.applying rest) := by
  grind [replayFails]

theorem raiseSeqAbove_inv (step : w.raiseSeqAbove = some w') :
    ∃ rest, w.writer = .raising rest ∧ w.adding = false ∧
      w' = { w with nextSeq := max w.nextSeq (w.foreignMax + 1) }.goto (.publishing rest) := by
  grind [raiseSeqAbove]

theorem publish_inv (step : w.publish env now = some w') :
    ∃ rest, w.writer = .publishing rest ∧ w' = { w.sweep env now with readDb := true }.goto (.applying rest) := by
  grind [publish]

theorem sweepFails_inv (step : w.sweepFails = some w') :
    ∃ rest, w.writer = .publishing rest ∧ w' = w.degradeFromWriter.giveUpAdoption.goto (.applying rest) := by
  grind [sweepFails]

theorem readerFails_inv (step : w.readerFails = some w') :
    ∃ rest, w.writer = .publishing rest ∧ w' = (w.setStatus .disabled).giveUpAdoption.goto (.applying rest) := by
  grind [readerFails]

theorem joined_inv (step : w.joined = some w') :
    w.stopped = true ∧ w.ops = [] ∧ w.writer = .idle ∧ w' = { w.closeStore with active := false } := by
  grind [joined]

-- What a step leaves of each field is told by what these leave of it.
attribute [grind] goto giveUpAdoption closeStore stopPersisting dropRows removeOrOwe removeWhatIsOwed oweSession confirmSession
  setStatus degradeFromWriter sweep adopt startWriter pushControl enqueueControl enqueue hold evictLocked overflow degrade
  Writer.waiting queue opening willOpen

attribute [grind] Step step

attribute [grind →] add_inv trim_inv take_inv beginCommit_inv skipCommit_inv tryCommit_inv giveUpCommit_inv raisePersisted_inv
  dropPending_inv finish_inv sweepDue_inv nextMode_inv applyOff_inv applyKeep_inv applyDegraded_inv openFails_inv openStore_inv
  owedFails_inv replayMissed_inv replayFails_inv raiseSeqAbove_inv publish_inv sweepFails_inv readerFails_inv joined_inv

end Braidcast.Chat.World
