import Braidcast.Chat.Steps

/-!
# The reported mode and what is stored

`active_` is set by the caller of `SetRetention` and cleared by the writer when a mode
change cannot open its store. Between the two the queue decides: `willOpen` is what it
leaves, and every step of the writer keeps it, but for a store that fails to open.
-/
namespace Braidcast.Chat

open Lib

/-- In the middle of a mode change. -/
@[grind] def Writer.changesMode : Writer → Bool
  | .changing _ _ => true
  | .replaying _ => true
  | .raising _ => true
  | .publishing _ => true
  | _ => false

/-- What holds between two steps, and also between queueing an op and starting the thread
that will take it. In a run where stores may fail to open in any order, all but `unwanted`
holds. -/
structure World.Agrees (orderly : Prop) (w : World) : Prop where
  asleep : w.started = false → w.writer = .idle ∧ w.db = none
  wanted : w.active = true → w.willOpen = true
  asked : w.willOpen = true → w.mode ≠ .off
  unwanted : orderly → w.active = false → w.degraded = false → w.stopped = false → w.unknownSetting = false →
    w.willOpen = false
  unknown : w.unknownSetting = true → w.active = false ∧ w.status ≠ .ok ∧ w.writer.changesMode = false ∧
    ∀ op ∈ w.queue, op.isSetMode = false
  degraded : w.degraded = true → w.active = false

structure World.Agreement (orderly : Prop) (w : World) : Prop extends w.Agrees orderly where
  empty : w.started = false → w.ops = []

/-- A step of the writer that leaves what was asked for and what the queue comes to. -/
structure World.Keeps (w w' : World) : Prop where
  started : w'.started = w.started
  active : w'.active = w.active
  mode : w'.mode = w.mode
  degraded : w'.degraded = w.degraded
  stopped : w'.stopped = w.stopped
  unknownSetting : w'.unknownSetting = w.unknownSetting
  willOpen : w'.willOpen = w.willOpen
  unchanged : w.writer.changesMode = false → (∀ op ∈ w.queue, op.isSetMode = false) →
    w'.status = w.status ∧ w'.writer.changesMode = false ∧ ∀ op ∈ w'.queue, op.isSetMode = false

namespace World

variable {orderly : Prop} {env : Env} {w w' : World}

theorem Agreement.of_keeps (inv : w.Agreement orderly) (keeps : w.Keeps w')
    (asleep : w.started = false → w'.ops = w.ops ∧ w'.writer = w.writer ∧ w'.db = w.db) : w'.Agreement orderly := by
  obtain ⟨⟨awake, wanted, asked, unwanted, unknown, degraded⟩, empty⟩ := inv
  obtain ⟨started', active, mode, degraded', stopped, unknownSetting, willOpen, unchanged⟩ := keeps
  refine ⟨?_, by grind⟩
  constructor <;> grind -linarith

theorem take_keeps (step : w.take = some w') : w.Keeps w' := by
  constructor <;> grind -linarith

theorem beginCommit_keeps (step : w.beginCommit = some w') : w.Keeps w' := by
  constructor <;> grind -linarith [opensAfter_rest, mem_of_mem_rest]

variable {now : Int} {left : Bool}

theorem skipCommit_keeps (step : w.skipCommit now left = some w') : w.Keeps w' := by
  constructor <;> grind -linarith [opensAfter_rest, mem_of_mem_rest]

theorem tryCommit_keeps {outcome : Option Unfit} (step : w.tryCommit env outcome = some w') : w.Keeps w' := by
  all_goals constructor <;> grind -linarith

theorem raisePersisted_keeps (step : w.raisePersisted = some w') : w.Keeps w' := by
  constructor <;> grind -linarith

theorem dropPending_keeps (step : w.dropPending = some w') : w.Keeps w' := by
  constructor <;> grind -linarith

theorem finish_keeps (step : w.finish = some w') : w.Keeps w' := by
  constructor <;> grind -linarith

theorem sweepDue_keeps (step : w.sweepDue env now = some w') : w.Keeps w' := by
  constructor <;> grind -linarith

theorem nextMode_keeps (step : w.nextMode = some w') : w.Keeps w' := by
  obtain ⟨retention, rest, here, rfl⟩ := nextMode_inv step
  have queued : .setMode retention ∈ w.queue := by simp [queue, here, Writer.waiting]
  constructor <;> grind -linarith [opensAfter_setMode, Op.isSetMode]

theorem applyOff_keeps {deleted left : Bool} (step : w.applyOff deleted left = some w') : w.Keeps w' := by
  constructor <;> grind -linarith

theorem applyKeep_keeps {swept : Bool} (step : w.applyKeep env now swept = some w') : w.Keeps w' := by
  obtain ⟨before, rest, here, keeping, open_, rfl | rfl⟩ := applyKeep_inv step <;>
  constructor <;> grind -linarith

theorem openStore_keeps {found : Found} {recovered : Bool} (step : w.openStore env found recovered = some w') :
    w.Keeps w' := by
  constructor <;> grind -linarith

theorem replayMissed_keeps {unfit : Unfit} (step : w.replayMissed env unfit = some w') : w.Keeps w' := by
  constructor <;> grind -linarith

theorem raiseSeqAbove_keeps (step : w.raiseSeqAbove = some w') : w.Keeps w' := by
  constructor <;> grind -linarith

theorem publish_keeps (step : w.publish env now = some w') : w.Keeps w' := by
  constructor <;> grind -linarith

theorem add_keeps {dest : DestinationId} {message : Fields} (step : w.add env dest message now = some w') : w.Keeps w' := by
  obtain ⟨-, rfl | rfl | rfl⟩ := add_inv step
  · constructor <;> grind -linarith
  · constructor <;> grind -linarith
  · constructor <;> grind -linarith [opensAfter_cons_of_not_setMode, Op.isSetMode]

/-! ### Steps that stop persisting -/

/-- A step after which no rows are queued: the archive has degraded, or the queue leaves
no store open either. -/
structure Stops (orderly : Prop) (w w' : World) : Prop where
  started : w'.started = w.started
  active : w'.active = false
  mode : w'.mode = w.mode
  stopped : w'.stopped = w.stopped
  unknownSetting : w'.unknownSetting = w.unknownSetting
  willOpen : w'.willOpen = true → w.willOpen = true
  gone : orderly → w'.degraded = true ∨ w'.willOpen = false
  unchanged : w.writer.changesMode = false → (∀ op ∈ w.queue, op.isSetMode = false) →
    (w'.status = w.status ∨ w'.status = .degraded) ∧ w'.writer.changesMode = false ∧
      ∀ op ∈ w'.queue, op.isSetMode = false

theorem Agreement.of_stops (inv : w.Agreement orderly) (stops : Stops orderly w w') (started : w.started = true) :
    w'.Agreement orderly := by
  obtain ⟨⟨-, wanted, asked, unwanted, unknown, degraded⟩, -⟩ := inv
  obtain ⟨started', active, mode, stopped, unknownSetting, willOpen, gone, unchanged⟩ := stops
  refine ⟨?_, by grind⟩
  constructor <;> grind -linarith

theorem giveUpCommit_stops (inactive : w.degraded = true → w.active = false)
    (step : w.giveUpCommit = some w') : Stops orderly w w' := by
  constructor <;> grind -linarith [opensAfter_filter_rows]

theorem applyDegraded_stops (inactive : w.degraded = true → w.active = false)
    (step : w.applyDegraded left = some w') : Stops orderly w w' := by
  constructor <;> grind -linarith [opensAfter_mono]

/-- No keeping mode change is the last one queued behind this point. -/
def NoKeepingBehind (w : World) : Prop := opensAfter false w.queue = false

theorem openFails_stops {newer : Bool} (behind : orderly → w.NoKeepingBehind) (step : w.openFails newer = some w') :
    Stops orderly w w' := by
  constructor <;> grind -linarith [NoKeepingBehind, opensAfter_filter_rows, opensAfter_mono]

theorem owedFails_stops {found : Found} (step : w.owedFails found left = some w') : Stops orderly w w' := by
  constructor <;> grind -linarith [opensAfter_filter_rows, opensAfter_mono]

theorem replayFails_stops (step : w.replayFails left = some w') : Stops orderly w w' := by
  constructor <;> grind -linarith [opensAfter_filter_rows, opensAfter_mono]

theorem sweepFails_stops (step : w.sweepFails = some w') : Stops orderly w w' := by
  constructor <;> grind -linarith [opensAfter_filter_rows, opensAfter_mono]

theorem readerFails_stops (behind : orderly → w.NoKeepingBehind) (step : w.readerFails = some w') : Stops orderly w w' := by
  constructor <;> grind -linarith [NoKeepingBehind, opensAfter_filter_rows, opensAfter_mono]

/-! ### The ring's calls -/

theorem Agreement.started_of_active (inv : w.Agreement orderly) (active : w.active = true) : w.started = true := by
  have opens := inv.wanted active
  by_contra asleep
  obtain ⟨writer, db⟩ := inv.asleep (by simpa using asleep)
  have ops := inv.empty (by simpa using asleep)
  simp [willOpen, queue, opening, ops, writer, db, Writer.waiting] at opens

theorem Agreement.add (inv : w.Agreement orderly) {dest : DestinationId} {message : Fields}
    (step : w.add env dest message now = some w') : w'.Agreement orderly := by
  -- asleep the archive is not active, so the message is held and no row is queued
  refine inv.of_keeps (add_keeps step) fun asleep => ?_
  have inactive := inv.started_of_active
  obtain ⟨-, rfl | rfl | rfl⟩ := add_inv step <;> grind

theorem Agreement.trim (inv : w.Agreement orderly) (step : w.trim = some w') : w'.Agreement orderly := by
  obtain ⟨-, rfl⟩ := trim_inv step
  -- past its hard cap the ring degrades the archive
  by_cases full : kRingHardCap < w.messages.length ∧ w.active = true ∧ w.degraded = false ∧ w.stopped = false
  · have degraded : w.overflow = { w with degraded := true, status := .degraded }.dropRows := by
      simp [overflow, degrade, degradeFromWriter, full]
    rw [degraded]
    refine inv.of_stops ?_ (inv.started_of_active full.2.1)
    constructor <;> grind -linarith [opensAfter_filter_rows]
  · have same : w.overflow = w := by grind
    rw [same]
    refine inv.of_keeps ?_ (by grind)
    constructor <;> grind -linarith

theorem willOpen_pushControl (w : World) (op : Op) :
    (w.pushControl op).willOpen = opensAfter w.willOpen [op] := by
  have appended : (w.pushControl op).willOpen = opensAfter w.opening (w.queue ++ [op]) := by
    simp only [willOpen, queue, List.append_assoc]
    rfl
  rw [appended, opensAfter_append]
  rfl

/-- The thread is started for what was queued, or everything queued is gone. -/
theorem Agrees.startWriter (agrees : w.Agrees orderly) (running : w.stopped = false) (starts : Bool) :
    (w.startWriter starts).Agreement orderly := by
  by_cases started : w.started = true
  · have same : w.startWriter starts = w := by simp [World.startWriter, started]
    rw [same]
    exact ⟨agrees, by simp [started]⟩
  · obtain ⟨idle, closed⟩ := agrees.asleep (by simpa using started)
    obtain ⟨-, wanted, asked, unwanted, unknown, degraded⟩ := agrees
    refine ⟨?_, by grind⟩
    constructor <;> grind -linarith

section

variable (inv : w.Agreement orderly)
include inv

theorem Agreement.enqueueControl {op : Op} (plain : op.isSetMode = false) (starts : Bool)
    (now : Int) : (w.enqueueControl op starts now).Agreement orderly := by
  rcases enqueueControl_cases op starts now with ⟨same, -⟩ | ⟨-, -, missed, same⟩ | ⟨running, same⟩ <;> rw [same]
  · exact inv
  · obtain ⟨⟨_, _, _, _, _, _⟩, _⟩ := inv
    refine ⟨?_, by grind⟩
    constructor <;> grind -linarith
  -- an op that is no mode change leaves what the queue comes to
  · have opens : (w.pushControl op).willOpen = w.willOpen := by
      rw [willOpen_pushControl, opensAfter_cons_of_not_setMode _ plain, opensAfter_nil]
    refine Agrees.startWriter (w := w.pushControl op) ?_ running starts
    obtain ⟨⟨_, _, _, _, _, _⟩, _⟩ := inv
    constructor <;> grind -linarith

/-- What the ring holds does not matter. -/
theorem Agreement.ring (messages : List Held) (epoch : Nat) :
    { w with messages, epoch }.Agreement orderly :=
  ⟨⟨inv.asleep, inv.wanted, inv.asked, inv.unwanted, inv.unknown, inv.degraded⟩, inv.empty⟩

theorem Agreement.clear {starts : Bool} (step : w.clear starts now = some w') :
    w'.Agreement orderly := by
  obtain ⟨-, rfl⟩ := clear_inv step
  exact (inv.ring [] (w.epoch + 1)).enqueueControl rfl starts now

theorem Agreement.redact {op : ModerationOp} {starts : Bool}
    (step : w.redact op starts now = some w') : w'.Agreement orderly := by
  obtain ⟨-, rfl⟩ := redact_inv step
  exact (inv.ring _ w.epoch).enqueueControl rfl starts now

theorem Agreement.purgeAccount (accountId : String) (starts : Bool) (now : Int) :
    (w.purgeAccount accountId starts now).Agreement orderly := by
  unfold World.purgeAccount
  split
  · exact inv
  · exact inv.enqueueControl rfl starts now

theorem Agreement.setRetention {retention : Retention} {starts : Bool}
    (step : w.setRetention retention starts = some w') : w'.Agreement orderly := by
  rcases setRetention_cases step with ⟨rfl, -⟩ | ⟨running, status, ⟨asleep, -, rfl⟩ | ⟨active, persistedSeq, active_iff, -, rfl⟩⟩
  · exact inv
  · obtain ⟨idle, closed⟩ := inv.asleep asleep
    have empty := inv.empty asleep
    refine ⟨?_, fun _ => empty⟩
    constructor <;> grind -linarith
  -- the mode change is now the last one queued, so the queue comes to what was asked for
  · refine Agrees.startWriter ?_ (by exact running) starts
    obtain ⟨⟨awake, _, _, _, _, degraded⟩, _⟩ := inv
    have opens := willOpen_pushControl
      { w with unknownSetting := false, status, mode := retention, active, persistedSeq } (.setMode retention)
    rw [opensAfter_setMode, opensAfter_nil] at opens
    constructor <;> grind -linarith

theorem Agreement.stop : w.stop.Agreement orderly := by
  refine ⟨⟨inv.asleep, inv.wanted, inv.asked, ?_, inv.unknown, inv.degraded⟩, inv.empty⟩
  rintro - - - ⟨⟩

theorem Agreement.joined (step : w.joined = some w') : w'.Agreement orderly := by
  obtain ⟨stopped, empty, idle, rfl⟩ := joined_inv step
  obtain ⟨⟨awake, _, _, _, _, degraded⟩, _⟩ := inv
  refine ⟨?_, fun _ => empty⟩
  constructor <;> grind -linarith

/-! ### Whole runs -/

/-- The store of a mode change could not be opened, and the archive is not degraded for it. -/
def opensNothing : Event → Bool
  | .openFails _ => true
  | .readerFails => true
  | _ => false

/-- When a store fails to open, no keeping mode change is the last one still queued. -/
def Orderly (m : Moment World Event) : Prop := opensNothing m.input = true → m.before.NoKeepingBehind

instance (m : Moment World Event) : Decidable (Orderly m) :=
  inferInstanceAs (Decidable (_ → opensAfter false _ = false))

theorem Agreement.awake (working : w.writer ≠ .idle) : w.started = true := by
  by_contra asleep
  exact working (inv.asleep (by simpa using asleep)).1

theorem Agreement.of_awake (keeps : w.Keeps w') (started : w.started = true) :
    w'.Agreement orderly :=
  inv.of_keeps keeps fun asleep => absurd (started.symm.trans asleep) (by decide)

end

theorem Agreement.step (m : Moment World Event) (ok : orderly → Orderly m) (step : Step env m.before m.input m.after)
    (inv : m.before.Agreement orderly) : m.after.Agreement orderly := by
  obtain ⟨w, event, w'⟩ := m
  have started := inv.awake
  cases event with
  | add => exact inv.add step
  | trim => exact inv.trim step
  | clear => exact inv.clear step
  | redact => exact inv.redact step
  | purgeAccount => exact Option.some.inj step ▸ inv.purgeAccount _ _ _
  | setRetention => exact inv.setRetention step
  | take => exact inv.of_awake (take_keeps step) (take_inv step).2.1
  | beginCommit => exact inv.of_awake (beginCommit_keeps step) (started (by grind))
  | skipCommit => exact inv.of_awake (skipCommit_keeps step) (started (by grind))
  | tryCommit => exact inv.of_awake (tryCommit_keeps step) (started (by grind))
  | giveUpCommit =>
    exact inv.of_stops (giveUpCommit_stops inv.degraded step) (started (by grind))
  | raisePersisted => exact inv.of_awake (raisePersisted_keeps step) (started (by grind))
  | dropPending => exact inv.of_awake (dropPending_keeps step) (started (by grind))
  | finish => exact inv.of_awake (finish_keeps step) (started (by grind))
  | sweepDue => exact inv.of_awake (sweepDue_keeps step) (by grind)
  | nextMode => exact inv.of_awake (nextMode_keeps step) (started (by grind))
  | applyOff => exact inv.of_awake (applyOff_keeps step) (started (by grind))
  | applyKeep => exact inv.of_awake (applyKeep_keeps step) (started (by grind))
  | applyDegraded =>
    exact inv.of_stops (applyDegraded_stops inv.degraded step) (started (by grind))
  -- the one place where the condition on the run is used, with `readerFails`
  | openFails => exact inv.of_stops (openFails_stops (fun strict => ok strict rfl) step) (started (by grind))
  | openStore => exact inv.of_awake (openStore_keeps step) (started (by grind))
  | owedFails => exact inv.of_stops (owedFails_stops step) (started (by grind))
  | replayMissed => exact inv.of_awake (replayMissed_keeps step) (started (by grind))
  | replayFails => exact inv.of_stops (replayFails_stops step) (started (by grind))
  | raiseSeqAbove => exact inv.of_awake (raiseSeqAbove_keeps step) (started (by grind))
  | publish => exact inv.of_awake (publish_keeps step) (started (by grind))
  | sweepFails => exact inv.of_stops (sweepFails_stops step) (started (by grind))
  | readerFails => exact inv.of_stops (readerFails_stops (fun strict => ok strict rfl) step) (started (by grind))
  | stop => exact Option.some.inj step ▸ inv.stop
  | joined => exact inv.joined step

/-- With nothing queued the agreement is between the flags and the open store. -/
theorem agreement_of_idle (idle : w.writer = .idle) (empty : w.ops = []) (asleep : w.started = false → w.db = none)
    (wanted : w.active = true → w.db.isSome = true) (asked : w.db.isSome = true → w.mode ≠ .off)
    (unwanted : w.active = false → w.degraded = false → w.unknownSetting = false → w.db = none)
    (unknown : w.unknownSetting = true → w.active = false ∧ w.status ≠ .ok)
    (degraded : w.degraded = true → w.active = false) : w.Agreement orderly := by
  have settled : w.willOpen = w.db.isSome := by
    simp [willOpen, queue, opening, empty, idle, Writer.waiting]
  have nothing : w.queue = [] := by simp [queue, empty, idle, Writer.waiting]
  refine ⟨?_, fun _ => empty⟩
  constructor <;> grind -linarith

theorem agreement_boot (orderly : Prop) (env : Env) (b : Boot) : (boot env b).Agreement orderly := by
  cases b with
  | off left => apply agreement_of_idle <;> simp [boot, fresh]
  | failed session unknownSetting newer =>
    cases newer <;> apply agreement_of_idle <;> simp [boot, fresh]
  | opened session unknownSetting recovered found swept starts left =>
    have keeping : bootRetention session unknownSetting ≠ .off := by
      cases session <;> cases unknownSetting <;> decide
    cases starts <;> cases unknownSetting <;> apply agreement_of_idle <;> simp_all [boot, fresh]

/-- Nothing is queued and no batch is in flight, in an archive that still writes. -/
def Quiescent (w : World) : Prop :=
  w.ops = [] ∧ w.writer = .idle ∧ w.stopped = false ∧ w.degraded = false

instance (w : World) : Decidable w.Quiescent := inferInstanceAs (Decidable (_ ∧ _ ∧ _ ∧ _))

/-- The last mode asked for keeps messages. A setting this build does not know asks for none. -/
def AskedToKeep (w : World) : Prop := w.unknownSetting = false ∧ w.mode ≠ .off

instance (w : World) : Decidable w.AskedToKeep := inferInstanceAs (Decidable (_ ∧ _))

end World

/-- In a run where no store fails to open in front of a queued keeping mode change, rows
are queued exactly when the last mode asked for keeps them and the store is open. -/
theorem active_iff_kept (env : Env) (b : Boot) {ms : List (Moment World Event)} {w : World}
    (run : Run (Step env) (boot env b) ms w) (orderly : ∀ m ∈ ms, World.Orderly m) (quiet : w.Quiescent) :
    (w.AskedToKeep ∧ w.db.isSome = true ↔ w.active = true) ∧
      (w.status = .ok → w.db.isSome = true → w.active = true) := by
  have inv : w.Agreement True :=
    (run.invariant (P := World.Agreement True) World.Agreement.step (fun m member _ => orderly m member)
      (World.agreement_boot True env b)).1
  obtain ⟨empty, idle, running, fine⟩ := quiet
  -- with nothing queued, what the queue comes to is what is open
  have settled : w.willOpen = w.db.isSome := by
    simp [World.willOpen, World.queue, World.opening, empty, idle, Writer.waiting]
  have kept (known : w.unknownSetting = false) (open_ : w.db.isSome = true) : w.active = true := by
    by_contra inactive
    have closed := inv.unwanted trivial (by simpa using inactive) fine running known
    simp [settled, open_] at closed
  refine ⟨⟨fun ⟨asked, open_⟩ => kept asked.1 open_, fun active => ?_⟩, fun ok open_ => ?_⟩
  · have opens := inv.wanted active
    refine ⟨⟨?_, inv.asked opens⟩, settled ▸ opens⟩
    by_contra unknown
    simp [(inv.unknown (by simpa using unknown)).1] at active
  · refine kept ?_ open_
    by_contra unknown
    exact (inv.unknown (by simpa using unknown)).2.1 ok

/-- An archive whose texts are never read. -/
def bareEnv : Env := ⟨⟨fun _ => .null, fun _ => ""⟩, ⟨"launch", ["twitch", "youtube"]⟩⟩

/-- An adopted store, from its open to its publication. -/
def adoption (found : Found) : List Event := [.openStore found false, .replayMissed {}, .raiseSeqAbove, .publish 0]

theorem active_iff_kept_adopted :
    ∃ ms w, Run (Step bareEnv) (boot bareEnv (.off false)) ms w ∧ (∀ m ∈ ms, World.Orderly m) ∧ w.Quiescent ∧
      (w.AskedToKeep ∧ w.db.isSome = true ↔ w.active = true) ∧ w.active = true := by
  obtain ⟨ms, w, run, shown⟩ := exists_run_of_follow (World.step bareEnv) (boot bareEnv (.off false))
    ([.setRetention .session true, .take, .nextMode] ++ adoption .empty ++ [.finish])
    (fun ms w => ms.all (fun m => decide (World.Orderly m)) && decide w.Quiescent && w.active) (by decide +kernel)
  simp only [Bool.and_eq_true, List.all_eq_true, decide_eq_true_eq] at shown
  exact ⟨ms, w, run, shown.1.1, shown.1.2, (active_iff_kept bareEnv (.off false) run shown.1.1 shown.1.2).1, shown.2⟩

/-- A second keeping mode change, asked for while the first is about to fail: the store
opens for it, the status is Ok, and no rows are queued. -/
theorem kept_but_not_active :
    ∃ ms w, Run (Step bareEnv) (boot bareEnv (.off false)) ms w ∧ w.Quiescent ∧ w.AskedToKeep ∧
      w.db.isSome = true ∧ w.status = .ok ∧ w.active = false := by
  obtain ⟨ms, w, run, shown⟩ := exists_run_of_follow (World.step bareEnv) (boot bareEnv (.off false))
    ([.setRetention .session true, .setRetention .sevenDays true, .take, .nextMode, .openFails false, .nextMode] ++
      adoption .empty ++ [.finish])
    (fun _ w => decide (w.Quiescent ∧ w.AskedToKeep ∧ w.db.isSome = true ∧ w.status = .ok ∧ w.active = false))
    (by decide +kernel)
  exact ⟨ms, w, run, of_decide_eq_true shown⟩

end Braidcast.Chat
