import Braidcast.Chat.Activation

/-!
# Rows on their way to the store

The ring lets go of a message once `persistedSeq_` has passed it, and several writers
raise that mark: a commit, turning persistence on, boot. While persistence stays on, a
queued row is ahead of the mark until the writer has settled it.
-/
namespace Braidcast.Chat

open Lib

namespace World

variable {env : Env} {w w' : World}

/-- Rows are being queued, and the writer still writes them. -/
def Persisting (w : World) : Prop := w.active = true ∧ w.degraded = false ∧ w.stopped = false

instance (w : World) : Decidable w.Persisting := inferInstanceAs (Decidable (_ ∧ _ ∧ _))

def InRing (w : World) (seq : Nat) : Prop := ∃ held ∈ w.messages, held.seq = seq

def SettledAs (w : World) (seq : Nat) (fate : Fate) : Prop := (seq, fate) ∈ w.ledger

/-- The run under an attempt, or whose attempts all failed. -/
@[grind] def attempting (w : World) : List Op :=
  match w.writer with
  | .trying run _ _ => run
  | .failed run _ => run
  | _ => []

/-- A row of this seq is in the run under an attempt. -/
def InHandRow (w : World) (seq : Nat) : Prop := ∃ row, .row row ∈ w.attempting ∧ row.seq = seq

/-- A row of this seq is queued, behind rows of lower seq only, and the mode changes ahead
of it leave a store to write it to. -/
def QueuedRow (w : World) (seq : Nat) : Prop :=
  ∃ ahead row behind, w.queue = ahead ++ .row row :: behind ∧ row.seq = seq ∧
    opensAfter w.opening ahead = true ∧ ∀ r, .row r ∈ w.attempting ++ ahead → r.seq < seq

/-- The row of this seq is ahead of the mark, and on its way to the writer. -/
structure Waiting (w : World) (seq : Nat) : Prop where
  persisted : w.persistedSeq < seq
  stored : ∀ run rest maxSeq, w.writer = .stored run rest maxSeq → maxSeq < seq
  place : w.InHandRow seq ∨ w.QueuedRow seq

end World

/-! ### What a commit settles -/

section commit

variable (c : Writing) (unfit : Unfit)

theorem tryCommit_newest_lt {run : List Op} {bound : Nat} (t : Table) (positive : 0 < bound)
    (below : ∀ row, .row row ∈ run → row.seq < bound) : (c.tryCommit unfit run t).2 < bound := by
  suffices general : ∀ p : Table × Nat, p.2 < bound → (run.foldl (c.apply unfit) p).2 < bound from
    general (t, 0) positive
  induction run with
  | nil => exact fun p small => small
  | cons op run ih =>
    intro p small
    refine ih (fun row member => below row (by simp [member])) _ ?_
    cases op with
    | row row =>
      have fits := below row (by simp)
      simp only [Writing.apply]
      split
      · exact max_lt small fits
      · split <;> exact max_lt small fits
    | clear belowSeq receivedBy => cases receivedBy <;> exact small
    | redact | purge | setMode => exact small

/-- Only a row at or below the seqs of the adopted store is passed over. -/
theorem exists_fate {run : List Op} {row : Row} (member : .row row ∈ run) (p : Table × Nat) :
    ∃ fate, (row.seq, fate) ∈ World.fates c unfit p run ∧ (fate = .passedOver → row.seq ≤ c.foreignMax) := by
  induction run generalizing p with
  | nil => cases member
  | cons op run ih =>
    rcases List.mem_cons.mp member with rfl | later
    · refine ⟨_, List.mem_cons_self, fun passed => ?_⟩
      grind [World.fate]
    · obtain ⟨fate, settled, passed⟩ := ih later (c.apply unfit p op)
      refine ⟨fate, ?_, passed⟩
      cases op <;> simp [World.fates, settled]

end commit

/-! ### Eviction -/

/-- What is ahead of the mark stays while the ring waits for the disk. -/
theorem mem_evict {persisted : Nat} {messages : List Held} {held : Held} (member : held ∈ messages)
    (ahead : persisted < held.seq) : held ∈ evict true persisted messages := by
  induction messages with
  | nil => cases member
  | cons front rest ih =>
    unfold evict
    split
    next leaves =>
      rcases List.mem_cons.mp member with rfl | later
      · simp only [Bool.true_eq_false, false_or] at leaves
        omega
      · exact ih later
    · exact member

namespace World

variable {env : Env} {w w' : World} {seq : Nat}

/-! ### One step -/

/-- A step that leaves the ring, the mark and the ops to come as they are. -/
structure Passes (w w' : World) : Prop where
  messages : w'.messages = w.messages
  persistedSeq : w'.persistedSeq = w.persistedSeq
  attempting : w'.attempting = w.attempting
  stored : ∀ run rest maxSeq, w'.writer = .stored run rest maxSeq → w.writer = .stored run rest maxSeq
  queue : w'.queue = w.queue
  opening : w'.opening = w.opening
  nextSeq : w.nextSeq ≤ w'.nextSeq
  ledger : w'.ledger = w.ledger

theorem Waiting.of_passes (waiting : w.Waiting seq) (passes : w.Passes w') : w'.Waiting seq := by
  obtain ⟨persisted, stored, place⟩ := waiting
  obtain ⟨-, persistedSeq, attempting, stored', queue, opening, -, -⟩ := passes
  refine ⟨by omega, fun run rest maxSeq here => stored run rest maxSeq (stored' run rest maxSeq here), ?_⟩
  simpa only [InHandRow, QueuedRow, attempting, queue, opening] using place

theorem take_passes (step : w.take = some w') : w.Passes w' := by
  constructor <;> grind

theorem dropPending_passes (step : w.dropPending = some w') : w.Passes w' := by
  constructor <;> grind

theorem finish_passes (step : w.finish = some w') : w.Passes w' := by
  constructor <;> grind

variable {now : Int}

theorem sweepDue_passes (step : w.sweepDue env now = some w') : w.Passes w' := by
  constructor <;> grind

theorem applyOff_passes {deleted left : Bool} (step : w.applyOff deleted left = some w') : w.Passes w' := by
  constructor <;> grind

theorem applyKeep_passes {swept : Bool} (step : w.applyKeep env now swept = some w') : w.Passes w' := by
  obtain ⟨before, rest, here, keeping, open_, rfl | rfl⟩ := applyKeep_inv step <;>
    constructor <;> grind

theorem openStore_passes {found : Found} {recovered : Bool} (step : w.openStore env found recovered = some w') :
    w.Passes w' := by
  constructor <;> grind

theorem replayMissed_passes {unfit : Unfit} (step : w.replayMissed env unfit = some w') : w.Passes w' := by
  constructor <;> grind

theorem raiseSeqAbove_passes (step : w.raiseSeqAbove = some w') : w.Passes w' := by
  constructor <;> grind

theorem publish_passes (step : w.publish env now = some w') : w.Passes w' := by
  constructor <;> grind

/-- Queueing behind changes nothing for what is queued. -/
theorem Waiting.of_queue (waiting : w.Waiting seq) (more : List Op) (queue : w'.queue = w.queue ++ more)
    (writer : w'.writer = w.writer) (persistedSeq : w'.persistedSeq = w.persistedSeq)
    (db : w'.db = w.db) (retention : w'.retention = w.retention) : w'.Waiting seq := by
  obtain ⟨persisted, stored, place⟩ := waiting
  have opening : w'.opening = w.opening := by simp only [World.opening, writer, db, retention]
  have attempting : w'.attempting = w.attempting := by simp only [World.attempting, writer]
  refine ⟨by omega, by simpa only [writer] using stored, ?_⟩
  rcases place with ⟨row, member, same⟩ | ⟨ahead, row, behind, split, same, opens, below⟩
  · exact .inl ⟨row, attempting ▸ member, same⟩
  · refine .inr ⟨ahead, row, behind ++ more, ?_, same, opening ▸ opens, attempting ▸ below⟩
    rw [queue, split, List.append_assoc, List.cons_append]

theorem Waiting.nextMode (waiting : w.Waiting seq) (step : w.nextMode = some w') : w'.Waiting seq := by
  obtain ⟨retention, rest, here, rfl⟩ := nextMode_inv step
  obtain ⟨persisted, stored, ⟨row, member, same⟩ | ⟨ahead, row, behind, split, same, opens, below⟩⟩ := waiting
  · simp [attempting, here] at member
  · refine ⟨persisted, by rintro _ _ _ ⟨⟩, .inr ?_⟩
    cases ahead with
    | nil => simp [queue, here, Writer.waiting] at split
    | cons op ahead =>
      simp only [queue, here, Writer.waiting, List.cons_append, List.cons.injEq] at split
      obtain ⟨rfl, split⟩ := split
      exact ⟨ahead, row, behind, split, same, opens, fun r member => below r (by simp_all [attempting, goto])⟩

/-- Cutting a run off the batch: the row is in the run, or still queued behind it. -/
theorem QueuedRow.cut {batch : List Op} (here : w.writer = .applying batch) (queued : w.QueuedRow seq) :
    (∃ ahead row behind, runOf batch = ahead ++ .row row :: behind ∧ row.seq = seq ∧ w.db.isSome = true) ∨
      ∃ ahead row behind, restOf batch ++ w.ops = ahead ++ .row row :: behind ∧ row.seq = seq ∧
        opensAfter w.db.isSome ahead = true ∧ ∀ r, .row r ∈ runOf batch ++ ahead → r.seq < seq := by
  obtain ⟨ahead, row, behind, split, same, opens, below⟩ := queued
  have cut : runOf batch ++ (restOf batch ++ w.ops) = ahead ++ .row row :: behind := by
    rw [← List.append_assoc, runOf, restOf, List.takeWhile_append_dropWhile, ← split, queue, here]
    rfl
  have opening : w.opening = w.db.isSome := by simp [World.opening, here]
  rw [opening] at opens
  -- the row is behind the run, first behind it, or in it
  rcases List.append_eq_append_iff.mp cut with ⟨more, rfl, rest⟩ | ⟨run, ahead', rest⟩
  · rw [opensAfter_append, opensAfter_run] at opens
    exact .inr ⟨more, row, behind, rest, same, opens, fun r member => below r (by simp_all)⟩
  · cases run with
    | nil =>
      have all : runOf batch = ahead := by simpa using ahead'
      rw [← all, opensAfter_run] at opens
      exact .inr ⟨[], row, behind, rest.symm, same, opens, fun r member => below r (by simp_all)⟩
    | cons op run =>
      obtain ⟨rfl, -⟩ := List.cons.inj rest
      refine .inl ⟨ahead, row, run, ahead', same, ?_⟩
      have plain : opensAfter w.db.isSome ahead = w.db.isSome := by
        refine opensAfter_of_no_setMode _ fun op member => ?_
        simpa using List.mem_takeWhile_imp (show op ∈ runOf batch by rw [ahead']; simp [member])
      rw [← plain]
      exact opens

theorem Waiting.beginCommit (waiting : w.Waiting seq) (fine : w.degraded = false)
    (step : w.beginCommit = some w') : w'.Waiting seq := by
  obtain ⟨batch, here, -, rfl⟩ := beginCommit_inv step
  have all : w.attempted (runOf batch) = runOf batch := by simp [attempted, fine]
  obtain ⟨persisted, -, ⟨row, member, same⟩ | queued⟩ := waiting
  · simp [attempting, here] at member
  · refine ⟨persisted, by rintro _ _ _ ⟨⟩, ?_⟩
    rw [all]
    rcases queued.cut here with ⟨ahead, row, behind, split, same, -⟩ | ⟨ahead, row, behind, split, same, opens, below⟩
    · exact .inl ⟨row, by simp [attempting, goto, split], same⟩
    · exact .inr ⟨ahead, row, behind, split, same, opens, below⟩

theorem Waiting.skipCommit (waiting : w.Waiting seq) (fine : w.degraded = false) {left : Bool}
    (step : w.skipCommit now left = some w') : w'.Waiting seq := by
  obtain ⟨batch, missed, here, skipped, rfl⟩ := skipCommit_inv step
  -- an archive that has not degraded skips a run only where no store is open,
  -- and for a queued row the queue says that one is
  have closed : w.db = none := skipped.resolve_right fun ⟨degraded, _⟩ => by simp [fine] at degraded
  obtain ⟨persisted, -, ⟨row, member, same⟩ | queued⟩ := waiting
  · simp [attempting, here] at member
  · rcases queued.cut here with ⟨_, _, _, _, _, open_⟩ | ⟨ahead, row, behind, split, same, opens, below⟩
    · simp [closed] at open_
    · obtain ⟨owedRemoval, leftOnDisk, same'⟩ := removeWhatIsOwed_eq { w with missed } left
      rw [same']
      refine ⟨persisted, by rintro _ _ _ ⟨⟩, .inr ⟨ahead, row, behind, split, same, opens, ?_⟩⟩
      exact fun r member => below r (by simp_all [attempting, goto])

theorem Waiting.tryCommit (waiting : w.Waiting seq) {outcome : Option Unfit}
    (step : w.tryCommit env outcome = some w') :
    w'.Waiting seq ∨ ∃ fate, w'.SettledAs seq fate ∧ (fate = .passedOver → seq ≤ w.foreignMax) := by
  obtain ⟨run, rest, failures, t, here, open_, ⟨unfit, rfl, rfl⟩ | rfl | rfl⟩ := tryCommit_inv step
  · obtain ⟨persisted, -, ⟨row, member, rfl⟩ | ⟨ahead, row, behind, split, same, opens, below⟩⟩ := waiting
    · obtain ⟨fate, settled, passed⟩ :=
        exists_fate (w.writing env) unfit (by simpa [attempting, here] using member) (t, 0)
      exact .inr ⟨fate, List.mem_append_right _ settled, passed⟩
    -- rows are queued in the order of their seqs, so the mark stays below this one
    · have newest : ((w.writing env).tryCommit unfit run t).2 < seq :=
        tryCommit_newest_lt _ _ t (by omega) fun row member => below row (by simp [attempting, here, member])
      refine .inl ⟨persisted, ?_, .inr ⟨ahead, row, behind, ?_, same, ?_, ?_⟩⟩
      · rintro _ _ _ ⟨⟩
        exact newest
      · simpa only [queue, here, goto, Writer.waiting] using split
      · simpa only [opening, here, open_, goto, Option.isSome_some] using opens
      · exact fun r member => below r (by simp_all [attempting, goto])
  all_goals
    refine .inl (waiting.of_passes ?_)
    constructor <;> grind

theorem Waiting.raisePersisted (waiting : w.Waiting seq) (step : w.raisePersisted = some w') : w'.Waiting seq := by
  obtain ⟨run, rest, maxSeq, here, rfl⟩ := raisePersisted_inv step
  have newest := waiting.stored run rest maxSeq here
  obtain ⟨persisted, -, ⟨row, member, same⟩ | ⟨ahead, row, behind, split, same, opens, below⟩⟩ := waiting
  · simp [attempting, here] at member
  · refine ⟨max_lt persisted newest, by rintro _ _ _ ⟨⟩, .inr ⟨ahead, row, behind, ?_, same, ?_, ?_⟩⟩
    · simpa only [queue, here, goto, Writer.waiting] using split
    · simpa only [opening, here, goto] using opens
    · exact fun r member => below r (by simp_all [attempting, goto])

/-! ### The ring's calls -/

/-- The thread is there, or starting it fails and the archive degrades. -/
theorem startWriter_cases (w : World) (starts : Bool) :
    w.startWriter starts = w ∨ w.startWriter starts = { w with started := true } ∨
      (w.startWriter starts).degraded = true := by
  grind

section

variable (waiting : w.Waiting seq)
include waiting

theorem Waiting.startWriter (starts : Bool) (fine : (w.startWriter starts).degraded = false) :
    (w.startWriter starts).Waiting seq := by
  rcases startWriter_cases w starts with same | same | degraded
  · rw [same]
    exact waiting
  · rw [same]
    exact ⟨waiting.persisted, waiting.stored, waiting.place⟩
  · rw [fine] at degraded
    cases degraded

theorem Waiting.pushControl (op : Op) : (w.pushControl op).Waiting seq :=
  waiting.of_queue [op] (List.append_assoc ..).symm rfl rfl rfl rfl

theorem Waiting.enqueueControl (op : Op) (starts : Bool) (now : Int)
    (fine : (w.enqueueControl op starts now).degraded = false) : (w.enqueueControl op starts now).Waiting seq := by
  rcases enqueueControl_cases op starts now with ⟨same, -⟩ | ⟨-, -, missed, same⟩ | ⟨-, same⟩ <;> rw [same] at fine ⊢
  · exact waiting
  · exact ⟨waiting.persisted, waiting.stored, waiting.place⟩
  · exact (waiting.pushControl op).startWriter starts fine

theorem Waiting.setRetention (active : w.active = true) {retention : Retention}
    {starts : Bool} (step : w.setRetention retention starts = some w') (fine : w'.degraded = false) :
    w'.Waiting seq := by
  rcases setRetention_cases step with ⟨rfl, -⟩ | ⟨-, status, ⟨-, -, rfl⟩ | ⟨active', persistedSeq, -, mark, rfl⟩⟩
  · exact waiting
  · exact ⟨waiting.persisted, waiting.stored, waiting.place⟩
  -- the mark is raised only where no rows were being queued
  · obtain rfl | ⟨inactive, -⟩ := mark
    · refine Waiting.startWriter (Waiting.pushControl ?_ _) starts fine
      exact ⟨waiting.persisted, waiting.stored, waiting.place⟩
    · simp [active] at inactive

theorem Waiting.add {dest : DestinationId} {message : Fields} {now : Int}
    (step : w.add env dest message now = some w') : w'.Waiting seq := by
  obtain ⟨-, rfl | rfl | rfl⟩ := add_inv step
  · exact ⟨waiting.persisted, waiting.stored, waiting.place⟩
  · exact waiting
  · unfold enqueue
    split
    · exact ⟨waiting.persisted, waiting.stored, waiting.place⟩
    · exact waiting.of_queue [.row _] (List.append_assoc ..).symm rfl rfl rfl rfl

end

/-- While rows are queued and the ring waits for the disk, nothing ahead of the mark goes. -/
theorem InRing.trim (held : w.InRing seq) (ahead : w.persistedSeq < seq) (persisting : w.Persisting)
    (step : w.trim = some w') (fine : w'.degraded = false) :
    w'.InRing seq ∧ w' = { w with messages := w'.messages, adding := false } := by
  obtain ⟨active, -, -⟩ := persisting
  obtain ⟨-, rfl⟩ := trim_inv step
  have same : w.overflow = w := by
    grind [Persisting]
  obtain ⟨front, member, rfl⟩ := held
  rw [same]
  refine ⟨⟨front, ?_, rfl⟩, rfl⟩
  simpa only [evictLocked, active] using mem_evict member ahead

theorem enqueueControl_messages (w : World) (op : Op) (starts : Bool) (now : Int) :
    (w.enqueueControl op starts now).messages = w.messages ∧
      (w.enqueueControl op starts now).ledger = w.ledger := by
  grind

theorem onHeld_seq (ρ : Redaction) (op : ModerationOp) (held : Held) : (ρ.onHeld op held).seq = held.seq := by
  unfold Redaction.onHeld
  split <;> rfl

end World

end Braidcast.Chat
