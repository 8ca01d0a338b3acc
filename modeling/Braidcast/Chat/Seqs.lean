import Braidcast.Chat.Admission
import Braidcast.Chat.Contents

/-!
# Seqs are issued once

The rows on their way to the store run in seq order below the ring's next seq, and above every
stored row that is not among those an adopted store came with.
-/
namespace Braidcast.Chat

open Lib

/-- The seqs of the rows among the ops. -/
def rowSeqs (ops : List Op) : List Nat := ops.filterMap fun op =>
  match op with
  | .row row => some row.seq
  | _ => none

@[simp] theorem rowSeqs_append (xs ys : List Op) : rowSeqs (xs ++ ys) = rowSeqs xs ++ rowSeqs ys := List.filterMap_append

@[simp] theorem rowSeqs_row (row : Row) (ops : List Op) : rowSeqs (.row row :: ops) = row.seq :: rowSeqs ops := rfl

theorem rowSeqs_other {op : Op} (other : op.isRow = false) (ops : List Op) : rowSeqs (op :: ops) = rowSeqs ops := by
  cases op <;> first | rfl | cases other

theorem mem_rowSeqs {row : Row} {ops : List Op} (member : .row row ∈ ops) : row.seq ∈ rowSeqs ops :=
  List.mem_filterMap.mpr ⟨_, member, rfl⟩

theorem rowSeqs_sublist {xs ys : List Op} (fewer : xs.Sublist ys) : (rowSeqs xs).Sublist (rowSeqs ys) := fewer.filterMap _

/-! ### What a commit writes -/

section commit

variable {c : Writing} {unfit : Unfit} {p : Table × Nat} {op : Op} {run : List Op} {later : List Nat}

/-- A row of the store after an op was there before it, or is the op's own. -/
theorem mem_apply {r : StoredRow} (member : r ∈ (c.apply unfit p op).1.rows) :
    (∃ r₀ ∈ p.1.rows, r.seq = r₀.seq) ∨ ∃ row, op = .row row ∧ c.foreignMax < row.seq ∧ r = row.stored c.launchId := by
  cases op with
  | row row =>
    simp only [Writing.apply] at member
    split at member
    · exact .inl ⟨r, member, rfl⟩
    next above =>
      split at member
      · exact .inl ⟨r, member, rfl⟩
      · rcases Table.mem_insert member with same | old
        · exact .inr ⟨row, rfl, Nat.lt_of_not_le above, same⟩
        · exact .inl ⟨r, old, rfl⟩
  | redact ρ =>
    obtain ⟨before, old, kept⟩ := List.mem_filterMap.mp member
    refine .inl ⟨before, old, ?_⟩
    rw [Redaction.revises_keeps kept]
  | clear belowSeq receivedBy => cases receivedBy <;> exact .inl ⟨r, (Table.mem_delete.mp member).1, rfl⟩
  | purge accountId => exact .inl ⟨r, (Table.mem_delete.mp member).1, rfl⟩
  | setMode retention => exact .inl ⟨r, member, rfl⟩

/-- The stored rows are among those the store came with or below all that is to be written. -/
def Under (foreignMax : Nat) (t : Table) (seqs : List Nat) : Prop :=
  ∀ r ∈ t.rows, r.seq ≤ foreignMax ∨ ∀ seq ∈ seqs, r.seq < (seq : Int)

theorem stored_seq {row : Row} (fits : row.seq ≤ kInt64Max) (launchId : String) : (row.stored launchId).seq = row.seq := by
  simp only [Row.stored, sqlSeq]
  rw [if_neg (by omega)]

theorem Under.apply (under : Under c.foreignMax p.1 (rowSeqs (op :: run) ++ later))
    (ordered : (rowSeqs (op :: run) ++ later).Pairwise (· < ·)) (fits : ∀ row, op = .row row → row.seq ≤ kInt64Max) :
    Under c.foreignMax (c.apply unfit p op).1 (rowSeqs run ++ later) := by
  have rest : ∀ seq ∈ rowSeqs run ++ later, seq ∈ rowSeqs (op :: run) ++ later := by
    have fewer := (rowSeqs_sublist (List.sublist_cons_self op run)).append (List.Sublist.refl later)
    exact fun seq member => fewer.subset member
  intro r member
  rcases mem_apply member with ⟨r₀, old, same⟩ | ⟨row, rfl, above, rfl⟩
  · rw [same]
    exact (under r₀ old).imp_right fun below seq member => below seq (rest seq member)
  · refine .inr fun seq member => ?_
    rw [stored_seq (fits row rfl)]
    rw [rowSeqs_row, List.cons_append, List.pairwise_cons] at ordered
    exact Int.ofNat_lt.mpr (ordered.1 seq member)

theorem Under.fold (under : Under c.foreignMax p.1 (rowSeqs run ++ later))
    (ordered : (rowSeqs run ++ later).Pairwise (· < ·)) (fits : ∀ row, .row row ∈ run → row.seq ≤ kInt64Max) :
    Under c.foreignMax (run.foldl (c.apply unfit) p).1 later := by
  induction run generalizing p with
  | nil => exact under
  | cons op run ih =>
    have fewer := (rowSeqs_sublist (List.sublist_cons_self op run)).append (List.Sublist.refl later)
    exact ih (under.apply ordered fun row same => fits row (by simp [same])) (ordered.sublist fewer)
      fun row member => fits row (List.mem_cons_of_mem _ member)

/-- A row that is written is above all that is stored by then. -/
theorem Under.writes {pre post : List Op} {row : Row} (under : Under c.foreignMax p.1 (rowSeqs (pre ++ .row row :: post) ++ later))
    (ordered : (rowSeqs (pre ++ .row row :: post) ++ later).Pairwise (· < ·))
    (fits : ∀ row', .row row' ∈ pre ++ .row row :: post → row'.seq ≤ kInt64Max) (above : c.foreignMax < row.seq) :
    ∀ r ∈ (pre.foldl (c.apply unfit) p).1.rows, r.seq < (row.stored c.launchId).seq := by
  rw [rowSeqs_append, List.append_assoc] at under ordered
  have reached : Under c.foreignMax (pre.foldl (c.apply unfit) p).1 (rowSeqs (.row row :: post) ++ later) :=
    under.fold ordered fun row' member => fits row' (List.mem_append_left _ member)
  intro r member
  rw [stored_seq (fits row (by simp))]
  rcases reached r member with own | below
  · omega
  · exact below row.seq (by simp)

end commit

namespace World

variable {env : Env} {w w' : World}

/-- The seqs of the rows on their way to the store, and the next one. -/
def seqs (w : World) : List Nat := rowSeqs (w.attempting ++ w.queue) ++ [w.nextSeq]

structure Above (w : World) : Prop where
  ordered : w.seqs.Pairwise (· < ·)
  under : ∀ t, w.db = some t → Under w.foreignMax t w.seqs

/-- The store is closed, or no seq came into it. -/
def Fades (w w' : World) : Prop :=
  ∀ t', w'.db = some t' → ∃ t, w.db = some t ∧ ∀ r' ∈ t'.rows, ∃ r ∈ t.rows, r'.seq = r.seq

/-- A step that issues nothing and writes no row. -/
structure Narrows (w w' : World) : Prop where
  nextSeq : w.nextSeq ≤ w'.nextSeq
  foreignMax : w'.foreignMax = w.foreignMax
  rows : (rowSeqs (w'.attempting ++ w'.queue)).Sublist (rowSeqs (w.attempting ++ w.queue))
  fades : w.Fades w'

theorem Fades.same (same : w'.db = w.db) : w.Fades w' :=
  fun t' open' => ⟨t', same ▸ open', fun r member => ⟨r, member, rfl⟩⟩

theorem Fades.closed (closed : w'.db = none) : w.Fades w' := fun t' open' => by
  rw [closed] at open'
  cases open'

theorem Fades.swept {options : Options} {retention : Retention} {sessionKeepsThrough : Nat} {now : Int}
    (same : w'.db = w.db.map fun t => t.sweep options retention sessionKeepsThrough now) : w.Fades w' := by
  intro t' open'
  rw [same] at open'
  obtain ⟨t, open_, rfl⟩ := Option.map_eq_some_iff.mp open'
  exact ⟨t, open_, fun r member => ⟨r, Table.mem_of_mem_sweep member, rfl⟩⟩

theorem Above.narrowed (above : w.Above) (narrows : w.Narrows w') : w'.Above := by
  have lower (seq : Nat) (member : seq ∈ w'.seqs) : ∃ seq₀ ∈ w.seqs, seq₀ ≤ seq := by
    rcases List.mem_append.mp member with queued | next
    · exact ⟨seq, List.mem_append_left _ (narrows.rows.subset queued), Nat.le_refl _⟩
    · rw [List.mem_singleton.mp next]
      exact ⟨w.nextSeq, by simp [seqs], narrows.nextSeq⟩
  have ordered := above.ordered
  constructor
  · unfold seqs at ordered ⊢
    rw [List.pairwise_append] at ordered ⊢
    obtain ⟨rows, _, below⟩ := ordered
    refine ⟨rows.sublist narrows.rows, List.pairwise_singleton _ _, fun seq queued next member => ?_⟩
    rw [List.mem_singleton.mp member]
    exact Nat.lt_of_lt_of_le (below seq (narrows.rows.subset queued) w.nextSeq (by simp)) narrows.nextSeq
  · intro t' open' r' member
    obtain ⟨t, open_, older⟩ := narrows.fades t' open'
    obtain ⟨r, old, same⟩ := older r' member
    rw [same, narrows.foreignMax]
    refine (above.under t open_ r old).imp_right fun below seq listed => ?_
    obtain ⟨seq₀, before, le⟩ := lower seq listed
    exact Int.lt_of_lt_of_le (below seq₀ before) (Int.ofNat_le.mpr le)

theorem Passes.narrows (passes : w.Passes w') (foreignMax : w'.foreignMax = w.foreignMax) (fades : w.Fades w') : w.Narrows w' :=
  ⟨passes.nextSeq, foreignMax, by rw [passes.attempting, passes.queue], fades⟩

theorem rowSeqs_dropRows (ops : List Op) : (rowSeqs (ops.filter fun op => !op.isRow)).Sublist (rowSeqs ops) :=
  rowSeqs_sublist List.filter_sublist

/-- Queueing a control op, or losing the queue with a writer that does not start. -/
theorem enqueueControl_narrows {op : Op} (other : op.isRow = false) (starts : Bool) (now : Int) :
    w.Narrows (w.enqueueControl op starts now) := by
  refine ⟨by rw [enqueueControl_nextSeq], ?_, ?_, Fades.same ?_⟩
  · grind
  · have kept : (w.enqueueControl op starts now).writer = w.writer ∧
        ((w.enqueueControl op starts now).ops = w.ops ∨ (w.enqueueControl op starts now).ops = w.ops ++ [op] ∨
          (w.enqueueControl op starts now).ops = []) := by
      grind
    obtain ⟨writer, same | more | lost⟩ := kept
    · simp [attempting, queue, writer, same]
    · have nothing : rowSeqs [op] = [] := rowSeqs_other other []
      simp [attempting, queue, writer, more, nothing]
    · have fewer : (w.enqueueControl op starts now).attempting ++ (w.enqueueControl op starts now).queue =
          w.attempting ++ w.writer.waiting := by simp [attempting, queue, writer, lost]
      rw [fewer, queue]
      exact rowSeqs_sublist ((List.Sublist.refl _).append (List.sublist_append_left _ _))
  · grind

/-- Back to the batch with the queued rows kept or dropped. -/
theorem dropped_narrows {writer : Writer} {rest : List Op} (here : w.writer = writer) (waiting : writer.waiting = rest)
    (next : w'.writer = .applying rest) (ops : w'.ops = w.ops ∨ w'.ops = w.ops.filter fun op => !op.isRow)
    (kept : w'.nextSeq = w.nextSeq ∧ w'.foreignMax = w.foreignMax) (fades : w.Fades w') : w.Narrows w' := by
  refine ⟨kept.1.ge, kept.2, rowSeqs_sublist ?_, fades⟩
  have fewer : w'.ops.Sublist w.ops := by
    rcases ops with same | dropped
    · exact same ▸ List.Sublist.refl _
    · exact dropped ▸ List.filter_sublist
  have whole := (List.Sublist.refl rest).append fewer
  have after : w'.attempting ++ w'.queue = rest ++ w'.ops := by simp [attempting, queue, Writer.waiting, next]
  rw [after, queue, here, waiting]
  exact whole.trans (List.sublist_append_right _ _)

theorem missedOps_isRow {missed : Missed} {op : Op} (member : op ∈ missedOps missed) : op.isRow = false := by
  simp only [missedOps, List.mem_append, Option.mem_toList, Option.map_eq_some_iff, List.mem_map] at member
  rcases member with (⟨time, -, rfl⟩ | ⟨account, -, rfl⟩) | ⟨ρ, -, rfl⟩ <;> rfl

/-- The missed ops bring no row. -/
theorem replayed_seq {c : Writing} {unfit : Unfit} {missed : Missed} {t : Table} {r : StoredRow}
    (member : r ∈ (c.tryCommit unfit (missedOps missed) t).1.rows) : ∃ r₀ ∈ t.rows, r.seq = r₀.seq := by
  have fold (ops : List Op) (none : ∀ op ∈ ops, op.isRow = false) (p : Table × Nat) (r : StoredRow)
      (member : r ∈ (ops.foldl (c.apply unfit) p).1.rows) : ∃ r₀ ∈ p.1.rows, r.seq = r₀.seq := by
    induction ops generalizing p r with
    | nil => exact ⟨r, member, rfl⟩
    | cons op ops ih =>
      obtain ⟨r₁, old, same⟩ := ih (fun op member => none op (List.mem_cons_of_mem _ member)) _ r member
      rcases mem_apply old with ⟨r₀, older, same'⟩ | ⟨row, rfl, -, -⟩
      · exact ⟨r₀, older, same.trans same'⟩
      · cases none _ List.mem_cons_self
  exact fold _ (fun op member => missedOps_isRow member) (t, 0) r member

/-- The events that issue a seq, write rows or open a store. -/
def bringsSeqs : Event → Bool
  | .add _ _ _ => true
  | .tryCommit _ => true
  | .openStore _ _ => true
  | _ => false

theorem trim_narrows (step : Step env w .trim w') : w.Narrows w' := by
  obtain ⟨-, rfl⟩ := trim_inv step
  have kept : w.overflow.evictLocked.nextSeq = w.nextSeq ∧ w.overflow.evictLocked.foreignMax = w.foreignMax ∧
      w.overflow.evictLocked.db = w.db ∧ w.overflow.evictLocked.writer = w.writer ∧
      (w.overflow.evictLocked.ops = w.ops ∨ w.overflow.evictLocked.ops = w.ops.filter fun op => !op.isRow) := by
    grind
  obtain ⟨nextSeq, foreignMax, db, writer, ops⟩ := kept
  refine ⟨nextSeq.ge, foreignMax, ?_, Fades.same db⟩
  rcases ops with same | dropped
  · simp [attempting, queue, writer, same]
  · -- a writer that is given up loses the rows of its queue
    simp only [attempting, queue, writer, dropped, rowSeqs_append]
    exact (List.Sublist.refl _).append ((List.Sublist.refl _).append (rowSeqs_dropRows _))

theorem setRetention_narrows {retention : Retention} {starts : Bool} (step : Step env w (.setRetention retention starts) w') :
    w.Narrows w' := by
  rcases setRetention_cases step with ⟨rfl, -⟩ | ⟨-, status, ⟨-, -, rfl⟩ | ⟨active', persistedSeq, -, mark, rfl⟩⟩
  · exact ⟨Nat.le_refl _, rfl, List.Sublist.refl _, Fades.same rfl⟩
  · exact ⟨Nat.le_refl _, rfl, List.Sublist.refl _, Fades.same rfl⟩
  · unfold startWriter
    split
    · refine ⟨Nat.le_refl _, rfl, ?_, Fades.same rfl⟩
      simp [attempting, queue, pushControl, rowSeqs]
    split
    · refine ⟨Nat.le_refl _, rfl, ?_, Fades.same rfl⟩
      simp [attempting, queue, pushControl, rowSeqs]
    · refine ⟨Nat.le_refl _, rfl, ?_, Fades.same rfl⟩
      simp [attempting, queue, pushControl, rowSeqs]

/-- The rows that are skipped are the only ones that leave the batch. -/
theorem beginCommit_narrows (step : Step env w .beginCommit w') : w.Narrows w' := by
  obtain ⟨batch, here, -, rfl⟩ := beginCommit_inv step
  refine ⟨Nat.le_refl _, rfl, rowSeqs_sublist ?_, Fades.same rfl⟩
  have cut : runOf batch ++ restOf batch = batch := List.takeWhile_append_dropWhile
  have fewer : (w.attempted (runOf batch)).Sublist (runOf batch) := by
    unfold attempted
    split
    · exact List.filter_sublist
    · exact List.Sublist.refl _
  have whole := (fewer.append (List.Sublist.refl (restOf batch))).append (List.Sublist.refl w.ops)
  rw [cut] at whole
  simpa [attempting, queue, Writer.waiting, goto, here] using whole

theorem giveUpCommit_narrows (step : Step env w .giveUpCommit w') : w.Narrows w' := by
  obtain ⟨run, rest, here, rfl⟩ := giveUpCommit_inv step
  have kept : w.degradeFromWriter.nextSeq = w.nextSeq ∧ w.degradeFromWriter.foreignMax = w.foreignMax ∧
      w.degradeFromWriter.db = w.db ∧ w.degradeFromWriter.ops.Sublist w.ops := by
    unfold degradeFromWriter
    split
    · exact ⟨rfl, rfl, rfl, List.Sublist.refl _⟩
    · exact ⟨rfl, rfl, rfl, List.filter_sublist⟩
  obtain ⟨nextSeq, foreignMax, db, fewer⟩ := kept
  refine ⟨nextSeq.ge, foreignMax, ?_, Fades.same db⟩
  have whole := (List.Sublist.refl rest).append fewer
  have attempted : (w.degradeFromWriter.goto (.settled run rest false)).attempting = [] := rfl
  have queued : (w.degradeFromWriter.goto (.settled run rest false)).queue = rest ++ w.degradeFromWriter.ops := rfl
  rw [attempted, queued, List.nil_append, queue, here]
  exact rowSeqs_sublist (whole.trans (List.sublist_append_right _ _))

theorem applyKeep_narrows {now : Int} {swept : Bool} (step : Step env w (.applyKeep now swept) w') : w.Narrows w' := by
  have passes := applyKeep_passes step
  obtain ⟨before, rest, here, -, -, rfl | rfl⟩ := applyKeep_inv step
  · have db : (w.confirmSession before).db = w.db := by grind
    have fades : (w.confirmSession before).Fades (((w.confirmSession before).sweep env now).goto (.applying rest)) :=
      Fades.swept rfl
    refine passes.narrows (by grind) fun t' open' => ?_
    rw [← db]
    exact fades t' open'
  · exact passes.narrows (by grind) (Fades.same (by grind))

theorem narrows_step {event : Event} (other : bringsSeqs event = false) (step : Step env w event w') : w.Narrows w' := by
  cases event with
  | add | tryCommit | openStore => cases other
  | trim => exact trim_narrows step
  | clear starts now =>
    obtain ⟨-, rfl⟩ := clear_inv step
    have narrows := enqueueControl_narrows (w := { w with messages := [], epoch := w.epoch + 1 })
      (show (Op.clear w.nextSeq none).isRow = false from rfl) starts now
    exact ⟨narrows.nextSeq, narrows.foreignMax, narrows.rows, narrows.fades⟩
  | redact op starts now =>
    obtain ⟨-, rfl⟩ := redact_inv step
    have narrows := enqueueControl_narrows (w := { w with messages := w.messages.map ((Redaction.ofOp op w.nextSeq).onHeld op) })
      (show (Op.redact (Redaction.ofOp op w.nextSeq)).isRow = false from rfl) starts now
    exact ⟨narrows.nextSeq, narrows.foreignMax, narrows.rows, narrows.fades⟩
  | purgeAccount accountId starts now =>
    obtain rfl := Option.some.inj step
    unfold World.purgeAccount
    split
    · exact ⟨Nat.le_refl _, rfl, List.Sublist.refl _, Fades.same rfl⟩
    · exact enqueueControl_narrows rfl starts now
  | setRetention retention starts => exact setRetention_narrows step
  | take => exact (take_passes step).narrows (by grind) (Fades.same (by grind))
  | beginCommit => exact beginCommit_narrows step
  | skipCommit now left =>
    obtain ⟨batch, missed, here, -, rfl⟩ := skipCommit_inv step
    obtain ⟨owedRemoval, leftOnDisk, same⟩ := removeWhatIsOwed_eq { w with missed } left
    rw [same]
    refine ⟨Nat.le_refl _, rfl, rowSeqs_sublist ?_, Fades.same rfl⟩
    have whole := (List.dropWhile_sublist (fun op : Op => !op.isSetMode) (l := batch)).append (List.Sublist.refl w.ops)
    simpa [attempting, queue, Writer.waiting, goto, here, restOf] using whole
  | giveUpCommit => exact giveUpCommit_narrows step
  | raisePersisted =>
    obtain ⟨run, rest, maxSeq, here, rfl⟩ := raisePersisted_inv step
    refine ⟨Nat.le_refl _, rfl, ?_, Fades.same rfl⟩
    simp [attempting, queue, Writer.waiting, goto, here]
  | dropPending =>
    exact (dropPending_passes step).narrows (by grind) (Fades.same (by grind))
  | finish => exact (finish_passes step).narrows (by grind) (Fades.same (by grind))
  | sweepDue now =>
    have passes := sweepDue_passes step
    obtain ⟨-, rfl⟩ := sweepDue_inv step
    exact passes.narrows rfl (Fades.swept rfl)
  | nextMode =>
    obtain ⟨retention, rest, here, rfl⟩ := nextMode_inv step
    refine ⟨Nat.le_refl _, rfl, ?_, Fades.same rfl⟩
    simp [attempting, queue, Writer.waiting, goto, here, rowSeqs]
  | applyOff =>
    have passes := applyOff_passes step
    refine passes.narrows ?_ (Fades.closed ?_) <;>
      grind
  | applyKeep now swept => exact applyKeep_narrows step
  | applyDegraded left =>
    obtain ⟨before, rest, here, -, -, -, rfl⟩ := applyDegraded_inv step
    obtain ⟨owedRemoval, leftOnDisk, same⟩ := removeWhatIsOwed_eq (w.confirmSession before) left
    rw [same]
    have kept : (w.confirmSession before).ops = w.ops ∧ (w.confirmSession before).db = w.db ∧
        (w.confirmSession before).nextSeq = w.nextSeq ∧ (w.confirmSession before).foreignMax = w.foreignMax := by
      grind
    refine ⟨kept.2.2.1.ge, kept.2.2.2, ?_, Fades.same kept.2.1⟩
    simp [attempting, queue, Writer.waiting, goto, here, kept.1]
  | openFails =>
    obtain ⟨before, rest, here, -, -, -, rfl⟩ := openFails_inv step
    refine dropped_narrows here rfl ?_ ?_ ?_ (Fades.same ?_) <;>
      grind
  | owedFails =>
    obtain ⟨before, rest, here, -, -, rfl⟩ := owedFails_inv step
    refine dropped_narrows here rfl ?_ ?_ ?_ (Fades.closed ?_) <;>
      grind [List.filter_filter, Bool.and_self]
  | replayMissed unfit =>
    have passes := replayMissed_passes step
    obtain ⟨rest, t, here, open_, rfl⟩ := replayMissed_inv step
    refine passes.narrows rfl ?_
    rintro t' ⟨⟩
    exact ⟨t, open_, fun r member => replayed_seq member⟩
  | replayFails =>
    obtain ⟨rest, here, rfl⟩ := replayFails_inv step
    refine dropped_narrows here rfl ?_ ?_ ?_ (Fades.closed ?_) <;>
      grind [List.filter_filter, Bool.and_self]
  | raiseSeqAbove =>
    have passes := raiseSeqAbove_passes step
    obtain ⟨rest, here, -, rfl⟩ := raiseSeqAbove_inv step
    exact passes.narrows rfl (Fades.same rfl)
  | publish now =>
    have passes := publish_passes step
    obtain ⟨rest, here, rfl⟩ := publish_inv step
    exact passes.narrows rfl (Fades.swept rfl)
  | sweepFails =>
    obtain ⟨rest, here, rfl⟩ := sweepFails_inv step
    refine dropped_narrows here rfl ?_ ?_ ?_ (Fades.closed ?_) <;>
      grind [List.filter_filter, Bool.and_self]
  | readerFails =>
    obtain ⟨rest, here, rfl⟩ := readerFails_inv step
    refine dropped_narrows here rfl ?_ ?_ ?_ (Fades.closed ?_) <;>
      grind [List.filter_filter, Bool.and_self]
  | stop =>
    obtain rfl := Option.some.inj step
    exact ⟨Nat.le_refl _, rfl, List.Sublist.refl _, Fades.same rfl⟩
  | joined =>
    obtain ⟨-, -, -, rfl⟩ := joined_inv step
    exact ⟨Nat.le_refl _, rfl, List.Sublist.refl _, Fades.closed rfl⟩

theorem Above.add (above : w.Above) {dest : DestinationId} {message : Fields} {now : Int}
    (step : w.add env dest message now = some w') : w'.Above := by
  have grown (more : List Nat) (fits : more = [] ∨ more = [w.nextSeq]) (seqs : w'.seqs =
      rowSeqs (w.attempting ++ w.queue) ++ more ++ [w.nextSeq + 1]) (db : w'.db = w.db) (foreignMax : w'.foreignMax = w.foreignMax) :
      w'.Above := by
    obtain ⟨ordered, under⟩ := above
    unfold World.seqs at ordered under
    rw [List.pairwise_append] at ordered
    obtain ⟨rows, _, below⟩ := ordered
    have small (seq : Nat) (member : seq ∈ rowSeqs (w.attempting ++ w.queue)) : seq < w.nextSeq :=
      below seq member w.nextSeq (List.mem_singleton.mpr rfl)
    constructor
    · rw [seqs, List.pairwise_append, List.pairwise_append]
      rcases fits with rfl | rfl
      · refine ⟨⟨rows, .nil, by simp⟩, List.pairwise_singleton _ _, fun seq member next last => ?_⟩
        rw [List.mem_singleton.mp last]
        exact Nat.lt_succ_of_lt (small seq (by simpa using member))
      · refine ⟨⟨rows, List.pairwise_singleton _ _, below⟩, List.pairwise_singleton _ _, fun seq member next last => ?_⟩
        rw [List.mem_singleton.mp last]
        rcases List.mem_append.mp member with old | new
        · exact Nat.lt_succ_of_lt (small seq old)
        · rw [List.mem_singleton.mp new]
          exact Nat.lt_succ_self _
    · intro t open_ r member
      rw [foreignMax]
      refine (under t (db ▸ open_) r member).imp_right fun low seq listed => ?_
      have next := low w.nextSeq (by simp)
      rw [seqs] at listed
      rcases fits with rfl | rfl
      · simp only [List.append_nil, List.mem_append, List.mem_singleton] at listed
        rcases listed with old | rfl
        · exact low seq (List.mem_append_left _ old)
        · omega
      · simp only [List.mem_append, List.mem_singleton] at listed
        rcases listed with (old | rfl) | rfl
        · exact low seq (List.mem_append_left _ old)
        · exact next
        · omega
  obtain ⟨-, rfl | rfl | rfl⟩ := add_inv step
  · exact grown [] (.inl rfl) (by simp [World.seqs, attempting, queue]) rfl rfl
  · exact above
  · have queued (row : Row) : w.enqueue row = w ∨ w.enqueue row = { w with ops := w.ops ++ [.row row] } := by
      grind
    rcases queued (makeRow env.codec dest message w.nextSeq now) with same | same <;> rw [same] at grown ⊢
    · exact grown [] (.inl rfl) (by simp [World.seqs, attempting, queue, hold]) rfl rfl
    · exact grown [w.nextSeq] (.inr rfl) (by simp [World.seqs, attempting, queue, hold, makeRow, rowSeqs]) rfl rfl

/-- Each row a commit writes has a seq above all that is stored by then. -/
def WritesAbove (env : Env) (w : World) : ContentEvent → Prop
  | .known (.tryCommit (some unfit)) => ∀ run rest failures t, w.writer = .trying run rest failures → w.db = some t →
    ∀ pre row post, run = pre ++ .row row :: post → w.foreignMax < row.seq →
      (row.stored env.options.launchId).seq = row.seq ∧
        ∀ r ∈ (pre.foldl ((w.writing env).apply unfit) (t, 0)).1.rows, r.seq < (row.seq : Int)
  | _ => True

/-- The newest seq of a late store could be read, or none in it is above 0; and a row that is written
has a seq the store can hold. -/
def Legible (w : World) : ContentEvent → Prop
  | .openStore store _ read counted => read = true ∨ ∀ r ∈ (w.keptOf store counted).rows, r.seq ≤ 0
  | .known (.tryCommit (some _)) => ∀ seq ∈ rowSeqs w.attempting, seq ≤ kInt64Max
  | _ => True

theorem seqs_trying {run rest : List Op} {failures : Nat} (here : w.writer = .trying run rest failures) :
    w.seqs = rowSeqs run ++ (rowSeqs (rest ++ w.ops) ++ [w.nextSeq]) := by
  simp [seqs, attempting, queue, Writer.waiting, here]

theorem Above.writes {event : ContentEvent} (above : w.Above) (legible : w.Legible event) : w.WritesAbove env event := by
  cases event with
  | openStore => trivial
  | known event =>
    cases event with
    | tryCommit outcome =>
      cases outcome with
      | none => trivial
      | some unfit =>
        intro run rest failures t here open_ pre row post same high
        have fits (row' : Row) (member : .row row' ∈ run) : row'.seq ≤ kInt64Max :=
          legible row'.seq (mem_rowSeqs (by simpa [attempting, here] using member))
        obtain ⟨ordered, under⟩ := above
        have under := under t open_
        rw [seqs_trying here, same] at ordered under
        rw [same] at fits
        refine ⟨stored_seq (fits row (by simp)) _, fun r member => ?_⟩
        have below := Under.writes (c := w.writing env) (p := (t, 0)) under ordered fits high r member
        rwa [stored_seq (fits row (by simp))] at below
    | _ => trivial

theorem Above.tryCommit (above : w.Above) {outcome : Option Unfit} (legible : w.Legible (.known (.tryCommit outcome)))
    (step : w.tryCommit env outcome = some w') : w'.Above := by
  obtain ⟨run, rest, failures, t, here, open_, ⟨unfit, rfl, rfl⟩ | rfl | rfl⟩ := tryCommit_inv step
  · obtain ⟨ordered, under⟩ := above
    have under := under t open_
    rw [seqs_trying here] at ordered under
    have fits (row : Row) (member : .row row ∈ run) : row.seq ≤ kInt64Max :=
      legible row.seq (mem_rowSeqs (by simpa [attempting, here] using member))
    have after : ({ w with
          db := some ((w.writing env).tryCommit unfit run t).1
          ledger := w.ledger ++ fates (w.writing env) unfit (t, 0) run }.goto
            (.stored run rest ((w.writing env).tryCommit unfit run t).2)).seqs = rowSeqs (rest ++ w.ops) ++ [w.nextSeq] := by
      simp [seqs, attempting, queue, Writer.waiting, goto]
    constructor
    · rw [after]
      exact (List.pairwise_append.mp ordered).2.1
    · rintro t' ⟨⟩
      rw [after]
      exact Under.fold (c := w.writing env) under ordered fits
  all_goals
    refine above.narrowed ⟨Nat.le_refl _, rfl, ?_, Fades.same rfl⟩
    simp [attempting, queue, Writer.waiting, goto, here]

variable {recovered read counted : Bool} {store : Content}

theorem openContent_inv (step : w.openContent store recovered read counted = some w') :
    ∃ before rest, w.writer = .changing before rest ∧
      w' = ((((w.confirmSession before).setStatus (if recovered then .recovered else .ok)).adoptReading before
        (w.keptOf store counted) (if read then storedMax (w.keptOf store counted) else 0)).goto (.replaying rest)) := by
  grind [openContent]

theorem openContent_keeps (step : w.openContent store recovered read counted = some w') :
    w'.messages = w.messages ∧ w'.nextSeq = w.nextSeq ∧ w'.seqs = w.seqs ∧ w'.db = some (w.keptOf store counted) ∧
      w'.foreignMax = if read then storedMax (w.keptOf store counted) else 0 := by
  obtain ⟨before, rest, here, rfl⟩ := openContent_inv step
  have kept : ((w.confirmSession before).setStatus (if recovered then .recovered else .ok)).ops = w.ops ∧
      ((w.confirmSession before).setStatus (if recovered then .recovered else .ok)).nextSeq = w.nextSeq ∧
      ((w.confirmSession before).setStatus (if recovered then .recovered else .ok)).messages = w.messages := by
    grind
  refine ⟨kept.2.2, kept.2.1, ?_, rfl, rfl⟩
  simp [seqs, attempting, queue, Writer.waiting, goto, adoptReading, here, kept.1, kept.2.1]

theorem Above.openContent (above : w.Above) (legible : w.Legible (.openStore store recovered read counted))
    (step : w.openContent store recovered read counted = some w') : w'.Above := by
  obtain ⟨-, -, seqs, db, foreignMax⟩ := openContent_keeps step
  constructor
  · rw [seqs]
    exact above.ordered
  · intro t open_ r member
    rw [db] at open_
    obtain rfl := Option.some.inj open_
    left
    rw [foreignMax]
    rcases legible with rfl | low
    · exact le_storedMax member
    · exact Int.le_trans (low r member) (Int.natCast_nonneg _)

theorem Above.step {event : ContentEvent} (above : w.Above) (legible : w.Legible event) (step : ContentStep env w event w') :
    w'.Above := by
  cases event with
  | openStore store recovered read counted => exact above.openContent legible step
  | known event =>
    by_cases other : bringsSeqs event = false
    · exact above.narrowed (narrows_step other step)
    cases event with
    | add => exact above.add step
    | tryCommit => exact above.tryCommit legible step
    | openStore found recovered =>
      obtain ⟨-, -, -, -, -, -, finds, -⟩ := openStore_inv step
      have late : w.openContent found.content recovered true true = some w' := by
        rw [← openStore_eq finds]
        exact step
      exact above.openContent (.inl rfl) late
    | _ => exact absurd rfl other

end World

/-! ### Boot -/

/-- The newest stored row was read, or no stored seq is above 0; and no row read has a negative seq. -/
def Start.Legible (env : Env) : Start → Prop
  | .opened session unknownSetting _ store swept read starts _ =>
    (∀ r ∈ ((startTable env session unknownSetting store swept).yielded read).rows, 0 ≤ r.seq) ∧
      (starts = true → 0 < read ∨ ∀ r ∈ (startTable env session unknownSetting store swept).rows, r.seq ≤ 0)
  | _ => True

theorem mem_of_mem_startTable {env : Env} {session unknownSetting : Bool} {store : Content} {swept : Option Int} {r : StoredRow}
    (member : r ∈ (startTable env session unknownSetting store swept).rows) : r ∈ store.rows := by
  cases swept with
  | some now => exact Table.mem_of_mem_sweep member
  | none => exact member

/-- Where a row is read at all, the newest is. -/
theorem exists_yielded {t : Table} {read : Nat} (some : 0 < read) {r : StoredRow} (member : r ∈ t.rows) :
    ∃ newest ∈ (t.yielded read).rows, r.seq ≤ newest.seq := by
  have cut : t.rows.take (t.rows.length - min read kCap) ++ (t.yielded read).rows = t.rows := List.take_append_drop ..
  have ordered := t.ordered
  have nonempty : (t.yielded read).rows ≠ [] := by
    have length := List.length_pos_of_mem member
    have cap : kCap = 1000 := rfl
    rw [Table.yielded, ne_eq, List.drop_eq_nil_iff]
    omega
  obtain ⟨newest, there⟩ := List.exists_mem_of_ne_nil _ nonempty
  rw [← cut] at ordered member
  rcases List.mem_append.mp member with old | own
  · exact ⟨newest, there, (((List.pairwise_append.mp ordered).2.2 r old newest there).1).le⟩
  · exact ⟨r, own, le_rfl⟩

theorem start_sound {env : Env} {b : Start} (legible : b.Legible env) : (start env b).Above ∧ (start env b).Ring := by
  cases b with
  | off left =>
    refine ⟨⟨List.pairwise_singleton _ _, ?_⟩, World.ring_boot env (.off left)⟩
    rintro t ⟨⟩
  | failed session unknownSetting newer =>
    refine ⟨⟨List.pairwise_singleton _ _, ?_⟩, World.ring_boot env (.failed session unknownSetting newer)⟩
    rintro t ⟨⟩
  | opened session unknownSetting recovered store swept read starts left =>
    obtain ⟨natural, newest⟩ := legible
    obtain ⟨t, same⟩ : ∃ t, startTable env session unknownSetting store swept = t := ⟨_, rfl⟩
    have issued : ∀ r ∈ (t.yielded read).rows, 0 ≤ r.seq ∧ r.seq ≤ kInt64Max := by
      intro r member
      refine ⟨natural r (same ▸ member), (store.int64 r ?_).2⟩
      exact mem_of_mem_startTable (same ▸ mem_of_mem_yielded member)
    obtain ⟨-, next, -⟩ := seedNext_eq issued
    rw [← same] at issued next
    cases starts with
    | false =>
      refine ⟨⟨List.pairwise_singleton _ _, ?_⟩, World.ring_seeded issued rfl next⟩
      rintro t' ⟨⟩
    | true =>
      refine ⟨⟨List.pairwise_singleton _ _, ?_⟩, World.ring_seeded issued rfl next⟩
      rintro t' ⟨⟩ r member
      rcases newest rfl with some | low
      · refine .inr fun seq listed => ?_
        obtain ⟨last, there, le⟩ := exists_yielded some member
        have below := World.lt_seedNextSeq issued there
        have own : seq = max 1 (seedNext ((startTable env session unknownSetting store swept).yielded read)) :=
          List.mem_singleton.mp listed
        rw [own, next]
        exact Int.lt_of_le_of_lt le below
      · exact .inl (low r member)

/-! ### Whole runs -/

section

variable {env : Env} {b : Start} {w w' : World} {ms : List (Moment World ContentEvent)}

theorem contentStep_nextSeq {event : ContentEvent} (step : ContentStep env w event w') : w.nextSeq ≤ w'.nextSeq := by
  cases event with
  | openStore => exact (World.openContent_keeps step).2.1.ge
  | known event =>
    by_cases other : World.bringsSeqs event = false
    · exact (World.narrows_step other step).nextSeq
    cases event with
    | add dest message now =>
      obtain ⟨-, rfl | rfl | rfl⟩ := World.add_inv step
      · exact Nat.le_succ _
      · exact Nat.le_refl _
      · have same : (w.enqueue (makeRow env.codec dest message w.nextSeq now)).nextSeq = w.nextSeq := by
          grind
        exact Nat.le_trans same.ge (Nat.le_succ _)
    | tryCommit =>
      obtain ⟨run, rest, failures, t, -, -, ⟨unfit, -, rfl⟩ | rfl | rfl⟩ := World.tryCommit_inv step <;> exact Nat.le_refl _
    | openStore found recovered => exact (World.openStore_passes step).nextSeq
    | _ => exact absurd rfl other

theorem contentStep_ring {event : ContentEvent} (step : ContentStep env w event w') (ring : w.Ring) : w'.Ring := by
  cases event with
  | known event => exact ring.step step
  | openStore =>
    obtain ⟨messages, nextSeq, -⟩ := World.openContent_keeps step
    exact ring.of_sublist (messages ▸ .refl _) nextSeq.ge

/-- The seq an Add issues. -/
def issuedSeq (m : Moment World ContentEvent) : Option Nat :=
  match m.input with
  | .known (.add _ _ _) => if m.before.nextSeq < m.after.nextSeq then some m.before.nextSeq else none
  | _ => none

theorem issuedSeq_bounds {m : Moment World ContentEvent} {seq : Nat} (issued : issuedSeq m = some seq) :
    m.before.nextSeq = seq ∧ seq < m.after.nextSeq := by
  grind [issuedSeq]

/-- The ring ascends below the next seq. -/
structure World.Ascends (w : World) : Prop where
  ascending : w.messages.Pairwise fun a b => a.seq < b.seq
  below : ∀ held ∈ w.messages, held.seq < w.nextSeq

/-- Where what is read of each store says how far its seqs go, no seq is issued twice, no row is
written under a seq at or below a stored one, and the ring ascends. -/
theorem seqs_issued_once (legible : b.Legible env) (run : Run (ContentStep env) (start env b) ms w)
    (each : ∀ m ∈ ms, m.before.Legible m.input) :
    w.Ascends ∧ (∀ m ∈ ms, m.before.Ascends ∧ m.after.Ascends ∧ m.before.WritesAbove env m.input) ∧
      ∀ xs m ys m' zs seq seq', ms = xs ++ m :: (ys ++ m' :: zs) → issuedSeq m = some seq → issuedSeq m' = some seq' →
        seq < seq' := by
  obtain ⟨last, held⟩ := run.invariant (P := fun w => w.Above ∧ w.Ring) (Q := fun m => m.before.Legible m.input)
    (fun m legible step sound => ⟨sound.1.step legible step, contentStep_ring step sound.2⟩) each (start_sound legible)
  refine ⟨⟨last.2.ascending, last.2.issued⟩, fun m member => ?_, fun xs m ys m' zs seq seq' split first second => ?_⟩
  · obtain ⟨⟨above, ring⟩, -, ring'⟩ := held m member
    exact ⟨⟨ring.ascending, ring.issued⟩, ⟨ring'.ascending, ring'.issued⟩, above.writes (each m member)⟩
  · rw [split] at run
    obtain ⟨-, issued⟩ := issuedSeq_bounds first
    obtain ⟨next, -⟩ := issuedSeq_bounds second
    have rises : m.after.nextSeq ≤ m'.before.nextSeq :=
      run.between.always (P := fun w => m.after.nextSeq ≤ w.nextSeq)
        (fun _ _ _ step low => Nat.le_trans low (contentStep_nextSeq step)) (Nat.le_refl _)
    omega

end

/-- A store with one row of another launch, and the seq an Add would issue without it. -/
def oneStored : Content := ⟨⟨[⟨1, "acct", "other", "twitch", "acct", "", "", 0, 0, "earlier", "", ""⟩], by simp⟩, by decide⟩

/-- A message from its admission to the commit of its row. -/
def admitAndCommit : List ContentEvent :=
  [.known (.add helloDest (hello 1) 0), .known .trim, .known .take, .known .beginCommit, .known (.tryCommit (some {}))]

theorem seqs_issued_once_read : ∃ ms w, Run (ContentStep bareEnv)
    (start bareEnv (.opened false false false oneStored none kCap true false)) ms w ∧ w.ledger = [(2, .stored)] ∧ w.Ascends ∧
      ∀ m ∈ ms, m.before.WritesAbove bareEnv m.input := by
  obtain ⟨ms, w, run, shown⟩ := exists_run_of_follow (World.contentStep bareEnv)
    (start bareEnv (.opened false false false oneStored none kCap true false)) admitAndCommit
    (fun ms w => decide (w.ledger = [(2, .stored)]) && ms.all fun m =>
      (rowSeqs m.before.attempting).all (fun seq => decide (seq ≤ kInt64Max)) &&
        match m.input with
        | .openStore _ _ read _ => read
        | _ => true) (by decide)
  simp only [Bool.and_eq_true, decide_eq_true_eq, List.all_eq_true] at shown
  have legible (m : Moment World ContentEvent) (member : m ∈ ms) : m.before.Legible m.input := by
    obtain ⟨fits, read⟩ := shown.2 m member
    unfold World.Legible
    split
    next here =>
      rw [here] at read
      exact .inl read
    next => exact fits
    next => trivial
  have start : (Start.opened false false false oneStored none kCap true false).Legible bareEnv := ⟨by decide, fun _ => .inl (by decide)⟩
  obtain ⟨ascends, moments, -⟩ := seqs_issued_once start run legible
  exact ⟨ms, w, run, shown.1, ascends, fun m member => (moments m member).2.2⟩

/-- The only outcome is a message taken for one that is stored, whose row has the seq of another. -/
def droppedBehind (m : Moment World ContentEvent) (w : World) : Bool :=
  decide (w.ledger = [(1, .duplicate)]) &&
    (match w.db with
      | some t => t.rows.all fun r => decide (r.msgId ≠ str (hello 1) "id")
      | none => false) &&
    match m.input, m.before.writer, m.before.db with
    | .known (.tryCommit (some _)), .trying [.row row] _ _, some t =>
      decide (m.before.foreignMax < row.seq) && decide (row.seq = 1) && t.rows.any fun r => decide (r.seq = 1)
    | _, _, _ => false

/-- The seed query fails: the message's seq is that of a stored row, and its own row is dropped. -/
theorem not_seqs_issued_once : ∃ ms w, Run (ContentStep bareEnv)
    (start bareEnv (.opened false false false oneStored none 0 true false)) ms w ∧ w.ledger = [(1, .duplicate)] ∧
      (∃ m ∈ ms, ¬ m.before.WritesAbove bareEnv m.input) ∧
      ∀ t, w.db = some t → ∀ r ∈ t.rows, r.msgId ≠ str (hello 1) "id" := by
  obtain ⟨xs, m, ys, w, run, shown⟩ := exists_run_through (World.contentStep bareEnv)
    (start bareEnv (.opened false false false oneStored none 0 true false)) admitAndCommit 4
    (fun m _ w => droppedBehind m w) (by decide)
  simp only [droppedBehind, Bool.and_eq_true, decide_eq_true_eq] at shown
  obtain ⟨⟨ledger, others⟩, taken⟩ := shown
  refine ⟨xs ++ m :: ys, w, run, ledger, ⟨m, by simp, fun writes => ?_⟩, fun t open_ => ?_⟩
  · split at taken
    next unfit row rest failures t input here open_ =>
      simp only [Bool.and_eq_true, decide_eq_true_eq, List.any_eq_true] at taken
      obtain ⟨⟨above, first⟩, r, stored, same⟩ := taken
      unfold World.WritesAbove at writes
      rw [input] at writes
      have below := (writes [.row row] rest failures t here open_ [] row [] rfl above).2 r stored
      omega
    next => cases taken
  · rw [open_] at others
    simpa using others

end Braidcast.Chat
