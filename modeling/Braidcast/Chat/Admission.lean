import Braidcast.Chat.Waiting

/-!
# A message is always somewhere

A message given a seq while rows are being written has its row queued ahead of the mark.
From then on every step leaves it in the ring or settles its row, but for a Clear and the
end of persistence.
-/
namespace Braidcast.Chat

open Lib

namespace World

variable {env : Env} {w w' : World} {seq : Nat}

/-! ### Whole runs -/

/-- The message is held for the disk, or the writer has settled its row in one of these
ways. -/
def Accounted (w : World) (seq : Nat) (fates : Fate → Prop) : Prop :=
  w.InRing seq ∧ w.Waiting seq ∨ ∃ fate, w.SettledAs seq fate ∧ fates fate

variable {fates : Fate → Prop}

theorem Accounted.of_waiting (accounted : w.Accounted seq fates)
    (messages : w.InRing seq → w'.InRing seq) (ledger : w.ledger ⊆ w'.ledger)
    (waiting : w.Waiting seq → w'.Waiting seq ∨ ∃ fate, w'.SettledAs seq fate ∧ fates fate) :
    w'.Accounted seq fates := by
  rcases accounted with ⟨held, waits⟩ | ⟨fate, settled, allowed⟩
  · rcases waiting waits with next | settled
    · exact .inl ⟨messages held, next⟩
    · exact .inr settled
  · exact .inr ⟨fate, ledger settled, allowed⟩

theorem Accounted.of_passes (accounted : w.Accounted seq fates) (passes : w.Passes w') :
    w'.Accounted seq fates :=
  accounted.of_waiting (by simp [InRing, passes.messages]) (by simp [passes.ledger])
    fun waiting => .inl (waiting.of_passes passes)

def isClear : Event → Bool
  | .clear _ _ => true
  | _ => false

/-- Every step keeps a message accounted for, but for a Clear and the end of persistence. -/
theorem Accounted.step {event : Event} (accounted : w.Accounted seq fates)
    (step : Step env w event w') (persisting : w.Persisting) (still : w'.Persisting) (other : isClear event = false)
    (allowed : ∀ fate, (fate = .passedOver → seq ≤ w.foreignMax) → fates fate) : w'.Accounted seq fates := by
  have fine : w.degraded = false := persisting.2.1
  have fine' : w'.degraded = false := still.2.1
  have active' : w'.active = true := still.1
  cases event with
  | add =>
    refine accounted.of_waiting ?_ ?_ fun waiting => .inl (waiting.add step)
    · rintro ⟨held, member, same⟩
      refine ⟨held, ?_, same⟩
      obtain ⟨-, rfl | rfl | rfl⟩ := add_inv step <;> grind
    · obtain ⟨-, rfl | rfl | rfl⟩ := add_inv step <;> grind
  -- the ring lets go of nothing that is ahead of the mark
  | trim =>
    rcases accounted with ⟨held, waiting⟩ | ⟨fate, settled, fits⟩
    · obtain ⟨held', same⟩ := held.trim waiting.persisted persisting step fine'
      refine .inl ⟨held', ?_⟩
      rw [same]
      exact ⟨waiting.persisted, waiting.stored, waiting.place⟩
    · refine .inr ⟨fate, ?_, fits⟩
      grind [SettledAs]
  | clear => cases other
  | redact op starts now =>
    obtain ⟨-, rfl⟩ := redact_inv step
    obtain ⟨messages, ledger⟩ := enqueueControl_messages
      { w with messages := w.messages.map ((Redaction.ofOp op w.nextSeq).onHeld op) }
      (.redact (Redaction.ofOp op w.nextSeq)) starts now
    refine accounted.of_waiting ?_ (by simp [ledger]) fun waiting => .inl (Waiting.enqueueControl ?_ _ _ _ fine')
    · rintro ⟨held, member, same⟩
      exact ⟨_, by rw [messages]; exact List.mem_map_of_mem member, by rw [onHeld_seq, same]⟩
    · exact ⟨waiting.persisted, waiting.stored, waiting.place⟩
  | purgeAccount accountId starts now =>
    obtain rfl := Option.some.inj step
    simp only [World.purgeAccount] at fine' ⊢
    split at fine'
    next empty => simpa only [empty, if_true] using accounted
    next named =>
      simp only [named, if_false]
      obtain ⟨messages, ledger⟩ := enqueueControl_messages w (.purge accountId) starts now
      exact accounted.of_waiting (by simp [InRing, messages]) (by simp [ledger])
        fun waiting => .inl (waiting.enqueueControl _ _ _ fine')
  | setRetention retention starts =>
    refine accounted.of_waiting ?_ ?_ fun waiting => .inl (waiting.setRetention persisting.1 step fine') <;>
      obtain ⟨-, rfl⟩ := setRetention_inv step <;>
      grind [InRing, changeRetention, settingKnown]
  | take => exact accounted.of_passes (take_passes step)
  | beginCommit =>
    refine accounted.of_waiting ?_ ?_ fun waiting => .inl (waiting.beginCommit fine step) <;>
      grind [InRing, beginCommit_inv step]
  | skipCommit =>
    refine accounted.of_waiting ?_ ?_ fun waiting => .inl (waiting.skipCommit fine step) <;>
      grind [InRing, skipCommit_inv step]
  | tryCommit =>
    -- the one step that settles a row
    refine accounted.of_waiting ?_ ?_ fun waiting => (waiting.tryCommit step).imp_right ?_
    rotate_right
    · rintro ⟨fate, settled, passed⟩
      exact ⟨fate, settled, allowed fate passed⟩
    all_goals
      obtain ⟨run, rest, failures, t, here, open_, ⟨unfit, rfl, rfl⟩ | rfl | rfl⟩ := tryCommit_inv step <;>
        simp [InRing, goto]
  -- degrading ends persistence, here and below
  | giveUpCommit => grind
  | raisePersisted =>
    refine accounted.of_waiting ?_ ?_ fun waiting => .inl (waiting.raisePersisted step) <;>
      grind [InRing, raisePersisted_inv step]
  | dropPending => exact accounted.of_passes (dropPending_passes step)
  | finish => exact accounted.of_passes (finish_passes step)
  | sweepDue => exact accounted.of_passes (sweepDue_passes step)
  | nextMode =>
    refine accounted.of_waiting ?_ ?_ fun waiting => .inl (waiting.nextMode step) <;>
      grind [InRing, nextMode_inv step]
  | applyOff => exact accounted.of_passes (applyOff_passes step)
  | applyKeep => exact accounted.of_passes (applyKeep_passes step)
  | applyDegraded => grind
  | openFails => grind
  | openStore => exact accounted.of_passes (openStore_passes step)
  | owedFails => grind
  | replayMissed => exact accounted.of_passes (replayMissed_passes step)
  | replayFails => grind
  | raiseSeqAbove => exact accounted.of_passes (raiseSeqAbove_passes step)
  | publish => exact accounted.of_passes (publish_passes step)
  | sweepFails => grind
  | readerFails => grind
  | stop =>
    obtain rfl := Option.some.inj step
    cases still.2.2
  | joined => grind

/-! ### Seqs issued so far -/

/-- Everything queued, written or behind the mark was issued a seq below the next one. -/
structure Issued (w : World) : Prop where
  persisted : w.persistedSeq < w.nextSeq
  stored : ∀ run rest maxSeq, w.writer = .stored run rest maxSeq → maxSeq < w.nextSeq
  rows : ∀ row, .row row ∈ w.attempting ++ w.queue → row.seq < w.nextSeq

/-- A step that issues no row and commits nothing. -/
structure Fewer (w w' : World) : Prop where
  nextSeq : w.nextSeq ≤ w'.nextSeq
  persistedSeq : w'.persistedSeq = w.persistedSeq
  stored : ∀ run rest maxSeq, w'.writer = .stored run rest maxSeq → w.writer = .stored run rest maxSeq
  rows : ∀ row, .row row ∈ w'.attempting ++ w'.queue → .row row ∈ w.attempting ++ w.queue

theorem Issued.of_fewer (inv : w.Issued) (fewer : w.Fewer w') : w'.Issued := by
  obtain ⟨nextSeq, persistedSeq, stored, rows⟩ := fewer
  refine ⟨?_, fun run rest maxSeq here => ?_, fun row member => ?_⟩
  · rw [persistedSeq]
    exact lt_of_lt_of_le inv.persisted nextSeq
  · exact lt_of_lt_of_le (inv.stored run rest maxSeq (stored run rest maxSeq here)) nextSeq
  · exact lt_of_lt_of_le (inv.rows row (rows row member)) nextSeq

theorem Passes.fewer (passes : w.Passes w') : w.Fewer w' :=
  ⟨passes.nextSeq, passes.persistedSeq, passes.stored, by simp [passes.attempting, passes.queue]⟩

theorem enqueueControl_fewer {op : Op} (other : op.isRow = false) (starts : Bool) (now : Int) :
    w.Fewer (w.enqueueControl op starts now) := by
  constructor <;> grind -linarith [Op.isRow]

theorem Issued.add (inv : w.Issued) {dest : DestinationId} {message : Fields} {now : Int}
    (step : w.add env dest message now = some w') : w'.Issued := by
  obtain ⟨persisted, stored, rows⟩ := inv
  obtain ⟨-, rfl | rfl | rfl⟩ := add_inv step
  · constructor <;> grind -linarith
  · exact ⟨persisted, stored, rows⟩
  · constructor <;> grind -linarith [makeRow]

theorem Issued.setRetention (inv : w.Issued) {retention : Retention} {starts : Bool}
    (step : w.setRetention retention starts = some w') : w'.Issued := by
  obtain ⟨persisted, stored, rows⟩ := inv
  rcases setRetention_cases step with ⟨rfl, -⟩ | ⟨-, status, ⟨-, -, rfl⟩ | ⟨active', persistedSeq, -, mark, rfl⟩⟩
  · exact ⟨persisted, stored, rows⟩
  · exact ⟨persisted, stored, rows⟩
  · constructor <;> grind -linarith

theorem Issued.tryCommit (inv : w.Issued) {outcome : Option Unfit}
    (step : w.tryCommit env outcome = some w') : w'.Issued := by
  obtain ⟨persisted, stored, rows⟩ := inv
  obtain ⟨run, rest, failures, t, here, open_, ⟨unfit, rfl, rfl⟩ | rfl | rfl⟩ := tryCommit_inv step
  -- the mark a commit reports is the seq of one of its rows
  · have newest : ((w.writing env).tryCommit unfit run t).2 < w.nextSeq :=
      tryCommit_newest_lt _ _ t (by omega) fun row member => rows row (by simp [attempting, here, member])
    constructor <;> grind -linarith
  all_goals constructor <;> grind -linarith

theorem mem_of_mem_run {batch : List Op} {op : Op} (member : op ∈ runOf batch) : op ∈ batch :=
  List.takeWhile_subset _ member

theorem Issued.step {event : Event} (inv : w.Issued) (step : Step env w event w') : w'.Issued := by
  cases event with
  | add => exact inv.add step
  | trim | giveUpCommit | nextMode | applyDegraded | openFails | owedFails | replayFails | sweepFails | readerFails =>
    refine inv.of_fewer ?_
    constructor <;> grind -linarith
  | clear starts now =>
    obtain ⟨-, rfl⟩ := clear_inv step
    have ring : Issued { w with messages := [], epoch := w.epoch + 1 } := ⟨inv.persisted, inv.stored, inv.rows⟩
    exact ring.of_fewer (enqueueControl_fewer rfl starts now)
  | redact op starts now =>
    obtain ⟨-, rfl⟩ := redact_inv step
    have ring : Issued { w with messages := w.messages.map ((Redaction.ofOp op w.nextSeq).onHeld op) } :=
      ⟨inv.persisted, inv.stored, inv.rows⟩
    exact ring.of_fewer (enqueueControl_fewer rfl starts now)
  | purgeAccount accountId starts now =>
    obtain rfl := Option.some.inj step
    unfold World.purgeAccount
    split
    · exact inv
    · exact inv.of_fewer (enqueueControl_fewer rfl starts now)
  | setRetention => exact inv.setRetention step
  | take => exact inv.of_fewer (take_passes step).fewer
  | beginCommit =>
    obtain ⟨batch, here, -, rfl⟩ := beginCommit_inv step
    refine inv.of_fewer ?_
    constructor <;> grind -linarith [attempted, mem_of_mem_run, mem_of_mem_rest]
  | skipCommit now left =>
    refine inv.of_fewer ?_
    constructor <;> grind -linarith [mem_of_mem_rest]
  | tryCommit => exact inv.tryCommit step
  | raisePersisted =>
    obtain ⟨persisted, stored, rows⟩ := inv
    constructor <;> grind -linarith
  | dropPending => exact inv.of_fewer (dropPending_passes step).fewer
  | finish => exact inv.of_fewer (finish_passes step).fewer
  | sweepDue => exact inv.of_fewer (sweepDue_passes step).fewer
  | applyOff => exact inv.of_fewer (applyOff_passes step).fewer
  | applyKeep => exact inv.of_fewer (applyKeep_passes step).fewer
  | openStore => exact inv.of_fewer (openStore_passes step).fewer
  | replayMissed => exact inv.of_fewer (replayMissed_passes step).fewer
  | raiseSeqAbove => exact inv.of_fewer (raiseSeqAbove_passes step).fewer
  | publish => exact inv.of_fewer (publish_passes step).fewer
  | stop =>
    obtain rfl := Option.some.inj step
    exact ⟨inv.persisted, inv.stored, inv.rows⟩
  | joined =>
    obtain ⟨-, -, -, rfl⟩ := joined_inv step
    exact ⟨inv.persisted, inv.stored, inv.rows⟩

theorem issued_boot (env : Env) (b : Boot) : (boot env b).Issued := by
  cases b with
  | opened session unknownSetting recovered found swept starts left =>
    cases starts <;> constructor <;> simp [boot, fresh, attempting, queue, Writer.waiting, seedNextSeq]
  | _ => constructor <;> simp [boot, fresh, attempting, queue, Writer.waiting]

/-- The seq an Add holds its message under, if it holds it. -/
def admittedSeq (m : Moment World Event) : Option Nat :=
  match m.input with
  | .add dest message now =>
    if str message "id" ≠ "" ∧ m.before.holds (m.before.heldOf dest message now).key = false then
      some m.before.nextSeq
    else none
  | _ => none

/-- An Add while rows are queued leaves its message held, with its row queued ahead of the
mark. -/
theorem accounted_of_admitted {m : Moment World Event} (admitted : admittedSeq m = some seq)
    (step : Step env m.before m.input m.after) (agreement : m.before.Agreement False) (issued : m.before.Issued)
    (persisting : m.after.Persisting) : m.after.Accounted seq fates := by
  obtain ⟨w, event, w'⟩ := m
  obtain ⟨dest, message, now, rfl, keyed, fresh, rfl⟩ : ∃ dest message now, event = .add dest message now ∧
      str message "id" ≠ "" ∧ w.holds (w.heldOf dest message now).key = false ∧ w.nextSeq = seq := by
    grind [admittedSeq]
  simp only at keyed fresh persisting agreement issued ⊢
  have taken : w.add env dest message now = some w' := step
  simp only [add, keyed, fresh, if_false, Bool.false_eq_true, Option.ite_none_left_eq_some] at taken
  obtain ⟨-, same⟩ := taken
  obtain rfl := Option.some.inj same
  -- an Add changes none of the flags, so rows were already being queued
  have asked : w.active = true ∧ w.degraded = false ∧ w.stopped = false := by
    grind [Persisting]
  obtain ⟨active, fine, running⟩ := asked
  have queued : w.enqueue (makeRow env.codec dest message w.nextSeq now) =
      { w with ops := w.ops ++ [.row (makeRow env.codec dest message w.nextSeq now)] } := by
    simp [enqueue, active, fine, running]
  rw [queued]
  refine .inl ⟨⟨w.heldOf dest message now, by simp [hold], rfl⟩, issued.persisted, issued.stored, .inr ?_⟩
  refine ⟨w.queue, _, [], (List.append_assoc ..).symm, rfl, agreement.wanted active, issued.rows⟩

end World

section

variable {env : Env} {xs ys : List (Moment World Event)} {m : Moment World Event} {w : World} {seq : Nat}

theorem World.admits_before (b : Boot) (run : Run (Step env) (boot env b) (xs ++ m :: ys) w) :
    Step env m.before m.input m.after ∧ Run (Step env) m.after ys w ∧ m.before.Agreement False ∧ m.before.Issued := by
  obtain ⟨start, first, rest⟩ := Run.append_iff.mp run
  obtain ⟨rfl, step, later⟩ := Run.cons_iff.mp rest
  have agreement : m.before.Agreement False :=
    (first.invariant (P := World.Agreement False) World.Agreement.step (fun _ _ strict => strict.elim)
      (World.agreement_boot False env b)).1
  have issued : m.before.Issued :=
    first.always (P := World.Issued) (fun _ _ _ step inv => inv.step step) (World.issued_boot env b)
  exact ⟨step, later, agreement, issued⟩

/-- What can end a message's account: a Clear, the end of persistence, or `stops`. -/
theorem World.Accounted.run (fates : Fate → Prop) (stops : World → Prop) (later : Run (Step env) m.after ys w)
    (allowed : ∀ w, ¬ stops w → ∀ fate, (fate = .passedOver → seq ≤ World.foreignMax w) → fates fate)
    (accounted : m.after.Accounted seq fates) :
    w.Accounted seq fates ∨ (∃ n ∈ ys, World.isClear n.input = true) ∨ (∃ n ∈ m :: ys, ¬ n.after.Persisting) ∨
      ∃ n ∈ m :: ys, stops n.after := by
  let Ends (n : Moment World Event) : Prop := World.isClear n.input = true ∨ ¬ n.after.Persisting ∨ stops n.after
  have keeps (n : Moment World Event) (_ : True) (step : Step env n.before n.input n.after)
      (fine : (n.before.Persisting ∧ ¬ stops n.before) ∧ n.before.Accounted seq fates) :
      ((n.after.Persisting ∧ ¬ stops n.after) ∧ n.after.Accounted seq fates) ∨ Ends n := by
    obtain ⟨⟨persisting, above⟩, accounted⟩ := fine
    by_cases ends : Ends n
    · exact .inr ends
    · obtain ⟨other, still, above'⟩ : World.isClear n.input = false ∧ n.after.Persisting ∧ ¬ stops n.after := by
        simpa [Ends, not_or] using ends
      exact .inl ⟨⟨still, above'⟩, accounted.step step persisting still other (allowed n.before above)⟩
  -- where the account ends with the Add itself there is nothing to follow
  by_cases fine : m.after.Persisting ∧ ¬ stops m.after
  · have kept := later.persists (P := fun w => (w.Persisting ∧ ¬ stops w) ∧ w.Accounted seq fates) keeps
      (fun _ _ => trivial) ⟨fine, accounted⟩
    grind
  · grind

/-- A message given a seq is held; or its row is settled, passed over only where its seq is
among those of an adopted store; or a Clear dropped it, or rows were not being written at
some moment since. -/
theorem admitted_somewhere (env : Env) (b : Boot) (run : Run (Step env) (boot env b) (xs ++ m :: ys) w)
    (admitted : World.admittedSeq m = some seq) :
    w.InRing seq ∨
      (∃ fate, w.SettledAs seq fate ∧ (fate = .passedOver → ∃ n ∈ m :: ys, seq ≤ n.after.foreignMax)) ∨
      (∃ n ∈ ys, World.isClear n.input = true) ∨ ∃ n ∈ m :: ys, ¬ n.after.Persisting := by
  obtain ⟨step, later, agreement, issued⟩ := World.admits_before b run
  by_cases persisting : m.after.Persisting
  · have settled := World.Accounted.run (fun _ => True) (fun _ => False) later (by simp)
      (World.accounted_of_admitted admitted step agreement issued persisting)
    -- followed again only until a store's seqs reach it, so that it is not passed over
    have kept := World.Accounted.run (· ≠ .passedOver) (fun w => seq ≤ World.foreignMax w) later
      (fun w above fate passed same => above (passed same)) (World.accounted_of_admitted admitted step agreement issued persisting)
    grind [World.Accounted]
  · exact .inr (.inr (.inr ⟨m, List.mem_cons_self, persisting⟩))

end

/-- A message of one account, with an id of this length. -/
def hello (length : Nat) : Fields := [("id", .str (String.ofList (List.replicate length 'a')))]

def helloDest : DestinationId := ⟨"acct", ""⟩

theorem admitted_somewhere_stored :
    ∃ xs m ys w, Run (Step bareEnv) (boot bareEnv (.off false)) (xs ++ m :: ys) w ∧ World.admittedSeq m = some 1 ∧
      (w.InRing 1 ∨ (∃ fate, w.SettledAs 1 fate ∧ (fate = .passedOver → ∃ n ∈ m :: ys, 1 ≤ n.after.foreignMax)) ∨
        (∃ n ∈ ys, World.isClear n.input = true) ∨ ∃ n ∈ m :: ys, ¬ n.after.Persisting) ∧
      w.SettledAs 1 .stored ∧ (∀ n ∈ ys, World.isClear n.input = false) ∧ ∀ n ∈ m :: ys, n.after.Persisting := by
  obtain ⟨xs, m, ys, w, run, shown⟩ := exists_run_through (World.step bareEnv) (boot bareEnv (.off false))
    ([.setRetention .session true, .add helloDest (hello 1) 0, .trim, .take, .nextMode] ++ adoption .empty ++
      [.beginCommit, .tryCommit (some {}), .raisePersisted]) 1
    (fun m ys w => decide (World.admittedSeq m = some 1 ∧ (1, Fate.stored) ∈ w.ledger ∧
      (∀ n ∈ ys, World.isClear n.input = false) ∧ ∀ n ∈ m :: ys, n.after.Persisting)) (by decide +kernel)
  obtain ⟨admitted, stored, clears, persisting⟩ := of_decide_eq_true shown
  exact ⟨xs, m, ys, w, run, admitted, admitted_somewhere bareEnv (.off false) run admitted, stored, clears, persisting⟩

/-! ### A message passed over leaves the ring as well -/

/-- The ring after this many hellos on top of a settled message of seq 1. -/
structure World.Filled (w : World) (count : Nat) : Prop where
  persisting : w.Persisting
  idle : w.adding = false
  persisted : w.persistedSeq = 1
  next : 1 < w.nextSeq
  ledger : w.ledger = [(1, .passedOver)]
  keys : ∀ held ∈ w.messages, held.key.length ≤ 6 + count
  ring : ∃ front rest, w.messages = front :: rest ∧ front.seq = 1 ∧ rest.length = count ∧ ∀ held ∈ rest, held.seq ≠ 1

/-- Moments of a run that keeps persisting and clears nothing. -/
def Undisturbed (ms : List (Moment World Event)) : Prop :=
  ∀ n ∈ ms, n.after.Persisting ∧ World.isClear n.input = false

theorem length_hello_key (w : World) (length : Nat) :
    (w.heldOf helloDest (hello length) 0).key.length = 5 + length := by
  have id : str (hello length) "id" = String.ofList (List.replicate length 'a') := by
    simp [str, hello, Fields.get?]
  have dest : destinationKey helloDest = "acct" := by decide
  simp only [World.heldOf, heldKey, id, dest, String.length_append, String.length_ofList, List.length_replicate]
  rfl

theorem evict_of_few {waitForDisk : Bool} {persisted : Nat} {messages : List Held} (few : messages.length ≤ kCap) :
    evict waitForDisk persisted messages = messages := by
  cases messages with
  | nil => rfl
  | cons front rest =>
    rw [evict, if_neg]
    rintro ⟨many, -⟩
    exact absurd few (not_le.mpr many)

/-- One hello more: the front leaves once the ring is full. -/
theorem World.Filled.greet {w : World} {count : Nat} (filled : w.Filled count) (few : count < kCap) :
    ∃ ms w', Run (Step bareEnv) w ms w' ∧ Undisturbed ms ∧ w'.ledger = [(1, .passedOver)] ∧
      (if count + 1 < kCap then w'.Filled (count + 1) else ¬ w'.InRing 1) := by
  obtain ⟨⟨active, fine, running⟩, idle, persisted, next, ledger, keys, front, rest, ring, first, many, others⟩ := filled
  have keyed : str (hello (count + 2)) "id" ≠ "" := by
    intro empty
    have length := congrArg String.length empty
    simp [str, hello, Fields.get?] at length
  have unheld : w.holds (w.heldOf helloDest (hello (count + 2)) 0).key = false := by
    simp only [holds, List.any_eq_false, beq_iff_eq]
    intro h member same
    have length := keys h member
    rw [same, length_hello_key] at length
    omega
  obtain ⟨held, isHeld⟩ : ∃ held, held = w.heldOf helloDest (hello (count + 2)) 0 := ⟨_, rfl⟩
  obtain ⟨row, isRow⟩ : ∃ row, row = makeRow bareEnv.codec helloDest (hello (count + 2)) w.nextSeq 0 := ⟨_, rfl⟩
  have seq : held.seq = w.nextSeq := by rw [isHeld]; rfl
  have key : held.key.length = 5 + (count + 2) := by rw [isHeld, length_hello_key]
  obtain ⟨w₁, grown⟩ : ∃ w₁, w₁ =
      { w with ops := w.ops ++ [Op.row row], nextSeq := w.nextSeq + 1, messages := w.messages ++ [held], adding := true } :=
    ⟨_, rfl⟩
  have admits : Step bareEnv w (.add helloDest (hello (count + 2)) 0) w₁ := by
    simp [Step, World.step, World.add, idle, keyed, unheld, enqueue, hold, active, fine, running, grown, isHeld, isRow]
  have length : w₁.messages.length = count + 2 := by simp [grown, ring, many]
  have active₁ : w₁.active = true ∧ w₁.persistedSeq = 1 ∧ w₁.adding = true := by simp [grown, active, persisted]
  have trims : Step bareEnv w₁ .trim { w₁ with messages := evict true 1 w₁.messages, adding := false } := by
    have under : ¬ kRingHardCap < w₁.messages.length := by
      rw [length]
      simp only [kRingHardCap, kCap] at few ⊢
      omega
    simp [Step, World.step, World.trim, overflow, evictLocked, under, active₁]
  have kept : w₁.Persisting := by simp [Persisting, grown, active, fine, running]
  refine ⟨_, _, .cons admits (.cons trims (.nil _)), ?_, ?_, ?_⟩
  · simp only [Undisturbed, List.forall_mem_cons, isClear, and_true]
    exact ⟨kept, kept, by simp⟩
  · simp [grown, ledger]
  · have shape : w₁.messages = front :: (rest ++ [held]) := by simp [grown, ring]
    have later : ∀ h ∈ rest ++ [held], h.seq ≠ 1 := by
      intro h member
      rcases List.mem_append.mp member with old | new
      · exact others h old
      · rw [List.mem_singleton.mp new]
        omega
    split
    next room =>
      rw [evict_of_few (by omega)]
      refine ⟨kept, rfl, ?_, ?_, ?_, ?_, front, rest ++ [held], shape, first, by simp [many], later⟩
      · simp [grown, persisted]
      · simp only [grown]
        omega
      · simp [grown, ledger]
      · intro h member
        rcases List.mem_append.mp (by simpa only [grown] using member) with old | new
        · have := keys h old
          omega
        · rw [List.mem_singleton.mp new]
          omega
    next full =>
      have leaves : evict true 1 w₁.messages = rest ++ [held] := by
        rw [shape, evict, if_pos ⟨by simp [many]; omega, .inr (by omega)⟩, evict_of_few (by simp [many]; omega)]
      rintro ⟨h, member, same⟩
      exact later h (leaves ▸ member) same

/-- Greetings until the ring has let go of its front. -/
theorem World.Filled.fill {w : World} {count : Nat} (filled : w.Filled count) (few : count < kCap) :
    ∃ ms w', Run (Step bareEnv) w ms w' ∧ Undisturbed ms ∧ w'.ledger = [(1, .passedOver)] ∧ ¬ w'.InRing 1 := by
  -- on the room left in the ring
  induction left : kCap - count generalizing w count with
  | zero => omega
  | succ n ih =>
    obtain ⟨ms, w₁, run, calm, ledger, grown⟩ := filled.greet few
    split at grown
    next room =>
      obtain ⟨ms', w', run', calm', result⟩ := ih grown room (by omega)
      refine ⟨ms ++ ms', w', Run.append_iff.mpr ⟨w₁, run, run'⟩, fun n member => ?_, result⟩
      rcases List.mem_append.mp member with early | late
      · exact calm n early
      · exact calm' n late
    next full => exact ⟨ms, w₁, run, calm, ledger, grown⟩

/-- The row another launch stored, of a seq this launch has not reached. -/
def foreignRow : StoredRow := ⟨5000, "acct", "other", "twitch", "acct", "", "", 0, 0, "earlier", "", ""⟩

/-- A message admitted while the store is being opened, in a store that holds higher seqs:
its row is never written, and the ring lets it go with the mark. -/
theorem passed_over_nowhere :
    ∃ xs m ys w, Run (Step bareEnv) (boot bareEnv (.off false)) (xs ++ m :: ys) w ∧ World.admittedSeq m = some 1 ∧
      ¬ w.InRing 1 ∧ (∀ fate, w.SettledAs 1 fate → fate = .passedOver) ∧
      (∀ n ∈ ys, World.isClear n.input = false) ∧ ∀ n ∈ m :: ys, n.after.Persisting := by
  obtain ⟨xs, m, ys, w, run, shown⟩ := exists_run_through (World.step bareEnv) (boot bareEnv (.off false))
    ([.setRetention .session true, .add helloDest (hello 1) 0, .trim, .take, .nextMode] ++
      adoption ⟨⟨[foreignRow], by simp⟩, by decide⟩ ++
      [.beginCommit, .tryCommit (some {}), .raisePersisted, .dropPending, .finish]) 1
    (fun m ys w => decide (World.admittedSeq m = some 1 ∧ (∀ n ∈ m :: ys, n.after.Persisting) ∧
      (∀ n ∈ ys, World.isClear n.input = false) ∧ w.Persisting ∧ w.adding = false ∧ w.persistedSeq = 1 ∧
      1 < w.nextSeq ∧ w.ledger = [(1, .passedOver)] ∧ (∀ held ∈ w.messages, held.key.length ≤ 6) ∧
      w.messages.map (·.seq) = [1])) (by decide +kernel)
  obtain ⟨admitted, calm, clears, persisting, idle, persisted, next, ledger, keys, ring⟩ := of_decide_eq_true shown
  obtain ⟨front, alone, first⟩ : ∃ front, w.messages = [front] ∧ front.seq = 1 := by
    simpa [List.map_eq_singleton_iff] using ring
  have filled : w.Filled 0 :=
    ⟨persisting, idle, persisted, next, ledger, by simpa using keys, front, [], alone, first, rfl, by simp⟩
  obtain ⟨more, w', run', calm', ledger', gone⟩ := filled.fill (by decide)
  refine ⟨xs, m, ys ++ more, w', ?_, admitted, gone, ?_, ?_, ?_⟩
  · rw [← List.cons_append, ← List.append_assoc]
    exact Run.append_iff.mpr ⟨w, run, run'⟩
  · intro fate settled
    rw [World.SettledAs, ledger'] at settled
    simpa using settled
  · intro n member
    rcases List.mem_append.mp member with early | late
    · exact clears n early
    · exact (calm' n late).2
  · intro n member
    rw [← List.cons_append] at member
    rcases List.mem_append.mp member with early | late
    · exact calm n early
    · exact (calm' n late).1

end Braidcast.Chat
