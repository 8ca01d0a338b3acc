import Braidcast.Chat.Waiting
import Mathlib.Data.List.Induction

/-!
# The ring in order

What paging relies on: the ring ascends in seq under keys held once, its frames carry the seq
they were issued, the store is open for reading whenever the writer is not adopting it, and
no stored seq is negative.
-/
namespace Braidcast.Chat

open Lib

/-- In `AdoptStore`, with its reader not published. -/
@[grind] def Writer.adopts : Writer → Bool
  | .replaying _ => true
  | .raising _ => true
  | .publishing _ => true
  | _ => false

structure World.Ring (w : World) : Prop where
  ascending : w.messages.Pairwise fun a b => a.seq < b.seq
  issued : ∀ held ∈ w.messages, held.seq < w.nextSeq
  keyed : ∀ held ∈ w.messages, held.key = heldKey held.dest (str held.frame "id")
  apart : w.messages.Pairwise fun a b => a.key ≠ b.key
  stamped : ∀ held ∈ w.messages, held.frame.get? "seq" = some (.num held.seq)

structure World.Shelf (w : World) : Prop where
  reader : w.writer.adopts = false → w.readDb = w.db.isSome
  adopted : w.writer.adopts = true → w.db.isSome = true
  natural : ∀ t, w.db = some t → ∀ r ∈ t.rows, 0 ≤ r.seq

variable {env : Env} {w w' : World}

/-! ### The newest seq of a store -/

namespace World

section foldl

variable {α β : Type} [LinearOrder β] (f : α → β)

theorem le_foldl_max (xs : List α) (start : β) :
    start ≤ xs.foldl (fun most x => max most (f x)) start ∧
      ∀ x ∈ xs, f x ≤ xs.foldl (fun most x => max most (f x)) start := by
  induction xs generalizing start with
  | nil => simp
  | cons x xs ih =>
    obtain ⟨above, each⟩ := ih (max start (f x))
    refine ⟨le_trans (le_max_left _ _) above, fun y member => ?_⟩
    rcases List.mem_cons.mp member with rfl | later
    · exact le_trans (le_max_right _ _) above
    · exact each y later

theorem foldl_max_le {xs : List α} {start limit : β} (low : start ≤ limit) (each : ∀ x ∈ xs, f x ≤ limit) :
    xs.foldl (fun most x => max most (f x)) start ≤ limit := by
  induction xs generalizing start with
  | nil => exact low
  | cons x xs ih => exact ih (max_le low (each x (by simp))) fun y member => each y (by simp [member])

end foldl

/-- The newest seq of a store is above every seq in it. -/
theorem le_storedMax {t : Table} {r : StoredRow} (member : r ∈ t.rows) : r.seq ≤ storedMax t := by
  have bound := (le_foldl_max StoredRow.seq t.rows 0).2 r member
  unfold storedMax
  omega

/-- The ring starts above what the store holds. -/
theorem lt_seedNextSeq {t : Table} (issued : ∀ r ∈ t.rows, 0 ≤ r.seq ∧ r.seq ≤ kInt64Max) {r : StoredRow}
    (member : r ∈ t.rows) : r.seq < seedNextSeq t := by
  obtain ⟨older, newest, split⟩ : ∃ older newest, t.rows = older ++ [newest] := by
    simpa using (List.eq_nil_or_concat t.rows).resolve_left (List.ne_nil_of_mem member)
  have last : newest ∈ t.rows := by simp [split]
  -- the table is in the order of its seqs
  have under : r.seq ≤ newest.seq := by
    have ordered := t.ordered
    rw [split, List.pairwise_append] at ordered
    rw [split] at member
    rcases List.mem_append.mp member with old | same
    · exact le_of_lt (ordered.2.2 r old newest (by simp)).1
    · rw [List.mem_singleton.mp same]
  -- the seed is read from the newest rows only, and this is the newest
  have counted : newest ∈ t.rows.reverse.take kCap := by simp [split, kCap]
  have seen := (le_foldl_max (fun r : StoredRow => asUint64 r.seq) (t.rows.reverse.take kCap) 0).2 newest counted
  have limit : kInt64Max = 9223372036854775807 := rfl
  obtain ⟨low, high⟩ := issued newest last
  have same : asUint64 newest.seq = newest.seq.toNat := by
    rw [asUint64, Int.emod_eq_of_lt low (by omega)]
  rw [same] at seen
  unfold seedNextSeq
  omega

end World

/-! ### The ring -/

theorem evict_sublist (waitForDisk : Bool) (persisted : Nat) (messages : List Held) :
    (evict waitForDisk persisted messages).Sublist messages := by
  induction messages with
  | nil => exact .refl _
  | cons front rest ih =>
    unfold evict
    split
    · exact ih.cons front
    · exact .refl _

namespace World

/-- The ring's own calls. -/
def changesRing : Event → Bool
  | .add _ _ _ => true
  | .trim => true
  | .clear _ _ => true
  | .redact _ _ _ => true
  | _ => false

/-- Every other event leaves the ring as it is, but for the seqs to come. -/
theorem step_messages {event : Event} (other : changesRing event = false) (step : Step env w event w') :
    w'.messages = w.messages ∧ w.nextSeq ≤ w'.nextSeq := by
  cases event with
  | add | trim | clear | redact => cases other
  | purgeAccount accountId starts now =>
    obtain rfl := Option.some.inj step
    grind [World.purgeAccount]
  | setRetention retention starts =>
    rcases setRetention_cases step with ⟨rfl, -⟩ | ⟨-, status, ⟨-, -, rfl⟩ | ⟨active', persistedSeq, -, mark, rfl⟩⟩
    all_goals grind
  | take | beginCommit | tryCommit | giveUpCommit | raisePersisted | dropPending | finish | sweepDue | nextMode
  | applyOff | applyKeep | openFails | openStore | owedFails | replayMissed | replayFails | raiseSeqAbove | publish
  | sweepFails | readerFails | joined | skipCommit | applyDegraded => grind
  | stop =>
    obtain rfl := Option.some.inj step
    exact ⟨rfl, le_rfl⟩

theorem Ring.of_sublist (ring : w.Ring) (fewer : w'.messages.Sublist w.messages) (later : w.nextSeq ≤ w'.nextSeq) :
    w'.Ring where
  ascending := ring.ascending.sublist fewer
  issued held member := (ring.issued held (fewer.subset member)).trans_le later
  keyed held member := ring.keyed held (fewer.subset member)
  apart := ring.apart.sublist fewer
  stamped held member := ring.stamped held (fewer.subset member)

theorem Ring.add (ring : w.Ring) {dest : DestinationId} {message : Fields} {now : Int}
    (step : w.add env dest message now = some w') : w'.Ring := by
  unfold World.add at step
  split at step
  · cases step
  split at step
  · cases step
    exact ring.of_sublist (.refl _) (Nat.le_succ _)
  split at step
  · cases step
    exact ring
  next free =>
    obtain rfl := Option.some.inj step
    have messages : ((w.enqueue (makeRow env.codec dest message w.nextSeq now)).hold
        (w.heldOf dest message now)).messages = w.messages ++ [w.heldOf dest message now] := by
      simp only [hold, enqueue]
      split <;> rfl
    have nextSeq : ((w.enqueue (makeRow env.codec dest message w.nextSeq now)).hold
        (w.heldOf dest message now)).nextSeq = w.nextSeq + 1 := by
      simp only [hold, enqueue]
      split <;> rfl
    -- the guard of Add: no held message bears the key
    have fresh : ∀ held ∈ w.messages, held.key ≠ (w.heldOf dest message now).key := by
      simpa [holds] using free
    have id : str (w.heldOf dest message now).frame "id" = str message "id" := by
      simp (disch := decide) only [heldOf, str, Fields.get?_set_of_ne]
    constructor
    · rw [messages, List.pairwise_append]
      refine ⟨ring.ascending, List.pairwise_singleton _ _, fun held member new same => ?_⟩
      rw [List.mem_singleton.mp same]
      exact ring.issued held member
    · rw [messages, nextSeq]
      intro held member
      rcases List.mem_append.mp member with old | new
      · exact (ring.issued held old).trans (Nat.lt_succ_self _)
      · rw [List.mem_singleton.mp new]
        exact Nat.lt_succ_self _
    · rw [messages]
      intro held member
      rcases List.mem_append.mp member with old | new
      · exact ring.keyed held old
      · rw [List.mem_singleton.mp new, id]
        rfl
    · rw [messages, List.pairwise_append]
      refine ⟨ring.apart, List.pairwise_singleton _ _, fun held member new same => ?_⟩
      rw [List.mem_singleton.mp same]
      exact fresh held member
    · rw [messages]
      intro held member
      rcases List.mem_append.mp member with old | new
      · exact ring.stamped held old
      · rw [List.mem_singleton.mp new]
        simp (disch := decide) only [heldOf, Fields.get?_set_of_ne, Fields.get?_set_self]

/-- Redacting a held message leaves what identifies it. -/
theorem onHeld_keeps (ρ : Redaction) (op : ModerationOp) (held : Held) :
    (ρ.onHeld op held).seq = held.seq ∧ (ρ.onHeld op held).dest = held.dest ∧ (ρ.onHeld op held).key = held.key ∧
      str (ρ.onHeld op held).frame "id" = str held.frame "id" ∧
      (ρ.onHeld op held).frame.get? "seq" = held.frame.get? "seq" := by
  unfold Redaction.onHeld
  split
  · have kept (key : String) (text : key ≠ "fragments") (mark : key ≠ "deleted") :=
      get?_redactFrame_of_ne held.frame op.action text mark
    refine ⟨rfl, rfl, rfl, ?_, kept "seq" (by decide) (by decide)⟩
    simp only [Held.redact, str, kept "id" (by decide) (by decide)]
  · exact ⟨rfl, rfl, rfl, rfl, rfl⟩

theorem Ring.redacted (ring : w.Ring) (ρ : Redaction) (op : ModerationOp)
    (messages : w'.messages = w.messages.map (ρ.onHeld op)) (later : w.nextSeq ≤ w'.nextSeq) : w'.Ring := by
  have kept := onHeld_keeps ρ op
  constructor
  · rw [messages, List.pairwise_map]
    exact ring.ascending.imp fun {a b} less => by rwa [(kept a).1, (kept b).1]
  · simp only [messages, List.forall_mem_map]
    intro held member
    rw [(kept held).1]
    exact (ring.issued held member).trans_le later
  · simp only [messages, List.forall_mem_map]
    intro held member
    obtain ⟨-, dest, key, id, -⟩ := kept held
    rw [dest, key, id]
    exact ring.keyed held member
  · rw [messages, List.pairwise_map]
    exact ring.apart.imp fun {a b} other => by rwa [(kept a).2.2.1, (kept b).2.2.1]
  · simp only [messages, List.forall_mem_map]
    intro held member
    obtain ⟨seq, -, -, -, stamp⟩ := kept held
    rw [seq, stamp]
    exact ring.stamped held member

theorem enqueueControl_nextSeq (w : World) (op : Op) (starts : Bool) (now : Int) :
    (w.enqueueControl op starts now).nextSeq = w.nextSeq := by
  grind

theorem Ring.step {event : Event} (ring : w.Ring) (step : Step env w event w') : w'.Ring := by
  by_cases other : changesRing event = false
  · obtain ⟨messages, later⟩ := step_messages other step
    exact ring.of_sublist (messages ▸ .refl _) later
  cases event with
  | add => exact ring.add step
  | trim =>
    obtain ⟨-, rfl⟩ := trim_inv step
    -- degrading drops queued rows, never messages
    have same : w.overflow.messages = w.messages ∧ w.overflow.nextSeq = w.nextSeq := by
      grind
    refine ring.of_sublist ?_ same.2.ge
    rw [evictLocked, same.1]
    exact evict_sublist _ _ _
  | clear starts now =>
    obtain ⟨-, rfl⟩ := clear_inv step
    refine ring.of_sublist ?_ (by rw [enqueueControl_nextSeq])
    rw [(enqueueControl_messages _ _ starts now).1]
    exact List.nil_sublist _
  | redact op starts now =>
    obtain ⟨-, rfl⟩ := redact_inv step
    exact ring.redacted _ op (enqueueControl_messages _ _ starts now).1 (by rw [enqueueControl_nextSeq])
  | _ => exact absurd rfl other

/-! ### The store -/

theorem natural_apply {c : Writing} {unfit : Unfit} {p : Table × Nat} {op : Op}
    (natural : ∀ r ∈ p.1.rows, 0 ≤ r.seq) : ∀ r ∈ (c.apply unfit p op).1.rows, 0 ≤ r.seq := by
  intro r member
  cases op with
  | row row =>
    simp only [Writing.apply] at member
    split at member
    · exact natural r member
    · split at member
      · exact natural r member
      · rcases Table.mem_insert member with rfl | old
        · simp only [Row.stored, sqlSeq]
          split <;> omega
        · exact natural r old
  | redact ρ =>
    obtain ⟨before, old, kept⟩ := List.mem_filterMap.mp member
    rw [Redaction.revises_keeps kept]
    exact natural before old
  | clear belowSeq receivedBy =>
    cases receivedBy <;> exact natural r (Table.mem_delete.mp member).1
  | purge accountId => exact natural r (Table.mem_delete.mp member).1
  | setMode retention => exact natural r member

theorem natural_fold {c : Writing} {unfit : Unfit} {p : Table × Nat} {ops : List Op}
    (natural : ∀ r ∈ p.1.rows, 0 ≤ r.seq) : ∀ r ∈ (ops.foldl (c.apply unfit) p).1.rows, 0 ≤ r.seq := by
  induction ops generalizing p with
  | nil => exact natural
  | cons op ops ih => exact ih (natural_apply natural)

/-- A step that leaves the store and its reader as they are. -/
theorem Shelf.of_same (shelf : w.Shelf) (writer : w'.writer.adopts = w.writer.adopts) (db : w'.db = w.db)
    (readDb : w'.readDb = w.readDb) : w'.Shelf := by
  constructor
  · rw [writer, db, readDb]
    exact shelf.reader
  · rw [writer, db]
    exact shelf.adopted
  · rw [db]
    exact shelf.natural

/-- A step that closes the store. -/
theorem Shelf.closed (writer : w'.writer.adopts = false) (db : w'.db = none) (readDb : w'.readDb = false) : w'.Shelf := by
  constructor <;> simp [writer, db, readDb]

theorem Shelf.swept (shelf : w.Shelf) (env : Env) (now : Int) : (w.sweep env now).Shelf := by
  constructor
  · simpa [sweep] using shelf.reader
  · simpa [sweep] using shelf.adopted
  · intro t open'
    obtain ⟨before, open_, rfl⟩ := Option.map_eq_some_iff.mp open'
    exact fun r member => shelf.natural before open_ r (Table.mem_of_mem_sweep member)

theorem Shelf.enqueueControl (shelf : w.Shelf) (op : Op) (starts : Bool) (now : Int) :
    (w.enqueueControl op starts now).Shelf := by
  apply shelf.of_same <;> grind

theorem Shelf.step {event : Event} (shelf : w.Shelf) (step : Step env w event w') : w'.Shelf := by
  cases event with
  | add | trim | take | beginCommit | giveUpCommit | raisePersisted | dropPending | finish | nextMode | openFails
  | raiseSeqAbove | applyDegraded => apply shelf.of_same <;> grind
  | clear starts now =>
    obtain ⟨-, rfl⟩ := clear_inv step
    have ring : Shelf { w with messages := [], epoch := w.epoch + 1 } := ⟨shelf.reader, shelf.adopted, shelf.natural⟩
    exact ring.enqueueControl _ starts now
  | redact op starts now =>
    obtain ⟨-, rfl⟩ := redact_inv step
    have ring : Shelf { w with messages := w.messages.map ((Redaction.ofOp op w.nextSeq).onHeld op) } :=
      ⟨shelf.reader, shelf.adopted, shelf.natural⟩
    exact ring.enqueueControl _ starts now
  | purgeAccount accountId starts now =>
    obtain rfl := Option.some.inj step
    unfold World.purgeAccount
    split
    · exact shelf
    · exact shelf.enqueueControl _ starts now
  | setRetention retention starts =>
    rcases setRetention_cases step with ⟨rfl, -⟩ | ⟨-, status, ⟨-, -, rfl⟩ | ⟨active', persistedSeq, -, mark, rfl⟩⟩
    all_goals apply shelf.of_same <;> grind
  | skipCommit now left =>
    obtain ⟨batch, missed, here, -, rfl⟩ := skipCommit_inv step
    obtain ⟨owedRemoval, leftOnDisk, same⟩ := removeWhatIsOwed_eq { w with missed } left
    rw [same]
    apply shelf.of_same <;> simp [goto, Writer.adopts, here]
  | tryCommit =>
    obtain ⟨run, rest, failures, t, here, open_, ⟨unfit, rfl, rfl⟩ | rfl | rfl⟩ := tryCommit_inv step
    -- a commit writes the store; no row it inserts has a negative seq
    · have reader := shelf.reader (by simp [here, Writer.adopts])
      refine ⟨by simpa [goto, Writer.adopts, open_] using reader, by simp [goto, Writer.adopts], ?_⟩
      intro after same
      obtain rfl := Option.some.inj same
      exact natural_fold (shelf.natural t open_)
    all_goals apply shelf.of_same <;> simp [goto, Writer.adopts, here]
  | sweepDue =>
    obtain ⟨-, rfl⟩ := sweepDue_inv step
    exact shelf.swept env _
  | applyOff | owedFails | replayFails | sweepFails | readerFails =>
    apply Shelf.closed <;> grind
  | applyKeep now swept =>
    obtain ⟨before, rest, here, -, -, rfl | rfl⟩ := applyKeep_inv step
    · have confirmed : (w.confirmSession before).Shelf := by
        apply shelf.of_same <;> grind
      apply (confirmed.swept env now).of_same <;> grind
    · apply shelf.of_same <;> grind
  | openStore found recovered =>
    obtain ⟨before, rest, here, -, closed, -, -, rfl⟩ := openStore_inv step
    refine ⟨by simp [goto, Writer.adopts], by simp [goto, adopt], ?_⟩
    intro t same r member
    obtain rfl := Option.some.inj same
    split at member
    · simp [Table.empty] at member
    · exact (found.issued r member).1
  | replayMissed unfit =>
    obtain ⟨rest, t, here, open_, rfl⟩ := replayMissed_inv step
    refine ⟨by simp [goto, Writer.adopts], by simp [goto], ?_⟩
    intro after same
    obtain rfl := Option.some.inj same
    exact natural_fold (shelf.natural t open_)
  | publish now =>
    obtain ⟨rest, here, rfl⟩ := publish_inv step
    -- open since it was adopted, and from here on read as well
    have open_ := shelf.adopted (by simp [here, Writer.adopts])
    refine ⟨by simpa [goto, Writer.adopts, sweep] using open_.symm, by simp [goto, Writer.adopts], ?_⟩
    exact (shelf.swept env now).natural
  | stop =>
    obtain rfl := Option.some.inj step
    exact ⟨shelf.reader, shelf.adopted, shelf.natural⟩
  | joined =>
    obtain ⟨-, -, idle, rfl⟩ := joined_inv step
    apply Shelf.closed <;> simp [closeStore, idle, Writer.adopts]

/-! ### Boot -/

/-- What the ring holds of one entry of the seed. -/
def heldOfEntry (entry : String × Fields) : Held :=
  ⟨match entry.2.get? "seq" with
    | some (.num n) => n.toNat
    | _ => 0, entry.1, heldKey entry.1 (str entry.2 "id"), entry.2, none, ""⟩

/-- The ring holds some of the seed's entries in their order, a key once. -/
theorem seedRing_eq (seed : List (String × Fields)) :
    ∃ kept : List (String × Fields), kept.Sublist seed ∧ seedRing seed = kept.map heldOfEntry ∧
      (seedRing seed).Pairwise fun a b => a.key ≠ b.key := by
  -- the ring is filled in the order of the seed, so the induction takes its last entry off
  induction seed using List.reverseRecOn with
  | nil => exact ⟨[], .refl _, rfl, .nil⟩
  | append_singleton seed entry ih =>
    obtain ⟨kept, fewer, held, apart⟩ := ih
    have grown : seedRing (seed ++ [entry]) =
        if (seedRing seed).any fun h => h.key == (heldOfEntry entry).key then seedRing seed
        else seedRing seed ++ [heldOfEntry entry] := by
      rw [seedRing, List.foldl_append]
      rfl
    rw [grown]
    split
    · exact ⟨kept, fewer.trans (List.sublist_append_left _ _), held, apart⟩
    next free =>
      refine ⟨kept ++ [entry], fewer.append (.refl _), by simp [held], ?_⟩
      rw [List.pairwise_append]
      refine ⟨apart, List.pairwise_singleton _ _, fun old member new same => ?_⟩
      rw [List.mem_singleton.mp same]
      intro equal
      exact free (List.any_eq_true.mpr ⟨old, member, by simp [equal]⟩)

theorem asUint64_of_issued {seq : Int} (low : 0 ≤ seq) (high : seq ≤ kInt64Max) : (asUint64 seq : Int) = seq := by
  have limit : kInt64Max = 9223372036854775807 := rfl
  rw [asUint64, Int.emod_eq_of_lt low (by omega), Int.toNat_of_nonneg low]

variable {codec : Codec}

theorem seq_frameFromRow {r : StoredRow} {frame : Fields} (framed : frameFromRow codec r = some frame) :
    frame.get? "seq" = some (.num (asUint64 r.seq)) := by
  unfold frameFromRow at framed
  split at framed
  · cases framed
    split <;> simp (disch := decide) only [Fields.get?_set_of_ne, Fields.get?_set_self]
  · cases framed

/-- An entry of the seed is a stored row, held under its seq. -/
theorem mem_buildSeed {t : Table} (issued : ∀ r ∈ t.rows, 0 ≤ r.seq ∧ r.seq ≤ kInt64Max)
    {entry : String × Fields} (member : entry ∈ buildSeed codec t) :
    (heldOfEntry entry).seq < seedNextSeq t ∧ entry.2.get? "seq" = some (.num (heldOfEntry entry).seq) := by
  obtain ⟨r, taken, made⟩ := List.mem_filterMap.mp (List.mem_reverse.mp member)
  obtain ⟨frame, framed, rfl⟩ := Option.map_eq_some_iff.mp made
  have stored := List.mem_reverse.mp (List.mem_of_mem_take taken)
  have seq := seq_frameFromRow framed
  have same : (heldOfEntry (r.dest, frame)).seq = asUint64 r.seq := by simp [heldOfEntry, seq]
  have below := lt_seedNextSeq issued stored
  rw [← asUint64_of_issued (issued r stored).1 (issued r stored).2] at below
  rw [same]
  exact ⟨by omega, seq⟩

theorem buildSeed_ascending {t : Table} (issued : ∀ r ∈ t.rows, 0 ≤ r.seq ∧ r.seq ≤ kInt64Max) :
    (buildSeed codec t).Pairwise fun a b => (heldOfEntry a).seq < (heldOfEntry b).seq := by
  have descending : (t.rows.reverse.take kCap).Pairwise fun a b => asUint64 b.seq < asUint64 a.seq := by
    refine List.Pairwise.sublist (List.take_sublist _ _) (List.pairwise_reverse.mpr ?_)
    refine List.Pairwise.imp_of_mem ?_ t.ordered
    intro a b first second less
    have left := asUint64_of_issued (issued a first).1 (issued a first).2
    have right := asUint64_of_issued (issued b second).1 (issued b second).2
    omega
  rw [buildSeed, List.pairwise_reverse]
  refine descending.filterMap _ fun a b less => ?_
  intro x first y second
  obtain ⟨frame, framed, rfl⟩ := Option.map_eq_some_iff.mp first
  obtain ⟨frame', framed', rfl⟩ := Option.map_eq_some_iff.mp second
  simpa [heldOfEntry, seq_frameFromRow framed, seq_frameFromRow framed'] using less

theorem ring_seeded {w : World} {t : Table} (issued : ∀ r ∈ t.rows, 0 ≤ r.seq ∧ r.seq ≤ kInt64Max)
    (messages : w.messages = seedRing (buildSeed codec t)) (next : w.nextSeq = seedNextSeq t) : w.Ring := by
  obtain ⟨kept, fewer, held, apart⟩ := seedRing_eq (buildSeed codec t)
  rw [← messages] at held apart
  -- what the ring kept of the seed is still made of stored rows
  have entries : ∀ entry ∈ kept, _ := fun entry member => mem_buildSeed issued (fewer.subset member)
  constructor
  · rw [held, List.pairwise_map]
    exact (buildSeed_ascending issued).sublist fewer
  · rw [held, next]
    exact List.forall_mem_map.mpr fun entry member => (entries entry member).1
  · rw [held]
    exact List.forall_mem_map.mpr fun entry member => rfl
  · exact apart
  · rw [held]
    exact List.forall_mem_map.mpr fun entry member => (entries entry member).2

theorem ring_boot (env : Env) (b : Boot) : (boot env b).Ring := by
  cases b with
  | opened session unknownSetting recovered found swept starts left =>
    cases swept with
    | some now =>
      have issued : ∀ r ∈ (found.sweep env.options (bootRetention session unknownSetting) 0 now).rows,
          0 ≤ r.seq ∧ r.seq ≤ kInt64Max := fun r member => found.issued r (Table.mem_of_mem_sweep member)
      cases starts <;> exact ring_seeded issued rfl rfl
    | none => cases starts <;> exact ring_seeded found.issued rfl rfl
  | _ => constructor <;> simp [boot, fresh]

theorem shelf_boot (env : Env) (b : Boot) : (boot env b).Shelf := by
  cases b with
  | opened session unknownSetting recovered found swept starts left =>
    cases starts with
    | true =>
      refine ⟨fun _ => rfl, fun _ => rfl, ?_⟩
      intro t same r member
      obtain rfl := Option.some.inj same
      cases swept with
      | some now => exact (found.issued r (Table.mem_of_mem_sweep member)).1
      | none => exact (found.issued r member).1
    | false => apply Shelf.closed <;> rfl
  | _ => apply Shelf.closed <;> rfl

end World

end Braidcast.Chat
