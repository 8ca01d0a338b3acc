import Braidcast.Chat.Table

/-!
# Reading through the pending ops

A removal is implemented twice: as a predicate and a rewrite over frames while it is
queued, and as SQL over columns when it is written. Every op acts on each row on its own,
so both sides are compared row by row, by induction on the queue.
-/
namespace Braidcast.Chat

open Lib

/-- A redacted body reads back as the frame that was written. -/
def Codec.RoundTrips (codec : Codec) : Prop :=
  ∀ text frame action, codec.parse text = .obj frame →
    codec.parse (codec.dump (.obj (redactFrame frame action))) = .obj (redactFrame frame action)

/-- A stored seq that stays in order as a `uint64_t`, with room for a bound above it. -/
def StoredRow.Fits (r : StoredRow) : Prop := 0 ≤ r.seq ∧ r.seq < kInt64Max

/-! ### Seq bounds -/

theorem sqlSeq_max (a b : Nat) : sqlSeq (max a b) = max (sqlSeq a) (sqlSeq b) := by
  unfold sqlSeq
  split <;> split <;> split <;> omega

theorem sqlSeq_mono {a b : Nat} (le : a ≤ b) : sqlSeq a ≤ sqlSeq b := by
  rw [← max_eq_right le, sqlSeq_max]
  exact le_max_left _ _

variable {r : StoredRow}

theorem lt_sqlSeq_iff (fits : r.Fits) (bound : Nat) :
    r.seq < sqlSeq bound ↔ asUint64 r.seq < bound := by
  have below : r.seq < kInt64Max := fits.2
  have small : kInt64Max = 9223372036854775807 := rfl
  have same : asUint64 r.seq = r.seq.toNat := by
    rw [asUint64, Int.emod_eq_of_lt fits.1 (by omega)]
  rw [same, sqlSeq]
  have nonneg := fits.1
  split <;> omega

/-- The predicate over a frame's columns and the query select the same rows. -/
theorem matchesRow_eq_selects (ρ : Redaction) (foreignMax : Nat) (fits : r.Fits) :
    { ρ with belowSeq := reachBelow foreignMax ρ.belowSeq }.matchesRow
        r.dest (asUint64 r.seq) r.ts r.msgId r.authorId =
      (!ρ.namesNothing && ρ.selects foreignMax r) := by
  rw [Bool.eq_iff_iff, Redaction.matchesRow_iff]
  simp only [Redaction.namesNothing, Redaction.selects, Redaction.reachesTs, Redaction.names,
    lt_sqlSeq_iff fits]
  cases ρ.action <;> cases ρ.beforeTs <;> simp <;> grind

/-! ### What the writer does to one row -/

/-- What is left of a row when the op is written. -/
def PendingOp.revises (c : Writing) : PendingOp → StoredRow → Option StoredRow
  | .redact ρ, r => ρ.revises c {} r
  | .purge accountId, r => if r.accountId == accountId then none else some r
  | .clear belowSeq, r =>
    if r.seq < sqlSeq (reachBelow c.foreignMax belowSeq) then none else some r

def reviseAll (c : Writing) : List PendingOp → StoredRow → Option StoredRow
  | [], r => some r
  | op :: ops, r => (op.revises c r).bind (reviseAll c ops)

theorem apply_rows (c : Writing) (op : PendingOp) (p : Table × Nat) :
    (c.apply {} p op.op).1.rows = p.1.rows.filterMap (op.revises c) := by
  cases op with
  | redact ρ => rfl
  | purge accountId => rfl
  | clear belowSeq =>
    simp only [PendingOp.op, Writing.apply, Table.delete, Table.revise, decide_eq_true_eq]
    rfl

theorem tryCommit_rows (c : Writing) (pending : List PendingOp) (t : Table) :
    (c.tryCommit {} (pending.map PendingOp.op) t).1.rows = t.rows.filterMap (reviseAll c pending) := by
  suffices general : ∀ p : Table × Nat,
      ((pending.map PendingOp.op).foldl (c.apply {}) p).1.rows = p.1.rows.filterMap (reviseAll c pending) from
    general (t, 0)
  induction pending with
  | nil => intro p; simp [reviseAll]
  | cons op ops ih =>
    intro p
    rw [List.map_cons, List.foldl_cons, ih, apply_rows, List.filterMap_filterMap]
    rfl

theorem revises_seq {c : Writing} {op : PendingOp} {r r' : StoredRow} (kept : op.revises c r = some r') :
    r'.seq = r.seq := by
  cases op with
  | redact ρ => rw [Redaction.revises_keeps kept]
  | purge | clear => grind [PendingOp.revises]

/-! ### What a reader makes of one row -/

/-- The frame a row is returned as, if the scan reaches it and it survives. -/
def view (codec : Codec) (foreignMax : Nat) (pending : List PendingOp) (beforeSeq : Nat) (filter : Filter)
    (r : StoredRow) : Option Fields :=
  if r.seq < sqlSeq beforeSeq ∧ sqlSeq (clearedBelow foreignMax pending) ≤ r.seq ∧ filter.selects r then
    readRow codec foreignMax pending r
  else none

theorem readOlder_eq_view (t : Table) (codec : Codec) (foreignMax : Nat) (pending : List PendingOp)
    (beforeSeq limit : Nat) (filter : Filter) :
    t.readOlder codec foreignMax pending beforeSeq limit filter =
      (t.rows.reverse.filterMap (view codec foreignMax pending beforeSeq filter)).take limit := by
  simp only [Table.readOlder, List.filterMap_filter]
  congr 2
  funext r
  simp [view, and_assoc]

/-- The scan's own bounds keep it to seqs on which both forms of a redaction agree. -/
theorem view_eq_none_of_not_fits (codec : Codec) (foreignMax : Nat) (pending : List PendingOp)
    (beforeSeq : Nat) (filter : Filter) (out : ¬ r.Fits) :
    view codec foreignMax pending beforeSeq filter r = none := by
  have top (seq : Nat) : sqlSeq seq ≤ kInt64Max ∧ 0 ≤ sqlSeq seq := by
    unfold sqlSeq
    split <;> omega
  refine if_neg fun ⟨before, cleared, _⟩ => out ⟨?_, ?_⟩
  · exact le_trans (top _).2 cleared
  · exact lt_of_lt_of_le before (top beforeSeq).1

theorem clearedBelow_cons (foreignMax : Nat) (op : PendingOp) (ops : List PendingOp) :
    clearedBelow foreignMax (op :: ops) = max (op.hidesBelow foreignMax) (clearedBelow foreignMax ops) := by
  have general : ∀ (ops : List PendingOp) (start : Nat),
      ops.foldl (fun below op => max below (op.hidesBelow foreignMax)) start =
        max start (clearedBelow foreignMax ops) := by
    intro ops
    induction ops with
    | nil => intro start; simp [clearedBelow]
    | cons op ops ih =>
      intro start
      rw [clearedBelow, List.foldl_cons, List.foldl_cons, ih, ih]
      simp [max_assoc]
  rw [clearedBelow, List.foldl_cons, general]
  simp

variable {codec : Codec}

/-- Redacting the row and reading it is reading the row and redacting the frame. -/
theorem frameFromRow_redacted (roundTrips : codec.RoundTrips) (action : ModerationAction) (r : StoredRow) :
    (r.redacted codec action).bind (frameFromRow codec) =
      (frameFromRow codec r).map (redactFrame · action) := by
  cases parsed : codec.parse r.body with
  | obj body =>
    have someMark : deletedMark action ≠ "" := by cases action <;> decide
    simp only [StoredRow.redacted, frameFromRow, parsed, Option.bind_some,
      roundTrips _ _ action parsed, someMark, if_false, Option.map_some, Option.some.injEq]
    -- the body's own mark is under the column's, and the redaction's is over both
    split <;>
      simp (disch := decide) only [redactFrame_set_mark, ← redactFrame_set, set_mark_redactFrame]
  | _ => simp [StoredRow.redacted, frameFromRow, parsed]

theorem redacted_keeps {action : ModerationAction} {r r' : StoredRow}
    (left : r.redacted codec action = some r') : r' = { r with deleted := r'.deleted, body := r'.body } := by
  unfold StoredRow.redacted at left
  split at left <;> cases left
  rfl

/-- The later ops see the same columns on a redacted row. -/
theorem readRow_redacted (roundTrips : codec.RoundTrips) (foreignMax : Nat)
    (ops : List PendingOp) (action : ModerationAction) (r : StoredRow) :
    (r.redacted codec action).bind (readRow codec foreignMax ops) =
      if ops.any (·.purges r) then none
      else (frameFromRow codec r).map fun frame =>
        ops.foldl (PendingOp.onFrame foreignMax r) (redactFrame frame action) := by
  have framed := frameFromRow_redacted roundTrips action r
  cases left : r.redacted codec action with
  | none =>
    rw [left, Option.bind_none, eq_comm, Option.map_eq_none_iff] at framed
    simp [framed]
  | some r' =>
    have purges : PendingOp.purges r' = PendingOp.purges r := by
      rw [redacted_keeps left]; funext op; cases op <;> rfl
    have onFrame : PendingOp.onFrame foreignMax r' = PendingOp.onFrame foreignMax r := by
      rw [redacted_keeps left]; funext frame op; cases op <;> rfl
    rw [left, Option.bind_some] at framed
    rw [Option.bind_some, readRow, framed, purges, onFrame, Option.map_map]
    rfl

theorem view_redacted (codec : Codec) (foreignMax : Nat) (ops : List PendingOp) (beforeSeq : Nat)
    (filter : Filter) (action : ModerationAction) (r : StoredRow) :
    (r.redacted codec action).bind (view codec foreignMax ops beforeSeq filter) =
      if r.seq < sqlSeq beforeSeq ∧ sqlSeq (clearedBelow foreignMax ops) ≤ r.seq ∧ filter.selects r then
        (r.redacted codec action).bind (readRow codec foreignMax ops)
      else none := by
  cases left : r.redacted codec action with
  | none => simp
  | some r' =>
    have seq : r'.seq = r.seq := by rw [redacted_keeps left]
    have selects : filter.selects r' = filter.selects r := by
      rw [redacted_keeps left]; cases filter <;> rfl
    simp only [Option.bind_some, view, seq, selects]

/-- One pending op at the head of the queue: written first, or looked through. -/
theorem view_cons (roundTrips : codec.RoundTrips) (launchId : String) (foreignMax : Nat)
    (op : PendingOp) (ops : List PendingOp) (beforeSeq : Nat) (filter : Filter) (fits : r.Fits) :
    view codec foreignMax (op :: ops) beforeSeq filter r =
      (op.revises ⟨codec, launchId, foreignMax⟩ r).bind (view codec foreignMax ops beforeSeq filter) := by
  cases op with
  | clear belowSeq =>
    have hidden : sqlSeq (clearedBelow foreignMax (.clear belowSeq :: ops)) ≤ r.seq ↔
        sqlSeq (reachBelow foreignMax belowSeq) ≤ r.seq ∧ sqlSeq (clearedBelow foreignMax ops) ≤ r.seq := by
      rw [clearedBelow_cons, sqlSeq_max, max_le_iff]
      rfl
    have same : readRow codec foreignMax (.clear belowSeq :: ops) r = readRow codec foreignMax ops r := by
      simp [readRow, PendingOp.purges, PendingOp.onFrame]
    by_cases cleared : r.seq < sqlSeq (reachBelow foreignMax belowSeq)
    · simp [view, hidden, PendingOp.revises, cleared]
    · simp [view, hidden, PendingOp.revises, cleared, same, not_lt.mp cleared]
  | purge accountId =>
    have hidden : clearedBelow foreignMax (.purge accountId :: ops) = clearedBelow foreignMax ops := by
      simp [clearedBelow_cons, PendingOp.hidesBelow]
    by_cases purged : r.accountId = accountId
    · simp [view, readRow, PendingOp.revises, PendingOp.purges, purged]
    · simp [view, readRow, PendingOp.revises, PendingOp.purges, PendingOp.onFrame, hidden, purged, Ne.symm purged]
  | redact ρ =>
    have hidden : clearedBelow foreignMax (.redact ρ :: ops) = clearedBelow foreignMax ops := by
      simp [clearedBelow_cons, PendingOp.hidesBelow]
    have chosen := matchesRow_eq_selects ρ foreignMax fits
    by_cases selected : (!ρ.namesNothing && ρ.selects foreignMax r) = true
    · have revised : ρ.revises ⟨codec, launchId, foreignMax⟩ {} r = r.redacted codec ρ.action := by
        simp_all [Redaction.revises]
      simp [view, readRow, hidden, PendingOp.revises, revised, view_redacted, readRow_redacted roundTrips,
        PendingOp.purges, PendingOp.onFrame, chosen, selected]
    · have revised : ρ.revises ⟨codec, launchId, foreignMax⟩ {} r = some r := by
        simp_all [Redaction.revises]
      simp [view, readRow, hidden, PendingOp.revises, revised, PendingOp.purges, PendingOp.onFrame, chosen,
        selected]

theorem view_eq_reviseAll (roundTrips : codec.RoundTrips) (launchId : String)
    (foreignMax : Nat) (pending : List PendingOp) (beforeSeq : Nat) (filter : Filter) (r : StoredRow) :
    view codec foreignMax pending beforeSeq filter r =
      (reviseAll ⟨codec, launchId, foreignMax⟩ pending r).bind (view codec foreignMax [] beforeSeq filter) := by
  induction pending generalizing r with
  | nil => rfl
  | cons op ops ih =>
    have step : view codec foreignMax (op :: ops) beforeSeq filter r =
        (op.revises ⟨codec, launchId, foreignMax⟩ r).bind (view codec foreignMax ops beforeSeq filter) := by
      by_cases fits : r.Fits
      · exact view_cons roundTrips launchId foreignMax op ops beforeSeq filter fits
      · rw [view_eq_none_of_not_fits _ _ _ _ _ fits, eq_comm, Option.bind_eq_none_iff]
        intro r' kept
        exact view_eq_none_of_not_fits _ _ _ _ _ (by rwa [StoredRow.Fits, revises_seq kept])
    rw [step, reviseAll, Option.bind_assoc]
    exact congrArg _ (funext ih)

/-- Reading through the pending ops is reading after they are written, whatever the store
holds; and on every row a read can return, the two forms of a redaction agree. -/
theorem readOlder_through_pending (codec : Codec) (roundTrips : codec.RoundTrips) (launchId : String)
    (foreignMax : Nat) (t : Table) (pending : List PendingOp) (beforeSeq limit : Nat) (filter : Filter) :
    t.readOlder codec foreignMax pending beforeSeq limit filter =
        (Writing.tryCommit ⟨codec, launchId, foreignMax⟩ {} (pending.map PendingOp.op) t).1.readOlder
          codec foreignMax [] beforeSeq limit filter ∧
      ∀ (ρ : Redaction) (r : StoredRow), 0 ≤ r.seq → r.seq < kInt64Max →
        { ρ with belowSeq := reachBelow foreignMax ρ.belowSeq }.matchesRow
            r.dest (asUint64 r.seq) r.ts r.msgId r.authorId =
          (!ρ.namesNothing && ρ.selects foreignMax r) := by
  refine ⟨?_, fun ρ r low high => matchesRow_eq_selects ρ foreignMax ⟨low, high⟩⟩
  rw [readOlder_eq_view, readOlder_eq_view, tryCommit_rows, ← List.filterMap_reverse, List.filterMap_filterMap]
  congr 1
  refine List.filterMap_congr fun r _ => ?_
  exact view_eq_reviseAll roundTrips launchId foreignMax pending beforeSeq filter r

/-! ### A store of two messages -/

def greeting : Fields := [("fragments", .arr [.str "hi"]), ("id", .str "m")]

/-- The bodies of one message, as it was said and as each action leaves it. -/
def greetingBodies : List (String × Json) :=
  [("\x7b\"fragments\":[\"hi\"],\"id\":\"m\"\x7d", .obj greeting),
   ("\x7b\"deleted\":\"message\",\"fragments\":[],\"id\":\"m\"\x7d", .obj (redactFrame greeting .delete)),
   ("\x7b\"deleted\":\"user\",\"fragments\":[],\"id\":\"m\"\x7d", .obj (redactFrame greeting .clearUser)),
   ("\x7b\"deleted\":\"all\",\"fragments\":[],\"id\":\"m\"\x7d", .obj (redactFrame greeting .clearAll))]

/-- A codec that knows these bodies and takes any other text for garbage. -/
def greetingCodec : Codec where
  parse text := (greetingBodies.lookup text).getD .null
  dump value := ((greetingBodies.find? fun body => body.2 = value).map (·.1)).getD ""

theorem greetingCodec_roundTrips : greetingCodec.RoundTrips := by
  have known : ∀ body ∈ greetingBodies, ∀ action : ModerationAction, ∀ frame, body.2 = .obj frame →
      greetingCodec.parse (greetingCodec.dump (.obj (redactFrame frame action))) =
        .obj (redactFrame frame action) := by
    intro body member action frame same
    simp only [greetingBodies, List.mem_cons, List.not_mem_nil, or_false] at member
    rcases member with rfl | rfl | rfl | rfl <;> cases same <;> cases action <;> decide
  intro text frame action parsed
  simp only [greetingCodec] at parsed
  cases found : greetingBodies.lookup text with
  | none => simp [found] at parsed
  | some value =>
    rw [found, Option.getD_some] at parsed
    obtain ⟨before, after, same, _⟩ := List.lookup_eq_some_iff.mp found
    exact known (text, value) (by rw [same]; simp) action frame parsed

def greetingRow (seq : Int) (dest : String) : StoredRow :=
  { seq, dest, msgId := "m", platform := "twitch", accountId := "twitch:1", profileUuid := "", authorId := "u",
    ts := 0, rx := 0, launchId := "earlier", deleted := "",
    body := "\x7b\"fragments\":[\"hi\"],\"id\":\"m\"\x7d" }

def greetingTable : Table := ⟨[greetingRow 7 "twitch:1", greetingRow 8 "kick:2"], by decide⟩

def wholeChat (belowSeq : Nat) : Redaction :=
  { dest := "twitch:1", action := .clearAll, msgId := "", authorId := "", belowSeq, beforeTs := none }

theorem readOlder_through_pending_greetings :
    greetingTable.readOlder greetingCodec 0 [.redact (wholeChat 9), .clear 3] 10 5 .all =
      (Writing.tryCommit ⟨greetingCodec, "now", 0⟩ {} [.redact (wholeChat 9), .clear 3 none]
        greetingTable).1.readOlder greetingCodec 0 [] 10 5 .all :=
  (readOlder_through_pending greetingCodec greetingCodec_roundTrips "now" 0 greetingTable
    [.redact (wholeChat 9), .clear 3] 10 5 .all).1

/-- At the ends of `int64_t` the two forms of a redaction part: the cast takes a negative
seq past every bound, and the query's bound is clamped to the largest seq. -/
theorem redaction_forms_part :
    ((wholeChat 9).matchesRow "twitch:1" (asUint64 (-1)) 0 "m" "u" = false ∧
      (wholeChat 9).selects 0 (greetingRow (-1) "twitch:1") = true) ∧
    ((wholeChat (2 ^ 63)).matchesRow "twitch:1" (asUint64 kInt64Max) 0 "m" "u" = true ∧
      (wholeChat (2 ^ 63)).selects 0 (greetingRow kInt64Max "twitch:1") = false) := by
  decide

end Braidcast.Chat
