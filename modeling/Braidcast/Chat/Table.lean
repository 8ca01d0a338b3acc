import Mathlib.Algebra.Group.Int.Defs
import Braidcast.Chat.Moderation

/-!
# The stored messages

`chat.db`'s one table, the statements the writer runs on it and the query a reader runs.
A transaction is atomic here: what `TryCommit` does before a failure is rolled back, so
only its success is a function of the table.
-/
namespace Braidcast.Chat

open Lib

/-- How bodies are read and written: `JsonUtil::ParseJson`, which answers a value that is
not an object on garbage, and `dump`. -/
structure Codec where
  parse : String → Json
  dump : Json → String

inductive Retention where
  | off
  | session
  | sevenDays
  deriving DecidableEq

structure Options where
  launchId : String
  moderatedPlatforms : List String

/-! ### Seqs as the store keeps them -/

def kInt64Max : Nat := 2 ^ 63 - 1

/-- A `uint64_t` bound as SQLite compares it: clamped, never wrapped. -/
def sqlSeq (seq : Nat) : Int := if kInt64Max < seq then kInt64Max else seq

/-- A stored seq read back through `static_cast<uint64_t>`. -/
def asUint64 (seq : Int) : Nat := (seq % 2 ^ 64).toNat

def reachBelow (foreignMax belowSeq : Nat) : Nat :=
  if 0 < foreignMax then max belowSeq ((foreignMax + 1) % 2 ^ 64) else belowSeq

/-! ### Rows -/

/-- A row on its way to the store. -/
structure Row where
  seq : Nat
  rx : Int
  ts : Int
  dest : String
  msgId : String
  platform : String
  accountId : String
  profileUuid : String
  authorId : String
  body : String
  deriving DecidableEq

structure StoredRow where
  seq : Int
  dest : String
  msgId : String
  platform : String
  accountId : String
  profileUuid : String
  authorId : String
  ts : Int
  rx : Int
  launchId : String
  deleted : String
  body : String
  deriving DecidableEq

def StoredRow.sameKey (a b : StoredRow) : Prop := a.dest = b.dest ∧ a.msgId = b.msgId

instance (a b : StoredRow) : Decidable (a.sameKey b) := inferInstanceAs (Decidable (_ ∧ _))

/-- What `insert_` writes for a row. -/
def Row.stored (row : Row) (launchId : String) : StoredRow :=
  { seq := sqlSeq row.seq, dest := row.dest, msgId := row.msgId, platform := row.platform,
    accountId := row.accountId, profileUuid := row.profileUuid, authorId := row.authorId, ts := row.ts,
    rx := row.rx, launchId, deleted := "", body := row.body }

/-- The table in key order: `seq` is its primary key and (dest, msg_id) is unique. -/
structure Table where
  rows : List StoredRow
  ordered : rows.Pairwise (fun a b => a.seq < b.seq ∧ ¬ a.sameKey b)

namespace Table

def empty : Table := ⟨[], .nil⟩

/-- Rewrite or drop each row on its own. What identifies a row stays as it is. -/
def revise (t : Table) (f : StoredRow → Option StoredRow)
    (keeps : ∀ r r', f r = some r' → r'.seq = r.seq ∧ r'.dest = r.dest ∧ r'.msgId = r.msgId) : Table where
  rows := t.rows.filterMap f
  ordered := by
    refine t.ordered.filterMap f ?_
    intro a b apart a' ha b' hb
    obtain ⟨seqA, destA, idA⟩ := keeps a a' ha
    obtain ⟨seqB, destB, idB⟩ := keeps b b' hb
    simpa only [StoredRow.sameKey, seqA, destA, idA, seqB, destB, idB] using apart

/-- `DELETE FROM messages WHERE` the condition. -/
def delete (t : Table) (condition : StoredRow → Bool) : Table :=
  t.revise (fun r => if condition r then none else some r) (by
    intro r r' kept
    split at kept
    · cases kept
    · cases kept; simp)

/-- Put a row at its place in the order. -/
def place (row : StoredRow) : List StoredRow → List StoredRow
  | [] => [row]
  | r :: rest => if row.seq < r.seq then row :: r :: rest else r :: place row rest

theorem mem_place {row r : StoredRow} {rows : List StoredRow} :
    r ∈ place row rows ↔ r = row ∨ r ∈ rows := by
  induction rows with
  | nil => simp [place]
  | cons first rest ih =>
    unfold place
    split <;> grind

theorem place_ordered {row : StoredRow} {rows : List StoredRow}
    (ordered : rows.Pairwise (fun a b => a.seq < b.seq ∧ ¬ a.sameKey b))
    (free : ∀ r ∈ rows, r.seq ≠ row.seq ∧ ¬ r.sameKey row) :
    (place row rows).Pairwise (fun a b => a.seq < b.seq ∧ ¬ a.sameKey b) := by
  induction rows with
  | nil => simp [place]
  | cons first rest ih =>
    obtain ⟨after, ordered⟩ := List.pairwise_cons.mp ordered
    have firstFree := free first List.mem_cons_self
    unfold place
    split
    next before =>
      refine List.pairwise_cons.mpr ⟨fun r member => ?_, List.pairwise_cons.mpr ⟨after, ordered⟩⟩
      have apart : ¬ row.sameKey r := fun same => (free r member).2 ⟨same.1.symm, same.2.symm⟩
      rcases List.mem_cons.mp member with rfl | later
      · exact ⟨before, apart⟩
      · exact ⟨lt_trans before (after r later).1, apart⟩
    next behind =>
      refine List.pairwise_cons.mpr ⟨fun r member => ?_, ih ordered fun r member => free r (by simp [member])⟩
      rcases mem_place.mp member with rfl | later
      · exact ⟨lt_of_le_of_ne (not_lt.mp behind) firstFree.1, firstFree.2⟩
      · exact after r later

/-- `INSERT OR IGNORE`: a row whose seq or key is taken is not written. -/
def insert (t : Table) (row : StoredRow) : Table :=
  if free : ∀ r ∈ t.rows, r.seq ≠ row.seq ∧ ¬ r.sameKey row then
    ⟨place row t.rows, place_ordered t.ordered free⟩
  else t

theorem mem_delete {t : Table} {condition : StoredRow → Bool} {r : StoredRow} :
    r ∈ (t.delete condition).rows ↔ r ∈ t.rows ∧ condition r = false := by
  simp only [delete, revise, List.mem_filterMap]
  grind

theorem mem_insert {t : Table} {row r : StoredRow} (member : r ∈ (t.insert row).rows) :
    r = row ∨ r ∈ t.rows := by
  unfold insert at member
  split at member
  · exact mem_place.mp member
  · exact .inr member

end Table

/-- A chat.db as a launch finds it: every seq in it was issued by a ring, clamped as a
launch writes it. -/
structure Found extends Table where
  issued : ∀ r ∈ rows, 0 ≤ r.seq ∧ r.seq ≤ kInt64Max

def Found.empty : Found := ⟨Table.empty, by simp [Table.empty]⟩

/-! ### The writer's op log -/

inductive Op where
  | row (row : Row)
  | redact (redaction : Redaction)
  /-- `receivedBy` is set on a Clear replayed on a store opened after it. -/
  | clear (belowSeq : Nat) (receivedBy : Option Int)
  | purge (accountId : String)
  | setMode (retention : Retention)
  deriving DecidableEq

/-- What a reader applies to the rows it reads while the writer has not. -/
inductive PendingOp where
  | redact (redaction : Redaction)
  | purge (accountId : String)
  | clear (belowSeq : Nat)

def PendingOp.op : PendingOp → Op
  | .redact ρ => .redact ρ
  | .purge accountId => .purge accountId
  | .clear belowSeq => .clear belowSeq none

/-! ### `TryCommit` -/

/-- What the writer knows while it commits. -/
structure Writing where
  codec : Codec
  launchId : String
  foreignMax : Nat

/-- The rows of a committed batch that failed on their own and were skipped (`rowFailed`):
by seq, those that could not be stored and those that could not be redacted. -/
structure Unfit where
  stored : List Nat := []
  redacted : List Int := []

/-- The guard before the query: an op naming no message or no author removes nothing. -/
def Redaction.namesNothing (ρ : Redaction) : Bool :=
  (ρ.action == .delete && ρ.msgId == "") || (ρ.action == .clearUser && ρ.authorId == "")

/-- `SELECT seq, body FROM messages WHERE dest = ?1 AND seq < ?2` and the conditions the
action and the time bound add. -/
def Redaction.selects (ρ : Redaction) (foreignMax : Nat) (r : StoredRow) : Bool :=
  r.dest == ρ.dest && decide (r.seq < sqlSeq (reachBelow foreignMax ρ.belowSeq)) &&
    (match ρ.action with
      | .delete => r.msgId == ρ.msgId
      | .clearUser => r.authorId == ρ.authorId
      | .clearAll => true) &&
    (match ρ.beforeTs with
      | some bound => decide (0 < r.ts) && decide (r.ts ≤ bound)
      | none => true)

/-- One selected row: its body rewritten, or the row deleted when the body is no object. -/
def StoredRow.redacted (codec : Codec) (action : ModerationAction) (r : StoredRow) : Option StoredRow :=
  match codec.parse r.body with
  | .obj frame =>
    some { r with deleted := deletedMark action, body := codec.dump (.obj (redactFrame frame action)) }
  | _ => none

/-- What a redaction leaves of a row. -/
def Redaction.revises (ρ : Redaction) (c : Writing) (unfit : Unfit) (r : StoredRow) : Option StoredRow :=
  if ρ.namesNothing || !ρ.selects c.foreignMax r || r.seq ∈ unfit.redacted then some r
  else r.redacted c.codec ρ.action

theorem Redaction.revises_keeps {ρ : Redaction} {c : Writing} {unfit : Unfit} {r r' : StoredRow}
    (kept : ρ.revises c unfit r = some r') :
    r' = { r with deleted := r'.deleted, body := r'.body } := by
  unfold Redaction.revises StoredRow.redacted at kept
  split at kept
  · cases kept; rfl
  · split at kept
    · cases kept; rfl
    · cases kept

def Table.redact (t : Table) (c : Writing) (unfit : Unfit) (ρ : Redaction) : Table :=
  t.revise (ρ.revises c unfit) (by
    intro r r' kept
    have same := Redaction.revises_keeps kept
    grind)

/-- One op of the batch, with the newest seq settled so far. -/
def Writing.apply (c : Writing) (unfit : Unfit) (p : Table × Nat) : Op → Table × Nat
  | .row row =>
    if row.seq ≤ c.foreignMax then (p.1, max p.2 row.seq)
    else if row.seq ∈ unfit.stored then (p.1, max p.2 row.seq)
    else (p.1.insert (row.stored c.launchId), max p.2 row.seq)
  | .redact ρ => (p.1.redact c unfit ρ, p.2)
  | .clear _ (some receivedBy) => (p.1.delete fun r => decide (r.rx ≤ receivedBy), p.2)
  | .clear belowSeq none =>
    (p.1.delete fun r => decide (r.seq < sqlSeq (reachBelow c.foreignMax belowSeq)), p.2)
  | .purge accountId => (p.1.delete fun r => r.accountId == accountId, p.2)
  | .setMode _ => p

/-- A `TryCommit` that succeeds: the table it commits and the newest seq it settled. -/
def Writing.tryCommit (c : Writing) (unfit : Unfit) (ops : List Op) (t : Table) : Table × Nat :=
  ops.foldl (c.apply unfit) (t, 0)

/-! ### `ReadOlder` -/

/-- Where one pending op hides the stored rows from below: a Clear's bound. -/
def PendingOp.hidesBelow (foreignMax : Nat) : PendingOp → Nat
  | .clear belowSeq => reachBelow foreignMax belowSeq
  | _ => 0

def clearedBelow (foreignMax : Nat) (pending : List PendingOp) : Nat :=
  pending.foldl (fun below op => max below (op.hidesBelow foreignMax)) 0

/-- The platform or destination condition of the query. -/
def Filter.selects (filter : Filter) (r : StoredRow) : Bool :=
  match filter with
  | .all => true
  | .platform wanted => r.platform == wanted
  | .destination profile account =>
    r.profileUuid == profile || (r.profileUuid == "" && r.accountId == account)

def frameFromRow (codec : Codec) (r : StoredRow) : Option Fields :=
  match codec.parse r.body with
  | .obj body =>
    let frame := Fields.set "rx" (.num r.rx) (Fields.set "seq" (.num (asUint64 r.seq)) body)
    some (if r.deleted = "" then frame else Fields.set "deleted" (.str r.deleted) frame)
  | _ => none

/-- A frame read from a row, with a pending redaction applied to it. -/
def PendingOp.onFrame (foreignMax : Nat) (r : StoredRow) (frame : Fields) : PendingOp → Fields
  | .redact ρ =>
    if { ρ with belowSeq := reachBelow foreignMax ρ.belowSeq }.matchesRow
        r.dest (asUint64 r.seq) r.ts r.msgId r.authorId then
      redactFrame frame ρ.action
    else frame
  | _ => frame

def PendingOp.purges (r : StoredRow) : PendingOp → Bool
  | .purge accountId => accountId == r.accountId
  | _ => false

/-- One row of the scan: skipped, or the frame it is returned as. -/
def readRow (codec : Codec) (foreignMax : Nat) (pending : List PendingOp) (r : StoredRow) : Option Fields :=
  if pending.any (·.purges r) then none
  else (frameFromRow codec r).map fun frame => pending.foldl (PendingOp.onFrame foreignMax r) frame

/-- `ReadOlder` on an open store: newest first, until `limit` rows survive. -/
def Table.readOlder (t : Table) (codec : Codec) (foreignMax : Nat) (pending : List PendingOp)
    (beforeSeq limit : Nat) (filter : Filter) : List Fields :=
  let selected := t.rows.reverse.filter fun r =>
    decide (r.seq < sqlSeq beforeSeq) && decide (sqlSeq (clearedBelow foreignMax pending) ≤ r.seq) &&
      filter.selects r
  (selected.filterMap (readRow codec foreignMax pending)).take limit

/-! ### The retention sweep -/

def kRetentionMs : Int := 7 * 24 * 60 * 60 * 1000
def kMaxRows : Nat := 10000

/-- `SELECT seq FROM messages ORDER BY seq DESC LIMIT 1 OFFSET kMaxRows - 1`. -/
def Table.oldestKept (t : Table) : Option Int := (t.rows.reverse[kMaxRows - 1]?).map (·.seq)

def Table.sweep (t : Table) (options : Options) (retention : Retention) (sessionKeepsThrough : Nat)
    (now : Int) : Table :=
  let t := t.delete fun r => decide (r.rx < now - kRetentionMs)
  let t := t.delete fun r =>
    r.launchId != options.launchId && decide (r.platform ∉ options.moderatedPlatforms)
  let t := if retention = .session then
      t.delete fun r => r.launchId != options.launchId && decide (sqlSeq sessionKeepsThrough < r.seq)
    else t
  match t.oldestKept with
  | some oldest => t.delete fun r => decide (r.seq < oldest)
  | none => t

theorem Table.mem_of_mem_sweep {t : Table} {options : Options} {retention : Retention}
    {sessionKeepsThrough : Nat} {now : Int} {r : StoredRow}
    (member : r ∈ (t.sweep options retention sessionKeepsThrough now).rows) : r ∈ t.rows := by
  unfold Table.sweep at member
  simp only at member
  split at member <;> split at member <;> simp only [mem_delete] at member <;> grind

end Braidcast.Chat
