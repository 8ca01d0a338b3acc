import Braidcast.Chat.Steps

/-!
# What retention leaves to serve

The sweep of the store and the two places it runs before rows are served: `Open`, which seeds
the ring whether or not the sweep committed, and `AdoptStore`, which publishes its reader only
after a sweep that did.
-/
namespace Braidcast.Chat

open Lib

section

variable (options : Options) (retention : Retention) (keepsThrough : Nat) (now : Int)

/-- The limits on a row by itself. Of an earlier launch's rows This session keeps those a late
open was told to, the ones up to `keepsThrough`; a ring issues its seqs from one. -/
structure Retained (r : StoredRow) : Prop where
  recent : now - kRetentionMs ≤ r.rx
  honored : r.launchId = options.launchId ∨ r.platform ∈ options.moderatedPlatforms
  session : retention = .session → r.launchId = options.launchId ∨ r.seq ≤ sqlSeq keepsThrough

theorem retained_iff {r : StoredRow} : Retained options retention keepsThrough now r ↔
    now - kRetentionMs ≤ r.rx ∧ (r.launchId = options.launchId ∨ r.platform ∈ options.moderatedPlatforms) ∧
      (retention = .session → r.launchId = options.launchId ∨ r.seq ≤ sqlSeq keepsThrough) :=
  ⟨fun ⟨recent, honored, session⟩ => ⟨recent, honored, session⟩,
    fun ⟨recent, honored, session⟩ => ⟨recent, honored, session⟩⟩

instance (r : StoredRow) : Decidable (Retained options retention keepsThrough now r) :=
  decidable_of_iff' _ (retained_iff options retention keepsThrough now)

/-- Within every limit: and among the newest `kMaxRows` of what the others leave of the store. -/
structure Kept (t : Table) (r : StoredRow) : Prop extends Retained options retention keepsThrough now r where
  newest : (t.rows.filter fun x =>
    decide (Retained options retention keepsThrough now x) && decide (r.seq ≤ x.seq)).length ≤ kMaxRows

end

variable {env : Env} {options : Options} {retention : Retention} {keepsThrough : Nat} {now : Int} {t : Table}
  {r : StoredRow}

/-! ### The sweep -/

theorem Table.rows_delete (t : Table) (condition : StoredRow → Bool) :
    (t.delete condition).rows = t.rows.filter fun r => !condition r := by
  simp only [delete, revise]
  induction t.rows with
  | nil => rfl
  | cons r rest ih =>
    cases dropped : condition r <;> simp [dropped, ih]

/-- The first three deletes leave the rows within the limits. -/
theorem Table.sweep_eq (t : Table) (options : Options) (retention : Retention) (keepsThrough : Nat) (now : Int) :
    ∃ limited : Table,
    limited.rows = t.rows.filter (fun r => decide (Retained options retention keepsThrough now r)) ∧
    t.sweep options retention keepsThrough now =
      match limited.oldestKept with
      | some oldest => limited.delete fun r => decide (r.seq < oldest)
      | none => limited := by
  refine ⟨_, ?_, rfl⟩
  split
  next session =>
    simp only [rows_delete, List.filter_filter]
    refine List.filter_congr fun r _ => ?_
    rw [Bool.eq_iff_iff]
    simp [retained_iff, session]
    tauto
  next keeping =>
    simp only [rows_delete, List.filter_filter]
    refine List.filter_congr fun r _ => ?_
    rw [Bool.eq_iff_iff]
    simp [retained_iff, keeping]
    tauto

/-- A row that is not older than the last one the limit keeps is among the newest. -/
theorem Table.newest_of_oldestKept (t : Table) (notOlder : ∀ oldest, t.oldestKept = some oldest → oldest ≤ r.seq) :
    (t.rows.filter fun x => decide (r.seq ≤ x.seq)).length ≤ kMaxRows := by
  rw [← List.length_reverse, ← List.filter_reverse]
  have descending : t.rows.reverse.Pairwise fun a b => b.seq < a.seq :=
    List.pairwise_reverse.mpr (t.ordered.imp And.left)
  -- the last row the limit keeps, where there are that many
  cases found : t.rows.reverse[kMaxRows - 1]? with
  | none =>
    have few := List.getElem?_eq_none_iff.mp found
    have shorter := List.length_filter_le (fun x : StoredRow => decide (r.seq ≤ x.seq)) t.rows.reverse
    unfold kMaxRows at few ⊢
    omega
  | some last =>
    have bound := notOlder last.seq (by simp [oldestKept, found])
    -- whatever stands behind it is older
    have older : (t.rows.reverse.drop kMaxRows).filter (fun x => decide (r.seq ≤ x.seq)) = [] := by
      rw [List.filter_eq_nil_iff]
      intro x member
      obtain ⟨i, place, rfl⟩ := List.mem_iff_getElem.mp member
      obtain ⟨inside, here⟩ := List.getElem?_eq_some_iff.mp found
      rw [List.length_drop] at place
      have before := List.pairwise_iff_getElem.mp descending (kMaxRows - 1) (kMaxRows + i) inside (by omega)
        (by unfold kMaxRows; omega)
      rw [here] at before
      rw [List.getElem_drop, decide_eq_true_eq]
      omega
    rw [← List.take_append_drop kMaxRows t.rows.reverse, List.filter_append, older, List.append_nil]
    exact (List.length_filter_le _ _).trans (List.length_take_le _ _)

/-- A row a sweep leaves is within every limit. -/
theorem Table.kept_of_mem_sweep (member : r ∈ (t.sweep options retention keepsThrough now).rows) :
    Kept options retention keepsThrough now t r := by
  obtain ⟨limited, rows, swept⟩ := t.sweep_eq options retention keepsThrough now
  rw [swept] at member
  have inside : r ∈ limited.rows ∧ ∀ oldest, limited.oldestKept = some oldest → oldest ≤ r.seq := by
    split at member
    next oldest here =>
      rw [mem_delete, decide_eq_false_iff_not, not_lt] at member
      exact ⟨member.1, fun last same => by rw [here] at same; cases same; exact member.2⟩
    next none => exact ⟨member, fun last same => by rw [none] at same; cases same⟩
  have newest := limited.newest_of_oldestKept inside.2
  rw [rows, List.filter_filter] at newest
  have retained := inside.1
  rw [rows, List.mem_filter, decide_eq_true_eq] at retained
  refine ⟨retained.2, ?_⟩
  simpa only [Bool.and_comm] using newest

/-! ### Where it runs -/

/-- The rows `BuildSeed` hands to the ring. -/
def Table.seedRows (codec : Codec) (t : Table) : List StoredRow :=
  (t.rows.reverse.take kCap).filter fun r => (frameFromRow codec r).isSome

/-- The store as `Open` reads it: `swept` is when its sweep committed. A sweep that failed is
rolled back. -/
def Table.opened (t : Table) (options : Options) (retention : Retention) (swept : Option Int) : Table :=
  match swept with
  | some now => t.sweep options retention 0 now
  | none => t

/-- Every row `Open` seeds is within the limits of the moment. -/
def SeedsKept (env : Env) (retention : Retention) (t : Table) (now : Int) (committed : Bool) : Prop :=
  ∀ r ∈ (t.opened env.options retention (if committed then some now else none)).seedRows env.codec,
    Kept env.options retention 0 now t r

/-- Whenever `AdoptStore` returns true, what its reader sees is within them. -/
def AdoptionsKept (env : Env) : Prop :=
  ∀ (b : Boot) (ms : List (Moment World Event)) (w : World), Run (Step env) (boot env b) ms w →
    ∀ m ∈ ms, ∀ now, m.input = .publish now → ∀ visible, m.after.db = some visible →
      ∃ t, m.before.db = some t ∧
        ∀ r ∈ visible.rows, Kept env.options m.after.retention m.after.sessionKeepsThrough now t r

theorem adoptionsKept (env : Env) : AdoptionsKept env := by
  intro b ms w run m member now published visible seen
  have step := run.step_of_mem member
  rw [published] at step
  obtain ⟨rest, -, after⟩ := World.publish_inv step
  rw [after] at seen ⊢
  obtain ⟨t, held, rfl⟩ := Option.map_eq_some_iff.mp seen
  exact ⟨t, held, fun r inside => t.kept_of_mem_sweep inside⟩

/-- What is served is within the limits exactly where the sweep before the seed commits, or
the rows seeded without it were within them already. -/
theorem served_within_retention_iff (env : Env) (retention : Retention) (t : Table) (now : Int) (committed : Bool) :
    SeedsKept env retention t now committed ∧ AdoptionsKept env ↔
      committed = true ∨ ∀ r ∈ t.seedRows env.codec, Kept env.options retention 0 now t r := by
  rw [and_iff_left (adoptionsKept env)]
  cases committed with
  | true =>
    refine iff_of_true (fun r seeded => ?_) (.inl rfl)
    have inside := List.mem_reverse.mp (List.mem_of_mem_take (List.mem_of_mem_filter seeded))
    exact t.kept_of_mem_sweep inside
  | false => simp [SeedsKept, Table.opened]

/-- An earlier launch's message of the epoch, on a platform whose moderation is not honored. -/
def ancientRow : StoredRow :=
  { seq := 1, dest := "d", msgId := "m", platform := "kick", accountId := "a", profileUuid := "p", authorId := "u"
    ts := 0, rx := 0, launchId := "earlier", deleted := "", body := "body" }

def ancientTable : Table := ⟨[ancientRow], by simp⟩

/-- The sweep fails and a row years past retention is seeded. -/
theorem ancient_row_seeded :
    ¬ SeedsKept ⟨⟨fun _ => .obj [], fun _ => ""⟩, ⟨"launch", ["twitch", "youtube"]⟩⟩ .sevenDays ancientTable
      (2 * kRetentionMs) false := by
  intro kept
  have limits := kept ancientRow (by decide)
  exact absurd limits.recent (by decide)

end Braidcast.Chat
