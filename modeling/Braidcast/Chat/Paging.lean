import Braidcast.Chat.ReadThrough
import Braidcast.Chat.Ring
import Braidcast.Lib.Cursor

/-!
# Paging back through the chat

A dock asks for the newest page and then, from the oldest seq it received, for the one before
it. With nothing queued the pages are cut from one list: the ring's messages, then the stored
rows below them.
-/
namespace Braidcast.Chat

open Lib

/-- The seq a dock reads off a frame. -/
def Item.seq (item : Item) : Nat :=
  match item.frame.get? "seq" with
  | some (.num n) => n.toNat
  | _ => 0

/-- The destination and message id a message is known by. -/
def Item.name (item : Item) : String × String :=
  match item.source with
  | .ring held => (held.dest, str held.frame "id")
  | .disk r => (r.dest, r.msgId)

def Item.fromRing (item : Item) : Bool :=
  match item.source with
  | .ring _ => true
  | .disk _ => false

namespace World

/-- The queue is empty, the writer has nothing in hand and readers look through nothing. -/
structure Drained (w : World) : Prop where
  ops : w.ops = []
  writer : w.writer = .idle
  pending : w.pending = []

section

variable (env : Env) (w : World) (filter : Filter)

/-- The held messages the filter matches, newest first. -/
def ringMatching : List Item :=
  (w.messages.reverse.filter fun held =>
    filter.matchesItem (str held.frame "platform") (str held.frame "profileUuid") (str held.frame "accountId")).map
      fun held => ⟨.ring held, held.shown⟩

/-- The stored rows it selects below everything the ring holds, those that parse. -/
def storedMatching : List Item :=
  match w.db with
  | some t =>
    (t.rows.reverse.filter fun r => decide (r.seq < sqlSeq w.ringOldest) && filter.selects r).filterMap fun r =>
      (frameFromRow env.codec r).map fun frame => ⟨.disk r, frame⟩
  | none => []

/-- All there is to page through. The store is read only while the archive is readable. -/
def pageable : List Item := w.ringMatching filter ++ if w.readable then w.storedMatching env filter else []

/-- What a dock receives for one request, newest first, and whether there is more. -/
def ask (limit : Nat) (before : Option Nat) : List Item × Bool :=
  ((page env w w w w ⟨before, limit, filter⟩).items.reverse, (page env w w w w ⟨before, limit, filter⟩).more)

end

variable {env : Env} {w : World} {filter : Filter}

/-! ### Seqs -/

theorem seq_shown {held : Held} (stamped : held.frame.get? "seq" = some (.num held.seq)) :
    Item.seq ⟨.ring held, held.shown⟩ = held.seq := by
  have kept : held.shown.get? "seq" = some (.num held.seq) := by
    simp only [Held.shown]
    split <;> split <;> simp (disch := decide) only [Fields.get?_set_of_ne, stamped]
  simp [Item.seq, kept]

theorem seq_disk {codec : Codec} {r : StoredRow} {frame : Fields} (framed : frameFromRow codec r = some frame) :
    Item.seq ⟨.disk r, frame⟩ = asUint64 r.seq := by
  simp [Item.seq, seq_frameFromRow framed]

theorem Ring.oldest_le (ring : w.Ring) {held : Held} (member : held ∈ w.messages) : w.ringOldest ≤ held.seq := by
  simp only [ringOldest]
  cases shape : w.messages with
  | nil => simp [shape] at member
  | cons front rest =>
    have ascending := ring.ascending
    rw [shape] at ascending member
    rcases List.mem_cons.mp member with rfl | later
    · exact le_rfl
    · exact ((List.pairwise_cons.mp ascending).1 held later).le

/-- A row the store is read for, below the ring. -/
theorem Shelf.fits (shelf : w.Shelf) {t : Table} (open_ : w.db = some t) {r : StoredRow} (member : r ∈ t.rows)
    {bound : Nat} (below : r.seq < sqlSeq bound) : r.Fits := by
  refine ⟨shelf.natural t open_ r member, lt_of_lt_of_le below ?_⟩
  simp only [sqlSeq]
  split <;> omega

theorem ringMatching_descending (ring : w.Ring) : (w.ringMatching filter).Pairwise fun a b => b.seq < a.seq := by
  rw [ringMatching, List.pairwise_map]
  refine List.Pairwise.imp_of_mem ?_ ((List.pairwise_reverse.mpr ring.ascending).filter _)
  intro a b first second less
  rw [seq_shown (ring.stamped a (List.mem_reverse.mp (List.mem_of_mem_filter first))),
    seq_shown (ring.stamped b (List.mem_reverse.mp (List.mem_of_mem_filter second)))]
  exact less

theorem mem_storedMatching {item : Item} (member : item ∈ w.storedMatching env filter) :
    ∃ t r frame, w.db = some t ∧ r ∈ t.rows ∧ r.seq < sqlSeq w.ringOldest ∧ frameFromRow env.codec r = some frame ∧
      item = ⟨.disk r, frame⟩ := by
  simp only [storedMatching] at member
  split at member
  next t open_ =>
    obtain ⟨r, selected, made⟩ := List.mem_filterMap.mp member
    obtain ⟨frame, framed, rfl⟩ := Option.map_eq_some_iff.mp made
    obtain ⟨stored, chosen⟩ := List.mem_filter.mp selected
    simp only [Bool.and_eq_true, decide_eq_true_eq] at chosen
    exact ⟨t, r, frame, open_, List.mem_reverse.mp stored, chosen.1, framed, rfl⟩
  · cases member

theorem storedMatching_descending (shelf : w.Shelf) :
    (w.storedMatching env filter).Pairwise fun a b => b.seq < a.seq := by
  simp only [storedMatching]
  split
  next t open_ =>
    have rows : (t.rows.reverse.filter fun r => decide (r.seq < sqlSeq w.ringOldest) && filter.selects r).Pairwise
        fun a b => asUint64 b.seq < asUint64 a.seq := by
      refine List.Pairwise.imp_of_mem ?_ ((List.pairwise_reverse.mpr t.ordered).filter _)
      intro a b first second less
      simp only [List.mem_filter, List.mem_reverse, Bool.and_eq_true, decide_eq_true_eq] at first second
      obtain ⟨lowA, highA⟩ := shelf.fits open_ first.1 first.2.1
      obtain ⟨lowB, highB⟩ := shelf.fits open_ second.1 second.2.1
      have left := asUint64_of_issued lowA highA.le
      have right := asUint64_of_issued lowB highB.le
      omega
    refine rows.filterMap _ fun a b less => ?_
    intro x first y second
    obtain ⟨frame, framed, rfl⟩ := Option.map_eq_some_iff.mp first
    obtain ⟨frame', framed', rfl⟩ := Option.map_eq_some_iff.mp second
    rwa [seq_disk framed, seq_disk framed']
  · exact .nil

/-- What there is to page through descends in seq. -/
theorem pageable_descending (ring : w.Ring) (shelf : w.Shelf) (env : Env) (filter : Filter) :
    (w.pageable env filter).Pairwise fun a b => b.seq < a.seq := by
  rw [pageable, List.pairwise_append]
  refine ⟨ringMatching_descending ring, ?_, fun a first b second => ?_⟩
  · split
    · exact storedMatching_descending shelf
    · exact .nil
  · split at second
    · obtain ⟨held, chosen, rfl⟩ := List.mem_map.mp first
      have member := List.mem_reverse.mp (List.mem_of_mem_filter chosen)
      obtain ⟨t, r, frame, open_, stored, below, framed, rfl⟩ := mem_storedMatching second
      rw [seq_shown (ring.stamped held member), seq_disk framed]
      have oldest := ring.oldest_le member
      have under := (lt_sqlSeq_iff (shelf.fits open_ stored below) w.ringOldest).mp below
      omega
    · cases second

/-! ### One page -/

/-- The ring's part of a page is cut from what it holds behind the cursor. -/
theorem ringItems_eq (ring : w.Ring) (filter : Filter) (before : Option Nat) (limit : Nat) :
    w.ringItems ⟨before, limit, filter⟩ = (behind Item.seq (w.ringMatching filter) before).take (limit + 1) := by
  simp only [ringItems, behind, ringMatching]
  rw [List.filter_map, List.map_take, List.filter_filter]
  congr 2
  refine List.filter_congr fun held member => ?_
  have seq := seq_shown (ring.stamped held (List.mem_reverse.mp member))
  cases before <;> simp [seq]

/-- And the store's part from the rows below the ring. -/
theorem readItems_eq (shelf : w.Shelf) {t : Table} (open_ : w.db = some t) (before : Option Nat) (limit : Nat) :
    t.readItems env.codec w.foreignMax [] (match before with
      | some bound => min bound w.ringOldest
      | none => w.ringOldest) limit filter = (behind Item.seq (w.storedMatching env filter) before).take limit := by
  simp only [Table.readItems, behind, storedMatching]
  simp only [open_]
  rw [List.filter_filterMap, List.filterMap_filter, List.filterMap_filter]
  congr 1
  refine List.filterMap_congr fun r member => ?_
  have natural := shelf.natural t open_ r (List.mem_reverse.mp member)
  have same : readRow env.codec w.foreignMax [] r = frameFromRow env.codec r := by simp [readRow]
  have uncleared : sqlSeq (clearedBelow w.foreignMax []) ≤ r.seq := by simpa [clearedBelow, sqlSeq] using natural
  rw [same]
  by_cases below : r.seq < sqlSeq w.ringOldest
  · -- within the ring's bound the cursor is compared as the frame's seq is
    have fits := shelf.fits open_ (List.mem_reverse.mp member) below
    have under := (lt_sqlSeq_iff fits w.ringOldest).mp below
    cases framed : frameFromRow env.codec r with
    | none => simp
    | some frame =>
      cases before with
      | none => simp [below, uncleared, Option.filter]
      | some bound =>
        by_cases chosen : filter.selects r = true <;>
          simp [below, uncleared, lt_sqlSeq_iff fits, under, seq_disk framed, Option.filter, chosen]
  · have beyond : ¬ r.seq < sqlSeq (match before with
        | some bound => min bound w.ringOldest
        | none => w.ringOldest) := by
      cases before with
      | none => exact below
      | some bound => exact fun less => below (less.trans_le (sqlSeq_mono (min_le_right _ _)))
    simp [below, beyond]

/-- With nothing queued, a readable archive that queues rows has its store open. -/
theorem Shelf.readOlder_eq (shelf : w.Shelf) (agreement : w.Agreement False) (drained : w.Drained) (env : Env)
    (filter : Filter) (before : Option Nat) {limit : Nat} (positive : 0 < limit) :
    w.readOlder env w.pending (match before with
      | some bound => min bound w.ringOldest
      | none => w.ringOldest) limit filter = some ((behind Item.seq (w.storedMatching env filter) before).take limit) := by
  have reader := shelf.reader (by simp [drained.writer, Writer.adopts])
  simp only [readOlder]
  rw [if_neg (by omega), drained.pending]
  cases open_ : w.db with
  | none =>
    -- an active archive with nothing queued has its store open
    have inactive : w.active = false := by
      by_contra active
      have opens := agreement.wanted (by simpa using active)
      simp [willOpen, queue, opening, drained.ops, drained.writer, Writer.waiting, open_] at opens
    simp [inactive, storedMatching, open_, behind]
  | some t =>
    simp [reader, open_, readItems_eq shelf open_]

end World

/-- A page is the first of what is behind its cursor; one past the limit says there is more. -/
theorem page_eq {env : Env} {w : World} {filter : Filter} (ring : w.Ring) (shelf : w.Shelf)
    (agreement : w.Agreement False) (drained : w.Drained) (before : Option Nat) (limit : Nat) :
    page env w w w w ⟨before, limit, filter⟩ =
      pageOf ((behind Item.seq (w.pageable env filter) before).take (limit + 1)) limit w.epoch false := by
  have held := World.ringItems_eq ring filter before limit
  have split : behind Item.seq (w.pageable env filter) before =
      behind Item.seq (w.ringMatching filter) before ++
        if w.readable then behind Item.seq (w.storedMatching env filter) before else [] := by
    simp only [World.pageable, behind]
    rw [List.filter_append]
    split <;> rfl
  simp only [page]
  rw [held, split]
  generalize behind Item.seq (w.ringMatching filter) before = newest
  by_cases readable : w.readable = true
  · by_cases short : newest.length ≤ limit
    -- the ring does not fill the page, so the store is asked for the rest
    · have room : 0 < limit + 1 - newest.length := by omega
      have older := shelf.readOlder_eq agreement drained env filter before room
      have whole : newest.take (limit + 1) = newest := List.take_of_length_le (by omega)
      simp only [whole, readable, short, decide_true, Bool.and_self, if_true, ne_eq, not_true_eq_false, if_false,
        List.take_append]
      cases before with
      | none | some =>
        simp only at older ⊢
        rw [older]
    -- the ring fills it, and the one past the limit says there is more
    · have full : (newest.take (limit + 1)).length = limit + 1 := by
        rw [List.length_take]
        omega
      simp only [full, readable, Nat.not_succ_le_self, decide_false, Bool.and_false, Bool.false_eq_true, if_false, if_true]
      rw [List.take_append_of_le_length (by omega)]
  · simp [readable]

theorem ask_pages {w : World} (ring : w.Ring) (shelf : w.Shelf) (agreement : w.Agreement False) (drained : w.Drained)
    (env : Env) (filter : Filter) (limit : Nat) :
    Pages Item.seq (w.pageable env filter) limit (w.ask env filter limit) := by
  constructor <;> intro before
  · simp [World.ask, page_eq ring shelf agreement drained, pageOf, List.take_take]
  · simp [World.ask, page_eq ring shelf agreement drained, pageOf]

/-- A key is held once and stored once. -/
theorem pageable_apart {env : Env} {w : World} {filter : Filter} (ring : w.Ring) :
    (w.pageable env filter).Pairwise fun a b => a.fromRing = b.fromRing → a.name ≠ b.name := by
  rw [World.pageable, List.pairwise_append]
  refine ⟨?_, ?_, fun a first b second => ?_⟩
  · rw [World.ringMatching, List.pairwise_map]
    refine List.Pairwise.imp_of_mem ?_ ((List.pairwise_reverse.mpr ring.apart).filter _)
    intro a b first second apart _ same
    apply apart
    rw [ring.keyed a (List.mem_reverse.mp (List.mem_of_mem_filter first)),
      ring.keyed b (List.mem_reverse.mp (List.mem_of_mem_filter second))]
    obtain ⟨dest, id⟩ := Prod.mk.inj same
    rw [dest, id]
  · split
    · unfold World.storedMatching
      split
      next t open_ =>
        refine ((List.pairwise_reverse.mpr t.ordered).filter _).filterMap _ fun a b apart => ?_
        intro x first y second _ same
        obtain ⟨frame, framed, rfl⟩ := Option.map_eq_some_iff.mp first
        obtain ⟨frame', framed', rfl⟩ := Option.map_eq_some_iff.mp second
        obtain ⟨dest, id⟩ := Prod.mk.inj same
        exact apart.2 ⟨dest.symm, id.symm⟩
      · exact .nil
    · exact .nil
  · split at second
    · obtain ⟨held, -, rfl⟩ := List.mem_map.mp first
      obtain ⟨t, r, frame, -, -, -, -, rfl⟩ := World.mem_storedMatching second
      intro same
      cases same
    · cases second

/-- With nothing queued, asking back from the newest page until there is no more yields the
ring's matching messages and then the stored ones below them, each once and in order. -/
theorem pages_cover (env : Env) (b : Boot) {ms : List (Moment World Event)} {w : World}
    (run : Run (Step env) (boot env b) ms w) (drained : w.Drained) {limit : Nat} (positive : 0 < limit)
    (filter : Filter) :
    walk Item.seq (w.ask env filter limit) ((w.pageable env filter).length + 1) none = some (w.pageable env filter) ∧
    ((w.pageable env filter).Pairwise fun a b => b.seq < a.seq) ∧
    (∀ before, (w.ask env filter limit before).2 = true ↔
      ∃ item ∈ behind Item.seq (w.pageable env filter) before,
        ∀ got ∈ (w.ask env filter limit before).1, item.seq < got.seq) ∧
    (w.pageable env filter).Pairwise fun a b => a.fromRing = b.fromRing → a.name ≠ b.name := by
  have ring : w.Ring :=
    run.always (P := World.Ring) (fun _ _ _ step ring => ring.step step) (World.ring_boot env b)
  have shelf : w.Shelf :=
    run.always (P := World.Shelf) (fun _ _ _ step shelf => shelf.step step) (World.shelf_boot env b)
  have agreement : w.Agreement False :=
    (run.invariant (P := World.Agreement False) World.Agreement.step (fun m member (impossible : False) => impossible.elim)
      (World.agreement_boot False env b)).1
  have pages := ask_pages ring shelf agreement drained env filter limit
  have descending := World.pageable_descending ring shelf env filter
  refine ⟨?_, descending, pages.more_iff descending, pageable_apart ring⟩
  -- every page but the last brings an item, so as many asks as items and one more are enough
  have enough : (behind Item.seq (w.pageable env filter) none).length < (w.pageable env filter).length + 1 := by simp
  have walked := walk_eq descending pages positive enough
  rwa [behind_none] at walked

/-! ### A message delivered again -/

def twinMessage : Fields := [("id", .str "m"), ("platform", .str "twitch")]

def twinEnv : Env := ⟨⟨fun _ => .obj twinMessage, fun _ => ""⟩, ⟨"launch", ["twitch"]⟩⟩

def twinDest : DestinationId := ⟨"acct", "p"⟩

/-- The message as another launch stored it. -/
def twinRow : StoredRow := ⟨1, destinationKey twinDest, "m", "twitch", "acct", "p", "", 0, 0, "earlier", "", ""⟩

def twinFound : Found := ⟨⟨[twinRow], by simp⟩, by decide⟩

/-- The store is adopted, then the message is delivered to a ring that never held it. -/
def twinEvents : List Event :=
  [.setRetention .sevenDays true, .take, .nextMode] ++ adoption twinFound ++
    [.finish, .add twinDest twinMessage 0, .trim, .take, .beginCommit, .tryCommit (some {}), .raisePersisted,
      .dropPending, .finish]

theorem pages_cover_twin :
    ∃ ms w, Run (Step twinEnv) (boot twinEnv (.off false)) ms w ∧ (w.pageable twinEnv .all).length = 2 ∧
      walk Item.seq (w.ask twinEnv .all 1) 3 none = some (w.pageable twinEnv .all) := by
  obtain ⟨ms, w, run, shown⟩ := exists_run_of_follow (World.step twinEnv) (boot twinEnv (.off false)) twinEvents
    (fun _ w => decide (w.ops = [] ∧ w.writer = .idle ∧ w.pending = [] ∧ (w.pageable twinEnv .all).length = 2))
    (by decide)
  obtain ⟨ops, writer, pending, two⟩ := of_decide_eq_true shown
  have covered := (pages_cover twinEnv (.off false) run ⟨ops, writer, pending⟩ Nat.zero_lt_one .all).1
  rw [two] at covered
  exact ⟨ms, w, run, two, covered⟩

/-- Both items of a walk of two go by one name. -/
def twins : Option (List Item) → Bool
  | some [a, b] => a.name = b.name
  | _ => false

/-- The store refuses the second copy and the ring holds it: both are paged. -/
theorem twin_paged_twice :
    ∃ ms w a b, Run (Step twinEnv) (boot twinEnv (.off false)) ms w ∧ w.Drained ∧
      walk Item.seq (w.ask twinEnv .all 1) 3 none = some [a, b] ∧ a.name = b.name := by
  obtain ⟨ms, w, run, shown⟩ := exists_run_of_follow (World.step twinEnv) (boot twinEnv (.off false)) twinEvents
    (fun _ w => decide (w.ops = [] ∧ w.writer = .idle ∧ w.pending = []) &&
      twins (walk Item.seq (w.ask twinEnv .all 1) 3 none))
    (by decide)
  rw [Bool.and_eq_true] at shown
  obtain ⟨ops, writer, pending⟩ := of_decide_eq_true shown.1
  have paged := shown.2
  simp only [twins] at paged
  split at paged
  next a b walked => exact ⟨ms, w, a, b, run, ⟨ops, writer, pending⟩, walked, of_decide_eq_true paged⟩
  · cases paged

end Braidcast.Chat
