import Braidcast.Lib.Lists
import Braidcast.Lib.Window
import Braidcast.Feed.Virtualizer

/-!
# What the window accounts for

The keys of the window through each way rows join it and leave it. Rows that arrive are
placed, or left to a page the host still has to bring; rows let go leave the flag of their
end set.
-/
namespace Braidcast.Feed

open Lib

variable {T K : Type} {config : FeedConfig T K}

@[simp] theorem Patch.key_apply (patch : Patch config.key) (item : T) :
    config.key (patch.apply item) = config.key item := by
  simp only [Patch.apply]
  split
  · exact patch.keeps item
  · rfl

def rowKeys (config : FeedConfig T K) (rows : List (ItemRow T)) : List K := rows.map fun r => config.key r.item

namespace FeedVirtualizer

variable {feed : FeedVirtualizer config}

@[simp] theorem key_patched (feed : FeedVirtualizer config) (item : T) :
    config.key (feed.patched item) = config.key item := by
  simp only [patched]
  induction feed.patches generalizing item with
  | nil => rfl
  | cons p rest ih => rw [List.foldl_cons, ih, Patch.key_apply]

@[simp] theorem rowKeys_newRows (feed : FeedVirtualizer config) (items : List T) :
    rowKeys config (feed.newRows items) = items.map config.key := by
  apply List.ext_getElem
  · simp [rowKeys, newRows]
  · intro i _ _
    simp [rowKeys, newRows]

theorem mem_newRows {items : List T} {r : ItemRow T} (member : r ∈ feed.newRows items) :
    ∃ item ∈ items, r.item = feed.patched item := by
  obtain ⟨i, bound, rfl⟩ := List.mem_iff_getElem.mp member
  simp only [newRows, List.length_mapIdx] at bound
  exact ⟨items[i], by simp, by simp [newRows]⟩

@[simp] theorem setInflight_none (feed : FeedVirtualizer config) :
    feed.setInflight none = { feed with inflight := none, patchStamp := none } := rfl

theorem keys_patch (feed : FeedVirtualizer config) (patch : Patch config.key) : (feed.patch patch).keys = feed.keys := by
  simp [keys, FeedVirtualizer.patch, trimPatches, Function.comp_def]

variable [LinearOrder K]

theorem rowKeys_rowsFor (feed : FeedVirtualizer config) (seq : Nat) (items : List T) :
    rowKeys config (feed.rowsFor seq items).1 = items.map config.key := by
  induction items generalizing seq with
  | nil => rfl
  | cons item rest ih =>
    simp only [rowsFor]
    split
    · simp only [rowKeys, List.map_cons, key_patched, List.cons.injEq, true_and]
      exact ih seq
    · simp only [rowKeys, List.map_cons, key_patched, List.cons.injEq, true_and]
      exact ih (seq + 1)

@[simp] theorem keys_replaceRows (feed : FeedVirtualizer config) (items : List T) :
    (feed.replaceRows items).keys = items.map config.key := rowKeys_rowsFor feed feed.seq items

theorem sorted_sortRows {rows : List (ItemRow T)} (nodup : (rowKeys config rows).Nodup) :
    (rowKeys config (sortRows rows config.key)).Pairwise (· < ·) := sorted_insertionSort nodup

theorem mem_sortRows {rows : List (ItemRow T)} {k : K} :
    k ∈ rowKeys config (sortRows rows config.key) ↔ k ∈ rowKeys config rows := by
  simp [rowKeys, sortRows]

/-! ### Rows let go -/

/-- What the window accounts for. -/
def Accounts (feed : FeedVirtualizer config) (k : K) : Prop := Accounted feed.more feed.detached feed.keys k

/-- The older page in flight, if there is one, is discarded. -/
def Discards (feed after : FeedVirtualizer config) : Prop :=
  after.guard = feed.guard.claim .older ∧
    after.inflight = (if feed.inflight = some .older then none else feed.inflight) ∧
    after.patchStamp = (if feed.inflight = some .older then none else feed.patchStamp) ∧ after.heldOld = []

/-- Nothing changes for the older page in flight. -/
def Spares (feed after : FeedVirtualizer config) : Prop :=
  after.guard = feed.guard ∧ after.inflight = feed.inflight ∧ after.patchStamp = feed.patchStamp ∧
    after.heldOld = feed.heldOld

/-- Rows of the next window are let go; where it is sorted, what it accounts for stays so. -/
structure Trimmed (feed : FeedVirtualizer config) (next : List (ItemRow T))
    (out : FeedVirtualizer config × List (ItemRow T)) : Prop where
  sublist : out.2.Sublist next
  rest : out.1 = { feed with
    more := out.1.more, detached := out.1.detached, guard := out.1.guard, inflight := out.1.inflight
    patchStamp := out.1.patchStamp, heldOld := out.1.heldOld }
  older : (Spares feed out.1 ∧ out.1.more = feed.more ∧ out.2.head? = next.head?) ∨ Discards feed out.1
  accounts : (rowKeys config next).Pairwise (· < ·) → next ≠ [] → ∀ k,
    Accounted feed.more feed.detached (rowKeys config next) k →
    Accounted out.1.more out.1.detached (rowKeys config out.2) k

variable {sight : Sight K} {next : List (ItemRow T)}

theorem Trimmed.refl (feed : FeedVirtualizer config) (next : List (ItemRow T)) : Trimmed feed next (feed, next) :=
  ⟨.refl next, rfl, .inl ⟨⟨rfl, rfl, rfl, rfl⟩, rfl, rfl⟩, fun _ _ _ => id⟩

omit [LinearOrder K] in
theorem rowKeys_drop (rows : List (ItemRow T)) (n : Nat) : rowKeys config (rows.drop n) = (rowKeys config rows).drop n :=
  List.map_drop ..

omit [LinearOrder K] in
theorem rowKeys_take (rows : List (ItemRow T)) (n : Nat) : rowKeys config (rows.take n) = (rowKeys config rows).take n :=
  List.map_take ..

omit [LinearOrder K] in
theorem trimOldest_discards (feed : FeedVirtualizer config) (next : List (ItemRow T)) (cut : Nat) :
    Discards feed (feed.trimOldest next cut).1 := by
  by_cases older : feed.inflight = some .older
  · simp [trimOldest, older, Discards]
  · simp [trimOldest, older, Discards]

theorem trimOldest_trimmed (feed : FeedVirtualizer config) (next : List (ItemRow T)) (cut : Nat)
    (left : next ≠ [] → cut < next.length) : Trimmed feed next (feed.trimOldest next cut) := by
  -- what is let go is before the rest, and `more` says that the host has it
  refine ⟨List.drop_sublist .., ?_, .inr (feed.trimOldest_discards next cut), fun sorted some_ k inv => ?_⟩
  · by_cases older : feed.inflight = some .older
    · simp [trimOldest, older]
    · simp [trimOldest, older]
  · have accounts : Accounted true feed.detached (rowKeys config (next.drop cut)) k := by
      rw [rowKeys_drop]
      exact inv.drop sorted (by simpa [rowKeys] using left some_)
    by_cases older : feed.inflight = some .older
    · simpa [trimOldest, older] using accounts
    · simpa [trimOldest, older] using accounts

omit [LinearOrder K] in
theorem excess_lt (sight : Sight K) {hardMax : Nat} (positive : 0 < hardMax) (beyond : hardMax < next.length) :
    (excess sight hardMax next).1 + (excess sight hardMax next).2 < next.length := by
  unfold excess
  dsimp only
  split <;> omega

theorem capWindow_trimmed (feed : FeedVirtualizer config) (sight : Sight K) (next : List (ItemRow T)) :
    Trimmed feed next (feed.capWindow sight next) := by
  simp only [capWindow]
  split
  · exact .refl feed next
  next beyond =>
    have less := excess_lt sight config.hardMax_pos (Nat.lt_of_not_le fun le => beyond (.inr le))
    generalize excess sight config.hardMax next = cut at less ⊢
    -- at least one row stays whichever ends the excess comes from
    obtain ⟨fromNewest, fromOldest⟩ := cut
    dsimp only at less ⊢
    have nonempty : next.take (next.length - fromNewest) ≠ [] := by
      rw [ne_eq, List.take_eq_nil_iff]
      rintro (none | empty)
      · omega
      · simp [empty] at less
    -- the newest end first
    have newest : Trimmed feed next
        (if 0 < fromNewest then { feed with detached := true } else feed, next.take (next.length - fromNewest)) := by
      split
      · refine ⟨List.take_sublist .., rfl, .inl ⟨⟨rfl, rfl, rfl, rfl⟩, rfl, ?_⟩, fun sorted _ k inv => ?_⟩
        · rw [List.head?_take, if_neg (by omega)]
        · rw [rowKeys_take]
          exact inv.take sorted (by simpa [rowKeys] using nonempty)
      next none =>
        obtain rfl : fromNewest = 0 := by omega
        simpa using Trimmed.refl feed next
    split
    next oldest =>
      -- then the oldest end, of what the newest left
      have rest := trimOldest_trimmed (if 0 < fromNewest then { feed with detached := true } else feed)
        (next.take (next.length - fromNewest)) fromOldest (by rw [List.length_take]; omega)
      refine ⟨rest.sublist.trans newest.sublist, ?_, .inr ?_, fun sorted some_ k inv => ?_⟩
      · rw [rest.rest]
        split <;> rfl
      · split
        · exact trimOldest_discards _ _ fromOldest
        · exact trimOldest_discards feed _ fromOldest
      · have kept := sorted.sublist (newest.sublist.map fun r : ItemRow T => config.key r.item)
        exact rest.accounts kept nonempty k (newest.accounts sorted some_ k inv)
    · exact newest

theorem takeRows_trimmed (feed : FeedVirtualizer config) (sight : Sight K) (next : List (ItemRow T)) :
    ∃ out, Trimmed feed next out ∧ feed.takeRows sight next = { out.1 with rows := out.2 } := by
  unfold takeRows
  dsimp only
  split
  next stuck =>
    -- trimmed while stuck, and then not capped: `capWindow` does nothing to a window that sticks
    have base : 0 < feed.effBase := Nat.lt_of_lt_of_le config.base_pos (Nat.le_max_left ..)
    have trimmed := feed.trimOldest_trimmed next (next.length - feed.effBase) fun some_ => by
      omega
    have still : (feed.trimOldest next (next.length - feed.effBase)).1.autoStick = true := by
      rw [trimmed.rest]
      exact stuck.1
    simp only [capWindow]
    rw [if_pos (.inl still)]
    exact ⟨_, trimmed, rfl⟩
  · exact ⟨_, feed.capWindow_trimmed sight next, rfl⟩

/-! ### Rows that join -/

/-- What has become of the rows of a batch done so far. -/
structure Placing (feed : FeedVirtualizer config) (done : List T) (placed : Placed T K) : Prop where
  each : ∀ item ∈ done, config.key item ∈ feed.keys ∨ config.key item ∈ placed.seen
  settled : ∀ k ∈ placed.seen, k ∈ placed.accepted.map config.key ∨
    (feed.more = true ∧ Before feed.keys k ∧ (feed.inflight = some .older → k ∈ placed.heldOld.map config.key)) ∨
    feed.detached = true ∧ Past feed.keys k
  inside : ∀ k ∈ placed.accepted.map config.key, k ∉ feed.keys ∧ k ∈ placed.seen ∧
    ¬ (feed.more = true ∧ Before feed.keys k) ∧ ¬ (feed.detached = true ∧ Past feed.keys k)
  nodup : (placed.accepted.map config.key).Nodup
  held : ∀ item ∈ placed.heldOld, Before feed.keys (config.key item)

theorem Placing.place (sorted : feed.keys.Pairwise (· < ·)) {done : List T} {placed : Placed T K}
    (inv : Placing feed done placed) (item : T) : Placing feed (done ++ [item]) (feed.place placed item) := by
  unfold FeedVirtualizer.place
  dsimp only
  split
  next known =>
    refine ⟨?_, inv.settled, inv.inside, inv.nodup, inv.held⟩
    intro x member
    rcases List.mem_append.mp member with old | new
    · exact inv.each x old
    · obtain rfl := List.mem_singleton.mp new
      exact known
  next fresh =>
    obtain ⟨apart, unseen⟩ := not_or.mp fresh
    have each : ∀ x ∈ done ++ [item], config.key x ∈ feed.keys ∨ config.key x ∈ placed.seen ++ [config.key item] := by
      intro x member
      rcases List.mem_append.mp member with old | new
      · exact (inv.each x old).imp_right fun seen => List.mem_append_left _ seen
      · obtain rfl := List.mem_singleton.mp new
        exact .inr (by simp)
    have inside : ∀ k ∈ placed.accepted.map config.key, k ∉ feed.keys ∧ k ∈ placed.seen ++ [config.key item] ∧
        ¬ (feed.more = true ∧ Before feed.keys k) ∧ ¬ (feed.detached = true ∧ Past feed.keys k) := by
      intro k member
      obtain ⟨out, seen, ends⟩ := inv.inside k member
      exact ⟨out, List.mem_append_left _ seen, ends⟩
    -- what was settled stays so; it is left to settle the new row
    have settled {accepted heldOld : List T} (more : ∀ x ∈ placed.accepted, x ∈ accepted)
        (held : ∀ x ∈ placed.heldOld, x ∈ heldOld)
        (last : config.key item ∈ accepted.map config.key ∨
          (feed.more = true ∧ Before feed.keys (config.key item) ∧
            (feed.inflight = some .older → config.key item ∈ heldOld.map config.key)) ∨
          feed.detached = true ∧ Past feed.keys (config.key item)) :
        ∀ k ∈ placed.seen ++ [config.key item], k ∈ accepted.map config.key ∨
          (feed.more = true ∧ Before feed.keys k ∧
            (feed.inflight = some .older → k ∈ heldOld.map config.key)) ∨
          feed.detached = true ∧ Past feed.keys k := by
      intro k member
      rcases List.mem_append.mp member with old | new
      · rcases inv.settled k old with accepted' | ⟨flag, before, held'⟩ | past
        · exact .inl (List.map_subset config.key more accepted')
        · exact .inr (.inl ⟨flag, before, fun older => List.map_subset config.key held (held' older)⟩)
        · exact .inr (.inr past)
      · obtain rfl := List.mem_singleton.mp new
        exact last
    split
    next older =>
      -- older than the window: it waits, or the host pages it in later
      have before := (before_iff_head sorted).mp older.1
      split
      next waits =>
        have kept : ∀ x ∈ placed.heldOld, x ∈ placed.heldOld ++ [item] := fun x member => List.mem_append_left _ member
        refine ⟨each, settled (fun _ => id) kept (.inr (.inl ⟨older.2, before, by simp⟩)), inside, inv.nodup, ?_⟩
        intro x member
        rcases List.mem_append.mp member with old | new
        · exact inv.held x old
        · obtain rfl := List.mem_singleton.mp new
          exact before
      next none =>
        exact ⟨each, settled (fun _ => id) (fun _ => id) (.inr (.inl ⟨older.2, before, fun waits => absurd waits none⟩)),
          inside, inv.nodup, inv.held⟩
    next notOlder =>
      split
      next past =>
        exact ⟨each, settled (fun _ => id) (fun _ => id) (.inr (.inr ⟨past.1, (past_iff_last sorted).mp past.2⟩)), inside,
          inv.nodup, inv.held⟩
      next notPast =>
        have kept : ∀ x ∈ placed.accepted, x ∈ placed.accepted ++ [item] := fun x member => List.mem_append_left _ member
        refine ⟨each, settled kept (fun _ => id) (.inl (by simp)), ?_, ?_, inv.held⟩
        · intro k member
          rw [List.map_append, List.mem_append] at member
          rcases member with old | new
          · exact inside k old
          · obtain rfl : k = config.key item := by simpa using new
            exact ⟨apart, by simp, fun ends => notOlder ⟨(before_iff_head sorted).mpr ends.2, ends.1⟩,
              fun ends => notPast ⟨ends.1, (past_iff_last sorted).mpr ends.2⟩⟩
        · exact nodup_map_concat inv.nodup fun accepted => unseen (inv.inside _ accepted).2.1

theorem placing (sorted : feed.keys.Pairwise (· < ·)) (batch : List T) :
    Placing feed batch (batch.foldl feed.place {}) := by
  apply foldl_rule (P := fun done placed => Placing feed done placed)
  · constructor <;> simp
  · exact fun done item placed inv => inv.place sorted item

theorem mem_joined (feed : FeedVirtualizer config) (added : List (ItemRow T)) (r : ItemRow T) :
    r ∈ feed.joined added ↔ r ∈ feed.rows ∨ r ∈ added := by
  simp only [joined, sortRows]
  split
  · simp
  · split <;> simp

theorem mem_rowKeys_joined (feed : FeedVirtualizer config) (added : List (ItemRow T)) (k : K) :
    k ∈ rowKeys config (feed.joined added) ↔ k ∈ feed.keys ∨ k ∈ rowKeys config added := by
  simp only [rowKeys, keys, List.mem_map, mem_joined, or_and_right, exists_or]

theorem sorted_joined (sorted : feed.keys.Pairwise (· < ·)) {added : List (ItemRow T)}
    (nodup : (rowKeys config added).Nodup) (apart : ∀ k ∈ rowKeys config added, k ∉ feed.keys) :
    (rowKeys config (feed.joined added)).Pairwise (· < ·) := by
  simp only [joined]
  split
  · apply sorted_sortRows
    rw [rowKeys, List.map_append, List.nodup_append]
    refine ⟨sorted.imp ne_of_lt, nodup, ?_⟩
    rintro k old _ new rfl
    exact apart k new old
  next above =>
    -- no added row sorts before the last, so none before any
    have order : ∀ k ∈ feed.keys, ∀ k' ∈ rowKeys config added, k < k' := by
      intro k old k' new
      by_contra below
      apply above
      obtain ⟨last, at_⟩ := Option.isSome_iff_exists.mp (List.getLast?_isSome.mpr (List.ne_nil_of_mem old))
      have less : k' < last := by
        rcases (not_lt.mp below).lt_or_eq with less | rfl
        · obtain ⟨before, shape⟩ := List.getLast?_eq_some_iff.mp at_
          rw [shape, List.mem_append] at old
          rcases old with earlier | same
          · rw [shape] at sorted
            exact less.trans ((List.pairwise_append.mp sorted).2.2 k earlier last (by simp))
          · rwa [List.mem_singleton.mp same] at less
        · exact absurd old (apart k' new)
      obtain ⟨r, member, rfl⟩ := List.mem_map.mp new
      simp only [at_, Option.any_some, List.any_eq_true, decide_eq_true_eq]
      exact ⟨r, member, less⟩
    split
    · rw [rowKeys, List.map_append, List.pairwise_append]
      exact ⟨sorted, sorted_sortRows nodup, fun k old k' new => order k old k' (mem_sortRows.mp new)⟩
    next short =>
      rw [rowKeys, List.map_append, List.pairwise_append]
      refine ⟨sorted, ?_, order⟩
      rcases added with _ | ⟨r, _ | ⟨r', rest⟩⟩
      · simp
      · simp
      · simp at short

/-- Rows join the window from the batch and from nowhere else, with the patches remembered. -/
structure Arrived (feed : FeedVirtualizer config) (batch : List T) (after : FeedVirtualizer config) : Prop where
  rest : after = { feed with
    rows := after.rows, seq := after.seq, unseen := after.unseen, more := after.more, detached := after.detached
    guard := after.guard, inflight := after.inflight, patchStamp := after.patchStamp, heldOld := after.heldOld }
  rows : ∀ r ∈ after.rows, r ∈ feed.rows ∨ ∃ item ∈ batch, r.item = feed.patched item
  waiting : ∀ item ∈ after.heldOld, item ∈ feed.heldOld ∨ feed.inflight = some .older ∧ item ∈ batch
  requests : (after.guard = feed.guard ∧ after.inflight = feed.inflight ∧ after.patchStamp = feed.patchStamp) ∨
    Discards feed after

theorem mem_placed (feed : FeedVirtualizer config) (batch : List T) :
    (∀ item ∈ (batch.foldl feed.place {}).accepted, item ∈ batch) ∧
      ∀ item ∈ (batch.foldl feed.place {}).heldOld, feed.inflight = some .older ∧ item ∈ batch := by
  apply foldl_rule (P := fun done (placed : Placed T K) => (∀ item ∈ placed.accepted, item ∈ done) ∧
    ∀ item ∈ placed.heldOld, feed.inflight = some .older ∧ item ∈ done)
  · simp
  · rintro done item placed ⟨accepted, held⟩
    have accepted' : ∀ x ∈ placed.accepted, x ∈ done ++ [item] := fun x member =>
      List.mem_append_left _ (accepted x member)
    have held' : ∀ x ∈ placed.heldOld, feed.inflight = some .older ∧ x ∈ done ++ [item] := fun x member =>
      (held x member).imp_right fun there => List.mem_append_left _ there
    unfold place
    dsimp only
    split
    · exact ⟨accepted', held'⟩
    · split
      · split
        next older =>
          refine ⟨accepted', fun x member => ?_⟩
          rcases List.mem_append.mp member with old | new
          · exact held' x old
          · exact ⟨older, List.mem_append_right _ new⟩
        · exact ⟨accepted', held'⟩
      · split
        · exact ⟨accepted', held'⟩
        · refine ⟨fun x member => ?_, held'⟩
          rcases List.mem_append.mp member with old | new
          · exact accepted' x old
          · exact List.mem_append_right _ new

theorem arrived (feed : FeedVirtualizer config) (sight : Sight K) (batch : List T) :
    Arrived feed batch (feed.release sight batch) := by
  obtain ⟨accepted, held⟩ := feed.mem_placed batch
  unfold release
  generalize batch.foldl feed.place {} = placed at accepted held ⊢
  have waiting : ∀ item ∈ feed.heldOld ++ placed.heldOld, item ∈ feed.heldOld ∨
      feed.inflight = some .older ∧ item ∈ batch := fun item member =>
    (List.mem_append.mp member).imp_right (held item)
  dsimp only
  split
  · exact ⟨rfl, fun r => .inl, waiting, .inl ⟨rfl, rfl, rfl⟩⟩
  · obtain ⟨out, trimmed, taken⟩ := takeRows_trimmed
      { feed with
        heldOld := feed.heldOld ++ placed.heldOld
        unseen := if feed.autoStick then feed.unseen
          else feed.unseen + countBelow config.key sight (placed.missed ++ placed.accepted)
        seq := feed.seq + placed.accepted.length } sight (feed.joined (feed.newRows placed.accepted))
    show Arrived feed batch (FeedVirtualizer.takeRows _ sight (feed.joined (feed.newRows placed.accepted)))
    rw [taken]
    refine ⟨?_, fun r member => ?_, fun item member => ?_, ?_⟩
    · rw [trimmed.rest]
    · rcases (mem_joined feed _ r).mp (trimmed.sublist.subset member) with old | new
      · exact .inl old
      · obtain ⟨item, here, same⟩ := mem_newRows new
        exact .inr ⟨item, accepted item here, same⟩
    · rcases trimmed.older with ⟨⟨-, -, -, heldOld⟩, -⟩ | discards
      · rw [heldOld] at member
        exact waiting item member
      · rw [discards.2.2.2] at member
        cases member
    · rcases trimmed.older with ⟨⟨guard, inflight, stamp, -⟩, -⟩ | discards
      · exact .inl ⟨guard, inflight, stamp⟩
      · exact .inr discards

/-- The rows of a batch have arrived in a sorted window: each is in it now, or left to a page. -/
structure Released (feed : FeedVirtualizer config) (batch : List T) (after : FeedVirtualizer config) : Prop extends
    Arrived feed batch after where
  sorted : after.keys.Pairwise (· < ·)
  accounts : ∀ k, feed.Accounts k → after.Accounts k
  placed : ∀ item ∈ batch, after.Accounts (config.key item)
  older : (after.guard = feed.guard ∧ after.inflight = feed.inflight ∧ after.more = feed.more ∧
      (∀ item ∈ feed.heldOld, item ∈ after.heldOld) ∧
      (feed.inflight = some .older → feed.more = true → feed.keys ≠ [] → after.keys.head? = feed.keys.head? ∧
        ∀ item ∈ batch, Before feed.keys (config.key item) → config.key item ∈ after.heldOld.map config.key)) ∨
    Discards feed after
  held : ∀ item ∈ after.heldOld, item ∈ feed.heldOld ∨ Before feed.keys (config.key item)

theorem released (feed : FeedVirtualizer config) (sorted : feed.keys.Pairwise (· < ·)) (sight : Sight K)
    (batch : List T) : Released feed batch (feed.release sight batch) := by
  have placing := placing sorted batch
  have arrived := feed.arrived sight batch
  unfold release at arrived ⊢
  generalize batch.foldl feed.place {} = placed at placing arrived ⊢
  -- a row of the batch is accounted for before it joins, or it joins
  have accounted : ∀ item ∈ batch, feed.Accounts (config.key item) ∨
      config.key item ∈ placed.accepted.map config.key := by
    intro item member
    rcases placing.each item member with known | seen
    · exact .inl (.inl known)
    · rcases placing.settled _ seen with accepted | ⟨more, before, -⟩ | past
      · exact .inr accepted
      · exact .inl (.inr (.inl ⟨more, before⟩))
      · exact .inl (.inr (.inr past))
  -- while an older page is in flight, a row before the window waits for it
  have waits : feed.inflight = some .older → feed.more = true → ∀ item ∈ batch,
      Before feed.keys (config.key item) → config.key item ∈ (feed.heldOld ++ placed.heldOld).map config.key := by
    intro older more item member before
    rw [List.map_append, List.mem_append]
    rcases placing.each item member with known | seen
    · exact absurd (before.2 _ known) (lt_irrefl _)
    · rcases placing.settled _ seen with accepted | ⟨-, -, held⟩ | ⟨-, past⟩
      · exact absurd ⟨more, before⟩ (placing.inside _ accepted).2.2.1
      · exact .inr (held older)
      · obtain ⟨x, there⟩ := List.exists_mem_of_ne_nil _ past.1
        exact absurd ((past.2 x there).trans (before.2 x there)) (lt_irrefl _)
  have held : ∀ item ∈ feed.heldOld ++ placed.heldOld, item ∈ feed.heldOld ∨ Before feed.keys (config.key item) :=
    fun item member => (List.mem_append.mp member).imp_right (placing.held item)
  dsimp only at arrived ⊢
  split at arrived
  next none =>
    rw [if_pos none]
    refine ⟨arrived, sorted, fun _ => id, fun item member => ?_, .inl ⟨rfl, rfl, rfl, ?_, ?_⟩, held⟩
    · rcases accounted item member with here | accepted
      · exact here
      · simp [none] at accepted
    · exact fun item member => List.mem_append_left _ member
    · exact fun older more _ => ⟨rfl, waits older more⟩
  next some_ =>
    rw [if_neg some_]
    have apart : ∀ k ∈ rowKeys config (feed.newRows placed.accepted), k ∉ feed.keys := by
      rw [rowKeys_newRows]
      exact fun k member => (placing.inside k member).1
    have sorted' := sorted_joined sorted (by rw [rowKeys_newRows]; exact placing.nodup) apart
    have members := mem_rowKeys_joined feed (feed.newRows placed.accepted)
    have inside : ∀ k ∈ rowKeys config (feed.newRows placed.accepted), ¬ (feed.more = true ∧ Before feed.keys k) ∧
        ¬ (feed.detached = true ∧ Past feed.keys k) := by
      rw [rowKeys_newRows]
      exact fun k member => (placing.inside k member).2.2
    have nonempty : feed.joined (feed.newRows placed.accepted) ≠ [] := by
      obtain ⟨item, member⟩ := List.exists_mem_of_ne_nil _ some_
      have there := (members (config.key item)).mpr (.inr (by rw [rowKeys_newRows]; exact List.mem_map_of_mem member))
      rintro empty
      simp [empty, rowKeys] at there
    -- the accepted rows join in order, and then the window is trimmed or capped
    obtain ⟨out, trimmed, taken⟩ := takeRows_trimmed
      { feed with
        heldOld := feed.heldOld ++ placed.heldOld
        unseen := if feed.autoStick then feed.unseen
          else feed.unseen + countBelow config.key sight (placed.missed ++ placed.accepted)
        seq := feed.seq + placed.accepted.length } sight (feed.joined (feed.newRows placed.accepted))
    replace arrived : Arrived feed batch { out.1 with rows := out.2 } := taken ▸ arrived
    show Released feed batch (FeedVirtualizer.takeRows _ sight (feed.joined (feed.newRows placed.accepted)))
    rw [taken]
    -- a key accounted for stays so: joining adds only rows inside the ends, letting go sets its end's flag
    have accounts (k : K) (inv : feed.Accounts k) : Accounted out.1.more out.1.detached (rowKeys config out.2) k :=
      trimmed.accounts sorted' nonempty k (inv.join members inside)
    refine ⟨arrived, sorted'.sublist (trimmed.sublist.map _), accounts, fun item member => ?_, ?_,
      fun item member => ?_⟩
    · rcases accounted item member with here | accepted
      · exact accounts _ here
      · exact trimmed.accounts sorted' nonempty _ (.inl ((members _).mpr (.inr (by rwa [rowKeys_newRows]))))
    · rcases trimmed.older with ⟨⟨guard, inflight, -, heldOld⟩, more, head⟩ | discards
      · refine .inl ⟨guard, inflight, more, fun item member => ?_, fun older more some_ => ⟨?_, ?_⟩⟩
        · rw [heldOld]
          exact List.mem_append_left _ member
        · show (rowKeys config out.2).head? = feed.keys.head?
          rw [rowKeys, List.head?_map, head, ← List.head?_map]
          exact head?_of_join sorted sorted' some_ members fun k member before => (inside k member).1 ⟨more, before⟩
        · rw [heldOld]
          exact waits older more
      · exact .inr discards
    · rcases trimmed.older with ⟨⟨-, -, -, heldOld⟩, -⟩ | discards
      · rw [heldOld] at member
        exact held item member
      · rw [discards.2.2.2] at member
        cases member

end FeedVirtualizer

end Braidcast.Feed
