import Braidcast.Feed.Rows

/-!
# What a page brings

A page with the rows that arrived while it was in flight, as a new window or at the oldest end
of the one it was asked for.
-/
namespace Braidcast.Feed.FeedVirtualizer

open Lib

variable {T K : Type} {config : FeedConfig T K} {feed : FeedVirtualizer config} {page : FeedPage T}

/-! ### Asking -/

theorem fetchNewest_eq (feed : FeedVirtualizer config) (restick : Bool) :
    ∃ autoStick unseen detached, feed.fetchNewest restick =
      { feed with
        autoStick, unseen, detached, pending := [], rafId := false, guard := feed.guard.supersede.claim .load
        inflight := some .load, heldOld := [], loadBuf := [], patchStamp := some feed.patchCount, retryTimer := none
        patches := forget (some feed.patchCount) feed.now feed.patches
        requests := feed.requests ++
          [⟨.load, feed.guard.supersede.next .load, none, feed.effBase, feed.filter, feed.patchCount, none⟩] } := by
  cases restick
  · exact ⟨feed.autoStick, feed.unseen, feed.detached, rfl⟩
  · exact ⟨true, 0, false, rfl⟩

theorem maybeFetchOlder_cases (feed : FeedVirtualizer config) (nearTop : Bool) :
    feed.maybeFetchOlder nearTop = feed ∨
      ∃ cursor, feed.inflight = none ∧ feed.more = true ∧ feed.rows.head? = some cursor ∧
        feed.maybeFetchOlder nearTop =
          { feed with
            guard := feed.guard.claim .older, inflight := some .older, patchStamp := some feed.patchCount
            patches := forget (some feed.patchCount) feed.now feed.patches
            requests := feed.requests ++
              [⟨.older, feed.guard.next .older, some cursor.item, config.page, feed.filter, feed.patchCount, none⟩] } := by
  simp only [maybeFetchOlder]
  split
  · exact .inl rfl
  next free =>
    simp only [not_or, not_not] at free
    cases head : feed.rows.head? with
    | none => exact .inl rfl
    | some cursor =>
      dsimp only
      split
      · exact .inr ⟨cursor, free.1, by simpa using free.2.2, rfl, rfl⟩
      · exact .inl rfl

variable [LinearOrder K]

theorem reset_eq (feed : FeedVirtualizer config) {epoch : Nat} (new : feed.epoch < epoch) :
    feed.reset epoch = { feed with
      rows := [], autoStick := true, more := false, detached := false, unseen := 0, retrying := false, pending := []
      rafId := false, guard := feed.guard.supersede, inflight := none, epoch, heldOld := [], loadBuf := [], patches := []
      patchStamp := none, retryTimer := none, retryMs := RETRY_MS, staleFilter := false, restickOnLoad := false } := by
  simp only [reset]
  rw [if_neg (Nat.not_le.mpr new)]
  rfl

theorem endLoad_eq (feed : FeedVirtualizer config) : feed.endLoad = { feed with
    rows := feed.endLoad.rows, seq := feed.endLoad.seq, more := feed.endLoad.more, detached := feed.endLoad.detached
    staleFilter := feed.endLoad.staleFilter, inflight := none, patchStamp := none, loadBuf := []
    restickOnLoad := false } := by
  unfold endLoad
  dsimp only [setInflight_none]
  split <;> rfl

theorem endLoad_rows (feed : FeedVirtualizer config) : ∀ r ∈ feed.endLoad.rows, r ∈ feed.rows := by
  unfold endLoad
  dsimp only [setInflight_none]
  split
  · exact fun r member => nomatch member
  · exact fun r => id

/-! ### The newest page -/

/-- What a map by key holds after these items were set in it. -/
theorem setByKey_spec (key : T → K) (items : List T) :
    ((items.foldl (setByKey key) []).map key).Nodup ∧
      (∀ k, k ∈ (items.foldl (setByKey key) []).map key ↔ k ∈ items.map key) ∧
      ∀ x ∈ items.foldl (setByKey key) [], x ∈ items := by
  apply foldl_rule (P := fun (done byKey : List T) => (byKey.map key).Nodup ∧
    (∀ k, k ∈ byKey.map key ↔ k ∈ done.map key) ∧ ∀ x ∈ byKey, x ∈ done)
  · simp
  · rintro done item byKey ⟨nodup, members, from_⟩
    simp only [setByKey]
    split
    next known =>
      -- the same key again replaces the item and keeps the keys
      have same : (byKey.map fun old => if key old = key item then item else old).map key = byKey.map key := by
        rw [List.map_map]
        apply List.map_congr_left
        intro old _
        simp only [Function.comp_apply]
        split
        next same => exact same.symm
        · rfl
      refine ⟨same ▸ nodup, fun k => ?_, fun x member => ?_⟩
      · rw [same, members, List.map_append, List.mem_append, List.map_singleton, List.mem_singleton]
        refine ⟨.inl, fun either => either.elim id ?_⟩
        rintro rfl
        exact (members _).mp known
      · obtain ⟨old, there, rfl⟩ := List.mem_map.mp member
        split
        · simp
        · simp [from_ old there]
    next new =>
      refine ⟨nodup_map_concat nodup new, fun k => ?_, fun x member => ?_⟩
      · simp only [List.map_append, List.mem_append, members]
      · simp only [List.mem_append, List.mem_singleton] at member ⊢
        exact member.imp_left (from_ x)

/-- The page leaves this key to a later one. -/
def Leaves (key : T → K) (page : FeedPage T) (k : K) : Prop :=
  page.more = true ∧ page.items.head?.any (fun oldest => k < key oldest) = true

theorem loadedItems_spec (key : T → K) (page : FeedPage T) (buffered : List T) :
    ((loadedItems key page buffered).map key).Nodup ∧
      (∀ k, k ∈ (loadedItems key page buffered).map key ↔
        k ∈ page.items.map key ∨ k ∈ buffered.map key ∧ ¬ Leaves key page k) ∧
      ∀ x ∈ loadedItems key page buffered, x ∈ page.items ∨ x ∈ buffered := by
  -- the page's own items first; then the loop over what was buffered
  obtain ⟨nodup, members, from_⟩ := setByKey_spec key page.items
  apply foldl_rule (P := fun (done byKey : List T) => (byKey.map key).Nodup ∧
    (∀ k, k ∈ byKey.map key ↔ k ∈ page.items.map key ∨ k ∈ done.map key ∧ ¬ Leaves key page k) ∧
    ∀ x ∈ byKey, x ∈ page.items ∨ x ∈ done)
  · exact ⟨nodup, by simpa using members, fun x member => .inl (from_ x member)⟩
  · rintro done item byKey ⟨nodup, members, from_⟩
    have leaves : page.items.head?.any (fun oldest => page.more ∧ key item < key oldest) = true ↔
        Leaves key page (key item) := by
      simp only [Leaves]
      cases page.items.head? <;> simp
    split
    next skip =>
      refine ⟨nodup, fun k => ?_, fun x member => (from_ x member).imp_right fun there => by simp [there]⟩
      rw [members, List.map_append, List.mem_append, List.map_singleton, List.mem_singleton]
      refine or_congr_right' fun out => and_congr_left fun kept => ⟨.inl, fun either => either.elim id ?_⟩
      rintro rfl
      rcases skip with known | left
      · exact (((members _).mp known).resolve_left out).1
      · exact absurd (leaves.mp left) kept
    next joins =>
      obtain ⟨new, kept⟩ := not_or.mp joins
      refine ⟨nodup_map_concat nodup new, fun k => ?_, fun x member => ?_⟩
      · rw [List.map_append, List.mem_append, List.map_singleton, List.mem_singleton, members, List.map_append,
          List.mem_append, List.map_singleton, List.mem_singleton, or_assoc]
        refine or_congr_right ⟨?_, ?_⟩
        · rintro (⟨old, out⟩ | rfl)
          · exact ⟨.inl old, out⟩
          · exact ⟨.inr rfl, fun left => kept (leaves.mpr left)⟩
        · rintro ⟨old | rfl, out⟩
          · exact .inl ⟨old, out⟩
          · exact .inr rfl
      · simp only [List.mem_append, List.mem_singleton] at member ⊢
        rcases member with old | rfl
        · exact (from_ x old).imp_right .inl
        · exact .inr (.inr rfl)

/-- The window is the page, with what arrived meanwhile. -/
structure Loaded (feed : FeedVirtualizer config) (page : FeedPage T) (after : FeedVirtualizer config) : Prop where
  sorted : after.keys.Pairwise (· < ·)
  members : ∀ k, k ∈ after.keys ↔
    k ∈ page.items.map config.key ∨ k ∈ feed.loadBuf.map config.key ∧ ¬ Leaves config.key page k
  more : after.more = page.more
  rest : after = { feed with
    rows := after.rows, seq := after.seq, autoStick := after.autoStick, unseen := after.unseen, more := page.more
    detached := false, retrying := false, inflight := none, patchStamp := none, epoch := page.epoch, heldOld := []
    loadBuf := [], retryMs := RETRY_MS, staleFilter := false, restickOnLoad := false }
  rows : ∀ r ∈ after.rows, ∃ item, (item ∈ page.items ∨ item ∈ feed.loadBuf) ∧ r.item = feed.patched item

section

variable (feed)

theorem mem_rowsFor (seq : Nat) (items : List T) :
    ∀ r ∈ (feed.rowsFor seq items).1, ∃ item ∈ items, r.item = feed.patched item := by
  induction items generalizing seq with
  | nil => simp [rowsFor]
  | cons item rest ih =>
    intro r member
    simp only [rowsFor] at member
    split at member
    all_goals
      rcases List.mem_cons.mp member with rfl | later
      · exact ⟨item, by simp, rfl⟩
      · obtain ⟨x, there, same⟩ := ih _ r later
        exact ⟨x, by simp [there], same⟩

theorem applyLoad_eq (sight : Sight K) (current : feed.epoch ≤ page.epoch) :
    ∃ autoStick unseen, feed.applyLoad sight page =
      { feed with
        autoStick, unseen, more := page.more, detached := false, retrying := false, inflight := none
        patchStamp := none, epoch := page.epoch, heldOld := [], loadBuf := [], retryMs := RETRY_MS
        staleFilter := false, restickOnLoad := false }.replaceRows
        (sortItems config.key (loadedItems config.key page feed.loadBuf)) := by
  unfold applyLoad
  dsimp only [setInflight_none]
  rw [if_neg (by simpa using current)]
  split
  · exact ⟨true, 0, rfl⟩
  · exact ⟨feed.autoStick, feed.unseen, rfl⟩

/-- A page of an epoch that is over is let go; only what arrived meanwhile joins. -/
theorem applyLoad_stale (sight : Sight K) (stale : page.epoch < feed.epoch) :
    feed.applyLoad sight page =
      { feed with
        retrying := false, inflight := none, patchStamp := none, heldOld := [], loadBuf := [], retryMs := RETRY_MS
        staleFilter := false, restickOnLoad := false }.release sight feed.loadBuf := by
  unfold applyLoad
  dsimp only [setInflight_none]
  rw [if_pos stale]

theorem applyLoad_loaded (sight : Sight K) (current : feed.epoch ≤ page.epoch) :
    Loaded feed page (feed.applyLoad sight page) := by
  obtain ⟨nodup, members, from_⟩ := loadedItems_spec config.key page feed.loadBuf
  obtain ⟨autoStick, unseen, shape⟩ := applyLoad_eq feed sight current
  rw [shape]
  refine ⟨?_, fun k => ?_, rfl, rfl, fun r member => ?_⟩
  · rw [keys_replaceRows]
    exact sorted_insertionSort nodup
  · rw [keys_replaceRows, ← members]
    simp [sortItems]
  · obtain ⟨item, there, same⟩ := mem_rowsFor _ _ _ r member
    exact ⟨item, from_ item (by simpa [sortItems] using there), same⟩

end

/-- The page accounts for what it brings and for what is older than it. -/
theorem Loaded.accounts {after : FeedVirtualizer config} (loaded : Loaded feed page after)
    (sorted : (page.items.map config.key).Pairwise (· < ·)) {k : K}
    (known : Accounted page.more false (page.items.map config.key) k ∨ k ∈ feed.loadBuf.map config.key) :
    after.Accounts k := by
  -- what is older than the page is older than the window: nothing before the page's oldest was kept
  have left (less : Before (page.items.map config.key) k) (more : page.more = true) : after.Accounts k := by
    refine .inr (.inl ⟨loaded.more.trans more, ?_, fun x member => ?_⟩)
    · obtain ⟨x, there⟩ := List.exists_mem_of_ne_nil _ less.1
      exact List.ne_nil_of_mem ((loaded.members x).mpr (.inl there))
    · rcases (loaded.members x).mp member with here | ⟨-, kept⟩
      · exact less.2 x here
      · by_contra above
        exact kept ⟨more, by
          have before : Before (page.items.map config.key) x :=
            ⟨less.1, fun y there => (not_lt.mp above).trans_lt (less.2 y there)⟩
          simpa [List.head?_map, Option.any_map] using (before_iff_head sorted).mpr before⟩
  rcases known with (here | ⟨more, before⟩ | ⟨never, -⟩) | buffered
  · exact .inl ((loaded.members k).mpr (.inl here))
  · exact left before more
  · cases never
  · by_cases leaves : Leaves config.key page k
    · apply left _ leaves.1
      rw [← before_iff_head sorted]
      simpa [List.head?_map, Option.any_map] using leaves.2
    · exact .inl ((loaded.members k).mpr (.inr ⟨buffered, leaves⟩))

/-! ### Older pages -/

/-- What an older page and the held rows bring to the window. -/
structure Brought (feed : FeedVirtualizer config) (page : FeedPage T) (held : List T) (oldest : T)
    (out : List T × Bool) : Prop where
  nodup : (out.1.map config.key).Nodup
  members : ∀ k, k ∈ out.1.map config.key ↔ (k ∈ page.items.map config.key ∨ k ∈ held.map config.key ∧
    ¬ (page.more = true ∧ k < config.key (page.items.head?.getD oldest))) ∧ k ∉ feed.keys
  from_ : ∀ item ∈ out.1, item ∈ page.items ∨ item ∈ held
  order : out.2 = false → out.1.Sublist page.items

theorem olderItems_brought (feed : FeedVirtualizer config) (page : FeedPage T) (held : List T) (oldest : T) :
    Brought feed page held oldest (feed.olderItems page held oldest) := by
  -- the page first
  have own : Brought feed page [] oldest (page.items.foldl
      (fun added item =>
        if config.key item ∈ feed.keys ++ added.map config.key then added else added ++ [item]) [], false) := by
    have rule := foldl_rule
      (f := fun (added : List T) item =>
        if config.key item ∈ feed.keys ++ added.map config.key then added else added ++ [item])
      (P := fun done added => (added.map config.key).Nodup ∧
        (∀ k, k ∈ added.map config.key ↔ k ∈ done.map config.key ∧ k ∉ feed.keys) ∧ added.Sublist done)
      (b := []) (by simp) ?_ page.items
    · obtain ⟨nodup, members, sublist⟩ := rule
      exact ⟨nodup, by simpa using members, fun item member => .inl (sublist.subset member), fun _ => sublist⟩
    · rintro done item added ⟨nodup, members, sublist⟩
      split
      next known =>
        refine ⟨nodup, fun k => ?_, sublist.trans (List.sublist_append_left ..)⟩
        rw [members, List.map_append, List.mem_append, List.map_singleton, List.mem_singleton]
        refine and_congr_left fun out => ⟨.inl, fun either => either.elim id ?_⟩
        rintro rfl
        rcases List.mem_append.mp known with window | added
        · exact absurd window out
        · exact ((members _).mp added).1
      next new =>
        rw [List.mem_append, not_or] at new
        refine ⟨nodup_map_concat nodup new.2, fun k => ?_, sublist.append (.refl _)⟩
        rw [List.map_append, List.mem_append, members, List.map_append, List.mem_append, List.map_singleton,
          List.mem_singleton, or_and_right]
        refine or_congr_right ⟨?_, And.left⟩
        rintro rfl
        exact ⟨rfl, new.1⟩
  unfold olderItems
  dsimp only
  apply foldl_rule (P := fun done out => Brought feed page done oldest out) own
  -- then what was held, in the order it came
  rintro done item ⟨added, sort⟩ inv
  dsimp only
  have from_ : ∀ x ∈ added, x ∈ page.items ∨ x ∈ done ++ [item] := fun x member =>
    (inv.from_ x member).imp_right fun there => List.mem_append_left _ there
  have members := inv.members
  dsimp only at members
  split
  next skip =>
    refine ⟨inv.nodup, fun k => ?_, from_, inv.order⟩
    rw [members, List.map_append, List.mem_append, List.map_singleton, List.mem_singleton]
    refine and_congr_left fun out => or_congr_right' fun notPage => and_congr_left fun kept =>
      ⟨.inl, fun either => either.elim id ?_⟩
    rintro rfl
    rcases skip with known | leaves
    · rcases List.mem_append.mp known with window | here
      · exact absurd window out
      · exact (((members _).mp here).1.resolve_left notPage).1
    · exact absurd leaves kept
  next joins =>
    obtain ⟨new, kept⟩ := not_or.mp joins
    rw [List.mem_append, not_or] at new
    refine ⟨nodup_map_concat inv.nodup new.2, fun k => ?_, fun x member => ?_, fun never => nomatch never⟩
    · rw [List.map_append, List.mem_append, members, List.map_append, List.mem_append, List.map_singleton,
        List.mem_singleton]
      constructor
      · rintro (⟨page | ⟨held, kept⟩, out⟩ | rfl)
        · exact ⟨.inl page, out⟩
        · exact ⟨.inr ⟨.inl held, kept⟩, out⟩
        · exact ⟨.inr ⟨.inr rfl, kept⟩, new.1⟩
      · rintro ⟨page | ⟨held | rfl, kept⟩, out⟩
        · exact .inl ⟨.inl page, out⟩
        · exact .inl ⟨.inr ⟨held, kept⟩, out⟩
        · exact .inr rfl
    · rcases List.mem_append.mp member with old | last
      · exact from_ x old
      · exact .inr (List.mem_append_right _ last)

/-- Rows join the window from the older page and the held rows, with the patches remembered. -/
structure OlderArrived (feed : FeedVirtualizer config) (page : FeedPage T) (after : FeedVirtualizer config) : Prop where
  rest : after = { feed with
    rows := after.rows, seq := after.seq, more := after.more, detached := after.detached, guard := after.guard
    inflight := none, patchStamp := none, heldOld := [], retryMs := RETRY_MS }
  guard : after.guard = feed.guard ∨ after.guard = feed.guard.claim .older
  rows : ∀ r ∈ after.rows, r ∈ feed.rows ∨ ∃ item, (item ∈ page.items ∨ item ∈ feed.heldOld) ∧ r.item = feed.patched item

/-- An older page was prepended to a sorted window. -/
structure Prepended (feed : FeedVirtualizer config) (page : FeedPage T) (after : FeedVirtualizer config) : Prop extends
    OlderArrived feed page after where
  sorted : after.keys.Pairwise (· < ·)
  accounts : ∀ k, k ∈ feed.keys ∨ feed.detached = true ∧ Past feed.keys k ∨
    Accounted page.more false (page.items.map config.key) k ∨ k ∈ feed.heldOld.map config.key → after.Accounts k

/-- The rows of the next window: what the older page brings, and the rows there were. -/
def prepended (feed : FeedVirtualizer config) (out : List T × Bool) : List (ItemRow T) :=
  if out.2 then sortRows (feed.newRows out.1 ++ feed.rows) config.key else feed.newRows out.1 ++ feed.rows

theorem mem_prepended (feed : FeedVirtualizer config) (out : List T × Bool) (r : ItemRow T) :
    r ∈ feed.prepended out ↔ r ∈ feed.newRows out.1 ∨ r ∈ feed.rows := by
  simp only [prepended, sortRows]
  split <;> simp

theorem mem_rowKeys_prepended (feed : FeedVirtualizer config) (out : List T × Bool) (k : K) :
    k ∈ rowKeys config (feed.prepended out) ↔ k ∈ out.1.map config.key ∨ k ∈ feed.keys := by
  rw [← rowKeys_newRows feed]
  simp only [rowKeys, keys, List.mem_map, mem_prepended, or_and_right, exists_or]

theorem sorted_prepended (sorted : feed.keys.Pairwise (· < ·)) (out : List T × Bool)
    (nodup : (out.1.map config.key).Nodup) (order : out.2 = false → (out.1.map config.key).Pairwise (· < ·))
    (below : ∀ k ∈ out.1.map config.key, ∀ k' ∈ feed.keys, k < k') :
    (rowKeys config (feed.prepended out)).Pairwise (· < ·) := by
  simp only [prepended]
  split
  · apply sorted_sortRows
    rw [rowKeys, List.map_append, List.nodup_append]
    change (rowKeys config (feed.newRows out.1)).Nodup ∧ feed.keys.Nodup ∧ ∀ k ∈ rowKeys config (feed.newRows out.1),
      ∀ k' ∈ feed.keys, k ≠ k'
    rw [rowKeys_newRows]
    exact ⟨nodup, sorted.imp ne_of_lt, fun k new k' old => (below k new k' old).ne⟩
  next unsorted =>
    rw [rowKeys, List.map_append, List.pairwise_append]
    change (rowKeys config (feed.newRows out.1)).Pairwise (· < ·) ∧ feed.keys.Pairwise (· < ·) ∧
      ∀ k ∈ rowKeys config (feed.newRows out.1), ∀ k' ∈ feed.keys, k < k'
    rw [rowKeys_newRows]
    exact ⟨order (by simpa using unsorted), sorted, below⟩

theorem applyOlder_eq (feed : FeedVirtualizer config) (sight : Sight K) {oldest : ItemRow T} (head : feed.rows.head? = some oldest)
    (current : feed.epoch ≤ page.epoch) : ∃ out capped, out = feed.olderItems page feed.heldOld oldest.item ∧
      capped = { feed with
        more := page.more, inflight := none, patchStamp := none, heldOld := [], retryMs := RETRY_MS
        seq := feed.seq + out.1.length }.capWindow sight (feed.prepended out) ∧
      feed.applyOlder sight page (config.key oldest.item) = { capped.1 with rows := capped.2 } := by
  refine ⟨_, _, rfl, rfl, ?_⟩
  unfold applyOlder
  dsimp only [setInflight_none]
  rw [head]
  dsimp only
  rw [if_neg (by simpa using current)]
  rfl

theorem applyOlder_arrived (feed : FeedVirtualizer config) (sight : Sight K) (page : FeedPage T) (cursorKey : K) :
    OlderArrived feed page (feed.applyOlder sight page cursorKey) := by
  by_cases asked : ∃ oldest, feed.rows.head? = some oldest ∧ feed.epoch ≤ page.epoch ∧ config.key oldest.item = cursorKey
  · obtain ⟨oldest, head, current, rfl⟩ := asked
    obtain ⟨out, capped, rfl, rfl, shape⟩ := feed.applyOlder_eq sight head current
    have brought := olderItems_brought feed page feed.heldOld oldest.item
    rw [shape]
    generalize feed.olderItems page feed.heldOld oldest.item = out at brought ⊢
    have trimmed := capWindow_trimmed
      { feed with
        more := page.more, inflight := none, patchStamp := none, heldOld := [], retryMs := RETRY_MS
        seq := feed.seq + out.1.length } sight (feed.prepended out)
    generalize FeedVirtualizer.capWindow _ sight (feed.prepended out) = capped at trimmed ⊢
    obtain ⟨idle, stamp, nothing, guard⟩ : capped.1.inflight = none ∧ capped.1.patchStamp = none ∧
        capped.1.heldOld = [] ∧ (capped.1.guard = feed.guard ∨ capped.1.guard = feed.guard.claim .older) := by
      rcases trimmed.older with ⟨⟨guard, inflight, stamp, heldOld⟩, -⟩ | ⟨guard, inflight, stamp, heldOld⟩
      · exact ⟨inflight, stamp, heldOld, .inl guard⟩
      · exact ⟨by simpa using inflight, by simpa using stamp, heldOld, .inr guard⟩
    refine ⟨?_, guard, fun r member => ?_⟩
    · rw [trimmed.rest, idle, stamp, nothing]
    · rcases (mem_prepended feed out r).mp (trimmed.sublist.subset member) with new | old
      · obtain ⟨item, there, same⟩ := mem_newRows new
        exact .inr ⟨item, brought.from_ item there, same⟩
      · exact .inl old
  · -- not the window it was asked for
    unfold applyOlder
    dsimp only [setInflight_none]
    cases head : feed.rows.head? with
    | none => exact ⟨rfl, .inl rfl, fun r => .inl⟩
    | some oldest =>
      dsimp only
      rw [if_pos]
      · exact ⟨rfl, .inl rfl, fun r => .inl⟩
      · by_contra current
        simp only [not_or, not_lt, not_not] at current
        exact asked ⟨oldest, head, current.1, current.2⟩

theorem applyOlder_prepended (sight : Sight K) {oldest : ItemRow T} (sorted : feed.keys.Pairwise (· < ·))
    (head : feed.rows.head? = some oldest) (current : feed.epoch ≤ page.epoch)
    (order : (page.items.map config.key).Pairwise (· < ·))
    (below : ∀ k ∈ page.items.map config.key, k < config.key oldest.item)
    (held : ∀ k ∈ feed.heldOld.map config.key, k < config.key oldest.item) :
    Prepended feed page (feed.applyOlder sight page (config.key oldest.item)) := by
  have there : config.key oldest.item ∈ feed.keys := List.mem_map_of_mem (List.mem_of_mem_head? head)
  -- the cursor is the window's oldest row
  have first : ∀ x ∈ feed.keys, config.key oldest.item ≤ x := by
    obtain ⟨rest, shape⟩ := List.head?_eq_some_iff.mp head
    simp only [keys, shape, List.map_cons, List.pairwise_cons] at sorted
    intro x member
    simp only [keys, shape, List.map_cons, List.mem_cons] at member
    rcases member with rfl | later
    · exact le_refl _
    · exact (sorted.1 x later).le
  obtain ⟨out, capped, rfl, rfl, shape⟩ := feed.applyOlder_eq sight head current
  have brought := olderItems_brought feed page feed.heldOld oldest.item
  generalize feed.olderItems page feed.heldOld oldest.item = out at brought shape
  have older : ∀ k ∈ out.1.map config.key, k < config.key oldest.item := fun k member => by
    rcases ((brought.members k).mp member).1 with page | ⟨here, -⟩
    · exact below k page
    · exact held k here
  have sorted' := sorted_prepended sorted out brought.nodup
    (fun unsorted => order.sublist ((brought.order unsorted).map _))
    fun k new k' old => (older k new).trans_le (first k' old)
  have members := mem_rowKeys_prepended feed out
  have nonempty : rowKeys config (feed.prepended out) ≠ [] := List.ne_nil_of_mem ((members _).mpr (.inr there))
  -- where the host has more, the next window's oldest row is the page's
  have least (more : page.more = true) : ∀ x ∈ rowKeys config (feed.prepended out),
      config.key (page.items.head?.getD oldest.item) ≤ x := by
    have page_ : ∀ x ∈ page.items.map config.key, config.key (page.items.head?.getD oldest.item) ≤ x := by
      intro x member
      cases shape : page.items with
      | nil => simp [shape] at member
      | cons newest rest =>
        simp only [shape, List.map_cons, List.pairwise_cons, List.mem_cons] at order member
        rcases member with rfl | later
        · exact le_refl _
        · exact (order.1 x later).le
    have newest : config.key (page.items.head?.getD oldest.item) ≤ config.key oldest.item := by
      cases shape : page.items with
      | nil => exact le_refl _
      | cons newest rest => exact (below _ (by simp [shape])).le
    intro x member
    rcases (members x).mp member with new | old
    · rcases ((brought.members x).mp new).1 with here | ⟨-, kept⟩
      · exact page_ x here
      · exact not_lt.mp fun less => kept ⟨more, less⟩
    · exact newest.trans (first x old)
  -- before the cap, by where the key was accounted for: the window, past its newest end, the page, or what was held
  have accounted (k : K) (known : k ∈ feed.keys ∨ feed.detached = true ∧ Past feed.keys k ∨
      Accounted page.more false (page.items.map config.key) k ∨ k ∈ feed.heldOld.map config.key) :
      Accounted page.more feed.detached (rowKeys config (feed.prepended out)) k := by
    have joins (here : k ∈ page.items.map config.key ∨ k ∈ feed.heldOld.map config.key ∧
        ¬ (page.more = true ∧ k < config.key (page.items.head?.getD oldest.item))) :
        k ∈ rowKeys config (feed.prepended out) := by
      by_cases old : k ∈ feed.keys
      · exact (members k).mpr (.inr old)
      · exact (members k).mpr (.inl ((brought.members k).mpr ⟨here, old⟩))
    have left (more : page.more = true) (less : k < config.key (page.items.head?.getD oldest.item)) :
        Accounted page.more feed.detached (rowKeys config (feed.prepended out)) k :=
      .inr (.inl ⟨more, nonempty, fun x member => less.trans_le (least more x member)⟩)
    rcases known with here | ⟨detached, past⟩ | (here | ⟨more, before⟩ | ⟨never, -⟩) | waits
    · exact .inl ((members k).mpr (.inr here))
    · refine .inr (.inr ⟨detached, nonempty, fun x member => ?_⟩)
      rcases (members x).mp member with new | old
      · exact (older x new).trans (past.2 _ there)
      · exact past.2 x old
    · exact .inl (joins (.inl here))
    · apply left more
      cases shape : page.items with
      | nil => simp [shape, Before] at before
      | cons newest rest => exact before.2 _ (by simp [shape])
    · cases never
    · by_cases kept : page.more = true ∧ k < config.key (page.items.head?.getD oldest.item)
      · exact left kept.1 kept.2
      · exact .inl (joins (.inr ⟨waits, kept⟩))
  have trimmed := capWindow_trimmed
    { feed with
      more := page.more, inflight := none, patchStamp := none, heldOld := [], retryMs := RETRY_MS
      seq := feed.seq + out.1.length } sight (feed.prepended out)
  have arrived := feed.applyOlder_arrived sight page (config.key oldest.item)
  rw [shape] at arrived ⊢
  generalize FeedVirtualizer.capWindow _ sight (feed.prepended out) = capped at trimmed arrived ⊢
  have some_ : feed.prepended out ≠ [] := by simpa [rowKeys] using nonempty
  exact ⟨arrived, sorted'.sublist (trimmed.sublist.map _),
    fun k known => trimmed.accounts sorted' some_ k (accounted k known)⟩

end Braidcast.Feed.FeedVirtualizer
