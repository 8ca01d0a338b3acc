import Braidcast.Feed.Host
import Braidcast.Feed.Requests

/-!
# What holds of a feed

A host row is on its way to the dock, or the window accounts for it, or a load in flight will
bring it. A request that still counts is the one in flight, and its page, with the rows that
came after it was read, accounts for what it was asked for.
-/
namespace Braidcast.Feed

open Lib FeedVirtualizer

variable {T K : Type} {config : FeedConfig T K} {feed after : FeedVirtualizer config} {floor epoch : Nat}
  {stored wired : List T} [LinearOrder K]

/-! ### Pages -/

theorem Store.mem_matching {key : T → K} (store : Store key) (filter : T → Bool) (before : Option K) (row : T) :
    row ∈ store.matching filter before ↔
      row ∈ store.rows ∧ filter row = true ∧ ∀ cursor, before = some cursor → key row < cursor := by
  cases before <;> simp [matching, sortItems]

theorem Store.sorted_matching {key : T → K} (store : Store key) (filter : T → Bool) (before : Option K) :
    ((store.matching filter before).map key).Pairwise (· < ·) :=
  sorted_insertionSort (store.unique.sublist (List.filter_sublist.map key))

/-- A page is sorted, stays before its cursor, and accounts for the rows it was read from. -/
theorem Store.page_accounts {key : T → K} (store : Store key) (filter : T → Bool) (before : Option K) {limit : Nat}
    (epoch : Nat) (positive : 0 < limit) :
    ((store.page filter before limit epoch).items.map key).Pairwise (· < ·) ∧
      (∀ k ∈ (store.page filter before limit epoch).items.map key, ∀ cursor, before = some cursor → k < cursor) ∧
      ∀ row ∈ store.rows, filter row = true → (∀ cursor, before = some cursor → key row < cursor) →
        Accounted (store.page filter before limit epoch).more false
          ((store.page filter before limit epoch).items.map key) (key row) := by
  have sorted := store.sorted_matching filter before
  unfold Store.page
  refine ⟨sorted.sublist ((List.drop_sublist ..).map key), ?_, ?_⟩
  · intro k member cursor cut
    obtain ⟨row, there, rfl⟩ := List.mem_map.mp member
    exact ((store.mem_matching filter before row).mp (List.mem_of_mem_drop there)).2.2 cursor cut
  · intro row there matches_ older
    have here : key row ∈ (store.matching filter before).map key :=
      List.mem_map_of_mem ((store.mem_matching filter before row).mpr ⟨there, matches_, older⟩)
    dsimp only
    rw [List.map_drop]
    by_cases beyond : limit < (store.matching filter before).length
    · have accounted : Accounted false false ((store.matching filter before).map key) (key row) := .inl here
      simpa [beyond] using accounted.drop sorted (n := (store.matching filter before).length - limit)
        (by rw [List.length_map]; omega)
    · rw [Nat.sub_eq_zero_of_le (Nat.le_of_not_lt beyond), List.drop_zero]
      exact .inl here

/-! ### What holds of the feed -/

/-- A load in flight will account for every host row. -/
structure LoadDue (feed : FeedVirtualizer config) (epoch : Nat) (stored wired : List T) (r : Request T) : Prop where
  filter : r.filter = feed.filter
  newest : r.before = none
  limit : 0 < r.limit
  epoch : ∀ page, r.reply = some page → feed.epoch ≤ page.epoch ∧ page.epoch ≤ epoch
  sorted : ∀ page, r.reply = some page → (page.items.map config.key).Pairwise (· < ·)
  covers : ∀ page, r.reply = some page → ∀ row ∈ stored, feed.filter row = true → row ∈ wired ∨ row ∈ feed.pending ∨
    Accounted page.more false (page.items.map config.key) (config.key row) ∨
      config.key row ∈ feed.loadBuf.map config.key

/-- An older page in flight will account for every host row before its cursor, which is the
window's oldest row still. -/
structure OlderDue (feed : FeedVirtualizer config) (stored wired : List T) (r : Request T) (cursor : T) : Prop where
  filter : r.filter = feed.filter
  before : r.before = some cursor
  limit : 0 < r.limit
  more : feed.more = true
  head : feed.keys.head? = some (config.key cursor)
  held : ∀ k ∈ feed.heldOld.map config.key, k < config.key cursor
  epoch : ∀ page, r.reply = some page → feed.epoch ≤ page.epoch
  sorted : ∀ page, r.reply = some page → (page.items.map config.key).Pairwise (· < ·)
  below : ∀ page, r.reply = some page → ∀ k ∈ page.items.map config.key, k < config.key cursor
  covers : ∀ page, r.reply = some page → ∀ row ∈ stored, feed.filter row = true → config.key row < config.key cursor →
    row ∈ wired ∨ row ∈ feed.pending ∨ Accounted page.more false (page.items.map config.key) (config.key row) ∨
      config.key row ∈ feed.heldOld.map config.key

/-- The feed, against an epoch it has seen, the host's epoch and rows, and the rows on their way. -/
structure Sound (feed : FeedVirtualizer config) (floor epoch : Nat) (stored wired : List T) : Prop where
  sorted : feed.keys.Pairwise (· < ·)
  seen : floor ≤ feed.epoch ∧ feed.epoch ≤ epoch
  claims : Claims feed
  free : feed.inflight ≠ some .older → feed.heldOld = []
  quiet : feed.inflight ≠ some .load → feed.retrying = false → ∀ row ∈ stored, feed.filter row = true →
    row ∈ wired ∨ row ∈ feed.pending ∨ feed.Accounts (config.key row)
  loading : ∀ r ∈ feed.requests, feed.Current r → r.kind = .load → LoadDue feed epoch stored wired r
  paging : ∀ r ∈ feed.requests, feed.Current r → r.kind = .older → ∃ cursor, OlderDue feed stored wired r cursor

/-! ### Steps of the feed -/

namespace Sound

/-- What is not the window's changes nothing. -/
theorem same (sound : Sound feed floor epoch stored wired) (keys : after.keys = feed.keys)
    (rest : after = { feed with
      rows := after.rows, viewH := after.viewH, autoStick := after.autoStick, unseen := after.unseen, seq := after.seq
      rafId := after.rafId, patches := after.patches, patchCount := after.patchCount
      retryTimer := after.retryTimer, retryMs := after.retryMs, staleFilter := after.staleFilter
      restickOnLoad := after.restickOnLoad, now := after.now }) : Sound after floor epoch stored wired := by
  have more : after.more = feed.more := by rw [rest]
  have detached : after.detached = feed.detached := by rw [rest]
  have retrying : after.retrying = feed.retrying := by rw [rest]
  have pending : after.pending = feed.pending := by rw [rest]
  have guard : after.guard = feed.guard := by rw [rest]
  have inflight : after.inflight = feed.inflight := by rw [rest]
  have epoch : after.epoch = feed.epoch := by rw [rest]
  have heldOld : after.heldOld = feed.heldOld := by rw [rest]
  have loadBuf : after.loadBuf = feed.loadBuf := by rw [rest]
  have filter : after.filter = feed.filter := by rw [rest]
  have requests : after.requests = feed.requests := by rw [rest]
  have current (r : Request T) : after.Current r = feed.Current r := by rw [Current, Current, guard]
  refine ⟨keys ▸ sound.sorted, epoch ▸ sound.seen, sound.claims.same guard inflight (by rw [rest]) requests, ?_, ?_, ?_, ?_⟩
  · rw [inflight, heldOld]
    exact sound.free
  · simp only [inflight, retrying, filter, pending, Accounts, more, detached, keys]
    exact sound.quiet
  · intro r member now load
    have due := sound.loading r (requests ▸ member) (current r ▸ now) load
    refine ⟨filter ▸ due.filter, due.newest, due.limit, epoch ▸ due.epoch, due.sorted, ?_⟩
    rw [filter, pending, loadBuf]
    exact due.covers
  · intro r member now older
    obtain ⟨cursor, due⟩ := sound.paging r (requests ▸ member) (current r ▸ now) older
    refine ⟨cursor, filter ▸ due.filter, due.before, due.limit, more ▸ due.more, keys ▸ due.head, heldOld ▸ due.held,
      epoch ▸ due.epoch, due.sorted, due.below, ?_⟩
    rw [filter, pending, heldOld]
    exact due.covers

/-- With no request out there is only the window to look at. -/
theorem of_idle (sorted : feed.keys.Pairwise (· < ·)) (seen : floor ≤ feed.epoch ∧ feed.epoch ≤ epoch)
    (claims : Claims feed) (idle : feed.Idle) (free : feed.heldOld = [])
    (quiet : feed.inflight ≠ some .load → feed.retrying = false → ∀ row ∈ stored, feed.filter row = true →
      row ∈ wired ∨ row ∈ feed.pending ∨ feed.Accounts (config.key row)) : Sound feed floor epoch stored wired :=
  ⟨sorted, seen, claims, fun _ => free, quiet, fun r member current => absurd current (idle r member),
    fun r member current => absurd current (idle r member)⟩

/-- A load is asked for: it will bring what the window lacks. -/
theorem fetchNewest (sorted : feed.keys.Pairwise (· < ·)) (seen : floor ≤ feed.epoch ∧ feed.epoch ≤ epoch)
    (claims : Claims feed) (restick : Bool) : Sound (feed.fetchNewest restick) floor epoch stored wired := by
  obtain ⟨autoStick, unseen, detached, shape⟩ := feed.fetchNewest_eq restick
  obtain ⟨claims', alone⟩ := claims.fetchNewest restick
  rw [shape] at claims' alone ⊢
  refine ⟨sorted, seen, claims', fun _ => rfl, fun loads => absurd rfl loads, ?_, ?_⟩
  · intro r member current _
    obtain rfl := alone r member current
    refine ⟨rfl, rfl, ?_, ?_, ?_, ?_⟩
    · exact Nat.lt_of_lt_of_le config.base_pos (Nat.le_max_left ..)
    all_goals exact fun page never => nomatch never
  · intro r member current older
    obtain rfl := alone r member current
    cases older

section

variable (sound : Sound feed floor epoch stored wired)
include sound

theorem load (filter : T → Bool) :
    Sound (feed.load filter) floor epoch stored wired := by
  refine fetchNewest ?_ ?_ (sound.claims.same ?_ ?_ ?_ ?_) true
  exacts [sound.sorted, sound.seen, rfl, rfl, rfl, rfl]

theorem reloadDetached :
    Sound feed.reloadDetached floor epoch stored wired := by
  refine fetchNewest ?_ ?_ (sound.claims.same ?_ ?_ ?_ ?_) false
  exacts [sound.sorted, sound.seen, rfl, rfl, rfl, rfl]

theorem maybeFetchOlder (nearTop : Bool) :
    Sound (feed.maybeFetchOlder nearTop) floor epoch stored wired := by
  rcases feed.maybeFetchOlder_cases nearTop with same | ⟨cursor, idle, more, head, shape⟩
  · rw [same]
    exact sound
  · have asked := sound.claims.askedOlder idle cursor (congrArg requests shape) (congrArg guard shape)
      (congrArg inflight shape) (congrArg patchStamp shape)
    rw [shape] at asked ⊢
    obtain ⟨claims', alone⟩ := asked
    refine ⟨sound.sorted, sound.seen, claims', fun other => absurd rfl other, fun _ => sound.quiet (by simp [idle]), ?_, ?_⟩
    · intro r member current load
      obtain rfl := alone r member current
      cases load
    · intro r member current _
      obtain rfl := alone r member current
      refine ⟨cursor.item, rfl, rfl, config.page_pos, more, ?_, ?_, ?_, ?_, ?_, ?_⟩
      · exact List.head?_map .. |>.trans (by rw [head]; rfl)
      · simp [sound.free (by simp [idle])]
      all_goals exact fun page never => nomatch never

theorem jumpToLatest : Sound feed.jumpToLatest floor epoch stored wired := by
  simp only [FeedVirtualizer.jumpToLatest]
  split
  · exact sound.reloadDetached
  · exact sound.same rfl rfl

theorem onScroll (atBottom nearTop : Bool) :
    Sound (feed.onScroll atBottom nearTop) floor epoch stored wired := by
  simp only [FeedVirtualizer.onScroll]
  split
  · split
    · exact sound.reloadDetached
    · exact sound.maybeFetchOlder nearTop
  · apply Sound.maybeFetchOlder
    exact sound.same rfl rfl

theorem retry (nearTop : Bool) :
    Sound (feed.retry nearTop) floor epoch stored wired := by
  simp only [FeedVirtualizer.retry]
  split
  · exact sound
  · refine fetchNewest ?_ ?_ (sound.claims.same ?_ ?_ ?_ ?_) false
    exacts [sound.sorted, sound.seen, rfl, rfl, rfl, rfl]
  · apply Sound.maybeFetchOlder
    exact sound.same rfl rfl

/-- Rows that arrived are released into the window. -/
theorem release (free : feed.inflight ≠ some .load) (sight : Sight K) :
    Sound ({ feed with rafId := false, pending := [] }.release sight feed.pending) floor epoch stored wired := by
  have released := released { feed with rafId := false, pending := [] } sound.sorted sight feed.pending
  generalize FeedVirtualizer.release _ sight feed.pending = after at released ⊢
  have pending : after.pending = [] := by rw [released.rest]
  have retrying : after.retrying = feed.retrying := by rw [released.rest]
  have filter : after.filter = feed.filter := by rw [released.rest]
  have requests : after.requests = feed.requests := by rw [released.rest]
  have seen : floor ≤ after.epoch ∧ after.epoch ≤ epoch := by
    rw [released.rest]
    exact sound.seen
  have quiet : after.inflight ≠ some .load → after.retrying = false → ∀ row ∈ stored, after.filter row = true →
      row ∈ wired ∨ row ∈ after.pending ∨ after.Accounts (config.key row) := by
    intro _ steady row there matches_
    rcases sound.quiet free (retrying ▸ steady) row there (filter ▸ matches_) with wire | waits | known
    · exact .inl wire
    · exact .inr (.inr (released.placed row waits))
    · exact .inr (.inr (released.accounts _ known))
  -- no load is in flight here, so the only request that can count is an older page's
  have notLoad : ∀ r ∈ feed.requests, feed.Current r → r.kind ≠ .load := fun r member current load =>
    free (load ▸ sound.claims.flight r member current)
  have claims : Claims after := (sound.claims.same rfl rfl rfl rfl : Claims { feed with rafId := false, pending := [] }).arrived released.toArrived
  rcases released.older with ⟨guard, inflight, more, held, head⟩ | discards
  · have current (r : Request T) : after.Current r = feed.Current r := by rw [Current, Current, guard]
    have idle : after.inflight ≠ some .older → after.heldOld = [] := by
      intro other
      apply List.eq_nil_iff_forall_not_mem.mpr
      intro item member
      rcases released.waiting item member with old | ⟨older, -⟩
      · have none := sound.free (inflight ▸ other)
        simp [none] at old
      · exact other (inflight.trans older)
    refine ⟨released.sorted, seen, claims, idle, quiet, ?_, ?_⟩
    · intro r member now load
      exact absurd load (notLoad r (requests ▸ member) (current r ▸ now))
    · intro r member now older
      obtain ⟨cursor, due⟩ := sound.paging r (requests ▸ member) (current r ▸ now) older
      have flight := sound.claims.flight r (requests ▸ member) (current r ▸ now)
      have some_ : feed.keys ≠ [] := fun empty => by simpa [empty] using due.head
      obtain ⟨head, waits⟩ := head (older ▸ flight) due.more some_
      have first : config.key cursor ∈ feed.keys := List.mem_of_mem_head? due.head
      refine ⟨cursor, filter ▸ due.filter, due.before, due.limit, more.trans due.more, head.trans due.head, ?_, ?_,
        due.sorted, due.below, ?_⟩
      · intro k member
        obtain ⟨item, there, rfl⟩ := List.mem_map.mp member
        rcases released.held item there with old | before
        · exact due.held _ (List.mem_map_of_mem old)
        · exact before.2 _ first
      · rw [released.rest]
        exact due.epoch
      · rw [filter, pending]
        intro page reply row there matches_ less
        rcases due.covers page reply row there matches_ less with wire | pushed | known | old
        · exact .inl wire
        · exact .inr (.inr (.inr (waits row pushed (before_of_head sound.sorted due.head less))))
        · exact .inr (.inr (.inl known))
        · exact .inr (.inr (.inr (List.map_subset _ held old)))
  · obtain ⟨-, current⟩ := sound.claims.discards requests discards
    refine .of_idle released.sorted seen claims ?_ discards.2.2.2 quiet
    intro r member now
    obtain ⟨load, before⟩ := current r member now
    exact notLoad r (requests ▸ member) before load

theorem flush (sight : Sight K) : Sound (feed.flush sight) floor epoch stored wired := by
  unfold FeedVirtualizer.flush
  dsimp only
  split
  next loads =>
    -- the rows wait for the load, which may bring them
    refine ⟨sound.sorted, sound.seen, sound.claims.same rfl rfl rfl rfl, sound.free,
      fun free => absurd loads free, ?_, ?_⟩
    · intro r member current load
      have due := sound.loading r member current load
      refine ⟨due.filter, due.newest, due.limit, due.epoch, due.sorted, ?_⟩
      intro page reply row there matches_
      rcases due.covers page reply row there matches_ with wire | pushed | known | buffered
      · exact .inl wire
      · exact .inr (.inr (.inr (List.mem_map_of_mem (List.mem_append_right _ pushed))))
      · exact .inr (.inr (.inl known))
      · exact .inr (.inr (.inr (List.map_subset _ (List.subset_append_left ..) buffered)))
    · intro r member current older
      have flight := sound.claims.flight r member current
      rw [older, show feed.inflight = some .load from loads] at flight
      cases flight
  next free => exact sound.release free sight

/-- Rows have reached the dock. -/
theorem pushed (items : List T) (rafId : Bool) {wired' : List T}
    (arrives : ∀ row ∈ wired, feed.filter row = true → row ∈ wired' ∨ row ∈ items) :
    Sound { feed with pending := feed.pending ++ items, rafId } floor epoch stored wired' := by
  -- a row on its way moves to the queue; every other place stays what it was
  have moves {row : T} {rest : Prop} (matches_ : feed.filter row = true)
      (before : row ∈ wired ∨ row ∈ feed.pending ∨ rest) : row ∈ wired' ∨ row ∈ feed.pending ++ items ∨ rest := by
    rcases before with wire | waits | other
    · exact (arrives row wire matches_).imp_right fun here => .inl (List.mem_append_right _ here)
    · exact .inr (.inl (List.mem_append_left _ waits))
    · exact .inr (.inr other)
  refine ⟨sound.sorted, sound.seen, sound.claims.same rfl rfl rfl rfl, sound.free,
    fun free steady row there matches_ => moves matches_ (sound.quiet free steady row there matches_), ?_, ?_⟩
  · intro r member current load
    have due := sound.loading r member current load
    exact ⟨due.filter, due.newest, due.limit, due.epoch, due.sorted,
      fun page reply row there matches_ => moves matches_ (due.covers page reply row there matches_)⟩
  · intro r member current older
    obtain ⟨cursor, due⟩ := sound.paging r member current older
    exact ⟨cursor, due.filter, due.before, due.limit, due.more, due.head, due.held, due.epoch, due.sorted, due.below,
      fun page reply row there matches_ less => moves matches_ (due.covers page reply row there matches_ less)⟩

/-- The host has stored rows and posted them, or was cleared. -/
theorem host {epoch' : Nat} {stored' wired' : List T} (later : epoch ≤ epoch')
    (rows : ∀ row ∈ stored', row ∈ stored ∨ row ∈ wired') (wire : ∀ row ∈ wired, row ∈ wired') :
    Sound feed floor epoch' stored' wired' := by
  -- a row stored now is on its way, and one stored before is where it was
  have keeps {row : T} {rest : Prop} (there : row ∈ stored')
      (before : row ∈ stored → row ∈ wired ∨ rest) : row ∈ wired' ∨ rest := by
    rcases rows row there with old | new
    · exact (before old).imp_left (wire row)
    · exact .inl new
  refine ⟨sound.sorted, sound.seen.imp_right (Nat.le_trans · later), sound.claims, sound.free,
    fun free steady row there matches_ => keeps there fun old => sound.quiet free steady row old matches_, ?_, ?_⟩
  · intro r member current load
    have due := sound.loading r member current load
    exact ⟨due.filter, due.newest, due.limit, fun page reply => (due.epoch page reply).imp_right (Nat.le_trans · later),
      due.sorted, fun page reply row there matches_ => keeps there fun old => due.covers page reply row old matches_⟩
  · intro r member current older
    obtain ⟨cursor, due⟩ := sound.paging r member current older
    exact ⟨cursor, due.filter, due.before, due.limit, due.more, due.head, due.held, due.epoch, due.sorted, due.below,
      fun page reply row there matches_ less => keeps there fun old => due.covers page reply row old matches_ less⟩

/-- A clear the feed had not seen empties the window; whatever the host holds is on its way. -/
theorem reset {cleared : Nat} (known : cleared ≤ epoch)
    (coming : feed.epoch < cleared → ∀ row ∈ stored, row ∈ wired) : Sound (feed.reset cleared) floor epoch stored wired := by
  by_cases new : feed.epoch < cleared
  · have shape := feed.reset_eq new
    obtain ⟨claims, idle⟩ := sound.claims.reset new
    rw [shape] at claims idle ⊢
    exact .of_idle List.Pairwise.nil ⟨Nat.le_trans sound.seen.1 (Nat.le_of_lt new), known⟩ claims idle rfl
      fun _ _ row there _ => .inl (coming new row there)
  · rw [FeedVirtualizer.reset, if_pos (Nat.not_lt.mp new)]
    exact sound

variable {r : Request T}

/-- The one request in flight has failed or its page came; nothing else is in flight. -/
theorem erased {i : Nat} (here : feed.requests[i]? = some r) :
    Sound { feed with requests := feed.requests.eraseIdx i } floor epoch stored wired := by
  have subset : ∀ r' ∈ feed.requests.eraseIdx i, r' ∈ feed.requests := fun r' => List.mem_of_mem_eraseIdx
  refine ⟨sound.sorted, sound.seen, (sound.claims.settled here).1, sound.free, sound.quiet, ?_, ?_⟩
  · intro r' member current load
    have due := sound.loading r' (subset r' member) current load
    exact ⟨due.filter, due.newest, due.limit, due.epoch, due.sorted, due.covers⟩
  · intro r' member current older
    obtain ⟨cursor, due⟩ := sound.paging r' (subset r' member) current older
    exact ⟨cursor, due.filter, due.before, due.limit, due.more, due.head, due.held, due.epoch, due.sorted, due.below,
      due.covers⟩

/-- The newest page replaces the window. -/
theorem applyLoad (idle : feed.Idle) {page : FeedPage T}
    (due : LoadDue feed epoch stored wired r) (reply : r.reply = some page) (sight : Sight K) :
    Sound (feed.applyLoad sight page) floor epoch stored wired := by
  obtain ⟨current, known⟩ := due.epoch page reply
  have loaded := applyLoad_loaded feed sight current
  generalize feed.applyLoad sight page = after at loaded ⊢
  obtain ⟨claims, idle⟩ := sound.claims.of_idle idle after (by rw [loaded.rest]) (.inl (by rw [loaded.rest]))
  refine .of_idle loaded.sorted (by rw [loaded.rest]; exact ⟨Nat.le_trans sound.seen.1 current, known⟩) claims idle (by rw [loaded.rest]) ?_
  intro _ _ row there matches_
  have pending : after.pending = feed.pending := by rw [loaded.rest]
  have filter : after.filter = feed.filter := by rw [loaded.rest]
  rw [pending]
  -- the request's page accounts for the row, or it came while the page was in flight
  refine (due.covers page reply row there (filter ▸ matches_)).imp_right (Or.imp_right fun brings => ?_)
  exact loaded.accounts (due.sorted page reply) brings

/-- A failed load leaves the window to the next one. -/
theorem failLoad (idle : feed.Idle) (loads : feed.inflight = some .load)
    (sight : Sight K) : Sound (feed.failLoad sight) floor epoch stored wired := by
  have free : feed.heldOld = [] := sound.free (by simp [loads])
  have sorted : feed.endLoad.keys.Pairwise (· < ·) := by
    unfold endLoad
    dsimp only [setInflight_none]
    split
    · exact List.Pairwise.nil
    · exact sound.sorted
  have shape := feed.endLoad_eq
  have released := released feed.endLoad sorted sight feed.loadBuf
  simp only [FeedVirtualizer.failLoad]
  generalize feed.endLoad = start at sorted shape released ⊢
  generalize start.release sight feed.loadBuf = after at released ⊢
  have requests : after.requests = feed.requests := by rw [released.rest, shape]
  have guard : after.guard = feed.guard ∨ after.guard = feed.guard.claim .older := by
    have same : start.guard = feed.guard := by rw [shape]
    rcases released.older with ⟨guard, -⟩ | ⟨guard, -⟩
    · exact .inl (guard.trans same)
    · exact .inr (same ▸ guard)
  have held : after.heldOld = [] := by
    apply List.eq_nil_iff_forall_not_mem.mpr
    intro item member
    rcases released.waiting item member with old | ⟨older, -⟩
    · rw [shape, free] at old
      cases old
    · rw [shape] at older
      cases older
  obtain ⟨claims, idle⟩ := sound.claims.of_idle idle
    ({ after with retrying := true }.retryAfterPause .load) requests guard
  refine .of_idle released.sorted ?_ claims idle held fun _ steady => nomatch steady
  show floor ≤ after.epoch ∧ after.epoch ≤ epoch
  rw [released.rest, shape]
  exact sound.seen

/-- An older page is prepended. -/
theorem applyOlder (idle : feed.Idle) (waits : feed.inflight = some .older)
    {cursor : T} {page : FeedPage T} (due : OlderDue feed stored wired r cursor)
    (reply : r.reply = some page) (sight : Sight K) :
    Sound (feed.applyOlder sight page (config.key cursor)) floor epoch stored wired := by
  obtain ⟨oldest, head, same⟩ : ∃ oldest, feed.rows.head? = some oldest ∧ config.key oldest.item = config.key cursor := by
    simpa [keys] using due.head
  rw [← same]
  have prepended := applyOlder_prepended sight sound.sorted head (due.epoch page reply) (due.sorted page reply)
    (same ▸ due.below page reply) (same ▸ due.held)
  generalize feed.applyOlder sight page (config.key oldest.item) = after at prepended ⊢
  obtain ⟨claims, idle⟩ := sound.claims.of_idle idle after (by rw [prepended.rest]) prepended.guard
  refine .of_idle prepended.sorted (by rw [prepended.rest]; exact sound.seen) claims idle (by rw [prepended.rest]) ?_
  intro _ steady row there matches_
  have pending : after.pending = feed.pending := by rw [prepended.rest]
  have filter : after.filter = feed.filter := by rw [prepended.rest]
  have retrying : after.retrying = feed.retrying := by rw [prepended.rest]
  rw [pending]
  rw [filter] at matches_
  rcases sound.quiet (by simp [waits]) (retrying ▸ steady) row there matches_ with wire | pushed | known
  · exact .inl wire
  · exact .inr (.inl pushed)
  · rcases known with here | ⟨-, before⟩ | past
    · exact .inr (.inr (prepended.accounts _ (.inl here)))
    -- older than the window: the page was asked for it
    · have less := before.2 _ (List.mem_of_mem_head? due.head)
      exact (due.covers page reply row there matches_ less).imp_right
        (Or.imp_right fun brings => prepended.accounts _ (.inr (.inr brings)))
    · exact .inr (.inr (prepended.accounts _ (.inr (.inl past))))

theorem failOlder (idle : feed.Idle) (waits : feed.inflight = some .older) :
    Sound feed.failOlder floor epoch stored wired := by
  obtain ⟨claims, idle⟩ := sound.claims.of_idle idle feed.failOlder rfl (.inl rfl)
  exact .of_idle sound.sorted sound.seen claims idle rfl fun _ => sound.quiet (by simp [waits])

/-- A request settles, with the page the host read for it or as a failure. -/
theorem settle {i : Nat} (here : feed.requests[i]? = some r)
    (sight : Sight K) {reply : Option (FeedPage T)} (honest : ∀ page, reply = some page → r.reply = some page) :
    Sound ({ feed with requests := feed.requests.eraseIdx i }.settle sight r reply) floor epoch stored wired := by
  have erased := sound.erased here
  have member := List.mem_of_getElem? here
  simp only [FeedVirtualizer.settle]
  split
  · exact erased
  next current =>
    have current : feed.Current r := not_not.mp current
    have idle := (sound.claims.settled here).2 current
    have flight := sound.claims.flight r member current
    split
    next page kind =>
      have due := sound.loading r member current kind
      exact erased.applyLoad idle
        (r := r) ⟨due.filter, due.newest, due.limit, due.epoch, due.sorted, due.covers⟩ (honest page rfl) sight
    next kind => exact erased.failLoad idle (flight.trans (by rw [kind])) sight
    next page kind =>
      obtain ⟨cursor, due⟩ := sound.paging r member current kind
      rw [due.before]
      exact erased.applyOlder idle (flight.trans (by rw [kind]))
        (r := r) ⟨due.filter, due.before, due.limit, due.more, due.head, due.held, due.epoch, due.sorted, due.below,
          due.covers⟩ (honest page rfl) sight
    next kind => exact erased.failOlder idle (flight.trans (by rw [kind]))

end

/-- The host has read the page of a request. -/
theorem answered {store : Store config.key} (sound : Sound feed floor epoch store.rows wired) {i : Nat}
    (here : feed.requests[i]? = some r) :
    Sound { feed with requests := feed.requests.set i { r with
      reply := some (store.page r.filter (r.before.map config.key) r.limit epoch) } } floor epoch store.rows wired := by
  have member := List.mem_of_getElem? here
  have cases {r' : Request T} (there : r' ∈ feed.requests.set i { r with
      reply := some (store.page r.filter (r.before.map config.key) r.limit epoch) }) :
      r' ∈ feed.requests ∨ r' = { r with reply := some (store.page r.filter (r.before.map config.key) r.limit epoch) } :=
    List.mem_or_eq_of_mem_set there
  refine ⟨sound.sorted, sound.seen, ⟨?_, ?_, ?_, ?_⟩, sound.free, sound.quiet, ?_, ?_⟩
  · intro r' there
    rcases cases there with old | rfl
    · exact sound.claims.bound r' old
    · exact sound.claims.bound r member
  · -- a reply changes neither kind nor generation
    have distinct := List.pairwise_map (f := fun r : Request T => (r.kind, r.generation)) (R := (· ≠ ·)) |>.mpr
      (sound.claims.distinct.imp fun apart same => apart (congrArg Prod.fst same) (congrArg Prod.snd same))
    have same := map_set_of_eq (f := fun r : Request T => (r.kind, r.generation)) (y := { r with
      reply := some (store.page r.filter (r.before.map config.key) r.limit epoch) }) here rfl
    rw [← same, List.pairwise_map] at distinct
    exact distinct.imp fun apart kind generation => apart (by rw [kind, generation])
  · intro r' there current
    rcases cases there with old | rfl
    · exact sound.claims.flight r' old current
    · exact sound.claims.flight r member current
  · intro r' there current
    rcases cases there with old | rfl
    · exact sound.claims.stamp r' old current
    · exact sound.claims.stamp r member current
  · intro r' there current load
    rcases cases there with old | rfl
    · have due := sound.loading r' old current load
      exact ⟨due.filter, due.newest, due.limit, due.epoch, due.sorted, due.covers⟩
    · have due := sound.loading r member current load
      obtain ⟨sorted, -, accounts⟩ := store.page_accounts r.filter (r.before.map config.key) epoch due.limit
      refine ⟨due.filter, due.newest, due.limit, ?_, ?_, ?_⟩
      all_goals
        rintro _ reply
        obtain rfl := Option.some.inj reply
      · exact ⟨sound.seen.2, Nat.le_refl epoch⟩
      · exact sorted
      · intro row stored matches_
        exact .inr (.inr (.inl (accounts row stored (due.filter ▸ matches_) (by simp [due.newest]))))
  · intro r' there current older
    rcases cases there with old | rfl
    · obtain ⟨cursor, due⟩ := sound.paging r' old current older
      exact ⟨cursor, due.filter, due.before, due.limit, due.more, due.head, due.held, due.epoch, due.sorted, due.below,
        due.covers⟩
    · obtain ⟨cursor, due⟩ := sound.paging r member current older
      obtain ⟨sorted, below, accounts⟩ := store.page_accounts r.filter (r.before.map config.key) epoch due.limit
      refine ⟨cursor, due.filter, due.before, due.limit, due.more, due.head, due.held, ?_, ?_, ?_, ?_⟩
      all_goals
        rintro _ reply
        obtain rfl := Option.some.inj reply
      · exact sound.seen.2
      · exact sorted
      · exact fun k there => below k there _ (by simp [due.before])
      · intro row stored matches_ less
        exact .inr (.inr (.inl (accounts row stored (due.filter ▸ matches_) (by simp [due.before, less]))))

end Sound

end Braidcast.Feed
