import Braidcast.Feed.Copies
import Braidcast.Feed.Requests

/-!
# Where the patches on a row come from

A copy that joins the window meets the patches remembered then, which are the last of those
made. Those forgotten are old, older than the page in flight, and were old when any frame that
waits for it was flushed.
-/
namespace Braidcast.Feed

open Lib FeedVirtualizer Moderated

variable {T K : Type} {config : FeedConfig T K}

/-! ### Running patches -/

theorem runAll_append {key : T → K} (ps qs : List (Patch key)) (item : T) :
    runAll (ps ++ qs) item = runAll qs (runAll ps item) := List.foldl_append

theorem Patch.apply_onCopy (patch : Patch config.key) (c : Copy config.key) :
    patch.onCopy.apply c = { c with shown := patch.apply c.shown } := by
  unfold Patch.apply onCopy
  dsimp only
  split <;> rfl

/-- The patches made, as the feed remembers them. -/
def remembered (made : List (Made config.key)) : List (RememberedPatch (copies config).key) :=
  made.mapIdx fun i m => ⟨m.patch.onCopy, i, m.at_⟩

theorem remembered_concat (made : List (Made config.key)) (m : Made config.key) :
    remembered (made ++ [m]) = remembered made ++ [⟨m.patch.onCopy, made.length, m.at_⟩] := by
  simp [remembered, List.mapIdx_append]

@[simp] theorem length_remembered (made : List (Made config.key)) : (remembered made).length = made.length := by
  simp [remembered]

theorem remembered_drop (made : List (Made config.key)) (lost : Nat) :
    ((remembered made).drop lost).map (·.patch) = (made.drop lost).map fun m => m.patch.onCopy := by
  rw [List.map_drop, List.map_drop]
  congr 1
  apply List.ext_getElem
  · simp
  · intro i _ _
    simp [remembered]

theorem patched_eq {feed : FeedVirtualizer (copies config)} {made : List (Made config.key)} {lost : Nat}
    (patches : feed.patches = (remembered made).drop lost) (c : Copy config.key) :
    feed.patched c = { c with shown := runAll ((made.drop lost).map (·.patch)) c.shown } := by
  -- a patch on a copy changes what it shows and nothing else
  have run (ps : List (Patch config.key)) (c : Copy config.key) :
      (ps.map Patch.onCopy).foldl (fun c p => Patch.apply p c) c = { c with shown := runAll ps c.shown } := by
    induction ps generalizing c with
    | nil => rfl
    | cons p rest ih =>
      rw [List.map_cons, List.foldl_cons, Patch.apply_onCopy, ih]
      rfl
  have shape : feed.patches.map (·.patch) = ((made.drop lost).map (·.patch)).map Patch.onCopy := by
    rw [patches, remembered_drop, List.map_map]
    rfl
  rw [← run, ← shape, List.foldl_map]
  rfl

/-! ### Forgetting -/

theorem forget_eq {stamp : Option Nat} {now : Nat} {ps : List (RememberedPatch config.key)}
    (few : (ps.dropWhile fun p => !needed stamp now p).length ≤ PATCH_MEMORY_MAX) :
    ∃ n ≤ ps.length, forget stamp now ps = ps.drop n ∧ ∀ p ∈ ps.take n, needed stamp now p = false := by
  induction ps with
  | nil => exact ⟨0, Nat.le_refl 0, rfl, by simp⟩
  | cons p rest ih =>
    -- the loop stops at the first patch that may be needed; the bound does not stop it earlier
    cases use : needed stamp now p with
    | true =>
      rw [List.dropWhile_cons_of_neg (by simp [use])] at few
      exact ⟨0, Nat.zero_le _, by rw [forget, if_pos ⟨use, few⟩]; rfl, by simp⟩
    | false =>
      rw [List.dropWhile_cons_of_pos (by simp [use])] at few
      obtain ⟨n, le, shape, old⟩ := ih few
      refine ⟨n + 1, Nat.succ_le_succ le, ?_, ?_⟩
      · rw [forget, if_neg (by simp [use]), shape]
        rfl
      · simpa [use] using old

theorem length_forget (stamp : Option Nat) (now : Nat) (ps : List (RememberedPatch config.key)) :
    (forget stamp now ps).length ≤ PATCH_MEMORY_MAX := by
  induction ps with
  | nil => exact Nat.zero_le _
  | cons p rest ih =>
    rw [forget]
    split
    next keeps => exact keeps.2
    · exact ih

variable {made : List (Made config.key)} {cleared lost n : Nat}

theorem drop_remembered_drop {ps : List (RememberedPatch (copies config).key)}
    (shape : ps = (remembered made).drop lost) (n : Nat) : ps.drop n = (remembered made).drop (lost + n) := by
  rw [shape, List.drop_drop]

/-- A patch forgotten now or before. -/
theorem mem_forgotten (bounds : cleared ≤ lost ∧ lost ≤ made.length) {m : Made config.key}
    (member : m ∈ (made.take (lost + n)).drop cleared) :
    m ∈ (made.take lost).drop cleared ∨ ∃ p ∈ ((remembered made).drop lost).take n, p.at_ = m.at_ := by
  rw [List.take_add, List.drop_append_of_le_length (by rw [List.length_take]; omega), List.mem_append] at member
  refine member.imp_right fun late => ?_
  -- the feed's patches are those made, so they carry the same times
  have times : (((remembered made).drop lost).take n).map (·.at_) = ((made.drop lost).take n).map (·.at_) := by
    rw [List.map_take, List.map_take, List.map_drop, List.map_drop]
    congr 2
    apply List.ext_getElem
    · simp
    · intro i _ _
      simp [remembered]
  have there : m.at_ ∈ (((remembered made).drop lost).take n).map (·.at_) := times ▸ List.mem_map_of_mem late
  exact List.mem_map.mp there

/-- Where every patch forgotten now was made before the stamp, so was the last of them. -/
theorem forgotten_le_stamp {s : Nat} (before : lost ≤ s) (le : n ≤ ((remembered made).drop lost).length)
    (older : ∀ p ∈ ((remembered made).drop lost).take n, p.n < s) : lost + n ≤ s := by
  cases n with
  | zero => exact before
  | succ n =>
    have last : ((remembered made).drop lost)[n] ∈ ((remembered made).drop lost).take (n + 1) :=
      List.mem_take_iff_getElem.mpr ⟨n, by omega, rfl⟩
    have := older _ last
    simp only [remembered, List.getElem_drop, List.getElem_mapIdx] at this
    omega

/-! ### Copies on their way -/

variable {c : Copy config.key}

/-- The copy shows what the host sent. -/
def Copy.Fresh {key : T → K} (c : Copy key) : Prop := c.shown = runAll c.ran c.original

theorem Sent.fresh_copy {key : T → K} (sent : Sent key) (via : Via) : (sent.copy via).Fresh := rfl

/-- A copy that lacks none of the patches forgotten that it is to show. -/
structure Ready (made : List (Made config.key)) (cleared lost : Nat) (c : Copy config.key) : Prop where
  fresh : c.Fresh
  lacks : (named (made.take lost) cleared c).Sublist c.ran

/-- A frame that waits for a page: the patches forgotten were old when it was flushed. -/
structure Waits (made : List (Made config.key)) (cleared lost : Nat) (c : Copy config.key) : Prop where
  fresh : c.Fresh
  late : ∃ flushed, c.via = .frame flushed ∧
    ∀ m ∈ (made.take lost).drop cleared, m.at_ + PATCH_RETAIN_MS ≤ flushed

theorem Waits.ready (waits : Waits made cleared lost c) : Ready made cleared lost c := by
  obtain ⟨flushed, via, late⟩ := waits.late
  refine ⟨waits.fresh, ?_⟩
  -- none of the patches forgotten is due on a frame flushed that late
  have none : ((made.take lost).drop cleared).filter (fun m => m.patch.picks c.original && m.due c.via) = [] := by
    rw [List.filter_eq_nil_iff]
    intro m member
    have := late m member
    simp only [via, Made.due, Bool.and_eq_true, decide_eq_true_eq, not_and, Nat.not_lt]
    exact fun _ => this
  rw [named, none]
  exact List.nil_sublist _

/-- A page brings what was forgotten before it was asked for. -/
theorem Ready.of_page {asked : Nat} (later : lost ≤ asked) {row : Sent config.key}
    (honest : (named (made.take asked) cleared (row.copy (.page asked))).Sublist row.ran) :
    Ready made cleared lost (row.copy (.page asked)) := by
  refine ⟨row.fresh_copy _, List.Sublist.trans ?_ honest⟩
  apply (List.Sublist.filter _ ?_).map
  exact (List.take_sublist_take_left later).drop cleared

/-- What joins the window meets the patches that are not forgotten. -/
theorem Ready.reached (ready : Ready made cleared lost c) {feed : FeedVirtualizer (copies config)}
    (patches : feed.patches = (remembered made).drop lost) (bounds : cleared ≤ lost ∧ lost ≤ made.length) :
    Reached made cleared (feed.patched c) := by
  rw [patched_eq patches]
  refine ⟨(made.drop lost).map (·.patch), (List.drop_suffix ..).map _, ?_, ?_⟩
  · rw [runAll_append, ← ready.fresh]
  -- what it is to show was forgotten, and then the host ran it, or is remembered, and then it runs now
  · have parts : made.drop cleared = (made.take lost).drop cleared ++ made.drop lost := by
      rw [← List.drop_append_of_le_length (by rw [List.length_take]; omega), List.take_append_drop]
    rw [named, parts, List.filter_append, List.map_append]
    exact ready.lacks.append (List.filter_sublist.map _)

/-- A patch runs over every row of the window. -/
theorem Moderated.Reached.patch (reached : Reached made cleared c) (m : Made config.key) :
    Reached (made ++ [m]) cleared (m.patch.onCopy.apply c) := by
  obtain ⟨later, suffix_, shows, among⟩ := reached
  rw [Patch.apply_onCopy]
  refine ⟨later ++ [m.patch], ?_, ?_, ?_⟩
  · obtain ⟨before, shape⟩ := suffix_
    exact ⟨before, by rw [List.map_append, ← shape]; simp⟩
  · rw [← List.append_assoc, runAll_append, ← shows]
    rfl
  · rw [← List.append_assoc]
    have parts : (named (made ++ [m]) cleared { c with shown := m.patch.apply c.shown }).Sublist
        (named made cleared c ++ [m.patch]) := by
      simp only [named]
      have tail : ((made ++ [m]).drop cleared).Sublist (made.drop cleared ++ [m]) := by
        rw [List.drop_append]
        exact (List.Sublist.refl _).append (List.drop_sublist ..)
      refine ((tail.filter _).map _).trans ?_
      rw [List.filter_append, List.map_append]
      exact (List.Sublist.refl _).append (List.filter_sublist.map _)
    exact parts.trans (among.append (.refl _))

/-! ### What the feed remembers -/

/-- The feed, against the patches made, those made before the last clear, and those forgotten. -/
structure Tracks (feed : FeedVirtualizer (copies config)) (made : List (Made config.key)) (cleared lost : Nat) : Prop where
  claims : Claims feed
  count : feed.patchCount = made.length
  patches : feed.patches = (remembered made).drop lost
  few : feed.patches.length ≤ PATCH_MEMORY_MAX
  bounds : cleared ≤ lost ∧ lost ≤ made.length
  old : ∀ m ∈ (made.take lost).drop cleared, m.at_ + PATCH_RETAIN_MS ≤ feed.now
  stamp : ∀ s, feed.patchStamp = some s → lost ≤ s
  loads : feed.inflight ≠ some .load → feed.loadBuf = []
  pages : feed.inflight ≠ some .older → feed.heldOld = []
  pending : ∀ c ∈ feed.pending, c.Fresh
  buffered : ∀ c ∈ feed.loadBuf, Waits made cleared lost c
  held : ∀ c ∈ feed.heldOld, Waits made cleared lost c
  rows : ∀ r ∈ feed.rows, Reached made cleared r.item

namespace Tracks

variable {feed after : FeedVirtualizer (copies config)}

section

variable (tracks : Tracks feed made cleared lost)
include tracks

/-- What is not the patches' changes nothing. -/
theorem same (rest : after = { feed with
      viewH := after.viewH, autoStick := after.autoStick, more := after.more, detached := after.detached
      unseen := after.unseen, retrying := after.retrying, rafId := after.rafId, epoch := after.epoch
      retryTimer := after.retryTimer, retryMs := after.retryMs, staleFilter := after.staleFilter
      restickOnLoad := after.restickOnLoad, filter := after.filter }) : Tracks after made cleared lost := by
  rw [rest]
  exact ⟨tracks.claims.same rfl rfl rfl rfl, tracks.count, tracks.patches, tracks.few, tracks.bounds, tracks.old,
    tracks.stamp, tracks.loads, tracks.pages, tracks.pending, tracks.buffered, tracks.held, tracks.rows⟩

/-- With no page in flight there is only the window and what is queued to look at. -/
theorem of_idle (claims : Claims after)
    (rest : after.patches = feed.patches ∧ after.patchCount = feed.patchCount ∧ after.now = feed.now)
    (stamp : after.patchStamp = none) (pending : ∀ c ∈ after.pending, c.Fresh) (loads : after.loadBuf = [])
    (pages : after.heldOld = []) (rows : ∀ r ∈ after.rows, Reached made cleared r.item) :
    Tracks after made cleared lost := by
  obtain ⟨patches, count, now⟩ := rest
  refine ⟨claims, count.trans tracks.count, patches.trans tracks.patches, patches ▸ tracks.few, tracks.bounds,
    now ▸ tracks.old, ?_, fun _ => loads, fun _ => pages, pending, ?_, ?_, rows⟩
  · simp [stamp]
  · simp [loads]
  · simp [pages]

/-- A page is asked for: only patches too old for any frame to come are forgotten. -/
theorem asks (claims : Claims after) (patches : after.patches = forget (some feed.patchCount) feed.now feed.patches)
    (stamp : after.patchStamp = some feed.patchCount)
    (rest : after.patchCount = feed.patchCount ∧ after.now = feed.now ∧ after.rows = feed.rows)
    (pending : ∀ c ∈ after.pending, c ∈ feed.pending) (loads : after.loadBuf = []) (pages : after.heldOld = []) :
    ∃ lost, Tracks after made cleared lost := by
  obtain ⟨count, now, rows⟩ := rest
  -- no more are remembered than the bound, so only age forgets them
  have few : (feed.patches.dropWhile fun p => !needed (some feed.patchCount) feed.now p).length ≤ PATCH_MEMORY_MAX :=
    Nat.le_trans (List.dropWhile_sublist _).length_le tracks.few
  obtain ⟨n, le, shape, unneeded⟩ := forget_eq few
  have bound : lost + n ≤ made.length := by
    have := tracks.bounds.2
    rw [tracks.patches, List.length_drop, length_remembered] at le
    omega
  refine ⟨lost + n, claims, count.trans tracks.count, ?_, ?_, ⟨by have := tracks.bounds; omega, bound⟩, ?_, ?_,
    fun _ => loads, fun _ => pages, fun c member => tracks.pending c (pending c member), ?_, ?_, ?_⟩
  · rw [patches, shape]
    exact drop_remembered_drop tracks.patches n
  · rw [patches]
    exact length_forget ..
  · intro m member
    rw [now]
    rcases mem_forgotten tracks.bounds member with before | ⟨p, there, same⟩
    · exact tracks.old m before
    · have := unneeded p (tracks.patches ▸ there)
      simp only [needed, Bool.or_eq_false_iff, decide_eq_false_iff_not, Nat.not_lt] at this
      exact same ▸ this.2
  · intro s same
    obtain rfl := Option.some.inj (stamp.symm.trans same)
    rw [tracks.count]
    exact bound
  · simp [loads]
  · simp [pages]
  · rw [rows]
    exact tracks.rows

theorem fetchNewest (restick : Bool) :
    ∃ lost, Tracks (feed.fetchNewest restick) made cleared lost := by
  obtain ⟨autoStick, unseen, detached, shape⟩ := feed.fetchNewest_eq restick
  apply tracks.asks (tracks.claims.fetchNewest restick).1
  all_goals rw [shape]
  · exact ⟨rfl, rfl, rfl⟩
  · exact fun c member => nomatch member

theorem maybeFetchOlder (nearTop : Bool) :
    ∃ lost, Tracks (feed.maybeFetchOlder nearTop) made cleared lost := by
  have claims := tracks.claims.maybeFetchOlder nearTop
  rcases feed.maybeFetchOlder_cases nearTop with same | ⟨cursor, free, -, -, shape⟩
  · rw [same]
    exact ⟨lost, tracks⟩
  · apply tracks.asks claims
    all_goals rw [shape]
    · exact ⟨rfl, rfl, rfl⟩
    · exact fun c => id
    · exact tracks.loads (by simp [free])
    · exact tracks.pages (by simp [free])

theorem reloadDetached : ∃ lost, Tracks feed.reloadDetached made cleared lost :=
  fetchNewest (tracks.same rfl) false

theorem onScroll (atBottom nearTop : Bool) :
    ∃ lost, Tracks (feed.onScroll atBottom nearTop) made cleared lost := by
  simp only [FeedVirtualizer.onScroll]
  split
  · split
    · exact tracks.reloadDetached
    · exact tracks.maybeFetchOlder nearTop
  · exact maybeFetchOlder (tracks.same rfl) nearTop

theorem jumpToLatest : ∃ lost, Tracks feed.jumpToLatest made cleared lost := by
  simp only [FeedVirtualizer.jumpToLatest]
  split
  · exact tracks.reloadDetached
  · exact ⟨lost, tracks.same rfl⟩

theorem retry (nearTop : Bool) :
    ∃ lost, Tracks (feed.retry nearTop) made cleared lost := by
  simp only [FeedVirtualizer.retry]
  split
  · exact ⟨lost, tracks⟩
  · exact fetchNewest (tracks.same rfl) false
  · exact maybeFetchOlder (tracks.same rfl) nearTop

theorem queued (items : List (Copy config.key)) (rafId : Bool) (fresh : ∀ c ∈ items, c.Fresh) :
    Tracks { feed with pending := feed.pending ++ items, rafId } made cleared lost :=
  ⟨tracks.claims.same rfl rfl rfl rfl, tracks.count, tracks.patches, tracks.few, tracks.bounds, tracks.old, tracks.stamp,
    tracks.loads, tracks.pages, fun c member => (List.mem_append.mp member).elim (tracks.pending c) (fresh c),
    tracks.buffered, tracks.held, tracks.rows⟩

variable [LinearOrder K]

theorem reset {epoch : Nat} (new : feed.epoch < epoch) :
    Tracks (feed.reset epoch) made made.length made.length := by
  have claims := (tracks.claims.reset new).1
  rw [feed.reset_eq new] at claims ⊢
  refine ⟨claims, tracks.count, ?_, Nat.zero_le _, ⟨Nat.le_refl _, Nat.le_refl _⟩, ?_, ?_, fun _ => rfl, fun _ => rfl,
    ?_, ?_, ?_, ?_⟩
  · rw [List.drop_of_length_le (by simp)]
  · simp
  all_goals exact fun x member => nomatch member

/-- Frames join the window, or wait for the older page. -/
theorem arrived {batch : List (Copy config.key)}
    (waits : ∀ c ∈ batch, Waits made cleared lost c) (arrived : Arrived feed batch after) :
    Tracks after made cleared lost := by
  have patches : after.patches = feed.patches := by rw [arrived.rest]
  have now : after.now = feed.now := by rw [arrived.rest]
  have loadBuf : after.loadBuf = feed.loadBuf := by rw [arrived.rest]
  have pending : after.pending = feed.pending := by rw [arrived.rest]
  have count : after.patchCount = feed.patchCount := by rw [arrived.rest]
  refine ⟨tracks.claims.arrived arrived, count.trans tracks.count, patches.trans tracks.patches, patches ▸ tracks.few,
    tracks.bounds, now ▸ tracks.old, ?_, ?_, ?_, pending ▸ tracks.pending, loadBuf ▸ tracks.buffered, ?_, ?_⟩
  -- discarding the older page clears the stamp; otherwise it is the one there was
  · intro s same
    rcases arrived.requests with ⟨-, -, stamp⟩ | ⟨-, -, stamp, -⟩
    · exact tracks.stamp s (stamp ▸ same)
    · rw [stamp] at same
      split at same
      · cases same
      · exact tracks.stamp s same
  · intro free
    rw [loadBuf]
    apply tracks.loads
    rcases arrived.requests with ⟨-, inflight, -⟩ | ⟨-, inflight, -, -⟩
    · exact inflight ▸ free
    · rintro loads
      rw [inflight, loads] at free
      exact free rfl
  · intro free
    apply List.eq_nil_iff_forall_not_mem.mpr
    intro c member
    rcases arrived.requests with ⟨-, inflight, -⟩ | ⟨-, -, -, none⟩
    · rw [inflight] at free
      rcases arrived.waiting c member with old | ⟨older, -⟩
      · simp [tracks.pages free] at old
      · exact free older
    · simp [none] at member
  · intro c member
    rcases arrived.waiting c member with old | ⟨-, new⟩
    · exact tracks.held c old
    · exact waits c new
  · intro r member
    rcases arrived.rows r member with old | ⟨c, there, same⟩
    · exact tracks.rows r old
    · rw [same]
      exact (waits c there).ready.reached tracks.patches tracks.bounds

/-- The frame: what was queued is flushed. -/
theorem flush (sight : Sight K) :
    Tracks ({ feed with pending := feed.pending.map (Copy.flushedAt feed.now) }.flush sight) made cleared lost := by
  -- what is forgotten by now is too old for a frame flushed now
  have waits : ∀ c ∈ feed.pending.map (Copy.flushedAt feed.now), Waits made cleared lost c := by
    intro c member
    obtain ⟨queued, there, rfl⟩ := List.mem_map.mp member
    exact ⟨tracks.pending queued there, feed.now, rfl, tracks.old⟩
  unfold FeedVirtualizer.flush
  dsimp only
  split
  next loads =>
    refine ⟨tracks.claims.same rfl rfl rfl rfl, tracks.count, tracks.patches, tracks.few, tracks.bounds, tracks.old,
      tracks.stamp, fun free => absurd loads free, tracks.pages, ?_, fun c member => ?_, tracks.held, tracks.rows⟩
    · exact fun c member => nomatch member
    · exact (List.mem_append.mp member).elim (tracks.buffered c) (waits c)
  next free =>
    have start : Tracks { feed with rafId := false, pending := [] } made cleared lost :=
      ⟨tracks.claims.same rfl rfl rfl rfl, tracks.count, tracks.patches, tracks.few, tracks.bounds, tracks.old,
        tracks.stamp, tracks.loads, tracks.pages, by simp, tracks.buffered, tracks.held, tracks.rows⟩
    exact start.arrived waits (FeedVirtualizer.arrived ..)

omit [LinearOrder K] in
/-- A patch is made: of those remembered, the ones it lets go are old, were made before the page
in flight was asked for, and were old when each frame that waits was flushed. -/
theorem patch (m : Made config.key) (now : m.at_ = feed.now)
    (within : ((feed.patches.concat ⟨m.patch.onCopy, feed.patchCount, feed.now⟩).dropWhile fun p =>
      !needed feed.patchStamp feed.now p).length ≤ PATCH_MEMORY_MAX)
    (unparked : ∀ c ∈ feed.loadBuf ++ feed.heldOld, ∀ flushed, c.via = .frame flushed → ∀ p ∈ feed.patches,
      needed feed.patchStamp feed.now p = false → p.at_ + PATCH_RETAIN_MS ≤ flushed) :
    ∃ lost, Tracks (feed.patch m.patch.onCopy) (made ++ [m]) cleared lost := by
  obtain ⟨cleared_le, lost_le⟩ := tracks.bounds
  have before : ((made ++ [m]).take lost).drop cleared = (made.take lost).drop cleared := by
    rw [List.take_append_of_le_length lost_le]
  have bounds : cleared ≤ lost ∧ lost ≤ (made ++ [m]).length := ⟨cleared_le, by rw [List.length_append]; omega⟩
  obtain ⟨n, le, shape, unneeded⟩ := forget_eq within
  -- the new patch is young, so it is among those kept
  have mine : ∀ p ∈ (feed.patches.concat ⟨m.patch.onCopy, feed.patchCount, feed.now⟩).take n, p ∈ feed.patches := by
    intro p member
    have old := unneeded p member
    have either := List.mem_of_mem_take member
    simp only [List.concat_eq_append, List.mem_append, List.mem_singleton] at either
    rcases either with there | rfl
    · exact there
    · simp [needed, PATCH_RETAIN_MS] at old
  have pushed : feed.patches.concat ⟨m.patch.onCopy, feed.patchCount, feed.now⟩ =
      (remembered (made ++ [m])).drop lost := by
    rw [remembered_concat, List.drop_append_of_le_length (by simpa using lost_le), ← tracks.patches, tracks.count, now,
      List.concat_eq_append]
  rw [pushed] at mine shape unneeded le
  -- for a frame that waits, the patches let go now were already old when it was flushed
  have late : ∀ c, Waits made cleared lost c → c ∈ feed.loadBuf ++ feed.heldOld →
      Waits (made ++ [m]) cleared (lost + n) c := by
    intro c waits there
    obtain ⟨flushed, via, late⟩ := waits.late
    refine ⟨waits.fresh, flushed, via, fun m member => ?_⟩
    rcases mem_forgotten bounds member with old | ⟨p, taken, same⟩
    · exact late m (before ▸ old)
    · exact same ▸ unparked c there flushed via p (mine p taken) (unneeded p taken)
  have patches : (feed.patch m.patch.onCopy).patches = (remembered (made ++ [m])).drop (lost + n) := by
    rw [← List.drop_drop, ← shape, ← pushed, List.concat_eq_append]
    rfl
  refine ⟨lost + n, tracks.claims.same rfl rfl rfl rfl, ?_, patches, length_forget .., ⟨by omega, ?_⟩, ?_, ?_,
    tracks.loads, tracks.pages, tracks.pending, ?_, ?_, ?_⟩
  · show feed.patchCount + 1 = (made ++ [m]).length
    rw [tracks.count, List.length_append]
    rfl
  · rw [List.length_drop, length_remembered] at le
    omega
  · intro m member
    rcases mem_forgotten bounds member with old | ⟨p, taken, same⟩
    · exact tracks.old m (before ▸ old)
    · have := unneeded p taken
      simp only [needed, Bool.or_eq_false_iff, decide_eq_false_iff_not, Nat.not_lt] at this
      exact same ▸ this.2
  · intro s stamp
    -- a page in flight needs every patch from its stamp on, so none of those is let go
    refine forgotten_le_stamp (tracks.stamp s stamp) le fun p taken => ?_
    have := unneeded p taken
    rw [show feed.patchStamp = some s from stamp] at this
    simp only [needed, Option.any_some, Bool.or_eq_false_iff, decide_eq_false_iff_not, Nat.not_le] at this
    exact this.1
  · exact fun c member => late c (tracks.buffered c member) (List.mem_append_left _ member)
  · exact fun c member => late c (tracks.held c member) (List.mem_append_right _ member)
  · intro r member
    obtain ⟨r, there, rfl⟩ := List.mem_map.mp member
    exact (tracks.rows r there).patch m

omit [LinearOrder K] in
/-- The one request in flight has settled. -/
theorem erased {i : Nat} {r : Request (Copy config.key)}
    (here : feed.requests[i]? = some r) : Tracks { feed with requests := feed.requests.eraseIdx i } made cleared lost :=
  ⟨(tracks.claims.settled here).1, tracks.count, tracks.patches, tracks.few, tracks.bounds, tracks.old, tracks.stamp,
    tracks.loads, tracks.pages, tracks.pending, tracks.buffered, tracks.held, tracks.rows⟩

theorem applyLoad (idle : feed.Idle) (sight : Sight K)
    {page : FeedPage (Copy config.key)} (ready : ∀ c ∈ page.items, Ready made cleared lost c) :
    Tracks (feed.applyLoad sight page) made cleared lost := by
  by_cases current : feed.epoch ≤ page.epoch
  · have loaded := applyLoad_loaded feed sight current
    generalize feed.applyLoad sight page = after at loaded ⊢
    obtain ⟨claims, -⟩ := tracks.claims.of_idle idle after (by rw [loaded.rest]) (.inl (by rw [loaded.rest]))
    apply tracks.of_idle claims
    · rw [loaded.rest]
      exact ⟨rfl, rfl, rfl⟩
    · rw [loaded.rest]
    · rw [loaded.rest]
      exact tracks.pending
    · rw [loaded.rest]
    · rw [loaded.rest]
    · intro r member
      obtain ⟨c, from_, same⟩ := loaded.rows r member
      rw [same]
      rcases from_ with there | waited
      · exact (ready c there).reached tracks.patches tracks.bounds
      · exact (tracks.buffered c waited).ready.reached tracks.patches tracks.bounds
  · rw [applyLoad_stale feed sight (Nat.lt_of_not_le current)]
    apply arrived _ tracks.buffered (FeedVirtualizer.arrived ..)
    apply tracks.of_idle
    · apply And.left
      exact tracks.claims.of_idle idle _ rfl (.inl rfl)
    exacts [⟨rfl, rfl, rfl⟩, rfl, tracks.pending, rfl, rfl, tracks.rows]

theorem failLoad (idle : feed.Idle) (loads : feed.inflight = some .load)
    (sight : Sight K) : Tracks (feed.failLoad sight) made cleared lost := by
  have shape := feed.endLoad_eq
  have start : Tracks feed.endLoad made cleared lost := by
    apply tracks.of_idle (tracks.claims.of_idle idle feed.endLoad (by rw [shape]) (.inl (by rw [shape]))).1
    · rw [shape]
      exact ⟨rfl, rfl, rfl⟩
    · rw [shape]
    · rw [shape]
      exact tracks.pending
    · rw [shape]
    · rw [shape]
      exact tracks.pages (by simp [loads])
    · exact fun r member => tracks.rows r (feed.endLoad_rows r member)
  have released := start.arrived tracks.buffered (FeedVirtualizer.arrived feed.endLoad sight feed.loadBuf)
  exact released.same rfl

theorem applyOlder (idle : feed.Idle) (older : feed.inflight = some .older)
    (sight : Sight K) {page : FeedPage (Copy config.key)} (ready : ∀ c ∈ page.items, Ready made cleared lost c)
    (cursorKey : K) : Tracks (feed.applyOlder sight page cursorKey) made cleared lost := by
  have arrived := feed.applyOlder_arrived sight page cursorKey
  generalize feed.applyOlder sight page cursorKey = after at arrived ⊢
  obtain ⟨claims, -⟩ := tracks.claims.of_idle idle after (by rw [arrived.rest]) arrived.guard
  apply tracks.of_idle claims
  · rw [arrived.rest]
    exact ⟨rfl, rfl, rfl⟩
  · rw [arrived.rest]
  · rw [arrived.rest]
    exact tracks.pending
  · rw [arrived.rest]
    exact tracks.loads (by simp [older])
  · rw [arrived.rest]
  · intro r member
    rcases arrived.rows r member with old | ⟨c, from_, same⟩
    · exact tracks.rows r old
    · rw [same]
      rcases from_ with there | waited
      · exact (ready c there).reached tracks.patches tracks.bounds
      · exact (tracks.held c waited).ready.reached tracks.patches tracks.bounds

omit [LinearOrder K] in
theorem failOlder (idle : feed.Idle) (older : feed.inflight = some .older) :
    Tracks feed.failOlder made cleared lost := by
  obtain ⟨claims, -⟩ := tracks.claims.of_idle idle feed.failOlder rfl (.inl rfl)
  exact tracks.of_idle claims ⟨rfl, rfl, rfl⟩ rfl tracks.pending (tracks.loads (by simp [older])) rfl tracks.rows

/-- A request settles. A page that is taken was asked for after every patch forgotten. -/
theorem settle {i : Nat} {r : Request (Copy config.key)}
    (here : feed.requests[i]? = some r) (sight : Sight K) {reply : Option (FeedPage (Copy config.key))}
    (ready : lost ≤ r.asked → ∀ page, reply = some page → ∀ c ∈ page.items, Ready made cleared lost c) :
    Tracks ({ feed with requests := feed.requests.eraseIdx i }.settle sight r reply) made cleared lost := by
  have erased := tracks.erased here
  have member := List.mem_of_getElem? here
  simp only [FeedVirtualizer.settle]
  split
  · exact erased
  next current =>
    have current : feed.Current r := not_not.mp current
    have idle := (tracks.claims.settled here).2 current
    have flight := tracks.claims.flight r member current
    have asked := tracks.stamp _ (tracks.claims.stamp r member current)
    split
    next page kind => exact erased.applyLoad idle sight (ready asked page rfl)
    next kind => exact erased.failLoad idle (flight.trans (by rw [kind])) sight
    next page kind =>
      split
      · exact erased.applyOlder idle (flight.trans (by rw [kind])) sight (ready asked page rfl) _
      · exact erased
    next kind => exact erased.failOlder idle (flight.trans (by rw [kind]))

end

end Tracks

/-! ### Runs -/

namespace Moderated

variable [LinearOrder K] {w w' : Moderated config} {event : ModeratedEvent config}

def Tracked (w : Moderated config) : Prop := ∃ lost, Tracks w.feed w.made w.cleared lost

theorem Tracked.settle (tracked : w.Tracked) {i : Nat} {sight : Sight K}
    {reply : Request (Copy config.key) → Option (FeedPage (Copy config.key))}
    (honest : ∀ r, w.feed.requests[i]? = some r → ∀ page, reply r = some page → ∀ lost ≤ r.asked,
      ∀ c ∈ page.items, Ready w.made w.cleared lost c)
    (step : w.settle i sight reply = some w') : w'.Tracked := by
  obtain ⟨lost, tracks⟩ := tracked
  obtain ⟨r, here, rfl⟩ := Option.map_eq_some_iff.mp step
  exact ⟨lost, tracks.settle here sight fun asked page same => honest r here page same lost asked⟩

theorem Tracked.step (tracked : w.Tracked) (step : ModeratedStep w event w') (within : w.Within event)
    (unparked : w.Unparked event) : w'.Tracked := by
  obtain ⟨honest, step⟩ := step
  obtain ⟨lost, tracks⟩ := tracked
  cases event with
  | load filter =>
    obtain rfl := Option.some.inj step
    exact (tracks.same rfl).fetchNewest true
  | jumpToLatest =>
    obtain rfl := Option.some.inj step
    exact tracks.jumpToLatest
  | scroll atBottom nearTop =>
    obtain rfl := Option.some.inj step
    exact tracks.onScroll atBottom nearTop
  | settled nearTop =>
    obtain rfl := Option.some.inj step
    exact tracks.maybeFetchOlder nearTop
  | resize viewH =>
    obtain rfl := Option.some.inj step
    exact ⟨lost, tracks.same rfl⟩
  | retry nearTop =>
    obtain ⟨-, same⟩ := Option.ite_none_right_eq_some.mp step
    obtain rfl := Option.some.inj same
    exact tracks.retry nearTop
  | tick ms =>
    obtain rfl := Option.some.inj step
    exact ⟨lost, tracks.claims.same rfl rfl rfl rfl, tracks.count, tracks.patches, tracks.few, tracks.bounds,
      fun m member => Nat.le_trans (tracks.old m member) (Nat.le_add_right ..), tracks.stamp, tracks.loads, tracks.pages,
      tracks.pending, tracks.buffered, tracks.held, tracks.rows⟩
  | live row =>
    obtain rfl := Option.some.inj step
    exact ⟨lost, tracks.queued [row.copy .queued] true (by simp [Sent.fresh_copy])⟩
  | merge rows =>
    obtain rfl := Option.some.inj step
    refine ⟨lost, tracks.queued _ true fun c member => ?_⟩
    obtain ⟨row, -, rfl⟩ := List.mem_map.mp member
    exact row.fresh_copy _
  | frame sight =>
    obtain ⟨-, same⟩ := Option.ite_none_right_eq_some.mp step
    obtain rfl := Option.some.inj same
    exact ⟨lost, tracks.flush sight⟩
  | patch patch =>
    obtain rfl := Option.some.inj step
    exact tracks.patch ⟨patch, w.feed.now⟩ rfl within unparked
  | reset epoch =>
    obtain rfl := Option.some.inj step
    by_cases new : w.feed.epoch < epoch
    · exact ⟨w.made.length, by simpa [Nat.not_le.mpr new] using tracks.reset new⟩
    · refine ⟨lost, ?_⟩
      rw [FeedVirtualizer.reset, if_pos (Nat.not_lt.mp new)]
      simpa [Nat.not_lt.mp new] using tracks
  | arrive i page sight =>
    refine Tracked.settle ⟨lost, tracks⟩ ?_ step
    rintro r here _ ⟨rfl⟩ lost asked c member
    obtain ⟨row, there, rfl⟩ := List.mem_map.mp member
    exact .of_page asked (honest r here row there)
  | fail i sight =>
    exact Tracked.settle ⟨lost, tracks⟩ (by simp) step

omit [LinearOrder K] in
theorem tracked_opened (filter : T → Bool) : (opened filter : Moderated config).Tracked := by
  have start : Tracks ({} : FeedVirtualizer (copies config)) [] 0 0 := by
    refine ⟨.of_no_requests rfl, rfl, rfl, Nat.zero_le _, ⟨Nat.le_refl 0, Nat.le_refl 0⟩, ?_, ?_, fun _ => rfl,
      fun _ => rfl, ?_, ?_, ?_, ?_⟩
    all_goals exact fun x member => nomatch member
  exact (start.same rfl).fetchNewest true

/-! What a computation shows of a step. -/

omit [LinearOrder K] in
theorem within_of_few (few : w.feed.patches.length < PATCH_MEMORY_MAX) (event : ModeratedEvent config) : w.Within event := by
  cases event with
  | patch patch =>
    refine Nat.le_trans (List.dropWhile_sublist _).length_le ?_
    rw [List.length_concat]
    exact few
  | _ => trivial

omit [LinearOrder K] in
theorem unparked_of_needed (all : w.feed.patches.all (needed w.feed.patchStamp w.feed.now) = true)
    (event : ModeratedEvent config) : w.Unparked event := by
  cases event with
  | patch patch =>
    intro c _ flushed _ p member old
    have := List.all_eq_true.mp all p member
    rw [old] at this
    cases this
  | _ => trivial

/-- No page comes in, or it was asked for before any patch. -/
def early (w : Moderated config) : ModeratedEvent config → Bool
  | .arrive i _ _ => w.feed.requests[i]?.all (·.asked == 0)
  | _ => true

omit [LinearOrder K] in
theorem honest_of_early (first : w.early event = true) : w.Honest event := by
  cases event with
  | arrive i page sight =>
    intro r here row _
    have none : r.asked = 0 := by simpa [early, here] using first
    simp [named, none]
  | _ => trivial

end Moderated

/-- In a run where no patch pushes out one that may be needed, and none is made while a frame
waits that was flushed in time for a patch it lets go, every row shows the patches that name it. -/
theorem patches_reach_rows [LinearOrder K] {filter : T → Bool}
    {ms : List (Moment (Moderated config) (ModeratedEvent config))} {w : Moderated config}
    (run : Run ModeratedStep (Moderated.opened filter) ms w) (within : ∀ m ∈ ms, m.before.Within m.input)
    (unparked : ∀ m ∈ ms, m.before.Unparked m.input) : ∀ r ∈ w.feed.rows, Reached w.made w.cleared r.item := by
  have ok : ∀ m ∈ ms, m.before.Within m.input ∧ m.before.Unparked m.input := fun m member =>
    ⟨within m member, unparked m member⟩
  have tracked := run.invariant (P := Moderated.Tracked) (fun m ok step inv => inv.step step ok.1 ok.2) ok
    (Moderated.tracked_opened filter)
  obtain ⟨lost, tracks⟩ := tracked.1
  exact tracks.rows

/-- Rows of an id and a text. -/
def messages : FeedConfig (Nat × Nat) Nat := ⟨Prod.fst, 10, 4, 4, 6, 6, by decide, by decide, by decide⟩

/-- Take the text off one message. -/
def redact (id : Nat) : Patch messages.key := ⟨fun row => row.1 = id, fun row => (row.1, 0), fun _ => rfl⟩

/-- A message comes in a live frame, and another in a page that takes a minute, after a patch on
each was made. -/
theorem patches_reach_rows_late :
    ∃ (ms : List (Moment (Moderated messages) (ModeratedEvent messages))) (w : Moderated messages),
      Run ModeratedStep (Moderated.opened fun _ => true) ms w ∧
      w.feed.rows.map (fun r => (r.item.original, r.item.shown)) = [((7, 1), (7, 0)), ((8, 1), (8, 0))] ∧
      ∀ r ∈ w.feed.rows, Reached w.made w.cleared r.item := by
  obtain ⟨ms, w, run, shown⟩ := exists_run_of_follow Moderated.step (Moderated.opened fun _ => true)
    [.patch (redact 8), .tick 3000, .live ⟨(8, 1), []⟩, .frame ⟨[], none⟩, .tick 60000, .patch (redact 7),
      .arrive 0 ⟨[⟨(7, 1), []⟩], false, 0⟩ ⟨[], none⟩]
    (fun ms w => ms.all (fun m => m.before.early m.input && decide (m.before.feed.patches.length < PATCH_MEMORY_MAX) &&
        m.before.feed.patches.all (needed m.before.feed.patchStamp m.before.feed.now)) &&
      decide (w.feed.rows.map (fun r => (r.item.original, r.item.shown)) = [((7, 1), (7, 0)), ((8, 1), (8, 0))]))
    (by decide)
  simp only [Bool.and_eq_true, List.all_eq_true, decide_eq_true_eq] at shown
  obtain ⟨each, rows⟩ := shown
  have honest := run.also fun m member => Moderated.honest_of_early (each m member).1.1
  refine ⟨ms, w, honest, rows, ?_⟩
  apply patches_reach_rows honest
  · exact fun m member => Moderated.within_of_few (each m member).1.2 m.input
  · exact fun m member => Moderated.unparked_of_needed (List.all_eq_true.mpr (each m member).2) m.input

/-- A row that is to show the first of two patches shows them both. -/
theorem Moderated.Reached.of_two {c : Copy config.key} {m m' : Made config.key} (reached : Reached [m, m'] 0 c)
    (sent : c.ran = []) (due : m.patch.picks c.original = true ∧ m.due c.via = true)
    (other : m'.patch.picks c.original = false) : c.shown = m'.patch.apply (m.patch.apply c.original) := by
  obtain ⟨later, ⟨before, shape⟩, shows, among⟩ := reached
  have member : m.patch ∈ later := by
    have named_ : named [m, m'] 0 c = [m.patch] := by simp [named, due, other]
    rw [named_, sent, List.nil_append, List.singleton_sublist] at among
    exact among
  cases before with
  | nil =>
    obtain rfl : later = [m.patch, m'.patch] := shape
    rw [shows, sent]
    rfl
  | cons first rest =>
    have tail : rest ++ later = [m'.patch] := (List.cons.inj shape).2
    have same : m.patch ∈ [m'.patch] := tail ▸ List.mem_append_right rest member
    rw [List.mem_singleton.mp same, other] at due
    cases due.1

/-- The one row came in a frame, as it was first sent, and shows it so; the first of the two
patches names it. -/
def bare : List (ItemRow (Copy messages.key)) → List (Made messages.key) → Bool
  | [r], [m, m'] => r.item.ran.isEmpty && (m.patch.picks r.item.original && m.due r.item.via) &&
      !m'.patch.picks r.item.original && decide (r.item.via = .frame 6000 ∧ r.item.shown = (7, 1) ∧
        r.item.shown ≠ m'.patch.apply (m.patch.apply r.item.original))
  | _, _ => false

/-- A live frame comes six seconds after the patch on its row and waits for a load asked for
since; another patch is made, and the load fails. -/
theorem frame_waits_past_patch :
    ∃ (ms : List (Moment (Moderated messages) (ModeratedEvent messages))) (w : Moderated messages),
      Run ModeratedStep (Moderated.opened fun _ => true) ms w ∧ (∀ m ∈ ms, m.before.Within m.input) ∧
      ∃ r ∈ w.feed.rows, r.item.via = .frame 6000 ∧ r.item.shown = (7, 1) ∧ ¬ Reached w.made w.cleared r.item := by
  obtain ⟨ms, w, run, shown⟩ := exists_run_of_follow Moderated.step (Moderated.opened fun _ => true)
    [.patch (redact 7), .tick 5000, .load fun _ => true, .tick 1000, .live ⟨(7, 1), []⟩, .frame ⟨[], none⟩, .tick 14000,
      .patch (redact 8), .fail 1 ⟨[], none⟩]
    (fun ms w => ms.all (fun m => m.before.early m.input && decide (m.before.feed.patches.length < PATCH_MEMORY_MAX)) &&
      bare w.feed.rows w.made && decide (w.cleared = 0))
    (by decide)
  simp only [Bool.and_eq_true, List.all_eq_true, decide_eq_true_eq] at shown
  obtain ⟨⟨each, last⟩, cleared⟩ := shown
  refine ⟨ms, w, run.also fun m member => Moderated.honest_of_early (each m member).1,
    fun m member => Moderated.within_of_few (each m member).2 m.input, ?_⟩
  simp only [bare] at last
  split at last
  next r m m' rows made =>
    simp only [Bool.and_eq_true, List.isEmpty_iff, Bool.not_eq_true', decide_eq_true_eq] at last
    obtain ⟨⟨⟨sent, due⟩, other⟩, via, text, differs⟩ := last
    refine ⟨r, by simp [rows], via, text, fun reached => differs ?_⟩
    rw [made, cleared] at reached
    exact reached.of_two sent due other
  · cases last

end Braidcast.Feed
