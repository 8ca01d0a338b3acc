import Braidcast.Feed.Sound

/-!
# The window has no hole

A row is pushed as it is stored, and nothing overtakes a clear's push: behind it come all the
rows stored since. So a clear the feed had not seen empties the window and nothing is lost,
and one it had seen changes nothing.
-/
namespace Braidcast.Feed

open Lib FeedVirtualizer

variable {T K : Type} [LinearOrder K] {config : FeedConfig T K}

namespace World

variable {w w' : World config}

/-- The rows on their way. -/
def wired (wire : List (Push T)) : List T := wire.flatMap Push.rows

/-- What holds of the world: behind a clear's push are all the rows stored since. -/
structure Sound (w : World config) : Prop where
  feed : Feed.Sound w.feed w.feed.epoch w.epoch w.store.rows (wired w.wire)
  cleared : ∀ before after epoch, w.wire = before ++ .cleared epoch :: after →
    epoch ≤ w.epoch ∧ ∀ row ∈ w.store.rows, row ∈ wired after
  replies : ∀ epoch ∈ w.replies, epoch ≤ w.epoch ∧ (epoch ≤ w.feed.epoch ∨ .cleared epoch ∈ w.wire)

/-- What holds against an epoch seen before holds against the newest. -/
theorem now {feed : FeedVirtualizer config} {floor epoch : Nat} {stored wired : List T}
    (sound : Feed.Sound feed floor epoch stored wired) : Feed.Sound feed feed.epoch epoch stored wired :=
  { sound with seen := ⟨Nat.le_refl _, sound.seen.2⟩ }

/-- The dock's own step. -/
theorem Sound.onFeed (sound : w.Sound) {f : FeedVirtualizer config → FeedVirtualizer config}
    (feed : Feed.Sound (f w.feed) w.feed.epoch w.epoch w.store.rows (wired w.wire)) : (w.onFeed f).Sound :=
  ⟨now feed, sound.cleared, fun epoch member => (sound.replies epoch member).imp_right
    (Or.imp_left fun seen => Nat.le_trans seen feed.seen.1)⟩

/-- The host stores rows and posts them. -/
theorem Sound.posts (sound : w.Sound) (store : Store config.key) (push : Push T) (rows : push.isCleared = false)
    (stored : ∀ row ∈ store.rows, row ∈ w.store.rows ∨ row ∈ push.rows) :
    Sound { w with store, wire := w.wire ++ [push] } := by
  have wire : wired (w.wire ++ [push]) = wired w.wire ++ push.rows := by simp [wired]
  refine ⟨?_, ?_, fun epoch member => (sound.replies epoch member).imp_right (Or.imp_right fun here => by simp [here])⟩
  · apply sound.feed.host (Nat.le_refl _)
    · intro row there
      show _ ∨ row ∈ wired (w.wire ++ [push])
      rw [wire, List.mem_append]
      exact (stored row there).imp_right .inr
    · intro row there
      show row ∈ wired (w.wire ++ [push])
      rw [wire]
      exact List.mem_append_left _ there
  · intro before after epoch shape
    rcases List.eq_nil_or_concat after with rfl | ⟨after, last, rfl⟩
    -- the new push is no clear, so the clear was on the wire before
    · obtain ⟨-, same⟩ := List.append_inj' shape (by simp)
      obtain rfl : push = .cleared epoch := by simpa using same
      cases rows
    · rw [List.concat_eq_append, ← List.cons_append, ← List.append_assoc] at shape
      obtain ⟨old, same⟩ := List.append_inj' shape (by simp)
      obtain rfl : push = last := by simpa using same
      obtain ⟨known, behind⟩ := sound.cleared before after epoch old
      refine ⟨known, fun row there => ?_⟩
      rw [List.concat_eq_append, wired, List.flatMap_append, List.mem_append]
      exact (stored row there).imp (behind row) (by simp)

/-- The host is cleared. -/
theorem Sound.clear (sound : w.Sound) (replies : List Nat)
    (known : ∀ epoch ∈ replies, epoch ∈ w.replies ∨ epoch = w.epoch + 1) :
    Sound { w with
      store := .empty config.key, epoch := w.epoch + 1, wire := w.wire ++ [.cleared (w.epoch + 1)], replies } := by
  refine ⟨?_, ?_, ?_⟩
  · apply sound.feed.host (Nat.le_succ _)
    · exact fun row there => nomatch there
    · intro row there
      simpa [wired, Push.rows] using there
  · intro before after epoch shape
    refine ⟨?_, fun row there => nomatch there⟩
    have member : Push.cleared epoch ∈ w.wire ++ [.cleared (w.epoch + 1)] :=
      (show w.wire ++ [.cleared (w.epoch + 1)] = _ from shape) ▸ by simp
    rcases List.mem_append.mp member with old | new
    · obtain ⟨before, after, shape⟩ := List.append_of_mem old
      exact Nat.le_succ_of_le (sound.cleared before after epoch shape).1
    · obtain rfl : epoch = w.epoch + 1 := by simpa using new
      exact Nat.le_refl _
  · intro epoch member
    rcases known epoch member with old | rfl
    · obtain ⟨le, seen⟩ := sound.replies epoch old
      exact ⟨Nat.le_succ_of_le le, seen.imp_right fun here => by simp [here]⟩
    · exact ⟨Nat.le_refl _, .inr (by simp)⟩

theorem epoch_reset (feed : FeedVirtualizer config) (epoch : Nat) : epoch ≤ (feed.reset epoch).epoch := by
  by_cases new : feed.epoch < epoch
  · rw [feed.reset_eq new]
  · rw [reset, if_pos (Nat.not_lt.mp new)]
    exact Nat.not_lt.mp new

/-- What a push brings to the dock, with the push off the wire. -/
theorem Sound.taken (sound : w.Sound) {before after : List (Push T)} {push : Push T}
    (shape : w.wire = before ++ push :: after) :
    Feed.Sound (take w.feed push) w.feed.epoch w.epoch w.store.rows (wired (before ++ after)) := by
  have rows : wired w.wire = wired before ++ push.rows ++ wired after := by simp [shape, wired]
  have arrives (items : List T) (taken : ∀ row ∈ push.rows, w.feed.filter row = true → row ∈ items) :
      ∀ row ∈ wired w.wire, w.feed.filter row = true → row ∈ wired (before ++ after) ∨ row ∈ items := by
    intro row there matches_
    rw [rows, List.mem_append, List.mem_append] at there
    rw [wired, List.flatMap_append, List.mem_append]
    rcases there with (earlier | here) | later
    · exact .inl (.inl earlier)
    · exact .inr (taken row here matches_)
    · exact .inl (.inr later)
  cases push with
  | live item =>
    dsimp only [take]
    split
    next matches_ => exact sound.feed.pushed [item] true (arrives [item] fun row here _ => here)
    next other =>
      have lost := sound.feed.pushed [] w.feed.rafId (arrives [] fun row here matches_ => by
        obtain rfl := List.mem_singleton.mp here
        exact absurd matches_ other)
      simpa using lost
  | backfill items =>
    exact sound.feed.pushed (items.filter w.feed.filter) true
      (arrives _ fun row here matches_ => List.mem_filter.mpr ⟨here, matches_⟩)
  | cleared epoch =>
    obtain ⟨known, behind⟩ := sound.cleared before after epoch shape
    have feed : Feed.Sound w.feed w.feed.epoch w.epoch w.store.rows (wired (before ++ after)) := by
      have same : wired w.wire = wired (before ++ after) := by simp [shape, wired, Push.rows]
      exact same ▸ sound.feed
    -- what the host holds now was stored since, so it is still on its way behind the clear
    refine feed.reset known fun _ row there => ?_
    rw [wired, List.flatMap_append, List.mem_append]
    exact .inr (behind row there)

theorem Sound.deliver (sound : w.Sound) {i : Nat} (step : w.deliver i = some w') : w'.Sound := by
  obtain ⟨push, here, rest⟩ := Option.bind_eq_some_iff.mp step
  split at rest
  next free =>
    obtain rfl := Option.some.inj rest
    have shape : w.wire = w.wire.take i ++ push :: w.wire.drop (i + 1) := by
      obtain ⟨bound, same⟩ := List.getElem?_eq_some_iff.mp here
      rw [← same, ← List.drop_eq_getElem_cons bound, List.take_append_drop]
    have erased : w.wire.eraseIdx i = w.wire.take i ++ w.wire.drop (i + 1) := List.eraseIdx_eq_take_drop_succ ..
    have rows : ∀ epoch, Push.cleared epoch ∉ w.wire.take i := by
      intro epoch member
      have := List.all_eq_true.mp free _ member
      simp [Push.isCleared] at this
    have taken := sound.taken shape
    generalize w.wire.take i = before at *
    generalize w.wire.drop (i + 1) = after at *
    refine ⟨?_, ?_, ?_⟩
    · show Feed.Sound (take w.feed push) _ w.epoch w.store.rows (wired (w.wire.eraseIdx i))
      rw [erased]
      exact now taken
    · intro before' after' epoch shape'
      replace shape' : before ++ after = before' ++ .cleared epoch :: after' := erased ▸ shape'
      -- no clear came before the push, so what is behind this one is as it was
      have behind (between : List (Push T)) (split : after = between ++ .cleared epoch :: after') :=
        sound.cleared (before ++ push :: between) after' epoch (by simp [shape, split])
      rcases List.append_eq_append_iff.mp shape' with ⟨between, -, split⟩ | ⟨early, split, late⟩
      · exact behind between split
      · cases early with
        | nil => exact behind [] late.symm
        | cons first early =>
          obtain rfl : Push.cleared epoch = first := (List.cons.inj late).1
          exact absurd (by simp [split]) (rows epoch)
    · intro epoch member
      obtain ⟨known, seen⟩ := sound.replies epoch member
      refine ⟨known, ?_⟩
      rcases seen with seen | waits
      · exact .inl (Nat.le_trans seen taken.seen.1)
      · rw [shape, List.mem_append, List.mem_cons] at waits
        rcases waits with early | rfl | late
        · exact absurd early (rows epoch)
        · exact .inl (epoch_reset w.feed epoch)
        · exact .inr (erased ▸ List.mem_append_right _ late)
  · cases rest

theorem Sound.settle (sound : w.Sound) {i : Nat} {sight : Sight K} {reply : Request T → Option (Option (FeedPage T))}
    (honest : ∀ r page, reply r = some (some page) → r.reply = some page) (step : w.settle i sight reply = some w') :
    w'.Sound := by
  obtain ⟨r, here, rest⟩ := Option.bind_eq_some_iff.mp step
  obtain ⟨page, settles, rfl⟩ := Option.map_eq_some_iff.mp rest
  exact sound.onFeed (sound.feed.settle here sight fun page same => honest r page (same ▸ settles))

theorem mem_add {key : T → K} (store : Store key) (item : T) : ∀ row ∈ (store.add item).rows, row ∈ store.rows ∨ row = item := by
  intro row member
  unfold Store.add at member
  split at member
  · simpa using member
  · exact .inl member

theorem mem_addAll {key : T → K} (store : Store key) (items : List T) :
    ∀ row ∈ (items.foldl Store.add store).rows, row ∈ store.rows ∨ row ∈ items := by
  apply foldl_rule (P := fun done (after : Store key) => ∀ row ∈ after.rows, row ∈ store.rows ∨ row ∈ done)
  · exact fun row => .inl
  · intro done item after inv row member
    rcases mem_add after item row member with old | rfl
    · exact (inv row old).imp_right fun here => List.mem_append_left _ here
    · exact .inr (by simp)

theorem Sound.step (sound : w.Sound) {event : FeedEvent config} (step : FeedStep w event w') : w'.Sound := by
  cases event with
  | load filter =>
    obtain rfl := Option.some.inj step
    exact sound.onFeed (sound.feed.load filter)
  | jumpToLatest =>
    obtain rfl := Option.some.inj step
    exact sound.onFeed sound.feed.jumpToLatest
  | scroll atBottom nearTop =>
    obtain rfl := Option.some.inj step
    exact sound.onFeed (sound.feed.onScroll atBottom nearTop)
  | settled nearTop =>
    obtain rfl := Option.some.inj step
    exact sound.onFeed (sound.feed.maybeFetchOlder nearTop)
  | resize | tick =>
    obtain rfl := Option.some.inj step
    exact sound.onFeed (sound.feed.same rfl rfl)
  | frame sight =>
    obtain ⟨-, same⟩ := Option.ite_none_right_eq_some.mp step
    obtain rfl := Option.some.inj same
    exact sound.onFeed (sound.feed.flush sight)
  | retry nearTop =>
    obtain ⟨-, same⟩ := Option.ite_none_right_eq_some.mp step
    obtain rfl := Option.some.inj same
    exact sound.onFeed (sound.feed.retry nearTop)
  | patch patch =>
    obtain rfl := Option.some.inj step
    exact sound.onFeed (sound.feed.same (keys_patch ..) rfl)
  | store item =>
    obtain rfl := Option.some.inj step
    exact sound.posts _ (.live item) rfl fun row there => (mem_add w.store item row there).imp_right (by simp [Push.rows])
  | backfill items =>
    obtain rfl := Option.some.inj step
    exact sound.posts _ (.backfill items) rfl (mem_addAll w.store items)
  | clear own =>
    obtain rfl := Option.some.inj step
    refine sound.clear _ fun epoch member => ?_
    split at member
    · simpa using member
    · exact .inl member
  | deliver i => exact sound.deliver step
  | clearReply i =>
    obtain ⟨epoch, here, rfl⟩ := Option.map_eq_some_iff.mp step
    obtain ⟨known, seen⟩ := sound.replies epoch (List.mem_of_getElem? here)
    -- the reply overtook the clear's own push, so what the host holds now is still behind that push
    have reset := sound.feed.reset known fun new row there => by
      obtain ⟨before, after, shape⟩ := List.append_of_mem (seen.resolve_left (Nat.not_le.mpr new))
      have behind := (sound.cleared before after epoch shape).2 row there
      rw [shape, wired, List.flatMap_append, List.mem_append, List.flatMap_cons, List.mem_append]
      exact .inr (.inr behind)
    exact ⟨now reset, sound.cleared, fun epoch' member => (sound.replies epoch' (List.mem_of_mem_eraseIdx member)).imp_right
      (Or.imp_left fun seen => Nat.le_trans seen reset.seen.1)⟩
  | answer i =>
    obtain ⟨r, here, rest⟩ := Option.bind_eq_some_iff.mp step
    split at rest
    · cases rest
    · obtain rfl := Option.some.inj rest
      exact sound.onFeed (sound.feed.answered here)
  | arrive i sight => exact sound.settle (fun r page same => by simpa using same) step
  | fail i sight => exact sound.settle (fun r page same => by simp at same) step

theorem sound_opened (store : Store config.key) (epoch : Nat) (filter : T → Bool) :
    (opened store epoch filter).Sound := by
  have feed : Feed.Sound (({} : FeedVirtualizer config).load filter) 0 epoch store.rows [] := by
    refine Feed.Sound.fetchNewest List.Pairwise.nil ⟨Nat.le_refl 0, Nat.zero_le epoch⟩ (Claims.of_no_requests rfl) true
  exact ⟨now feed, fun before after epoch shape => by simp [opened] at shape, fun epoch member => nomatch member⟩

end World

/-- Rows named by their place in the order. -/
def smallConfig : FeedConfig Nat Nat := ⟨id, 10, 2, 2, 3, 3, by decide, by decide, by decide⟩

end Braidcast.Feed
