import Braidcast.Lib.Run
import Braidcast.Feed.Virtualizer

/-!
# Patches and the rows they name

The feed over items that remember where they came from: the row as the host first had it, the
patches the host had run over it when it sent this copy, and what brought the copy. Pages and
frames come in any order and hold anything; the host runs a patch over its own rows before the
dock hears of it, so a page brings each row with the patches that name it and that the dock had
made when it asked.
-/
namespace Braidcast.Feed

open Lib FeedVirtualizer

variable {T K : Type}

def runAll {key : T → K} (patches : List (Patch key)) (item : T) : T :=
  patches.foldl (fun item p => p.apply item) item

/-- A row as the host sends it: the patches it has run over it are in the copy. -/
structure Sent (key : T → K) where
  original : T
  ran : List (Patch key)

inductive Via where
  | queued
  /-- A live frame, flushed at this time. -/
  | frame (flushed : Nat)
  /-- A page, asked for when this many patches had been made. -/
  | page (asked : Nat)
  deriving DecidableEq

structure Copy (key : T → K) extends Sent key where
  shown : T
  via : Via

def Sent.copy {key : T → K} (sent : Sent key) (via : Via) : Copy key :=
  { sent with shown := runAll sent.ran sent.original, via }

def Copy.flushedAt {key : T → K} (now : Nat) (c : Copy key) : Copy key := { c with via := .frame now }

def copies (config : FeedConfig T K) : FeedConfig (Copy config.key) K where
  key c := config.key c.shown
  estimate := config.estimate
  base := config.base
  page := config.page
  highWater := config.highWater
  hardMax := config.hardMax
  base_pos := config.base_pos
  page_pos := config.page_pos
  hardMax_pos := config.hardMax_pos

/-- The patch on what a copy shows. -/
def Patch.onCopy {config : FeedConfig T K} (patch : Patch config.key) : Patch (copies config).key where
  picks c := patch.picks c.shown
  update c := { c with shown := patch.update c.shown }
  keeps c := patch.keeps c.shown

structure Made (key : T → K) where
  patch : Patch key
  at_ : Nat

/-- A row that came this way is to show the patch, where the patch names it. Every page is: one
asked for after the patch was read after it. -/
def Made.due {key : T → K} (m : Made key) : Via → Bool
  | .queued => false
  | .frame flushed => flushed < m.at_ + PATCH_RETAIN_MS
  | .page _ => true

/-- A feed, every patch made on it, and how many of these were made before the last clear. -/
structure Moderated (config : FeedConfig T K) where
  feed : FeedVirtualizer (copies config)
  made : List (Made config.key)
  cleared : Nat

inductive ModeratedEvent (config : FeedConfig T K) where
  | load (filter : T → Bool)
  | jumpToLatest
  | scroll (atBottom nearTop : Bool)
  | settled (nearTop : Bool)
  | resize (viewH : Nat)
  | retry (nearTop : Bool)
  | tick (ms : Nat)
  | live (row : Sent config.key)
  | merge (rows : List (Sent config.key))
  | frame (sight : Sight K)
  | patch (patch : Patch config.key)
  | reset (epoch : Nat)
  | arrive (request : Nat) (page : FeedPage (Sent config.key)) (sight : Sight K)
  | fail (request : Nat) (sight : Sight K)

namespace Moderated

variable [LinearOrder K] {config : FeedConfig T K}

def opened (filter : T → Bool) : Moderated config := ⟨FeedVirtualizer.load {} fun c => filter c.shown, [], 0⟩

def onFeed (w : Moderated config) (f : FeedVirtualizer (copies config) → FeedVirtualizer (copies config)) :
    Moderated config :=
  { w with feed := f w.feed }

def settle (w : Moderated config) (i : Nat) (sight : Sight K)
    (reply : Request (Copy config.key) → Option (FeedPage (Copy config.key))) : Option (Moderated config) :=
  w.feed.requests[i]?.map fun r =>
    w.onFeed fun feed => { feed with requests := feed.requests.eraseIdx i }.settle sight r (reply r)

/-- The state after the event, where it can happen. -/
def step (w : Moderated config) : ModeratedEvent config → Option (Moderated config)
  | .load filter => some (w.onFeed (·.load fun c => filter c.shown))
  | .jumpToLatest => some (w.onFeed (·.jumpToLatest))
  | .scroll atBottom nearTop => some (w.onFeed (·.onScroll atBottom nearTop))
  | .settled nearTop => some (w.onFeed (·.maybeFetchOlder nearTop))
  | .resize viewH => some (w.onFeed fun feed => { feed with viewH })
  | .retry nearTop => if w.feed.retryTimer.isSome then some (w.onFeed (·.retry nearTop)) else none
  | .tick ms => some (w.onFeed fun feed => { feed with now := feed.now + ms })
  | .live row => some (w.onFeed (·.live (row.copy .queued)))
  | .merge rows => some (w.onFeed (·.merge (rows.map (·.copy .queued))))
  | .frame sight =>
    if w.feed.rafId then
      -- what is queued leaves the queue now, whatever becomes of it
      some (w.onFeed fun feed => { feed with pending := feed.pending.map (Copy.flushedAt feed.now) }.flush sight)
    else none
  | .patch patch => some { w with feed := w.feed.patch patch.onCopy, made := w.made ++ [⟨patch, w.feed.now⟩] }
  | .reset epoch => some { w with
      -- a clear that was seen before changes nothing, so it forgets nothing
      feed := w.feed.reset epoch, cleared := if epoch ≤ w.feed.epoch then w.cleared else w.made.length }
  | .arrive i page sight =>
    w.settle i sight fun r => some ⟨page.items.map (·.copy (.page r.asked)), page.more, page.epoch⟩
  | .fail i sight => w.settle i sight fun _ => none

/-- The patches made since the last clear that name the copy's original and that it is to show. -/
def named (made : List (Made config.key)) (cleared : Nat) (c : Copy config.key) : List (Patch config.key) :=
  ((made.drop cleared).filter fun m => m.patch.picks c.original && m.due c.via).map (·.patch)

/-- A page brings each row with the patches that name it and were made when it was asked for. -/
def Honest (w : Moderated config) : ModeratedEvent config → Prop
  | .arrive i page _ => ∀ r, w.feed.requests[i]? = some r → ∀ row ∈ page.items,
      (named (w.made.take r.asked) w.cleared (row.copy (.page r.asked))).Sublist row.ran
  | _ => True

/-- The copy shows its original with the host's patches and then the last of those made here,
and among them, in the order they were made, are all it is to show. -/
def Reached (made : List (Made config.key)) (cleared : Nat) (c : Copy config.key) : Prop :=
  ∃ later, later <:+ made.map (·.patch) ∧ c.shown = runAll (c.ran ++ later) c.original ∧
    (named made cleared c).Sublist (c.ran ++ later)

/-- Making the patch pushes out none that may still be needed. -/
def Within (w : Moderated config) : ModeratedEvent config → Prop
  | .patch patch =>
    ((w.feed.patches.concat ⟨patch.onCopy, w.feed.patchCount, w.feed.now⟩).dropWhile fun p =>
      !needed w.feed.patchStamp w.feed.now p).length ≤ PATCH_MEMORY_MAX
  | _ => True

/-- No frame that waits for a page in flight was flushed in time for a patch that is let go of
when this one is made. -/
def Unparked (w : Moderated config) : ModeratedEvent config → Prop
  | .patch _ => ∀ c ∈ w.feed.loadBuf ++ w.feed.heldOld, ∀ flushed, c.via = .frame flushed → ∀ p ∈ w.feed.patches,
      needed w.feed.patchStamp w.feed.now p = false → p.at_ + PATCH_RETAIN_MS ≤ flushed
  | _ => True

end Moderated

/-- A step in which the host keeps to what it says of pages. -/
def ModeratedStep [LinearOrder K] {config : FeedConfig T K} (w : Moderated config) (event : ModeratedEvent config)
    (w' : Moderated config) : Prop :=
  w.Honest event ∧ w.step event = some w'

end Braidcast.Feed
