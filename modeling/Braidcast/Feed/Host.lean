import Braidcast.Lib.Lists
import Braidcast.Lib.Run
import Braidcast.Feed.Virtualizer

/-!
# A feed and its host

The host keeps the rows of its current epoch and stores a row before it pushes it. A dock
takes the pushes that match its filter. Pushes are posted by one thread, and a clear posts
its own as it happens: a row may come late, even after a clear that took it from the store,
but never before the clear it followed. A page holds what the store held at one moment
between its request and its arrival; replies come in any order.
-/
namespace Braidcast.Feed

open Lib

variable {T K : Type} [LinearOrder K]

/-- The host's rows, no two of one key. -/
structure Store (key : T → K) where
  rows : List T
  unique : (rows.map key).Nodup

namespace Store

variable {key : T → K}

def empty (key : T → K) : Store key := ⟨[], List.nodup_nil⟩

def add (store : Store key) (item : T) : Store key :=
  if new : ∀ row ∈ store.rows, key row ≠ key item then
    ⟨store.rows ++ [item], nodup_map_concat store.unique (by simpa using new)⟩
  else store

/-- The rows that match, oldest first, all of them or those older than the cursor. -/
def matching (store : Store key) (filter : T → Bool) (before : Option K) : List T :=
  FeedVirtualizer.sortItems key
    (store.rows.filter fun row => filter row && before.all fun cursor => key row < cursor)

/-- The newest of them. -/
def page (store : Store key) (filter : T → Bool) (before : Option K) (limit epoch : Nat) : FeedPage T :=
  let rows := store.matching filter before
  ⟨rows.drop (rows.length - limit), limit < rows.length, epoch⟩

end Store

inductive Push (T : Type) where
  | live (item : T)
  | backfill (items : List T)
  | cleared (epoch : Nat)

def Push.rows : Push T → List T
  | .live item => [item]
  | .backfill items => items
  | .cleared _ => []

def Push.isCleared : Push T → Bool
  | .cleared _ => true
  | _ => false

/-- A dock's feed, its host, and what is on its way between them. -/
structure World (config : FeedConfig T K) where
  feed : FeedVirtualizer config
  store : Store config.key
  epoch : Nat
  wire : List (Push T)
  /-- The epochs of the clears this dock called for and has no reply to yet. -/
  replies : List Nat

inductive FeedEvent (config : FeedConfig T K) where
  | load (filter : T → Bool)
  | jumpToLatest
  | scroll (atBottom nearTop : Bool)
  /-- The view has settled after a change. -/
  | settled (nearTop : Bool)
  | resize (viewH : Nat)
  | frame (sight : Sight K)
  | retry (nearTop : Bool)
  | patch (patch : Patch config.key)
  | tick (ms : Nat)
  /-- The host stores a row, or the rows of a backfill, and pushes them. -/
  | store (item : T)
  | backfill (items : List T)
  /-- The host is cleared, by this dock or by another. -/
  | clear (own : Bool)
  | deliver (push : Nat)
  | clearReply (reply : Nat)
  /-- The host reads the page a request asked for. -/
  | answer (request : Nat)
  | arrive (request : Nat) (sight : Sight K)
  | fail (request : Nat) (sight : Sight K)

variable {config : FeedConfig T K}

namespace World

/-- The dock opens: it subscribes, and loads. -/
def opened (store : Store config.key) (epoch : Nat) (filter : T → Bool) : World config :=
  ⟨FeedVirtualizer.load {} filter, store, epoch, [], []⟩

def onFeed (w : World config) (f : FeedVirtualizer config → FeedVirtualizer config) : World config :=
  { w with feed := f w.feed }

/-- A push reaches the dock. -/
def take (feed : FeedVirtualizer config) : Push T → FeedVirtualizer config
  | .live item => if feed.filter item then feed.live item else feed
  | .backfill items => feed.merge (items.filter feed.filter)
  | .cleared epoch => feed.reset epoch

/-- Only rows may be late: nothing overtakes a clear's push. -/
def deliver (w : World config) (i : Nat) : Option (World config) :=
  w.wire[i]?.bind fun push =>
    -- a clear that was posted earlier has to come first
    if (w.wire.take i).all (!·.isCleared) then
      some { w with wire := w.wire.eraseIdx i, feed := take w.feed push }
    else none

def answer (w : World config) (i : Nat) : Option (World config) :=
  w.feed.requests[i]?.bind fun r =>
    -- the host reads a page once
    if r.reply.isSome then none
    else
      let page := w.store.page r.filter (r.before.map config.key) r.limit w.epoch
      some (w.onFeed fun feed => { feed with requests := feed.requests.set i { r with reply := some page } })

/-- A request settles with its reply, or fails. -/
def settle (w : World config) (i : Nat) (sight : Sight K) (reply : Request T → Option (Option (FeedPage T))) :
    Option (World config) :=
  w.feed.requests[i]?.bind fun r =>
    (reply r).map fun page =>
      w.onFeed fun feed => { feed with requests := feed.requests.eraseIdx i }.settle sight r page

/-- The world after the event, where it can happen. -/
def step (w : World config) : FeedEvent config → Option (World config)
  | .load filter => some (w.onFeed (·.load filter))
  | .jumpToLatest => some (w.onFeed (·.jumpToLatest))
  | .scroll atBottom nearTop => some (w.onFeed (·.onScroll atBottom nearTop))
  | .settled nearTop => some (w.onFeed (·.maybeFetchOlder nearTop))
  | .resize viewH => some (w.onFeed fun feed => { feed with viewH })
  -- a frame comes only where one was asked for
  | .frame sight => if w.feed.rafId then some (w.onFeed (·.flush sight)) else none
  | .retry nearTop => if w.feed.retryTimer.isSome then some (w.onFeed (·.retry nearTop)) else none
  | .patch patch => some (w.onFeed (·.patch patch))
  | .tick ms => some (w.onFeed fun feed => { feed with now := feed.now + ms })
  | .store item => some { w with store := w.store.add item, wire := w.wire ++ [.live item] }
  | .backfill items => some { w with store := items.foldl Store.add w.store, wire := w.wire ++ [.backfill items] }
  | .clear own => some { w with
      store := .empty config.key, epoch := w.epoch + 1, wire := w.wire ++ [.cleared (w.epoch + 1)]
      replies := if own then w.replies ++ [w.epoch + 1] else w.replies }
  | .deliver i => w.deliver i
  | .clearReply i => w.replies[i]?.map fun epoch =>
      { w with replies := w.replies.eraseIdx i, feed := w.feed.reset epoch }
  | .answer i => w.answer i
  | .arrive i sight => w.settle i sight fun r => r.reply.map some
  | .fail i sight => w.settle i sight fun _ => some none

end World

def FeedStep (w : World config) (event : FeedEvent config) (w' : World config) : Prop := w.step event = some w'

end Braidcast.Feed
