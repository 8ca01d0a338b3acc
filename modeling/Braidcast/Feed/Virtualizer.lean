import Mathlib.Data.List.Sort

/-!
# The feed's window

`FeedVirtualizer` without its pixels: the window of rows over the host's history, what it
keeps beside the window, and the requests it has out. Where the reader is, which rows the
viewport shows and how high it is come in from outside.

A row's identity is its key, and the page order is an order on keys. A callback of the source
is one function here; `now` is what `Date.now()` answers.
-/
namespace Braidcast.Feed

structure FeedConfig (T K : Type) where
  key : T → K
  /-- Px height estimate for an unmeasured item row. -/
  estimate : Nat
  base : Nat
  page : Nat
  highWater : Nat
  hardMax : Nat
  base_pos : 0 < base
  page_pos : 0 < page
  hardMax_pos : 0 < hardMax

def RETRY_MS : Nat := 1000

def RETRY_MAX_MS : Nat := 30000

def PATCH_RETAIN_MS : Nat := 10000

def PATCH_MEMORY_MAX : Nat := 4096

/-- One page of a paged feed, oldest first. -/
structure FeedPage (T : Type) where
  items : List T
  more : Bool
  epoch : Nat

inductive Fetch where
  | load
  | older
  deriving DecidableEq

/-- The generation last claimed for each kind of request. -/
structure RequestGuard where
  load : Option Nat
  older : Option Nat

namespace RequestGuard

def get (guard : RequestGuard) : Fetch → Option Nat
  | .load => guard.load
  | .older => guard.older

/-- The generation a claim takes. -/
def next (guard : RequestGuard) (kind : Fetch) : Nat := (guard.get kind).getD 0 + 1

def claim (guard : RequestGuard) : Fetch → RequestGuard
  | .load => { guard with load := some (guard.next .load) }
  | .older => { guard with older := some (guard.next .older) }

/-- Discard every claim in flight. -/
def supersede (guard : RequestGuard) : RequestGuard := ⟨guard.load.map (· + 1), guard.older.map (· + 1)⟩

end RequestGuard

/-- A fetch that has not settled, with the filter its dock had when it was made. -/
structure Request (T : Type) where
  kind : Fetch
  generation : Nat
  before : Option T
  limit : Nat
  filter : T → Bool
  /-- The patches made when it was asked for. -/
  asked : Nat
  /-- What the host has answered; the reply has yet to arrive. -/
  reply : Option (FeedPage T) := none

structure ItemRow (T : Type) where
  clientKey : Nat
  item : T

/-- What `patch` is given. An update keeps the item's key. -/
structure Patch {T K : Type} (key : T → K) where
  picks : T → Bool
  update : T → T
  keeps : ∀ item, key (update item) = key item

def Patch.apply {T K : Type} {key : T → K} (patch : Patch key) (item : T) : T :=
  if patch.picks item then patch.update item else item

structure RememberedPatch {T K : Type} (key : T → K) where
  patch : Patch key
  n : Nat
  at_ : Nat

/-- The rows the viewport shows, by their client keys, and the newest item among them. -/
structure Sight (K : Type) where
  rows : List Nat
  last : Option K

variable {T K : Type} {config : FeedConfig T K}

structure FeedVirtualizer (config : FeedConfig T K) where
  rows : List (ItemRow T) := []
  viewH : Nat := 0
  autoStick : Bool := true
  more : Bool := false
  detached : Bool := false
  unseen : Nat := 0
  retrying : Bool := false
  seq : Nat := 0
  pending : List T := []
  /-- A frame is due. -/
  rafId : Bool := false
  guard : RequestGuard := ⟨none, none⟩
  inflight : Option Fetch := none
  epoch : Nat := 0
  heldOld : List T := []
  loadBuf : List T := []
  patches : List (RememberedPatch config.key) := []
  patchCount : Nat := 0
  patchStamp : Option Nat := none
  /-- What the timer that runs will ask for again. -/
  retryTimer : Option Fetch := none
  retryMs : Nat := RETRY_MS
  staleFilter : Bool := false
  restickOnLoad : Bool := false
  /-- The dock's filter, which its fetch closes over. -/
  filter : T → Bool := fun _ => true
  requests : List (Request T) := []
  now : Nat := 0

namespace FeedVirtualizer

/-! ### Patches -/

/-- A patch that may still be needed: a page in flight was asked for before it, or it is young. -/
def needed (stamp : Option Nat) (now : Nat) (p : RememberedPatch config.key) : Bool :=
  stamp.any (· ≤ p.n) || now < p.at_ + PATCH_RETAIN_MS

def forget (stamp : Option Nat) (now : Nat) : List (RememberedPatch config.key) → List (RememberedPatch config.key)
  | [] => []
  | p :: rest =>
    -- past the bound the oldest goes whatever it is
    if needed stamp now p ∧ (p :: rest).length ≤ PATCH_MEMORY_MAX then p :: rest else forget stamp now rest

def trimPatches (feed : FeedVirtualizer config) : FeedVirtualizer config :=
  { feed with patches := forget feed.patchStamp feed.now feed.patches }

/-- The item with every remembered patch run over it. -/
def patched (feed : FeedVirtualizer config) (item : T) : T :=
  feed.patches.foldl (fun item p => p.patch.apply item) item

def patch (feed : FeedVirtualizer config) (patch : Patch config.key) : FeedVirtualizer config :=
  -- remembered before it runs over the window, so that the trim sees it
  let patches := feed.patches ++ [⟨patch, feed.patchCount, feed.now⟩]
  let feed := { feed with patches, patchCount := feed.patchCount + 1 }.trimPatches
  { feed with rows := feed.rows.map fun r => { r with item := patch.apply r.item } }

/-! ### Rows -/

def effBase (feed : FeedVirtualizer config) : Nat :=
  max config.base ((3 * feed.viewH + config.estimate - 1) / config.estimate)

def effHigh (feed : FeedVirtualizer config) : Nat := max config.highWater (4 * feed.effBase)

/-- A page asked for now is read after every patch so far. -/
def setInflight (feed : FeedVirtualizer config) (kind : Option Fetch) : FeedVirtualizer config :=
  let feed := { feed with inflight := kind, patchStamp := kind.map fun _ => feed.patchCount }
  -- settling does not trim: the page is patched after this, as it joins the window
  if kind.isSome then feed.trimPatches else feed

/-- Rows for items new to the window. -/
def newRows (feed : FeedVirtualizer config) (items : List T) : List (ItemRow T) :=
  items.mapIdx fun i item => ⟨feed.seq + i + 1, feed.patched item⟩

section

variable [LinearOrder K]

def keys (feed : FeedVirtualizer config) : List K := feed.rows.map fun r => config.key r.item

def sortRows (rows : List (ItemRow T)) (key : T → K) : List (ItemRow T) :=
  rows.insertionSort fun a b => key a.item ≤ key b.item

/-- The rows of a whole new window, and the last client key handed out. A key that stays
keeps its row's. -/
def rowsFor (feed : FeedVirtualizer config) (seq : Nat) : List T → List (ItemRow T) × Nat
  | [] => ([], seq)
  | item :: rest =>
    -- a row whose key stays keeps its measured height, and with it the reader's place
    match feed.rows.find? fun r => config.key r.item = config.key item with
    | some r =>
      let (rows, seq) := feed.rowsFor seq rest
      (⟨r.clientKey, feed.patched item⟩ :: rows, seq)
    | none =>
      let (rows, last) := feed.rowsFor (seq + 1) rest
      (⟨seq + 1, feed.patched item⟩ :: rows, last)

def replaceRows (feed : FeedVirtualizer config) (items : List T) : FeedVirtualizer config :=
  { feed with rows := (feed.rowsFor feed.seq items).1, seq := (feed.rowsFor feed.seq items).2 }

/-- Let the window's oldest rows go. An older page in flight would land above the gap, so it
is discarded. -/
def trimOldest (feed : FeedVirtualizer config) (rows : List (ItemRow T)) (cut : Nat) :
    FeedVirtualizer config × List (ItemRow T) :=
  -- the host still holds the rows let go, so there is more to page
  let feed := { feed with more := true, guard := feed.guard.claim .older }
  let feed := if feed.inflight = some .older then feed.setInflight none else feed
  ({ feed with heldOld := [] }, rows.drop cut)

/-- How many rows a capped window lets go at its newest end and at its oldest. -/
def excess (sight : Sight K) (hardMax : Nat) (next : List (ItemRow T)) : Nat × Nat :=
  let seen := fun r : ItemRow T => decide (r.clientKey ∈ sight.rows)
  let excess := next.length - hardMax
  -- the rows below the last one the viewport shows, and those above the first
  let fromNewest := if next.any seen then min excess (next.reverse.takeWhile (!seen ·)).length else excess
  let fromOldest := if next.any seen then min (excess - fromNewest) (next.takeWhile (!seen ·)).length else 0
  (fromNewest, fromOldest)

/-- Scrolled up, the window is capped: from its newest end first, and it detaches. -/
def capWindow (feed : FeedVirtualizer config) (sight : Sight K) (next : List (ItemRow T)) :
    FeedVirtualizer config × List (ItemRow T) :=
  -- stuck to the bottom the window is trimmed by `takeRows`, not capped
  if feed.autoStick ∨ next.length ≤ config.hardMax then (feed, next)
  else
    let (fromNewest, fromOldest) := excess sight config.hardMax next
    let feed := if 0 < fromNewest then { feed with detached := true } else feed
    let out := next.take (next.length - fromNewest)
    if 0 < fromOldest then feed.trimOldest out fromOldest else (feed, out)

/-! ### Rows that arrive -/

/-- Where the rows of a batch go. -/
structure Placed (T K : Type) where
  seen : List K := []
  accepted : List T := []
  missed : List T := []
  heldOld : List T := []

/-- One row of a batch: one older than the window is the host's to page in, unless the host
has nothing older, or waits for the older page in flight; one past a detached window's newest
end only counts. -/
def place (feed : FeedVirtualizer config) (placed : Placed T K) (item : T) : Placed T K :=
  let k := config.key item
  -- the seam between a page and the live rows may bring a row twice
  if k ∈ feed.keys ∨ k ∈ placed.seen then placed
  else
    let placed := { placed with seen := placed.seen ++ [k] }
    -- with nothing older on the host, the row is the window's to show
    if feed.keys.head?.any (k < ·) ∧ feed.more then
      if feed.inflight = some .older then { placed with heldOld := placed.heldOld ++ [item] } else placed
    else if feed.detached ∧ feed.keys.getLast?.any (· < k) then { placed with missed := placed.missed ++ [item] }
    else { placed with accepted := placed.accepted ++ [item] }

def countBelow (key : T → K) (sight : Sight K) (items : List T) : Nat :=
  match sight.last with
  | none => items.length
  | some last => (items.filter fun item => last < key item).length

/-- The window with rows added to it, in order. -/
def joined (feed : FeedVirtualizer config) (added : List (ItemRow T)) : List (ItemRow T) :=
  -- only a row that sorts inside the window makes it sort again
  if feed.keys.getLast?.any (fun last => added.any fun r => config.key r.item < last) then
    sortRows (feed.rows ++ added) config.key
  else if 1 < added.length then feed.rows ++ sortRows added config.key
  else feed.rows ++ added

/-- The window takes its next rows: trimmed back to base while stuck to the bottom, capped
otherwise. -/
def takeRows (feed : FeedVirtualizer config) (sight : Sight K) (next : List (ItemRow T)) : FeedVirtualizer config :=
  let (feed, next) :=
    -- trimming waits for the high mark, then goes back to base
    if feed.autoStick ∧ feed.effHigh < next.length then feed.trimOldest next (next.length - feed.effBase)
    else (feed, next)
  let (feed, next) := feed.capWindow sight next
  { feed with rows := next }

def release (feed : FeedVirtualizer config) (sight : Sight K) (batch : List T) : FeedVirtualizer config :=
  let placed := batch.foldl feed.place {}
  let feed := { feed with
    heldOld := feed.heldOld ++ placed.heldOld
    unseen := if feed.autoStick then feed.unseen
      else feed.unseen + countBelow config.key sight (placed.missed ++ placed.accepted) }
  if placed.accepted = [] then feed
  else
    { feed with seq := feed.seq + placed.accepted.length }.takeRows sight
      (feed.joined (feed.newRows placed.accepted))

def live (feed : FeedVirtualizer config) (item : T) : FeedVirtualizer config :=
  { feed with pending := feed.pending ++ [item], rafId := true }

def merge (feed : FeedVirtualizer config) (items : List T) : FeedVirtualizer config :=
  { feed with pending := feed.pending ++ items, rafId := true }

def flush (feed : FeedVirtualizer config) (sight : Sight K) : FeedVirtualizer config :=
  let batch := feed.pending
  let feed := { feed with rafId := false, pending := [] }
  -- the page a load brings takes the rows in with it
  if feed.inflight = some .load then { feed with loadBuf := feed.loadBuf ++ batch } else feed.release sight batch

/-! ### Loads -/

def dropPending (feed : FeedVirtualizer config) : FeedVirtualizer config :=
  { feed with rafId := false, pending := [] }

def fetchNewest (feed : FeedVirtualizer config) (restick : Bool) : FeedVirtualizer config :=
  -- every request out is stale from here on, an older page's too
  let generation := feed.guard.supersede.next .load
  let feed := { feed with guard := feed.guard.supersede.claim .load, retryTimer := none }
  let feed := { feed.dropPending.setInflight (some .load) with heldOld := [], loadBuf := [] }
  let feed := if restick then { feed with autoStick := true, unseen := 0, detached := false } else feed
  { feed with requests := feed.requests ++ [⟨.load, generation, none, feed.effBase, feed.filter, feed.patchCount, none⟩] }

/-- The dock has taken this filter. -/
def load (feed : FeedVirtualizer config) (filter : T → Bool) : FeedVirtualizer config :=
  { feed with filter, staleFilter := true, retrying := false, restickOnLoad := false }.fetchNewest true

def retryAfterPause (feed : FeedVirtualizer config) (kind : Fetch) : FeedVirtualizer config :=
  { feed with retryTimer := some kind, retryMs := min (feed.retryMs * 2) RETRY_MAX_MS }

/-- A failed load is over. A window of another filter's rows is emptied. -/
def endLoad (feed : FeedVirtualizer config) : FeedVirtualizer config :=
  let feed := { ({ feed with loadBuf := [] }).setInflight none with restickOnLoad := false }
  -- the rows shown match a filter the dock no longer has
  if feed.staleFilter then { feed with staleFilter := false, more := true, detached := false }.replaceRows []
  else feed

/-- What arrived while the load was in flight shows, and the host is asked again. -/
def failLoad (feed : FeedVirtualizer config) (sight : Sight K) : FeedVirtualizer config :=
  { feed.endLoad.release sight feed.loadBuf with retrying := true }.retryAfterPause .load

/-- An entry of a map by key: the same key again replaces it. -/
def setByKey (key : T → K) (byKey : List T) (item : T) : List T :=
  if key item ∈ byKey.map key then byKey.map fun old => if key old = key item then item else old
  else byKey ++ [item]

/-- The page with what arrived while it was in flight. What sorts before it is kept only when
the host has nothing older. -/
def loadedItems (key : T → K) (page : FeedPage T) (buffered : List T) : List T :=
  buffered.foldl
    (fun byKey item =>
      if key item ∈ byKey.map key ∨ page.items.head?.any (fun oldest => page.more ∧ key item < key oldest) then byKey
      else byKey ++ [item])
    (page.items.foldl (setByKey key) [])

def sortItems (key : T → K) (items : List T) : List T := items.insertionSort fun a b => key a ≤ key b

def applyLoad (feed : FeedVirtualizer config) (sight : Sight K) (page : FeedPage T) : FeedVirtualizer config :=
  let buffered := feed.loadBuf
  let restick := feed.restickOnLoad
  let feed := { ({ feed with loadBuf := [], heldOld := [] }).setInflight none with
    retryMs := RETRY_MS, retrying := false, staleFilter := false, restickOnLoad := false }
  -- read before a clear that this feed has seen
  if page.epoch < feed.epoch then feed.release sight buffered
  else
    let items := loadedItems config.key page buffered
    let feed := { feed with epoch := page.epoch }
    let feed :=
      -- a reload the reader asked for lands on the newest row, and so does a window nothing survives in
      if restick ∨ ¬ items.any (fun item => config.key item ∈ feed.keys) then
        { feed with autoStick := true, unseen := 0 }
      else feed
    { feed with more := page.more, detached := false }.replaceRows (sortItems config.key items)

/-! ### Older pages -/

/-- `nearTop` is whether the reader is near the top of the window. -/
def maybeFetchOlder (feed : FeedVirtualizer config) (nearTop : Bool) : FeedVirtualizer config :=
  -- one request at a time, and none while a retry is due
  if feed.inflight ≠ none ∨ feed.retryTimer ≠ none ∨ ¬ feed.more then feed
  else
    match feed.rows.head? with
    | none => feed
    | some cursor =>
      if nearTop then
        let request := ⟨.older, feed.guard.next .older, some cursor.item, config.page, feed.filter, feed.patchCount, none⟩
        let feed := { feed with guard := feed.guard.claim .older }.setInflight (some .older)
        { feed with requests := feed.requests ++ [request] }
      else feed

def failOlder (feed : FeedVirtualizer config) : FeedVirtualizer config :=
  { feed.setInflight none with heldOld := [] }.retryAfterPause .older

/-- The items an older page brings: its own, and the held ones that sort inside the new
window or that no later page will bring. The flag says whether any of these is among them. -/
def olderItems (feed : FeedVirtualizer config) (page : FeedPage T) (held : List T) (oldest : T) : List T × Bool :=
  let added := page.items.foldl
    (fun added item =>
      if config.key item ∈ feed.keys ++ added.map config.key then added else added ++ [item]) []
  let newOldest := page.items.head?.getD oldest
  held.foldl
    (fun (added, sort) item =>
      if config.key item ∈ feed.keys ++ added.map config.key ∨
          (page.more ∧ config.key item < config.key newOldest) then (added, sort)
      else (added ++ [item], true))
    (added, false)

/-- Prepends an older page, but only onto the window it was asked for. -/
def applyOlder (feed : FeedVirtualizer config) (sight : Sight K) (page : FeedPage T) (cursorKey : K) :
    FeedVirtualizer config :=
  let held := feed.heldOld
  let feed := { ({ feed with heldOld := [] }).setInflight none with retryMs := RETRY_MS }
  match feed.rows.head? with
  | none => feed
  | some oldest =>
    -- rows were let go or joined above the cursor since, or the host was cleared
    if page.epoch < feed.epoch ∨ config.key oldest.item ≠ cursorKey then feed
    else
      let (items, sort) := feed.olderItems page held oldest.item
      let next := feed.newRows items ++ feed.rows
      let next := if sort then sortRows next config.key else next
      let (feed, next) := { feed with more := page.more, seq := feed.seq + items.length }.capWindow sight next
      { feed with rows := next }

/-! ### What else the dock calls -/

def reset (feed : FeedVirtualizer config) (epoch : Nat) : FeedVirtualizer config :=
  -- a clear this feed has already seen
  if epoch ≤ feed.epoch then feed
  else
    let feed := { feed with
      guard := feed.guard.supersede, epoch, patches := [], retryTimer := none, retryMs := RETRY_MS, retrying := false
      staleFilter := false, restickOnLoad := false }
    let feed := { feed.dropPending with heldOld := [], loadBuf := [] }.setInflight none
    { feed with more := false, detached := false, unseen := 0, autoStick := true }.replaceRows []

def reloadDetached (feed : FeedVirtualizer config) : FeedVirtualizer config :=
  { feed with restickOnLoad := true }.fetchNewest false

def jumpToLatest (feed : FeedVirtualizer config) : FeedVirtualizer config :=
  if feed.detached then feed.reloadDetached else { feed with autoStick := true, unseen := 0 }

/-- The reader scrolled, to the bottom of the window or near its top. -/
def onScroll (feed : FeedVirtualizer config) (atBottom nearTop : Bool) : FeedVirtualizer config :=
  if feed.detached then
    -- past the newest row of a detached window there are rows the dock let go
    if atBottom ∧ feed.inflight ≠ some .load then feed.reloadDetached else feed.maybeFetchOlder nearTop
  else
    { feed with autoStick := atBottom, unseen := if atBottom then 0 else feed.unseen }.maybeFetchOlder nearTop

/-- A retry's delay has run out. -/
def retry (feed : FeedVirtualizer config) (nearTop : Bool) : FeedVirtualizer config :=
  match feed.retryTimer with
  | none => feed
  | some .load => { feed with retryTimer := none }.fetchNewest false
  | some .older => { feed with retryTimer := none }.maybeFetchOlder nearTop

/-- A request settles: with a page, or as a failure. One that a later claim replaced writes
nothing. -/
def settle (feed : FeedVirtualizer config) (sight : Sight K) (request : Request T) (reply : Option (FeedPage T)) :
    FeedVirtualizer config :=
  -- `ok()` of the request's guard
  if feed.guard.get request.kind ≠ some request.generation then feed
  else
    match request.kind, reply with
    | .load, some page => feed.applyLoad sight page
    | .load, none => feed.failLoad sight
    | .older, some page =>
      match request.before with
      | some cursor => feed.applyOlder sight page (config.key cursor)
      | none => feed
    | .older, none => feed.failOlder

end

end FeedVirtualizer

end Braidcast.Feed
