import Braidcast.Lib.Chain
import Braidcast.Lib.Lists

/-!
# The chat leaderboard's tallies

`default-chatleaderboard/template.js` with the matcher of `chatModeration.ts`: a counted message is a
line, held in its chatter's list, in the order of all lines and in the chain of its message id. Lines
and chatters are objects; they are numbered as they are made. What the rolling window shows, the
`stamps`, has no part in the counts and is left out.
-/
namespace Braidcast.Overlay

open Lib

/-- What a moderation op is matched on. -/
structure ChatIdentity where
  accountId : String
  profileUuid : Option String
  id : String
  seq : Int
  ts : Int
  authorId : Option String

/-- What the leaderboard reads of a `chat` frame. -/
structure ChatFrame where
  platform : String
  authorName : String
  identity : ChatIdentity

inductive ModerationAction
  | message
  | user
  | all

structure ModerationOp where
  platform : String
  accountId : String
  profileUuid : Option String
  action : ModerationAction
  msgId : Option String
  authorId : Option String
  before : Int
  beforeTs : Option Int

/-- An empty profile is none. -/
def destinationKey (accountId : String) (profileUuid : Option String) : String :=
  match profileUuid with
  | some profile => if profile = "" then accountId else accountId ++ "@" ++ profile
  | none => accountId

/-- `moderationMatcher`. -/
def ModerationOp.removes (op : ModerationOp) (m : ChatIdentity) : Bool :=
  m.seq < op.before &&
  destinationKey op.accountId op.profileUuid = destinationKey m.accountId m.profileUuid &&
  op.beforeTs.all (fun beforeTs => 0 < m.ts && m.ts ≤ beforeTs) &&
  match op.action with
  | .all => true
  | .message => op.msgId.any fun msgId => msgId ≠ "" && m.id = msgId
  | .user => op.authorId.any fun authorId => authorId ≠ "" && m.authorId = some authorId

/-- What `trim` takes off. -/
def isSpace (c : Char) : Bool :=
  [9, 10, 11, 12, 13, 32, 160, 5760, 8232, 8233, 8239, 8287, 12288, 65279].contains c.toNat ||
    (8192 ≤ c.toNat && c.toNat ≤ 8202)

def trim (s : String) : String :=
  String.ofList (((s.toList.dropWhile isSpace).reverse.dropWhile isSpace).reverse)

/-- Lines evicted from one destination, as an identity that stands for the latest of them. -/
structure Tally where
  identity : ChatIdentity
  count : Nat
  /-- The lines it counts. -/
  folded : List ChatIdentity

structure Chatter where
  key : String
  platform : String
  name : String
  count : Int
  seq : Nat
  lines : List Nat
  evicted : List (String × Tally)

structure BoardLine where
  identity : ChatIdentity
  chatter : Nat
  gone : Bool
  sameId : Option Nat

/-- The lines, their order and the chains of their message ids. -/
structure LineStore where
  lines : Nat → BoardLine
  made : Nat
  order : List Nat
  orderHead : Nat
  liveLines : Int
  linesById : String → Option Nat

namespace LineStore

variable (s : LineStore)

/-- The lines not gone in `order`, from `orderHead` on. -/
def live : List Nat := (s.order.drop s.orderHead).filter fun line => !(s.lines line).gone

def sameId (line : Nat) : Option Nat := (s.lines line).sameId

def identity (line : Nat) : ChatIdentity := (s.lines line).identity

/-- The part of `note` that makes a line. -/
def add (identity : ChatIdentity) (chatter : Nat) : LineStore :=
  { s with
    lines := Function.update s.lines s.made
      ⟨identity, chatter, false, if identity.id = "" then none else s.linesById identity.id⟩
    made := s.made + 1
    order := s.order ++ [s.made]
    liveLines := s.liveLines + 1
    linesById := if identity.id = "" then s.linesById else Function.update s.linesById identity.id (some s.made) }

/-- The line leaves the chain of its id. -/
def unchain (line : Nat) : LineStore :=
  if (s.identity line).id = "" then s
  else if s.linesById (s.identity line).id = some line then
    { s with linesById := Function.update s.linesById (s.identity line).id (s.sameId line) }
  else
    match predecessor s.sameId line s.order.length (s.linesById (s.identity line).id) with
    | some before => { s with lines := Function.update s.lines before { s.lines before with sameId := s.sameId line } }
    | none => s

def retire (line : Nat) : LineStore :=
  { s with
    lines := Function.update s.lines line { s.lines line with gone := true }
    liveLines := s.liveLines - 1 }.unchain line

def EVICT_SLACK : Nat := 2000

def compactOrder : LineStore :=
  if s.orderHead * 2 < s.order.length ∧ (s.order.length : Int) ≤ 2 * s.liveLines + EVICT_SLACK then s
  else { s with order := s.live, orderHead := 0 }

end LineStore

structure Leaderboard where
  store : LineStore
  /-- The chatters ever made. -/
  made : Nat → Chatter
  /-- The chatters on the board, by key and in the order they came. -/
  chatters : List (String × Nat)
  seq : Nat

def MAX_LINES : Int := 20000
def MAX_CHATTERS : Nat := 500
def PRUNE_AT : Nat := 600

namespace Leaderboard

def noLine : BoardLine := ⟨⟨"", none, "", 0, 0, none⟩, 0, true, none⟩

def noChatter : Chatter := ⟨"", "", "", 0, 0, [], []⟩

def initial : Leaderboard := ⟨⟨fun _ => noLine, 0, [], 0, 0, fun _ => none⟩, fun _ => noChatter, [], 0⟩

variable (toLowerCase : String → String) (b : Leaderboard)

def find (key : String) : Option Nat := (b.chatters.find? fun entry => entry.1 = key).map Prod.snd

def forget (key : String) : Leaderboard := { b with chatters := b.chatters.eraseP fun entry => entry.1 = key }

def setChatter (i : Nat) (f : Chatter → Chatter) : Leaderboard := { b with made := Function.update b.made i (f (b.made i)) }

def keyFor (platform id name : String) : String :=
  if id ≠ "" then platform ++ "\ni\n" ++ id else platform ++ "\nn\n" ++ name

def platformOf (p : String) : String := toLowerCase (trim p)

def groupId (id : Option String) : String := trim (id.getD "")

/-- The chatter of a message, made where there is none of the key. -/
def chatterOf (key platform name : String) : Leaderboard × Nat :=
  match b.find key with
  | some i => (b, i)
  | none =>
    ({ b with
        made := Function.update b.made b.seq ⟨key, platform, name, 0, b.seq, [], []⟩
        chatters := b.chatters ++ [(key, b.seq)]
        seq := b.seq + 1 }, b.seq)

/-- `foldEvicted`. -/
def fold (identity : ChatIdentity) (c : Chatter) : Chatter :=
  let dest := identity.accountId ++ "\n" ++ identity.profileUuid.getD "" ++ "\n" ++ identity.authorId.getD ""
  let tallied (tally : Tally) : Tally :=
    { tally with
      count := tally.count + 1
      identity := { tally.identity with
        seq := max tally.identity.seq identity.seq
        ts := max tally.identity.ts identity.ts }
      folded := tally.folded ++ [identity] }
  if c.evicted.any fun entry => entry.1 = dest then
    { c with evicted := modifyFirst (fun entry => entry.1 = dest) (fun entry => (entry.1, tallied entry.2)) c.evicted }
  else
    { c with evicted := c.evicted ++
        [(dest, tallied ⟨⟨identity.accountId, identity.profileUuid, "", 0, 0, identity.authorId⟩, 0, []⟩)] }

/-- The loop of `evictOldest` over `order` from `orderHead` on; how many lines each chatter lost. -/
def evictLoop (b : Leaderboard) (evictedFrom : Nat → Nat) : List Nat → Leaderboard × (Nat → Nat)
  | [] => (b, evictedFrom)
  | line :: rest =>
    if MAX_LINES < b.store.liveLines then
      let b := { b with store := { b.store with orderHead := b.store.orderHead + 1 } }
      if (b.store.lines line).gone then evictLoop b evictedFrom rest
      else
        let chatter := (b.store.lines line).chatter
        let b := { b with store := b.store.retire line }
        evictLoop (b.setChatter chatter (fold (b.store.identity line)))
          (Function.update evictedFrom chatter (evictedFrom chatter + 1)) rest
    else (b, evictedFrom)

def compact : Leaderboard := { b with store := b.store.compactOrder }

def evictOldest : Leaderboard :=
  let (b, evictedFrom) := b.evictLoop (fun _ => 0) (b.store.order.drop b.store.orderHead)
  { b with made := fun i => { b.made i with lines := (b.made i).lines.drop (evictedFrom i) } }.compact

def PLATFORM_ORDER : List String := ["twitch", "youtube", "kick"]

/-- Count descending, then earliest first seen: does `c` come no later than `c'`? -/
def compare (c c' : Chatter) : Bool :=
  if c.count ≠ c'.count then c'.count < c.count
  else if c.seq ≠ c'.seq then c.seq < c'.seq
  else PLATFORM_ORDER.idxOf c.platform ≤ PLATFORM_ORDER.idxOf c'.platform

/-- A chatter leaves the board with its lines. -/
def drop (b : Leaderboard) (entry : String × Nat) : Leaderboard :=
  { b with store := (b.made entry.2).lines.foldl LineStore.retire b.store }.forget entry.1

def pruneChatters : Leaderboard :=
  (((b.chatters.mergeSort fun x y => compare (b.made x.2) (b.made y.2)).drop MAX_CHATTERS).foldl drop b).compact

def note (m : ChatFrame) : Leaderboard :=
  let name := trim m.authorName
  if name = "" then b
  else
    let platform := platformOf toLowerCase m.platform
    let (b, i) := b.chatterOf (keyFor platform (groupId m.identity.authorId) name) platform name
    let b := b.setChatter i fun c => { c with name := name, count := c.count + 1, lines := c.lines ++ [b.store.made] }
    let b := { b with store := b.store.add m.identity i }
    let b := if MAX_LINES + LineStore.EVICT_SLACK < b.store.liveLines then b.evictOldest else b
    if PRUNE_AT < b.chatters.length then b.pruneChatters else b

/-- `takeBack`: the line is out of its chatter's list. -/
def takeBack (i line : Nat) : Leaderboard :=
  let b := { b with store := b.store.retire line }.setChatter i fun c => { c with count := c.count - 1 }
  if (b.made i).count ≤ 0 then b.forget (b.made i).key else b

/-- The loop over a chain; did it take a line back? -/
def deleteLoop (removes : ChatIdentity → Bool) : Nat → Option Nat → Leaderboard × Bool → Leaderboard × Bool
  | 0, _, b => b
  | _, none, b => b
  | n + 1, some line, (b, changed) =>
    let next := b.store.sameId line
    if removes (b.store.identity line) then
      let i := (b.store.lines line).chatter
      -- the line stands once in the list of its chatter
      let b := b.setChatter i fun c => { c with lines := c.lines.erase line }
      deleteLoop removes n next (b.takeBack i line, true)
    else deleteLoop removes n next (b, changed)

/-- The loop over the lines of a banned chatter; the ones it keeps. -/
def banLoop (removes : ChatIdentity → Bool) (i : Nat) (b : Leaderboard) : List Nat → List Nat × Leaderboard
  | [] => ([], b)
  | line :: rest =>
    if removes (b.store.identity line) then banLoop removes i (b.takeBack i line) rest
    else
      let (kept, b) := banLoop removes i b rest
      (line :: kept, b)

def uncount (op : ModerationOp) : Leaderboard :=
  match op.action with
  | .all => b
  | .message =>
    let (b, changed) := deleteLoop op.removes b.store.order.length (op.msgId.bind b.store.linesById) (b, false)
    if changed then b.compact else b
  | .user =>
    match b.find (keyFor (platformOf toLowerCase op.platform) (groupId op.authorId) "") with
    | none => b
    | some i =>
      let named := (b.made i).evicted.filter fun entry => op.removes entry.2.identity
      let changed := (b.made i).lines.any (fun line => op.removes (b.store.identity line)) || !named.isEmpty
      let (kept, b) := b.banLoop op.removes i (b.made i).lines
      let b := b.setChatter i fun c =>
        { c with
          lines := kept
          evicted := c.evicted.filter fun entry => !op.removes entry.2.identity
          count := c.count - ((named.map fun entry => entry.2.count).sum : Nat) }
      let b := if (b.made i).count ≤ 0 then b.forget (b.made i).key else b
      if changed then b.compact else b

/-- `onStream` with a stream that is not active. -/
def clear : Leaderboard :=
  { b with
    store := { b.store with order := [], orderHead := 0, liveLines := 0, linesById := fun _ => none }
    chatters := [] }

end Leaderboard

end Braidcast.Overlay
