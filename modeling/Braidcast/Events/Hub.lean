import Braidcast.Events.Store

/-!
# Admitting events and moderating them

`EventHub`'s admissions and removals over the event store. Both hold `admitMutex_`, so each is
one step; the posts to the docks and the overlays are left out.

One purchase can reach the hub twice: as the live-chat message, which a Delete names by its
id, and as the account-wide REST poll's copy, which has no message id.
-/
namespace Braidcast.Events

open Chat

/-- `RecentRemovals::kMax` and its times. -/
def kMax : Nat := 512
def kKeepMs : Int := 15 * 60 * 1000
def kSeenMarginMs : Int := 30 * 1000
def kSamePurchaseSkewMs : Int := 2000

/-- The highest seq bound: the store holds only events admitted before an op. -/
def kHighestSeq : Nat := 2 ^ 64 - 1

structure Removal where
  dest : DestinationId
  reach : Redaction
  seenMs : Int

structure EventHub where
  store : EventStore
  removals : List Removal

/-- Whether `other` is the REST poll's copy of `paid`, under another id. -/
def samePurchase (paid other : NormalizedEvent) : Bool :=
  let skew := if other.ts < paid.ts then paid.ts - other.ts else other.ts - paid.ts
  other.id != paid.id && other.msgId == "" && paid.authorId != "" && other.authorId == paid.authorId &&
    other.accountId == paid.accountId && other.platform == paid.platform && other.type == paid.type &&
    other.amount == paid.amount && decide (skew ≤ kSamePurchaseSkewMs)

/-- An event stored with no broadcast is held to be on the op's destination of its account. -/
def reaches (ρ : Redaction) (opDest : DestinationId) (ev : NormalizedEvent) : Bool :=
  let on := if ev.profileUuid = "" ∧ ev.accountId = opDest.accountId then opDest else ⟨ev.accountId, ev.profileUuid⟩
  ρ.matchesRow (destinationKey on) 0 ev.ts ev.msgId ev.authorId

def redactionOf (dest : DestinationId) (op : ModerationOp) : Redaction := .ofOp { op with dest } kHighestSeq

/-- The events a Delete takes the words of: those it names, and the other copies of what they
paid for. -/
def deleteReaches (store : EventStore) (ρ : Redaction) (dest : DestinationId) (ev : NormalizedEvent) : Bool :=
  reaches ρ dest ev || (store.select (reaches ρ dest)).any fun paid => samePurchase paid ev

def redactModeratedEvents (store : EventStore) (dest : DestinationId) (op : ModerationOp) (now : UInt64) :
    EventStore :=
  let ρ := redactionOf dest op
  match op.action with
  | .clearAll => store
  | .clearUser => store.redactMessages (reaches ρ dest) (deletedMark op.action) now
  | .delete =>
    if (store.select (reaches ρ dest)).isEmpty then store
    else store.redactMessages (deleteReaches store ρ dest) (deletedMark op.action) now

/-! ### `RecentRemovals` -/

/-- What is kept when a removal is seen: the last `kMax`, none older than `kKeepMs`. -/
def keepRecent (seenMs : Int) : List Removal → List Removal
  | [] => []
  | front :: rest =>
    if kMax < rest.length + 1 ∨ kKeepMs < seenMs - front.seenMs then keepRecent seenMs rest else front :: rest

def remember (removals : List Removal) (dest : DestinationId) (op : ModerationOp) (seenMs : Int) : List Removal :=
  if op.action = .clearAll then removals
  else
    let reach := redactionOf dest op
    let reach :=
      if op.action = .clearUser ∧ reach.beforeTs = none then
        { reach with beforeTs := some (op.happenedAt.getD (seenMs + kSeenMarginMs)) }
      else reach
    keepRecent seenMs (removals ++ [⟨dest, reach, seenMs⟩])

/-- The mark `Scrub` puts on an event, "" when no removal reaches it. -/
def scrubMark (removals : List Removal) (store : EventStore) (ev : NormalizedEvent) (nowMs : Int) : String :=
  let mark := ((removals.find? fun r => decide (nowMs - r.seenMs ≤ kKeepMs) && reaches r.reach r.dest ev).map
    fun r => deletedMark r.reach.action).getD ""
  if mark = "" ∧ ev.msgId = "" then
    ((store.select fun paid => paid.deleted != "" && samePurchase paid ev).head?.map (·.deleted)).getD ""
  else mark

def scrub (removals : List Removal) (store : EventStore) (ev : NormalizedEvent) (nowMs : Int) : NormalizedEvent :=
  if ev.message = "" ∨ scrubMark removals store ev nowMs = "" then ev
  else { ev with message := "", deleted := scrubMark removals store ev nowMs }

namespace EventHub

/-- `Admit`, with whether the event was stored. -/
def admitEvent (hub : EventHub) (ev : NormalizedEvent) (accountId : String) (nowMs : Int) (now : UInt64) :
    EventHub × Bool :=
  let ev := if ev.accountId = "" then { ev with accountId } else ev
  let ev := if ev.id ≠ "" ∧ hub.store.contains ev.id = false then scrub hub.removals hub.store ev nowMs else ev
  let added := hub.store.add ev now
  ({ hub with store := added.1 }, added.2)

def applyModeration (hub : EventHub) (dest : DestinationId) (op : ModerationOp) (nowMs : Int) (now : UInt64) :
    EventHub :=
  { removals := remember hub.removals dest op nowMs
    store := redactModeratedEvents hub.store dest op now }

end EventHub

/-! ### Two copies and a Delete -/

/-- A paid message as the live chat and as the REST poll bring it, each stamped with its
account. -/
structure Purchase where
  live : NormalizedEvent
  rest : NormalizedEvent
  liveId : live.id ≠ ""
  restId : rest.id ≠ ""
  liveText : live.message ≠ ""
  restText : rest.message ≠ ""
  named : live.msgId ≠ ""
  viewed : live.authorId ≠ ""
  unnamed : rest.msgId = ""
  channelWide : rest.profileUuid = ""
  author : rest.authorId = live.authorId
  account : rest.accountId = live.accountId
  platform : rest.platform = live.platform
  type : rest.type = live.type
  amount : rest.amount = live.amount
  skew : live.ts - rest.ts ≤ kSamePurchaseSkewMs ∧ rest.ts - live.ts ≤ kSamePurchaseSkewMs

def Purchase.dest (p : Purchase) : DestinationId := ⟨p.live.accountId, p.live.profileUuid⟩

/-- A Delete of the message. It is exact by id, so it carries no time. -/
structure Deletes (p : Purchase) (op : ModerationOp) : Prop where
  action : op.action = .delete
  msgId : op.msgId = p.live.msgId
  untimed : op.beforeTs = none

inductive Act where
  | live
  | rest
  | delete
  deriving DecidableEq

section

variable (p : Purchase) (op : ModerationOp) (ms : Act → Int) (ns : Act → UInt64)

def EventHub.act (hub : EventHub) : Act → EventHub
  | .live => (hub.admitEvent p.live p.live.accountId (ms .live) (ns .live)).1
  | .rest => (hub.admitEvent p.rest p.rest.accountId (ms .rest) (ns .rest)).1
  | .delete => hub.applyModeration p.dest op (ms .delete) (ns .delete)

def EventHub.acts (hub : EventHub) (order : List Act) : EventHub := order.foldl (EventHub.act p op ms ns) hub

end

/-- Nothing of the purchase is stored yet: neither copy, and no event the Delete names. -/
def Fresh (p : Purchase) (op : ModerationOp) (hub : EventHub) : Prop :=
  ∀ ev ∈ hub.store.events, ev.id ≠ p.live.id ∧ ev.id ≠ p.rest.id ∧ reaches (redactionOf p.dest op) p.dest ev = false

/-- Something removed earlier takes the words of an event that has no message id: a removal
that is still remembered, or a copy whose words are gone already. -/
def Forewarned (hub : EventHub) (ev : NormalizedEvent) (nowMs : Int) : Prop :=
  (∃ r ∈ hub.removals, nowMs - r.seenMs ≤ kKeepMs ∧ reaches r.reach r.dest ev = true) ∨
    ∃ paid ∈ hub.store.events, paid.deleted ≠ "" ∧ samePurchase paid ev = true

/-- No stored copy of the purchase carries text. -/
def Silenced (p : Purchase) (hub : EventHub) : Prop :=
  ∀ ev ∈ hub.store.events, ev.id = p.live.id ∨ ev.id = p.rest.id → ev.message = ""

end Braidcast.Events
