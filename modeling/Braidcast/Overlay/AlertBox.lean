import Braidcast.Lib.Lists

/-!
# The alert box's queue

`default-alertbox/template.js`: events wait in bursts for the deck, which shows one burst after the
other, card by card. Times are in microseconds. A field may change between any two steps, so each
step is given the fields it reads. Left out are what is drawn, but for which event's card came to
the front, and redactions, which move no event.
-/
namespace Braidcast.Overlay

open Lib

structure AlertEvent where
  type : String
  /-- Everything else in the event. -/
  rest : String
  deriving DecidableEq

/-- A `TYPES` entry: the group a type stacks with, or the noun of its overflow card where it plays alone. -/
structure TypeEntry where
  group : Option String := none
  alone : Option String := none

def TYPES (type : String) : Option TypeEntry :=
  if type = "follow" then some {}
  else if type = "sub" then some { group := some "subs" }
  else if type = "resub" then some { group := some "subs" }
  else if type = "subgift" then some { group := some "subs" }
  else if type = "member" then some { group := some "members" }
  else if type = "cheer" then some { alone := some "nounCheer" }
  else if type = "raid" then some { alone := some "nounRaid" }
  else if type = "superchat" then some { alone := some "nounSuperchat" }
  else if type = "supersticker" then some { alone := some "nounSupersticker" }
  else if type = "kicks" then some { alone := some "nounKicks" }
  else none

def BURST_EXTRA : Int := 8000000
def CARD_FLOOR : Int := 350000
def MIN_SUMMARIZED : Int := 2
def MAX_WAITING : Nat := 3
def MAX_ALONE_WAITING : Nat := 10
def HIDE : Int := 360000

/-- The burst group a type stacks with; `none` plays alone. -/
def groupOf (type : String) : Option String :=
  match TYPES type with
  | some ⟨_, some _⟩ => none
  | some ⟨some group, none⟩ => some group
  | _ => some type

/-- The fields the queue reads; `none` where one is missing or no number. -/
structure AlertFields where
  duration : Option Int
  burstWindow : Option Int
  cardInterval : Option Int

def seconds (v : Option Int) (byDefault : Int) : Int :=
  match v with
  | some v => if 0 ≤ v then v else byDefault
  | none => byDefault

def AlertFields.window (fields : AlertFields) : Int := seconds fields.burstWindow 1500000

def AlertFields.durationTime (fields : AlertFields) : Int :=
  match fields.duration with
  | some v => if v = 0 then 5000000 else v
  | none => 5000000

def AlertFields.intervalTime (fields : AlertFields) : Int :=
  let interval := seconds fields.cardInterval 1000000
  max CARD_FLOOR (if interval = 0 then 1000000 else interval)

structure Burst where
  group : Option String
  overflow : Bool
  events : List AlertEvent
  lastAt : Int
  startAt : Int
  front : Nat
  frontAt : Int
  /-- From where on the events are only counted; -1 for a burst that shows them all. -/
  summaryFrom : Int
  leaving : Bool
  /-- How many bursts were made before it. -/
  entry : Nat
  /-- The events whose own card was in front, once for each time it was drawn there. -/
  shown : List Nat

namespace Burst

variable (b : Burst)

/-- The burst takes another event. -/
def push (e : AlertEvent) (now : Int) : Burst := { b with events := b.events ++ [e], lastAt := now }

/-- Every event, or the ones before `summaryFrom` and the "+N more" card. -/
def cardCount : Nat := if 0 ≤ b.summaryFrom then b.summaryFrom.toNat + 1 else b.events.length

def isSummary (k : Nat) : Bool := 0 ≤ b.summaryFrom && (k : Int) = b.summaryFrom

/-- How long the front card holds; a burst that does not fit is cut to the cards that do and a "+N more" card. -/
def holdTime (fields : AlertFields) : Burst × Int :=
  let last := (b.cardCount : Int) - 1
  if last ≤ b.front then (b, fields.durationTime)
  else
    let toGo := last - b.front
    let left := max 0 (b.startAt + BURST_EXTRA - b.frontAt)
    if CARD_FLOOR * toGo ≤ left then (b, min fields.intervalTime (left / toGo))
    else
      let fit := max 1 (left / CARD_FLOOR)
      if b.summaryFrom < 0 ∧ MIN_SUMMARIZED ≤ b.events.length - (b.front + fit) then
        ({ b with summaryFrom := b.front + fit }, CARD_FLOOR)
      else (b, CARD_FLOOR)

/-- The front card is drawn. -/
def layout : Burst := if b.isSummary b.front then b else { b with shown := b.front :: b.shown }

/-- Is the front card the last one? -/
def atLast : Bool := (b.cardCount : Int) - 1 ≤ b.front

end Burst

/-- What the deck's one timer does next. -/
inductive DeckStep
  | advance
  | leave
  | next
  deriving DecidableEq

/-- The queue, the deck and its timer with the time it was given. -/
structure AlertBox where
  queue : List Burst
  current : Option Burst
  timer : Option (DeckStep × Int)
  /-- The bursts that left the deck. -/
  gone : List Burst
  arrived : List AlertEvent
  entered : Nat

namespace AlertBox

def initial : AlertBox := ⟨[], none, none, [], [], 0⟩

variable (d : AlertBox) (fields : AlertFields) (now : Int)

def canJoin (b : Burst) (group : String) : Bool :=
  d.queue.isEmpty && b.group = some group && !b.leaving && (0 ≤ b.summaryFrom || now < b.startAt + BURST_EXTRA)

/-- Draws the burst on the deck and sets its next step. -/
def plan (b : Burst) : AlertBox :=
  let (b, hold) := b.holdTime fields
  let b := b.layout
  { d with
    current := some b
    timer := some (if b.atLast then .leave else .advance, max 0 (b.frontAt + hold - now)) }

def next : AlertBox :=
  match d.queue with
  | [] => { d with current := none }
  | b :: queue => { d with queue := queue }.plan fields now { b with startAt := now, frontAt := now }

def advance (b : Burst) : AlertBox := d.plan fields now { b with front := b.front + 1, frontAt := now }

def leave (b : Burst) : AlertBox := { d with current := some { b with leaving := true }, timer := some (.next, HIDE) }

/-- The deck is hidden and takes the next burst. -/
def hidden (b : Burst) : AlertBox := { d with current := none, timer := none, gone := d.gone ++ [b] }.next fields now

/-- The bursts of a type that plays alone. -/
def isBacklog (type : String) (b : Burst) : Bool :=
  b.group.isNone && b.events.head?.any fun e => e.type = type

/-- `aloneBacklog`: have the whole cards of the type reached their number? -/
def aloneFull (type : String) : Bool :=
  MAX_ALONE_WAITING ≤ (d.queue.filter fun b => isBacklog type b && !b.overflow).length

/-- The event joins the burst on the deck. -/
def joinDeck (e : AlertEvent) : Option AlertBox :=
  match groupOf e.type, d.current with
  | some group, some b =>
    if 0 < fields.window ∧ d.canJoin now b group then some (d.plan fields now (b.push e now)) else none
  | _, _ => none

/-- The event joins the burst that came last. -/
def joinTail (e : AlertEvent) : Option (List Burst) :=
  match groupOf e.type, d.queue.getLast? with
  | some group, some tail =>
    if 0 < fields.window ∧ tail.group = some group ∧ now - tail.lastAt ≤ fields.window then
      some (d.queue.dropLast ++ [tail.push e now])
    else none
  | _, _ => none

/-- Past `MAX_WAITING`, the event joins the newest waiting burst of its group. -/
def joinGroup (e : AlertEvent) : Option (List Burst) :=
  match groupOf e.type with
  | some group =>
    if MAX_WAITING ≤ d.queue.length then modifyLast (fun b => b.group = some group) (·.push e now) d.queue else none
  | none => none

/-- The event is only counted by the overflow burst of its type. -/
def joinOverflow (e : AlertEvent) : Option (List Burst) :=
  match groupOf e.type with
  | some _ => none
  | none => modifyLast (fun b => isBacklog e.type b && b.overflow) (fun b => { b.push e now with summaryFrom := 0 }) d.queue

/-- A burst of its own. -/
def newBurst (e : AlertEvent) : Burst where
  group := groupOf e.type
  overflow := (groupOf e.type).isNone && d.aloneFull e.type
  events := [e]
  lastAt := now
  startAt := 0
  front := 0
  frontAt := 0
  summaryFrom := -1
  leaving := false
  entry := d.entered
  shown := []

def enqueue (e : AlertEvent) : AlertBox :=
  let d' := { d with queue := d.queue ++ [d.newBurst now e], entered := d.entered + 1 }
  if d.current.isNone then d'.next fields now else d'

def onEvent (e : AlertEvent) : AlertBox :=
  let d := { d with arrived := d.arrived ++ [e] }
  match d.joinDeck fields now e with
  | some d => d
  | none =>
    match (d.joinTail fields now e).or ((d.joinGroup now e).or (d.joinOverflow now e)) with
    | some queue => { d with queue := queue }
    | none => d.enqueue fields now e

/-- The timer's step. -/
def fire : Option AlertBox :=
  match d.timer, d.current with
  | some (.advance, _), some b => some ({ d with timer := none }.advance fields now b)
  | some (.leave, _), some b => some ({ d with timer := none }.leave b)
  | some (.next, _), some b => some (d.hidden fields now b)
  | _, _ => none

end AlertBox

end Braidcast.Overlay
