import Braidcast.Overlay.AlertDeck

/-!
# What the alert box says

The cards and the live region of `default-alertbox/template.js`, over the queue they have no part in.
Of a text only the message in it matters, with the event it was taken from. Events are objects, each
told apart by its `rest`; a redaction takes the message out of the object, so a text made from it
before still has it.
-/
namespace Braidcast.Overlay

open Lib

inductive CardKey
  | event (k : Nat)
  | summary
  deriving DecidableEq

/-- One `.alert` element. -/
structure AlertCard where
  key : CardKey
  exiting : Bool
  filled : Bool
  /-- The message its text has, with the event it is of. -/
  said : Option (String × String)

/-- The fields that are read when an alert is drawn. -/
structure DrawFields where
  queue : AlertFields
  /-- Is the message in the template of a type? -/
  shows : String → Bool

structure AlertView where
  box : AlertBox
  id : String → String
  /-- No event has an empty message. -/
  message : String → Option String
  cards : List AlertCard
  /-- The message the live region says, with the event it is of. -/
  live : Option (String × String)

def PEEK_DEPTH : Nat := 2

def cardKey (b : Burst) (k : Nat) : CardKey := if b.isSummary k then .summary else .event k

namespace AlertCard

def standing (key : CardKey) (c : AlertCard) : Bool := !c.exiting && c.key = key

end AlertCard

open AlertCard

namespace AlertView

def initial : AlertView := ⟨.initial, fun _ => "", fun _ => none, [], none⟩

variable (v : AlertView) (f : DrawFields) (b : Burst)

/-- `fillCard`: the text of an event, as it is now. -/
def fillCard (e : AlertEvent) (c : AlertCard) : AlertCard :=
  { c with filled := true, said := if f.shows e.type then (v.message e.rest).map fun message => (e.rest, message) else none }

/-- `fillSummary`: a count and a noun. -/
def fillSummary (c : AlertCard) : AlertCard := { c with said := none }

/-- The fill of a card that stands for place `k`. -/
def fill (k : Nat) (c : AlertCard) : AlertCard :=
  if cardKey b k = .summary then fillSummary c
  else if c.filled then c
  else
    match b.events[k]? with
    | some e => v.fillCard f e c
    | none => c

/-- One turn of the loop of `layout`: a card for place `k`, new if there is none. -/
def draw (cards : List AlertCard) (k : Nat) : List AlertCard :=
  let cards := if cards.any (standing (cardKey b k)) then cards else cards ++ [⟨cardKey b k, false, false, none⟩]
  modifyFirst (standing (cardKey b k)) (v.fill f b k) cards

/-- A "+N more" card takes over the card that peeks in its place. -/
def takeOver (cards : List AlertCard) : List AlertCard :=
  if 0 ≤ b.summaryFrom && !cards.any (standing .summary) then
    modifyFirst (standing (.event b.summaryFrom.toNat)) (fun c => { c with key := .summary }) cards
  else cards

/-- The places of the front card and of those that peek out behind it. -/
def want : List Nat := ((List.range (PEEK_DEPTH + 1)).map fun d => b.front + d).filter fun k => k < b.cardCount

def layout : AlertView :=
  let cards := (takeOver b v.cards).filter fun c => c.exiting || (want b).any fun k => cardKey b k = c.key
  { v with cards := (want b).foldl (v.draw f b) cards }

def announce : AlertView :=
  match v.cards.find? (standing (cardKey b b.front)) with
  | some c => { v with live := c.said }
  | none => v

def exitFront : AlertView :=
  { v with cards := modifyFirst (standing (cardKey b b.front)) (fun c => { c with exiting := true }) v.cards }

/-- The deck comes up with the burst on it. -/
def come : AlertView :=
  match v.box.current with
  | some b => ({ v with cards := [] }.layout f b).announce b
  | none => v

/-- The object of an event that came, with its id and its message. -/
def hold (e : AlertEvent) (id : String) (message : Option String) : AlertView :=
  { v with
    id := Function.update v.id e.rest id
    message := Function.update v.message e.rest (message.filter (· ≠ "")) }

def onEvent (now : Int) (e : AlertEvent) (id : String) (message : Option String) : AlertView :=
  let d := { v.box with arrived := v.box.arrived ++ [e] }
  let after := { v.hold e id message with box := v.box.onEvent f.queue now e }
  match d.joinDeck f.queue now e with
  | some _ =>
    match after.box.current with
    | some b => after.layout f b
    | none => after
  | none =>
    match (d.joinTail f.queue now e).or ((d.joinGroup now e).or (d.joinOverflow now e)) with
    | some _ => after
    | none => if v.box.current.isNone then after.come f else after

/-- The timer's step. -/
def fire (now : Int) : Option AlertView :=
  (v.box.fire f.queue now).map fun box =>
    match v.box.timer.map Prod.fst, v.box.current, box.current with
    | some .advance, some b, some b' => ({ v.exitFront b with box := box }.layout f b').announce b'
    | some .next, _, _ => { v with box := box, cards := [] }.come f
    | _, _, _ => { v with box := box }

/-- An exit animation ends. -/
def exited (place : Nat) : Option AlertView :=
  if v.cards[place]?.any AlertCard.exiting then some { v with cards := v.cards.eraseIdx place } else none

/-- The bursts whose events are held. -/
def bursts : List Burst := v.box.current.toList ++ v.box.queue

/-- Does the redaction take words from the event? -/
def loses (redacts : String → Bool) (e : AlertEvent) : Bool := (v.message e.rest).isSome && redacts (v.id e.rest)

/-- The keys of the cards that showed words now removed. -/
def hit (redacts : String → Bool) : CardKey → Bool
  | .event k => b.events[k]?.any (v.loses redacts)
  | .summary => false

/-- The events that are held lose the words. -/
def delete (redacts : String → Bool) : AlertView :=
  { v with
    message := fun rest =>
      if v.bursts.any (fun b => b.events.any fun e => e.rest = rest && v.loses redacts e) then none else v.message rest }

/-- `onEventRedaction` -/
def onEventRedaction (redacts : String → Bool) : AlertView :=
  let after := v.delete redacts
  match v.box.current with
  | none => after
  | some b =>
    if !b.events.any (v.loses redacts) then after
    else if b.leaving then { after with cards := [], live := none }
    else
      let cards := v.cards.filter fun c => !(c.exiting && v.hit b redacts c.key)
      let cards := cards.map fun c => if v.hit b redacts c.key then { c with filled := false } else c
      let after := { after with cards := cards }.layout f b
      if v.hit b redacts (cardKey b b.front) then after.announce b else after

inductive Input
  | event (f : DrawFields) (now : Int) (e : AlertEvent) (id : String) (message : Option String)
  | fire (f : DrawFields) (now : Int)
  | exited (place : Nat)
  | redaction (f : DrawFields) (redacts : String → Bool)

/-- An event comes as an object of its own. -/
def react (v : AlertView) : Input → Option AlertView
  | .event f now e id message => if v.box.arrived.all (fun old => old.rest ≠ e.rest) then some (v.onEvent f now e id message) else none
  | .fire f now => v.fire f now
  | .exited place => v.exited place
  | .redaction f redacts => some (v.onEventRedaction f redacts)

end AlertView

end Braidcast.Overlay
