import Braidcast.Lib.Run
import Mathlib.Order.Lattice
import Mathlib.Data.List.Nodup

/-!
# The cutouts of a window

`CutoutSet` with the host it sends to. A call runs to its first await as one step; what a
promise it awaits lets it do next is another: a presentation that came, a send the host
answered, a retry whose delay ran out. The answers come in any order, while the host applies
the sends in the order they were issued; one that failed it may have applied or not.

A state is sent as its JSON text, so two texts are equal when the states are.
-/
namespace Braidcast.Docking

open Lib

/-- A viewport rect in CSS px. -/
structure CutRect (α : Type) where
  x : α
  y : α
  w : α
  h : α
  deriving DecidableEq

/-- The overlap of two rects, if they overlap. -/
def intersectCut {α : Type} [LinearOrder α] [Add α] [Sub α] (a b : CutRect α) : Option (CutRect α) :=
  let x := max a.x b.x
  let y := max a.y b.y
  let right := min (a.x + a.w) (b.x + b.w)
  let bottom := min (a.y + a.h) (b.y + b.h)
  if x < right ∧ y < bottom then some ⟨x, y, right - x, bottom - y⟩ else none

/-- Everything the host holds for this window: the holes, and whether a layer is open. -/
structure CutoutState (α : Type) where
  rects : List (CutRect α)
  grab : Bool
  deriving DecidableEq

def SEND_ATTEMPTS : Nat := 4

/-- `Promise.resolve()`, or the promise of a send's delivery. -/
inductive Promise where
  | resolved
  | of (send : Nat)
  deriving DecidableEq

/-- Where a delivery stands. -/
inductive Phase where
  /-- Sent, not answered. -/
  | sent
  | landed
  /-- Failed; its retry is due when a delay has run out. -/
  | waiting
  /-- Failed, as every attempt before it. -/
  | gaveUp
  /-- Failed; it settles as another promise does. -/
  | stands (promise : Promise)
  deriving DecidableEq

/-- A delivery, by the number of its send. -/
structure Delivery (α : Type) where
  state : CutoutState α
  /-- The layer behind each of its rects. -/
  cutters : List Nat
  attempt : Nat
  phase : Phase
  /-- The host has applied it. -/
  applied : Bool

/-- One floating layer's part of the cut. -/
structure CutoutLayer (α : Type) where
  cut : Option (CutRect α) := none
  overSurface : Option Bool := none
  answeredCut : Option (CutRect α) := none
  sentIn : Nat := 0
  shape : Nat := 0
  released : Option Promise := none
  /-- How many sends there were before its release; kept for the statements only. -/
  releasedAt : Nat := 0

/-- A reshape that waits for the shape it was given to be presented. -/
structure Presentation (α : Type) where
  layer : Nat
  shape : Nat
  next : CutRect α

structure CutoutSet (α : Type) where
  /-- Every layer there was, by its number. -/
  layers : List (CutoutLayer α)
  /-- The open ones, in the order they were added. -/
  opened : List Nat
  sentKey : Option (CutoutState α)
  lastSend : Promise
  sends : List (Delivery α)
  presentations : List (Presentation α)

/-- A layer just opened. -/
def CutoutLayer.new {α : Type} : CutoutLayer α := {}

/-- A send about to go carries this layer's rect. The same rect again keeps its answer. -/
def CutoutLayer.carried {α : Type} [DecidableEq α] (layer : CutoutLayer α) (send : Nat) : CutoutLayer α :=
  { layer with
    sentIn := send
    overSurface := if layer.cut = layer.answeredCut then layer.overSurface else none }

namespace CutoutSet

variable {α : Type}

def fresh : CutoutSet α := ⟨[], [], none, .resolved, [], []⟩

def cutOf (s : CutoutSet α) (l : Nat) : Option (CutRect α) := s.layers[l]?.bind (·.cut)

/-- The state to send, and the layer behind each of its rects. -/
def state (s : CutoutSet α) : CutoutState α := ⟨s.opened.filterMap s.cutOf, !s.opened.isEmpty⟩

def cutters (s : CutoutSet α) : List Nat := s.opened.filter fun l => (s.cutOf l).isSome

/-- The state the host applied last. -/
def hostState (s : CutoutSet α) : Option (CutoutState α) := (s.sends.reverse.find? (·.applied)).map (·.state)

def setLayer (s : CutoutSet α) (l : Nat) (f : CutoutLayer α → CutoutLayer α) : CutoutSet α :=
  { s with layers := s.layers.modify l f }

def setPhase (s : CutoutSet α) (i : Nat) (phase : Phase) : CutoutSet α :=
  { s with sends := s.sends.modify i ({ · with phase }) }

section

variable [LinearOrder α] [Add α] [Sub α]

/-- `#deliver` up to its send, with what both its callers keep of it. -/
def deliver (s : CutoutSet α) (attempt : Nat) : CutoutSet α :=
  { s with
    layers := s.layers.mapIdx fun l layer =>
      if l ∈ s.cutters then layer.carried (s.sends.length + 1) else layer
    sentKey := some s.state
    lastSend := .of s.sends.length
    sends := s.sends ++ [⟨s.state, s.cutters, attempt, .sent, false⟩] }

/-- `#send`: a state that was the last sent is not sent again. -/
def send (s : CutoutSet α) : CutoutSet α := if s.sentKey = some s.state then s else s.deliver 1

/-! ### Calls -/

def add (s : CutoutSet α) : CutoutSet α :=
  { s with layers := s.layers ++ [CutoutLayer.new], opened := s.opened ++ [s.layers.length] }.send

/-- What is left of a layer's cut as it takes its next shape. -/
def keptCut (cut next : Option (CutRect α)) : Option (CutRect α) :=
  match cut, next with
  | some a, some b => intersectCut a b
  | _, _ => none

def setCut (s : CutoutSet α) (l : Nat) (cut : Option (CutRect α)) : CutoutSet α := s.setLayer l ({ · with cut })

/-- `reshape` up to the presentation it waits for. -/
def reshape (s : CutoutSet α) (l : Nat) (next : Option (CutRect α)) : Option (CutoutSet α) :=
  s.layers[l]?.map fun layer =>
    if layer.released.isSome then s
    else
      let kept := keptCut layer.cut next
      let s := s.setLayer l ({ · with shape := layer.shape + 1 })
      let s := if kept = layer.cut then s else (s.setCut l kept).send
      match next with
      | none => s
      | some rect =>
        if some rect = kept then s
        else { s with presentations := s.presentations ++ [⟨l, layer.shape + 1, rect⟩] }

/-- The rest of a reshape: a shape since replaced lands nowhere. -/
def presented (s : CutoutSet α) (k : Nat) : Option (CutoutSet α) :=
  s.presentations[k]?.bind fun p =>
    let s := { s with presentations := s.presentations.eraseIdx k }
    s.layers[p.layer]?.map fun layer =>
      if layer.shape = p.shape ∧ layer.released = none then (s.setCut p.layer (some p.next)).send else s

def release (s : CutoutSet α) (l : Nat) : Option (CutoutSet α) :=
  s.layers[l]?.map fun layer =>
    if layer.released.isSome then s
    else
      let after := { s.setLayer l ({ · with shape := layer.shape + 1 }) with opened := s.opened.erase l }.send
      after.setLayer l ({ · with released := some after.lastSend, releasedAt := s.sends.length })

def resend (s : CutoutSet α) : CutoutSet α := { s with sentKey := none }.send

/-! ### The rest of `#deliver` -/

/-- The answer reaches the layers this send was the last to carry. A reply short of a rect
is read as a hole. -/
def answered (layers : List (CutoutLayer α)) (i : Nat) (d : Delivery α) (hits : List Bool) : List (CutoutLayer α) :=
  layers.mapIdx fun l layer =>
    if l ∈ d.cutters ∧ layer.sentIn = i + 1 then
      { layer with
        overSurface := some (hits[d.cutters.idxOf l]?.getD true)
        answeredCut := d.state.rects[d.cutters.idxOf l]? }
    else layer

def land (s : CutoutSet α) (i : Nat) (hits : List Bool) : Option (CutoutSet α) :=
  s.sends[i]?.bind fun d =>
    if d.phase = .sent then
      some { s with
        layers := answered s.layers i d hits
        sends := s.sends.set i { d with phase := .landed, applied := true } }
    else none

/-- The call failed; `applied` is whether the host applied it all the same. -/
def fail (s : CutoutSet α) (i : Nat) (applied : Bool) : Option (CutoutSet α) :=
  s.sends[i]?.bind fun d =>
    if d.phase = .sent then
      let s' := { s with sends := s.sends.set i { d with applied } }
      some (if s.sentKey ≠ some d.state then s'.setPhase i (.stands s.lastSend)
        else { s' with sentKey := none }.setPhase i (if SEND_ATTEMPTS ≤ d.attempt then .gaveUp else .waiting))
    else none

/-- The delay of a retry ran out. It sends the state as it is by then. -/
def retry (s : CutoutSet α) (i : Nat) : Option (CutoutSet α) :=
  s.sends[i]?.bind fun d =>
    if d.phase = .waiting then
      some (if s.sentKey ≠ none then s.setPhase i (.stands s.lastSend)
        else (s.deliver (d.attempt + 1)).setPhase i (.stands (.of s.sends.length)))
    else none

end

end CutoutSet

inductive CutoutEvent (α : Type) where
  | add
  | reshape (layer : Nat) (next : Option (CutRect α))
  | presented (presentation : Nat)
  | release (layer : Nat)
  | resend
  | land (send : Nat) (hits : List Bool)
  | fail (send : Nat) (applied : Bool)
  | retry (send : Nat)

variable {α : Type}

/-- The state after the event, where it can happen. -/
def CutoutSet.step [LinearOrder α] [Add α] [Sub α] (s : CutoutSet α) : CutoutEvent α → Option (CutoutSet α)
  | .add => some s.add
  | .reshape l next => s.reshape l next
  | .presented k => s.presented k
  | .release l => s.release l
  | .resend => some s.resend
  | .land i hits => s.land i hits
  | .fail i applied => s.fail i applied
  | .retry i => s.retry i

def CutoutStep [LinearOrder α] [Add α] [Sub α] (s : CutoutSet α) (event : CutoutEvent α) (t : CutoutSet α) : Prop :=
  s.step event = some t

/-- The promise has resolved. One that settles as itself never does. -/
inductive Resolved (s : CutoutSet α) : Promise → Prop
  | resolved : Resolved s .resolved
  | landed {i : Nat} {d : Delivery α} : s.sends[i]? = some d → d.phase = .landed → Resolved s (.of i)
  | gaveUp {i : Nat} {d : Delivery α} : s.sends[i]? = some d → d.phase = .gaveUp → Resolved s (.of i)
  | stands {i : Nat} {d : Delivery α} {p : Promise} : s.sends[i]? = some d → d.phase = .stands p → Resolved s p →
      Resolved s (.of i)

/-- This many attempts have failed in a row, the last of them this send: each was made when
the one before it had failed. -/
inductive FailedInARow (s : CutoutSet α) : Nat → Nat → Prop
  | first {i : Nat} {d : Delivery α} : s.sends[i]? = some d → d.phase ≠ .sent → d.phase ≠ .landed →
      FailedInARow s 1 i
  | next {n i j : Nat} {d d' : Delivery α} : FailedInARow s n j → s.sends[j]? = some d' →
      d'.phase = .stands (.of i) → j < i → s.sends[i]? = some d → d.phase ≠ .sent → d.phase ≠ .landed →
      FailedInARow s (n + 1) i

end Braidcast.Docking
