import Braidcast.Lib.Json
import Braidcast.Schedule.Store

/-!
# Loading an entry's configuration

`ScheduledSetup` over the routing and the remembered metadata it changes. All its seams are
set. A write of the routing seam has one of three outcomes, since a refusal does not say
that nothing changed; the answers of a call are keyed by the pass that asks, each pass
writing a binding once. The JSON parser that reads an entry's tags is a parameter.
-/
namespace Braidcast.Schedule

open Braidcast.Lib (Json Fields)

structure RoutingBinding where
  uuid : String
  profileId : String
  enabled : Bool

/-- What became of a write. -/
inductive Outcome where
  | accepted
  | refusedLanded
  | refused

/-- The bindings in file order, each with its own uuid. -/
structure Routing where
  bindings : List RoutingBinding
  nodup : (bindings.map (·.uuid)).Nodup

namespace Routing

def find (r : Routing) (uuid : String) : Option RoutingBinding := r.bindings.find? (fun b => b.uuid = uuid)

def setEnabled (r : Routing) (uuid : String) (enabled : Bool) : Routing where
  bindings := r.bindings.map (fun b => if b.uuid = uuid then { b with enabled } else b)
  nodup := by
    have same : (r.bindings.map (fun b => if b.uuid = uuid then { b with enabled } else b)).map (·.uuid) =
        r.bindings.map (·.uuid) := by
      rw [List.map_map]
      apply List.map_congr_left
      intro b _
      simp only [Function.comp]
      split <;> rfl
    rw [same]
    exact r.nodup

end Routing

structure TouchedBinding where
  uuid : String
  before : Bool
  after : Bool

/-- One profile's bag as it was and as the application leaves it. -/
structure PlannedOverride where
  profileId : String
  before : Fields
  after : Fields
  existed : Bool

structure Setup where
  routing : Routing
  metadata : String → Option Fields
  applied : Bool := false
  bindings : List TouchedBinding := []
  overrides : List PlannedOverride := []

/-- What the outside answers while one `Apply` or `ApplyRouting` runs: whether something
streams when it is entered, when the `Revert` it opens with asks, and when the `Revert` that
abandons a refused narrowing asks; and what the writes of each of the three passes do. -/
structure SetupAnswers where
  streaming : Bool := false
  streamingAtOpening : Bool := false
  streamingAtAbandon : Bool := false
  opening : String → Outcome := fun _ => .accepted
  narrowing : String → Outcome := fun _ => .accepted
  abandoning : String → Outcome := fun _ => .accepted

/-! ### Metadata -/

/-- Empty values are left out, and a category without an id is none. -/
def metadataFields (parseJson : String → Option Json) (d : ScheduleDestination) : Fields :=
  let fields : Fields := if d.title = "" then [] else Fields.set "title" (.str d.title) []
  let fields :=
    if d.categoryId = "" then fields
    else Fields.set "category" (.obj (Fields.set "id" (.str d.categoryId) [("name", .str d.category)])) fields
  match parseJson d.tags with
  | some (.arr (tag :: tags)) => Fields.set "tags" (.arr (tag :: tags)) fields
  | _ => fields

/-- One field over what is there; an object merges a level deeper, its empty strings left out. -/
def mergeField (merged : Fields) (field : String × Json) : Fields :=
  match field.2, merged.get? field.1 with
  | .obj inner, some (.obj target) =>
    Fields.set field.1 (.obj (inner.foldl (fun target f =>
      if f.2 = .str "" then target else Fields.set f.1 f.2 target) target)) merged
  | value, _ => Fields.set field.1 value merged

/-- The plan so far and the profiles it captured, with one more destination. -/
def planOne (parseJson : String → Option Json) (read : String → Json)
    (p : List PlannedOverride × List String) (d : ScheduleDestination) : List PlannedOverride × List String :=
  if d.profileId = "" ∨ d.profileId ∈ p.2 then p
  else
    let fields := metadataFields parseJson d
    if fields = [] then p
    else
      let existing := match read d.profileId with
        | .obj bag => bag
        | _ => []
      (p.1 ++ [⟨d.profileId, existing, fields.foldl mergeField existing, !existing.isEmpty⟩],
        p.2 ++ [d.profileId])

/-- One override for each profile whose destination carries fields. -/
def planMetadata (parseJson : String → Option Json) (destinations : List ScheduleDestination)
    (read : String → Json) : List PlannedOverride :=
  (destinations.foldl (planOne parseJson read) ([], [])).1

namespace Setup

/-- A profile with no bag reads as one with an empty bag. -/
def read (s : Setup) (profileId : String) : Json := .obj ((s.metadata profileId).getD [])

def writeMetadata (s : Setup) (profileId : String) (bag : Option Fields) : Setup :=
  { s with metadata := Function.update s.metadata profileId bag }

/-! ### Routing -/

def write (outcome : String → Outcome) (s : Setup) (uuid : String) (enabled : Bool) : Setup × Bool :=
  match outcome uuid with
  | .accepted => ({ s with routing := s.routing.setEnabled uuid enabled }, true)
  | .refusedLanded => ({ s with routing := s.routing.setEnabled uuid enabled }, false)
  | .refused => (s, false)

/-- After a refusal it is the state that answers, not the result. -/
def writeLanded (outcome : String → Outcome) (s : Setup) (uuid : String) (enabled : Bool) : Setup × Bool :=
  let (s, accepted) := s.write outcome uuid enabled
  if accepted then (s, true)
  else
    (s, match s.routing.find uuid with
      | some now => now.enabled == enabled
      | none => false)

/-- One record for each binding, with the value it had when it was first touched. -/
def record (uuid : String) (enabled : Bool) : List TouchedBinding → List TouchedBinding
  | [] => [⟨uuid, !enabled, enabled⟩]
  | touched :: rest =>
    if touched.uuid = uuid then { touched with after := enabled } :: rest
    else touched :: record uuid enabled rest

def flip (outcome : String → Outcome) (s : Setup) (uuid : String) (enabled : Bool) : Setup × Bool :=
  let (s, landed) := s.writeLanded outcome uuid enabled
  if landed then ({ s with bindings := record uuid enabled s.bindings }, true) else (s, false)

/-- Put back the bindings that still hold what they were left at; what is refused is kept. -/
def restoreBindings (outcome : String → Outcome) (current : Routing) :
    List TouchedBinding → Setup → Setup × List TouchedBinding
  | [], s => (s, [])
  | touched :: rest, s =>
    match current.find touched.uuid with
    | none => restoreBindings outcome current rest s
    | some now =>
      if now.enabled ≠ touched.after then restoreBindings outcome current rest s
      else
        let (s, landed) := s.writeLanded outcome touched.uuid touched.before
        let (s, refused) := restoreBindings outcome current rest s
        (s, if landed then refused else touched :: refused)

def restoreOverride (s : Setup) (touched : PlannedOverride) : Setup :=
  if s.read touched.profileId ≠ .obj touched.after then s
  else s.writeMetadata touched.profileId (if touched.existed then some touched.before else none)

def revert (streaming : Bool) (outcome : String → Outcome) (s : Setup) : Setup :=
  if s.bindings = [] ∧ s.overrides = [] then { s with applied := false }
  else if streaming then s
  else
    let (restored, refused) := restoreBindings outcome s.routing s.bindings s
    let restored := s.overrides.foldl restoreOverride restored
    { restored with overrides := [], bindings := refused, applied := !refused.isEmpty }

/-! ### Applying -/

/-- The enabled bindings the destinations name, each once. -/
def wanted (before : List RoutingBinding) (destinations : List ScheduleDestination) : List String :=
  destinations.foldl (fun wanted d =>
    if d.profileId = "" then wanted
    else
      match before.find? (fun b => b.profileId = d.profileId ∧ b.enabled) with
      | none => wanted
      | some b => if b.uuid ∈ wanted then wanted else wanted ++ [b.uuid]) []

/-- Switch off what is not wanted, stopping at the first binding that stays on. -/
def narrowFrom (outcome : String → Outcome) (wanted : List String) : List RoutingBinding → Setup → Setup × Bool
  | [], s => (s, true)
  | b :: rest, s =>
    if b.enabled ∧ b.uuid ∉ wanted then
      let (s, landed) := s.flip outcome b.uuid false
      if landed then narrowFrom outcome wanted rest s else (s, false)
    else narrowFrom outcome wanted rest s

/-- The reason the narrowing is refused with, if it is. -/
def narrowRouting (a : SetupAnswers) (destinations : List ScheduleDestination) (s : Setup) :
    Setup × Option String :=
  let wanted := wanted s.routing.bindings destinations
  if wanted = [] then
    (s, some (if destinations = [] then "this entry has no destinations"
      else "none of this entry's destinations are switched on"))
  else
    let (narrowed, complete) := narrowFrom a.narrowing wanted s.routing.bindings s
    if complete then (narrowed, none)
    else (narrowed.revert a.streamingAtAbandon a.abandoning,
      some "a destination could not be taken off the air for this entry")

def applyRouting (a : SetupAnswers) (destinations : List ScheduleDestination) (s : Setup) :
    Setup × Option String :=
  if a.streaming then (s, some "something is already streaming")
  else
    let (s, reason) := (s.revert a.streamingAtOpening a.opening).narrowRouting a destinations
    if reason.isSome then (s, reason) else ({ s with applied := true }, none)

def apply (parseJson : String → Option Json) (a : SetupAnswers) (destinations : List ScheduleDestination)
    (s : Setup) : Setup × Option String :=
  if a.streaming then (s, some "something is already streaming")
  else
    let (s, reason) := (s.revert a.streamingAtOpening a.opening).narrowRouting a destinations
    if reason.isSome then (s, reason)
    else
      let s := { s with overrides := planMetadata parseJson destinations s.read }
      let s := s.overrides.foldl (fun s planned => s.writeMetadata planned.profileId (some planned.after)) s
      ({ s with applied := true }, none)

end Setup

/-! ### Steps -/

inductive SetupCall where
  | apply (answers : SetupAnswers) (destinations : List ScheduleDestination)
  | applyRouting (answers : SetupAnswers) (destinations : List ScheduleDestination)
  | revert (streaming : Bool) (outcome : String → Outcome)

def Setup.step (parseJson : String → Option Json) (s : Setup) : SetupCall → Setup
  | .apply a destinations => (s.apply parseJson a destinations).1
  | .applyRouting a destinations => (s.applyRouting a destinations).1
  | .revert streaming outcome => s.revert streaming outcome

end Braidcast.Schedule
