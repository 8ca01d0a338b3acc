import Braidcast.Lib.Emplace
import Braidcast.Lib.Run

/-!
# The video gate

The sources of an idle Main canvas stop capturing video. The gate remembers the uuids it gated
last, to ungate a source that a later walk does not visit. Every entry point runs on the UI
thread; between two calls sources are created and destroyed.
-/
namespace Braidcast.Multistream.VideoGate

open Lib

/-! ### The sources of libobs -/

/-- A source, whose object is told from a later one with the same uuid. -/
structure Source where
  object : Nat
  uuid : String
  videoGated : Bool := false
  deriving DecidableEq

/-- The living sources. A source whose uuid is taken gets a new one before it is entered. -/
structure Sources where
  list : List Source := []
  next : Nat := 0
  objects : (list.map (·.object)).Nodup := by simp
  uuids : (list.map (·.uuid)).Nodup := by simp
  below : ∀ source ∈ list, source.object < next := by simp

namespace Sources

variable (sources : Sources)

def byObject (object : Nat) : Option Source := sources.list.find? fun source => source.object = object

/-- `obs_get_source_by_uuid`. -/
def byUuid (uuid : String) : Option Source := sources.list.find? fun source => source.uuid = uuid

/-- A change of the flags, source by source. -/
def setFlags (flag : Source → Bool) : Sources where
  list := sources.list.map fun source => { source with videoGated := flag source }
  next := sources.next
  objects := by simpa [Function.comp_def] using sources.objects
  uuids := by simpa [Function.comp_def] using sources.uuids
  below := by simpa using sources.below

/-- `obs_source_set_video_gated`. -/
def setVideoGated (object : Nat) (gated : Bool) : Sources :=
  sources.setFlags fun source => if source.object = object then gated else source.videoGated

def create (uuid : String) (new : uuid ∉ sources.list.map (·.uuid)) : Sources where
  list := sources.list ++ [{ object := sources.next, uuid }]
  next := sources.next + 1
  objects := by
    refine nodup_map_concat sources.objects fun member => ?_
    obtain ⟨source, there, same⟩ := List.mem_map.mp member
    exact Nat.ne_of_lt (sources.below source there) same
  uuids := nodup_map_concat sources.uuids new
  below := by
    intro source member
    rcases List.mem_append.mp member with old | created
    · exact Nat.lt_succ_of_lt (sources.below source old)
    · rw [List.mem_singleton.mp created]
      exact Nat.lt_succ_self _

def destroy (object : Nat) : Sources where
  list := sources.list.filter fun source => source.object ≠ object
  next := sources.next
  objects := sources.objects.sublist (List.filter_sublist.map _)
  uuids := sources.uuids.sublist (List.filter_sublist.map _)
  below := fun source member => sources.below source (List.mem_of_mem_filter member)

end Sources

/-! ### Roots -/

inductive RootKind
  | main
  | canvas
  | showingRoot
  deriving DecidableEq

/-- Strong refs by uuid. -/
abbrev SourceSet := List (String × Nat)

structure Root where
  kind : RootKind
  canvasUuid : String
  sources : SourceSet

/-- What a walk finds in libobs: channel 0, channel 0 of each active canvas, and what the
enumeration of a source's active tree visits. -/
structure Graph where
  mainCanvasUuid : String := ""
  mainSource : Option Nat := none
  activeRoots : List (String × Nat) := []
  activeTree : Nat → List Nat := fun _ => []

/-- A source that has begun being destroyed gives no ref. -/
def addSource (sources : Sources) (object : Nat) (out : SourceSet) : SourceSet :=
  match sources.byObject object with
  | none => out
  | some source => if source.uuid ≠ "" then emplace out (source.uuid, object) else out

/-- The enumeration visits the descendants but not the root. -/
def collectActiveTree (sources : Sources) (graph : Graph) (root : Nat) (out : SourceSet) : SourceSet :=
  (graph.activeTree root).foldl (fun out child => addSource sources child out) (addSource sources root out)

/-! ### The gate -/

/-- One "+added gated, -removed ungated (now gated)" line. The subtractions of sizes are those
of the source, over the integers, where one that underflows shows. -/
structure Logged where
  added : Nat
  kept : Int
  removed : Int
  now : Nat
  deriving DecidableEq

structure State where
  sources : Sources := {}
  gated : List String := []
  showingRoots : List (String × Int) := []
  mainActiveFn : Bool := false
  canvasRootsFn : Bool := false
  mainCanvasUuidFn : Bool := false
  mainComposite : Bool := false
  log : List Logged := []

/-- The union of what the roots of some kinds reach. -/
def union (roots : List Root) : SourceSet := roots.foldl (fun into root => emplaceAll into root.sources) []

def mainTree (roots : List Root) : SourceSet := union (roots.filter fun root => root.kind = .main)

def wanted (roots : List Root) : SourceSet := union (roots.filter fun root => root.kind ≠ .main)

def gate (mainIdle : Bool) (roots : List Root) (uuid : String) : Bool :=
  mainIdle && decide (uuid ∉ (wanted roots).map Prod.fst)

def nextGated (mainIdle : Bool) (roots : List Root) : List String :=
  ((mainTree roots).map Prod.fst).filter (gate mainIdle roots)

/-- The sources of the given uuids that are still there. -/
def ungate (sources : Sources) (uuids : List String) : Sources :=
  uuids.foldl (fun sources uuid =>
    match sources.byUuid uuid with
    | some source => sources.setVideoGated source.object false
    | none => sources) sources

namespace State

variable (s : State)

def ungateAll : State := { s with sources := ungate s.sources s.gated, gated := [], mainComposite := false }

def armed (gateEnabled : Bool) : Bool := gateEnabled && s.mainActiveFn

def showingTrees (graph : Graph) : List Root :=
  s.showingRoots.filterMap fun holder =>
    (s.sources.byUuid holder.1).map fun source =>
      { kind := .showingRoot, canvasUuid := "", sources := collectActiveTree s.sources graph source.object [] }

def walkRoots (graph : Graph) : List Root :=
  (graph.mainSource.toList.map fun main =>
    { kind := .main, canvasUuid := if s.mainCanvasUuidFn then graph.mainCanvasUuid else "",
      sources := collectActiveTree s.sources graph main [] }) ++
  ((if s.canvasRootsFn then graph.activeRoots else []).map fun root =>
    { kind := .canvas, canvasUuid := root.1, sources := collectActiveTree s.sources graph root.2 [] }) ++
  s.showingTrees graph

def logged (next : List String) : List Logged :=
  let added := (next.filter fun uuid => uuid ∉ s.gated).length
  let kept : Int := next.length - added
  let removed : Int := s.gated.length - kept
  if added ≠ 0 ∨ removed ≠ 0 then [⟨added, kept, removed, next.length⟩] else []

/-- The flags after both loops: over the Main tree, and over what was gated and left it. -/
def regate (mainIdle : Bool) (roots : List Root) : Sources :=
  ungate ((mainTree roots).foldl (fun sources e => sources.setVideoGated e.2 (gate mainIdle roots e.1)) s.sources)
    (s.gated.filter fun uuid => uuid ∉ (mainTree roots).map Prod.fst)

/-- `active` is what the predicate answers. -/
def reconcileWith (gateEnabled : Bool) (roots : List Root) (active : Bool) : State :=
  if !s.armed gateEnabled then s.ungateAll
  else
    let mainIdle := !active
    { s with
      sources := s.regate mainIdle roots
      gated := nextGated mainIdle roots
      mainComposite := mainIdle
      log := s.log ++ s.logged (nextGated mainIdle roots) }

def reconcile (gateEnabled : Bool) (graph : Graph) (active : Bool) : State :=
  if !s.armed gateEnabled then s.ungateAll else s.reconcileWith gateEnabled (s.walkRoots graph) active

/-- The count under `uuid`, made by the first holder. -/
def holders (uuid : String) : List (String × Int) :=
  if s.showingRoots.any fun holder => holder.1 = uuid then
    s.showingRoots.map fun holder => if holder.1 = uuid then (holder.1, holder.2 + 1) else holder
  else s.showingRoots ++ [(uuid, 1)]

/-- The holders left after one under `uuid` is gone. -/
def holdersLeft (uuid : String) : List (String × Int) :=
  s.showingRoots.filterMap fun holder =>
    if holder.1 = uuid then if holder.2 - 1 ≤ 0 then none else some (holder.1, holder.2 - 1) else some holder

/-- The uuid of a source that may be null. -/
def sourceUuid (source : Option Nat) : String := ((source.bind s.sources.byObject).map (·.uuid)).getD ""

def incShowing (gateEnabled : Bool) (source : Option Nat) (graph : Graph) (active : Bool) : State :=
  let uuid := s.sourceUuid source
  if uuid = "" then s
  else ({ s with showingRoots := s.holders uuid } : State).reconcile gateEnabled graph active

def decShowing (gateEnabled : Bool) (source : Option Nat) (graph : Graph) (active : Bool) : State :=
  ({ s with showingRoots := s.holdersLeft (s.sourceUuid source) } : State).reconcile gateEnabled graph active

def shutdown : State :=
  { s.ungateAll with showingRoots := [], mainActiveFn := false, canvasRootsFn := false, mainCanvasUuidFn := false }

end State

/-! ### Steps -/

inductive Input
  | create (uuid : String)
  | destroy (object : Nat)
  | setMainActivePredicate (given : Bool)
  | setCanvasRootEnumerator (given : Bool)
  | setMainCanvasUuid (given : Bool)
  | reconcileWith (roots : List Root) (active : Bool)
  | reconcile (graph : Graph) (active : Bool)
  | incShowing (source : Option Nat) (graph : Graph) (active : Bool)
  | decShowing (source : Option Nat) (graph : Graph) (active : Bool)
  | shutdown

/-- A set holds strong refs, each under the uuid of its source. -/
def Holds (sources : Sources) (set : SourceSet) : Prop :=
  ∀ e ∈ set, (e.1, e.2) ∈ sources.list.map fun source => (source.uuid, source.object)

instance (sources : Sources) (set : SourceSet) : Decidable (Holds sources set) :=
  inferInstanceAs (Decidable (∀ e ∈ set, _))

def Held (sources : Sources) (roots : List Root) : Prop := ∀ root ∈ roots, Holds sources root.sources

instance (sources : Sources) (roots : List Root) : Decidable (Held sources roots) :=
  inferInstanceAs (Decidable (∀ root ∈ roots, _))

def step (gateEnabled : Bool) (s : State) : Input → Option State
  | .create uuid =>
    if new : uuid ∉ s.sources.list.map (·.uuid) then some { s with sources := s.sources.create uuid new } else none
  | .destroy object => some { s with sources := s.sources.destroy object }
  | .setMainActivePredicate given => some { s with mainActiveFn := given }
  | .setCanvasRootEnumerator given => some { s with canvasRootsFn := given }
  | .setMainCanvasUuid given => some { s with mainCanvasUuidFn := given }
  | .reconcileWith roots active =>
    if Held s.sources roots then some (s.reconcileWith gateEnabled roots active) else none
  | .reconcile graph active => some (s.reconcile gateEnabled graph active)
  | .incShowing source graph active => some (s.incShowing gateEnabled source graph active)
  | .decShowing source graph active => some (s.decShowing gateEnabled source graph active)
  | .shutdown => some s.shutdown

/-- Over what the launch starts with: no source, and nothing injected. -/
def initial : State := {}

def Step (gateEnabled : Bool) (s : State) (i : Input) (t : State) : Prop := step gateEnabled s i = some t

end Braidcast.Multistream.VideoGate
