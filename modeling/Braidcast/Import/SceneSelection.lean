import Braidcast.Lib.Emplace
import Braidcast.Lib.Json
import Braidcast.Lib.Traversal

/-!
# Importing selected scenes

`BuildFilteredSources` of `obs_importer.cpp`: the selected scenes of a collection with the sources that
their items name, and those that theirs do. Sources are as the file has them, all of them values that were set.
-/
namespace Braidcast.Import

open Lib

/-! ### Reading a source -/

def obsDataGetString (data : Json) (key : String) : String :=
  match data with
  | .obj fields =>
    match Fields.get? fields key with
    | some (.str s) => s
    | _ => ""
  | _ => ""

def obsDataGetObj (data : Json) (key : String) : Option Json :=
  match data with
  | .obj fields =>
    match Fields.get? fields key with
    | some (.obj inner) => some (.obj inner)
    | _ => none
  | _ => none

def isObject : Json → Bool
  | .obj _ => true
  | _ => false

/-- An array holds objects only; one that is not there has no items. -/
def obsDataGetArray (data : Json) (key : String) : List Json :=
  match data with
  | .obj fields =>
    match Fields.get? fields key with
    | some (.arr items) => items.filter isObject
    | _ => []
  | _ => []

def sourceName (source : Json) : String := obsDataGetString source "name"

/-- The names in `settings.items`. -/
def refNames (source : Json) : List String :=
  match obsDataGetObj source "settings" with
  | none => []
  | some settings => ((obsDataGetArray settings "items").map (obsDataGetString · "name")).filter (· ≠ "")

/-! ### The selection -/

/-- The named sources under their names; the first definition of a name wins. -/
def byName (sources : List Json) : List (String × Json) :=
  emplaceAll [] ((sources.map fun source => (sourceName source, source)).filter (·.1 ≠ ""))

def refEdges (sources : List Json) (name : String) : Option (List String) := ((byName sources).lookup name).map refNames

/-- `BuildFilteredSources`. The selected names are in the order in which the set gives them. -/
def buildFilteredSources (fuel : Nat) (sources : List Json) (selected : List String) : Option (List Json) :=
  if selected = [] then some sources
  else (traverse (refEdges sources) fuel selected []).map fun visited => sources.filter (sourceName · ∈ visited)

/-! ### What a selection needs -/

/-- The definition of a name that counts. -/
def definition (sources : List Json) (name : String) : Option Json :=
  if name = "" then none else sources.find? (sourceName · = name)

def Defines (sources : List Json) (name : String) : Prop := name ≠ "" ∧ ∃ source ∈ sources, sourceName source = name

/-- The definition of a name names another that the collection defines. -/
def Names (sources : List Json) (a b : String) : Prop :=
  ∃ source, definition sources a = some source ∧ b ∈ refNames source ∧ Defines sources b

/-- A name that is selected or named by a needed one, and that the collection defines. -/
def Needed (sources : List Json) (selected : List String) (b : String) : Prop :=
  ∃ a ∈ selected, Defines sources a ∧ Relation.ReflTransGen (Names sources) a b

/-- What is kept: the needed sources in file order, and with each the sources that the definition of its name names. -/
structure Closed (sources : List Json) (selected : List String) (kept : List Json) : Prop where
  exact : ∃ needed : Json → Bool, (∀ source, needed source = true ↔ Needed sources selected (sourceName source)) ∧
    kept = sources.filter needed
  follows : ∀ source ∈ kept, definition sources (sourceName source) = some source → ∀ name ∈ refNames source,
    ∀ other ∈ sources, sourceName other = name → other ∈ kept

variable {sources : List Json} {selected : List String} {name a b : String} {source : Json} {fuel : Nat}

theorem lookup_named (sources : List Json) (name : String) :
    ((sources.map fun source => (sourceName source, source)).filter (·.1 ≠ "")).lookup name = definition sources name := by
  unfold definition
  induction sources with
  | nil => split <;> rfl
  | cons source sources ih =>
    rw [List.map_cons, List.filter_cons]
    -- a source without a name is not in the index, and no name is empty
    by_cases unnamed : sourceName source = ""
    · by_cases empty : name = ""
      · simp [unnamed, empty]
      · have apart : sourceName source ≠ name := fun same => empty (same ▸ unnamed)
        simpa [unnamed, empty, apart] using ih
    · by_cases here : sourceName source = name
      · subst here
        simp [unnamed]
      · have apart : ¬ name = sourceName source := fun same => here same.symm
        simpa [unnamed, here, List.lookup_cons, beq_false_of_ne apart] using ih

theorem refEdges_eq (sources : List Json) (name : String) : refEdges sources name = (definition sources name).map refNames := by
  rw [refEdges, byName, lookup_emplaceAll, List.nil_append, lookup_named]

theorem definition_isSome : (definition sources name).isSome ↔ Defines sources name := by
  unfold definition Defines
  split
  next empty => simp [empty]
  next named => simp [named]

theorem refEdges_isSome : (refEdges sources name).isSome ↔ Defines sources name := by
  rw [refEdges_eq, Option.isSome_map, definition_isSome]

theorem leads_iff : Leads (refEdges sources) a b ↔ Names sources a b := by
  unfold Leads Names
  simp only [refEdges_eq, Option.map_eq_some_iff, Option.isSome_map, definition_isSome]
  constructor
  · rintro ⟨_, ⟨source, found, rfl⟩, member, defined⟩
    exact ⟨source, found, member, defined⟩
  · rintro ⟨source, found, member, defined⟩
    exact ⟨_, ⟨source, found, rfl⟩, member, defined⟩

theorem reached_iff : Reached (refEdges sources) selected b ↔ Needed sources selected b := by
  have same : Leads (refEdges sources) = Names sources := by
    funext a b
    exact propext leads_iff
  unfold Reached Needed
  simp only [refEdges_isSome, same]

theorem Needed.next (needed : Needed sources selected a) (names : Names sources a b) : Needed sources selected b := by
  obtain ⟨first, member, defined, path⟩ := needed
  exact ⟨first, member, defined, path.tail names⟩

/-- The steps that the traversal of a selection takes at most. -/
def traversalBound (sources : List Json) (selected : List String) : Nat :=
  selected.length + unentered (refEdges sources) [] ((byName sources).map Prod.fst)

theorem selection_ends (enough : traversalBound sources selected ≤ fuel) :
    ∃ visited, traverse (refEdges sources) fuel selected [] = some visited := by
  have once : ((byName sources).map Prod.fst).Nodup := nodup_keys_emplaceAll List.nodup_nil
  refine traverse_ends once ?_ enough
  intro name defined
  rw [refEdges, Option.isSome_map, List.lookup_isSome_iff] at defined
  obtain ⟨entry, member, same⟩ := defined
  exact List.mem_map.mpr ⟨entry, member, (eq_of_beq same).symm⟩

theorem refNames_ne_empty (member : name ∈ refNames source) : name ≠ "" := by
  unfold refNames at member
  split at member
  · cases member
  · exact of_decide_eq_true (List.mem_filter.mp member).2

theorem closed_of_visited {visited : List String} (ended : traverse (refEdges sources) fuel selected [] = some visited) :
    Closed sources selected (sources.filter (sourceName · ∈ visited)) := by
  have visited_iff (name : String) : name ∈ visited ↔ Needed sources selected name := (mem_traverse ended).trans reached_iff
  constructor
  case exact =>
    refine ⟨fun source => decide (sourceName source ∈ visited), ?_, rfl⟩
    intro source
    rw [decide_eq_true_iff, visited_iff]
  case follows =>
    intro source kept first name member other there same
    -- the name of a kept source is needed, so what its first definition names is needed too
    have needed := (visited_iff _).mp (of_decide_eq_true (List.mem_filter.mp kept).2)
    have defined : Defines sources name := ⟨refNames_ne_empty member, other, there, same⟩
    have next := needed.next ⟨source, first, member, defined⟩
    refine List.mem_filter.mpr ⟨there, decide_eq_true ?_⟩
    rw [same, visited_iff]
    exact next

/-- A selection ends, and is closed under the first definitions of its names. -/
theorem selection_closed (sources : List Json) (selected : List String) (some_selected : selected ≠ []) :
    ∃ kept, Closed sources selected kept ∧
      ∀ fuel, traversalBound sources selected ≤ fuel → buildFilteredSources fuel sources selected = some kept := by
  obtain ⟨visited, ended⟩ := selection_ends (Nat.le_refl (traversalBound sources selected))
  refine ⟨_, closed_of_visited ended, ?_⟩
  intro fuel enough
  -- more fuel visits the same names, as both traversals visit just what is reached
  obtain ⟨visited', ended'⟩ := selection_ends enough
  have same (name : String) : name ∈ visited' ↔ name ∈ visited := (mem_traverse ended').trans (mem_traverse ended).symm
  rw [buildFilteredSources, if_neg some_selected, ended', Option.map_some]
  simp only [same]

/-! ### A name that is defined twice -/

def scene (name : String) (items : List String) : Json :=
  .obj [("name", .str name), ("settings", .obj [("items", .arr (items.map fun item => .obj [("name", .str item)]))])]

/-- The same collection with the camera in the first definition of the scene. -/
theorem selection_closed_camera :
    ∃ kept, Closed [scene "Scene" ["Camera"], scene "Camera" []] ["Scene"] kept ∧
      ∀ fuel, traversalBound [scene "Scene" ["Camera"], scene "Camera" []] ["Scene"] ≤ fuel →
        buildFilteredSources fuel [scene "Scene" ["Camera"], scene "Camera" []] ["Scene"] = some kept :=
  selection_closed _ _ (List.cons_ne_nil _ _)

/-- The second definition is kept, and what it alone names is not. -/
theorem not_always_closed : ¬ ∀ sources selected, selected ≠ [] → ∃ fuel kept, buildFilteredSources fuel sources selected = some kept ∧
    ∀ source ∈ kept, ∀ name ∈ refNames source, ∀ other ∈ sources, sourceName other = name → other ∈ kept := by
  intro always
  obtain ⟨fuel, kept, built, follows⟩ := always [scene "Scene" [], scene "Scene" ["Camera"], scene "Camera" []] ["Scene"]
    (List.cons_ne_nil _ _)
  have ended : kept = [scene "Scene" [], scene "Scene" ["Camera"]] := by
    -- one name is visited: two turns are enough
    rcases fuel with _ | _ | fuel
    · cases built
    · exact (Option.some.inj built).symm
    · exact (Option.some.inj built).symm
  subst ended
  have camera := follows (scene "Scene" ["Camera"]) (by decide) "Camera" (by decide) (scene "Camera" []) (by decide) rfl
  exact absurd camera (by decide)

end Braidcast.Import
