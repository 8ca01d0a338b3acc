import Braidcast.Multistream.MruRows
import Braidcast.OAuth.Identity

/-!
# Stream info presets

`StreamInfoPresetStore`: the capped history of the metadata sheets a go-live ran under. What a file
holds is read as `LoadStoreJson` gives it; the parser of a bag kept as text is a parameter.
-/
namespace Braidcast.Multistream.StreamInfoPresets

open Lib OAuth MruRows

structure Sheet where
  name : String := ""
  createdAtMs : Int
  shared : Json
  byProvider : Json

abbrev Preset := Row Sheet

def kMaxPresets : Nat := 20

def identity (preset : Preset) : String := presetIdentity preset.data.shared preset.data.byProvider

/-! ### Loading -/

/-- A bag as it was persisted, `none` where it cannot be read as one. An absent key is an empty bag. -/
def readBag (parseJson : String → Option Json) (item : Json) (key : String) : Option Json :=
  match objAt item key with
  | .null => some (.obj [])
  | .obj fields => some (.obj fields)
  | .str text =>
    match parseJson text with
    | some (.obj fields) => some (.obj fields)
    | _ => none
  | _ => none

/-- One bad entry is skipped. -/
def readPreset (parseJson : String → Option Json) (now : Clock) (item : Json) : Option Preset :=
  match item with
  | .obj _ =>
    if strAt item "id" = "" then none
    else
      match readBag parseJson item "shared", readBag parseJson item "byProvider" with
      | some shared, some byProvider => some {
          id := strAt item "id"
          lastUsedAtMs := readTimestamp item "lastUsedAtMs" now.ms
          data := {
            name := strAt item "name"
            createdAtMs := readTimestamp item "createdAtMs" now.ms
            shared
            byProvider } }
      | _, _ => none
  | _ => none

/-- A named row is never dropped. -/
def mergeDuplicates (seen : List String) : List Preset → List Preset
  | [] => []
  | preset :: rest =>
    if preset.data.name ≠ "" ∨ identity preset ∉ seen then preset :: mergeDuplicates (identity preset :: seen) rest
    else mergeDuplicates seen rest

def load (parseJson : String → Option Json) (root : Json) (now : Clock) : List Preset :=
  match objAt root "presets" with
  | .arr stored => mergeDuplicates [] (normalize (stored.filterMap (readPreset parseJson now)) kMaxPresets)
  | _ => []

/-! ### Remembering -/

def kPresetFormatKey : String := "__v"

def isLegacyRow (byProvider : Json) : Bool :=
  match byProvider with
  | .obj fields => fields.all fun entry => !states entry.2 kPresetFormatKey
  | _ => true

/-- Per provider, the keys that a legacy row never held. -/
abbrev LegacyUnheldFields := List (String × List String)

def asLegacyRowWouldHold (byProvider : Json) (legacyUnheld : LegacyUnheldFields) : Json :=
  match byProvider with
  | .obj fields => .obj (fields.map fun entry =>
      match legacyUnheld.lookup entry.1, entry.2 with
      | some unheld, .obj bag => (entry.1, .obj (bag.filter fun field => field.1 ∉ unheld))
      | _, _ => entry)
  | _ => byProvider

def matchesExactly (shared byProvider : Json) (preset : Preset) : Bool := identity preset = presetIdentity shared byProvider

def matchesLegacy (shared byProvider : Json) (legacyUnheld : LegacyUnheldFields) (preset : Preset) : Bool :=
  isLegacyRow preset.data.byProvider &&
    presetIdentity preset.data.shared (asLegacyRowWouldHold preset.data.byProvider legacyUnheld) =
      presetIdentity shared (asLegacyRowWouldHold byProvider legacyUnheld)

/-- What a go-live brings in, with the uuid and the clock readings that remembering it takes. -/
structure Incoming where
  shared : Json
  byProvider : Json
  legacyUnheld : LegacyUnheldFields := []
  newId : String
  now : Clock
  createdNow : Clock

/-- An exact match wins over a legacy one. -/
def hit (presets : List Preset) (incoming : Incoming) : Option (Preset → Bool) :=
  if presets.any (matchesExactly incoming.shared incoming.byProvider) then
    some (matchesExactly incoming.shared incoming.byProvider)
  else if presets.any (matchesLegacy incoming.shared incoming.byProvider incoming.legacyUnheld) then
    some (matchesLegacy incoming.shared incoming.byProvider incoming.legacyUnheld)
  else none

/-- The presets, the id that is returned and whether a preset was created. -/
def remember (presets : List Preset) (incoming : Incoming) : List Preset × String × Bool :=
  match hit presets incoming with
  | some p =>
    (markUsed presets kMaxPresets p
        (fun sheet => { sheet with shared := incoming.shared, byProvider := incoming.byProvider }) incoming.now,
      ((presets.find? p).map (·.id)).getD "", false)
  | none =>
    let kept := addUsed presets kMaxPresets incoming.newId
      { createdAtMs := incoming.createdNow.ms, shared := incoming.shared, byProvider := incoming.byProvider } incoming.now
    let created := (findById kept incoming.newId).isSome
    (kept, if created then incoming.newId else "", created)

/-! ### Calls -/

inductive Input
  | load (root : Json) (now : Clock)
  | remember (incoming : Incoming)
  | touch (id : String) (now : Clock)
  | rename (id name : String)
  | remove (id : String)

def setName (name : String) (sheet : Sheet) : Sheet := { sheet with name }

/-- A call on an id that no row has leaves the rows. -/
def step (parseJson : String → Option Json) (presets : List Preset) : Input → List Preset
  | .load root now => load parseJson root now
  | .remember incoming => (remember presets incoming).1
  | .touch id now => (touch presets kMaxPresets id now).getD presets
  | .rename id name => (rename presets (setName name) id).getD presets
  | .remove id => (remove presets id).getD presets

def Step (parseJson : String → Option Json) (presets : List Preset) (i : Input) (presets' : List Preset) : Prop :=
  step parseJson presets i = presets'

end Braidcast.Multistream.StreamInfoPresets
