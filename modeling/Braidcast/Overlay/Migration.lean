import Braidcast.Lib.Lists
import Braidcast.Overlay.StoredWidgets

/-!
# Widgets of the first version

`MigrateV1Widget` of `overlay/overlay_store.cpp`, with the documents it reads and the loop of `Load` that
calls it. A first-version field carries its value; afterwards the settings do, where the value is not the
schema's default.
-/
namespace Braidcast.Overlay.Store

open Lib

variable {ν : Type}

/-- The numbers of the JSON library: those of an `int`, and its equality. -/
structure Numbers (ν : Type) where
  ofInt : Int → ν
  toInt : ν → Int
  equal : ν → ν → Bool
  toInt_ofInt : ∀ n, toInt (ofInt n) = n

/-- `j.value(key, "")`, which throws on anything but an object and on a value that is no string. -/
def textAt (j : JsonTree ν) (key : String) : Option String :=
  match j with
  | .obj _ =>
    match j.get? key with
    | none => some ""
    | some (.str s) => some s
    | some _ => none
  | _ => none

/-- `j.value(key, 0)`. -/
def intAt (numbers : Numbers ν) (j : JsonTree ν) (key : String) : Option Int :=
  match j.get? key with
  | none => some 0
  | some (.num n) => some (numbers.toInt n)
  | some (.bool b) => some (if b then 1 else 0)
  | some _ => none

/-- The array under a key, or an empty one. -/
def arrayAt (j : JsonTree ν) (key : String) : List (JsonTree ν) := ((j.get? key).map items).getD []

namespace CustomCode

def toJson (c : CustomCode ν) : JsonTree ν := .obj [("css", .str c.css), ("fields", c.fields), ("html", .str c.html), ("js", .str c.js)]

def fromJson (j : JsonTree ν) : Option (CustomCode ν) := do
  let html ← textAt j "html"
  let css ← textAt j "css"
  let js ← textAt j "js"
  return ⟨html, css, js, .arr (arrayAt j "fields")⟩

end CustomCode

/-- `Widget::FromJson`: the code of a fork, which only an object makes. -/
def customAt (j : JsonTree ν) : Option (Option (CustomCode ν)) :=
  match j.get? "custom" with
  | some (.obj fields) => (CustomCode.fromJson (.obj fields)).map some
  | _ => some none

def settingsAt (j : JsonTree ν) : List (String × JsonTree ν) :=
  match j.get? "settings" with
  | some (.obj fields) => fields
  | _ => []

namespace Widget

def toJson (numbers : Numbers ν) (w : Widget ν) : JsonTree ν :=
  .obj [("assets", .arr w.assets), ("custom", (w.custom.map CustomCode.toJson).getD .null), ("id", .str w.id), ("name", .str w.name),
    ("rev", .num (numbers.ofInt w.rev)), ("settings", w.settings), ("token", .str w.token), ("type", .str w.type)]

def fromJson (numbers : Numbers ν) : JsonTree ν → Option (Widget ν)
  | .obj fields => do
    let j : JsonTree ν := .obj fields
    let id ← textAt j "id"
    let token ← textAt j "token"
    let name ← textAt j "name"
    let type ← textAt j "type"
    let custom ← customAt j
    let rev ← intAt numbers j "rev"
    return ⟨id, token, name, type, .obj (settingsAt j), custom, arrayAt j "assets", rev⟩
  | _ => some ⟨"", "", "", "", .obj [], none, [], 0⟩

end Widget

/-- `f.erase("value")`. -/
def eraseValue : JsonTree ν → JsonTree ν
  | .obj fields => .obj (fields.filter (·.1 ≠ "value"))
  | f => f

/-- The loop of `MigrateV1Widget` that turns values into overrides. -/
def carryValue (numbers : Numbers ν) (schema : JsonTree ν) (settings : List (String × JsonTree ν)) (f : JsonTree ν) :
    List (String × JsonTree ν) :=
  match fieldKey f, f.get? "value" with
  | some key, some value =>
    if JsonTree.same numbers.equal value (schemaDefault schema key) then settings else JsonTree.setField key value settings
  | _, _ => settings

def fieldsOf : JsonTree ν → List (String × JsonTree ν)
  | .obj fields => fields
  | _ => []

/-- `MigrateV1Widget`; nothing when the JSON library throws. -/
def migrateV1Widget (numbers : Numbers ν) (templateFor : String → TypeTemplate ν) (j : JsonTree ν) : Option (Widget ν) := do
  let w ← Widget.fromJson numbers j
  let html ← textAt j "html"
  let css ← textAt j "css"
  let js ← textAt j "js"
  let fields := arrayAt j "fields"
  let shipped := templateFor w.type
  let stock := shipped.status = .ok ∧ html = shipped.html ∧ css = shipped.css ∧ js = shipped.js
  let custom := if stock then w.custom else some ⟨html, css, js, .arr (fields.map eraseValue)⟩
  let schema := (custom.map CustomCode.fields).getD shipped.schema
  return { w with custom, settings := .obj (fields.foldl (carryValue numbers schema) (fieldsOf w.settings)) }

def kStoreVersion : Int := 2

/-- The loop of `Load` on the widgets of a document. -/
def loadWidgets (numbers : Numbers ν) (templateFor : String → TypeTemplate ν) (version : Int) (docs : List (JsonTree ν)) :
    Option (List (Widget ν)) :=
  docs.mapM fun j => if version < kStoreVersion then migrateV1Widget numbers templateFor j else Widget.fromJson numbers j

/-! ## Values before and after -/

variable {numbers : Numbers ν} {templateFor : String → TypeTemplate ν} {j schema settings f : JsonTree ν} {w : Widget ν}

def DistinctKeys (fields : List (JsonTree ν)) : Prop := (fields.filterMap fieldKey).Nodup

variable {key : String}

theorem find?_of_mem {fields : List (JsonTree ν)} (distinct : DistinctKeys fields) (member : f ∈ fields)
    (named : fieldKey f = some key) : fields.find? (fun f => fieldKey f = some key) = some f := by
  induction fields with
  | nil => exact absurd member List.not_mem_nil
  | cons g fields ih =>
    unfold DistinctKeys at distinct
    rcases List.mem_cons.mp member with rfl | later
    · exact List.find?_cons_of_pos (by simpa using named)
    · cases first : fieldKey g with
      | none =>
        rw [List.filterMap_cons_none first] at distinct
        rw [List.find?_cons_of_neg (by simp [first])]
        exact ih distinct later
      | some other =>
        rw [List.filterMap_cons_some first, List.nodup_cons] at distinct
        -- A field with the key before this one would be a second one.
        have apart : other ≠ key := fun same => distinct.1 (List.mem_filterMap.mpr ⟨f, later, same ▸ named⟩)
        rw [List.find?_cons_of_neg (by simp [first, apart])]
        exact ih distinct.2 later

theorem schemaDefault_of_mem (distinct : DistinctKeys (items schema)) (member : f ∈ items schema)
    (named : fieldKey f = some key) : schemaDefault schema key = defaultOf f := by
  rw [schemaDefault, find?_of_mem distinct member named, Option.elim_some]

theorem schemaDefault_of_notMem (undeclared : key ∉ (items schema).filterMap fieldKey) : schemaDefault schema key = .null := by
  have none_has : (items schema).find? (fun f => fieldKey f = some key) = none := by
    rw [List.find?_eq_none]
    intro f member named
    exact undeclared (List.mem_filterMap.mpr ⟨f, member, by simpa using named⟩)
  rw [schemaDefault, none_has, Option.elim_none]

def mergedEntry (settings f : JsonTree ν) : Option (String × JsonTree ν) :=
  (fieldKey f).map fun key => (key, (settings.get? key).getD (defaultOf f))

theorem mergeField_eq (settings : JsonTree ν) (out : List (String × JsonTree ν)) (f : JsonTree ν) :
    mergeField settings out f = (mergedEntry settings f).elim out fun e => JsonTree.setField e.1 e.2 out := by
  unfold mergeField mergedEntry
  cases fieldKey f <;> rfl

/-- What `MergeSettings` gives the key of a field. -/
theorem lookup_mergeSettings (distinct : DistinctKeys (items schema)) (member : f ∈ items schema)
    (named : fieldKey f = some key) :
    (mergeSettings schema settings).lookup key = some ((settings.get? key).getD (defaultOf f)) := by
  have keyed : ∀ f e, mergedEntry settings f = some e → fieldKey f = some e.1 := by
    intro f e made
    obtain ⟨key, named, rfl⟩ := Option.map_eq_some_iff.mp made
    exact named
  have made : mergedEntry settings f = some (key, (settings.get? key).getD (defaultOf f)) := by rw [mergedEntry, named, Option.map_some]
  rw [mergeSettings, JsonTree.foldl_eq_setFields (mergeField_eq settings)]
  exact JsonTree.lookup_setFields_of_mem (distinct.sublist (keys_filterMap_sublist keyed _)) (List.mem_filterMap.mpr ⟨f, member, made⟩)

def carriedEntry (numbers : Numbers ν) (schema f : JsonTree ν) : Option (String × JsonTree ν) :=
  match fieldKey f, f.get? "value" with
  | some key, some value => if JsonTree.same numbers.equal value (schemaDefault schema key) then none else some (key, value)
  | _, _ => none

theorem carryValue_eq (numbers : Numbers ν) (schema : JsonTree ν) (out : List (String × JsonTree ν)) (f : JsonTree ν) :
    carryValue numbers schema out f = (carriedEntry numbers schema f).elim out fun e => JsonTree.setField e.1 e.2 out := by
  unfold carryValue carriedEntry
  split
  · split <;> rfl
  · rfl

theorem fieldKey_of_carried {e : String × JsonTree ν} (made : carriedEntry numbers schema f = some e) : fieldKey f = some e.1 := by
  unfold carriedEntry at made
  split at made
  next key value named valued =>
    split at made
    · cases made
    · rw [← Option.some.inj made]
      exact named
  · cases made

/-- What the overrides of the widget hold for the key of a field. -/
theorem lookup_carried {fields : List (JsonTree ν)} {before : List (String × JsonTree ν)} {value : JsonTree ν}
    (distinct : DistinctKeys fields) (member : f ∈ fields) (named : fieldKey f = some key) (valued : f.get? "value" = some value)
    (fresh : before.lookup key = none) :
    (fields.foldl (carryValue numbers schema) before).lookup key =
      if JsonTree.same numbers.equal value (schemaDefault schema key) then none else some value := by
  have made : carriedEntry numbers schema f =
      if JsonTree.same numbers.equal value (schemaDefault schema key) then none else some (key, value) := by
    rw [carriedEntry, named, valued]
  rw [JsonTree.foldl_eq_setFields (carryValue_eq numbers schema)]
  split at made
  next tracks =>
    -- No other field has the key, and this one makes no entry.
    have absent : key ∉ (fields.filterMap (carriedEntry numbers schema)).map Prod.fst := fun inside => by
      obtain ⟨e, entry, rfl⟩ := List.mem_map.mp inside
      obtain ⟨g, other, made'⟩ := List.mem_filterMap.mp entry
      have same := (find?_of_mem distinct other (fieldKey_of_carried made')).symm.trans (find?_of_mem distinct member named)
      rw [Option.some.inj same, made] at made'
      cases made'
    rw [if_pos tracks, JsonTree.lookup_setFields_of_notMem absent, fresh]
  next differs =>
    rw [if_neg differs]
    exact JsonTree.lookup_setFields_of_mem (distinct.sublist (keys_filterMap_sublist (fun _ _ => fieldKey_of_carried) _))
      (List.mem_filterMap.mpr ⟨f, member, made⟩)

/-! ## The picture of a widget -/

/-- A document of the first version has neither key. -/
structure FirstVersion (j : JsonTree ν) : Prop where
  no_settings : j.get? "settings" = none
  no_custom : j.get? "custom" = none
  distinct : DistinctKeys (arrayAt j "fields")

theorem fieldKey_eraseValue (f : JsonTree ν) : fieldKey (eraseValue f) = fieldKey f := by
  cases f with
  | obj fields =>
    have kept : (fields.filter (·.1 ≠ "value")).lookup "key" = fields.lookup "key" := by
      induction fields with
      | nil => rfl
      | cons field fields ih =>
        rw [List.filter_cons]
        split
        · rw [List.lookup_cons, List.lookup_cons, ih]
        next erased =>
          have same : field.1 = "value" := by simpa using erased
          rw [ih, List.lookup_cons, same]
          rfl
    rw [eraseValue, fieldKey, JsonTree.get?, kept]
    rfl
  | _ => rfl

theorem keys_eraseValue (fields : List (JsonTree ν)) : (fields.map eraseValue).filterMap fieldKey = fields.filterMap fieldKey := by
  rw [List.filterMap_map]
  exact List.filterMap_congr fun f _ => fieldKey_eraseValue f

/-- A widget of a first-version document: what it shows is settled by what it resolves to, and its
overrides are the values that the resolved schema does not have as defaults. -/
structure Migrated (numbers : Numbers ν) (templateFor : String → TypeTemplate ν) (j : JsonTree ν) (w : Widget ν) : Prop where
  html : textAt j "html" = some (resolve templateFor w).html
  css : textAt j "css" = some (resolve templateFor w).css
  js : textAt j "js" = some (resolve templateFor w).js
  settings : w.settings = .obj ((arrayAt j "fields").foldl (carryValue numbers (resolve templateFor w).schema) [])
  schema : (resolve templateFor w).schema =
    if w.isForked then .arr ((arrayAt j "fields").map eraseValue) else (templateFor w.type).schema

/-- The settings of a widget are an object, and the fields of its code an array. -/
structure WellStored (w : Widget ν) : Prop where
  settings : ∃ fields, w.settings = .obj fields
  fields : ∀ c ∈ w.custom, ∃ xs, c.fields = .arr xs

theorem fromJson_cases (read : Widget.fromJson numbers j = some w) :
    (w.settings = .obj [] ∧ w.custom = none) ∨ (w.settings = .obj (settingsAt j) ∧ customAt j = some w.custom) := by
  unfold Widget.fromJson at read
  split at read
  next fields =>
    obtain ⟨id, -, read⟩ := Option.bind_eq_some_iff.mp read
    obtain ⟨token, -, read⟩ := Option.bind_eq_some_iff.mp read
    obtain ⟨name, -, read⟩ := Option.bind_eq_some_iff.mp read
    obtain ⟨type, -, read⟩ := Option.bind_eq_some_iff.mp read
    obtain ⟨custom, custom_at, read⟩ := Option.bind_eq_some_iff.mp read
    obtain ⟨rev, -, read⟩ := Option.bind_eq_some_iff.mp read
    rw [← Option.some.inj read]
    exact .inr ⟨rfl, custom_at⟩
  next =>
    rw [← Option.some.inj read]
    exact .inl ⟨rfl, rfl⟩

theorem wellStored_of_fromJson (read : Widget.fromJson numbers j = some w) : WellStored w := by
  rcases fromJson_cases read with ⟨settings, custom⟩ | ⟨settings, custom⟩
  · exact ⟨⟨[], settings⟩, fun c there => by rw [custom] at there; cases there⟩
  · refine ⟨⟨_, settings⟩, fun c there => ?_⟩
    rw [Option.mem_def.mp there] at custom
    unfold customAt at custom
    split at custom
    next =>
      obtain ⟨c', made, same⟩ := Option.map_eq_some_iff.mp custom
      obtain ⟨html, -, made⟩ := Option.bind_eq_some_iff.mp made
      obtain ⟨css, -, made⟩ := Option.bind_eq_some_iff.mp made
      obtain ⟨js, -, made⟩ := Option.bind_eq_some_iff.mp made
      rw [← Option.some.inj same, ← Option.some.inj made]
      exact ⟨_, rfl⟩
    next => cases custom

/-- A first-version document leaves the widget stock and without overrides. -/
theorem fresh_of_firstVersion (first : FirstVersion j) (read : Widget.fromJson numbers j = some w) :
    w.settings = .obj [] ∧ w.custom = none := by
  rcases fromJson_cases read with fresh | ⟨settings, custom⟩
  · exact fresh
  · rw [settingsAt, first.no_settings] at settings
    rw [customAt, first.no_custom] at custom
    exact ⟨settings, (Option.some.inj custom).symm⟩

theorem migrated_of_some (first : FirstVersion j) (migrated : migrateV1Widget numbers templateFor j = some w) :
    Migrated numbers templateFor j w := by
  obtain ⟨base, read, migrated⟩ := Option.bind_eq_some_iff.mp migrated
  obtain ⟨html, html_at, migrated⟩ := Option.bind_eq_some_iff.mp migrated
  obtain ⟨css, css_at, migrated⟩ := Option.bind_eq_some_iff.mp migrated
  obtain ⟨js, js_at, migrated⟩ := Option.bind_eq_some_iff.mp migrated
  obtain ⟨settings, stock_base⟩ := fresh_of_firstVersion first read
  obtain rfl := Option.some.inj migrated
  by_cases stock : (templateFor base.type).status = .ok ∧ html = (templateFor base.type).html ∧ css = (templateFor base.type).css ∧
      js = (templateFor base.type).js
  · rw [if_pos stock, stock_base, settings]
    obtain ⟨-, rfl, rfl, rfl⟩ := stock
    exact ⟨html_at, css_at, js_at, rfl, rfl⟩
  · rw [if_neg stock, settings]
    exact ⟨html_at, css_at, js_at, rfl, rfl⟩

/-- What a widget shows: the code of its document, and each value as `MergeSettings` gives it, up to the
equality of JSON values. A stock widget whose template has dropped a key keeps the value as an override
that nothing reads. -/
structure SamePicture (numbers : Numbers ν) (templateFor : String → TypeTemplate ν) (j : JsonTree ν) (w : Widget ν) : Prop where
  html : textAt j "html" = some (resolve templateFor w).html
  css : textAt j "css" = some (resolve templateFor w).css
  js : textAt j "js" = some (resolve templateFor w).js
  declared : ∀ f ∈ arrayAt j "fields", ∀ key value, fieldKey f = some key → f.get? "value" = some value →
    key ∈ (items (resolve templateFor w).schema).filterMap fieldKey →
      ∃ shown, (mergeSettings (resolve templateFor w).schema w.settings).lookup key = some shown ∧
        (shown = value ∨ JsonTree.same numbers.equal value shown = true)
  dropped : ∀ f ∈ arrayAt j "fields", ∀ key value, fieldKey f = some key → f.get? "value" = some value →
    key ∉ (items (resolve templateFor w).schema).filterMap fieldKey →
      w.isForked = false ∧ (w.settings.get? key = some value ∨ JsonTree.same numbers.equal value .null = true)

/-- The keys of a shipped schema are distinct, as those of every `fields.json` are. -/
def ShippedDistinct (templateFor : String → TypeTemplate ν) : Prop := ∀ type, DistinctKeys (items (templateFor type).schema)

theorem samePicture_of_migrated (shipped : ShippedDistinct templateFor) (distinct : DistinctKeys (arrayAt j "fields"))
    (migrated : Migrated numbers templateFor j w) : SamePicture numbers templateFor j w where
  html := migrated.html
  css := migrated.css
  js := migrated.js
  declared f member key value named valued declared := by
    have schema_distinct : DistinctKeys (items (resolve templateFor w).schema) := by
      rw [migrated.schema]
      split
      · rw [DistinctKeys, items, keys_eraseValue]
        exact distinct
      · exact shipped w.type
    obtain ⟨g, inside, same_key⟩ := List.mem_filterMap.mp declared
    have override : ((arrayAt j "fields").foldl (carryValue numbers (resolve templateFor w).schema) []).lookup key =
        if JsonTree.same numbers.equal value (schemaDefault (resolve templateFor w).schema key) then none else some value :=
      lookup_carried distinct member named valued rfl
    have merged : (mergeSettings (resolve templateFor w).schema w.settings).lookup key = some ((w.settings.get? key).getD (defaultOf g)) :=
      lookup_mergeSettings schema_distinct inside same_key
    rw [schemaDefault_of_mem schema_distinct inside same_key] at override
    have read : w.settings.get? key = if JsonTree.same numbers.equal value (defaultOf g) then none else some value := by
      rw [migrated.settings]
      exact override
    refine ⟨_, merged, ?_⟩
    rw [read]
    split
    next tracks => exact .inr tracks
    next => exact .inl rfl
  dropped f member key value named valued undeclared := by
    have override : ((arrayAt j "fields").foldl (carryValue numbers (resolve templateFor w).schema) []).lookup key =
        if JsonTree.same numbers.equal value (schemaDefault (resolve templateFor w).schema key) then none else some value :=
      lookup_carried distinct member named valued rfl
    rw [schemaDefault_of_notMem undeclared] at override
    have read : w.settings.get? key = if JsonTree.same numbers.equal value .null then none else some value := by
      rw [migrated.settings]
      exact override
    constructor
    · -- A fork has the keys of the document itself.
      cases forked : w.isForked with
      | false => rfl
      | true =>
        rw [migrated.schema, forked, if_pos rfl] at undeclared
        exact absurd (List.mem_filterMap.mpr ⟨f, member, named⟩) ((keys_eraseValue (arrayAt j "fields")) ▸ undeclared)
    · rw [read]
      split
      next empty => exact .inr empty
      next => exact .inl rfl

theorem fromJson_toJson_custom {c : CustomCode ν} (fields : ∃ xs, c.fields = .arr xs) : CustomCode.fromJson c.toJson = some c := by
  obtain ⟨xs, is_array⟩ := fields
  cases c
  subst is_array
  simp [CustomCode.fromJson, CustomCode.toJson, textAt, arrayAt, JsonTree.get?, List.lookup_cons, items]

theorem customAt_toJson (stored : WellStored w) : customAt (w.toJson numbers) = some w.custom := by
  have there : (w.toJson numbers).get? "custom" = some ((w.custom.map CustomCode.toJson).getD .null) := by
    simp [Widget.toJson, JsonTree.get?, List.lookup_cons]
  rw [customAt, there]
  cases shape : w.custom with
  | none => rfl
  | some c => exact congrArg (Option.map some) (fromJson_toJson_custom (stored.fields c shape))

/-- A stored widget is read back as it is. -/
theorem fromJson_toJson (stored : WellStored w) : Widget.fromJson numbers (w.toJson numbers) = some w := by
  obtain ⟨settings, is_object⟩ := stored.settings
  have custom : customAt (w.toJson numbers) = some w.custom := customAt_toJson stored
  rw [Widget.toJson] at custom ⊢
  rw [Widget.fromJson, custom]
  cases w
  subst is_object
  simp [textAt, intAt, settingsAt, arrayAt, JsonTree.get?, List.lookup_cons, items, numbers.toInt_ofInt]

theorem wellStored_of_migrated (migrated : migrateV1Widget numbers templateFor j = some w) : WellStored w := by
  obtain ⟨base, read, migrated⟩ := Option.bind_eq_some_iff.mp migrated
  obtain ⟨html, -, migrated⟩ := Option.bind_eq_some_iff.mp migrated
  obtain ⟨css, -, migrated⟩ := Option.bind_eq_some_iff.mp migrated
  obtain ⟨js, -, migrated⟩ := Option.bind_eq_some_iff.mp migrated
  obtain rfl := Option.some.inj migrated
  refine ⟨⟨_, rfl⟩, fun c there => ?_⟩
  dsimp only at there
  split at there
  · exact (wellStored_of_fromJson read).fields c there
  · rw [← Option.some.inj there]
    exact ⟨_, rfl⟩

theorem wellStored_of_load {version : Int} {docs : List (JsonTree ν)} {ws : List (Widget ν)}
    (loaded : loadWidgets numbers templateFor version docs = some ws) : ∀ w ∈ ws, WellStored w := by
  have each := mapM_eq_some_iff.mp loaded
  clear loaded
  induction each with
  | nil => exact List.forall_mem_nil _
  | cons read later ih =>
    refine List.forall_mem_cons.mpr ⟨?_, ih⟩
    split at read
    · exact wellStored_of_migrated read
    · exact wellStored_of_fromJson read

theorem load_saved {ws : List (Widget ν)} (stored : ∀ w ∈ ws, WellStored w) :
    loadWidgets numbers templateFor kStoreVersion (ws.map (Widget.toJson numbers)) = some ws := by
  rw [loadWidgets, mapM_eq_some_iff, List.forall₂_map_left_iff, List.forall₂_same]
  intro w member
  rw [if_neg (Int.lt_irrefl _)]
  exact fromJson_toJson (stored w member)

/-- The documents of a store that is migrated show what they showed, and once saved they are read back
as they are. -/
theorem migration_keeps_picture (numbers : Numbers ν) (templateFor : String → TypeTemplate ν) (shipped : ShippedDistinct templateFor)
    (version : Int) (docs : List (JsonTree ν)) (ws : List (Widget ν)) (older : version < kStoreVersion)
    (first : ∀ j ∈ docs, FirstVersion j) (loaded : loadWidgets numbers templateFor version docs = some ws) :
    List.Forall₂ (SamePicture numbers templateFor) docs ws ∧
      loadWidgets numbers templateFor kStoreVersion (ws.map (Widget.toJson numbers)) = some ws := by
  refine ⟨?_, load_saved (wellStored_of_load loaded)⟩
  have each := mapM_eq_some_iff.mp loaded
  clear loaded
  induction each with
  | nil => exact .nil
  | cons read later ih =>
    obtain ⟨here, others⟩ := List.forall_mem_cons.mp first
    rw [if_pos older] at read
    exact .cons (samePicture_of_migrated shipped here.distinct (migrated_of_some here read)) (ih others)

def integers : Numbers Int := ⟨id, id, (· == ·), fun _ => rfl⟩

/-- A template with one field, of the given key. -/
def oneField (key : String) : String → TypeTemplate Int := fun _ =>
  ⟨.ok, "<p>", "", "", .arr [.obj [("default", .num 10), ("key", .str key)]]⟩

/-- A document whose code is that template's, with a value for the field `size`. -/
def sized : JsonTree Int :=
  .obj [("fields", .arr [.obj [("key", .str "size"), ("value", .num 12)]]), ("html", .str "<p>"), ("type", .str "labels")]

theorem distinct_one (f : JsonTree ν) : DistinctKeys [f] := by
  unfold DistinctKeys
  cases named : fieldKey f <;> simp [named]

theorem sized_firstVersion : FirstVersion sized := ⟨rfl, rfl, distinct_one _⟩

theorem migration_keeps_size : ∃ ws, loadWidgets integers (oneField "size") 1 [sized] = some ws ∧
    List.Forall₂ (SamePicture integers (oneField "size")) [sized] ws :=
  have loaded : loadWidgets integers (oneField "size") 1 [sized] =
      some [⟨"", "", "", "labels", .obj [("size", .num 12)], none, [], 0⟩] := rfl
  ⟨_, loaded, (migration_keeps_picture integers (oneField "size") (fun _ => distinct_one _) 1 [sized] _ (by decide)
    (fun _ member => List.mem_singleton.mp member ▸ sized_firstVersion) loaded).1⟩

/-- A value of a key that the shipped template has dropped is shown no more, and the document a migrated
widget is saved as is no input of the migration: it would make a fork without code. -/
theorem not_always_same_picture :
    ∃ w, migrateV1Widget integers (oneField "colour") sized = some w ∧
      (∃ f ∈ arrayAt sized "fields", fieldKey f = some "size" ∧ f.get? "value" = some (.num 12) ∧
        (mergeSettings (resolve (oneField "colour") w).schema w.settings).lookup "size" = none) ∧
      migrateV1Widget integers (oneField "colour") (w.toJson integers) ≠ some w := by
  refine ⟨⟨"", "", "", "labels", .obj [("size", .num 12)], none, [], 0⟩, rfl, ⟨_, List.mem_singleton_self _, rfl, rfl, rfl⟩, ?_⟩
  intro same
  have forked : ((migrateV1Widget integers (oneField "colour") ((⟨"", "", "", "labels", .obj [("size", .num 12)], none, [], 0⟩ : Widget Int).toJson
      integers)).map Widget.isForked) = some true := rfl
  rw [same] at forked
  cases forked

end Braidcast.Overlay.Store
