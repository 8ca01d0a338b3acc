import Braidcast.Lib.Keyed

/-!
# Settings and their JSON

`obs_data_to_json` and `obs_data_add_json_item` of `libobs/obs-data.c`, each over a whole tree. Strings are C strings
in UTF-8, compared as they are, and reals are those that jansson prints; neither is looked into.
-/
namespace Braidcast.Data.Trip

open Lib

variable {σ ρ : Type} [DecidableEq σ]

/-- `json_t`. -/
inductive JsonT (σ ρ : Type) where
  | object (members : List (σ × JsonT σ ρ))
  | array (items : List (JsonT σ ρ))
  | string (s : σ)
  | integer (n : Int64)
  | real (r : ρ)
  | boolean (b : Bool)
  | null

/-- What an item holds, each of the values where it is set. -/
structure Held (α : Type) where
  user : Option α := none
  default : Option α := none
  autoselect : Option α := none

/-- A value, of the type that its item says. An object or an array may be a null pointer. -/
inductive Value (σ ρ : Type) where
  | string (s : σ)
  | int (n : Int64)
  | double (r : ρ)
  | boolean (b : Bool)
  | object (data : Option (List (σ × Held (Value σ ρ))))
  | array (objects : Option (List (List (σ × Held (Value σ ρ)))))

/-- `obs_data_t`: its items by name, in the order of the hash. -/
abbrev ObsData (σ ρ : Type) := List (σ × Held (Value σ ρ))

/-! ### From JSON -/

/-- `set_item`. The keys of an object are distinct, so the item is always new there. -/
def setItem (name : σ) (value : Value σ ρ) : ObsData σ ρ → ObsData σ ρ :=
  setKey name fun held => { held.getD {} with user := some value }

mutual

/-- `obs_data_add_json_item`: what is set. -/
def addJsonItem : JsonT σ ρ → Value σ ρ
  | .object members => .object (some (addJsonObjectData members []))
  | .array items => .array (some (addJsonArray items))
  | .string s => .string s
  | .integer n => .int n
  | .real r => .double r
  | .boolean b => .boolean b
  | .null => .object none

/-- `obs_data_add_json_object_data`. -/
def addJsonObjectData : List (σ × JsonT σ ρ) → ObsData σ ρ → ObsData σ ρ
  | [], data => data
  | (key, item) :: members, data => addJsonObjectData members (setItem key (addJsonItem item) data)

/-- `obs_data_add_json_array`, which passes over what is no object. -/
def addJsonArray : List (JsonT σ ρ) → List (ObsData σ ρ)
  | [] => []
  | .object members :: items => addJsonObjectData members [] :: addJsonArray items
  | _ :: items => addJsonArray items

end

/-! ### To JSON -/

/-- `json_object_set_new`. -/
def jsonObjectSet (name : σ) (json : JsonT σ ρ) : List (σ × JsonT σ ρ) → List (σ × JsonT σ ρ) := setKey name fun _ => json

mutual

/-- `set_json_string` and its like: what is set. -/
def setJson : Value σ ρ → JsonT σ ρ
  | .string s => .string s
  | .int n => .integer n
  | .double r => .real r
  | .boolean b => .boolean b
  | .object none => .null
  | .object (some data) => .object (toJson data [])
  | .array none => .array []
  | .array (some objects) => .array (setJsonArray objects)

/-- `obs_data_to_json`, without the defaults. -/
def toJson : ObsData σ ρ → List (σ × JsonT σ ρ) → List (σ × JsonT σ ρ)
  | [], json => json
  | (name, ⟨some value, _, _⟩) :: items, json => toJson items (jsonObjectSet name (setJson value) json)
  | (_, ⟨none, _, _⟩) :: items, json => toJson items json

def setJsonArray : List (ObsData σ ρ) → List (JsonT σ ρ)
  | [] => []
  | data :: objects => .object (toJson data []) :: setJsonArray objects

end

/-! ### What comes back -/

mutual

/-- A value with no more than the user values in it, and with an empty array for a null pointer to one. -/
def Value.user : Value σ ρ → Value σ ρ
  | .object (some data) => .object (some (userValues data))
  | .array none => .array (some [])
  | .array (some objects) => .array (some (userObjects objects))
  | value => value

/-- The items with a user value, in their order. -/
def userValues : ObsData σ ρ → ObsData σ ρ
  | [] => []
  | (name, ⟨some value, _, _⟩) :: items => (name, { user := some value.user }) :: userValues items
  | (_, ⟨none, _, _⟩) :: items => userValues items

def userObjects : List (ObsData σ ρ) → List (ObsData σ ρ)
  | [] => []
  | data :: objects => userValues data :: userObjects objects

end

mutual

/-- An array without what is no object. -/
def JsonT.objectsOnly : JsonT σ ρ → JsonT σ ρ
  | .object members => .object (objectMembers members)
  | .array items => .array (objectItems items)
  | json => json

def objectMembers : List (σ × JsonT σ ρ) → List (σ × JsonT σ ρ)
  | [] => []
  | (key, item) :: members => (key, item.objectsOnly) :: objectMembers members

def objectItems : List (JsonT σ ρ) → List (JsonT σ ρ)
  | [] => []
  | .object members :: items => .object (objectMembers members) :: objectItems items
  | _ :: items => objectItems items

end

/-! ### Distinct keys -/

mutual

def JsonT.Distinct : JsonT σ ρ → Prop
  | .object members => DistinctMembers members
  | .array items => DistinctItems items
  | _ => True

def DistinctMembers : List (σ × JsonT σ ρ) → Prop
  | [] => True
  | (key, item) :: members => key ∉ members.map Prod.fst ∧ item.Distinct ∧ DistinctMembers members

def DistinctItems : List (JsonT σ ρ) → Prop
  | [] => True
  | item :: items => item.Distinct ∧ DistinctItems items

end

mutual

def Value.Distinct : Value σ ρ → Prop
  | .object (some data) => DistinctNames data
  | .array (some objects) => DistinctObjects objects
  | _ => True

def DistinctNames : ObsData σ ρ → Prop
  | [] => True
  | (name, ⟨some value, _, _⟩) :: items => name ∉ items.map Prod.fst ∧ value.Distinct ∧ DistinctNames items
  | (name, ⟨none, _, _⟩) :: items => name ∉ items.map Prod.fst ∧ DistinctNames items

def DistinctObjects : List (ObsData σ ρ) → Prop
  | [] => True
  | data :: objects => DistinctNames data ∧ DistinctObjects objects

end

/-! ### One level -/

variable {data : ObsData σ ρ} {members : List (σ × JsonT σ ρ)}

/-- The members that an object becomes. -/
def membersOf (data : ObsData σ ρ) : List (σ × JsonT σ ρ) :=
  data.filterMap fun item => item.2.user.map fun value => (item.1, setJson value)

def itemsOf (members : List (σ × JsonT σ ρ)) : ObsData σ ρ :=
  members.map fun member => (member.1, { user := some (addJsonItem member.2) })

theorem names_membersOf (data : ObsData σ ρ) : ((membersOf data).map Prod.fst).Sublist (data.map Prod.fst) := by
  induction data with
  | nil => exact List.Sublist.refl []
  | cons item items ih =>
    obtain ⟨name, user, default, autoselect⟩ := item
    cases user with
    | none => exact ih.cons name
    | some value => exact ih.cons_cons name

theorem names_itemsOf (members : List (σ × JsonT σ ρ)) : (itemsOf members).map Prod.fst = members.map Prod.fst := by
  rw [itemsOf, List.map_map]
  rfl

omit [DecidableEq σ] in
theorem DistinctNames.nodup (distinct : DistinctNames data) : (data.map Prod.fst).Nodup := by
  induction data with
  | nil => exact List.nodup_nil
  | cons item items ih =>
    obtain ⟨name, user, default, autoselect⟩ := item
    cases user with
    | none => exact List.nodup_cons.mpr ⟨distinct.1, ih distinct.2⟩
    | some value => exact List.nodup_cons.mpr ⟨distinct.1, ih distinct.2.2⟩

omit [DecidableEq σ] in
theorem DistinctMembers.nodup (distinct : DistinctMembers members) : (members.map Prod.fst).Nodup := by
  induction members with
  | nil => exact List.nodup_nil
  | cons member members ih => exact List.nodup_cons.mpr ⟨distinct.1, ih distinct.2.2⟩

/-- The names are new, so each member comes behind those before it. -/
theorem toJson_eq {json : List (σ × JsonT σ ρ)} (nodup : (json.map Prod.fst ++ data.map Prod.fst).Nodup) :
    toJson data json = json ++ membersOf data := by
  induction data generalizing json with
  | nil => exact (List.append_nil json).symm
  | cons item items ih =>
    obtain ⟨name, user, default, autoselect⟩ := item
    cases user with
    | none =>
      refine ih (nodup.sublist ?_)
      exact List.Sublist.append_left (List.sublist_cons_self name _) _
    | some value =>
      -- a name that is not there yet is put at the end
      have new : name ∉ json.map Prod.fst := fun member =>
        (List.nodup_append.mp nodup).2.2 name member name List.mem_cons_self rfl
      have step : jsonObjectSet name (setJson value) json = json ++ [(name, setJson value)] := setKey_of_notMem _ new
      show toJson items (jsonObjectSet name (setJson value) json) = json ++ (name, setJson value) :: membersOf items
      rw [step, ih, List.append_assoc]
      · rfl
      · simpa using nodup

theorem addJsonObjectData_eq (nodup : (data.map Prod.fst ++ members.map Prod.fst).Nodup) :
    addJsonObjectData members data = data ++ itemsOf members := by
  induction members generalizing data with
  | nil => exact (List.append_nil data).symm
  | cons member members ih =>
    obtain ⟨key, item⟩ := member
    have new : key ∉ data.map Prod.fst := fun member => (List.nodup_append.mp nodup).2.2 key member key List.mem_cons_self rfl
    have step : setItem key (addJsonItem item) data = data ++ [(key, { user := some (addJsonItem item) })] := setKey_of_notMem _ new
    show addJsonObjectData members (setItem key (addJsonItem item) data) = data ++ (key, { user := some (addJsonItem item) }) :: itemsOf members
    rw [step, ih, List.append_assoc]
    · rfl
    · simpa using nodup

theorem DistinctNames.toJson_eq (distinct : DistinctNames data) : toJson data [] = membersOf data := Trip.toJson_eq distinct.nodup

theorem DistinctMembers.addJson_eq (distinct : DistinctMembers members) : addJsonObjectData members [] = itemsOf members :=
  addJsonObjectData_eq distinct.nodup

/-! ### Keys stay distinct -/

mutual

theorem setJson_distinct : ∀ value : Value σ ρ, value.Distinct → (setJson value).Distinct
  | .string _, _ | .int _, _ | .double _, _ | .boolean _, _ => trivial
  | .object none, _ => trivial
  | .object (some data), distinct => by
    show DistinctMembers (toJson data [])
    rw [DistinctNames.toJson_eq distinct]
    exact membersOf_distinct data distinct
  | .array none, _ => trivial
  | .array (some objects), distinct => setJsonArray_distinct objects distinct

theorem membersOf_distinct : ∀ data : ObsData σ ρ, DistinctNames data → DistinctMembers (membersOf data)
  | [], _ => trivial
  | (_, ⟨some value, _, _⟩) :: items, distinct =>
    ⟨fun member => distinct.1 ((names_membersOf items).subset member), setJson_distinct value distinct.2.1, membersOf_distinct items distinct.2.2⟩
  | (_, ⟨none, _, _⟩) :: items, distinct => membersOf_distinct items distinct.2

theorem setJsonArray_distinct : ∀ objects : List (ObsData σ ρ), DistinctObjects objects → DistinctItems (setJsonArray objects)
  | [], _ => trivial
  | data :: objects, distinct => by
    refine ⟨?_, setJsonArray_distinct objects distinct.2⟩
    show DistinctMembers (toJson data [])
    rw [DistinctNames.toJson_eq distinct.1]
    exact membersOf_distinct data distinct.1

end

mutual

theorem addJsonItem_distinct : ∀ json : JsonT σ ρ, json.Distinct → (addJsonItem json).Distinct
  | .object members, distinct => by
    show DistinctNames (addJsonObjectData members [])
    rw [DistinctMembers.addJson_eq distinct]
    exact itemsOf_distinct members distinct
  | .array items, distinct => addJsonArray_distinct items distinct
  | .string _, _ | .integer _, _ | .real _, _ | .boolean _, _ | .null, _ => trivial

theorem itemsOf_distinct : ∀ members : List (σ × JsonT σ ρ), DistinctMembers members → DistinctNames (itemsOf members)
  | [], _ => trivial
  | (_, item) :: members, distinct =>
    ⟨fun member => distinct.1 (names_itemsOf members ▸ member), addJsonItem_distinct item distinct.2.1, itemsOf_distinct members distinct.2.2⟩

theorem addJsonArray_distinct : ∀ items : List (JsonT σ ρ), DistinctItems items → DistinctObjects (addJsonArray items)
  | [], _ => trivial
  | .object members :: items, distinct => by
    refine ⟨?_, addJsonArray_distinct items distinct.2⟩
    rw [DistinctMembers.addJson_eq distinct.1]
    exact itemsOf_distinct members distinct.1
  | .array _ :: items, distinct | .string _ :: items, distinct | .integer _ :: items, distinct | .real _ :: items, distinct
  | .boolean _ :: items, distinct | .null :: items, distinct => addJsonArray_distinct items distinct.2

end

/-! ### There and back -/

mutual

theorem addJsonItem_setJson : ∀ value : Value σ ρ, value.Distinct → addJsonItem (setJson value) = value.user
  | .string _, _ | .int _, _ | .double _, _ | .boolean _, _ => rfl
  | .object none, _ => rfl
  | .object (some data), distinct => congrArg (fun data => Value.object (some data)) (addJson_toJson data distinct)
  | .array none, _ => rfl
  | .array (some objects), distinct => congrArg (fun objects => Value.array (some objects)) (addJsonArray_setJsonArray objects distinct)

theorem itemsOf_membersOf : ∀ data : ObsData σ ρ, DistinctNames data → itemsOf (membersOf data) = userValues data
  | [], _ => rfl
  | (name, ⟨some value, _, _⟩) :: items, distinct => by
    have first := addJsonItem_setJson value distinct.2.1
    have rest := itemsOf_membersOf items distinct.2.2
    show (name, { user := some (addJsonItem (setJson value)) }) :: itemsOf (membersOf items) = _
    rw [first, rest]
    rfl
  -- an item without a user value leaves no member, and so nothing to come back
  | (_, ⟨none, _, _⟩) :: items, distinct => itemsOf_membersOf items distinct.2

theorem addJson_toJson (data : ObsData σ ρ) (distinct : DistinctNames data) :
    addJsonObjectData (toJson data []) [] = userValues data := by
  rw [distinct.toJson_eq, DistinctMembers.addJson_eq (membersOf_distinct data distinct)]
  exact itemsOf_membersOf data distinct

theorem addJsonArray_setJsonArray : ∀ objects : List (ObsData σ ρ), DistinctObjects objects →
    addJsonArray (setJsonArray objects) = userObjects objects
  | [], _ => rfl
  | data :: objects, distinct => congrArg₂ List.cons (addJson_toJson data distinct.1) (addJsonArray_setJsonArray objects distinct.2)

end

mutual

theorem setJson_addJsonItem : ∀ json : JsonT σ ρ, json.Distinct → setJson (addJsonItem json) = json.objectsOnly
  | .object members, distinct => congrArg JsonT.object (toJson_addJson members distinct)
  | .array items, distinct => congrArg JsonT.array (setJsonArray_addJsonArray items distinct)
  | .string _, _ | .integer _, _ | .real _, _ | .boolean _, _ | .null, _ => rfl

theorem membersOf_itemsOf : ∀ members : List (σ × JsonT σ ρ), DistinctMembers members →
    membersOf (itemsOf members) = objectMembers members
  | [], _ => rfl
  | (key, item) :: members, distinct => by
    have first := setJson_addJsonItem item distinct.2.1
    have rest := membersOf_itemsOf members distinct.2.2
    show (key, setJson (addJsonItem item)) :: membersOf (itemsOf members) = _
    rw [first, rest]
    rfl

theorem toJson_addJson (members : List (σ × JsonT σ ρ)) (distinct : DistinctMembers members) :
    toJson (addJsonObjectData members []) [] = objectMembers members := by
  rw [distinct.addJson_eq, DistinctNames.toJson_eq (itemsOf_distinct members distinct)]
  exact membersOf_itemsOf members distinct

theorem setJsonArray_addJsonArray : ∀ items : List (JsonT σ ρ), DistinctItems items →
    setJsonArray (addJsonArray items) = objectItems items
  | [], _ => rfl
  | .object members :: items, distinct =>
    congrArg₂ (fun members items => JsonT.object members :: items) (toJson_addJson members distinct.1) (setJsonArray_addJsonArray items distinct.2)
  | .array _ :: items, distinct | .string _ :: items, distinct | .integer _ :: items, distinct | .real _ :: items, distinct
  | .boolean _ :: items, distinct | .null :: items, distinct => setJsonArray_addJsonArray items distinct.2

end

/-! ### Texts -/

/-- A JSON object as jansson has it. -/
structure JsonRoot (σ ρ : Type) where
  members : List (σ × JsonT σ ρ)
  distinct : DistinctMembers members

/-- An object with its names distinct, as a hash has them. -/
structure Settings (σ ρ : Type) where
  data : ObsData σ ρ
  distinct : DistinctNames data

/-- jansson, taken to print and to parse faithfully. -/
structure Jansson (σ ρ τ : Type) where
  dumps : JsonRoot σ ρ → τ
  loads : τ → Option (JsonRoot σ ρ)
  faithful : ∀ root, loads (dumps root) = some root

namespace Settings

variable {τ : Type}

def toRoot (d : Settings σ ρ) : JsonRoot σ ρ where
  members := toJson d.data []
  distinct := d.distinct.toJson_eq ▸ membersOf_distinct d.data d.distinct

def ofRoot (root : JsonRoot σ ρ) : Settings σ ρ where
  data := addJsonObjectData root.members []
  distinct := root.distinct.addJson_eq ▸ itemsOf_distinct root.members root.distinct

/-- `obs_data_get_json`. -/
def getJson (J : Jansson σ ρ τ) (d : Settings σ ρ) : τ := J.dumps d.toRoot

/-- `obs_data_create_from_json`. -/
def createFromJson (J : Jansson σ ρ τ) (text : τ) : Option (Settings σ ρ) := (J.loads text).map ofRoot

/-- Settings come back from their JSON with exactly their user values, in their order, but with an empty array for
a null pointer to one. A JSON object comes back from its settings, nulls and all, but for what is no object in an array. -/
theorem json_trip (J : Jansson σ ρ τ) :
    (∀ d : Settings σ ρ, (createFromJson J (d.getJson J)).map Settings.data = some (userValues d.data)) ∧
      ∀ root : JsonRoot σ ρ, (createFromJson J (J.dumps root)).bind (fun d => (J.loads (d.getJson J)).map JsonRoot.members) =
        some (objectMembers root.members) := by
  constructor
  · intro d
    rw [createFromJson, getJson, J.faithful]
    exact congrArg some (addJson_toJson d.data d.distinct)
  · intro root
    rw [createFromJson, J.faithful, Option.map_some, Option.bind_some, getJson, J.faithful]
    exact congrArg some (toJson_addJson root.members root.distinct)

/-- jansson with its values for their texts. -/
def plainJansson : Jansson σ ρ (JsonRoot σ ρ) where
  dumps := id
  loads := some
  faithful := fun _ => rfl

/-- One array, which is a null pointer. -/
def nullArray : Settings String Unit where
  data := [("filters", { user := some (.array none) })]
  distinct := ⟨List.not_mem_nil, trivial, trivial⟩

/-- It comes back as an array. -/
theorem not_every_value : (createFromJson plainJansson (nullArray.getJson plainJansson)).map Settings.data ≠ some nullArray.data := by
  intro same
  have back : addJsonObjectData (toJson nullArray.data []) [] = nullArray.data := Option.some.inj same
  -- what comes back is the user values, with an array where there was none
  rw [addJson_toJson nullArray.data nullArray.distinct] at back
  have filters := congrArg (List.map fun item => item.2.user) back
  cases filters

end Settings

end Braidcast.Data.Trip
