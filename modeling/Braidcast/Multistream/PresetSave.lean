import Braidcast.Multistream.PresetForm

/-!
# Saving a preset

`collectPreset`: the resolved values of the armed channels, sorted into the two bags of a sheet.
-/
namespace Braidcast.Multistream

open Lib

/-- `{ provider, resolved }` of one armed channel. -/
structure PresetSource where
  provider : OAuthProvider
  resolved : Bag

structure Slot where
  field : OAuthProviderField
  provider : OAuthProvider
  value : JsValue
  agreed : Bool

structure CollectedPreset where
  sheet : PresetSheet
  conflicts : List String

def isUndefined (v : JsValue) : Bool := v.strictEq .undefined

/-- A field of a channel, as the loop over the sources comes by it. -/
structure SlotRead where
  field : OAuthProviderField
  provider : OAuthProvider
  value : JsValue

def slotReads (sources : List PresetSource) : List SlotRead :=
  sources.flatMap fun s => (carriableFields s.provider).map fun field =>
    let raw := s.resolved.get field.key
    ⟨field, s.provider, if isEmptyVal field.type raw then .undefined else raw⟩

def takeIn (held : Option Slot) (r : SlotRead) : Slot :=
  match held with
  | none => ⟨r.field, r.provider, r.value, true⟩
  | some held =>
    if isUndefined held.value then { held with value := r.value }
    else if !isUndefined r.value && !valuesEqual r.field.type held.value r.value then { held with agreed := false }
    else held

/-- One slot per provider and key, in the order they came up. -/
def collectSlots (sources : List PresetSource) : List (String × Slot) :=
  gather (fun r => slotKey r.provider.id r.field.key) takeIn [] (slotReads sources)

/-- The bag of each provider with nothing but the mark of the format. -/
def markedBags (sources : List PresetSource) : List (String × Option Bag) :=
  sources.foldl (fun bags s => setKey s.provider.id (fun _ => some (Function.update emptyBag PRESET_FORMAT_KEY (some PRESET_FORMAT))) bags) []

/-- `own`. -/
def PresetSheet.putOwn (sheet : PresetSheet) (s : Slot) (value : JsValue) : PresetSheet :=
  { sheet with
    byProvider := setKey s.provider.id (fun bag => some (Function.update (bag.join.getD emptyBag) s.field.key (entryOf value))) sheet.byProvider }

structure CrossGroup where
  slots : List Slot
  conflicted : Bool

def addSlot (group : Option CrossGroup) (s : Slot) : CrossGroup :=
  let group := group.getD ⟨[], false⟩
  if s.agreed then { group with slots := group.slots ++ [s] } else { group with conflicted := true }

def isCross (s : Slot) : Bool := fieldScope s.field == .all

/-- The slots of each cross-provider key, and whether any provider conflicted on it. -/
def crossProvider (slots : List Slot) : List (String × CrossGroup) := gather (fun s => s.field.key) addSlot [] (slots.filter isCross)

/-- A slot that is its provider's alone. -/
def storeOwn (sheet : PresetSheet) (s : Slot) : PresetSheet :=
  if !isCross s && s.agreed && !isUndefined s.value then sheet.putOwn s s.value else sheet

def alike (first : Slot) (s : Slot) : Bool := !isUndefined s.value && valuesEqual s.field.type s.value first.value

def storeCross (sheet : PresetSheet) (keyed : String × CrossGroup) : PresetSheet :=
  match keyed.2.slots with
  | [] => sheet
  | first :: others =>
    if (first :: others).all fun s => isUndefined s.value then sheet
    else if !keyed.2.conflicted && (first :: others).all (alike first) then
      { sheet with shared := Function.update sheet.shared keyed.1 (entryOf first.value) }
    else (first :: others).foldl (fun sheet s => sheet.putOwn s (s.value.orElse (.str ""))) sheet

def conflictNames (slots : List Slot) : List String :=
  (slots.filter fun s => !s.agreed).foldl (fun names s => addTo (s.field.label ++ " (" ++ s.provider.displayName ++ ")") names) []

def collectPreset (sources : List PresetSource) : CollectedPreset :=
  let slots := (collectSlots sources).map Prod.snd
  let sheet := slots.foldl storeOwn { byProvider := markedBags sources }
  ⟨(crossProvider slots).foldl storeCross sheet, conflictNames slots⟩

end Braidcast.Multistream

/-!
## The slots of a save

The slot of a provider's field holds the first value that the provider's channels state, and says whether every other
one is equal to it.
-/
namespace Braidcast.Multistream

open Lib

/-! ### Reading into a slot -/

theorem eq_undefined_of_isUndefined {v : JsValue} (undefined : isUndefined v = true) : v = .undefined := by
  cases v with
  | undefined => rfl
  | null | bool b | num n | str s | arr ref items | obj ref fields => cases undefined

/-- A value that is stated is there. -/
theorem isUndefined_of_stated {type : String} {v : JsValue} (stated : isEmptyVal type v = false) : isUndefined v = false := by
  cases there : isUndefined v with
  | false => rfl
  | true =>
    rw [eq_undefined_of_isUndefined there, isEmptyVal_undefined] at stated
    cases stated

/-- The slot of a field whose values were these. -/
def slotFor (field : OAuthProviderField) (provider : OAuthProvider) (values : List JsValue) : Slot :=
  ⟨field, provider, values.headD .undefined, values.tail.all (valuesEqual field.type (values.headD .undefined))⟩

variable {field : OAuthProviderField} {provider : OAuthProvider} {values : List JsValue} {v : JsValue}

theorem takeIn_undefined (there : ∀ v ∈ values, isUndefined v = false) :
    takeIn (some (slotFor field provider values)) ⟨field, provider, .undefined⟩ = slotFor field provider values := by
  cases values with
  | nil => rfl
  | cons first values =>
    have held : isUndefined first = false := there first List.mem_cons_self
    have none : isUndefined .undefined = true := rfl
    simp only [takeIn, slotFor, List.headD_cons, held, none, Bool.false_eq_true, if_false, Bool.not_true, Bool.false_and]

theorem takeIn_stated (there : ∀ v ∈ values, isUndefined v = false) (stated : isUndefined v = false) :
    takeIn (some (slotFor field provider values)) ⟨field, provider, v⟩ = slotFor field provider (values ++ [v]) := by
  cases values with
  | nil => rfl
  | cons first values =>
    have held : isUndefined first = false := there first List.mem_cons_self
    simp only [takeIn, slotFor, List.headD_cons, List.tail_cons, List.cons_append, held, stated, Bool.not_false, Bool.true_and,
      List.all_append, List.all_cons, List.all_nil, Bool.and_true]
    cases valuesEqual field.type first v with
    | true => simp
    | false => simp

/-- What a channel has under the key of a field, where it states something. -/
def readOf (s : PresetSource) (field : OAuthProviderField) : JsValue :=
  if isEmptyVal field.type (s.resolved.get field.key) then .undefined else s.resolved.get field.key

/-- The values that the channels state, in their order. -/
def statedIn (sources : List PresetSource) (field : OAuthProviderField) : List JsValue :=
  (sources.map fun s => s.resolved.get field.key).filter fun v => !isEmptyVal field.type v

theorem isUndefined_of_mem_statedIn {sources : List PresetSource} (member : v ∈ statedIn sources field) : isUndefined v = false := by
  have := (List.mem_filter.mp member).2
  exact isUndefined_of_stated ((Bool.not_eq_true' _).mp this)

theorem foldl_takeIn (sources : List PresetSource) (there : ∀ v ∈ values, isUndefined v = false) :
    (sources.map fun s => SlotRead.mk field provider (readOf s field)).foldl (fun held r => some (takeIn held r)) (some (slotFor field provider values)) =
      some (slotFor field provider (values ++ statedIn sources field)) := by
  -- The invariant: the slot is that of the values stated so far.
  induction sources generalizing values with
  | nil => exact congrArg (fun values => some (slotFor field provider values)) (List.append_nil values).symm
  | cons s sources ih =>
    rw [List.map_cons, List.foldl_cons, readOf]
    cases empty : isEmptyVal field.type (s.resolved.get field.key) with
    | true =>
      rw [if_pos rfl, takeIn_undefined there, ih there, statedIn, statedIn, List.map_cons, List.filter_cons_of_neg (by simp [empty])]
    | false =>
      have stated := isUndefined_of_stated empty
      have there' : ∀ w ∈ values ++ [s.resolved.get field.key], isUndefined w = false := by
        intro w member
        rcases List.mem_append.mp member with before | last
        · exact there w before
        · rw [List.mem_singleton.mp last, stated]
      rw [if_neg (by decide), takeIn_stated there stated, ih there', statedIn, statedIn, List.map_cons,
        List.filter_cons_of_pos (by simp [empty]), List.append_assoc, List.singleton_append]

theorem foldl_takeIn_none {sources : List PresetSource} (some_ : sources ≠ []) :
    (sources.map fun s => SlotRead.mk field provider (readOf s field)).foldl (fun held r => some (takeIn held r)) none =
      some (slotFor field provider (statedIn sources field)) := by
  cases sources with
  | nil => exact absurd rfl some_
  | cons s sources =>
    have first : takeIn none ⟨field, provider, readOf s field⟩ = takeIn (some (slotFor field provider [])) ⟨field, provider, readOf s field⟩ := rfl
    rw [List.map_cons, List.foldl_cons, first]
    exact foldl_takeIn (s :: sources) (by simp)

/-! ### The slots -/

/-- The descriptors, none of whose keys is the mark of the format. -/
structure MarkedDescriptors extends Descriptors where
  unmarked : ∀ p ∈ providers, ∀ f ∈ p.fields, f.key ≠ PRESET_FORMAT_KEY

/-- The sources of one provider. -/
def sourcesOf (sources : List PresetSource) (providerId : String) : List PresetSource := sources.filter fun s => s.provider.id = providerId

variable {D : MarkedDescriptors} {sources : List PresetSource} {p : OAuthProvider} {f : OAuthProviderField} {s : Slot}

theorem mem_slotReads {r : SlotRead} : r ∈ slotReads sources ↔ ∃ s ∈ sources, ∃ f ∈ carriableFields s.provider, r = ⟨f, s.provider, readOf s f⟩ := by
  simp only [slotReads, List.mem_flatMap, List.mem_map]
  constructor
  · rintro ⟨s, member, f, carried, rfl⟩
    exact ⟨s, member, f, carried, rfl⟩
  · rintro ⟨s, member, f, carried, rfl⟩
    exact ⟨s, member, f, carried, rfl⟩

section Known

variable (known : ∀ s ∈ sources, s.provider ∈ D.providers)

include known

/-- The reads that go into one slot are those of the provider's sources, one for each. -/
theorem filter_slotReads (listed : p ∈ D.providers) (carried : f ∈ carriableFields p) :
    (slotReads sources).filter (fun r => slotKey r.provider.id r.field.key = slotKey p.id f.key) =
      (sourcesOf sources p.id).map fun s => ⟨f, p, readOf s f⟩ := by
  have plain (q : OAuthProvider) (there : q ∈ D.providers) (g : OAuthProviderField) (declared : g ∈ carriableFields q) : ':' ∉ g.key.toList :=
    D.plain q there g (mem_carriableFields.mp declared).1
  induction sources with
  | nil => rfl
  | cons s sources ih =>
    have rest := ih fun other later => known other (List.mem_cons_of_mem s later)
    have here := known s List.mem_cons_self
    change (((carriableFields s.provider).map fun g => SlotRead.mk g s.provider (readOf s g)) ++ slotReads sources).filter _ = _
    rw [List.filter_append, rest, List.filter_map]
    -- Every source of the provider has the field once, and no other source reads into this slot.
    by_cases same : s.provider.id = p.id
    · have provider : s.provider = p := List.inj_on_of_nodup_map D.ids here listed same
      have one : (carriableFields s.provider).filter ((fun r => decide (slotKey r.provider.id r.field.key = slotKey p.id f.key)) ∘
          fun g => SlotRead.mk g s.provider (readOf s g)) = [f] := by
        have nodup : ((carriableFields p).map OAuthProviderField.key).Nodup := (D.keys p listed).sublist (List.filter_sublist.map _)
        rw [← filter_key_eq_singleton nodup carried, provider]
        refine List.filter_congr fun g declared => decide_eq_decide.mpr ⟨fun slot => ?_, fun key => ?_⟩
        · exact (slotKey_inj (plain p listed g declared) (plain p listed f carried) slot).2
        · exact congrArg (slotKey p.id) key
      have more : sourcesOf (s :: sources) p.id = s :: sourcesOf sources p.id := List.filter_cons_of_pos (by simp [same])
      rw [one, provider, more]
      rfl
    · have none : (carriableFields s.provider).filter ((fun r => decide (slotKey r.provider.id r.field.key = slotKey p.id f.key)) ∘
          fun g => SlotRead.mk g s.provider (readOf s g)) = [] := by
        refine List.filter_eq_nil_iff.mpr fun g declared slot => same ?_
        exact (slotKey_inj (plain _ here g declared) (plain p listed f carried) (of_decide_eq_true slot)).1
      have more : sourcesOf (s :: sources) p.id = sourcesOf sources p.id := List.filter_cons_of_neg (by simp [same])
      rw [none, more]
      rfl

/-- The slot of a field that a source of the provider carries. -/
theorem mem_collectSlots_of_source (armed : ∃ s ∈ sources, s.provider = p) (carried : f ∈ carriableFields p) :
    (slotKey p.id f.key, slotFor f p (statedIn (sourcesOf sources p.id) f)) ∈ collectSlots sources := by
  obtain ⟨source, member, rfl⟩ := armed
  have inside : source ∈ sourcesOf sources source.provider.id := List.mem_filter.mpr ⟨member, decide_eq_true rfl⟩
  refine (lookup_eq_some_iff_mem (nodup_keys_gather (m := []) List.nodup_nil)).mp ?_
  rw [lookup_gather, List.lookup_nil, filter_slotReads known (known source member) carried]
  exact foldl_takeIn_none (List.ne_nil_of_mem inside)

/-- Every slot is that of a field of a source's provider. -/
theorem exists_of_mem_collectSlots {key : String} (member : (key, s) ∈ collectSlots sources) :
    ∃ source ∈ sources, ∃ f ∈ carriableFields source.provider, key = slotKey source.provider.id f.key ∧
      s = slotFor f source.provider (statedIn (sourcesOf sources source.provider.id) f) := by
  have found := (lookup_eq_some_iff_mem (nodup_keys_gather (m := []) List.nodup_nil)).mpr member
  have read : ∃ r ∈ slotReads sources, slotKey r.provider.id r.field.key = key := by
    rw [lookup_gather, List.lookup_nil] at found
    cases here : (slotReads sources).filter (fun r => slotKey r.provider.id r.field.key = key) with
    | nil => rw [here] at found; cases found
    | cons r rs =>
      have first : r ∈ (slotReads sources).filter fun r => slotKey r.provider.id r.field.key = key := here ▸ List.mem_cons_self
      exact ⟨r, (List.mem_filter.mp first).1, of_decide_eq_true (List.mem_filter.mp first).2⟩
  obtain ⟨r, there, rfl⟩ := read
  obtain ⟨source, listed, f, carried, rfl⟩ := mem_slotReads.mp there
  refine ⟨source, listed, f, carried, rfl, ?_⟩
  have own := mem_collectSlots_of_source known ⟨source, listed, rfl⟩ carried
  have found' := (lookup_eq_some_iff_mem (nodup_keys_gather (m := []) List.nodup_nil)).mpr own
  exact Option.some.inj (found.symm.trans found')

end Known

end Braidcast.Multistream
