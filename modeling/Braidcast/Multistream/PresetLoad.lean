import Braidcast.Lib.Keyed
import Braidcast.Multistream.FieldValues

/-!
# Loading a preset

`applyPreset.ts`, as far as a load goes: what each field of each provider becomes, and how that is written into the
layers, the channels and the streams of the Go Live form. A new array counts as one wherever it is made, as none
is compared by where it is.
-/
namespace Braidcast.Multistream

open Lib

/-- An object as what it has under its keys. -/
abbrev Bag := String → Option JsValue

abbrev Bags := String → Option Bag

def emptyBag : Bag := fun _ => none

/-- `bag[key]`. -/
def Bag.get (bag : Bag) (key : String) : JsValue := (bag key).getD .undefined

/-- `bags[outer]?.[key]`. -/
def Bags.get (bags : Bags) (outer key : String) : JsValue := Bag.get ((bags outer).getD emptyBag) key

/-- The two bags of a sheet. A hand-edited sheet may lack either, or have a null for a provider's. -/
structure PresetSheet where
  shared : Bag := emptyBag
  byProvider : List (String × Option Bag) := []

structure PresetFieldValue where
  field : OAuthProviderField
  value : JsValue
  own : Bool

def PRESET_FORMAT_KEY : String := "__v"

def PRESET_FORMAT : JsValue := .num "2"

namespace PresetSheet

/-- `sheet.byProvider?.[providerId]`, where it is an object. -/
def bag (sheet : PresetSheet) (providerId : String) : Option Bag := (sheet.byProvider.lookup providerId).join

end PresetSheet

def presetValueOf (sheet : PresetSheet) (field : OAuthProviderField) (providerId : String) : Option PresetFieldValue :=
  -- the provider's own bag first, and the shared one for a field of every platform
  let own := Bag.get ((sheet.bag providerId).getD emptyBag) field.key
  if !isEmptyVal field.type own then some { field, value := own, own := true }
  else
    let shared := sheet.shared.get field.key
    if fieldScope field ≠ .all ∨ isEmptyVal field.type shared then none
    else some { field, value := shared, own := false }

def isAtRestValue (field : OAuthProviderField) (value : JsValue) : Bool :=
  let required := resolveRequiredEnum field (.str "")
  if required ≠ "" then valuesEqual field.type value (.str required)
  else if field.type = "bool" then value.strictEq (field.default.orElse (.bool false))
  else !field.default.strictEq .undefined && valuesEqual field.type value field.default

def resetValue (field : OAuthProviderField) : JsValue :=
  if isListType field.type then .arr 0 []
  else if field.type = "bool" then field.default.orElse (.bool false)
  else
    let required := resolveRequiredEnum field (.str "")
    if required ≠ "" then .str required else field.default

def isCurrentFormat (bag : Option Bag) : Bool := (Bag.get (bag.getD emptyBag) PRESET_FORMAT_KEY).strictEq PRESET_FORMAT

def carriableFields (provider : OAuthProvider) : List OAuthProviderField := provider.fields.filter fun f => !isPerDestination f

def presetValuesFor (preset : PresetSheet) (provider : OAuthProvider) : List PresetFieldValue :=
  (carriableFields provider).filterMap fun field => presetValueOf preset field provider.id

/-- What is written for a value: nothing for none. -/
def entryOf : JsValue → Option JsValue
  | .undefined => none
  | v => some v

def putBagValue (bags : Bags) (outer key : String) (value : JsValue) : Bags :=
  Function.update bags outer (some (Function.update ((bags outer).getD emptyBag) key (entryOf value)))

/-! ### Outcomes -/

inductive PresetOutcome where
  | set (value : JsValue)
  | reset (value : JsValue)
  | keep

/-- `outcome.value`, of one that is not kept. -/
def PresetOutcome.value? : PresetOutcome → Option JsValue
  | .set value => some value
  | .reset value => some value
  | .keep => none

def sheetProviders (preset : PresetSheet) : List String := preset.byProvider.map Prod.fst

def mayReset (preset : PresetSheet) (field : OAuthProviderField) (providerId : String) (declaredBy : String → String → Bool) : Bool :=
  if field.safety || !field.clearable then false
  else
    match fieldScope field with
    -- only what the sheet was in a position to hold: a shared field by a provider that declares it
    | .all => (sheetProviders preset).any fun p => declaredBy p field.key
    | .provider => (preset.bag providerId).isSome
    | .channel => isCurrentFormat (preset.bag providerId)

def presetOutcome (preset : PresetSheet) (field : OAuthProviderField) (providerId : String) (declaredBy : String → String → Bool) :
    PresetOutcome :=
  match presetValueOf preset field providerId with
  | some held => .set held.value
  | none => if mayReset preset field providerId declaredBy then .reset (resetValue field) else .keep

def sameShown (type : String) (a b : JsValue) : Bool :=
  if isEmptyVal type a || isEmptyVal type b then isEmptyVal type a && isEmptyVal type b else valuesEqual type a b

structure PresetChannel where
  provider : OAuthProvider
  accountId : String
  profileUuids : List String
  armed : Bool := true
  resolved : Bag

structure PresetApplyState where
  layerValues : Bags
  channelValues : Bags
  streamOverrides : Bags
  streamOverrideOn : String → Option Bool

structure PresetApplyResult where
  touchedLayers : List String
  touchedChannels : List String
  resets : List String

/-- A set is the list of its members in the order they came. -/
def addTo (x : String) (xs : List String) : List String := if x ∈ xs then xs else xs ++ [x]

structure Loading where
  state : PresetApplyState
  touchedLayers : List String := []
  touchedChannels : List String := []

/-- What `decide` is called with. -/
structure Decision where
  channel : PresetChannel
  key : String
  value : JsValue
  decided : Bool

/-- A stream's override of a key, where it has one, goes. -/
def clearOverride (key : String) (overrides : Bags) (uuid : String) : Bags :=
  match overrides uuid with
  | some bag => if (bag key).isSome then putBagValue overrides uuid key .undefined else overrides
  | none => overrides

/-- The closure `decide` of `applyPresetTo`. -/
def Loading.decide (l : Loading) (d : Decision) : Loading :=
  let state := { l.state with channelValues := putBagValue l.state.channelValues d.channel.accountId d.key d.value }
  if d.decided then
    { l with
      state := { state with streamOverrides := d.channel.profileUuids.foldl (clearOverride d.key) state.streamOverrides }
      touchedChannels := addTo (slotKey d.channel.accountId d.key) l.touchedChannels }
  else { l with state }

structure PresetEntry where
  c : PresetChannel
  field : OAuthProviderField
  outcome : PresetOutcome

structure BucketGroup where
  bucket : String
  entries : List PresetEntry

/-- The bucket that a channel without a value of its own inherits from. -/
def PresetEntry.bucket (e : PresetEntry) : Option String := (inheritLayers e.field e.c.provider.id).head?

/-- Does any descriptor of this build say that the provider declares the key? The last one of an id counts. -/
def declaredBy (providers : List OAuthProvider) (providerId key : String) : Bool :=
  match providers.reverse.find? fun p => p.id = providerId with
  | some provider => (carriableFields provider).any fun f => f.key = key
  | none => false

def presetOutcomes (preset : PresetSheet) (channels : List PresetChannel) (providers : List OAuthProvider) : List PresetEntry :=
  channels.flatMap fun c => (carriableFields c.provider).map fun field =>
    { c, field, outcome := presetOutcome preset field c.provider.id (declaredBy providers) }

/-- A field with no bucket lands in its channel's own bag. -/
def unlayeredDecision (e : PresetEntry) : Option Decision :=
  match e.bucket with
  | none => e.outcome.value?.map fun value => ⟨e.c, e.field.key, value, true⟩
  | some _ => none

/-- One turn of the loop over channels and fields. -/
def loadEntry (lg : Loading × List (String × BucketGroup)) (e : PresetEntry) : Loading × List (String × BucketGroup) :=
  match e.bucket with
  | none =>
    match unlayeredDecision e with
    | some d => (lg.1.decide d, lg.2)
    | none => lg
  | some bucket =>
    (lg.1, setKey (slotKey bucket e.field.key) (fun group => ⟨(group.map BucketGroup.bucket).getD bucket,
      (group.map BucketGroup.entries).getD [] ++ [e]⟩) lg.2)

/-- The field that a bucket moves by, and what is written into the layer; `none` where no outcome touches it. -/
def movingLayer (preset : PresetSheet) (group : BucketGroup) : Option (OAuthProviderField × JsValue) :=
  match group.entries.find? fun e => e.outcome.value?.isSome with
  | none => none
  | some moving =>
    -- the shared layer takes the shared value only: a provider's own goes to its channels
    if group.bucket = ALL_LAYER then
      some (moving.field, ((presetValueOf { shared := preset.shared } moving.field moving.c.provider.id).map PresetFieldValue.value).getD .undefined)
    else some (moving.field, moving.outcome.value?.getD .undefined)

def groupDecision (field : OAuthProviderField) (layer : JsValue) (e : PresetEntry) : Decision :=
  let target := e.outcome.value?.getD (e.c.resolved.get field.key)
  ⟨e.c, field.key, if sameShown field.type target layer then .undefined else target, e.outcome.value?.isSome⟩

/-- One turn of the loop over the buckets. -/
def loadGroup (preset : PresetSheet) (l : Loading) (slotted : String × BucketGroup) : Loading :=
  match movingLayer preset slotted.2 with
  -- no outcome touches the bucket, so its channels are left as they are
  | none => l
  | some (field, layer) =>
    let l := { l with
      state := { l.state with layerValues := putBagValue l.state.layerValues slotted.2.bucket field.key layer }
      touchedLayers := addTo slotted.1 l.touchedLayers }
    (slotted.2.entries.map (groupDecision field layer)).foldl Loading.decide l

abbrev HasOverrides := OAuthProvider → Bag → Bool

def overridesOf (state : PresetApplyState) (uuid : String) : Bag := (state.streamOverrides uuid).getD emptyBag

/-- Had the stream overrides before the load? The last channel it is on says. -/
def hadOverrides (hasOverrides : HasOverrides) (state : PresetApplyState) (channels : List PresetChannel) (uuid : String) : Bool :=
  match channels.reverse.find? fun c => uuid ∈ c.profileUuids with
  | some c => hasOverrides c.provider (overridesOf state uuid)
  | none => false

/-- The streams whose switch goes off. -/
def emptied (hasOverrides : HasOverrides) (before after : PresetApplyState) (channels : List PresetChannel) : List String :=
  channels.flatMap fun c => c.profileUuids.filter fun uuid =>
    hadOverrides hasOverrides before channels uuid && !hasOverrides c.provider (overridesOf after uuid)

/-- `resetNames`. -/
def resetNames (outcomes : List PresetEntry) : List String :=
  let armed := outcomes.filter fun e => e.c.armed
  let isReset (e : PresetEntry) : Bool :=
    match e.outcome with
    | .reset _ => true
    | _ => false
  let notReset := (armed.filter fun e => !isReset e).map fun e => e.field.key
  armed.foldl (fun names e =>
    match e.outcome with
    | .reset value =>
      let was := e.c.resolved.get e.field.key
      -- nothing is reported that the user would not see go
      if isBlankVal e.field.type was || isAtRestValue e.field was || sameShown e.field.type was value then names
      else
        let alone := fieldScope e.field == .all && !(e.field.key ∈ notReset)
        addTo (if alone then e.field.label else e.field.label ++ " (" ++ e.c.provider.displayName ++ ")") names
    | _ => names) []

def applyPresetTo (hasOverrides : HasOverrides) (state : PresetApplyState) (preset : PresetSheet) (channels : List PresetChannel)
    (providers : List OAuthProvider) : PresetApplyState × PresetApplyResult :=
  let outcomes := presetOutcomes preset channels providers
  let gathered := outcomes.foldl loadEntry ({ state }, [])
  let l := gathered.2.foldl (loadGroup preset) gathered.1
  let off := emptied hasOverrides state l.state channels
  ({ l.state with streamOverrideOn := off.foldl (fun switches uuid => Function.update switches uuid (some false)) l.state.streamOverrideOn },
    ⟨l.touchedLayers, l.touchedChannels, resetNames outcomes⟩)

end Braidcast.Multistream
