import Braidcast.Multistream.PresetPlan

/-!
# What a load shows

`effectiveFields` of the Go Live form, for the channels alone: a channel shows its own value of a field or the value of the
bucket it inherits from. What it shows of each field after a load is what the load decided for it.
-/
namespace Braidcast.Multistream

open Lib

/-- The descriptors of a build, as they are documented: each id is there once, and each key once for its provider and
without a colon; what every platform takes is free text. -/
structure Descriptors where
  providers : List OAuthProvider
  ids : (providers.map OAuthProvider.id).Nodup
  keys : ∀ p ∈ providers, (p.fields.map OAuthProviderField.key).Nodup
  plain : ∀ p ∈ providers, ∀ f ∈ p.fields, ':' ∉ f.key.toList
  freeText : ∀ p ∈ providers, ∀ f ∈ p.fields, fieldScope f = .all → FreeText f.type

/-- The first layer's value that states something. -/
def inheritedValue (state : PresetApplyState) (f : OAuthProviderField) (providerId : String) : JsValue :=
  (((inheritLayers f providerId).map fun bucket => state.layerValues.get bucket f.key).find? fun v => !isEmptyVal f.type v).getD .undefined

/-- What a field shows that no layer holds: nothing, or in the form itself a required choice. -/
abbrev Resting := OAuthProviderField → JsValue

def effectiveValue (rest : Resting) (state : PresetApplyState) (c : PresetChannel) (f : OAuthProviderField) : JsValue :=
  let own := state.channelValues.get c.accountId f.key
  let inherited := inheritedValue state f c.provider.id
  if !isEmptyVal f.type own then own else if !isEmptyVal f.type inherited then inherited else rest f

/-- The effective values of a channel, under the keys of its fields. -/
def effectiveFields (rest : Resting) (state : PresetApplyState) (c : PresetChannel) : Bag :=
  fun key => (c.provider.fields.find? fun f => f.key = key).bind fun f => entryOf (effectiveValue rest state c f)

/-- A value where it states something, else what the field rests at. -/
def settle (rest : Resting) (f : OAuthProviderField) (v : JsValue) : JsValue := if isEmptyVal f.type v then rest f else v

/-! ### Effective values -/

variable {rest : Resting} {state : PresetApplyState} {c : PresetChannel} {f : OAuthProviderField} {v : JsValue}

theorem settle_of_stated (stated : isEmptyVal f.type v = false) : settle rest f v = v := if_neg (by rw [stated]; decide)

theorem settle_of_empty (empty : isEmptyVal f.type v = true) : settle rest f v = rest f := if_pos empty

/-- A field has one bucket at most. -/
theorem inheritLayers_cases (f : OAuthProviderField) (p : String) : inheritLayers f p = (inheritLayers f p).head?.toList := by
  unfold inheritLayers
  split
  · rfl
  · split
    · rfl
    · rfl
    · rfl

theorem settle_settle : settle rest f (settle rest f v) = settle rest f v := by
  cases empty : isEmptyVal f.type v with
  | false => rw [settle_of_stated empty, settle_of_stated empty]
  | true =>
    rw [settle_of_empty empty]
    exact ite_self _

theorem effectiveValue_eq : effectiveValue rest state c f =
    if isEmptyVal f.type (state.channelValues.get c.accountId f.key) then settle rest f (inheritedValue state f c.provider.id)
    else state.channelValues.get c.accountId f.key := by
  dsimp only [effectiveValue, settle]
  cases isEmptyVal f.type (state.channelValues.get c.accountId f.key) with
  | false => rfl
  | true => cases isEmptyVal f.type (inheritedValue state f c.provider.id) <;> rfl

theorem effectiveValue_unlayered (bare : (inheritLayers f c.provider.id).head? = none) :
    effectiveValue rest state c f = settle rest f (state.channelValues.get c.accountId f.key) := by
  have inherited : inheritedValue state f c.provider.id = .undefined := by
    rw [inheritedValue, inheritLayers_cases, bare]
    rfl
  rw [effectiveValue_eq, inherited, settle_of_empty (isEmptyVal_undefined _)]
  rfl

theorem effectiveValue_layered {bucket : String} (layer : (inheritLayers f c.provider.id).head? = some bucket) :
    effectiveValue rest state c f =
      if isEmptyVal f.type (state.channelValues.get c.accountId f.key) then settle rest f (state.layerValues.get bucket f.key)
      else state.channelValues.get c.accountId f.key := by
  have inherited : settle rest f (inheritedValue state f c.provider.id) = settle rest f (state.layerValues.get bucket f.key) := by
    rw [inheritedValue, inheritLayers_cases, layer, Option.toList_some, List.map_singleton, List.find?_singleton]
    cases empty : isEmptyVal f.type (state.layerValues.get bucket f.key) with
    | false => rfl
    | true => rw [settle_of_empty empty]; exact settle_of_empty (isEmptyVal_undefined _)
  rw [effectiveValue_eq, inherited]

/-- What is shown is settled already. -/
theorem settle_effectiveValue : settle rest f (effectiveValue rest state c f) = effectiveValue rest state c f := by
  rw [effectiveValue_eq]
  split
  next => exact settle_settle
  next stated => exact if_neg stated

theorem get_effectiveFields (keys : (c.provider.fields.map OAuthProviderField.key).Nodup) (member : f ∈ c.provider.fields) :
    (effectiveFields rest state c).get f.key = effectiveValue rest state c f := by
  rw [Bag.get, effectiveFields, find?_key_eq_some keys member, Option.bind_some, entryOf_getD]

/-! ### Outcomes -/

variable {preset : PresetSheet} {channels : List PresetChannel} {e o : PresetEntry} {p : String}

theorem stated_of_presetValueOf {held : PresetFieldValue} (holds : presetValueOf preset f p = some held) : isEmptyVal f.type held.value = false := by
  unfold presetValueOf at holds
  dsimp only at holds
  split at holds
  next stated => rw [← Option.some.inj holds]; exact (Bool.not_eq_true' _).mp stated
  next =>
    split at holds
    · cases holds
    next shared =>
      rw [← Option.some.inj holds]
      exact eq_false_of_ne_true (not_or.mp shared).2

/-- A sheet that holds nothing for a field of all has nothing to share. -/
theorem shared_of_presetValueOf (holds : presetValueOf preset f p = none) (all : fieldScope f = .all) : isEmptyVal f.type (preset.shared.get f.key) = true := by
  unfold presetValueOf at holds
  dsimp only at holds
  split at holds
  · cases holds
  · split at holds
    next silent => exact silent.resolve_left (fun other => other all)
    · cases holds

/-- The value of the bucket of all. -/
theorem sharedLayer_eq (all : fieldScope f = .all) :
    ((presetValueOf { shared := preset.shared } f p).map PresetFieldValue.value).getD .undefined =
      if isEmptyVal f.type (preset.shared.get f.key) then .undefined else preset.shared.get f.key := by
  have bare : Bag.get ((PresetSheet.bag { shared := preset.shared } p).getD emptyBag) f.key = .undefined := rfl
  unfold presetValueOf
  dsimp only
  rw [bare, isEmptyVal_undefined]
  cases isEmptyVal f.type (preset.shared.get f.key) with
  | true => rw [if_neg (by decide), if_pos (.inr rfl)]; rfl
  | false => rw [if_neg (by decide), if_neg (by simp [all])]; rfl

/-- What is pinned beside a layer, or left to it, comes to what was wanted. -/
theorem settle_pinned {type : String} {target layer : JsValue}
    (same : sameShown type target layer = true → settle rest f target = settle rest f layer)
    (other : sameShown type target layer = false → isEmptyVal f.type target = true → isEmptyVal f.type layer = true) :
    (if isEmptyVal f.type (if sameShown type target layer then .undefined else target) then settle rest f layer
      else (if sameShown type target layer then .undefined else target)) = settle rest f target := by
  cases shown : sameShown type target layer with
  | true =>
    rw [if_pos rfl, isEmptyVal_undefined, if_pos rfl]
    exact (same shown).symm
  | false =>
    simp only [Bool.false_eq_true, if_false]
    split
    next empty => rw [settle_of_empty empty, settle_of_empty (other shown empty)]
    next stated => rw [settle_of_stated (eq_false_of_ne_true stated)]

/-- Texts that show the same are one, or both of them show nothing. -/
theorem FreeText.settle_eq {type : String} {target layer : JsValue} (free : FreeText type) (free' : FreeText f.type)
    (same : sameShown type target layer = true) : settle rest f target = settle rest f layer := by
  have blank (v : JsValue) : isEmptyVal f.type v = isEmptyVal type v := by rw [free.isEmptyVal_eq, free'.isEmptyVal_eq]
  unfold sameShown at same
  split at same
  next =>
    obtain ⟨none, none'⟩ := Bool.and_eq_true_iff.mp same
    rw [settle_of_empty ((blank _).trans none), settle_of_empty ((blank _).trans none')]
  next stated =>
    have stated := (Bool.or_eq_false_iff.mp (eq_false_of_ne_true stated)).1
    rw [free.eq_of_valuesEqual stated same]

end Braidcast.Multistream

/-!
## The Go Live form

The form as a load takes it, and as a load leaves it.
-/
namespace Braidcast.Multistream

open Lib

/-- The count of a stream's overrides, as far as a load reads it: a bag with more in it has no fewer of them. -/
structure OverrideCount where
  hasOverrides : HasOverrides
  grows : ∀ provider (bag more : Bag), (∀ key value, bag key = some value → more key = some value) →
    hasOverrides provider bag = true → hasOverrides provider more = true

/-- The layers of the form with its channels, whose resolved values are their effective ones. -/
structure GoLiveForm (D : Descriptors) (rest : Resting) where
  state : PresetApplyState
  channels : List PresetChannel
  known : ∀ c ∈ channels, c.provider ∈ D.providers
  accounts : (channels.map PresetChannel.accountId).Nodup
  resolved : ∀ c ∈ channels, ∀ f ∈ carriableFields c.provider, c.resolved.get f.key = effectiveValue rest state c f

variable {D : Descriptors} {rest : Resting} {preset : PresetSheet}

theorem mem_presetOutcomes {channels : List PresetChannel} {providers : List OAuthProvider} {e : PresetEntry} :
    e ∈ presetOutcomes preset channels providers ↔ e.c ∈ channels ∧ e.field ∈ carriableFields e.c.provider ∧
      e.outcome = presetOutcome preset e.field e.c.provider.id (declaredBy providers) := by
  simp only [presetOutcomes, List.mem_flatMap, List.mem_map]
  constructor
  · rintro ⟨c, member, f, carried, rfl⟩
    exact ⟨member, carried, rfl⟩
  · rintro ⟨member, carried, outcome⟩
    refine ⟨e.c, member, e.field, carried, ?_⟩
    rw [← outcome]

theorem mem_carriableFields {p : OAuthProvider} {f : OAuthProviderField} : f ∈ carriableFields p ↔ f ∈ p.fields ∧ isPerDestination f = false := by
  rw [carriableFields, List.mem_filter, Bool.not_eq_true']

namespace GoLiveForm

variable (form : GoLiveForm D rest) (preset)

def entries : List PresetEntry := presetOutcomes preset form.channels D.providers

def load (count : OverrideCount) : PresetApplyState × PresetApplyResult :=
  applyPresetTo count.hasOverrides form.state preset form.channels D.providers

/-- The modal's state after a load. -/
def after (count : OverrideCount) : PresetApplyState := (form.load preset count).1

variable {form preset} {count : OverrideCount} {e o : PresetEntry} {d : Decision}

section

variable (member : e ∈ form.entries preset)
include member

theorem channel_mem : e.c ∈ form.channels := (mem_presetOutcomes.mp member).1

theorem field_mem : e.field ∈ carriableFields e.c.provider := (mem_presetOutcomes.mp member).2.1

theorem outcome_eq :
    e.outcome = presetOutcome preset e.field e.c.provider.id (declaredBy D.providers) := (mem_presetOutcomes.mp member).2.2

theorem declared_mem : e.field ∈ e.c.provider.fields := (mem_carriableFields.mp (field_mem member)).1

theorem provider_mem : e.c.provider ∈ D.providers := form.known _ (channel_mem member)

end

theorem plain : ∀ e ∈ form.entries preset, ':' ∉ e.field.key.toList :=
  fun _ member => D.plain _ (provider_mem member) _ (declared_mem member)

/-- A key names one field of a provider. -/
theorem field_eq (member : e ∈ form.entries preset) (member' : o ∈ form.entries preset) (provider : o.c.provider = e.c.provider)
    (key : o.field.key = e.field.key) : o.field = e.field :=
  List.inj_on_of_nodup_map (D.keys _ (provider_mem member)) (provider ▸ declared_mem member') (declared_mem member) key

/-- The account and the key name the entry. -/
theorem entry_eq (member : e ∈ form.entries preset) (member' : o ∈ form.entries preset) (account : o.c.accountId = e.c.accountId)
    (key : o.field.key = e.field.key) : o = e := by
  have channel : o.c = e.c := List.inj_on_of_nodup_map form.accounts (channel_mem member') (channel_mem member) account
  have field : o.field = e.field := field_eq member member' (congrArg PresetChannel.provider channel) key
  have outcome : o.outcome = e.outcome := by rw [outcome_eq member', outcome_eq member, field, channel]
  cases o
  cases e
  cases channel
  cases field
  cases outcome
  rfl

/-- All that read a provider's bucket are of that provider, so one outcome is that of all. -/
theorem same_of_provider_bucket (member : e ∈ form.entries preset) (member' : o ∈ form.entries preset) {bucket : String}
    (here : e.bucket = some bucket) (there : o.bucket = some bucket) (other : bucket ≠ ALL_LAYER) (key : o.field.key = e.field.key) :
    o.field = e.field ∧ o.outcome = e.outcome := by
  have layer := inheritLayers_eq_provider here other
  have layer' := inheritLayers_eq_provider there other
  have id : o.c.provider.id = e.c.provider.id := providerLayer_inj (layer'.symm.trans layer)
  have provider := List.inj_on_of_nodup_map D.ids (provider_mem member') (provider_mem member) id
  have field := field_eq member member' provider key
  exact ⟨field, by rw [outcome_eq member', outcome_eq member, field, id]⟩

/-! ### Places after a load -/

theorem layerValues_after : (form.after preset count).layerValues = putAll form.state.layerValues (layerWrites preset (form.entries preset)) := by
  unfold after load applyPresetTo
  dsimp only
  rw [state_loaded]
  rfl

theorem channelValues_after :
    (form.after preset count).channelValues = putAll form.state.channelValues ((allDecisions preset (form.entries preset)).map Decision.write) := by
  unfold after load applyPresetTo
  dsimp only
  rw [state_loaded]
  rfl

theorem streamOverrides_after :
    (form.after preset count).streamOverrides = clearAll form.state.streamOverrides (allDecisions preset (form.entries preset)) := by
  unfold after load applyPresetTo
  dsimp only
  rw [state_loaded]
  rfl

theorem own_of_decided (member : e ∈ form.entries preset) (decided : decisionOf preset (form.entries preset) e = some d) :
    (form.after preset count).channelValues.At e.c.accountId e.field.key d.value := by
  obtain ⟨channel, key, -⟩ := decisionOf_spec plain member decided
  rw [channelValues_after, ← channel, ← key]
  refine at_putAll (w := d.write) (List.mem_map_of_mem ((mem_allDecisions plain).mpr ⟨e, member, decided⟩)) ?_
  intro v written account same
  obtain ⟨d', listed, rfl⟩ := List.mem_map.mp written
  obtain ⟨o, member', decided'⟩ := (mem_allDecisions plain).mp listed
  obtain ⟨channel', key', -⟩ := decisionOf_spec plain member' decided'
  have here : o = e := entry_eq member member' (by rw [← channel', ← channel]; exact account) (by rw [← key', ← key]; exact same)
  rw [here, decided] at decided'
  rw [Option.some.inj decided']

/-- Where no entry is decided the channel keeps its value. -/
theorem own_of_undecided {account key : String}
    (none : ∀ e ∈ form.entries preset, e.c.accountId = account → e.field.key = key → decisionOf preset (form.entries preset) e = none) :
    (form.after preset count).channelValues.get account key = form.state.channelValues.get account key := by
  rw [channelValues_after]
  refine get_putAll_of_not_mem ?_
  rintro w written ⟨here, same⟩
  obtain ⟨d, listed, rfl⟩ := List.mem_map.mp written
  obtain ⟨e, member, decided⟩ := (mem_allDecisions plain).mp listed
  obtain ⟨channel, key', -⟩ := decisionOf_spec plain member decided
  have := none e member (by rw [← channel]; exact here) (by rw [← key']; exact same)
  rw [this] at decided
  cases decided

theorem own_of_kept (member : e ∈ form.entries preset) (kept : decisionOf preset (form.entries preset) e = none) :
    (form.after preset count).channelValues.get e.c.accountId e.field.key = form.state.channelValues.get e.c.accountId e.field.key :=
  own_of_undecided fun _ member' account key => entry_eq member member' account key ▸ kept

theorem slot_eq {bucket : String} (here : e.bucket = some bucket) (there : o.bucket = some bucket) (key : o.field.key = e.field.key) :
    o.slot = e.slot := by
  rw [PresetEntry.slot, PresetEntry.slot, here, there, key]

section

variable (member : e ∈ form.entries preset)
include member

theorem layer_of_moves {moving : OAuthProviderField × JsValue} {bucket : String} (here : e.bucket = some bucket)
    (moves : movingLayer preset (groupFor (form.entries preset) e) = some moving) :
    (form.after preset count).layerValues.At bucket e.field.key moving.2 := by
  have inside : e ∈ layered (form.entries preset) := mem_layered.mpr ⟨member, by rw [here]; rfl⟩
  rw [layerValues_after]
  refine at_putAll (w := ⟨bucket, e.field.key, moving.2⟩) ((mem_layerWrites plain).mpr ⟨e, inside, moving, moves, by rw [here]; rfl⟩) ?_
  intro v written outer key
  obtain ⟨o, inside', moving', moves', rfl⟩ := (mem_layerWrites plain).mp written
  obtain ⟨bucket', there⟩ := Option.isSome_iff_exists.mp (mem_layered.mp inside').2
  have outer : bucket' = bucket := by rw [there] at outer; exact outer
  rw [groupFor_eq plain inside inside' (slot_eq here (there.trans (congrArg some outer)) key), moves] at moves'
  rw [Option.some.inj moves']

theorem layer_of_still {bucket : String} (here : e.bucket = some bucket)
    (still : movingLayer preset (groupFor (form.entries preset) e) = none) :
    (form.after preset count).layerValues.get bucket e.field.key = form.state.layerValues.get bucket e.field.key := by
  have inside : e ∈ layered (form.entries preset) := mem_layered.mpr ⟨member, by rw [here]; rfl⟩
  rw [layerValues_after]
  refine get_putAll_of_not_mem ?_
  rintro w written ⟨outer, key⟩
  obtain ⟨o, inside', moving, moves, rfl⟩ := (mem_layerWrites plain).mp written
  obtain ⟨bucket', there⟩ := Option.isSome_iff_exists.mp (mem_layered.mp inside').2
  have outer : bucket' = bucket := by rw [there] at outer; exact outer
  rw [groupFor_eq plain inside inside' (slot_eq here (there.trans (congrArg some outer)) key), still] at moves
  cases moves

/-! ### What is shown -/

/-- What an entry is to show: its outcome's value, or what its channel shows. -/
def target (e : PresetEntry) : JsValue := e.outcome.value?.getD (e.c.resolved.get e.field.key)

/-- The layer that moves fits every channel that reads it: where the two show the same they come to the same, and a
channel is left with nothing only where the layer holds nothing. -/
theorem fits_of_movingLayer {moving : OAuthProviderField × JsValue} (bucket : e.bucket.isSome = true)
    (moves : movingLayer preset (groupFor (form.entries preset) e) = some moving) :
    (sameShown moving.1.type (target e) moving.2 = true → settle rest e.field (target e) = settle rest e.field moving.2) ∧
      (sameShown moving.1.type (target e) moving.2 = false → isEmptyVal e.field.type (target e) = true → isEmptyVal e.field.type moving.2 = true) := by
  obtain ⟨b, here⟩ := Option.isSome_iff_exists.mp bucket
  have inside : e ∈ layered (form.entries preset) := mem_layered.mpr ⟨member, bucket⟩
  obtain ⟨o, inside', touched, field, layer⟩ := exists_of_movingLayer moves
  obtain ⟨inside', same⟩ := mem_entries_groupFor.mp inside'
  obtain ⟨there, key⟩ := same_of_slot plain inside inside' same
  have member' := (mem_layered.mp inside').1
  have group : (groupFor (form.entries preset) e).bucket = b := by rw [groupFor, here]; rfl
  rw [group] at layer
  by_cases all : b = ALL_LAYER
  · have scope : fieldScope e.field = .all := inheritLayers_eq_all (here.trans (congrArg some all))
    have scope' : fieldScope o.field = .all := inheritLayers_eq_all (there.trans (here.trans (congrArg some all)))
    have free := D.freeText _ (provider_mem member) _ (declared_mem member) scope
    have free' := D.freeText _ (provider_mem member') _ (declared_mem member') scope'
    -- The layer holds what is shared. A channel that is to show nothing was handed nothing, so nothing is shared.
    refine ⟨fun shown => (field ▸ free' : FreeText moving.1.type).settle_eq free shown, fun _ empty => ?_⟩
    rw [if_pos all, sharedLayer_eq scope', key] at layer
    have silent : isEmptyVal e.field.type (preset.shared.get e.field.key) = true := by
      cases holds : presetValueOf preset e.field e.c.provider.id with
      | none => exact shared_of_presetValueOf holds scope
      | some held =>
        have outcome := outcome_eq member
        rw [presetOutcome, holds] at outcome
        have stated := stated_of_presetValueOf holds
        rw [target, outcome, PresetOutcome.value?, Option.getD_some, stated] at empty
        cases empty
    rw [layer, free'.isEmptyVal_eq, ← free.isEmptyVal_eq, silent, if_pos rfl]
    exact isEmptyVal_undefined _
  · -- The channels are of one provider: what moves the layer is what each of them is to show.
    obtain ⟨-, outcome⟩ := same_of_provider_bucket member member' here (there.trans here) all key
    obtain ⟨v, value⟩ := Option.isSome_iff_exists.mp touched
    have hit : target e = moving.2 := by rw [target, ← outcome, layer, if_neg all, value]; rfl
    rw [hit]
    exact ⟨fun _ => rfl, fun _ empty => empty⟩

/-- What a load leaves each channel showing of each field. -/
theorem effective_after :
    effectiveValue rest (form.after preset count) e.c e.field =
      settle rest e.field (e.outcome.value?.getD (effectiveValue rest form.state e.c e.field)) := by
  have resolved : e.c.resolved.get e.field.key = effectiveValue rest form.state e.c e.field :=
    form.resolved _ (channel_mem member) _ (field_mem member)
  rw [← resolved]
  change _ = settle rest e.field (target e)
  have still (keeps : e.outcome.value? = none) : settle rest e.field (target e) = effectiveValue rest form.state e.c e.field := by
    rw [target, keeps, Option.getD_none, resolved, settle_effectiveValue]
  cases here : e.bucket with
  | none =>
    rw [effectiveValue_unlayered here]
    have decision : decisionOf preset (form.entries preset) e = e.outcome.value?.map fun value => ⟨e.c, e.field.key, value, true⟩ := by
      rw [decisionOf, if_neg (by rw [here]; decide), unlayeredDecision, here]
    cases value : e.outcome.value? with
    | none =>
      rw [value, Option.map_none] at decision
      rw [own_of_kept member decision, ← effectiveValue_unlayered here, still value]
    | some v =>
      rw [value, Option.map_some] at decision
      rw [(own_of_decided member decision).get, target, value, Option.getD_some]
  | some bucket =>
    have held : e.bucket.isSome = true := by rw [here]; rfl
    rw [effectiveValue_layered here]
    cases moves : movingLayer preset (groupFor (form.entries preset) e) with
    | none =>
      -- No outcome touches the bucket, this one included.
      have decision : decisionOf preset (form.entries preset) e = none := by rw [decisionOf, if_pos held, moves, Option.map_none]
      have keeps := keeps_of_movingLayer moves e (mem_entries_groupFor.mpr ⟨mem_layered.mpr ⟨member, held⟩, rfl⟩)
      rw [own_of_kept member decision, layer_of_still member here moves, ← effectiveValue_layered here, still keeps]
    | some moving =>
      have decision : decisionOf preset (form.entries preset) e = some (groupDecision moving.1 moving.2 e) := by
        rw [decisionOf, if_pos held, moves, Option.map_some]
      have key := movingLayer_key plain (mem_layered.mpr ⟨member, held⟩) moves
      obtain ⟨same, other⟩ := fits_of_movingLayer member held moves
      rw [(own_of_decided member decision).get, (layer_of_moves member here moves).get, groupDecision, key]
      exact settle_pinned same other

end

end GoLiveForm

end Braidcast.Multistream
