import Braidcast.Multistream.PresetForm

/-!
# Loading again

After a load each channel's resolved values are what it shows then. The same preset loaded once more makes the same decisions,
and finds every one of them written.
-/
namespace Braidcast.Multistream

open Lib

/-! ### Refreshed channels -/

/-- A channel with the values that it shows by now. -/
def refresh (rest : Resting) (state : PresetApplyState) (c : PresetChannel) : PresetChannel :=
  { c with resolved := effectiveFields rest state c }

def PresetEntry.refresh (rest : Resting) (state : PresetApplyState) (e : PresetEntry) : PresetEntry :=
  { e with c := Multistream.refresh rest state e.c }

variable {D : Descriptors} {rest : Resting} {state : PresetApplyState} {preset : PresetSheet} {entries : List PresetEntry} {e : PresetEntry}

@[simp] theorem bucket_refresh : (e.refresh rest state).bucket = e.bucket := rfl

/-- A decision for the channel as it is by then. -/
def Decision.refresh (rest : Resting) (state : PresetApplyState) (d : Decision) : Decision :=
  { d with channel := Multistream.refresh rest state d.channel }

theorem unlayeredDecision_refresh : unlayeredDecision (e.refresh rest state) = (unlayeredDecision e).map (Decision.refresh rest state) := by
  unfold unlayeredDecision
  rw [bucket_refresh]
  cases e.bucket with
  | some bucket => rfl
  | none =>
    rw [Option.map_map]
    rfl

theorem presetOutcomes_refresh (channels : List PresetChannel) (providers : List OAuthProvider) :
    presetOutcomes preset (channels.map (refresh rest state)) providers =
      (presetOutcomes preset channels providers).map (PresetEntry.refresh rest state) := by
  simp only [presetOutcomes, List.flatMap_map, List.map_flatMap, List.map_map]
  rfl

theorem layered_refresh : layered (entries.map (PresetEntry.refresh rest state)) = (layered entries).map (PresetEntry.refresh rest state) :=
  List.filter_map

theorem groupFor_refresh : groupFor (entries.map (PresetEntry.refresh rest state)) (e.refresh rest state) =
    ⟨(groupFor entries e).bucket, (groupFor entries e).entries.map (PresetEntry.refresh rest state)⟩ := by
  rw [groupFor, layered_refresh, List.filter_map]
  rfl

/-- What moves a bucket is not read off the channels' values. -/
theorem movingLayer_refresh (g : BucketGroup) :
    movingLayer preset ⟨g.bucket, g.entries.map (PresetEntry.refresh rest state)⟩ = movingLayer preset g := by
  have found : (g.entries.map (PresetEntry.refresh rest state)).find? (fun e => e.outcome.value?.isSome) =
      (g.entries.find? fun e => e.outcome.value?.isSome).map (PresetEntry.refresh rest state) := List.find?_map
  unfold movingLayer
  rw [found]
  cases g.entries.find? fun e => e.outcome.value?.isSome with
  | none => rfl
  | some e => rfl

/-! ### Switches -/

variable {hasOverrides : HasOverrides} {before after : PresetApplyState} {channels : List PresetChannel} {uuid : String}

theorem mem_emptied : uuid ∈ emptied hasOverrides before after channels ↔
    ∃ c ∈ channels, uuid ∈ c.profileUuids ∧ hadOverrides hasOverrides before channels uuid = true ∧
      hasOverrides c.provider (overridesOf after uuid) = false := by
  simp [emptied]

theorem hadOverrides_refresh : hadOverrides hasOverrides before (channels.map (refresh rest state)) uuid = hadOverrides hasOverrides before channels uuid := by
  have found : (channels.map (refresh rest state)).reverse.find? (fun c => uuid ∈ c.profileUuids) =
      (channels.reverse.find? fun c => uuid ∈ c.profileUuids).map (refresh rest state) := by
    rw [← List.map_reverse]
    exact List.find?_map
  unfold hadOverrides
  rw [found]
  cases channels.reverse.find? fun c => uuid ∈ c.profileUuids with
  | none => rfl
  | some c => rfl

theorem foldl_switchOff (off : List String) (switches : String → Option Bool) (uuid : String) :
    off.foldl (fun switches uuid => Function.update switches uuid (some false)) switches uuid = if uuid ∈ off then some false else switches uuid := by
  induction off generalizing switches with
  | nil => rw [if_neg List.not_mem_nil]; rfl
  | cons first off ih =>
    rw [List.foldl_cons, ih]
    by_cases later : uuid ∈ off
    · rw [if_pos later, if_pos (List.mem_cons_of_mem first later)]
    · rw [if_neg later]
      by_cases here : uuid = first
      · rw [here, Function.update_self, if_pos List.mem_cons_self]
      · rw [Function.update_of_ne here, if_neg (List.not_mem_cons_of_ne_of_not_mem here later)]

/-- No override comes from a load. -/
theorem overrideAt_of_clearAll {overrides : Bags} {decisions : List Decision} {key : String} {value : JsValue}
    (held : overrideAt (clearAll overrides decisions) uuid key = some value) : overrideAt overrides uuid key = some value := by
  by_cases clears : ∃ d ∈ decisions, d.Clears uuid key
  · rw [overrideAt_clearAll_of_exists clears] at held
    cases held
  · rw [overrideAt_clearAll_of_forall fun d member this => clears ⟨d, member, this⟩] at held
    exact held

namespace GoLiveForm

variable {form : GoLiveForm D rest} {count : OverrideCount}

/-- The form after a load, with what its channels show by then. -/
def again (form : GoLiveForm D rest) (preset : PresetSheet) (count : OverrideCount) : GoLiveForm D rest where
  state := form.after preset count
  channels := form.channels.map (refresh rest (form.after preset count))
  known := by
    intro c member
    obtain ⟨c, there, rfl⟩ := List.mem_map.mp member
    exact form.known c there
  accounts := by
    rw [List.map_map]
    exact form.accounts
  resolved := by
    intro c member f carried
    obtain ⟨c, there, rfl⟩ := List.mem_map.mp member
    exact get_effectiveFields (D.keys _ (form.known c there)) (mem_carriableFields.mp carried).1

theorem entries_again : (form.again preset count).entries preset = (form.entries preset).map (PresetEntry.refresh rest (form.after preset count)) :=
  presetOutcomes_refresh ..

/-- What a channel was held at is what it shows. -/
theorem target_refresh (member : e ∈ form.entries preset) : target (e.refresh rest (form.after preset count)) = target e := by
  have shown : effectiveValue rest (form.after preset count) e.c e.field = _ := effective_after member
  have resolved := form.resolved _ (channel_mem member) _ (field_mem member)
  have now : (e.refresh rest (form.after preset count)).c.resolved.get e.field.key = effectiveValue rest (form.after preset count) e.c e.field :=
    get_effectiveFields (D.keys _ (provider_mem member)) (declared_mem member)
  unfold target
  change e.outcome.value?.getD ((e.refresh rest (form.after preset count)).c.resolved.get e.field.key) = _
  cases value : e.outcome.value? with
  | none =>
    -- Only what is kept is read off the channel, and that is what it shows still.
    rw [value, Option.getD_none, settle_effectiveValue] at shown
    rw [Option.getD_none, Option.getD_none, now, shown, resolved]
  | some v => rfl

theorem groupDecision_refresh {field : OAuthProviderField} {layer : JsValue} (key : field.key = e.field.key)
    (same : target (e.refresh rest state) = target e) :
    groupDecision field layer (e.refresh rest state) = (groupDecision field layer e).refresh rest state := by
  have same : (e.refresh rest state).outcome.value?.getD ((e.refresh rest state).c.resolved.get e.field.key) =
      e.outcome.value?.getD (e.c.resolved.get e.field.key) := same
  unfold groupDecision
  rw [key]
  dsimp only
  rw [same]
  rfl

/-- The decisions are the same for the same fields. -/
theorem decisionOf_again (member : e ∈ form.entries preset) :
    decisionOf preset ((form.again preset count).entries preset) (e.refresh rest (form.after preset count)) =
      (decisionOf preset (form.entries preset) e).map (Decision.refresh rest (form.after preset count)) := by
  rw [entries_again]
  unfold decisionOf
  rw [bucket_refresh, groupFor_refresh, movingLayer_refresh, unlayeredDecision_refresh]
  split
  next bucket =>
    rw [Option.map_map]
    refine Option.map_congr fun moving moves => ?_
    exact groupDecision_refresh (movingLayer_key plain (mem_layered.mpr ⟨member, bucket⟩) moves) (target_refresh member)
  next => rfl

theorem exists_of_mem_again {o : PresetEntry} (member : o ∈ (form.again preset count).entries preset) :
    ∃ e ∈ form.entries preset, o = e.refresh rest (form.after preset count) := by
  rw [entries_again] at member
  obtain ⟨e, there, same⟩ := List.mem_map.mp member
  exact ⟨e, there, same.symm⟩

/-- Each decision of the second load is one of the first. -/
theorem exists_of_mem_decisions {d : Decision} (member : d ∈ allDecisions preset ((form.again preset count).entries preset)) :
    ∃ e ∈ form.entries preset, ∃ d', decisionOf preset (form.entries preset) e = some d' ∧ d = d'.refresh rest (form.after preset count) := by
  obtain ⟨o, listed, decided⟩ := (mem_allDecisions plain).mp member
  obtain ⟨e, there, rfl⟩ := exists_of_mem_again listed
  obtain ⟨d', decided, same⟩ := Option.map_eq_some_iff.mp ((decisionOf_again there).symm.trans decided)
  exact ⟨e, there, d', decided, same.symm⟩

theorem layerValues_again : ((form.again preset count).after preset count).layerValues = (form.after preset count).layerValues := by
  rw [layerValues_after]
  refine putAll_eq_self ?_
  intro w written
  obtain ⟨o, inside, moving, moves, rfl⟩ := (mem_layerWrites plain).mp written
  obtain ⟨listed, held⟩ := mem_layered.mp inside
  obtain ⟨e, member, rfl⟩ := exists_of_mem_again listed
  obtain ⟨bucket, here⟩ := Option.isSome_iff_exists.mp held
  rw [entries_again, groupFor_refresh, movingLayer_refresh] at moves
  rw [here]
  exact layer_of_moves (e := e) member here moves

theorem channelValues_again : ((form.again preset count).after preset count).channelValues = (form.after preset count).channelValues := by
  rw [channelValues_after]
  refine putAll_eq_self ?_
  intro w written
  obtain ⟨d, listed, rfl⟩ := List.mem_map.mp written
  obtain ⟨e, member, d', decided, rfl⟩ := exists_of_mem_decisions listed
  obtain ⟨channel, key, -⟩ := decisionOf_spec plain member decided
  have there : (form.after preset count).channelValues.At e.c.accountId e.field.key d'.value := own_of_decided member decided
  rw [← channel, ← key] at there
  exact there

/-- Of a key that is decided no stream of the channel has an override left. -/
theorem no_override_of_decided {d : Decision} (member : e ∈ form.entries preset) (decided : decisionOf preset (form.entries preset) e = some d)
    (touches : d.decided = true) (on : uuid ∈ e.c.profileUuids) : overrideAt (form.after preset count).streamOverrides uuid e.field.key = none := by
  obtain ⟨channel, key, -⟩ := decisionOf_spec plain member decided
  rw [streamOverrides_after]
  exact overrideAt_clearAll_of_exists ⟨d, (mem_allDecisions plain).mpr ⟨e, member, decided⟩, touches, channel ▸ on, key⟩

theorem streamOverrides_again : ((form.again preset count).after preset count).streamOverrides = (form.after preset count).streamOverrides := by
  rw [streamOverrides_after]
  refine clearAll_eq_self ?_
  intro d listed touches uuid on
  obtain ⟨e, member, d', decided, rfl⟩ := exists_of_mem_decisions listed
  obtain ⟨channel, key, -⟩ := decisionOf_spec plain member decided
  have on : uuid ∈ d'.channel.profileUuids := on
  rw [channel] at on
  have bare : overrideAt (form.after preset count).streamOverrides uuid e.field.key = none := no_override_of_decided member decided touches on
  rw [← key] at bare
  exact bare

theorem streamOverrideOn_after : (form.after preset count).streamOverrideOn = fun uuid =>
    if uuid ∈ emptied count.hasOverrides form.state (form.after preset count) form.channels then some false else form.state.streamOverrideOn uuid := by
  funext uuid
  refine Eq.trans ?_ (foldl_switchOff ..)
  unfold after load applyPresetTo
  dsimp only
  rw [state_loaded]
  rfl

/-- A switch that would go off has gone off. -/
theorem streamOverrideOn_again : ((form.again preset count).after preset count).streamOverrideOn = (form.after preset count).streamOverrideOn := by
  rw [streamOverrideOn_after]
  funext uuid
  split
  next off =>
    obtain ⟨c, listed, on, had, gone⟩ := mem_emptied.mp off
    obtain ⟨c, member, rfl⟩ := List.mem_map.mp listed
    have kept : overridesOf ((form.again preset count).after preset count) uuid = overridesOf (form.after preset count) uuid := by
      rw [overridesOf, streamOverrides_again, overridesOf]
    have had : hadOverrides count.hasOverrides (form.after preset count) form.channels uuid = true := hadOverrides_refresh.symm.trans had
    -- A stream with overrides after the load had them before it, so the first load saw the same.
    have before : hadOverrides count.hasOverrides form.state form.channels uuid = true := by
      unfold hadOverrides at had ⊢
      split at had
      next last found =>
        refine count.grows _ _ _ (fun key value held => ?_) had
        rw [overridesOf_apply, streamOverrides_after] at held
        rw [overridesOf_apply]
        exact overrideAt_of_clearAll held
      next => cases had
    rw [streamOverrideOn_after]
    exact (if_pos (mem_emptied.mpr ⟨c, member, on, before, kept ▸ gone⟩)).symm
  next => rfl

theorem after_again : (form.again preset count).after preset count = form.after preset count := by
  have layers : ((form.again preset count).after preset count).layerValues = (form.after preset count).layerValues := layerValues_again
  have own : ((form.again preset count).after preset count).channelValues = (form.after preset count).channelValues := channelValues_again
  have overrides : ((form.again preset count).after preset count).streamOverrides = (form.after preset count).streamOverrides := streamOverrides_again
  have switches : ((form.again preset count).after preset count).streamOverrideOn = (form.after preset count).streamOverrideOn :=
    streamOverrideOn_again
  cases first : form.after preset count
  cases second : (form.again preset count).after preset count
  rw [first, second] at layers own overrides switches
  cases layers
  cases own
  cases overrides
  cases switches
  rfl

/-! ### What a load comes to -/

/-- A channel that the stream is on has a field of this key, and the load sets or resets it. -/
def DecidedOn (form : GoLiveForm D rest) (preset : PresetSheet) (uuid key : String) : Prop :=
  ∃ c ∈ form.channels, uuid ∈ c.profileUuids ∧ ∃ f ∈ carriableFields c.provider,
    f.key = key ∧ (presetOutcome preset f c.provider.id (declaredBy D.providers)).value?.isSome = true

/-- The load shows what it decides, and nothing else of the form is another for it. -/
structure ShowsWhatItDecides (form : GoLiveForm D rest) (preset : PresetSheet) (count : OverrideCount) : Prop where
  held : ∀ c ∈ form.channels, ∀ f ∈ carriableFields c.provider, ∀ held, presetValueOf preset f c.provider.id = some held →
    effectiveValue rest (form.after preset count) c f = held.value
  reset : ∀ c ∈ form.channels, ∀ f ∈ carriableFields c.provider, presetValueOf preset f c.provider.id = none →
    mayReset preset f c.provider.id (declaredBy D.providers) = true →
    effectiveValue rest (form.after preset count) c f = settle rest f (resetValue f)
  kept : ∀ c ∈ form.channels, ∀ f ∈ carriableFields c.provider, presetValueOf preset f c.provider.id = none →
    mayReset preset f c.provider.id (declaredBy D.providers) = false →
    effectiveValue rest (form.after preset count) c f = effectiveValue rest form.state c f
  safety : ∀ c ∈ form.channels, ∀ f ∈ carriableFields c.provider, f.safety = true → presetValueOf preset f c.provider.id = none →
    effectiveValue rest (form.after preset count) c f = effectiveValue rest form.state c f
  destination : ∀ c ∈ form.channels, ∀ f ∈ c.provider.fields, isPerDestination f = true →
    (form.after preset count).channelValues.get c.accountId f.key = form.state.channelValues.get c.accountId f.key
  address : ∀ c ∈ form.channels, ∀ f ∈ c.provider.fields, isPerDestination f = true → ∀ uuid,
    (∀ other ∈ form.channels, uuid ∈ other.profileUuids → other.provider = c.provider) →
    overrideAt (form.after preset count).streamOverrides uuid f.key = overrideAt form.state.streamOverrides uuid f.key
  undecided : ∀ uuid key, ¬ form.DecidedOn preset uuid key →
    overrideAt (form.after preset count).streamOverrides uuid key = overrideAt form.state.streamOverrides uuid key
  decided : ∀ uuid key, form.DecidedOn preset uuid key → overrideAt (form.after preset count).streamOverrides uuid key = none
  again : (form.again preset count).after preset count = form.after preset count

variable {c : PresetChannel} {f : OAuthProviderField}

section

variable (member : c ∈ form.channels)
include member

section

variable (carried : f ∈ carriableFields c.provider)
include carried

theorem entry_mem :
    (⟨c, f, presetOutcome preset f c.provider.id (declaredBy D.providers)⟩ : PresetEntry) ∈ form.entries preset :=
  mem_presetOutcomes.mpr ⟨member, carried, rfl⟩

/-- What a channel shows of a field, by the field's outcome. -/
theorem shown_after :
    effectiveValue rest (form.after preset count) c f =
      settle rest f ((presetOutcome preset f c.provider.id (declaredBy D.providers)).value?.getD (effectiveValue rest form.state c f)) :=
  effective_after (entry_mem member carried)

theorem shown_of_held {held : PresetFieldValue}
    (holds : presetValueOf preset f c.provider.id = some held) : effectiveValue rest (form.after preset count) c f = held.value := by
  rw [shown_after member carried, presetOutcome, holds]
  exact settle_of_stated (stated_of_presetValueOf holds)

theorem shown_of_reset
    (silent : presetValueOf preset f c.provider.id = none) (may : mayReset preset f c.provider.id (declaredBy D.providers) = true) :
    effectiveValue rest (form.after preset count) c f = settle rest f (resetValue f) := by
  rw [shown_after member carried, presetOutcome, silent, may]
  rfl

theorem shown_of_kept
    (silent : presetValueOf preset f c.provider.id = none) (mayNot : mayReset preset f c.provider.id (declaredBy D.providers) = false) :
    effectiveValue rest (form.after preset count) c f = effectiveValue rest form.state c f := by
  rw [shown_after member carried, presetOutcome, silent, mayNot]
  exact settle_effectiveValue

end

end

/-- A decision that touches a key is an outcome that does. -/
theorem decision_of_touched (member : e ∈ form.entries preset) (touched : e.outcome.value?.isSome = true) :
    ∃ d, decisionOf preset (form.entries preset) e = some d ∧ d.decided = true := by
  unfold decisionOf
  split
  next bucket =>
    cases moves : movingLayer preset (groupFor (form.entries preset) e) with
    | none =>
      have keeps := keeps_of_movingLayer moves e (mem_entries_groupFor.mpr ⟨mem_layered.mpr ⟨member, bucket⟩, rfl⟩)
      rw [keeps] at touched
      cases touched
    | some moving => exact ⟨_, rfl, touched⟩
  next bare =>
    obtain ⟨v, value⟩ := Option.isSome_iff_exists.mp touched
    rw [unlayeredDecision, Option.not_isSome_iff_eq_none.mp bare, value]
    exact ⟨_, rfl, rfl⟩

theorem override_of_decided {key : String} (decided : form.DecidedOn preset uuid key) :
    overrideAt (form.after preset count).streamOverrides uuid key = none := by
  obtain ⟨c, member, on, f, carried, rfl, touched⟩ := decided
  have listed : (⟨c, f, _⟩ : PresetEntry) ∈ form.entries preset := entry_mem member carried
  obtain ⟨d, decision, touches⟩ := decision_of_touched listed touched
  exact no_override_of_decided listed decision touches on

theorem override_of_undecided {key : String} (undecided : ¬ form.DecidedOn preset uuid key) :
    overrideAt (form.after preset count).streamOverrides uuid key = overrideAt form.state.streamOverrides uuid key := by
  rw [streamOverrides_after]
  refine overrideAt_clearAll_of_forall ?_
  rintro d listed ⟨touches, on, same⟩
  obtain ⟨e, member, decision⟩ := (mem_allDecisions plain).mp listed
  obtain ⟨channel, key, decided⟩ := decisionOf_spec plain member decision
  refine undecided ⟨e.c, channel_mem member, channel ▸ on, e.field, field_mem member, key.symm.trans same, ?_⟩
  rw [← outcome_eq member, ← decided, touches]

/-- No entry is one of a field that addresses a destination. -/
theorem own_of_perDestination (member : c ∈ form.channels) (declared : f ∈ c.provider.fields) (addresses : isPerDestination f = true) :
    (form.after preset count).channelValues.get c.accountId f.key = form.state.channelValues.get c.accountId f.key := by
  refine own_of_undecided fun e listed account key => ?_
  have channel : e.c = c := List.inj_on_of_nodup_map form.accounts (channel_mem listed) member account
  have same : e.field = f := List.inj_on_of_nodup_map (D.keys _ (form.known c member)) (channel ▸ declared_mem listed) declared key
  have carried := (mem_carriableFields.mp (field_mem listed)).2
  rw [same, addresses] at carried
  cases carried

theorem undecided_of_perDestination (member : c ∈ form.channels) (declared : f ∈ c.provider.fields) (addresses : isPerDestination f = true)
    (alike : ∀ other ∈ form.channels, uuid ∈ other.profileUuids → other.provider = c.provider) : ¬ form.DecidedOn preset uuid f.key := by
  rintro ⟨other, listed, on, g, carried, key, -⟩
  rw [alike other listed on] at carried
  obtain ⟨declared', carried⟩ := mem_carriableFields.mp carried
  rw [List.inj_on_of_nodup_map (D.keys _ (form.known c member)) declared' declared key, addresses] at carried
  cases carried

theorem load_shows_what_it_decides (form : GoLiveForm D rest) (preset : PresetSheet) (count : OverrideCount) :
    form.ShowsWhatItDecides preset count where
  held _ member _ carried _ holds := shown_of_held member carried holds
  reset _ member _ carried silent may := shown_of_reset member carried silent may
  kept _ member _ carried silent mayNot := shown_of_kept member carried silent mayNot
  safety _ member _ carried safe silent := shown_of_kept member carried silent (by rw [mayReset, safe]; rfl)
  destination _ member _ declared addresses := own_of_perDestination member declared addresses
  address _ member _ declared addresses _ alike := override_of_undecided (undecided_of_perDestination member declared addresses alike)
  undecided _ _ undecided := override_of_undecided undecided
  decided _ _ decided := override_of_decided decided
  again := after_again

end GoLiveForm

end Braidcast.Multistream
