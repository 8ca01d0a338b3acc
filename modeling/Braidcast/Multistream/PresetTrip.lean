import Braidcast.Multistream.PresetSaved

/-!
# Saving and loading

A sheet that is saved from the armed channels of the form and loaded into the form again.
-/
namespace Braidcast.Multistream

open Lib

/-! ### Agreement -/

variable {type : String} {values : List JsValue} {v w : JsValue}

theorem mem_of_agreedValue (agreed : agreedValue type values = some v) : v ∈ values := by
  unfold agreedValue at agreed
  split at agreed
  · cases agreed
  · split at agreed
    · rw [← Option.some.inj agreed]
      exact List.mem_cons_self
    · cases agreed

theorem valuesEqual_of_agreedValue (agreed : agreedValue type values = some v) (member : w ∈ values) : valuesEqual type v w = true := by
  unfold agreedValue at agreed
  split at agreed
  · cases agreed
  next first others =>
    split at agreed
    next same =>
      rw [← Option.some.inj agreed]
      rcases List.mem_cons.mp member with rfl | other
      · exact valuesEqual_refl type w
      · exact List.all_eq_true.mp same w other
    next => cases agreed

theorem sameShown_of_stated (stated : isEmptyVal type v = false) (stated' : isEmptyVal type w = false) : sameShown type v w = valuesEqual type v w := by
  rw [sameShown, stated, stated']
  rfl

/-! ### The form's own sheet -/

variable {D : MarkedDescriptors} {rest : Resting} {count : OverrideCount} {c : PresetChannel} {f : OAuthProviderField}

namespace GoLiveForm

/-- `presetSources`: the armed channels with what they show. -/
def armed (form : GoLiveForm D.toDescriptors rest) : ArmedSources D where
  sources := (form.channels.filter PresetChannel.armed).map fun c => ⟨c.provider, c.resolved⟩
  known := by
    intro s member
    obtain ⟨c, listed, rfl⟩ := List.mem_map.mp member
    exact form.known c (List.mem_filter.mp listed).1

variable {form : GoLiveForm D.toDescriptors rest}

theorem arms (member : c ∈ form.channels) (isArmed : c.armed = true) : form.armed.Arms c.provider :=
  ⟨_, List.mem_map_of_mem (List.mem_filter.mpr ⟨member, isArmed⟩), rfl⟩

/-- The values of a provider are what its armed channels show. -/
theorem mem_stated {p : OAuthProvider} (listed : p ∈ D.providers) (carried : f ∈ carriableFields p) : v ∈ form.armed.stated p f ↔
    ∃ c ∈ form.channels, c.armed = true ∧ c.provider = p ∧ effectiveValue rest form.state c f = v ∧ isEmptyVal f.type v = false := by
  unfold ArmedSources.stated statedIn sourcesOf armed
  simp only [List.mem_filter, List.mem_map, decide_eq_true_eq, Bool.not_eq_true']
  constructor
  · rintro ⟨⟨s, ⟨⟨c, ⟨member, isArmed⟩, rfl⟩, id⟩, rfl⟩, stated⟩
    have provider : c.provider = p := List.inj_on_of_nodup_map D.ids (form.known c member) listed id
    exact ⟨c, member, isArmed, provider, (form.resolved c member f (provider ▸ carried)).symm, stated⟩
  · rintro ⟨c, member, isArmed, rfl, rfl, stated⟩
    exact ⟨⟨_, ⟨⟨c, ⟨member, isArmed⟩, rfl⟩, rfl⟩, form.resolved c member f carried⟩, stated⟩

section

variable (member : c ∈ form.channels)
include member

/-- What an armed channel shows once the sheet saved from the form is loaded: what its provider's channels agreed on, or
where they have no one value, the reset value of a field that can be cleared. -/
theorem shown_after_save (isArmed : c.armed = true) (carried : f ∈ carriableFields c.provider) :
    effectiveValue rest (form.after form.armed.sheet count) c f =
      (agreedValue f.type (form.armed.stated c.provider f)).getD
        (if f.clearable && !f.safety then settle rest f (resetValue f) else effectiveValue rest form.state c f) := by
  have value := value_of_saved (arms member isArmed) carried
  have may := mayReset_saved (arms member isArmed) carried
  cases holds : presetValueOf form.armed.sheet f c.provider.id with
  | some held =>
    rw [holds] at value
    rw [← value, shown_of_held member carried holds]
    rfl
  | none =>
    rw [holds] at value
    rw [← value, Option.map_none, Option.getD_none]
    -- the sheet holds nothing for the field: whether it is reset depends on the field alone
    cases clears : f.clearable && !f.safety with
    | true => exact shown_of_reset member carried holds (may.trans clears)
    | false => exact shown_of_kept member carried holds (may.trans clears)

/-- The form's armed channels after the form's own sheet is loaded into it. -/
structure KeptByOwnSave (form : GoLiveForm D.toDescriptors rest) (count : OverrideCount) : Prop where
  shown : ∀ c ∈ form.channels, c.armed = true → ∀ f ∈ carriableFields c.provider, ∀ v,
    agreedValue f.type (form.armed.stated c.provider f) = some v → isEmptyVal f.type (effectiveValue rest form.state c f) = false →
    sameShown f.type (effectiveValue rest (form.after form.armed.sheet count) c f) (effectiveValue rest form.state c f) = true
  taken : ∀ c ∈ form.channels, c.armed = true → ∀ f ∈ carriableFields c.provider, ∀ v,
    agreedValue f.type (form.armed.stated c.provider f) = some v → isEmptyVal f.type (effectiveValue rest form.state c f) = true →
    effectiveValue rest (form.after form.armed.sheet count) c f = v ∧
      ∃ other ∈ form.channels, other.armed = true ∧ other.provider = c.provider ∧ effectiveValue rest form.state other f = v
  unset : ∀ c ∈ form.channels, c.armed = true → ∀ f ∈ carriableFields c.provider,
    (∀ other ∈ form.channels, other.armed = true → other.provider = c.provider → isEmptyVal f.type (effectiveValue rest form.state other f) = true) →
    effectiveValue rest (form.after form.armed.sheet count) c f =
      if f.clearable && !f.safety then settle rest f (resetValue f) else effectiveValue rest form.state c f

theorem shown_of_agreed (isArmed : c.armed = true) (carried : f ∈ carriableFields c.provider)
    (agreed : agreedValue f.type (form.armed.stated c.provider f) = some v) (stated : isEmptyVal f.type (effectiveValue rest form.state c f) = false) :
    sameShown f.type (effectiveValue rest (form.after form.armed.sheet count) c f) (effectiveValue rest form.state c f) = true := by
  have listed := form.known c member
  -- the channel is one of those that agreed
  have own : effectiveValue rest form.state c f ∈ form.armed.stated c.provider f :=
    (mem_stated listed carried).mpr ⟨c, member, isArmed, rfl, rfl, stated⟩
  obtain ⟨_, _, _, _, _, stated'⟩ := (mem_stated listed carried).mp (mem_of_agreedValue agreed)
  rw [shown_after_save member isArmed carried, agreed, Option.getD_some, sameShown_of_stated stated' stated]
  exact valuesEqual_of_agreedValue agreed own

theorem taken_of_agreed (isArmed : c.armed = true) (carried : f ∈ carriableFields c.provider)
    (agreed : agreedValue f.type (form.armed.stated c.provider f) = some v) :
    effectiveValue rest (form.after form.armed.sheet count) c f = v ∧
      ∃ other ∈ form.channels, other.armed = true ∧ other.provider = c.provider ∧ effectiveValue rest form.state other f = v := by
  obtain ⟨other, there, isArmed', provider, shows_, -⟩ := (mem_stated (form.known c member) carried).mp (mem_of_agreedValue agreed)
  refine ⟨?_, other, there, isArmed', provider, shows_⟩
  rw [shown_after_save member isArmed carried, agreed, Option.getD_some]

theorem shown_of_unset (isArmed : c.armed = true) (carried : f ∈ carriableFields c.provider)
    (unset : ∀ other ∈ form.channels, other.armed = true → other.provider = c.provider → isEmptyVal f.type (effectiveValue rest form.state other f) = true) :
    effectiveValue rest (form.after form.armed.sheet count) c f =
      if f.clearable && !f.safety then settle rest f (resetValue f) else effectiveValue rest form.state c f := by
  -- no channel states a value, so there is none to agree on
  have none : form.armed.stated c.provider f = [] := by
    refine List.eq_nil_iff_forall_not_mem.mpr fun v listed => ?_
    obtain ⟨other, there, isArmed', provider, rfl, stated⟩ := (mem_stated (form.known c member) carried).mp listed
    rw [unset other there isArmed' provider] at stated
    cases stated
  rw [shown_after_save member isArmed carried, none]
  rfl

end

end GoLiveForm

/-- Each armed provider is handed back what its channels agreed on, field by field, and nothing else. -/
def ArmedSources.HandsBack (a : ArmedSources D) : Prop :=
  ∀ p, a.Arms p → (presetValuesFor a.sheet p).map (fun held => (held.field, held.value)) =
    (carriableFields p).filterMap fun f => (agreedValue f.type (a.stated p f)).map fun v => (f, v)

/-! ### Two channels of one provider -/

namespace TwoChannels

def title : OAuthProviderField := { key := "title", label := "Title", type := "text", scope := some "all" }

def tags : OAuthProviderField := { key := "tags", label := "Tags", type := "tags", scope := some "provider", clearable := true }

def description : OAuthProviderField :=
  { key := "description", label := "Description", type := "textarea", scope := some "all", clearable := true }

def youtube : OAuthProvider := { id := "youtube", displayName := "YouTube", fields := [title, tags, description] }

def youtubeAlone : MarkedDescriptors where
  providers := [youtube]
  ids := by decide
  keys := by decide
  plain := by decide
  freeText := by decide
  unmarked := by decide

/-- Nothing is shown of a field that no layer holds. -/
abbrev unset : Resting := fun _ => .undefined

/-- Each of the two channels has a description of its own, and neither of them has tags. -/
def twoDescriptions : PresetApplyState where
  layerValues _ := none
  channelValues account :=
    if account = "youtube:1" then some (Function.update emptyBag "description" (some (.str "One")))
    else if account = "youtube:2" then some (Function.update emptyBag "description" (some (.str "Two")))
    else none
  streamOverrides _ := none
  streamOverrideOn _ := none

def channelOf (accountId : String) : PresetChannel := refresh unset twoDescriptions ⟨youtube, accountId, [], true, emptyBag⟩

def twoChannels : GoLiveForm youtubeAlone.toDescriptors unset where
  state := twoDescriptions
  channels := [channelOf "youtube:1", channelOf "youtube:2"]
  known := by simp [channelOf, refresh, youtubeAlone]
  accounts := by decide
  resolved := by
    intro c member f carried
    obtain ⟨account, rfl⟩ : ∃ account, c = channelOf account := by
      rcases List.mem_pair.mp member with rfl | rfl
      · exact ⟨_, rfl⟩
      · exact ⟨_, rfl⟩
    exact get_effectiveFields (youtubeAlone.keys youtube List.mem_cons_self) (mem_carriableFields.mp carried).1

def noOverrides : OverrideCount := ⟨fun _ _ => false, fun _ _ _ _ none => none⟩

end TwoChannels

end Braidcast.Multistream
