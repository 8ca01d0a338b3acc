import Braidcast.Multistream.PresetLoad
import Braidcast.Lib.Prefixed

/-!
# What a load writes

Every write of a load is one of a list of decisions or of layers. No two of them are at one place, so each is what
is read there afterwards.
-/
namespace Braidcast.Multistream

open Lib

/-! ### Bags -/

variable {bags : Bags} {outer key : String} {value : JsValue}

/-- The value stands there as it was put. -/
def Bags.At (bags : Bags) (outer key : String) (value : JsValue) : Prop := ∃ bag, bags outer = some bag ∧ bag key = entryOf value

theorem entryOf_getD (value : JsValue) : (entryOf value).getD .undefined = value := by
  cases value <;> rfl

theorem Bags.At.get (there : bags.At outer key value) : bags.get outer key = value := by
  obtain ⟨bag, found, entry⟩ := there
  rw [Bags.get, found, Option.getD_some, Bag.get, entry, entryOf_getD]

theorem at_putBagValue (bags : Bags) (outer key : String) (value : JsValue) : (putBagValue bags outer key value).At outer key value :=
  ⟨_, Function.update_self .., Function.update_self ..⟩

/-- Another place keeps what it has, and so does the same one where the value is the same. -/
theorem Bags.At.put {outer' key' : String} {value' : JsValue} (there : bags.At outer key value)
    (same : outer' = outer → key' = key → value' = value) : (putBagValue bags outer' key' value').At outer key value := by
  by_cases here : outer' = outer
  · subst here
    by_cases this : key' = key
    · subst this
      rw [same rfl rfl]
      exact at_putBagValue ..
    · obtain ⟨bag, found, entry⟩ := there
      refine ⟨_, Function.update_self .., ?_⟩
      rw [Function.update_of_ne (Ne.symm this), found]
      exact entry
  · obtain ⟨bag, found, entry⟩ := there
    exact ⟨bag, (Function.update_of_ne (Ne.symm here) ..).trans found, entry⟩

/-- Putting what is there changes nothing. -/
theorem Bags.At.put_eq (there : bags.At outer key value) : putBagValue bags outer key value = bags := by
  obtain ⟨bag, found, entry⟩ := there
  unfold putBagValue
  rw [found, Option.getD_some, ← entry, Function.update_eq_self, ← found, Function.update_eq_self]

theorem get_putBagValue_of_ne {outer' key' : String} (apart : ¬ (outer' = outer ∧ key' = key)) (value' : JsValue) :
    (putBagValue bags outer' key' value').get outer key = bags.get outer key := by
  unfold putBagValue Bags.get Bag.get
  by_cases here : outer' = outer
  · subst here
    rw [Function.update_self, Option.getD_some, Function.update_of_ne (fun this => apart ⟨rfl, this.symm⟩)]
  · rw [Function.update_of_ne (Ne.symm here)]

/-! ### Many writes -/

/-- A write into a bag. -/
structure BagWrite where
  outer : String
  key : String
  value : JsValue

def putAll (bags : Bags) (writes : List BagWrite) : Bags := writes.foldl (fun bags w => putBagValue bags w.outer w.key w.value) bags

variable {writes : List BagWrite}

theorem Bags.At.putAll (there : bags.At outer key value) (same : ∀ w ∈ writes, w.outer = outer → w.key = key → w.value = value) :
    (putAll bags writes).At outer key value := by
  induction writes generalizing bags with
  | nil => exact there
  | cons w writes ih =>
    exact ih (there.put (same w List.mem_cons_self)) fun other member => same other (List.mem_cons_of_mem w member)

/-- What is written to one place is one value, so it is what stands there. -/
theorem at_putAll {w : BagWrite} (member : w ∈ writes) (same : ∀ v ∈ writes, v.outer = w.outer → v.key = w.key → v.value = w.value) :
    (putAll bags writes).At w.outer w.key w.value := by
  induction writes generalizing bags with
  | nil => cases member
  | cons first writes ih =>
    have rest := fun v (later : v ∈ writes) => same v (List.mem_cons_of_mem first later)
    rcases List.mem_cons.mp member with rfl | later
    · exact (at_putBagValue ..).putAll rest
    · exact ih later rest

theorem get_putAll_of_not_mem (absent : ∀ w ∈ writes, ¬ (w.outer = outer ∧ w.key = key)) : (putAll bags writes).get outer key = bags.get outer key := by
  induction writes generalizing bags with
  | nil => rfl
  | cons w writes ih =>
    rw [putAll, List.foldl_cons, ← putAll, ih fun other later => absent other (List.mem_cons_of_mem w later)]
    exact get_putBagValue_of_ne (absent w List.mem_cons_self) _

theorem putAll_eq_self (there : ∀ w ∈ writes, bags.At w.outer w.key w.value) : putAll bags writes = bags := by
  induction writes with
  | nil => rfl
  | cons w writes ih =>
    rw [putAll, List.foldl_cons, (there w List.mem_cons_self).put_eq]
    exact ih fun other later => there other (List.mem_cons_of_mem w later)

end Braidcast.Multistream

/-!
## The plan of a load

A load makes its decisions one after another, bucket by bucket. Here they are one list, with one list of layers beside
it, and the state after a load is what they write.
-/
namespace Braidcast.Multistream

open Lib

/-! ### Slots -/

/-- A key holds no colon, so the last one is in front of it. -/
theorem slotKey_inj {scope scope' key key' : String} (plain : ':' ∉ key.toList) (plain' : ':' ∉ key'.toList)
    (same : slotKey scope key = slotKey scope' key') : scope = scope' ∧ key = key' := by
  have units : (scope.toList ++ [':', ':'] ++ key.toList).reverse = (scope'.toList ++ [':', ':'] ++ key'.toList).reverse := by
    have := congrArg (List.reverse ∘ String.toList) same
    simpa [slotKey] using this
  -- From the end the key comes first, up to the first colon.
  simp only [List.reverse_append, List.reverse_cons, List.reverse_nil, List.nil_append, List.cons_append] at units
  obtain ⟨keys, rest⟩ := append_cons_inj (by simpa using plain) (by simpa using plain') units
  have scopes := List.reverse_injective (List.cons.inj rest).2
  exact ⟨String.toList_injective scopes, String.toList_injective (List.reverse_injective keys)⟩

theorem providerLayer_inj {p q : String} (same : providerLayer p = providerLayer q) : p = q := by
  have := congrArg String.toList same
  rw [providerLayer, providerLayer, String.toList_append, String.toList_append] at this
  exact String.toList_injective (List.append_cancel_left this)

theorem providerLayer_ne_all (p : String) : providerLayer p ≠ ALL_LAYER := by
  intro same
  have := congrArg String.toList same
  rw [providerLayer, String.toList_append] at this
  cases (List.cons.inj this).1

/-- A field with the bucket of all is one that all take. -/
theorem inheritLayers_eq_all {field : OAuthProviderField} {p : String} (here : (inheritLayers field p).head? = some ALL_LAYER) :
    fieldScope field = .all := by
  unfold inheritLayers at here
  split at here
  · cases here
  · split at here
    next scope => exact scope
    next => exact absurd (Option.some.inj here) (providerLayer_ne_all p)
    next => cases here

/-- Every other bucket is its provider's. -/
theorem inheritLayers_eq_provider {field : OAuthProviderField} {p bucket : String} (here : (inheritLayers field p).head? = some bucket)
    (other : bucket ≠ ALL_LAYER) : bucket = providerLayer p := by
  unfold inheritLayers at here
  split at here
  · cases here
  · split at here
    next => exact absurd (Option.some.inj here).symm other
    next => exact (Option.some.inj here).symm
    next => cases here

/-! ### Stream overrides -/

variable {overrides : Bags} {uuid key : String}

/-- What a stream has under a key. -/
def overrideAt (overrides : Bags) (uuid key : String) : Option JsValue := (overrides uuid).bind fun bag => bag key

theorem overridesOf_apply (state : PresetApplyState) (uuid key : String) : overridesOf state uuid key = overrideAt state.streamOverrides uuid key := by
  unfold overridesOf overrideAt
  cases state.streamOverrides uuid <;> rfl

/-- Nothing there to clear. -/
theorem clearOverride_eq_self (bare : overrideAt overrides uuid key = none) : clearOverride key overrides uuid = overrides := by
  unfold clearOverride
  cases found : overrides uuid with
  | none => rfl
  | some bag =>
    rw [overrideAt, found, Option.bind_some] at bare
    exact if_neg (by rw [bare]; decide)

theorem clearOverride_of_ne_none (held : overrideAt overrides uuid key ≠ none) :
    clearOverride key overrides uuid = putBagValue overrides uuid key .undefined := by
  unfold clearOverride
  cases found : overrides uuid with
  | none => exact absurd (by rw [overrideAt, found, Option.bind_none]) held
  | some bag =>
    rw [overrideAt, found, Option.bind_some] at held
    exact if_pos (Option.isSome_iff_ne_none.mpr held)

theorem overrideAt_clearOverride (key : String) (overrides : Bags) (uuid u k : String) :
    overrideAt (clearOverride key overrides uuid) u k = if u = uuid ∧ k = key then none else overrideAt overrides u k := by
  by_cases bare : overrideAt overrides uuid key = none
  · rw [clearOverride_eq_self bare]
    split
    next here => rw [here.1, here.2, bare]
    next => rfl
  · rw [clearOverride_of_ne_none bare]
    unfold overrideAt putBagValue
    by_cases there : u = uuid
    · subst there
      rw [Function.update_self, Option.bind_some]
      by_cases this : k = key
      · rw [this, Function.update_self, if_pos ⟨rfl, rfl⟩]
        rfl
      · rw [Function.update_of_ne this, if_neg fun here => this here.2]
        cases overrides u <;> rfl
    · rw [Function.update_of_ne there, if_neg fun here => there here.1]

theorem overrideAt_foldl_clearOverride (key : String) (overrides : Bags) (uuids : List String) (u k : String) :
    overrideAt (uuids.foldl (clearOverride key) overrides) u k = if u ∈ uuids ∧ k = key then none else overrideAt overrides u k := by
  induction uuids generalizing overrides with
  | nil => rw [List.foldl_nil, if_neg (by simp)]
  | cons uuid uuids ih =>
    rw [List.foldl_cons, ih, overrideAt_clearOverride]
    by_cases this : k = key
    · by_cases first : u = uuid <;> by_cases later : u ∈ uuids <;> simp [this, first, later]
    · simp [this]

theorem foldl_clearOverride_eq_self {uuids : List String} (bare : ∀ uuid ∈ uuids, overrideAt overrides uuid key = none) :
    uuids.foldl (clearOverride key) overrides = overrides := by
  induction uuids with
  | nil => rfl
  | cons uuid uuids ih =>
    rw [List.foldl_cons, clearOverride_eq_self (bare uuid List.mem_cons_self)]
    exact ih fun other later => bare other (List.mem_cons_of_mem uuid later)

/-! ### Decisions -/

variable {d : Decision} {decisions : List Decision}

def Decision.write (d : Decision) : BagWrite := ⟨d.channel.accountId, d.key, d.value⟩

/-- The override goes with this decision. -/
def Decision.Clears (d : Decision) (uuid key : String) : Prop := d.decided = true ∧ uuid ∈ d.channel.profileUuids ∧ d.key = key

/-- What one decision leaves of the overrides. -/
def clearFor (overrides : Bags) (d : Decision) : Bags :=
  if d.decided then d.channel.profileUuids.foldl (clearOverride d.key) overrides else overrides

def clearAll (overrides : Bags) (decisions : List Decision) : Bags := decisions.foldl clearFor overrides

theorem overrideAt_clearFor_of_clears (clears : d.Clears uuid key) : overrideAt (clearFor overrides d) uuid key = none := by
  obtain ⟨decided, on, same⟩ := clears
  rw [clearFor, if_pos decided, overrideAt_foldl_clearOverride, if_pos ⟨on, same.symm⟩]

theorem overrideAt_clearFor_of_not_clears (stays : ¬ d.Clears uuid key) :
    overrideAt (clearFor overrides d) uuid key = overrideAt overrides uuid key := by
  unfold clearFor
  split
  next decided => rw [overrideAt_foldl_clearOverride, if_neg fun here => stays ⟨decided, here.1, here.2.symm⟩]
  next => rfl

theorem overrideAt_clearAll_of_forall (stays : ∀ d ∈ decisions, ¬ d.Clears uuid key) :
    overrideAt (clearAll overrides decisions) uuid key = overrideAt overrides uuid key := by
  induction decisions generalizing overrides with
  | nil => rfl
  | cons d decisions ih =>
    rw [clearAll, List.foldl_cons, ← clearAll, ih fun other later => stays other (List.mem_cons_of_mem d later)]
    exact overrideAt_clearFor_of_not_clears (stays d List.mem_cons_self)

/-- Nothing brings an override back. -/
theorem overrideAt_clearAll_of_none (bare : overrideAt overrides uuid key = none) : overrideAt (clearAll overrides decisions) uuid key = none := by
  induction decisions generalizing overrides with
  | nil => exact bare
  | cons d decisions ih =>
    by_cases clears : d.Clears uuid key
    · exact ih (overrideAt_clearFor_of_clears clears)
    · exact ih ((overrideAt_clearFor_of_not_clears clears).trans bare)

theorem overrideAt_clearAll_of_exists (clears : ∃ d ∈ decisions, d.Clears uuid key) : overrideAt (clearAll overrides decisions) uuid key = none := by
  induction decisions generalizing overrides with
  | nil => simp at clears
  | cons d decisions ih =>
    obtain ⟨other, member, clears⟩ := clears
    rw [clearAll, List.foldl_cons, ← clearAll]
    rcases List.mem_cons.mp member with rfl | later
    · exact overrideAt_clearAll_of_none (overrideAt_clearFor_of_clears clears)
    · exact ih ⟨other, later, clears⟩

theorem clearAll_eq_self (bare : ∀ d ∈ decisions, d.decided = true → ∀ uuid ∈ d.channel.profileUuids, overrideAt overrides uuid d.key = none) :
    clearAll overrides decisions = overrides := by
  induction decisions with
  | nil => rfl
  | cons d decisions ih =>
    have first : clearFor overrides d = overrides := by
      unfold clearFor
      split
      next decided => exact foldl_clearOverride_eq_self (bare d List.mem_cons_self decided)
      next => rfl
    rw [clearAll, List.foldl_cons, first]
    exact ih fun other later => bare other (List.mem_cons_of_mem d later)

theorem state_decide (l : Loading) (d : Decision) :
    (l.decide d).state =
      { l.state with
        channelValues := putBagValue l.state.channelValues d.channel.accountId d.key d.value
        streamOverrides := clearFor l.state.streamOverrides d } := by
  unfold Loading.decide clearFor
  split
  · rfl
  · rfl

/-- The decisions write beside the layers. -/
theorem state_foldl_decide (l : Loading) (decisions : List Decision) :
    (decisions.foldl Loading.decide l).state =
      { l.state with
        channelValues := putAll l.state.channelValues (decisions.map Decision.write)
        streamOverrides := clearAll l.state.streamOverrides decisions } := by
  induction decisions generalizing l with
  | nil => rfl
  | cons d decisions ih =>
    rw [List.foldl_cons, ih, state_decide]
    rfl

/-! ### Buckets -/

variable {preset : PresetSheet} {entries : List PresetEntry} {e : PresetEntry} {g : BucketGroup} {place : String}

def PresetEntry.slot (e : PresetEntry) : String := slotKey (e.bucket.getD "") e.field.key

/-- One more entry for a bucket. -/
def addEntry (there : Option BucketGroup) (e : PresetEntry) : BucketGroup :=
  ⟨(there.map BucketGroup.bucket).getD (e.bucket.getD ""), (there.map BucketGroup.entries).getD [] ++ [e]⟩

/-- The entries that have a bucket. -/
def layered (entries : List PresetEntry) : List PresetEntry := entries.filter fun e => e.bucket.isSome

def groupsOf (entries : List PresetEntry) : List (String × BucketGroup) := gather PresetEntry.slot addEntry [] (layered entries)

/-- All that share the bucket and the key of an entry. -/
def groupFor (entries : List PresetEntry) (e : PresetEntry) : BucketGroup :=
  ⟨e.bucket.getD "", (layered entries).filter fun o => o.slot = e.slot⟩

theorem foldl_loadEntry (l : Loading) (m : List (String × BucketGroup)) (entries : List PresetEntry) :
    entries.foldl loadEntry (l, m) =
      ((entries.filterMap unlayeredDecision).foldl Loading.decide l, gather PresetEntry.slot addEntry m (layered entries)) := by
  induction entries generalizing l m with
  | nil => rfl
  | cons e entries ih =>
    rw [List.foldl_cons, loadEntry]
    cases here : e.bucket with
    | none =>
      rw [layered, List.filter_cons_of_neg (by simp [here]), ← layered, List.filterMap_cons]
      cases unlayeredDecision e with
      | none => exact ih l m
      | some d => exact ih (l.decide d) m
    | some bucket =>
      -- Nothing is decided yet: the entry waits with the others of its bucket.
      have undecided : unlayeredDecision e = none := by rw [unlayeredDecision, here]
      rw [layered, List.filter_cons_of_pos (by simp [here]), ← layered, List.filterMap_cons_none undecided, gather, List.foldl_cons, ← gather]
      refine (ih l _).trans ?_
      rw [PresetEntry.slot, here, Option.getD_some]
      unfold addEntry
      rw [here, Option.getD_some]

theorem foldl_addEntry (g : BucketGroup) (es : List PresetEntry) :
    es.foldl (fun there e => some (addEntry there e)) (some g) = some ⟨g.bucket, g.entries ++ es⟩ := by
  induction es generalizing g with
  | nil => rw [List.foldl_nil, List.append_nil]
  | cons e es ih =>
    rw [List.foldl_cons, ih, addEntry, Option.map_some, Option.map_some, Option.getD_some, Option.getD_some, List.append_assoc]
    rfl

theorem mem_layered : e ∈ layered entries ↔ e ∈ entries ∧ e.bucket.isSome = true := List.mem_filter

theorem mem_entries_groupFor {o : PresetEntry} : o ∈ (groupFor entries e).entries ↔ o ∈ layered entries ∧ o.slot = e.slot := by
  simp [groupFor]

/-- The first entry of a slot names its bucket. -/
theorem exists_of_mem_groupsOf (member : (place, g) ∈ groupsOf entries) :
    ∃ e ∈ layered entries, place = e.slot ∧ g = groupFor entries e := by
  have found := (lookup_eq_some_iff_mem (nodup_keys_gather (m := []) List.nodup_nil)).mpr member
  rw [lookup_gather, List.lookup_nil] at found
  cases here : (layered entries).filter (fun e => e.slot = place) with
  | nil => rw [here] at found; cases found
  | cons e es =>
    have first : e ∈ (layered entries).filter fun e => e.slot = place := here ▸ List.mem_cons_self
    obtain ⟨member, same⟩ := List.mem_filter.mp first
    have same := of_decide_eq_true same
    rw [here, List.foldl_cons, foldl_addEntry] at found
    refine ⟨e, member, same.symm, ?_⟩
    rw [groupFor, same, here, ← Option.some.inj found]
    rfl

section Plain

variable (plain : ∀ e ∈ entries, ':' ∉ e.field.key.toList)

include plain

/-- What shares a slot shares the bucket and the key. -/
theorem same_of_slot {o : PresetEntry} (member : e ∈ layered entries) (member' : o ∈ layered entries) (same : o.slot = e.slot) :
    o.bucket = e.bucket ∧ o.field.key = e.field.key := by
  obtain ⟨this, held⟩ := mem_layered.mp member
  obtain ⟨that, held'⟩ := mem_layered.mp member'
  obtain ⟨buckets, keys⟩ := slotKey_inj (plain o that) (plain e this) same
  obtain ⟨b, bucket⟩ := Option.isSome_iff_exists.mp held
  obtain ⟨b', bucket'⟩ := Option.isSome_iff_exists.mp held'
  rw [bucket, bucket', Option.getD_some, Option.getD_some] at buckets
  exact ⟨by rw [bucket, bucket', buckets], keys⟩

theorem groupFor_eq {o : PresetEntry} (member : e ∈ layered entries) (member' : o ∈ layered entries) (same : o.slot = e.slot) :
    groupFor entries o = groupFor entries e := by
  rw [groupFor, groupFor, same, (same_of_slot plain member member' same).1]

theorem mem_groupsOf_of_mem (member : e ∈ layered entries) : (e.slot, groupFor entries e) ∈ groupsOf entries := by
  have inside : e ∈ (layered entries).filter fun o => o.slot = e.slot := List.mem_filter.mpr ⟨member, decide_eq_true rfl⟩
  have present : (groupsOf entries).lookup e.slot ≠ none := by
    rw [groupsOf, lookup_gather, List.lookup_nil]
    cases here : (layered entries).filter fun o => o.slot = e.slot with
    | nil => rw [here] at inside; cases inside
    | cons o os => rw [List.foldl_cons, foldl_addEntry]; simp
  obtain ⟨g, found⟩ := Option.ne_none_iff_exists'.mp present
  have listed := (lookup_eq_some_iff_mem (nodup_keys_gather (m := []) List.nodup_nil)).mp found
  obtain ⟨o, member', same, rfl⟩ := exists_of_mem_groupsOf listed
  rw [← groupFor_eq plain member member' same.symm]
  exact listed

end Plain

/-! ### The plan -/

/-- What a bucket decides for the channels that read it. -/
def groupDecisions (preset : PresetSheet) (g : BucketGroup) : List Decision :=
  match movingLayer preset g with
  | none => []
  | some (field, layer) => g.entries.map (groupDecision field layer)

def layerWrite (preset : PresetSheet) (g : BucketGroup) : Option BagWrite :=
  (movingLayer preset g).map fun moving => ⟨g.bucket, moving.1.key, moving.2⟩

def allDecisions (preset : PresetSheet) (entries : List PresetEntry) : List Decision :=
  entries.filterMap unlayeredDecision ++ (groupsOf entries).flatMap fun slotted => groupDecisions preset slotted.2

def layerWrites (preset : PresetSheet) (entries : List PresetEntry) : List BagWrite :=
  (groupsOf entries).filterMap fun slotted => layerWrite preset slotted.2

/-- What a load decides for one field of one channel. -/
def decisionOf (preset : PresetSheet) (entries : List PresetEntry) (e : PresetEntry) : Option Decision :=
  if e.bucket.isSome then (movingLayer preset (groupFor entries e)).map fun moving => groupDecision moving.1 moving.2 e
  else unlayeredDecision e

theorem state_loadGroup (l : Loading) (slotted : String × BucketGroup) :
    (loadGroup preset l slotted).state =
      { l.state with
        layerValues := putAll l.state.layerValues (layerWrite preset slotted.2).toList
        channelValues := putAll l.state.channelValues ((groupDecisions preset slotted.2).map Decision.write)
        streamOverrides := clearAll l.state.streamOverrides (groupDecisions preset slotted.2) } := by
  unfold loadGroup layerWrite groupDecisions
  cases movingLayer preset slotted.2 with
  | none => rfl
  | some moving => exact state_foldl_decide _ _

theorem state_foldl_loadGroup (l : Loading) (groups : List (String × BucketGroup)) :
    (groups.foldl (loadGroup preset) l).state =
      { l.state with
        layerValues := putAll l.state.layerValues (groups.filterMap fun slotted => layerWrite preset slotted.2)
        channelValues := putAll l.state.channelValues ((groups.flatMap fun slotted => groupDecisions preset slotted.2).map Decision.write)
        streamOverrides := clearAll l.state.streamOverrides (groups.flatMap fun slotted => groupDecisions preset slotted.2) } := by
  induction groups generalizing l with
  | nil => rfl
  | cons slotted groups ih =>
    rw [List.foldl_cons, ih, state_loadGroup, List.flatMap_cons, List.map_append, List.filterMap_cons]
    simp only [putAll, clearAll, List.foldl_append]
    cases layerWrite preset slotted.2 with
    | none => rfl
    | some w => rfl

/-- The layers, the channels and the overrides after both loops. -/
theorem state_loaded (state : PresetApplyState) (entries : List PresetEntry) :
    ((entries.foldl loadEntry ({ state }, [])).2.foldl (loadGroup preset) (entries.foldl loadEntry ({ state }, [])).1).state =
      { state with
        layerValues := putAll state.layerValues (layerWrites preset entries)
        channelValues := putAll state.channelValues ((allDecisions preset entries).map Decision.write)
        streamOverrides := clearAll state.streamOverrides (allDecisions preset entries) } := by
  rw [foldl_loadEntry, state_foldl_loadGroup, state_foldl_decide]
  simp only [allDecisions, putAll, clearAll, List.map_append, List.foldl_append]
  rfl

/-! ### One decision for each field of a channel -/

theorem mem_groupDecisions : d ∈ groupDecisions preset g ↔ ∃ moving, movingLayer preset g = some moving ∧ ∃ e ∈ g.entries, groupDecision moving.1 moving.2 e = d := by
  unfold groupDecisions
  cases movingLayer preset g with
  | none => simp
  | some moving => simp

theorem unlayeredDecision_eq_none (bucket : e.bucket.isSome = true) : unlayeredDecision e = none := by
  obtain ⟨b, here⟩ := Option.isSome_iff_exists.mp bucket
  rw [unlayeredDecision, here]

/-- The field that moves is one of the bucket's. -/
theorem exists_of_movingLayer {moving : OAuthProviderField × JsValue} (moves : movingLayer preset g = some moving) :
    ∃ e ∈ g.entries, e.outcome.value?.isSome = true ∧ moving.1 = e.field ∧
      moving.2 = if g.bucket = ALL_LAYER then
          ((presetValueOf { shared := preset.shared } e.field e.c.provider.id).map PresetFieldValue.value).getD .undefined
        else e.outcome.value?.getD .undefined := by
  unfold movingLayer at moves
  cases found : g.entries.find? fun e => e.outcome.value?.isSome with
  | none => rw [found] at moves; cases moves
  | some e =>
    rw [found] at moves
    have touched : e.outcome.value?.isSome = true := List.find?_some (p := fun e : PresetEntry => e.outcome.value?.isSome) found
    refine ⟨e, List.mem_of_find?_eq_some found, touched, ?_⟩
    dsimp only at moves
    split at moves
    next all => rw [← Option.some.inj moves, if_pos all]; exact ⟨rfl, rfl⟩
    next other => rw [← Option.some.inj moves, if_neg other]; exact ⟨rfl, rfl⟩

/-- A bucket that does not move is one that no outcome touches. -/
theorem keeps_of_movingLayer (still : movingLayer preset g = none) : ∀ e ∈ g.entries, e.outcome.value? = none := by
  unfold movingLayer at still
  cases found : g.entries.find? fun e => e.outcome.value?.isSome with
  | some e =>
    rw [found] at still
    dsimp only at still
    split at still
    · cases still
    · cases still
  | none =>
    intro e member
    have := List.find?_eq_none.mp found e member
    exact Option.not_isSome_iff_eq_none.mp this

section Plain

variable (plain : ∀ e ∈ entries, ':' ∉ e.field.key.toList)

include plain

theorem mem_allDecisions : d ∈ allDecisions preset entries ↔ ∃ e ∈ entries, decisionOf preset entries e = some d := by
  rw [allDecisions, List.mem_append, List.mem_filterMap, List.mem_flatMap]
  constructor
  · rintro (⟨e, member, decided⟩ | ⟨⟨place, g⟩, member, decided⟩)
    · refine ⟨e, member, ?_⟩
      -- A field with a bucket makes no decision of its own.
      rw [decisionOf, if_neg, decided]
      intro bucket
      rw [unlayeredDecision_eq_none bucket] at decided
      cases decided
    · obtain ⟨first, listed, -, rfl⟩ := exists_of_mem_groupsOf member
      obtain ⟨moving, moves, e, inside, rfl⟩ := mem_groupDecisions.mp decided
      obtain ⟨inside, same⟩ := mem_entries_groupFor.mp inside
      refine ⟨e, (mem_layered.mp inside).1, ?_⟩
      rw [decisionOf, if_pos (mem_layered.mp inside).2, groupFor_eq plain listed inside same, moves, Option.map_some]
  · rintro ⟨e, member, decided⟩
    unfold decisionOf at decided
    split at decided
    next bucket =>
      have inside := mem_layered.mpr ⟨member, bucket⟩
      obtain ⟨moving, moves, rfl⟩ := Option.map_eq_some_iff.mp decided
      exact .inr ⟨_, mem_groupsOf_of_mem plain inside, mem_groupDecisions.mpr ⟨moving, moves, e, mem_entries_groupFor.mpr ⟨inside, rfl⟩, rfl⟩⟩
    next => exact .inl ⟨e, member, decided⟩

theorem movingLayer_key {moving : OAuthProviderField × JsValue} (member : e ∈ layered entries)
    (moves : movingLayer preset (groupFor entries e) = some moving) : moving.1.key = e.field.key := by
  obtain ⟨o, inside, -, field, -⟩ := exists_of_movingLayer moves
  obtain ⟨inside, same⟩ := mem_entries_groupFor.mp inside
  rw [field, (same_of_slot plain member inside same).2]

theorem mem_layerWrites {w : BagWrite} : w ∈ layerWrites preset entries ↔
    ∃ e ∈ layered entries, ∃ moving, movingLayer preset (groupFor entries e) = some moving ∧ w = ⟨e.bucket.getD "", e.field.key, moving.2⟩ := by
  rw [layerWrites, List.mem_filterMap]
  constructor
  · rintro ⟨⟨place, g⟩, grouped, written⟩
    obtain ⟨e, member, -, rfl⟩ := exists_of_mem_groupsOf grouped
    obtain ⟨moving, moves, rfl⟩ := Option.map_eq_some_iff.mp written
    exact ⟨e, member, moving, moves, by rw [movingLayer_key plain member moves]; rfl⟩
  · rintro ⟨e, member, moving, moves, rfl⟩
    refine ⟨_, mem_groupsOf_of_mem plain member, ?_⟩
    rw [layerWrite, moves, Option.map_some, movingLayer_key plain member moves]
    rfl

theorem decisionOf_spec (member : e ∈ entries) (decided : decisionOf preset entries e = some d) :
    d.channel = e.c ∧ d.key = e.field.key ∧ d.decided = e.outcome.value?.isSome := by
  unfold decisionOf at decided
  split at decided
  next bucket =>
    obtain ⟨moving, moves, rfl⟩ := Option.map_eq_some_iff.mp decided
    exact ⟨rfl, movingLayer_key plain (mem_layered.mpr ⟨member, bucket⟩) moves, rfl⟩
  next =>
    unfold unlayeredDecision at decided
    split at decided
    next =>
      obtain ⟨value, held, rfl⟩ := Option.map_eq_some_iff.mp decided
      exact ⟨rfl, rfl, by rw [held]; rfl⟩
    next => cases decided

end Plain

end Braidcast.Multistream
