import Braidcast.Multistream.PresetAgain
import Braidcast.Multistream.PresetSave

/-!
# What a save holds

The sheet hands every provider it was saved from the values that the provider's channels agreed on. Loaded into the same
channels it leaves them showing what they showed.
-/
namespace Braidcast.Multistream

open Lib

/-! ### Groups of one key -/

variable {slots : List Slot} {s : Slot} {g : CrossGroup} {key : String}

/-- The slots of a cross-provider key. -/
def crossGroupFor (slots : List Slot) (key : String) : CrossGroup :=
  let here := (slots.filter isCross).filter fun s => s.field.key = key
  ⟨here.filter Slot.agreed, here.any fun s => !s.agreed⟩

theorem foldl_addSlot (g : CrossGroup) (here : List Slot) :
    here.foldl (fun there s => some (addSlot there s)) (some g) = some ⟨g.slots ++ here.filter Slot.agreed, g.conflicted || here.any fun s => !s.agreed⟩ := by
  induction here generalizing g with
  | nil => simp
  | cons s here ih =>
    rw [List.foldl_cons, ih, addSlot, Option.getD_some, List.any_cons]
    cases agreed : s.agreed with
    | true | false => simp [agreed]

theorem mem_crossProvider (member : (key, g) ∈ crossProvider slots) : g = crossGroupFor slots key := by
  have found := (lookup_eq_some_iff_mem (nodup_keys_gather (m := []) List.nodup_nil)).mpr member
  rw [lookup_gather, List.lookup_nil] at found
  unfold crossGroupFor
  cases here : (slots.filter isCross).filter fun s => s.field.key = key with
  | nil => rw [here] at found; cases found
  | cons s rest =>
    rw [here, List.foldl_cons] at found
    exact Option.some.inj (found.symm.trans (foldl_addSlot ⟨[], false⟩ (s :: rest)))

theorem mem_crossProvider_of_mem (member : s ∈ slots) (cross : isCross s = true) :
    (s.field.key, crossGroupFor slots s.field.key) ∈ crossProvider slots := by
  have inside : s ∈ (slots.filter isCross).filter fun o => o.field.key = s.field.key :=
    List.mem_filter.mpr ⟨List.mem_filter.mpr ⟨member, cross⟩, decide_eq_true rfl⟩
  have present : (crossProvider slots).lookup s.field.key ≠ none := by
    rw [crossProvider, lookup_gather, List.lookup_nil]
    cases here : (slots.filter isCross).filter fun o => o.field.key = s.field.key with
    | nil => rw [here] at inside; cases inside
    | cons o os =>
      have first : some (addSlot none o) = some (addSlot (some ⟨[], false⟩) o) := rfl
      rw [List.foldl_cons, first, ← List.foldl_cons, foldl_addSlot]
      simp
  obtain ⟨g, found⟩ := Option.ne_none_iff_exists'.mp present
  have listed := (lookup_eq_some_iff_mem (nodup_keys_gather (m := []) List.nodup_nil)).mp found
  rw [mem_crossProvider listed] at listed
  exact listed

theorem mem_slots_crossGroupFor : s ∈ (crossGroupFor slots key).slots ↔ s ∈ slots ∧ isCross s = true ∧ s.field.key = key ∧ s.agreed = true := by
  simp only [crossGroupFor, List.mem_filter, decide_eq_true_eq]
  constructor
  · rintro ⟨⟨⟨member, cross⟩, same⟩, agreed⟩
    exact ⟨member, cross, same, agreed⟩
  · rintro ⟨member, cross, same, agreed⟩
    exact ⟨⟨⟨member, cross⟩, same⟩, agreed⟩

theorem conflicted_crossGroupFor : (crossGroupFor slots key).conflicted = true ↔ ∃ s ∈ slots, isCross s = true ∧ s.field.key = key ∧ s.agreed = false := by
  simp only [crossGroupFor, List.any_eq_true, List.mem_filter, decide_eq_true_eq, Bool.not_eq_true']
  constructor
  · rintro ⟨s, ⟨⟨member, cross⟩, same⟩, torn⟩
    exact ⟨s, member, cross, same, torn⟩
  · rintro ⟨s, member, cross, same, torn⟩
    exact ⟨s, ⟨⟨member, cross⟩, same⟩, torn⟩

/-! ### What is stored -/

/-- Nobody states anything for the key. -/
def CrossGroup.silent (g : CrossGroup) : Bool := g.slots.all fun s => isUndefined s.value

/-- The value that all of them share. -/
def CrossGroup.shared (g : CrossGroup) : Option JsValue :=
  match g.slots with
  | [] => none
  | first :: others =>
    if g.silent then none else if !g.conflicted && (first :: others).all (alike first) then some first.value else none

def Slot.write (s : Slot) (value : JsValue) : BagWrite := ⟨s.provider.id, s.field.key, value⟩

/-- The group's values, where its providers are given one each. -/
def CrossGroup.writes (g : CrossGroup) : List BagWrite :=
  if g.silent || g.shared.isSome then [] else g.slots.map fun s => s.write (s.value.orElse (.str ""))

def ownWrite (s : Slot) : Option BagWrite := if !isCross s && s.agreed && !isUndefined s.value then some (s.write s.value) else none

section

variable (sheet : PresetSheet)

theorem bag_putOwn (s : Slot) (value : JsValue) :
    (sheet.putOwn s value).bag = putBagValue sheet.bag s.provider.id s.field.key value := by
  funext id
  unfold PresetSheet.bag PresetSheet.putOwn putBagValue
  rw [lookup_setKey]
  by_cases here : id = s.provider.id
  · rw [if_pos here, here, Function.update_self]
    rfl
  · rw [if_neg here, Function.update_of_ne here]

theorem bag_foldl_putOwn (slots : List Slot) :
    (slots.foldl (fun sheet s => sheet.putOwn s (s.value.orElse (.str ""))) sheet).bag =
      putAll sheet.bag (slots.map fun s => s.write (s.value.orElse (.str ""))) := by
  induction slots generalizing sheet with
  | nil => rfl
  | cons s slots ih =>
    rw [List.foldl_cons, ih, bag_putOwn]
    rfl

theorem shared_foldl_putOwn (slots : List Slot) :
    (slots.foldl (fun sheet s => sheet.putOwn s (s.value.orElse (.str ""))) sheet).shared = sheet.shared := by
  induction slots generalizing sheet with
  | nil => rfl
  | cons s slots ih => exact ih _

theorem foldl_storeOwn (slots : List Slot) :
    (slots.foldl storeOwn sheet).bag = putAll sheet.bag (slots.filterMap ownWrite) ∧ (slots.foldl storeOwn sheet).shared = sheet.shared := by
  induction slots generalizing sheet with
  | nil => exact ⟨rfl, rfl⟩
  | cons s slots ih =>
    obtain ⟨bags, shared⟩ := ih (storeOwn sheet s)
    rw [List.foldl_cons, bags, shared, List.filterMap_cons]
    unfold storeOwn ownWrite
    split
    next => exact ⟨by rw [bag_putOwn]; rfl, rfl⟩
    next => exact ⟨rfl, rfl⟩

theorem storeCross_eq (keyed : String × CrossGroup) :
    (storeCross sheet keyed).bag = putAll sheet.bag keyed.2.writes ∧
      (storeCross sheet keyed).shared = ((keyed.2.shared.map fun v => Function.update sheet.shared keyed.1 (entryOf v)).getD sheet.shared) := by
  obtain ⟨key, here, conflicted⟩ := keyed
  unfold storeCross CrossGroup.writes CrossGroup.shared CrossGroup.silent
  cases here with
  | nil => exact ⟨rfl, rfl⟩
  | cons first others =>
    dsimp only
    by_cases silent : ((first :: others).all fun s => isUndefined s.value) = true
    · simp only [silent, if_true, Bool.true_or]
      exact ⟨rfl, rfl⟩
    · by_cases same : (!conflicted && (first :: others).all (alike first)) = true
      · simp only [silent, same, if_true, Bool.false_eq_true, if_false, Option.isSome_some, Bool.or_true]
        exact ⟨rfl, rfl⟩
      · simp only [silent, same, Bool.false_eq_true, if_false, Option.isSome_none, Bool.or_false]
        exact ⟨bag_foldl_putOwn .., shared_foldl_putOwn ..⟩

theorem bag_foldl_storeCross (groups : List (String × CrossGroup)) :
    (groups.foldl storeCross sheet).bag = putAll sheet.bag (groups.flatMap fun keyed => keyed.2.writes) := by
  induction groups generalizing sheet with
  | nil => rfl
  | cons keyed groups ih =>
    rw [List.foldl_cons, ih, (storeCross_eq sheet keyed).1, List.flatMap_cons, putAll, putAll, putAll, ← List.foldl_append]

/-- A shared value is the one of its key's group. -/
theorem shared_foldl_storeCross (groups : List (String × CrossGroup)) (nodup : (groups.map Prod.fst).Nodup) :
    (groups.foldl storeCross sheet).shared.get key = ((groups.lookup key).bind CrossGroup.shared).getD (sheet.shared.get key) := by
  induction groups generalizing sheet with
  | nil => rfl
  | cons keyed groups ih =>
    obtain ⟨k, g⟩ := keyed
    obtain ⟨new, apart⟩ := List.nodup_cons.mp nodup
    rw [List.foldl_cons, ih _ apart, lookup_cons_ite, (storeCross_eq sheet (k, g)).2]
    by_cases here : key = k
    · subst here
      have later : groups.lookup key = none := by
        cases found : groups.lookup key with
        | none => rfl
        | some g' => exact absurd (List.mem_map_of_mem ((lookup_eq_some_iff_mem apart).mp found)) new
      rw [later, if_pos rfl, Option.bind_none, Option.getD_none, Option.bind_some]
      cases g.shared with
      | none => rfl
      | some v =>
        dsimp only [Option.map_some, Option.getD_some]
        rw [Bag.get, Function.update_self, entryOf_getD]
    · rw [if_neg here]
      congr 1
      cases g.shared with
      | none => rfl
      | some v =>
        dsimp only [Option.map_some, Option.getD_some]
        rw [Bag.get, Function.update_of_ne here, Bag.get]

end

/-! ### The sheet -/

variable {D : MarkedDescriptors} {sources : List PresetSource} {p : OAuthProvider} {f : OAuthProviderField} {w : BagWrite} {v : JsValue}

def slotsOf (sources : List PresetSource) : List Slot := (collectSlots sources).map Prod.snd

/-- The bag of a provider that has no value yet. -/
def markedBag : Bag := Function.update emptyBag PRESET_FORMAT_KEY (some PRESET_FORMAT)

/-- What a slot writes into its provider's bag. -/
def slotWrite (slots : List Slot) (s : Slot) : Option BagWrite :=
  if isCross s then
    if s.agreed && !((crossGroupFor slots s.field.key).silent || (crossGroupFor slots s.field.key).shared.isSome) then
      some (s.write (s.value.orElse (.str "")))
    else none
  else ownWrite s

def ownWrites (slots : List Slot) : List BagWrite := slots.filterMap ownWrite ++ (crossProvider slots).flatMap fun keyed => keyed.2.writes

theorem mem_writes : w ∈ g.writes ↔ (g.silent || g.shared.isSome) = false ∧ ∃ s ∈ g.slots, s.write (s.value.orElse (.str "")) = w := by
  unfold CrossGroup.writes
  cases g.silent || g.shared.isSome with
  | true => simp
  | false => simp

theorem mem_ownWrites : w ∈ ownWrites slots ↔ ∃ s ∈ slots, slotWrite slots s = some w := by
  rw [ownWrites, List.mem_append, List.mem_filterMap, List.mem_flatMap]
  constructor
  · rintro (⟨s, member, own⟩ | ⟨⟨key, g⟩, listed, written⟩)
    · refine ⟨s, member, ?_⟩
      rw [slotWrite, if_neg, own]
      intro cross
      rw [ownWrite, cross] at own
      cases own
    · obtain ⟨spread, s, inside, rfl⟩ := mem_writes.mp written
      have group : g = crossGroupFor slots key := mem_crossProvider listed
      dsimp only at spread inside
      rw [group] at spread inside
      obtain ⟨member, cross, same, agreed⟩ := mem_slots_crossGroupFor.mp inside
      refine ⟨s, member, ?_⟩
      rw [slotWrite, if_pos cross, same, agreed, spread]
      rfl
  · rintro ⟨s, member, written⟩
    unfold slotWrite at written
    split at written
    next cross =>
      split at written
      next spread =>
        obtain ⟨agreed, spread⟩ := Bool.and_eq_true_iff.mp spread
        refine .inr ⟨_, mem_crossProvider_of_mem member cross, mem_writes.mpr ⟨(Bool.not_eq_true' _).mp spread, s, ?_, Option.some.inj written⟩⟩
        exact mem_slots_crossGroupFor.mpr ⟨member, cross, rfl, agreed⟩
      next => cases written
    next => exact .inl ⟨s, member, written⟩

/-- A slot writes under its provider and its key. -/
theorem place_of_slotWrite (written : slotWrite slots s = some w) : w.outer = s.provider.id ∧ w.key = s.field.key := by
  unfold slotWrite ownWrite at written
  split at written
  · split at written
    · rw [← Option.some.inj written]
      exact ⟨rfl, rfl⟩
    · cases written
  · split at written
    · rw [← Option.some.inj written]
      exact ⟨rfl, rfl⟩
    · cases written

theorem bag_collectPreset : (collectPreset sources).sheet.bag = putAll (PresetSheet.bag { byProvider := markedBags sources }) (ownWrites (slotsOf sources)) := by
  unfold collectPreset
  dsimp only
  rw [bag_foldl_storeCross, (foldl_storeOwn _ _).1, ownWrites, putAll, putAll, putAll, List.foldl_append]
  rfl

theorem shared_collectPreset : (collectPreset sources).sheet.shared.get key =
    (((crossProvider (slotsOf sources)).lookup key).bind CrossGroup.shared).getD .undefined := by
  have nodup : ((crossProvider (slotsOf sources)).map Prod.fst).Nodup := nodup_keys_gather (m := []) List.nodup_nil
  refine (shared_foldl_storeCross _ _ nodup).trans ?_
  rw [(foldl_storeOwn _ _).2]
  rfl

theorem lookup_foldl_mark (m : List (String × Option Bag)) (sources : List PresetSource) (id : String) :
    (sources.foldl (fun bags s => setKey s.provider.id (fun _ => some markedBag) bags) m).lookup id =
      if ∃ s ∈ sources, s.provider.id = id then some (some markedBag) else m.lookup id := by
  induction sources generalizing m with
  | nil => simp
  | cons s sources ih =>
    rw [List.foldl_cons, ih, lookup_setKey]
    by_cases later : ∃ s ∈ sources, s.provider.id = id
    · obtain ⟨other, member, same⟩ := later
      rw [if_pos ⟨other, member, same⟩, if_pos ⟨other, List.mem_cons_of_mem s member, same⟩]
    · rw [if_neg later]
      by_cases here : id = s.provider.id
      · rw [if_pos here, if_pos ⟨s, List.mem_cons_self, here.symm⟩]
      · rw [if_neg here, if_neg]
        rintro ⟨other, member, same⟩
        rcases List.mem_cons.mp member with rfl | member
        · exact here same.symm
        · exact later ⟨other, member, same⟩

/-- Every armed provider has its bag. -/
theorem bag_marked (armed : ∃ s ∈ sources, s.provider = p) : PresetSheet.bag { byProvider := markedBags sources } p.id = some markedBag := by
  obtain ⟨s, member, rfl⟩ := armed
  have found := lookup_foldl_mark [] sources s.provider.id
  rw [if_pos ⟨s, member, rfl⟩] at found
  exact congrArg Option.join found

/-- What a slot hands back. -/
def Slot.held (s : Slot) : Option JsValue := if s.agreed && !isUndefined s.value then some s.value else none

theorem presetValueOf_value (sheet : PresetSheet) (f : OAuthProviderField) (id : String) :
    (presetValueOf sheet f id).map PresetFieldValue.value =
      if isEmptyVal f.type (Bags.get sheet.bag id f.key) = false then some (Bags.get sheet.bag id f.key)
      else if fieldScope f = .all ∧ isEmptyVal f.type (sheet.shared.get f.key) = false then some (sheet.shared.get f.key) else none := by
  have own : Bag.get ((sheet.bag id).getD emptyBag) f.key = Bags.get sheet.bag id f.key := rfl
  unfold presetValueOf
  dsimp only
  rw [own]
  cases isEmptyVal f.type (Bags.get sheet.bag id f.key) with
  | false => rfl
  | true =>
    cases isEmptyVal f.type (sheet.shared.get f.key) with
    | false => by_cases all : fieldScope f = .all <;> simp [all]
    | true => simp

theorem shared_eq_some (shares : g.shared = some v) :
    ∃ first ∈ g.slots, v = first.value ∧ g.conflicted = false ∧ g.silent = false ∧ ∀ s ∈ g.slots, alike first s = true := by
  unfold CrossGroup.shared at shares
  cases here : g.slots with
  | nil => rw [here] at shares; cases shares
  | cons first others =>
    rw [here] at shares
    dsimp only at shares
    split at shares
    · cases shares
    next spoken =>
      split at shares
      next same =>
        obtain ⟨calm, same⟩ := Bool.and_eq_true_iff.mp same
        exact ⟨first, List.mem_cons_self, (Option.some.inj shares).symm, (Bool.not_eq_true' _).mp calm, eq_false_of_ne_true spoken,
          List.all_eq_true.mp same⟩
      next => cases shares

theorem FreeText.orElse_eq {type : String} (free : FreeText type) (stated : isEmptyVal type v = false) (other : JsValue) : v.orElse other = v := by
  rw [free.isEmptyVal_eq] at stated
  cases v with
  | undefined | null => cases stated
  | bool b | num n | str s | arr ref items | obj ref fields => rfl

theorem slotWrite_cross (cross : isCross s = true) : slotWrite slots s =
    if s.agreed && !((crossGroupFor slots s.field.key).silent || (crossGroupFor slots s.field.key).shared.isSome) then
      some (s.write (s.value.orElse (.str "")))
    else none := if_pos cross

/-- One provider that disagrees with itself keeps a key from being shared. -/
theorem shared_of_torn (member : s ∈ slots) (cross : isCross s = true) (torn : s.agreed = false) : (crossGroupFor slots s.field.key).shared = none := by
  have conflicted := conflicted_crossGroupFor.mpr ⟨s, member, cross, rfl, torn⟩
  cases shares : (crossGroupFor slots s.field.key).shared with
  | none => rfl
  | some v =>
    obtain ⟨-, -, -, calm, -⟩ := shared_eq_some shares
    rw [conflicted] at calm
    cases calm

/-- What is shared under the key of a slot that all providers may have. -/
theorem shared_of_cross (member : s ∈ slotsOf sources) (cross : isCross s = true) :
    (collectPreset sources).sheet.shared.get s.field.key = ((crossGroupFor (slotsOf sources) s.field.key).shared).getD .undefined := by
  have found := (lookup_eq_some_iff_mem (nodup_keys_gather (m := []) List.nodup_nil)).mpr (mem_crossProvider_of_mem member cross)
  rw [shared_collectPreset]
  change ((List.lookup s.field.key (crossProvider (slotsOf sources))).bind _).getD _ = _
  rw [crossProvider, found, Option.bind_some]

section Known

variable (known : ∀ s ∈ sources, s.provider ∈ D.providers)

include known

theorem mem_slotsOf : s ∈ slotsOf sources ↔ ∃ source ∈ sources, ∃ f ∈ carriableFields source.provider,
    s = slotFor f source.provider (statedIn (sourcesOf sources source.provider.id) f) := by
  constructor
  · intro member
    obtain ⟨⟨key, s⟩, listed, rfl⟩ := List.mem_map.mp member
    obtain ⟨source, armed, f, carried, -, same⟩ := exists_of_mem_collectSlots known listed
    exact ⟨source, armed, f, carried, same⟩
  · rintro ⟨source, armed, f, carried, rfl⟩
    exact List.mem_map_of_mem (mem_collectSlots_of_source known ⟨source, armed, rfl⟩ carried)

section

variable (member : s ∈ slotsOf sources)
include member

/-- The provider and the key name the slot. -/
theorem slot_eq_of_place {o : Slot} (member' : o ∈ slotsOf sources) (id : o.provider.id = s.provider.id)
    (key : o.field.key = s.field.key) : o = s := by
  obtain ⟨source, armed, f, carried, rfl⟩ := (mem_slotsOf known).mp member
  obtain ⟨source', armed', f', carried', rfl⟩ := (mem_slotsOf known).mp member'
  have provider : source'.provider = source.provider := List.inj_on_of_nodup_map D.ids (known _ armed') (known _ armed) id
  rw [provider] at carried' ⊢
  have field : f' = f := List.inj_on_of_nodup_map (D.keys _ (known _ armed)) (mem_carriableFields.mp carried').1 (mem_carriableFields.mp carried).1 key
  rw [field]

theorem own_of_slotWrite (written : slotWrite (slotsOf sources) s = some w) :
    Bags.get (collectPreset sources).sheet.bag s.provider.id s.field.key = w.value := by
  obtain ⟨outer, key⟩ := place_of_slotWrite written
  rw [bag_collectPreset, ← outer, ← key]
  refine Bags.At.get (at_putAll (mem_ownWrites.mpr ⟨s, member, written⟩) ?_)
  intro w' listed outer' key'
  obtain ⟨o, member', written'⟩ := mem_ownWrites.mp listed
  obtain ⟨there, that⟩ := place_of_slotWrite written'
  have same := slot_eq_of_place known member member' (there.symm.trans (outer'.trans outer)) (that.symm.trans (key'.trans key))
  rw [same, written] at written'
  rw [Option.some.inj written']

/-- A slot that writes nothing leaves its place as the mark left it. -/
theorem own_of_no_write (none : slotWrite (slotsOf sources) s = none) :
    Bags.get (collectPreset sources).sheet.bag s.provider.id s.field.key = .undefined := by
  rw [bag_collectPreset, get_putAll_of_not_mem]
  · obtain ⟨source, armed, f, carried, rfl⟩ := (mem_slotsOf known).mp member
    change Bag.get ((PresetSheet.bag { byProvider := markedBags sources } source.provider.id).getD emptyBag) f.key = _
    rw [bag_marked ⟨source, armed, rfl⟩, Option.getD_some, Bag.get, markedBag,
      Function.update_of_ne (D.unmarked _ (known _ armed) _ (mem_carriableFields.mp carried).1)]
    rfl
  · rintro w listed ⟨outer, key⟩
    obtain ⟨o, member', written⟩ := mem_ownWrites.mp listed
    obtain ⟨there, that⟩ := place_of_slotWrite written
    have same := slot_eq_of_place known member member' (there.symm.trans outer) (that.symm.trans key)
    rw [same, none] at written
    cases written

/-- A slot's value states something, where it has one. -/
theorem stated_of_slot (there : isUndefined s.value = false) : isEmptyVal s.field.type s.value = false := by
  obtain ⟨source, armed, f, carried, rfl⟩ := (mem_slotsOf known).mp member
  cases stated : statedIn (sourcesOf sources source.provider.id) f with
  | nil => rw [stated] at there; cases there
  | cons first others =>
    have listed : first ∈ statedIn (sourcesOf sources source.provider.id) f := stated ▸ List.mem_cons_self
    exact (Bool.not_eq_true' _).mp (List.mem_filter.mp listed).2

theorem freeText_of_cross (cross : isCross s = true) : FreeText s.field.type := by
  obtain ⟨source, armed, f, carried, rfl⟩ := (mem_slotsOf known).mp member
  exact D.freeText _ (known _ armed) _ (mem_carriableFields.mp carried).1 (eq_of_beq cross)

/-- A slot of one provider alone. -/
theorem held_of_own (own : isCross s = false) :
    (presetValueOf (collectPreset sources).sheet s.field s.provider.id).map PresetFieldValue.value = s.held := by
  have scope : fieldScope s.field ≠ .all := ne_of_beq_false own
  have written : slotWrite (slotsOf sources) s = ownWrite s := by rw [slotWrite, own]; rfl
  rw [presetValueOf_value, Slot.held]
  cases keeps : s.agreed && !isUndefined s.value with
  | true =>
    have value := own_of_slotWrite known member (written.trans (by rw [ownWrite, own, Bool.not_false, Bool.true_and, if_pos keeps]))
    have stated := stated_of_slot known member ((Bool.not_eq_true' _).mp (Bool.and_eq_true_iff.mp keeps).2)
    rw [value]
    exact if_pos stated
  | false =>
    have value := own_of_no_write known member (written.trans (by rw [ownWrite, own, Bool.not_false, Bool.true_and, keeps]; rfl))
    rw [value, isEmptyVal_undefined, if_neg (by decide), if_neg fun all => scope all.1]
    rfl

/-- A provider whose channels disagree is handed nothing: no value of another provider either. -/
theorem held_of_torn (cross : isCross s = true) (torn : s.agreed = false) :
    (presetValueOf (collectPreset sources).sheet s.field s.provider.id).map PresetFieldValue.value = s.held := by
  have value := own_of_no_write known member (by rw [slotWrite_cross cross, torn]; rfl)
  rw [presetValueOf_value, Slot.held, value, shared_of_cross member cross, shared_of_torn member cross torn, torn, Option.getD_none,
    isEmptyVal_undefined, if_neg (by decide), if_neg fun both => Bool.noConfusion both.2]
  rfl

/-- A value that all providers have alike is each one's. -/
theorem held_of_shared (cross : isCross s = true) (agreed : s.agreed = true)
    (shares : (crossGroupFor (slotsOf sources) s.field.key).shared = some v) :
    (presetValueOf (collectPreset sources).sheet s.field s.provider.id).map PresetFieldValue.value = s.held := by
  -- Equal texts are one text, so the first one's value is this one's.
  obtain ⟨first, -, rfl, -, -, same⟩ := shared_eq_some shares
  obtain ⟨there, equal⟩ := Bool.and_eq_true_iff.mp (same s (mem_slots_crossGroupFor.mpr ⟨member, cross, rfl, agreed⟩))
  have there : isUndefined s.value = false := (Bool.not_eq_true' _).mp there
  have stated := stated_of_slot known member there
  have one : s.value = first.value := (freeText_of_cross known member cross).eq_of_valuesEqual stated equal
  have value := own_of_no_write known member (by rw [slotWrite_cross cross, shares, Option.isSome_some, Bool.or_true, Bool.not_true, Bool.and_false]; rfl)
  rw [presetValueOf_value, Slot.held, value, shared_of_cross member cross, shares, Option.getD_some, ← one, isEmptyVal_undefined, stated, there, agreed,
    if_neg (by decide), if_pos ⟨eq_of_beq cross, rfl⟩]
  rfl

/-- Where the providers differ each is handed its own value, and a provider without one the empty text, which is none. -/
theorem held_of_spread (cross : isCross s = true) (agreed : s.agreed = true)
    (shares : (crossGroupFor (slotsOf sources) s.field.key).shared = none) :
    (presetValueOf (collectPreset sources).sheet s.field s.provider.id).map PresetFieldValue.value = s.held := by
  have free := freeText_of_cross known member cross
  have shared : (collectPreset sources).sheet.shared.get s.field.key = .undefined := by rw [shared_of_cross member cross, shares, Option.getD_none]
  have unshared {P : Prop} : ¬ (P ∧ isEmptyVal s.field.type .undefined = false) := by
    rw [isEmptyVal_undefined]
    exact fun both => Bool.noConfusion both.2
  rw [presetValueOf_value, Slot.held, shared, agreed, Bool.true_and]
  cases silent : (crossGroupFor (slotsOf sources) s.field.key).silent with
  | true =>
    -- Nobody holds anything, and nothing is written.
    have gone : isUndefined s.value = true := List.all_eq_true.mp silent s (mem_slots_crossGroupFor.mpr ⟨member, cross, rfl, agreed⟩)
    have value := own_of_no_write known member (by rw [slotWrite_cross cross, silent, Bool.true_or, Bool.not_true, Bool.and_false]; rfl)
    rw [value, isEmptyVal_undefined, gone, if_neg (by decide), if_neg fun both => Bool.noConfusion both.2]
    rfl
  | false =>
    have value := own_of_slotWrite known member (by rw [slotWrite_cross cross, silent, shares, agreed]; rfl)
    change _ = s.value.orElse (.str "") at value
    rw [value]
    cases there : isUndefined s.value with
    | true =>
      have blank : isEmptyVal s.field.type (.str "") = true := by rw [free.isEmptyVal_eq]; rfl
      -- The empty text in the provider's own bag keeps the value of no other away: none is shared.
      rw [eq_undefined_of_isUndefined there]
      change (if isEmptyVal s.field.type (.str "") = false then _ else _) = _
      rw [blank, if_neg (by decide), if_neg unshared]
      rfl
    | false =>
      have stated := stated_of_slot known member there
      rw [free.orElse_eq stated, stated, if_pos rfl]
      rfl

theorem held_of_slot :
    (presetValueOf (collectPreset sources).sheet s.field s.provider.id).map PresetFieldValue.value = s.held := by
  cases cross : isCross s with
  | false => exact held_of_own known member cross
  | true =>
    cases agreed : s.agreed with
    | false => exact held_of_torn known member cross agreed
    | true =>
      cases shares : (crossGroupFor (slotsOf sources) s.field.key).shared with
      | some v => exact held_of_shared known member cross agreed shares
      | none => exact held_of_spread known member cross agreed shares

end

end Known

/-! ### What comes back -/

/-- The first of the values, where every other one is equal to it. -/
def agreedValue (type : String) : List JsValue → Option JsValue
  | [] => none
  | first :: others => if others.all (valuesEqual type first) then some first else none

theorem held_slotFor {values : List JsValue} (there : ∀ v ∈ values, isUndefined v = false) : (slotFor f p values).held = agreedValue f.type values := by
  cases values with
  | nil => rfl
  | cons first others =>
    have held : isUndefined first = false := there first List.mem_cons_self
    rw [Slot.held, slotFor, List.headD_cons, List.tail_cons, held, Bool.not_false, Bool.and_true]
    rfl

/-- The armed channels that a sheet is saved from. -/
structure ArmedSources (D : MarkedDescriptors) where
  sources : List PresetSource
  known : ∀ s ∈ sources, s.provider ∈ D.providers

/-- The values that the provider's channels state for a field. -/
def ArmedSources.stated (a : ArmedSources D) (p : OAuthProvider) (f : OAuthProviderField) : List JsValue := statedIn (sourcesOf a.sources p.id) f

def ArmedSources.Arms (a : ArmedSources D) (p : OAuthProvider) : Prop := ∃ s ∈ a.sources, s.provider = p

def ArmedSources.sheet (a : ArmedSources D) : PresetSheet := (collectPreset a.sources).sheet

variable {a : ArmedSources D}

theorem value_of_saved (armed : a.Arms p) (carried : f ∈ carriableFields p) :
    (presetValueOf a.sheet f p.id).map PresetFieldValue.value = agreedValue f.type (a.stated p f) := by
  obtain ⟨source, member, rfl⟩ := armed
  have slot := held_of_slot a.known ((mem_slotsOf a.known).mpr ⟨source, member, f, carried, rfl⟩)
  exact slot.trans (held_slotFor fun v listed => isUndefined_of_mem_statedIn listed)

theorem field_of_presetValueOf {sheet : PresetSheet} {id : String} {held : PresetFieldValue} (holds : presetValueOf sheet f id = some held) : held.field = f := by
  unfold presetValueOf at holds
  dsimp only at holds
  split at holds
  · rw [← Option.some.inj holds]
  · split at holds
    · cases holds
    · rw [← Option.some.inj holds]

/-- Each provider is handed back what its channels agreed on, and nothing else. -/
theorem presetValuesFor_saved (armed : a.Arms p) :
    (presetValuesFor a.sheet p).map (fun held => (held.field, held.value)) =
      (carriableFields p).filterMap fun f => (agreedValue f.type (a.stated p f)).map fun v => (f, v) := by
  rw [presetValuesFor, List.map_filterMap]
  refine List.filterMap_congr fun f carried => ?_
  rw [← value_of_saved armed carried]
  cases holds : presetValueOf a.sheet f p.id with
  | none => rfl
  | some held => rw [Option.map_some, field_of_presetValueOf holds]; rfl

/-- The mark is still in the bag of every armed provider. -/
theorem mark_of_saved (armed : a.Arms p) : ∃ bag, a.sheet.bag p.id = some bag ∧ bag PRESET_FORMAT_KEY = some PRESET_FORMAT := by
  have marked : Bags.At (PresetSheet.bag { byProvider := markedBags a.sources }) p.id PRESET_FORMAT_KEY PRESET_FORMAT :=
    ⟨markedBag, bag_marked armed, Function.update_self ..⟩
  have elsewhere : ∀ w ∈ ownWrites (slotsOf a.sources), w.outer = p.id → w.key = PRESET_FORMAT_KEY → w.value = PRESET_FORMAT := by
    intro w listed _ key
    obtain ⟨s, member, written⟩ := mem_ownWrites.mp listed
    obtain ⟨source, here, f, carried, rfl⟩ := (mem_slotsOf a.known).mp member
    exact absurd ((place_of_slotWrite written).2.symm.trans key) (D.unmarked _ (a.known _ here) _ (mem_carriableFields.mp carried).1)
  have still := marked.putAll elsewhere
  rw [← bag_collectPreset] at still
  exact still

theorem declaredBy_of_mem (listed : p ∈ D.providers) (carried : f ∈ carriableFields p) : declaredBy D.providers p.id f.key = true := by
  have ids : (D.providers.reverse.map OAuthProvider.id).Nodup := by
    rw [List.map_reverse]
    exact List.nodup_reverse.mpr D.ids
  rw [declaredBy, find?_key_eq_some ids (List.mem_reverse.mpr listed)]
  exact List.any_eq_true.mpr ⟨f, carried, decide_eq_true rfl⟩

/-- Of what a sheet holds nothing for it may reset whatever is clearable and no safety field: the sheet could have held all of it. -/
theorem mayReset_saved (armed : a.Arms p) (carried : f ∈ carriableFields p) :
    mayReset a.sheet f p.id (declaredBy D.providers) = (f.clearable && !f.safety) := by
  obtain ⟨bag, found, marked⟩ := mark_of_saved armed
  have listed : p ∈ D.providers := by
    obtain ⟨source, member, rfl⟩ := armed
    exact a.known source member
  unfold mayReset
  split
  next barred =>
    rcases (Bool.or_eq_true_iff ..).mp barred with safe | keeps
    · rw [safe, Bool.not_true, Bool.and_false]
    · rw [(Bool.not_eq_true' _).mp keeps, Bool.false_and]
  next free =>
    obtain ⟨safe, clear⟩ := Bool.or_eq_false_iff.mp (eq_false_of_ne_true free)
    rw [safe, (Bool.not_eq_false' _).mp clear, Bool.not_false, Bool.and_true]
    -- Whatever the scope asks for is there: the provider among those of the sheet, its bag, and the mark in it.
    cases fieldScope f with
    | all =>
      have named : p.id ∈ sheetProviders a.sheet := by
        unfold PresetSheet.bag at found
        cases here : a.sheet.byProvider.lookup p.id with
        | none => rw [here] at found; cases found
        | some there =>
          obtain ⟨before, after, split, -⟩ := List.lookup_eq_some_iff.mp here
          rw [sheetProviders, split]
          simp
      exact List.any_eq_true.mpr ⟨p.id, named, declaredBy_of_mem listed carried⟩
    | provider =>
      change (a.sheet.bag p.id).isSome = true
      rw [found]
      rfl
    | channel =>
      change isCurrentFormat (a.sheet.bag p.id) = true
      rw [isCurrentFormat, found, Option.getD_some, Bag.get, marked]
      rfl

end Braidcast.Multistream
