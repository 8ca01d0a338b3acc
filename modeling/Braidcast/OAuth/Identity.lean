import Braidcast.Lib.Prefixed
import Braidcast.OAuth.Metadata

/-!
# Identities of metadata

`MetadataIdentity` and `PresetIdentity`. A list goes into the identity joined on line feeds, and an
entry may hold one, so that bags are told apart by the lines of their lists.
-/
namespace Braidcast.OAuth

open Lib

def appendLengthPrefixed (out part : String) : String := out ++ lengthPrefixed part

/-- `MetadataIdentity`. -/
def metadataIdentity (bag : Json) : String :=
  kFieldRules.foldl (fun identity rule =>
    let field := readField bag rule
    if field.present then appendLengthPrefixed (appendLengthPrefixed identity rule.key) field.cmp else identity) ""

/-- An empty list, or a flag that is off. -/
def resting (value : Json) : Bool :=
  match value with
  | .arr items => items.isEmpty
  | .bool b => !b
  | _ => false

/-- `WithoutRestingValues`. -/
def withoutRestingValues (bag : Json) : Json :=
  match bag with
  | .obj fields => .obj (fields.filter fun field => !resting field.2)
  | _ => bag

/-- What a provider's bag is told by. -/
def bagIdentity (byProvider : Json) (providerId : String) : String :=
  metadataIdentity (withoutRestingValues (objAt byProvider providerId))

/-- `PresetIdentity`. -/
def presetIdentity (shared byProvider : Json) : String :=
  let identity := appendLengthPrefixed "" (metadataIdentity (withoutRestingValues shared))
  match byProvider with
  | .obj fields =>
    (sorted (fields.map Prod.fst)).foldl (fun identity providerId =>
      let bag := bagIdentity byProvider providerId
      if bag = "" then identity else appendLengthPrefixed (appendLengthPrefixed identity providerId) bag) identity
  | _ => identity

/-! ### What is asserted -/

/-- The value that a bag asserts of a field. -/
inductive Asserted where
  | text (value : String)
  | flag (value : Bool)
  | entries (values : List String)

/-- What the bag asserts of the field, reduced. -/
def asserted (bag : Json) (rule : FieldRule) : Option Asserted :=
  match rule.compare with
  | .text => if strAt bag rule.key = "" then none else some (.text (reduce rule (strAt bag rule.key)))
  | .flag =>
    match objAt bag rule.key with
    | .bool value => some (.flag value)
    | _ => none
  | .categoryId =>
    if strAt (objAt bag rule.key) "id" = "" then none
    else some (.text (reduce rule (strAt (objAt bag rule.key) "id")))
  | .stringSet =>
    match objAt bag rule.key with
    | .arr items => some (.entries (reducedEntries rule items))
    | _ => none

/-- Lists agree where they have the same entries, in any order. -/
inductive Asserted.Agree : Asserted → Asserted → Prop
  | text (value : String) : Agree (.text value) (.text value)
  | flag (value : Bool) : Agree (.flag value) (.flag value)
  | entries {xs ys : List String} (perm : xs.Perm ys) : Agree (.entries xs) (.entries ys)

/-- Lists agree where their entries, sorted, have the same lines. -/
inductive Asserted.AgreeByLine : Asserted → Asserted → Prop
  | text (value : String) : AgreeByLine (.text value) (.text value)
  | flag (value : Bool) : AgreeByLine (.flag value) (.flag value)
  | entries {xs ys : List String} (lines : pieces '\n' (sorted xs) = pieces '\n' (sorted ys)) :
    AgreeByLine (.entries xs) (.entries ys)

/-- Both bags assert the field with agreeing values, or neither asserts it. -/
def SameBag (Agrees : Asserted → Asserted → Prop) (a b : Json) : Prop :=
  ∀ rule ∈ kFieldRules, Option.Rel Agrees (asserted a rule) (asserted b rule)

/-- The shared bags agree, and so does each provider's, once values at rest are dropped. -/
def SamePreset (Agrees : Asserted → Asserted → Prop) (shared byProvider shared' byProvider' : Json) : Prop :=
  SameBag Agrees (withoutRestingValues shared) (withoutRestingValues shared') ∧
    ∀ id, SameBag Agrees (withoutRestingValues (objAt byProvider id)) (withoutRestingValues (objAt byProvider' id))

/-- An object has each of its keys once. -/
def KeysOnce (bag : Json) : Prop :=
  match bag with
  | .obj fields => (fields.map Prod.fst).Nodup
  | _ => True

/-! ### Fields -/

/-- What stands for a value in the identity. -/
def Asserted.render : Asserted → String
  | .text value => value
  | .flag value => if value then "yes" else "no"
  | .entries values => joinValues (sorted values) "\n"

/-- A value as a rule can assert it. -/
def Asserted.Of : Compare → Asserted → Prop
  | .text, .text _ | .categoryId, .text _ | .flag, .flag _ => True
  | .stringSet, .entries values => ∀ value ∈ values, value ≠ ""
  | _, _ => False

variable {bag a b : Json} {rule : FieldRule} {x y : Asserted}

theorem asserted_of (here : asserted bag rule = some x) : x.Of rule.compare := by
  unfold asserted at here
  cases kind : rule.compare <;> simp only [kind] at here
  case text | categoryId =>
    split at here
    · cases here
    · cases here
      trivial
  case flag =>
    split at here
    · cases here
      trivial
    · cases here
  case stringSet =>
    split at here
    · cases here
      intro value member
      simpa using (List.mem_filter.mp member).2
    · cases here

/-- `ReadField` is present where the field is asserted, with what stands for the value. -/
theorem readField_eq (bag : Json) (rule : FieldRule) :
    (if (readField bag rule).present then some (readField bag rule).cmp else none) = (asserted bag rule).map Asserted.render := by
  unfold readField asserted
  cases rule.compare with
  | text => by_cases empty : strAt bag rule.key = "" <;> simp [empty, Asserted.render]
  | categoryId => by_cases empty : strAt (objAt bag rule.key) "id" = "" <;> simp [empty, Asserted.render]
  | flag | stringSet => cases objAt bag rule.key <;> simp [Asserted.render]

theorem toList_foldl_join {out : String} (some : out ≠ "") (values : List String) :
    (values.foldl (fun out value => (if out = "" then out else out ++ "\n") ++ value) out).toList =
      ['\n'].intercalate ((out :: values).map String.toList) := by
  induction values generalizing out with
  | nil => simp
  | cons value rest ih =>
    have more : out ++ "\n" ++ value ≠ "" := by
      intro empty
      have chars := congrArg String.toList empty
      simp at chars
    rw [List.foldl_cons, if_neg some, ih more]
    cases rest with
    | nil | cons => simp [List.intercalate_cons_cons]

theorem toList_joinValues {values : List String} (filled : ∀ value ∈ values, value ≠ "") :
    (joinValues values "\n").toList = ['\n'].intercalate (values.map String.toList) := by
  cases values with
  | nil => rfl
  | cons value rest =>
    have first := filled value List.mem_cons_self
    have start : "" ++ value = value := String.empty_append
    unfold joinValues
    rw [List.foldl_cons, if_pos rfl, start, toList_foldl_join first]

theorem mem_sorted {value : String} {values : List String} : value ∈ sorted values ↔ value ∈ values :=
  (List.perm_insertionSort (· ≤ ·) values).mem_iff

/-- Lists in any order are sorted alike. -/
theorem sorted_congr {xs ys : List String} (perm : xs.Perm ys) : sorted xs = sorted ys := by
  have both := (List.perm_insertionSort (· ≤ ·) xs).trans (perm.trans (List.perm_insertionSort (· ≤ ·) ys).symm)
  exact both.eq_of_sortedLE List.sortedLE_insertionSort List.sortedLE_insertionSort

/-- What stands for two values of a field is the same where they agree line by line. -/
theorem render_eq_iff {kind : Compare} (first : x.Of kind) (second : y.Of kind) :
    x.render = y.render ↔ x.AgreeByLine y := by
  cases kind with
  | text | categoryId =>
    cases x <;> cases y <;> first | exact first.elim | exact second.elim | skip
    constructor
    · rintro rfl
      exact .text _
    · rintro ⟨⟩
      rfl
  | flag =>
    cases x <;> cases y <;> first | exact first.elim | exact second.elim | skip
    next v w =>
    constructor
    · intro same
      have equal : v = w := by
        cases v <;> cases w <;> first | rfl | exact absurd same (by decide)
      exact equal ▸ .flag _
    · rintro ⟨⟩
      rfl
  | stringSet =>
    cases x <;> cases y <;> first | exact first.elim | exact second.elim | skip
    next xs ys =>
    have filled : ∀ value ∈ sorted xs, value ≠ "" := fun value member => first value (mem_sorted.mp member)
    have filled' : ∀ value ∈ sorted ys, value ≠ "" := fun value member => second value (mem_sorted.mp member)
    have joined := intercalate_inj_iff '\n' filled filled'
    rw [← toList_joinValues filled, ← toList_joinValues filled', String.toList_inj] at joined
    exact joined.trans ⟨.entries, fun agree => by cases agree; assumption⟩

/-! ### Bags -/

/-- What is appended under a key for each item is one text after another. -/
theorem foldl_append_keyed {α : Type} (entry : α → Option (String × String)) (items : List α) (out : String) :
    items.foldl (fun out item => match entry item with
      | some (key, value) => appendLengthPrefixed (appendLengthPrefixed out key) value
      | none => out) out = out ++ keyed (items.filterMap entry) := by
  induction items generalizing out with
  | nil => simp [keyed]
  | cons item rest ih =>
    rw [List.foldl_cons, ih, List.filterMap_cons]
    cases entry item with
    | none => rfl
    | some pair => simp [appendLengthPrefixed, keyed, String.append_assoc]

theorem metadataIdentity_eq_keyed (bag : Json) :
    metadataIdentity bag =
      keyed (kFieldRules.filterMap fun rule => ((asserted bag rule).map Asserted.render).map (rule.key, ·)) := by
  have whole := foldl_append_keyed (fun rule => ((asserted bag rule).map Asserted.render).map (rule.key, ·)) kFieldRules ""
  rw [String.empty_append] at whole
  rw [← whole]
  unfold metadataIdentity
  congr 1
  funext identity rule
  rw [← readField_eq]
  dsimp only
  cases (readField bag rule).present with
  | true => rfl
  | false => rfl

/-- Two bags have one identity where they agree line by line. -/
theorem metadataIdentity_eq_iff (a b : Json) : metadataIdentity a = metadataIdentity b ↔ SameBag Asserted.AgreeByLine a b := by
  have field : ∀ rule : FieldRule, (asserted a rule).map Asserted.render = (asserted b rule).map Asserted.render ↔
      Option.Rel Asserted.AgreeByLine (asserted a rule) (asserted b rule) := by
    intro rule
    cases here : asserted a rule with
    | none =>
      cases there : asserted b rule with
      | none => simp
      | some y => simp
    | some x =>
      cases there : asserted b rule with
      | none => simp
      | some y => simpa using render_eq_iff (asserted_of here) (asserted_of there)
  rw [metadataIdentity_eq_keyed, metadataIdentity_eq_keyed]
  constructor
  · intro same rule member
    exact (field rule).mp (filterMap_keyed_inj kFieldRules_nodup (keyed_inj same) rule member)
  · intro same
    congr 1
    apply List.filterMap_congr
    intro rule member
    rw [(field rule).mpr (same rule member)]

theorem Asserted.Agree.byLine (agree : x.Agree y) : x.AgreeByLine y := by
  cases agree with
  | text value => exact .text value
  | flag value => exact .flag value
  | entries perm => exact .entries (congrArg (pieces '\n') (sorted_congr perm))

theorem SameBag.byLine (same : SameBag Asserted.Agree a b) : SameBag Asserted.AgreeByLine a b := by
  intro rule member
  have agrees := same rule member
  generalize asserted a rule = x at agrees ⊢
  generalize asserted b rule = y at agrees ⊢
  cases agrees with
  | some agree => exact .some agree.byLine
  | none => exact .none

/-! ### Presets -/

/-- A bag that asserts nothing has an empty identity. -/
theorem metadataIdentity_null : metadataIdentity .null = "" := by decide

/-- The providers whose bags say something, in order. -/
def told (byProvider : Json) : List String :=
  match byProvider with
  | .obj fields => (sorted (fields.map Prod.fst)).filter fun id => bagIdentity byProvider id ≠ ""
  | _ => []

theorem map_filter_filled (f : String → String) (ids : List String) :
    ((ids.filter fun id => f id ≠ "").map fun id => (id, f id)) =
      ids.filterMap fun id => if f id = "" then none else some (id, f id) := by
  induction ids with
  | nil => rfl
  | cons id rest ih => by_cases silent : f id = "" <;> simp [silent, ← ih]

theorem presetIdentity_eq (shared byProvider : Json) :
    presetIdentity shared byProvider = lengthPrefixed (metadataIdentity (withoutRestingValues shared)) ++
      keyed ((told byProvider).map fun id => (id, bagIdentity byProvider id)) := by
  have start : appendLengthPrefixed "" (metadataIdentity (withoutRestingValues shared)) =
      lengthPrefixed (metadataIdentity (withoutRestingValues shared)) := String.empty_append
  cases byProvider with
  | obj fields =>
    have whole := foldl_append_keyed
      (fun id => if bagIdentity (.obj fields) id = "" then none else some (id, bagIdentity (.obj fields) id))
      (sorted (fields.map Prod.fst)) (lengthPrefixed (metadataIdentity (withoutRestingValues shared)))
    have listed : ((told (.obj fields)).map fun id => (id, bagIdentity (.obj fields) id)) =
        (sorted (fields.map Prod.fst)).filterMap
          fun id => if bagIdentity (.obj fields) id = "" then none else some (id, bagIdentity (.obj fields) id) :=
      map_filter_filled _ _
    rw [listed, ← whole]
    unfold presetIdentity
    dsimp only
    rw [start]
    congr 1
    funext identity id
    by_cases silent : bagIdentity (.obj fields) id = "" <;> simp [silent]
  | null | bool _ | num _ | str _ | arr _ => simp [presetIdentity, start, told, keyed]

theorem mem_told {byProvider : Json} {id : String} : id ∈ told byProvider ↔ bagIdentity byProvider id ≠ "" := by
  have silent : metadataIdentity (withoutRestingValues .null) = "" := metadataIdentity_null
  cases byProvider with
  | obj fields =>
    simp only [told, List.mem_filter, mem_sorted, decide_eq_true_eq, and_iff_right_iff_imp]
    intro some
    by_contra absent
    have unknown : Fields.get? fields id = none := by
      rw [Fields.get?, List.lookup_eq_none_iff]
      intro field member
      have apart : id ≠ field.1 := fun same => absent (same ▸ List.mem_map_of_mem member)
      simpa using apart
    apply some
    simp only [bagIdentity, objAt, unknown, Option.getD_none]
    exact silent
  | null | bool _ | num _ | str _ | arr _ => simp [told, bagIdentity, objAt, silent]

theorem told_sorted {byProvider : Json} (once : KeysOnce byProvider) : (told byProvider).SortedLT := by
  cases byProvider with
  | obj fields =>
    have keys : (sorted (fields.map Prod.fst)).Nodup := (List.perm_insertionSort _ _).nodup_iff.mpr once
    have order : (sorted (fields.map Prod.fst)).SortedLE := List.sortedLE_insertionSort
    exact (order.sortedLT_of_nodup keys).pairwise.filter _ |>.sortedLT
  | null | bool _ | num _ | str _ | arr _ => exact List.Pairwise.nil.sortedLT

/-- Two presets have one identity where their bags agree line by line. -/
theorem presetIdentity_eq_iff {shared byProvider shared' byProvider' : Json} (once : KeysOnce byProvider)
    (once' : KeysOnce byProvider') : presetIdentity shared byProvider = presetIdentity shared' byProvider' ↔
      SamePreset Asserted.AgreeByLine shared byProvider shared' byProvider' := by
  have bags : SamePreset Asserted.AgreeByLine shared byProvider shared' byProvider' ↔
      metadataIdentity (withoutRestingValues shared) = metadataIdentity (withoutRestingValues shared') ∧
        ∀ id, bagIdentity byProvider id = bagIdentity byProvider' id := by
    simp only [SamePreset, bagIdentity, metadataIdentity_eq_iff]
  rw [bags, presetIdentity_eq, presetIdentity_eq]
  constructor
  · intro same
    obtain ⟨first, rest⟩ := lengthPrefixed_append_inj same
    have listed := keyed_inj rest
    refine ⟨first, fun id => ?_⟩
    -- an id that one of the two has something to say of is in the list, with what is said
    by_cases silent : bagIdentity byProvider id = ""
    · by_contra other
      have there : id ∈ told byProvider' := mem_told.mpr fun silent' => other (silent.trans silent'.symm)
      have pair : (id, bagIdentity byProvider' id) ∈ (told byProvider).map fun id => (id, bagIdentity byProvider id) := by
        rw [listed]
        exact List.mem_map_of_mem there
      obtain ⟨id', here, same⟩ := List.mem_map.mp pair
      obtain ⟨rfl, -⟩ := Prod.mk.inj same
      exact mem_told.mp here silent
    · have pair : (id, bagIdentity byProvider id) ∈ (told byProvider').map fun id => (id, bagIdentity byProvider' id) := by
        rw [← listed]
        exact List.mem_map_of_mem (mem_told.mpr silent)
      obtain ⟨id', -, same⟩ := List.mem_map.mp pair
      obtain ⟨rfl, same⟩ := Prod.mk.inj same
      exact same.symm
  · rintro ⟨first, each⟩
    have ids : told byProvider = told byProvider' := by
      apply (told_sorted once).eq_of_mem_iff (told_sorted once')
      intro id
      rw [mem_told, mem_told, each id]
    rw [first, ids]
    congr 2
    apply List.map_congr_left
    intro id _
    rw [each id]

theorem SamePreset.byLine {shared byProvider shared' byProvider' : Json}
    (same : SamePreset Asserted.Agree shared byProvider shared' byProvider') :
    SamePreset Asserted.AgreeByLine shared byProvider shared' byProvider' :=
  ⟨same.1.byLine, fun id => (same.2 id).byLine⟩

/-- Without line feeds in their entries, lists that agree line by line agree. -/
theorem Asserted.AgreeByLine.agree (byLine : x.AgreeByLine y)
    (free : ∀ values, x = .entries values ∨ y = .entries values → ∀ value ∈ values, '\n' ∉ value.toList) : x.Agree y := by
  cases byLine with
  | text value => exact .text value
  | flag value => exact .flag value
  | entries lines =>
    next xs ys =>
    have here := free xs (.inl rfl)
    have there := free ys (.inr rfl)
    rw [pieces_of_free fun value member => here value (mem_sorted.mp member),
      pieces_of_free fun value member => there value (mem_sorted.mp member)] at lines
    have sorts : sorted xs = sorted ys := List.map_injective_iff.mpr (fun _ _ => String.toList_inj.mp) lines
    have back : (sorted xs).Perm ys := by
      rw [sorts]
      exact List.perm_insertionSort _ _
    exact .entries ((List.perm_insertionSort (· ≤ ·) xs).symm.trans back)

/-- An identity tells bags apart, and presets, as long as those that agree line by line agree. -/
theorem identities_iff (a b : Json) {shared byProvider shared' byProvider' : Json} (once : KeysOnce byProvider)
    (once' : KeysOnce byProvider') :
    ((metadataIdentity a = metadataIdentity b ↔ SameBag Asserted.Agree a b) ↔
      (SameBag Asserted.AgreeByLine a b → SameBag Asserted.Agree a b)) ∧
    ((presetIdentity shared byProvider = presetIdentity shared' byProvider' ↔
        SamePreset Asserted.Agree shared byProvider shared' byProvider') ↔
      (SamePreset Asserted.AgreeByLine shared byProvider shared' byProvider' →
        SamePreset Asserted.Agree shared byProvider shared' byProvider')) := by
  constructor
  · rw [metadataIdentity_eq_iff]
    exact ⟨fun same => same.mp, fun agree => ⟨agree, SameBag.byLine⟩⟩
  · rw [presetIdentity_eq_iff once once']
    exact ⟨fun same => same.mp, fun agree => ⟨agree, SamePreset.byLine⟩⟩

def tagged (tags : List String) : Json := .obj [("tags", .arr (tags.map .str))]

def tagRule : FieldRule := ⟨"tags", "Tags", false, .stringSet, .fold⟩

/-- What is asserted of tags alone. -/
theorem sameBag_tagged {xs ys : List String}
    (same : (reducedEntries tagRule (xs.map .str)).Perm (reducedEntries tagRule (ys.map .str))) :
    SameBag Asserted.Agree (tagged xs) (tagged ys) := by
  have tags : Option.Rel Asserted.Agree (asserted (tagged xs) tagRule) (asserted (tagged ys) tagRule) :=
    .some (.entries same)
  intro rule member
  simp only [kFieldRules, List.mem_cons, List.not_mem_nil, or_false] at member
  rcases member with rfl | rfl | rfl | rfl | rfl | rfl | rfl | rfl | rfl
  case inr.inr.inr.inr.inr.inl => exact tags
  all_goals exact .none

theorem Asserted.Agree.refl (x : Asserted) : x.Agree x := by
  cases x with
  | text value => exact .text value
  | flag value => exact .flag value
  | entries values => exact .entries (.refl _)

theorem SameBag.refl (a : Json) : SameBag Asserted.Agree a a := by
  intro rule _
  cases asserted a rule with
  | none => exact .none
  | some x => exact .some (.refl x)

/-- The same tags in another order and another case. -/
theorem identities_reordered :
    metadataIdentity (tagged ["b", "a"]) = metadataIdentity (tagged ["A", " b"]) ∧
      presetIdentity (tagged ["b", "a"]) (.obj [("twitch", tagged ["x"])]) =
        presetIdentity (tagged ["A", " b"]) (.obj [("twitch", tagged ["x"])]) := by
  have same : SamePreset Asserted.Agree (tagged ["b", "a"]) (.obj [("twitch", tagged ["x"])]) (tagged ["A", " b"])
      (.obj [("twitch", tagged ["x"])]) := ⟨sameBag_tagged (by decide), fun _ => .refl _⟩
  have once : KeysOnce (.obj [("twitch", tagged ["x"])]) := List.nodup_singleton _
  obtain ⟨bags, presets⟩ := identities_iff (tagged ["b", "a"]) (tagged ["A", " b"]) once once
  exact ⟨(bags.mpr fun _ => same.1).mpr same.1, (presets.mpr fun _ => same).mpr same⟩

/-- One tag with a line feed in it, and two tags. -/
theorem not_identities : ¬((∀ a b : Json, metadataIdentity a = metadataIdentity b ↔ SameBag Asserted.Agree a b) ∧
    ∀ shared byProvider shared' byProvider' : Json, KeysOnce byProvider → KeysOnce byProvider' →
      (presetIdentity shared byProvider = presetIdentity shared' byProvider' ↔
        SamePreset Asserted.Agree shared byProvider shared' byProvider')) := by
  intro law
  have same := (law.1 (tagged ["a\nb"]) (tagged ["a", "b"])).mp (by decide)
  have tags : Option.Rel Asserted.Agree (some (.entries (reducedEntries tagRule [.str "a\nb"])))
      (some (.entries (reducedEntries tagRule [.str "a", .str "b"]))) := same tagRule (by decide)
  cases tags with
  | some agree =>
    cases agree with
    | entries perm => exact absurd perm.length_eq (by decide)

end Braidcast.OAuth
