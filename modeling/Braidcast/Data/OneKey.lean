import Braidcast.Data.Regions

/-!
# One key under any calls

The three values of a key, with what was last stored in each. The regions keep apart and keep
their bytes in every run. The type does not: it is one field for three values, and only
`set_item_def` looks at it before a value is stored.
-/
namespace Braidcast.Data

open Lib

/-- The item of a key, and what was last stored as each of its values: nothing for one that was
never set or was unset last. -/
structure KeyWorld where
  item : Option Item
  stored : Region → List UInt8
  storedType : Region → DataType

namespace KeyWorld

def initial : KeyWorld := ⟨none, fun _ => [], fun _ => .null⟩

variable (header : Nat) (name : List UInt8) (w : KeyWorld)

/-- Does `set_item_def` leave the item alone? -/
def refuses : Call → Bool
  | .set .default _ type => w.item.any fun item => item.type ≠ type
  | _ => false

/-- One call on the key; `fresh` is what the allocator would give. -/
def step (input : Call × Block) : KeyWorld :=
  match input with
  | (.set region data type, fresh) =>
    { item := setItem header name fresh w.item data type region
      stored := if w.refuses (.set region data type) then w.stored else Function.update w.stored region data
      storedType := if w.refuses (.set region data type) then w.storedType else Function.update w.storedType region type }
  | (.unset region, _) =>
    { w with item := unsetItem w.item region, stored := Function.update w.stored region [] }

/-- No value of another type is stored beside the ones there are. -/
def OneType (w : KeyWorld) (call : Call) : Prop :=
  match call with
  | .set .default _ _ => True
  | .set region _ type => ∀ item ∈ w.item, item.type ≠ type → ∀ r, r ≠ region → item.size r = 0
  | .unset _ => True

/-- The regions lie apart and each holds what was last stored in it. -/
structure Holds (header : Nat) (name : List UInt8) (w : KeyWorld) (item : Item) : Prop where
  sized : item.Sized
  headed : item.header = header
  named : item.nameLen = getNameAlignSize header name
  spelled : item.mem.read header (name.length + 1) = name ++ [0]
  bytes : ∀ r, item.bytes r = w.stored r

/-- An item that is there holds what was stored; without one nothing is stored. -/
def Books (header : Nat) (name : List UInt8) (w : KeyWorld) : Prop :=
  match w.item with
  | none => ∀ r, w.stored r = []
  | some item => Holds header name w item

def Typed (w : KeyWorld) : Prop := ∀ item ∈ w.item, ∀ r, w.stored r ≠ [] → w.storedType r = item.type

variable {header name w} {item item' : Item} {region : Region} {data : List UInt8} {type : DataType} {fresh : Block}

/-- A setter's effect on the item is the same on what is stored. -/
theorem Holds.sets (holds : Holds header name w item) (sets : Item.Sets item item' region data) {w' : KeyWorld}
    (stored : w'.stored = Function.update w.stored region data) : Holds header name w' item' where
  sized := sets.sized
  headed := sets.header.trans holds.headed
  named := sets.nameLen.trans holds.named
  spelled := by
    rw [← holds.spelled, ← holds.headed]
    refine Block.read_congr fun i inside => sets.front _ ?_
    have fits := name_lt_getNameAlignSize header name
    rw [holds.named, holds.headed]
    omega
  bytes r := by
    rw [stored]
    by_cases same : r = region
    · rw [same, Function.update_self]
      exact sets.here
    · rw [Function.update_of_ne same, sets.others r same]
      exact holds.bytes r

theorem setItemData_sets (sized : item.Sized) (header : Nat) (name : List UInt8) (fresh : Block) (data : List UInt8)
    (type : DataType) (region : Region) :
    Item.Sets item (setItemData header name fresh (some item) data type region) region data := by
  cases region with
  | user => exact Item.setData_spec sized
  | default => exact Item.setDefaultData_spec sized
  | autoselect => exact Item.setAutoselectData_spec sized

theorem unsetItem_sets (sized : item.Sized) (region : Region) :
    ∃ item', unsetItem (some item) region = some item' ∧ Item.Sets item item' region [] := by
  cases region with
  | user => exact ⟨_, rfl, Item.unsetUserValue_spec sized⟩
  | default => exact ⟨_, rfl, Item.unsetDefaultValue_spec sized⟩
  | autoselect => exact ⟨_, rfl, Item.unsetAutoselectValue_spec sized⟩

/-- Every call keeps the regions apart, and each with what was last stored in it. -/
theorem step_books (input : Call × Block) (books : Books header name w) : Books header name (w.step header name input) := by
  obtain ⟨call, fresh⟩ := input
  unfold Books at books ⊢
  cases call with
  | set region data type =>
    cases there : w.item with
    | none =>
      rw [there] at books
      have taken : w.refuses (.set region data type) = false := by
        cases region <;> simp [refuses, there]
      simp only [step, taken, setItem, there, setItemData]
      simp only [Option.any_none, Bool.false_eq_true, and_false, if_false]
      refine ⟨Item.create_sized .., rfl, rfl, Item.create_name .., fun r => ?_⟩
      rw [Item.create_bytes]
      dsimp only
      split
      next same => rw [same, Function.update_self]
      next other => rw [Function.update_of_ne other, books r]
    | some item =>
      rw [there] at books
      cases refused : w.refuses (.set region data type) with
      | true =>
        have same : setItem header name fresh (some item) data type region = some item := by
          cases region with
          | default =>
            simp only [refuses, there] at refused
            exact if_pos ⟨rfl, refused⟩
          | user | autoselect => cases refused
        simp only [step, refused, there, same, if_true]
        exact ⟨books.sized, books.headed, books.named, books.spelled, books.bytes⟩
      | false =>
        have same : setItem header name fresh (some item) data type region =
            some (setItemData header name fresh (some item) data type region) := by
          refine if_neg ?_
          rintro ⟨rfl, other⟩
          simp only [refuses, there] at refused
          rw [other] at refused
          cases refused
        simp only [step, refused, there, same, Bool.false_eq_true, if_false]
        exact books.sets (setItemData_sets books.sized ..) rfl
  | unset region =>
    cases there : w.item with
    | none =>
      rw [there] at books
      have none : unsetItem none region = none := by cases region <;> rfl
      simp only [step, there, none]
      intro r
      by_cases same : r = region
      · rw [same, Function.update_self]
      · rw [Function.update_of_ne same]
        exact books r
    | some item =>
      rw [there] at books
      obtain ⟨item', same, sets⟩ := unsetItem_sets books.sized region
      simp only [step, there, same]
      exact books.sets sets rfl

@[simp] theorem type_setItemData (item : Item) :
    (setItemData header name fresh (some item) data type region).type = type := by
  have grown (item : Item) : (item.ensureCapacity fresh).type = item.type := by
    unfold Item.ensureCapacity
    split <;> rfl
  cases region <;>
    simp only [setItemData, Item.setData, Item.setDefaultData, Item.setAutoselectData] <;> (repeat' split) <;> exact grown _

theorem type_unsetItem (there : unsetItem (some item) region = some item') : item'.type = item.type := by
  cases region <;> cases there <;>
    simp only [Item.unsetUserValue, Item.unsetDefaultValue, Item.unsetAutoselectValue] <;> (repeat' split) <;> rfl

theorem Holds.size (holds : Holds header name w item) (r : Region) : item.size r = (w.stored r).length := by
  rw [← holds.bytes r, Item.bytes_length]

theorem step_typed {call : Call} (books : Books header name w) (oneType : OneType w call) (typed : Typed w) :
    Typed (w.step header name (call, fresh)) := by
  cases call with
  | unset region =>
    intro item' there r some
    simp only [step] at there some ⊢
    have kept : w.stored r ≠ [] := by
      by_cases same : r = region
      · rw [same, Function.update_self] at some
        exact absurd rfl some
      · rwa [Function.update_of_ne same] at some
    cases old : w.item with
    | none =>
      rw [old] at there
      cases region <;> cases there
    | some item =>
      rw [old] at there
      rw [type_unsetItem there]
      exact typed item old r kept
  | set region data type =>
    intro item' there r some
    cases refused : w.refuses (.set region data type) with
    | true =>
      cases old : w.item with
      | none => cases region <;> simp [refuses, old] at refused
      | some item =>
        cases region with
        | default =>
          have same : item' = item := by
            simp only [refuses, old] at refused
            simp only [step, setItem, old, true_and] at there
            rw [if_pos refused] at there
            exact (Option.some.inj there).symm
          simp only [step, refused, if_true] at some ⊢
          rw [same]
          exact typed item old r some
        | user | autoselect => cases refused
    | false =>
      have taken : item' = setItemData header name fresh w.item data type region := by
        simp only [step, setItem] at there
        rw [if_neg] at there
        · exact (Option.some.inj there).symm
        · rintro ⟨rfl, other⟩
          simp only [refuses] at refused
          rw [other] at refused
          cases refused
      have typeNow : item'.type = type := by
        rw [taken]
        cases old : w.item with
        | none => rfl
        | some item => exact type_setItemData item
      rw [typeNow]
      simp only [step, refused, Bool.false_eq_true, if_false] at some ⊢
      by_cases same : r = region
      · rw [same, Function.update_self]
      · rw [Function.update_of_ne same] at some ⊢
        unfold Books at books
        cases old : w.item with
        | none =>
          rw [old] at books
          exact absurd (books r) some
        | some item =>
          rw [old] at books
          rw [typed item old r some]
          by_contra other
          have full : item.size r ≠ 0 := by
            rw [books.size]
            simpa using some
          cases region with
          | default => simp [refuses, old, other] at refused
          | user | autoselect => exact full (oneType item old other r same)

/-- Which of the values a getter of a kind answers with: the plain getters take the first there is. -/
def answering (w : KeyWorld) : Region → Region
  | .user =>
    if w.stored .user ≠ [] then .user else if w.stored .default ≠ [] then .default else .autoselect
  | region => region

theorem Holds.pointer (holds : Holds header name w item) (r : Region) :
    item.pointer r = if w.stored (w.answering r) = [] then none else some (item.start (w.answering r)) := by
  have empty (r) : w.stored r = [] ↔ item.size r = 0 := by rw [holds.size, List.length_eq_zero_iff]
  have noUser := holds.sized.noUser
  have noDefault := holds.sized.noDefault
  cases r with
  | default => simp [Item.pointer, Item.getItemDefaultData, answering, empty, Item.size, Item.start]
  | autoselect => simp [Item.pointer, Item.getItemAutoselectData, answering, empty, Item.size, Item.start]
  | user =>
    simp only [Item.pointer, Item.getItemData, answering, ne_eq, empty, Item.size]
    by_cases user : item.dataSize = 0
    · by_cases default : item.defaultSize = 0
      · simp [user, default, Item.start, Item.getAutoselectDataPtr, Item.getDefaultDataPtr, noUser user, noDefault default]
      · simp [user, default, Item.start, Item.getDefaultDataPtr, noUser user]
    · simp [user, Item.start]

/-- The regions of an item, its types and what its getters answer, as they should be. -/
structure Intact (w : KeyWorld) (item : Item) : Prop where
  apart : item.header + item.nameLen ≤ item.start .user ∧
    item.start .user + item.size .user ≤ item.start .default ∧
    item.start .default + item.size .default ≤ item.start .autoselect ∧
    item.start .autoselect + item.size .autoselect ≤ item.capacity
  bytes : ∀ r, item.bytes r = w.stored r
  types : ∀ r, item.size r ≠ 0 → w.storedType r = item.type
  nothing : ∀ c r, w.stored (w.answering r) = [] → item.answers c (item.pointer r) = {}
  answers : ∀ c r v, Encodes v (w.stored (w.answering r)) → w.storedType (w.answering r) = v.type →
    item.answers c (item.pointer r) = v.answers c

theorem Encodes.ne_nil {v : Value} {bytes : List UInt8} (encodes : Encodes v bytes) : bytes ≠ [] := by
  rintro rfl
  cases v with
  | string => simp [Encodes] at encodes
  | int | double =>
    obtain ⟨_, _, same⟩ := encodes
    simpa using congrArg List.length same
  | boolean => cases encodes
  | object | array => simpa using congrArg List.length encodes

theorem Holds.intact (holds : Holds header name w item) (there : w.item = some item) (typed : Typed w) : Intact w item where
  apart := holds.sized.apart
  bytes := holds.bytes
  types r full := by
    apply typed item there
    rw [holds.size] at full
    simpa using full
  nothing c r none := by
    rw [holds.pointer, if_pos none]
    simp [Item.answers, Item.valid]
  answers c r v encodes type := by
    have some := Encodes.ne_nil encodes
    rw [holds.pointer, if_neg some]
    have same := holds.bytes (w.answering r)
    unfold Item.bytes at same
    rw [← same] at encodes
    refine Item.answers_of_encodes c ?_ encodes ?_
    · rw [← typed item there _ some, type]
    · have apart := holds.sized.apart
      cases w.answering r <;> omega

/-- Over every run of calls the regions lie apart, inside the allocation, and hold what was last
stored in them; where no value of another type was stored beside the others, each holds a value of
the item's type and the getters answer with it. -/
theorem key_intact {ms : List (Moment KeyWorld (Call × Block))}
    (run : Run (fun w input w' => w.step header name input = w') initial ms w) (there : w.item = some item) :
    item.Sized ∧ (∀ r, item.bytes r = w.stored r) ∧ item.mem.read header (name.length + 1) = name ++ [0] ∧
    ((∀ m ∈ ms, OneType m.before m.input.1) → Intact w item) := by
  have books := run.always (P := fun w => Books header name w)
    (by rintro w input _ rfl so; exact step_books input so) (fun _ => rfl)
  have holds : Holds header name w item := by
    unfold Books at books
    rw [there] at books
    exact books
  refine ⟨holds.sized, holds.bytes, holds.spelled, fun oneType => ?_⟩
  have whole := run.invariant (P := fun w => Books header name w ∧ Typed w)
    (Q := fun m => OneType m.before m.input.1)
    (by
      rintro ⟨w, input, w'⟩ oneType step so
      have step : w.step header name input = w' := step
      subst step
      exact ⟨step_books input so.1, step_typed so.1 oneType so.2⟩)
    oneType ⟨fun _ => rfl, fun _ absent => by cases absent⟩
  exact holds.intact there whole.1.2

/-- The bytes of the number 5. -/
def five : List UInt8 := toLE 4 OBS_DATA_NUM_INT ++ [0, 0, 0, 0] ++ toLE 8 5

def zeros : Block := fun _ => 0

/-- A default, an autoselect value and a user value, all of them numbers. -/
theorem key_intact_numbers : ∃ ms w item,
    Run (fun w input w' => step 152 [104, 105] w input = w') initial ms w ∧ w.item = some item ∧
      item.size .user = 16 ∧ Intact w item := by
  let inputs : List (Call × Block) := [(.set .default five .number, zeros), (.set .autoselect five .number, zeros),
    (.set .user five .number, zeros)]
  have run := run_trace (step 152 [104, 105]) initial inputs
  obtain ⟨item, there⟩ : ∃ item, (inputs.foldl (step 152 [104, 105]) initial).item = some item := ⟨_, rfl⟩
  refine ⟨_, _, item, run, there, ?_, (key_intact run there).2.2.2 fun m member => ?_⟩
  · cases there
    rfl
  · rcases List.mem_cons.mp member with rfl | member
    · trivial
    rcases List.mem_cons.mp member with rfl | member
    · intro item there other
      cases there
      exact absurd rfl other
    · rcases List.mem_singleton.mp member with rfl
      intro item there other
      cases there
      exact absurd rfl other

/-- A number as the default and then a string as the user value: the default's bytes are a string now. -/
theorem not_key_intact : ¬ ∀ header name ms w item,
    Run (fun w input w' => step header name w input = w') initial ms w → w.item = some item → Intact w item := by
  intro intact
  let inputs : List (Call × Block) := [(.set .default five .number, zeros), (.set .user [120, 0] .string, zeros)]
  have run := run_trace (step 152 [104, 105]) initial inputs
  obtain ⟨item, there⟩ : ∃ item, (inputs.foldl (step 152 [104, 105]) initial).item = some item := ⟨_, rfl⟩
  have types := (intact 152 [104, 105] _ _ item run there).types .default
  cases there
  exact absurd (types (by decide)) (by decide)

end KeyWorld

end Braidcast.Data
