import Braidcast.Lib.Utf16

/-!
# Values of descriptor fields

`fieldValue.ts`: when a value states something, when two values are the same, and which layers a field has.
-/
namespace Braidcast.Multistream

open Lib

/-- A JavaScript value. Arrays and objects are told apart by where they are, and numbers by their text; there is no NaN
among the values of a JSON document. -/
inductive JsValue where
  | undefined
  | null
  | bool (b : Bool)
  | num (text : String)
  | str (s : String)
  | arr (ref : Nat) (items : List JsValue)
  | obj (ref : Nat) (fields : List (String × JsValue))

namespace JsValue

/-- `===`. -/
def strictEq : JsValue → JsValue → Bool
  | .undefined, .undefined => true
  | .null, .null => true
  | .bool a, .bool b => a == b
  | .num a, .num b => a == b
  | .str a, .str b => a == b
  | .arr a _, .arr b _ => a == b
  | .obj a _, .obj b _ => a == b
  | _, _ => false

mutual

/-- `String(v)`. -/
def text : JsValue → String
  | .undefined => "undefined"
  | .null => "null"
  | .bool true => "true"
  | .bool false => "false"
  | .num text => text
  | .str s => s
  | .arr _ items => ",".intercalate (texts items)
  | .obj _ _ => "[object Object]"

/-- What an array joins: nothing for what is not there. -/
def texts : List JsValue → List String
  | [] => []
  | .undefined :: items => "" :: texts items
  | .null :: items => "" :: texts items
  | item :: items => text item :: texts items

end

/-- The order of `Array.prototype.sort`, with what is undefined last. -/
def sortsBefore : JsValue → JsValue → Bool
  | _, .undefined => true
  | .undefined, _ => false
  | a, b => decide (utf16 a.text ≤ utf16 b.text)

/-- What a member access reads; of anything but an object, no member that is named here is there. -/
def member (v : JsValue) (key : String) : JsValue :=
  match v with
  | .obj _ fields => (fields.lookup key).getD .undefined
  | _ => .undefined

/-- What `String.prototype.trim` takes off. -/
def isSpace (c : Char) : Bool :=
  c.toNat ∈ [9, 10, 11, 12, 13, 32, 160, 0x1680, 0x2028, 0x2029, 0x202f, 0x205f, 0x3000, 0xfeff] || 0x2000 ≤ c.toNat && c.toNat ≤ 0x200a

/-- No string, or one with nothing in it but space. -/
def isBlankText : JsValue → Bool
  | .str s => s.toList.all isSpace
  | _ => true

def isArray : JsValue → Bool
  | .arr _ _ => true
  | _ => false

def items : JsValue → List JsValue
  | .arr _ items => items
  | _ => []

/-- `v ?? other`. -/
def orElse (v other : JsValue) : JsValue :=
  match v with
  | .undefined => other
  | .null => other
  | v => v

theorem strictEq_refl (v : JsValue) : strictEq v v = true := by
  cases v <;> simp [strictEq]

end JsValue

open JsValue

/-! ### Descriptors -/

/-- The options of an enum are given by their values. -/
structure OAuthProviderField where
  key : String
  label : String
  type : String
  scope : Option String := none
  options : List String := []
  perDestination : Bool := false
  default : JsValue := .undefined
  required : Bool := false
  clearable : Bool := false
  safety : Bool := false

structure OAuthProvider where
  id : String
  displayName : String
  fields : List OAuthProviderField

inductive FieldScope where
  | all
  | provider
  | channel
  deriving DecidableEq

def isPerDestination (field : OAuthProviderField) : Bool := field.perDestination

def isListType (type : String) : Bool := type == "tags" || type == "labelset"

def isEmptyVal (type : String) (v : JsValue) : Bool :=
  -- an empty list is stated, and so is a flag that is off
  if isListType type then !v.isArray
  else if type = "category" then (v.member "id").isBlankText
  else if type = "bool" then v.strictEq .undefined || v.strictEq .null
  else v.isBlankText

def isBlankVal (type : String) (v : JsValue) : Bool := isEmptyVal type v || (isListType type && v.isArray && v.items.isEmpty)

def slotKey (scope key : String) : String := scope ++ "::" ++ key

/-- `every`, where the two lists are as long as each other. -/
def allStrictEq : List JsValue → List JsValue → Bool
  | [], [] => true
  | a :: as, b :: bs => a.strictEq b && allStrictEq as bs
  | _, _ => false

def valuesEqual (type : String) (a b : JsValue) : Bool :=
  if type = "category" then (a.member "id").strictEq (b.member "id")
  -- lists are the same in any order
  else if isListType type then allStrictEq (a.items.mergeSort sortsBefore) (b.items.mergeSort sortsBefore)
  else a.strictEq b

def ALL_LAYER : String := "all"

def providerLayer (providerId : String) : String := "provider:" ++ providerId

/-- A field that names no scope, or one that is not known, keeps its value to the channel. -/
def fieldScope (field : OAuthProviderField) : FieldScope :=
  if field.scope = some "all" then .all else if field.scope = some "provider" then .provider else .channel

def inheritLayers (field : OAuthProviderField) (providerId : String) : List String :=
  if isPerDestination field then []
  else
    match fieldScope field with
    | .all => [ALL_LAYER]
    | .provider => [providerLayer providerId]
    | .channel => []

def isRequiredEnum (field : OAuthProviderField) (inheritable : Bool) : Bool := field.type == "enum" && field.required && !inheritable

def resolveRequiredEnum (field : OAuthProviderField) (value : JsValue) (inheritable : Bool := false) : String :=
  let string (v : JsValue) : String :=
    match v with
    | .str s => s
    | _ => ""
  let str := string value
  -- a required choice is never empty while there is an option to take
  if !isRequiredEnum field inheritable then str
  else if str ∈ field.options then str
  else if string field.default ∈ field.options then string field.default
  else field.options.headD ""

/-! ### Equal values -/

variable {type : String} {v w : JsValue}

theorem allStrictEq_refl (items : List JsValue) : allStrictEq items items = true := by
  induction items with
  | nil => rfl
  | cons v items ih => rw [allStrictEq, strictEq_refl, ih, Bool.and_self]

theorem valuesEqual_refl (type : String) (v : JsValue) : valuesEqual type v v = true := by
  unfold valuesEqual
  split
  · exact strictEq_refl _
  · split
    · exact allStrictEq_refl _
    · exact strictEq_refl _

/-- Free text, as a field that every platform takes has it. -/
def FreeText (type : String) : Prop := isListType type = false ∧ type ≠ "category" ∧ type ≠ "bool"

instance (type : String) : Decidable (FreeText type) := inferInstanceAs (Decidable (_ ∧ _ ∧ _))

theorem FreeText.isEmptyVal_eq (free : FreeText type) (v : JsValue) : isEmptyVal type v = v.isBlankText := by
  obtain ⟨list, category, bool⟩ := free
  simp [isEmptyVal, list, category, bool]

/-- Equal texts are one text. -/
theorem FreeText.eq_of_valuesEqual (free : FreeText type) (stated : isEmptyVal type v = false) (same : valuesEqual type v w = true) :
    v = w := by
  rw [free.isEmptyVal_eq] at stated
  obtain ⟨list, category, -⟩ := free
  simp only [valuesEqual, list, category, Bool.false_eq_true, if_false] at same
  cases v with
  | str s =>
    cases w with
    | str t => rw [eq_of_beq same]
    | undefined | null | bool b | num n | arr ref items | obj ref fields => cases same
  | undefined | null | bool b | num n | arr ref items | obj ref fields => cases stated

theorem isEmptyVal_undefined (type : String) : isEmptyVal type .undefined = true := by
  unfold isEmptyVal
  split
  · rfl
  · split
    · rfl
    · split <;> rfl

end Braidcast.Multistream
