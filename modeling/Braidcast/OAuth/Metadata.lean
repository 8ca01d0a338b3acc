import Mathlib.Data.List.Sort
import Braidcast.Lib.Json

/-!
# Stream metadata

The field table of `oauth/provider.cpp` and how a field is read out of a metadata bag. The
characters of a string stand for its bytes.
-/
namespace Braidcast.OAuth

open Lib

inductive Compare where
  | text
  | flag
  | categoryId
  | stringSet
  deriving DecidableEq

inductive Normalize where
  | trim
  | fold
  deriving DecidableEq

structure FieldRule where
  key : String
  label : String
  safety : Bool
  compare : Compare
  normalize : Normalize
  deriving DecidableEq

def kFieldRules : List FieldRule := [
  ⟨"privacy", "Privacy", true, .text, .trim⟩,
  ⟨"madeForKids", "Made for kids", true, .flag, .trim⟩,
  ⟨"title", "Title", false, .text, .trim⟩,
  ⟨"description", "Description", false, .text, .trim⟩,
  ⟨"category", "Category", false, .categoryId, .trim⟩,
  ⟨"tags", "Tags", false, .stringSet, .fold⟩,
  ⟨"language", "Language", false, .text, .fold⟩,
  ⟨"contentLabels", "Content classification", false, .stringSet, .fold⟩,
  ⟨"brandedContent", "Branded content", false, .flag, .trim⟩]

/-- The keys of the table are distinct. -/
theorem kFieldRules_nodup : (kFieldRules.map FieldRule.key).Nodup := by decide

/-! ### JSON -/

/-- `JsonUtil::Obj`. -/
def objAt (bag : Json) (key : String) : Json :=
  match bag with
  | .obj fields => (Fields.get? fields key).getD .null
  | _ => .null

/-- `JsonUtil::Str`. -/
def strAt (bag : Json) (key : String) : String :=
  match objAt bag key with
  | .str s => s
  | _ => ""

/-- `contains`, of what may be no object. -/
def states (bag : Json) (key : String) : Bool :=
  match bag with
  | .obj fields => (Fields.get? fields key).isSome
  | _ => false

/-! ### Strings -/

def isSpace (c : Char) : Bool := c ∈ [' ', '\t', '\n', Char.ofNat 11, Char.ofNat 12, '\r']

/-- `StringUtil::Trim`. -/
def trim (s : String) : String :=
  .ofList ((s.toList.dropWhile isSpace).reverse.dropWhile isSpace).reverse

/-- `StringUtil::ToLower`. -/
def toLower (s : String) : String := .ofList (s.toList.map Char.toLower)

/-- `Reduce`. -/
def reduce (rule : FieldRule) (raw : String) : String :=
  let value := trim (.ofList (raw.toList.filter (· ≠ '\r')))
  let value := if rule.normalize = .fold then toLower value else value
  -- a safety field is never emptied
  if rule.safety && value = "" && raw ≠ "" then raw else value

/-- `JoinValues`. -/
def joinValues (values : List String) (separator : String) : String :=
  values.foldl (fun out value => (if out = "" then out else out ++ separator) ++ value) ""

def sorted (values : List String) : List String := values.insertionSort (· ≤ ·)

/-! ### Fields -/

/-- What `ReadField` returns, and what it leaves in `cmp` and `text`. -/
structure FieldRead where
  present : Bool := false
  cmp : String := ""
  text : String := ""

/-- The entries of a list that are strings and not empty. -/
def listed (items : List Json) : List String :=
  items.filterMap fun
    | .str s => if s = "" then none else some s
    | _ => none

/-- What of them is compared. -/
def reducedEntries (rule : FieldRule) (items : List Json) : List String :=
  ((listed items).map (reduce rule)).filter (· ≠ "")

/-- `ReadField`. -/
def readField (bag : Json) (rule : FieldRule) : FieldRead :=
  match rule.compare with
  | .text =>
    let text := strAt bag rule.key
    ⟨text ≠ "", reduce rule text, text⟩
  | .flag =>
    match objAt bag rule.key with
    | .bool value =>
      let cmp := if value then "yes" else "no"
      ⟨true, cmp, cmp⟩
    | _ => {}
  | .categoryId =>
    let category := objAt bag rule.key
    let id := strAt category "id"
    let name := strAt category "name"
    ⟨id ≠ "", reduce rule id, if name = "" then id else name⟩
  | .stringSet =>
    match objAt bag rule.key with
    | .arr items => ⟨true, joinValues (sorted (reducedEntries rule items)) "\n", joinValues (listed items) ", "⟩
    | _ => {}

/-- `ReadActual`: on the platform's side a value is there where its key is. -/
def readActual (bag : Json) (rule : FieldRule) : FieldRead :=
  if states bag rule.key then { readField bag rule with present := true } else {}

/-- `DescriptorDefault`. -/
def descriptorDefault (capability : Json) (key : String) : Json :=
  match objAt capability "fields" with
  | .arr fields =>
    match fields.find? fun field => strAt field "key" = key with
    | some field => objAt field "default"
    | none => .null
  | _ => .null

/-- `ReadRequested`. -/
def readRequested (capability fields : Json) (rule : FieldRule) : FieldRead :=
  let own := readField fields rule
  if own.present then own
  else match descriptorDefault capability rule.key with
    | .null => {}
    | fallback => readField (.obj [(rule.key, fallback)]) rule

structure MetadataDivergence where
  field : String
  label : String
  requested : String
  actual : String
  safety : Bool
  remedy : String := ""

/-- `DiffAppliedMetadata`, at one field. -/
def divergenceAt (capability requested actual : Json) (rule : FieldRule) : Option MetadataDivergence :=
  let found := readActual actual rule
  let want := readRequested capability requested rule
  if found.present && want.present && want.cmp ≠ found.cmp then
    some ⟨rule.key, rule.label, want.text, found.text, rule.safety, ""⟩
  else none

/-- `DiffAppliedMetadata`. -/
def diffAppliedMetadata (capability requested actual : Json) : List MetadataDivergence :=
  kFieldRules.filterMap (divergenceAt capability requested actual)

end Braidcast.OAuth
