import Mathlib.Data.List.Basic

/-!
# JSON trees

JSON values over any kind of number.
-/
namespace Braidcast.Lib

/-- The fields of an object are in the order they are written in. -/
inductive JsonTree (ν : Type) where
  | null
  | bool (b : Bool)
  | num (n : ν)
  | str (s : String)
  | arr (items : List (JsonTree ν))
  | obj (fields : List (String × JsonTree ν))

namespace JsonTree

variable {ν : Type}

/-- The value under a key, where there is one. -/
def get? : JsonTree ν → String → Option (JsonTree ν)
  | .obj fields, key => fields.lookup key
  | _, _ => none

def contains (j : JsonTree ν) (key : String) : Bool := (j.get? key).isSome

/-- The field is set, in its place in the order of the keys. -/
def setField (key : String) (value : JsonTree ν) : List (String × JsonTree ν) → List (String × JsonTree ν)
  | [] => [(key, value)]
  | (k, v) :: fields =>
    if key = k then (key, value) :: fields
    else if key < k then (key, value) :: (k, v) :: fields
    else (k, v) :: setField key value fields

theorem lookup_setField_self (key : String) (value : JsonTree ν) (fields : List (String × JsonTree ν)) :
    (setField key value fields).lookup key = some value := by
  induction fields with
  | nil => exact List.lookup_cons_self
  | cons field fields ih =>
    rw [setField]
    split
    · exact List.lookup_cons_self
    next apart =>
      split
      · exact List.lookup_cons_self
      · rw [List.lookup_cons, beq_false_of_ne apart]
        exact ih

theorem lookup_setField_of_ne {key other : String} (apart : other ≠ key) (value : JsonTree ν) (fields : List (String × JsonTree ν)) :
    (setField key value fields).lookup other = fields.lookup other := by
  induction fields with
  | nil => rw [setField, List.lookup_cons, beq_false_of_ne apart]
  | cons field fields ih =>
    rw [setField]
    split
    next same => rw [List.lookup_cons, List.lookup_cons, ← same, beq_false_of_ne apart]
    next =>
      split
      · rw [List.lookup_cons, beq_false_of_ne apart]
      · rw [List.lookup_cons, List.lookup_cons, ih]

/-- Fields set one after the other. -/
def setFields (fields entries : List (String × JsonTree ν)) : List (String × JsonTree ν) :=
  entries.foldl (fun fields e => setField e.1 e.2 fields) fields

variable {fields entries : List (String × JsonTree ν)} {key : String} {value : JsonTree ν}

theorem lookup_setFields_of_notMem (absent : key ∉ entries.map Prod.fst) : (setFields fields entries).lookup key = fields.lookup key := by
  induction entries generalizing fields with
  | nil => rfl
  | cons e entries ih =>
    rw [List.map_cons, List.mem_cons, not_or] at absent
    exact (ih absent.2).trans (lookup_setField_of_ne absent.1 e.2 fields)

theorem lookup_setFields_of_mem (nodup : (entries.map Prod.fst).Nodup) (member : (key, value) ∈ entries) :
    (setFields fields entries).lookup key = some value := by
  induction entries generalizing fields with
  | nil => exact absurd member List.not_mem_nil
  | cons e entries ih =>
    obtain ⟨fresh, nodup⟩ := List.nodup_cons.mp nodup
    rcases List.mem_cons.mp member with rfl | later
    · exact (lookup_setFields_of_notMem fresh).trans (lookup_setField_self key value fields)
    · exact ih nodup later

/-- A loop that sets a field for each item that has one. -/
theorem foldl_eq_setFields {β : Type} {step : List (String × JsonTree ν) → β → List (String × JsonTree ν)}
    {entry : β → Option (String × JsonTree ν)} (sets : ∀ fields x, step fields x = (entry x).elim fields fun e => setField e.1 e.2 fields)
    (xs : List β) (fields : List (String × JsonTree ν)) : xs.foldl step fields = setFields fields (xs.filterMap entry) := by
  induction xs generalizing fields with
  | nil => rfl
  | cons x xs ih =>
    rw [List.foldl_cons, ih, sets]
    cases found : entry x with
    | none => rw [List.filterMap_cons_none found, Option.elim_none]
    | some e =>
      rw [List.filterMap_cons_some found, Option.elim_some]
      rfl

mutual

/-- Equality of values; two numbers can be equal without being the same. -/
def same (equal : ν → ν → Bool) : JsonTree ν → JsonTree ν → Bool
  | .null, .null => true
  | .bool a, .bool b => a == b
  | .num m, .num n => equal m n
  | .str s, .str t => s == t
  | .arr xs, .arr ys => sameItems equal xs ys
  | .obj xs, .obj ys => sameFields equal xs ys
  | _, _ => false

def sameItems (equal : ν → ν → Bool) : List (JsonTree ν) → List (JsonTree ν) → Bool
  | [], [] => true
  | x :: xs, y :: ys => same equal x y && sameItems equal xs ys
  | _, _ => false

def sameFields (equal : ν → ν → Bool) : List (String × JsonTree ν) → List (String × JsonTree ν) → Bool
  | [], [] => true
  | (k, x) :: xs, (l, y) :: ys => k == l && same equal x y && sameFields equal xs ys
  | _, _ => false

end

end JsonTree

end Braidcast.Lib
