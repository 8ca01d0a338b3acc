import Mathlib.Data.String.Basic

/-!
# JSON values

A JSON tree with decidable equality. An object's fields are kept in key order, so that two
objects with the same fields are equal.
-/
namespace Braidcast.Lib

inductive Json where
  | null
  | bool (b : Bool)
  | num (n : Int)
  | str (s : String)
  | arr (items : List Json)
  | obj (fields : List (String × Json))

namespace Json

mutual

def beq : Json → Json → Bool
  | .null, .null => true
  | .bool a, .bool b => a == b
  | .num a, .num b => a == b
  | .str a, .str b => a == b
  | .arr xs, .arr ys => beqItems xs ys
  | .obj xs, .obj ys => beqFields xs ys
  | _, _ => false

def beqItems : List Json → List Json → Bool
  | [], [] => true
  | x :: xs, y :: ys => beq x y && beqItems xs ys
  | _, _ => false

def beqFields : List (String × Json) → List (String × Json) → Bool
  | [], [] => true
  | (k, x) :: xs, (l, y) :: ys => k == l && beq x y && beqFields xs ys
  | _, _ => false

end

mutual

theorem beq_iff : ∀ a b : Json, beq a b = true ↔ a = b
  | .null, b => by cases b <;> simp [beq]
  | .bool a, b => by cases b <;> simp [beq]
  | .num a, b => by cases b <;> simp [beq]
  | .str a, b => by cases b <;> simp [beq]
  | .arr xs, b => by cases b <;> simp [beq, beqItems_iff xs]
  | .obj xs, b => by cases b <;> simp [beq, beqFields_iff xs]

theorem beqItems_iff : ∀ xs ys : List Json, beqItems xs ys = true ↔ xs = ys
  | [], ys => by cases ys <;> simp [beqItems]
  | x :: xs, ys => by cases ys <;> simp [beqItems, beq_iff x, beqItems_iff xs]

theorem beqFields_iff : ∀ xs ys : List (String × Json), beqFields xs ys = true ↔ xs = ys
  | [], ys => by cases ys <;> simp [beqFields]
  | (k, x) :: xs, ys => by
    cases ys with
    | nil => simp [beqFields]
    | cons y ys =>
      obtain ⟨l, y⟩ := y
      simp [beqFields, beq_iff x, beqFields_iff xs, and_assoc]

end

instance : DecidableEq Json := fun a b => decidable_of_iff _ (beq_iff a b)

end Json

/-- The fields of an object, in key order. -/
abbrev Fields := List (String × Json)

namespace Fields

def get? (fields : Fields) (key : String) : Option Json := fields.lookup key

/-- Put the value under the key, in its place in the order. -/
def set (key : String) (value : Json) : Fields → Fields
  | [] => [(key, value)]
  | (k, v) :: rest =>
    if key = k then (key, value) :: rest
    else if key < k then (key, value) :: (k, v) :: rest
    else (k, v) :: set key value rest

section

variable (key : String) (value : Json) (fields : Fields)

theorem get?_cons (other : String) :
    get? ((key, value) :: fields) other = if other = key then some value else get? fields other := by
  by_cases same : other = key
  · simp [get?, same]
  · have skip : (other == key) = false := by simpa using same
    simp [get?, List.lookup_cons, same, skip]

theorem get?_set (other : String) :
    get? (set key value fields) other = if other = key then some value else get? fields other := by
  induction fields with
  | nil => simp [set, get?_cons]
  | cons field rest ih =>
    obtain ⟨k, v⟩ := field
    simp only [set]
    split
    next here => subst here; by_cases same : other = key <;> simp [get?_cons, same]
    next away =>
      split
      · by_cases same : other = key <;> simp [get?_cons, same]
      · by_cases head : other = k
        · simp [get?_cons, head, Ne.symm away]
        · simp [get?_cons, head, ih]

@[simp] theorem get?_set_self : get? (set key value fields) key = some value := by simp [get?_set]

theorem get?_set_of_ne {other : String} (apart : other ≠ key) :
    get? (set key value fields) other = get? fields other := by simp [get?_set, apart]

@[simp] theorem set_set_self (first : Json) : set key value (set key first fields) = set key value fields := by
  induction fields with
  | nil => simp [set]
  | cons field rest ih =>
    obtain ⟨k, v⟩ := field
    by_cases here : key = k
    · simp [set, here]
    · by_cases before : key < k <;> simp [set, here, before, ih]

/-- Keys of different names are set in either order. -/
theorem set_comm {other : String} (apart : key ≠ other) (value' : Json) :
    set key value (set other value' fields) = set other value' (set key value fields) := by
  induction fields with
  | nil =>
    rcases lt_or_gt_of_ne apart with less | more
    · simp [set, apart, apart.symm, less, not_lt_of_gt less]
    · simp [set, apart, apart.symm, more, not_lt_of_gt more]
  | cons field rest ih =>
    obtain ⟨k, v⟩ := field
    rcases lt_trichotomy key k with before | same | after
    · by_cases before' : other < k
      · rcases lt_or_gt_of_ne apart with less | more
        · simp [set, before, before', ne_of_lt, apart.symm, less, not_lt_of_gt less]
        · simp [set, before, before', ne_of_lt, apart, more, not_lt_of_gt more]
      · have behind : ¬ other < key := fun less => before' (less.trans before)
        simp [set, before, before', ne_of_lt before, apart.symm, behind]
        split <;> simp [set, ne_of_lt before, *]
    · subst same
      rcases lt_or_gt_of_ne apart with less | more
      · simp [set, apart.symm, not_lt_of_gt less]
      · simp [set, apart, apart.symm, more, not_lt_of_gt more]
    · have later := not_lt_of_gt after
      rcases lt_trichotomy other k with before' | same' | after'
      · have behind : ¬ key < other := fun less => later (less.trans before')
        simp [set, before', later, ne_of_lt before', ne_of_gt after, apart, behind]
      · subst same'
        simp [set, apart, later]
      · simp [set, later, not_lt_of_gt after', ne_of_gt after, ne_of_gt after', ih]

end

end Fields

end Braidcast.Lib
