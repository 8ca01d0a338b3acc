import Mathlib.Data.List.Basic

/-!
# The grammar of JSON

Which bytes are a JSON text, as derivations, and how deep the objects in a text nest. Bytes from 128 on may stand
in a string as they come.
-/
namespace Braidcast.Lib

namespace JsonGrammar

def quote : UInt8 := 34

def backslash : UInt8 := 92

def openBrace : UInt8 := 123

def closeBrace : UInt8 := 125

def openBracket : UInt8 := 91

def closeBracket : UInt8 := 93

def comma : UInt8 := 44

def colon : UInt8 := 58

/-! ### Tokens -/

def Blanks (text : List UInt8) : Prop := ∀ c ∈ text, c ∈ [9, 10, 13, 32]

def Hex (c : UInt8) : Prop := 48 ≤ c ∧ c ≤ 57 ∨ 65 ≤ c ∧ c ≤ 70 ∨ 97 ≤ c ∧ c ≤ 102

/-- What may stand between the quotes of a string. -/
inductive Chars : List UInt8 → Prop where
  | nil : Chars []
  | plain {c : UInt8} {text : List UInt8} (printed : 32 ≤ c) (unquoted : c ≠ quote) (unescaped : c ≠ backslash) :
      Chars text → Chars (c :: text)
  | escape {c : UInt8} {text : List UInt8} (letter : c ∈ [quote, backslash, 47, 98, 102, 110, 114, 116]) :
      Chars text → Chars (backslash :: c :: text)
  | unicode {digits text : List UInt8} (four : digits.length = 4) (hex : ∀ c ∈ digits, Hex c) :
      Chars text → Chars (backslash :: 117 :: (digits ++ text))

inductive Str : List UInt8 → Prop where
  | quoted {text : List UInt8} : Chars text → Str (quote :: (text ++ [quote]))

def Digits (text : List UInt8) : Prop := text ≠ [] ∧ ∀ c ∈ text, 48 ≤ c ∧ c ≤ 57

inductive Whole : List UInt8 → Prop where
  | zero : Whole [48]
  | other {text : List UInt8} : Digits text → text.head? ≠ some 48 → Whole text

inductive Fraction : List UInt8 → Prop where
  | none : Fraction []
  | some {text : List UInt8} : Digits text → Fraction (46 :: text)

inductive Exponent : List UInt8 → Prop where
  | none : Exponent []
  | some {e : UInt8} {sign text : List UInt8} : e ∈ [69, 101] → sign ∈ [[], [43], [45]] → Digits text → Exponent (e :: (sign ++ text))

inductive Number : List UInt8 → Prop where
  | parts {sign whole fraction exponent : List UInt8} :
      sign ∈ [[], [45]] → Whole whole → Fraction fraction → Exponent exponent → Number (sign ++ whole ++ fraction ++ exponent)

/-- `null`, `true` and `false`. -/
def literals : List (List UInt8) := [[110, 117, 108, 108], [116, 114, 117, 101], [102, 97, 108, 115, 101]]

/-! ### Texts -/

inductive Category where
  | value
  | object
  | element
  | items
  | member
  | members

/-- The derivations of a text, with how deep its objects nest. -/
inductive Derives : Category → Nat → List UInt8 → Prop where
  | literal {text : List UInt8} : text ∈ literals → Derives .value 0 text
  | number {text : List UInt8} : Number text → Derives .value 0 text
  | string {text : List UInt8} : Str text → Derives .value 0 text
  | emptyArray {blanks : List UInt8} : Blanks blanks → Derives .value 0 (openBracket :: (blanks ++ [closeBracket]))
  | array {d : Nat} {text : List UInt8} : Derives .items d text → Derives .value d (openBracket :: (text ++ [closeBracket]))
  | emptyObject {blanks : List UInt8} : Blanks blanks → Derives .object 1 (openBrace :: (blanks ++ [closeBrace]))
  | object {d : Nat} {text : List UInt8} :
      Derives .members d text → Derives .object (d + 1) (openBrace :: (text ++ [closeBrace]))
  | nested {d : Nat} {text : List UInt8} : Derives .object d text → Derives .value d text
  | element {d : Nat} {left text right : List UInt8} :
      Blanks left → Derives .value d text → Blanks right → Derives .element d (left ++ text ++ right)
  | lastItem {d : Nat} {text : List UInt8} : Derives .element d text → Derives .items d text
  | moreItems {d e : Nat} {text more : List UInt8} :
      Derives .element d text → Derives .items e more → Derives .items (max d e) (text ++ comma :: more)
  | member {d : Nat} {left key right text : List UInt8} :
      Blanks left → Str key → Blanks right → Derives .element d text → Derives .member d (left ++ key ++ right ++ colon :: text)
  | lastMember {d : Nat} {text : List UInt8} : Derives .member d text → Derives .members d text
  | moreMembers {d e : Nat} {text more : List UInt8} :
      Derives .member d text → Derives .members e more → Derives .members (max d e) (text ++ comma :: more)

/-! ### Bytes that open and close nothing -/

/-- Neither a quote nor a brace. -/
def Plain (text : List UInt8) : Prop := ∀ c ∈ text, c ≠ quote ∧ c ≠ openBrace ∧ c ≠ closeBrace

-- Byte by byte, and not over all bytes there are.
instance (text : List UInt8) : Decidable (Plain text) := List.decidableBAll (fun c => c ≠ quote ∧ c ≠ openBrace ∧ c ≠ closeBrace) text

section

variable {left right text : List UInt8}

theorem plain_append : Plain (left ++ right) ↔ Plain left ∧ Plain right := List.forall_mem_append

theorem Blanks.plain (blanks : Blanks text) : Plain text := by
  intro c member
  have blank := blanks c member
  simp only [List.mem_cons, List.not_mem_nil, or_false] at blank
  rcases blank with rfl | rfl | rfl | rfl <;> decide

theorem Digits.plain (digits : Digits text) : Plain text := by
  intro c member
  have ⟨low, high⟩ := digits.2 c member
  refine ⟨?_, ?_, ?_⟩
  all_goals
    rintro rfl
    revert high
    first | decide | exact absurd low (by decide)

theorem Whole.plain (whole : Whole text) : Plain text := by
  cases whole with
  | zero => decide
  | other digits => exact digits.plain

theorem Fraction.plain (fraction : Fraction text) : Plain text := by
  cases fraction with
  | none => decide
  | some digits => exact plain_append.mpr ⟨(by decide : Plain [46]), digits.plain⟩

theorem Exponent.plain (exponent : Exponent text) : Plain text := by
  cases exponent with
  | none => decide
  | @some e sign text letter signed digits =>
    have lead : Plain [e] := by
      simp only [List.mem_cons, List.not_mem_nil, or_false] at letter
      rcases letter with rfl | rfl <;> decide
    have middle : Plain sign := by
      simp only [List.mem_cons, List.not_mem_nil, or_false] at signed
      rcases signed with rfl | rfl | rfl <;> decide
    exact plain_append.mpr ⟨lead, plain_append.mpr ⟨middle, digits.plain⟩⟩

theorem Number.plain (number : Number text) : Plain text := by
  cases number with
  | @parts sign whole fraction exponent signed first second third =>
    have lead : Plain sign := by
      simp only [List.mem_cons, List.not_mem_nil, or_false] at signed
      rcases signed with rfl | rfl <;> decide
    exact plain_append.mpr ⟨plain_append.mpr ⟨plain_append.mpr ⟨lead, first.plain⟩, second.plain⟩, third.plain⟩

theorem plain_literal : ∀ text ∈ literals, Plain text := by decide

/-- An object is what stands between its braces. -/
theorem Derives.object_cases {d : Nat} (object : Derives .object d text) :
    ∃ e body, d = e + 1 ∧ text = openBrace :: (body ++ [closeBrace]) ∧ (Blanks body ∧ e = 0 ∨ Derives .members e body) := by
  cases object with
  | emptyObject blanks => exact ⟨0, _, rfl, rfl, .inl ⟨blanks, rfl⟩⟩
  | object members => exact ⟨_, _, rfl, rfl, .inr members⟩

end

end JsonGrammar

end Braidcast.Lib
