import Braidcast.Lib.JsonTree
import Braidcast.Lib.Lists

/-!
# JSON texts and their words

A word is given letter by letter, each as the characters it may be. What is known about a text that is
put together, or quoted character by character, is which words occur in it.
-/
namespace Braidcast.Lib

abbrev Word (α : Type) := List (α → Bool)

namespace Word

variable {α : Type}

/-- The text begins with the word. -/
def begins : Word α → List α → Bool
  | [], _ => true
  | _ :: _, [] => false
  | p :: w, x :: xs => p x && begins w xs

def occurs (w : Word α) : List α → Bool
  | [] => begins w []
  | x :: xs => begins w (x :: xs) || occurs w xs

/-- No letter of the word can be `x`. -/
def Foreign (w : Word α) (x : α) : Prop := ∀ p ∈ w, p x = false

variable {w : Word α} {p : α → Bool} {x : α} {xs ys : List α}

theorem Foreign.tail (foreign : Foreign (p :: w) x) : Foreign w x := fun q member => foreign q (List.mem_cons_of_mem _ member)

theorem begins_append_cons (foreign : Foreign w x) (xs ys : List α) : begins w (xs ++ x :: ys) = begins w xs := by
  induction w generalizing xs with
  | nil => simp [begins]
  | cons p w ih =>
    cases xs with
    | nil => simp [begins, foreign p List.mem_cons_self]
    | cons y xs => simp [begins, ih foreign.tail]

theorem begins_cons_of_foreign (foreign : Foreign (p :: w) x) (ys : List α) : begins (p :: w) (x :: ys) = false := by
  simp [begins, foreign p List.mem_cons_self]

/-- No word goes across a character that is foreign to it. -/
theorem occurs_append_cons (foreign : Foreign (p :: w) x) (xs ys : List α) :
    occurs (p :: w) (xs ++ x :: ys) = (occurs (p :: w) xs || occurs (p :: w) ys) := by
  induction xs with
  | nil => simp [occurs, begins, foreign p List.mem_cons_self]
  | cons y xs ih =>
    have here := begins_append_cons foreign (y :: xs) ys
    rw [List.cons_append] at here ⊢
    rw [occurs, occurs, here, ih, Bool.or_assoc]

theorem occurs_cons_of_foreign (foreign : Foreign (p :: w) x) (ys : List α) : occurs (p :: w) (x :: ys) = occurs (p :: w) ys := by
  rw [occurs, begins_cons_of_foreign foreign, Bool.false_or]

theorem occurs_cons_of_first (other : p x = false) (ys : List α) : occurs (p :: w) (x :: ys) = occurs (p :: w) ys := by
  simp [occurs, begins, other]

/-- A word does not occur where its first letter does not. -/
theorem occurs_append_of_first (other : ∀ x ∈ xs, p x = false) (ys : List α) : occurs (p :: w) (xs ++ ys) = occurs (p :: w) ys := by
  induction xs with
  | nil => rfl
  | cons x xs ih =>
    obtain ⟨here, others⟩ := List.forall_mem_cons.mp other
    rw [List.cons_append, occurs_cons_of_first here, ih others]

theorem occurs_of_first (other : ∀ x ∈ xs, p x = false) : occurs (p :: w) xs = false := by
  have nothing := occurs_append_of_first (w := w) other []
  rwa [List.append_nil] at nothing

theorem begins_concat (other : ∀ q ∈ (p :: w).getLast?, q x = false) (xs : List α) : begins (p :: w) (xs ++ [x]) = begins (p :: w) xs := by
  induction w generalizing p xs with
  | nil =>
    have last : p x = false := other p rfl
    cases xs with
    | nil => simp [begins, last]
    | cons y xs => simp [begins]
  | cons q w ih =>
    cases xs with
    | nil => simp [begins]
    | cons y xs =>
      rw [List.cons_append, begins, begins, ih (fun r last => other r (by rwa [List.getLast?_cons_cons])) xs]

/-- A word does not end in what its last letter cannot be. -/
theorem occurs_concat (other : ∀ q ∈ (p :: w).getLast?, q x = false) (xs : List α) : occurs (p :: w) (xs ++ [x]) = occurs (p :: w) xs := by
  induction xs with
  | nil =>
    have alone := begins_concat other []
    rw [List.nil_append] at alone
    calc (begins (p :: w) [x] || occurs (p :: w) []) = (begins (p :: w) [] || occurs (p :: w) []) := by rw [alone]
      _ = occurs (p :: w) [] := rfl
  | cons y xs ih =>
    have here := begins_concat other (y :: xs)
    rw [List.cons_append] at here ⊢
    rw [occurs, occurs, here, ih]

/-- A quoting of characters: what the word can hold stands for itself, and the rest is put behind
something foreign, without the word's first letter. -/
structure Quotes (p : α → Bool) (w : Word α) (f : α → List α) (x : α) : Prop where
  plain : ¬ Foreign (p :: w) x → f x = [x]
  quoted : Foreign (p :: w) x → f x = [x] ∨ ∃ mark rest, f x = mark :: rest ∧ Foreign (p :: w) mark ∧ ∀ y ∈ rest, p y = false

theorem begins_flatMap {f : α → List α} (quotes : ∀ x, Quotes p w f x) {v : Word α} (part : v <:+ p :: w) (xs : List α) :
    begins v (xs.flatMap f) = begins v xs := by
  induction xs generalizing v with
  | nil => rfl
  | cons x xs ih =>
    cases v with
    | nil => simp [begins]
    | cons q v =>
      have rest : v <:+ p :: w := (List.suffix_cons q v).trans part
      have plain : f x = [x] → begins (q :: v) ((x :: xs).flatMap f) = begins (q :: v) (x :: xs) := fun same => by
        rw [List.flatMap_cons, same, List.singleton_append, begins, begins, ih rest]
      by_cases foreign : Foreign (p :: w) x
      · rcases (quotes x).quoted foreign with same | ⟨mark, behind, same, marked, -⟩
        · exact plain same
        · have member : q ∈ p :: w := part.subset List.mem_cons_self
          rw [List.flatMap_cons, same, List.cons_append, begins, begins, marked q member, foreign q member, Bool.false_and, Bool.false_and]
      · exact plain ((quotes x).plain foreign)

/-- Quoting neither makes a word nor takes one away. -/
theorem occurs_flatMap {f : α → List α} (quotes : ∀ x, Quotes p w f x) (xs : List α) : occurs (p :: w) (xs.flatMap f) = occurs (p :: w) xs := by
  induction xs with
  | nil => rfl
  | cons x xs ih =>
    have plain : f x = [x] → occurs (p :: w) ((x :: xs).flatMap f) = occurs (p :: w) (x :: xs) := fun same => by
      have here := begins_flatMap quotes (List.suffix_refl (p :: w)) (x :: xs)
      rw [List.flatMap_cons, same, List.singleton_append] at here ⊢
      rw [occurs, occurs, here, ih]
    by_cases foreign : Foreign (p :: w) x
    · rcases (quotes x).quoted foreign with same | ⟨mark, behind, same, marked, behind_first⟩
      · exact plain same
      · rw [List.flatMap_cons, same, List.cons_append, occurs_cons_of_foreign marked, occurs_append_of_first behind_first, ih,
          occurs_cons_of_foreign foreign]
    · exact plain ((quotes x).plain foreign)

end Word

end Braidcast.Lib

/-!
## JSON texts

A JSON tree as it is written without blanks, and the words in it: those of its strings.
-/
namespace Braidcast.Lib

/-- How numbers are written. -/
structure Numerals (ν : Type) where
  ofInt : Int → ν
  text : ν → List Char
  plain : ∀ n, ∀ c ∈ text n, c ≠ '<'

def hexDigit (n : Nat) : Char := if n < 10 then Char.ofNat (48 + n) else Char.ofNat (87 + n)

def quoteMark : Char := Char.ofNat 34

def backslash : Char := Char.ofNat 92

def escapeChar (c : Char) : List Char :=
  if c = quoteMark ∨ c = backslash then [backslash, c]
  else if c.toNat = 8 then [backslash, 'b']
  else if c.toNat = 9 then [backslash, 't']
  else if c.toNat = 10 then [backslash, 'n']
  else if c.toNat = 12 then [backslash, 'f']
  else if c.toNat = 13 then [backslash, 'r']
  else if c.toNat < 32 then [backslash, 'u', '0', '0', hexDigit (c.toNat / 16), hexDigit (c.toNat % 16)]
  else [c]

def quoted (s : String) : List Char := quoteMark :: (s.toList.flatMap escapeChar ++ [quoteMark])

namespace JsonTree

variable {ν : Type}

mutual

def dump (numerals : Numerals ν) : JsonTree ν → List Char
  | .null => ['n', 'u', 'l', 'l']
  | .bool true => ['t', 'r', 'u', 'e']
  | .bool false => ['f', 'a', 'l', 's', 'e']
  | .num n => numerals.text n
  | .str s => quoted s
  | .arr [] => ['[', ']']
  | .arr (item :: items) => '[' :: (dump numerals item ++ (dumpItems numerals items ++ [']']))
  | .obj [] => ['\x7b', '\x7d']
  | .obj ((key, value) :: fields) => '\x7b' :: (quoted key ++ ':' :: (dump numerals value ++ (dumpFields numerals fields ++ ['\x7d'])))

def dumpItems (numerals : Numerals ν) : List (JsonTree ν) → List Char
  | [] => []
  | item :: items => ',' :: (dump numerals item ++ dumpItems numerals items)

def dumpFields (numerals : Numerals ν) : List (String × JsonTree ν) → List Char
  | [] => []
  | (key, value) :: fields => ',' :: (quoted key ++ ':' :: (dump numerals value ++ dumpFields numerals fields))

end

mutual

/-- The strings of a tree, keys included. -/
def texts : JsonTree ν → List String
  | .str s => [s]
  | .arr items => textsItems items
  | .obj fields => textsFields fields
  | _ => []

def textsItems : List (JsonTree ν) → List String
  | [] => []
  | item :: items => texts item ++ textsItems items

def textsFields : List (String × JsonTree ν) → List String
  | [] => []
  | (key, value) :: fields => key :: (texts value ++ textsFields fields)

end

/-- A word of a text, not of how JSON is written. -/
structure Textual (p : Char → Bool) (w : Word Char) : Prop where
  first : ∀ c, p c = true → c = '<'
  foreign : ∀ c, c.toNat < 32 ∨ c ∈ [quoteMark, backslash, ',', ':', '[', ']', '\x7b', '\x7d'] → Word.Foreign (p :: w) c

variable {p : Char → Bool} {w : Word Char}

theorem Textual.ne_first (textual : Textual p w) {c : Char} (other : c ≠ '<') : p c = false :=
  Bool.eq_false_iff.mpr fun first => other (textual.first c first)

theorem hexDigit_ne : ∀ n < 16, hexDigit n ≠ '<' := by decide

section

variable (textual : Textual p w)
include textual

theorem Textual.quotes (c : Char) : Word.Quotes p w escapeChar c := by
  have marked : Word.Foreign (p :: w) backslash := textual.foreign backslash (.inr (by decide))
  constructor
  · intro known
    have printed : ¬ c.toNat < 32 := fun control => known (textual.foreign c (.inl control))
    have unmarked : ¬ (c = quoteMark ∨ c = backslash) := fun mark => known (textual.foreign c (.inr (by rcases mark with rfl | rfl <;> decide)))
    unfold escapeChar
    rw [if_neg unmarked, if_neg (by omega), if_neg (by omega), if_neg (by omega), if_neg (by omega), if_neg (by omega), if_neg printed]
  · intro _
    have letter : ∀ {x : Char}, x ≠ '<' → ∃ mark rest, [backslash, x] = mark :: rest ∧ Word.Foreign (p :: w) mark ∧ ∀ y ∈ rest, p y = false :=
      fun other => ⟨_, _, rfl, marked, fun y member => List.mem_singleton.mp member ▸ textual.ne_first other⟩
    unfold escapeChar
    split
    next mark => exact .inr (letter (by rcases mark with rfl | rfl <;> decide))
    split
    next => exact .inr (letter (by decide))
    split
    next => exact .inr (letter (by decide))
    split
    next => exact .inr (letter (by decide))
    split
    next => exact .inr (letter (by decide))
    split
    next => exact .inr (letter (by decide))
    split
    next control =>
      refine .inr ⟨_, _, rfl, marked, fun y member => textual.ne_first ?_⟩
      have high := hexDigit_ne (c.toNat / 16) (by omega)
      have low := hexDigit_ne (c.toNat % 16) (by omega)
      simp only [List.mem_cons, List.not_mem_nil, or_false] at member
      rcases member with rfl | rfl | rfl | rfl | rfl
      · decide
      · decide
      · decide
      · exact high
      · exact low
    next => exact .inl rfl

theorem Textual.occurs_quoted (s : String) : Word.occurs (p :: w) (quoted s) = Word.occurs (p :: w) s.toList := by
  have marked : Word.Foreign (p :: w) quoteMark := textual.foreign quoteMark (.inr (by decide))
  rw [quoted, Word.occurs_cons_of_foreign marked, Word.occurs_append_cons marked, Word.occurs_flatMap textual.quotes]
  exact Bool.or_false _

theorem Textual.occurs_append {c : Char} (structural : c ∈ [quoteMark, backslash, ',', ':', '[', ']', '\x7b', '\x7d'])
    (xs ys : List Char) : Word.occurs (p :: w) (xs ++ c :: ys) = (Word.occurs (p :: w) xs || Word.occurs (p :: w) ys) :=
  Word.occurs_append_cons (textual.foreign c (.inr structural)) xs ys

theorem Textual.occurs_cons {c : Char} (structural : c ∈ [quoteMark, backslash, ',', ':', '[', ']', '\x7b', '\x7d'])
    (xs : List Char) : Word.occurs (p :: w) (c :: xs) = Word.occurs (p :: w) xs :=
  Word.occurs_cons_of_foreign (textual.foreign c (.inr structural)) xs

theorem Textual.occurs_of_ne {xs : List Char} (other : ∀ c ∈ xs, c ≠ '<') : Word.occurs (p :: w) xs = false :=
  Word.occurs_of_first fun c member => textual.ne_first (other c member)

end

/-- Some string of a list has the word. -/
def anyHas (w : Word Char) (texts : List String) : Bool := texts.any fun text => Word.occurs w text.toList

theorem anyHas_append (w : Word Char) (xs ys : List String) : anyHas w (xs ++ ys) = (anyHas w xs || anyHas w ys) := List.any_append

theorem anyHas_cons (w : Word Char) (text : String) (texts : List String) : anyHas w (text :: texts) = (Word.occurs w text.toList || anyHas w texts) := rfl

mutual

/-- A word occurs in what is written where it occurs in a string. -/
theorem Textual.occurs_dump (textual : Textual p w) (numerals : Numerals ν) : ∀ j : JsonTree ν,
    Word.occurs (p :: w) (dump numerals j) = anyHas (p :: w) (texts j)
  | .null => by
    rw [dump]
    exact textual.occurs_of_ne (forall_mem_of_all (by decide))
  | .bool true => by
    rw [dump]
    exact textual.occurs_of_ne (forall_mem_of_all (by decide))
  | .bool false => by
    rw [dump]
    exact textual.occurs_of_ne (forall_mem_of_all (by decide))
  | .num n => textual.occurs_of_ne (numerals.plain n)
  | .str s => by
    rw [dump, texts, textual.occurs_quoted]
    exact (Bool.or_false _).symm
  | .arr [] => by
    rw [dump]
    exact textual.occurs_of_ne (forall_mem_of_all (by decide))
  | .arr (item :: items) => by
    have inner := textual.occurs_items numerals items (dump numerals item)
    rw [textual.occurs_dump numerals item] at inner
    rw [dump, texts, textsItems, anyHas_append, textual.occurs_cons (by decide), ← List.append_assoc, textual.occurs_append (by decide), inner]
    exact Bool.or_false _
  | .obj [] => by
    rw [dump]
    exact textual.occurs_of_ne (forall_mem_of_all (by decide))
  | .obj ((key, value) :: fields) => by
    have inner := textual.occurs_fields numerals fields (dump numerals value)
    rw [textual.occurs_dump numerals value] at inner
    rw [dump, texts, textsFields, anyHas_cons, anyHas_append, textual.occurs_cons (by decide), textual.occurs_append (by decide),
      textual.occurs_quoted, ← List.append_assoc, textual.occurs_append (by decide), inner]
    exact congrArg _ (Bool.or_false _)

/-- The items behind the first, and what is before them. -/
theorem Textual.occurs_items (textual : Textual p w) (numerals : Numerals ν) : ∀ (items : List (JsonTree ν)) (xs : List Char),
    Word.occurs (p :: w) (xs ++ dumpItems numerals items) = (Word.occurs (p :: w) xs || anyHas (p :: w) (textsItems items))
  | [], xs => by
    rw [dumpItems, List.append_nil]
    exact (Bool.or_false _).symm
  | item :: items, xs => by
    rw [dumpItems, textsItems, anyHas_append, textual.occurs_append (by decide), textual.occurs_items numerals items (dump numerals item),
      textual.occurs_dump numerals item]

theorem Textual.occurs_fields (textual : Textual p w) (numerals : Numerals ν) : ∀ (fields : List (String × JsonTree ν)) (xs : List Char),
    Word.occurs (p :: w) (xs ++ dumpFields numerals fields) = (Word.occurs (p :: w) xs || anyHas (p :: w) (textsFields fields))
  | [], xs => by
    rw [dumpFields, List.append_nil]
    exact (Bool.or_false _).symm
  | (key, value) :: fields, xs => by
    rw [dumpFields, textsFields, anyHas_cons, anyHas_append, textual.occurs_append (by decide), textual.occurs_append (by decide),
      textual.occurs_quoted, textual.occurs_fields numerals fields (dump numerals value), textual.occurs_dump numerals value]

end

end JsonTree

end Braidcast.Lib
