import Mathlib.Data.List.TakeWhile

/-!
# Fields of a text

A text is cut at a separator, and what could be taken for a separator is written as a pair of a mark
and a code.
-/
namespace Braidcast.Lib

variable {α : Type} [DecidableEq α]

/-- What stands before the first separator; all there is, without one. -/
def upTo (sep : α) (xs : List α) : List α := xs.takeWhile (· != sep)

/-- What stands behind the first separator; nothing, without one. -/
def pastFirst (sep : α) (xs : List α) : List α := (xs.dropWhile (· != sep)).tail

variable {sep : α} {xs : List α}

section

variable (clean : sep ∉ xs)
include clean

private theorem each_differs : ∀ x ∈ xs, (x != sep) = true := fun x member => by
  rw [bne_iff_ne]
  exact fun same => clean (same ▸ member)

theorem upTo_append_cons (ys : List α) : upTo sep (xs ++ sep :: ys) = xs := by
  rw [upTo, List.takeWhile_append_of_pos (each_differs clean), List.takeWhile_cons_of_neg (by simp), List.append_nil]

theorem pastFirst_append_cons (ys : List α) : pastFirst sep (xs ++ sep :: ys) = ys := by
  rw [pastFirst, List.dropWhile_append_of_pos (each_differs clean), List.dropWhile_cons_of_neg (by simp), List.tail_cons]

theorem upTo_of_notMem : upTo sep xs = xs := List.takeWhile_eq_self_iff.mpr (each_differs clean)

theorem pastFirst_of_notMem : pastFirst sep xs = [] := by
  rw [pastFirst, List.dropWhile_eq_nil_iff.mpr (each_differs clean), List.tail_nil]

end

omit [DecidableEq α] in
theorem notMem_intercalate {x : α} {fields : List (List α)} (apart : x ≠ sep) (clean : ∀ field ∈ fields, x ∉ field) :
    x ∉ [sep].intercalate fields := by
  induction fields with
  | nil => exact List.not_mem_nil
  | cons field fields ih =>
    obtain ⟨here, others⟩ := List.forall_mem_cons.mp clean
    cases fields with
    | nil => rwa [List.intercalate_singleton]
    | cons next fields =>
      rw [List.intercalate_cons_cons, List.mem_append, List.mem_append, List.mem_singleton, not_or, not_or]
      exact ⟨⟨here, apart⟩, ih others⟩

/-! ## Escapes -/

/-- `code x` is what is written behind the mark in the place of `x`, if `x` cannot stand for itself. -/
def escape (mark : α) (code : α → Option α) (xs : List α) : List α :=
  xs.flatMap fun x => match code x with
    | some y => [mark, y]
    | none => [x]

/-- A mark that nothing follows is dropped. -/
def unescape (mark : α) (decode : α → α) : List α → List α
  | [] => []
  | [x] => if x = mark then [] else [x]
  | x :: y :: rest => if x = mark then decode y :: unescape mark decode rest else x :: unescape mark decode (y :: rest)

variable {mark x : α} {code : α → Option α} {decode : α → α}

omit [DecidableEq α] in
theorem escape_cons (x : α) (xs : List α) : escape mark code (x :: xs) = escape mark code [x] ++ escape mark code xs := by
  rw [escape, escape, escape, List.flatMap_cons, List.flatMap_singleton]

theorem unescape_mark (y : α) (rest : List α) : unescape mark decode (mark :: y :: rest) = decode y :: unescape mark decode rest := by
  rw [unescape, if_pos rfl]

theorem unescape_cons_of_ne (plain : x ≠ mark) (rest : List α) : unescape mark decode (x :: rest) = x :: unescape mark decode rest := by
  cases rest with
  | nil => exact if_neg plain
  | cons y rest => rw [unescape, if_neg plain]

theorem unescape_of_notMem (plain : mark ∉ xs) : unescape mark decode xs = xs := by
  induction xs with
  | nil => rfl
  | cons x xs ih =>
    rw [List.mem_cons, not_or] at plain
    rw [unescape_cons_of_ne (Ne.symm plain.1), ih plain.2]

/-- What is escaped is read back, provided the mark itself is escaped. -/
theorem unescape_escape (marked : code mark ≠ none) (inverse : ∀ x y, code x = some y → decode y = x) (xs : List α) :
    unescape mark decode (escape mark code xs) = xs := by
  induction xs with
  | nil => rfl
  | cons x xs ih =>
    rw [escape_cons, escape, List.flatMap_singleton]
    cases known : code x with
    | some y =>
      calc unescape mark decode (mark :: y :: escape mark code xs) = decode y :: unescape mark decode (escape mark code xs) :=
            unescape_mark y _
        _ = x :: xs := by rw [inverse x y known, ih]
    | none =>
      have plain : x ≠ mark := fun same => marked (same ▸ known)
      calc unescape mark decode (x :: escape mark code xs) = x :: unescape mark decode (escape mark code xs) :=
            unescape_cons_of_ne plain _
        _ = x :: xs := by rw [ih]

omit [DecidableEq α] in
/-- What is escaped and is no code does not stand in an escaped text. -/
theorem notMem_escape (hidden : code x ≠ none) (unmarked : x ≠ mark) (uncoded : ∀ y, code y ≠ some x) (xs : List α) :
    x ∉ escape mark code xs := by
  intro member
  obtain ⟨y, -, inside⟩ := List.mem_flatMap.mp member
  split at inside
  next z known =>
    rcases List.mem_cons.mp inside with same | inside
    · exact unmarked same
    · exact uncoded y (List.mem_singleton.mp inside ▸ known)
  next known => exact hidden (List.mem_singleton.mp inside ▸ known)

omit [DecidableEq α] in
theorem escape_of_plain (plain : ∀ x ∈ xs, code x = none) : escape mark code xs = xs := by
  induction xs with
  | nil => rfl
  | cons x xs ih =>
    obtain ⟨here, others⟩ := List.forall_mem_cons.mp plain
    rw [escape_cons, ih others, escape, List.flatMap_singleton, here]
    rfl

end Braidcast.Lib
