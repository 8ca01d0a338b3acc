import Mathlib.Data.String.Basic

/-!
# Parts of a string that can be told apart

A part that carries its length in front can be read back off a string, whatever follows it. A part
that is only followed by a separator cannot: what comes back are its pieces between separators.
-/
namespace Braidcast.Lib

def lengthPrefixed (part : String) : String := toString part.length ++ ":" ++ part

theorem colon_not_mem_digits (n : Nat) : ':' ∉ Nat.toDigits 10 n := by
  intro member
  exact absurd (Nat.isDigit_of_mem_toDigits (by decide) (by decide) member) (by decide)

theorem toDigits_inj {m n : Nat} (same : Nat.toDigits 10 m = Nat.toDigits 10 n) : m = n := by
  have numbers := congrArg (Nat.ofDigitChars 10 · 0) same
  simpa [Nat.ofDigitChars_toDigits] using numbers

/-- What stands before the first occurrence of an item is told apart from what follows it. -/
theorem append_cons_inj {α : Type} {x : α} : ∀ {xs ys zs ws : List α}, x ∉ xs → x ∉ ys →
    xs ++ x :: zs = ys ++ x :: ws → xs = ys ∧ zs = ws
  | [], [], zs, ws, _, _, same => ⟨rfl, (List.cons.inj same).2⟩
  | [], y :: ys, _, _, _, free, same => by
    have head : x = y := (List.cons.inj same).1
    exact absurd (head ▸ List.mem_cons_self) free
  | z :: xs, [], _, _, free, _, same => by
    have head : z = x := (List.cons.inj same).1
    exact absurd (head ▸ List.mem_cons_self) free
  | z :: xs, y :: ys, zs, ws, free, free', same => by
    obtain ⟨head, tail⟩ := List.cons.inj same
    obtain ⟨front, rest⟩ := append_cons_inj (fun member => free (List.mem_cons_of_mem _ member))
      (fun member => free' (List.mem_cons_of_mem _ member)) tail
    exact ⟨by rw [head, front], rest⟩

theorem toList_lengthPrefixed (part : String) :
    (lengthPrefixed part).toList = Nat.toDigits 10 part.length ++ ':' :: part.toList := by
  simp [lengthPrefixed, toString, Nat.toList_repr]

/-- A part is read back off the string it begins. -/
theorem lengthPrefixed_append_inj {p q r s : String} (same : lengthPrefixed p ++ r = lengthPrefixed q ++ s) :
    p = q ∧ r = s := by
  have chars := congrArg String.toList same
  simp only [String.toList_append, toList_lengthPrefixed, List.append_assoc, List.cons_append] at chars
  obtain ⟨digits, rest⟩ := append_cons_inj (colon_not_mem_digits _) (colon_not_mem_digits _) chars
  have lengths := toDigits_inj digits
  obtain ⟨part, tail⟩ := List.append_inj rest (by simpa only [String.length_toList] using lengths)
  exact ⟨String.toList_inj.mp part, String.toList_inj.mp tail⟩

theorem lengthPrefixed_append_ne (p r : String) : lengthPrefixed p ++ r ≠ "" := by
  intro empty
  have chars := congrArg String.toList empty
  simp [toList_lengthPrefixed] at chars

/-- Keys with their values, each with its length in front. -/
def keyed : List (String × String) → String
  | [] => ""
  | (key, value) :: rest => lengthPrefixed key ++ lengthPrefixed value ++ keyed rest

theorem keyed_inj {xs ys : List (String × String)} (same : keyed xs = keyed ys) : xs = ys := by
  induction xs generalizing ys with
  | nil =>
    cases ys with
    | nil => rfl
    | cons y ys =>
      rw [keyed, keyed, String.append_assoc] at same
      exact absurd same.symm (lengthPrefixed_append_ne _ _)
  | cons x xs ih =>
    cases ys with
    | nil =>
      rw [keyed, keyed, String.append_assoc] at same
      exact absurd same (lengthPrefixed_append_ne _ _)
    | cons y ys =>
      simp only [keyed, String.append_assoc] at same
      obtain ⟨key, rest⟩ := lengthPrefixed_append_inj same
      obtain ⟨value, rest⟩ := lengthPrefixed_append_inj rest
      rw [Prod.ext key value, ih rest]

/-- What is listed under distinct keys is known for each of them. -/
theorem filterMap_keyed_inj {ρ κ β : Type} {key : ρ → κ} {f g : ρ → Option β} {rules : List ρ}
    (nodup : (rules.map key).Nodup)
    (same : rules.filterMap (fun r => (f r).map (key r, ·)) = rules.filterMap fun r => (g r).map (key r, ·)) :
    ∀ r ∈ rules, f r = g r := by
  -- a rule's key is not among those of the rest
  have listed : ∀ {rest : List ρ} {h : ρ → Option β} {k : κ} {b : β},
      (k, b) ∈ rest.filterMap (fun r => (h r).map (key r, ·)) → k ∈ rest.map key := by
    intro rest h k b member
    obtain ⟨r, there, found⟩ := List.mem_filterMap.mp member
    obtain ⟨_, -, same⟩ := Option.map_eq_some_iff.mp found
    exact (Prod.mk.inj same).1 ▸ List.mem_map_of_mem there
  induction rules with
  | nil => exact fun r member => absurd member List.not_mem_nil
  | cons rule rest ih =>
    obtain ⟨apart, nodup⟩ := List.nodup_cons.mp nodup
    have both : f rule = g rule ∧ rest.filterMap (fun r => (f r).map (key r, ·)) =
        rest.filterMap fun r => (g r).map (key r, ·) := by
      simp only [List.filterMap_cons] at same
      cases here : f rule with
      | none =>
        cases there : g rule with
        | none =>
          simp only [here, there, Option.map_none] at same
          exact ⟨rfl, same⟩
        | some b =>
          simp only [here, there, Option.map_none, Option.map_some] at same
          exact absurd (listed (same ▸ List.mem_cons_self)) apart
      | some b =>
        cases there : g rule with
        | none =>
          simp only [here, there, Option.map_none, Option.map_some] at same
          exact absurd (listed (same.symm ▸ List.mem_cons_self)) apart
        | some c =>
          simp only [here, there, Option.map_some, List.cons.injEq, Prod.mk.injEq, true_and] at same
          exact ⟨congrArg some same.1, same.2⟩
    intro r member
    rcases List.mem_cons.mp member with rfl | later
    · exact both.1
    · exact ih nodup both.2 r later

/-! ### Separators -/

/-- The pieces between separators of the parts, one after another. -/
def pieces (separator : Char) (parts : List String) : List (List Char) :=
  parts.flatMap fun part => part.toList.splitOn separator

variable {separator : Char} {parts : List String}

theorem splitOn_intercalate_toList (some : parts ≠ []) :
    ([separator].intercalate (parts.map String.toList)).splitOn separator = pieces separator parts := by
  induction parts with
  | nil => exact absurd rfl some
  | cons part rest ih =>
    cases rest with
    | nil => simp [pieces]
    | cons next rest =>
      have later := ih (by simp)
      rw [List.map_cons, List.map_cons, List.intercalate_cons_cons]
      rw [List.map_cons] at later
      rw [List.append_assoc, List.singleton_append, List.splitOn_append_cons_self, later]
      rfl

theorem pieces_eq_nil : pieces separator parts = [] ↔ parts = [] := by
  cases parts with
  | nil => simp [pieces]
  | cons part rest => simp [pieces, List.splitOn_ne_nil]

theorem intercalate_toList_ne (separator : Char) (some : parts ≠ [])
    (filled : ∀ part ∈ parts, part ≠ "") : [separator].intercalate (parts.map String.toList) ≠ [] := by
  intro empty
  cases parts with
  | nil => exact some rfl
  | cons part rest =>
    have first : part.toList ≠ [] := fun none => filled part List.mem_cons_self (String.toList_eq_nil_iff.mp none)
    cases rest with
    | nil => exact first (by simpa using empty)
    | cons next rest =>
      rw [List.map_cons, List.map_cons, List.intercalate_cons_cons] at empty
      simp at empty

/-- Joined parts are told apart by their pieces, and by nothing else. -/
theorem intercalate_inj_iff (separator : Char) {xs ys : List String} (filled : ∀ part ∈ xs, part ≠ "")
    (filled' : ∀ part ∈ ys, part ≠ "") :
    [separator].intercalate (xs.map String.toList) = [separator].intercalate (ys.map String.toList) ↔
      pieces separator xs = pieces separator ys := by
  rcases eq_or_ne xs [] with rfl | some
  · rcases eq_or_ne ys [] with rfl | some'
    · simp
    · have joined := intercalate_toList_ne separator some' filled'
      have cut : pieces separator ys ≠ [] := pieces_eq_nil.not.mpr some'
      exact iff_of_false joined.symm cut.symm
  · rcases eq_or_ne ys [] with rfl | some'
    · have joined := intercalate_toList_ne separator some filled
      have cut : pieces separator xs ≠ [] := pieces_eq_nil.not.mpr some
      exact iff_of_false joined cut
    · rw [← splitOn_intercalate_toList some, ← splitOn_intercalate_toList some']
      constructor
      · exact congrArg (List.splitOn separator)
      · intro same
        have back := congrArg [separator].intercalate same
        simpa only [List.intercalate_splitOn] using back

/-- Parts without the separator are their own pieces. -/
theorem pieces_of_free (free : ∀ part ∈ parts, separator ∉ part.toList) :
    pieces separator parts = parts.map String.toList := by
  unfold pieces
  induction parts with
  | nil => rfl
  | cons part rest ih =>
    rw [List.flatMap_cons, List.splitOn_eq_singleton (free part List.mem_cons_self),
      ih fun next member => free next (List.mem_cons_of_mem _ member)]
    rfl

end Braidcast.Lib
