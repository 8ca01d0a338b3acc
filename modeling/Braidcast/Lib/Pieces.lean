import Mathlib.Data.List.Basic

/-!
# A list cut into pieces

The cut says, where a piece begins, how much of what follows belongs to it. Whatever it says, the
pieces are the list. The runs of a predicate are the cut that goes on for as long as the predicate
stays as it is.
-/
namespace Braidcast.Lib

variable {α : Type*}

def chunksFrom (cut : α → List α → Nat) : Nat → List α → List (List α)
  | 0, _ => []
  | _ + 1, [] => []
  | fuel + 1, x :: xs => (x :: xs.take (cut x xs)) :: chunksFrom cut fuel (xs.drop (cut x xs))

def chunks (cut : α → List α → Nat) (xs : List α) : List (List α) := chunksFrom cut xs.length xs

theorem flatten_chunksFrom (cut : α → List α → Nat) {fuel : Nat} {xs : List α} (enough : xs.length ≤ fuel) :
    (chunksFrom cut fuel xs).flatten = xs := by
  induction fuel generalizing xs with
  | zero => rw [List.eq_nil_of_length_eq_zero (Nat.le_zero.mp enough), chunksFrom, List.flatten_nil]
  | succ fuel ih =>
    cases xs with
    | nil => rfl
    | cons x xs =>
      -- A piece has at least its first element, so what is left is shorter.
      have shorter : (xs.drop (cut x xs)).length ≤ fuel := by
        rw [List.length_cons] at enough
        rw [List.length_drop]
        omega
      rw [chunksFrom, List.flatten_cons, ih shorter, List.cons_append, List.take_append_drop]

@[simp] theorem flatten_chunks (cut : α → List α → Nat) (xs : List α) : (chunks cut xs).flatten = xs :=
  flatten_chunksFrom cut (Nat.le_refl _)

/-! ## Runs -/

variable (p : α → Bool)

/-- How long `p` stays as it is at `x`. -/
def stays (x : α) (xs : List α) : Nat := (xs.takeWhile fun y => p y == p x).length

def runs (xs : List α) : List (List α) := chunks (stays p) xs

/-- A stretch of a list on which `p` holds and which ends where `p` does. -/
def Stretch (xs w : List α) : Prop :=
  ∃ before after, xs = before ++ w ++ after ∧ (∀ x ∈ w, p x = true) ∧
    (∀ x ∈ before.getLast?, p x = false) ∧ ∀ x ∈ after.head?, p x = false

variable {xs w : List α}

theorem Stretch.holds {p : α → Bool} : Stretch p xs w → ∀ x ∈ w, p x = true
  | ⟨_, _, _, holds, _, _⟩ => holds

@[simp] theorem flatten_runs (xs : List α) : (runs p xs).flatten = xs := flatten_chunks (stays p) xs

variable {p}

theorem take_stays (x : α) (xs : List α) : xs.take (stays p x xs) = xs.takeWhile fun y => p y == p x := by
  induction xs with
  | nil => rfl
  | cons y ys ih =>
    rw [stays, List.takeWhile_cons]
    split
    · rw [List.length_cons, List.take_succ_cons]
      exact congrArg _ ih
    · rfl

theorem drop_stays (x : α) (xs : List α) : xs.drop (stays p x xs) = xs.dropWhile fun y => p y == p x := by
  have whole := List.take_append_drop (stays p x xs) xs
  rw [take_stays] at whole
  exact List.append_cancel_left (whole.trans List.takeWhile_append_dropWhile.symm)

/-- Each run is the longest one where it stands, provided the first one does not go on what is before it. -/
theorem stretch_of_mem_chunksFrom {fuel : Nat} {before xs w : List α}
    (apart : ∀ y ∈ before.getLast?, ∀ x ∈ xs.head?, p y ≠ p x) (member : w ∈ chunksFrom (stays p) fuel xs) :
    ∃ x ∈ w, Stretch (fun y => p y == p x) (before ++ xs) w := by
  induction fuel generalizing before xs with
  | zero => exact absurd member List.not_mem_nil
  | succ fuel ih =>
    cases xs with
    | nil => exact absurd member List.not_mem_nil
    | cons x xs =>
      have ends : ∀ y ∈ (xs.dropWhile fun y => p y == p x).head?, (p y == p x) = false := fun y first => by
        have other := List.head?_dropWhile_not (fun y => p y == p x) xs
        rw [Option.mem_def.mp first] at other
        exact other
      have alike : ∀ y ∈ x :: xs.takeWhile (fun y => p y == p x), (p y == p x) = true := fun y inside => by
        rcases List.mem_cons.mp inside with rfl | inside
        · exact beq_self_eq_true _
        · exact List.all_eq_true.mp List.all_takeWhile y inside
      have whole : x :: xs = (x :: xs.takeWhile fun y => p y == p x) ++ xs.dropWhile fun y => p y == p x := by
        rw [List.cons_append, List.takeWhile_append_dropWhile]
      rw [chunksFrom, take_stays, drop_stays, List.mem_cons] at member
      rcases member with rfl | member
      · refine ⟨x, List.mem_cons_self, before, _, ?_, alike, fun y last => ?_, ends⟩
        · rw [List.append_assoc, ← whole]
        · simpa using apart y last x rfl
      · rw [whole, ← List.append_assoc]
        refine ih (fun y last z first => ?_) member
        have inside : y ∈ x :: xs.takeWhile fun y => p y == p x := by
          rw [List.getLast?_append_of_ne_nil _ (List.cons_ne_nil _ _)] at last
          exact List.mem_of_getLast? last
        have here := alike y inside
        have there := ends z first
        rw [beq_iff_eq] at here
        rw [beq_eq_false_iff_ne] at there
        rw [here]
        exact there.symm

theorem stretch_of_mem_runs (member : w ∈ runs p xs) : ∃ x ∈ w, Stretch (fun y => p y == p x) xs w := by
  have apart : ∀ y ∈ ([] : List α).getLast?, ∀ x ∈ xs.head?, p y ≠ p x := fun _ last => absurd last (Option.not_mem_none _)
  exact stretch_of_mem_chunksFrom apart member

/-- A run that does not begin with `p` is a stretch without it. -/
theorem stretch_of_head (member : w ∈ runs p xs) (first : ∀ x ∈ w.head?, p x = false) :
    w ≠ [] ∧ Stretch (fun y => !p y) xs w := by
  obtain ⟨x, inside, stretch⟩ := stretch_of_mem_runs member
  cases w with
  | nil => exact absurd inside List.not_mem_nil
  | cons y w =>
    have alike : (p y == p x) = true := stretch.holds y List.mem_cons_self
    have same : p x = false := (beq_iff_eq.mp alike).symm.trans (first y rfl)
    have negation : (fun y => p y == p x) = fun y => !p y := by
      funext z
      rw [same, beq_false]
    rw [negation] at stretch
    exact ⟨List.cons_ne_nil _ _, stretch⟩

/-! ## Lines -/

variable [DecidableEq α] {sep x : α} {stream : List α}

/-- What stands before each separator. -/
def completed (sep : α) (stream : List α) : List (List α) := (stream.splitOn sep).dropLast

/-- What stands after the last separator. -/
def unfinished (sep : α) (stream : List α) : List α := (stream.splitOn sep).getLastD []

theorem splitOn_eq_completed (sep : α) (stream : List α) :
    stream.splitOn sep = completed sep stream ++ [unfinished sep stream] := by
  have filled := List.splitOn_ne_nil sep stream
  rw [completed, unfinished, List.getLastD_eq_getLast?, List.getLast?_eq_some_getLast filled]
  exact (List.dropLast_concat_getLast filled).symm

theorem completed_of_splitOn {lines : List (List α)} {last : List α} (cut : stream.splitOn sep = lines ++ [last]) :
    completed sep stream = lines ∧ unfinished sep stream = last := by
  simp [completed, unfinished, cut]

@[simp] theorem completed_nil (sep : α) : completed sep [] = [] := rfl

@[simp] theorem unfinished_nil (sep : α) : unfinished sep [] = [] := rfl

/-- A separator ends the line before it. -/
theorem completed_concat_sep (sep : α) (stream : List α) :
    completed sep (stream ++ [sep]) = completed sep stream ++ [unfinished sep stream] ∧
      unfinished sep (stream ++ [sep]) = [] := by
  apply completed_of_splitOn
  rw [List.splitOn_append_cons_self, splitOn_eq_completed, List.splitOn_nil]

theorem splitOn_concat (apart : x ≠ sep) (stream : List α) :
    (stream ++ [x]).splitOn sep = completed sep stream ++ [unfinished sep stream ++ [x]] := by
  have different : (x == sep) = false := by simpa using apart
  induction stream with
  | nil => simp [List.splitOn_cons_eq_if_modifyHead, different]
  | cons head rest ih =>
    have cut := splitOn_eq_completed sep rest
    rw [List.cons_append, List.splitOn_cons_eq_if_modifyHead, ih]
    by_cases ends : (head == sep) = true
    · have whole : (head :: rest).splitOn sep = ([] :: completed sep rest) ++ [unfinished sep rest] := by
        rw [List.splitOn_cons_eq_if_modifyHead, if_pos ends, cut, List.cons_append]
      obtain ⟨lines, last⟩ := completed_of_splitOn whole
      rw [if_pos ends, lines, last, List.cons_append]
    · cases shape : completed sep rest with
      | nil =>
        have whole : (head :: rest).splitOn sep = [] ++ [head :: unfinished sep rest] := by
          rw [List.splitOn_cons_eq_if_modifyHead, if_neg ends, cut, shape]
          rfl
        obtain ⟨lines, last⟩ := completed_of_splitOn whole
        rw [if_neg ends, lines, last]
        rfl
      | cons first more =>
        have whole : (head :: rest).splitOn sep = ((head :: first) :: more) ++ [unfinished sep rest] := by
          rw [List.splitOn_cons_eq_if_modifyHead, if_neg ends, cut, shape]
          rfl
        obtain ⟨lines, last⟩ := completed_of_splitOn whole
        rw [if_neg ends, lines, last]
        rfl

/-- Any other symbol goes on with the line. -/
theorem completed_concat (apart : x ≠ sep) (stream : List α) :
    completed sep (stream ++ [x]) = completed sep stream ∧
      unfinished sep (stream ++ [x]) = unfinished sep stream ++ [x] :=
  completed_of_splitOn (splitOn_concat apart stream)

end Braidcast.Lib
