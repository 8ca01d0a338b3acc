import Braidcast.Lib.Lists

/-!
# The order of overlapping requests

`RequestGuard` of `requestGuard.ts`. A mark is what `mark` has copied, and applying it is a call of the function
that `mark` returned; it may be called again.
-/
namespace Braidcast.Util

open Lib

structure RequestGuard where
  generations : String → Option Nat := fun _ => none
  /-- The copies that `mark` has taken, oldest first. -/
  marks : List (String → Option Nat) := []

inductive GuardCall where
  | claim (id : String)
  | mark
  | apply (mark : Nat)
  | supersede
  deriving DecidableEq

namespace RequestGuard

/-- The generation that `claim` gives out, which its predicate asks for. -/
def mine (g : RequestGuard) (id : String) : Nat := (g.generations id).getD 0 + 1

def claim (g : RequestGuard) (id : String) : RequestGuard :=
  { g with generations := Function.update g.generations id (some (g.mine id)) }

def mark (g : RequestGuard) : RequestGuard := { g with marks := g.marks ++ [g.generations] }

/-- The function that `mark` returns. Its loop is over distinct ids, so their order does not matter. -/
def discard (g : RequestGuard) (outstanding : String → Option Nat) : RequestGuard :=
  { g with generations := fun id =>
      match outstanding id with
      | some generation => if g.generations id = some generation then some (generation + 1) else g.generations id
      | none => g.generations id }

def call (g : RequestGuard) : GuardCall → RequestGuard
  | .claim id => g.claim id
  | .mark => g.mark
  -- a mark that has not been taken has no function to call
  | .apply k =>
    match g.marks[k]? with
    | some outstanding => g.discard outstanding
    | none => g
  | .supersede => g.discard g.generations

def run (calls : List GuardCall) : RequestGuard := calls.foldl call {}

/-- What the predicate of the claim behind `before` answers after all the calls. -/
def answers (before : List GuardCall) (id : String) (after : List GuardCall) : Bool :=
  (run (before ++ .claim id :: after)).generations id = some ((run before).mine id)

/-! ### What counts -/

def taken (calls : List GuardCall) : Nat := calls.count .mark

/-- A mark taken since the claim has been applied. -/
def Discarded (before after : List GuardCall) : Prop :=
  ∃ i, after[i]? = some .supersede ∨
    ∃ k, after[i]? = some (.apply k) ∧ taken before ≤ k ∧ k < taken before + taken (after.take i)

/-! ### One call -/

variable {g : RequestGuard} {id : String} {n m : Nat} {before after : List GuardCall} {c : GuardCall}

theorem run_concat (calls : List GuardCall) (c : GuardCall) : run (calls ++ [c]) = (run calls).call c := List.foldl_concat ..

theorem marks_call (g : RequestGuard) (c : GuardCall) : (g.call c).marks = if c = .mark then g.marks ++ [g.generations] else g.marks := by
  cases c with
  | claim id => rfl
  | mark => rfl
  | supersede => rfl
  | apply k =>
    show (match g.marks[k]? with | some outstanding => g.discard outstanding | none => g).marks = g.marks
    split
    · rfl
    · rfl

theorem length_marks (calls : List GuardCall) : (run calls).marks.length = taken calls := by
  induction calls using List.reverseRecOn with
  | nil => rfl
  | append_singleton calls c ih =>
    rw [run_concat, marks_call, taken, List.count_append, List.count_singleton, ← taken, ← ih]
    cases c with
    | mark => exact List.length_append
    | claim id | apply k | supersede => rfl

/-- A discard moves an id on, or leaves it. -/
theorem discard_cases (outstanding : String → Option Nat) (has : g.generations id = some n) :
    (outstanding id = some n ∧ (g.discard outstanding).generations id = some (n + 1)) ∨
      (outstanding id ≠ some n ∧ (g.discard outstanding).generations id = some n) := by
  unfold discard
  dsimp only
  rw [has]
  cases outstanding id with
  | none => exact .inr ⟨nofun, rfl⟩
  | some m =>
    by_cases same : n = m
    · subst same
      exact .inl ⟨rfl, if_pos rfl⟩
    · exact .inr ⟨fun other => same (Option.some.inj other).symm, if_neg fun other => same (Option.some.inj other)⟩

/-- No generation goes back. -/
theorem call_grows (has : g.generations id = some n) (c : GuardCall) : ∃ n' ≥ n, (g.call c).generations id = some n' := by
  have kept (outstanding : String → Option Nat) : ∃ n' ≥ n, (g.discard outstanding).generations id = some n' := by
    rcases discard_cases outstanding has with ⟨-, moved⟩ | ⟨-, left⟩
    · exact ⟨n + 1, Nat.le_succ n, moved⟩
    · exact ⟨n, Nat.le_refl n, left⟩
  cases c with
  | claim other =>
    by_cases same : id = other
    · subst same
      refine ⟨n + 1, Nat.le_succ n, ?_⟩
      simp [call, claim, mine, has]
    · exact ⟨n, Nat.le_refl n, (Function.update_of_ne same ..).trans has⟩
  | mark => exact ⟨n, Nat.le_refl n, has⟩
  | supersede => exact kept g.generations
  | apply k =>
    simp only [call]
    split
    next outstanding _ => exact kept outstanding
    next => exact ⟨n, Nat.le_refl n, has⟩

/-- What a mark has of an id is no more than its generation. -/
theorem marks_le (calls : List GuardCall) :
    ∀ outstanding ∈ (run calls).marks, outstanding id = some m → ∃ n ≥ m, (run calls).generations id = some n := by
  induction calls using List.reverseRecOn with
  | nil => exact fun _ member => nomatch member
  | append_singleton calls c ih =>
    intro outstanding member has
    rw [run_concat] at member ⊢
    have old : ∃ n ≥ m, (run calls).generations id = some n := by
      rw [marks_call] at member
      split at member
      · rcases List.mem_append.mp member with there | new
        · exact ih outstanding there has
        · rw [List.mem_singleton.mp new] at has
          exact ⟨m, Nat.le_refl m, has⟩
      · exact ih outstanding member has
    obtain ⟨n, above, now⟩ := old
    obtain ⟨n', more, then_⟩ := call_grows now c
    exact ⟨n', Nat.le_trans above more, then_⟩

/-! ### Since a claim -/

/-- A claim that still counts: its id is at its generation, as are the marks since, and those before are below. -/
structure Current (g : RequestGuard) (id : String) (mine old : Nat) : Prop where
  now : g.generations id = some mine
  since : ∀ k outstanding, g.marks[k]? = some outstanding → old ≤ k → outstanding id = some mine
  before : ∀ k outstanding, g.marks[k]? = some outstanding → k < old → outstanding id ≠ some mine

/-- A claim that is over. -/
def Over (g : RequestGuard) (id : String) (mine : Nat) : Prop := ∃ n > mine, g.generations id = some n

theorem Over.call {mine : Nat} (gone : Over g id mine) (c : GuardCall) : Over (g.call c) id mine := by
  obtain ⟨n, above, has⟩ := gone
  obtain ⟨n', more, has'⟩ := call_grows has c
  exact ⟨n', Nat.lt_of_lt_of_le above more, has'⟩

/-- The call ends the claim. -/
def Ends (g : RequestGuard) (id : String) (old : Nat) : GuardCall → Prop
  | .claim other => other = id
  | .mark => False
  | .apply k => old ≤ k ∧ k < g.marks.length
  | .supersede => True

theorem Current.call {mine old : Nat} (current : Current g id mine old) (within : old ≤ g.marks.length) (c : GuardCall) :
    (Ends g id old c ∧ Over (g.call c) id mine) ∨ (¬ Ends g id old c ∧ Current (g.call c) id mine old) := by
  have now := current.now
  cases c with
  | claim other =>
    by_cases same : other = id
    · subst same
      refine .inl ⟨rfl, mine + 1, Nat.lt_succ_self mine, ?_⟩
      simp [RequestGuard.call, claim, RequestGuard.mine, now]
    · exact .inr ⟨same, (Function.update_of_ne (Ne.symm same) ..).trans now, current.since, current.before⟩
  | mark =>
    refine .inr ⟨not_false, now, ?_, ?_⟩
    · intro k outstanding there since
      rcases getElem?_append_new there with old | ⟨-, rfl⟩
      · exact current.since k outstanding old since
      · exact now
    · intro k outstanding there earlier
      rcases getElem?_append_new there with old | ⟨last, -⟩
      · exact current.before k outstanding old earlier
      · omega
  | supersede =>
    rcases discard_cases g.generations now with ⟨-, moved⟩ | ⟨other, -⟩
    · exact .inl ⟨trivial, mine + 1, Nat.lt_succ_self mine, moved⟩
    · exact absurd now other
  | apply k =>
    simp only [RequestGuard.call]
    split
    next outstanding there =>
      have taken : k < g.marks.length := (List.getElem?_eq_some_iff.mp there).1
      rcases discard_cases outstanding now with ⟨same, moved⟩ | ⟨other, left⟩
      · refine .inl ⟨⟨?_, taken⟩, mine + 1, Nat.lt_succ_self mine, moved⟩
        by_contra earlier
        exact current.before k outstanding there (Nat.lt_of_not_le earlier) same
      · exact .inr ⟨fun ends => other (current.since k outstanding there ends.1), left, current.since, current.before⟩
    next missing =>
      refine .inr ⟨fun ends => ?_, current⟩
      exact absurd (List.getElem?_eq_none_iff.mp missing) (Nat.not_le_of_lt ends.2)

/-- Right behind the claim it counts. -/
theorem current_claim (before : List GuardCall) (id : String) :
    Current (run (before ++ [.claim id])) id ((run before).mine id) (taken before) := by
  rw [run_concat]
  have marks (k : Nat) (outstanding : String → Option Nat) (there : (run before).marks[k]? = some outstanding) : outstanding id ≠ some ((run before).mine id) := by
    intro has
    obtain ⟨n, above, now⟩ := marks_le before outstanding (List.mem_of_getElem? there) has
    rw [mine, now, Option.getD_some] at above
    omega
  refine ⟨Function.update_self .., ?_, ?_⟩
  · intro k outstanding there since
    have inside : k < (run before).marks.length := (List.getElem?_eq_some_iff.mp there).1
    rw [length_marks] at inside
    omega
  · exact fun k outstanding there _ => marks k outstanding there

theorem discarded_concat : Discarded before (after ++ [c]) ↔
    Discarded before after ∨ c = .supersede ∨ ∃ k, c = .apply k ∧ taken before ≤ k ∧ k < taken before + taken after := by
  constructor
  · rintro ⟨i, now | ⟨k, now, since, applied⟩⟩
    · rcases getElem?_append_new now with old | ⟨-, rfl⟩
      · exact .inl ⟨i, .inl old⟩
      · exact .inr (.inl rfl)
    · rcases getElem?_append_new now with old | ⟨rfl, rfl⟩
      · rw [List.take_append_of_le_length (List.getElem?_eq_some_iff.mp old).1.le] at applied
        exact .inl ⟨i, .inr ⟨k, old, since, applied⟩⟩
      · rw [List.take_left] at applied
        exact .inr (.inr ⟨k, rfl, since, applied⟩)
  · rintro (⟨i, now | ⟨k, now, since, applied⟩⟩ | rfl | ⟨k, rfl, since, applied⟩)
    · exact ⟨i, .inl (getElem?_append_old now)⟩
    · refine ⟨i, .inr ⟨k, getElem?_append_old now, since, ?_⟩⟩
      rwa [List.take_append_of_le_length (List.getElem?_eq_some_iff.mp now).1.le]
    · exact ⟨after.length, .inl List.getElem?_concat_length⟩
    · refine ⟨after.length, .inr ⟨k, List.getElem?_concat_length, since, ?_⟩⟩
      rwa [List.take_left]

/-- What the calls since a claim have made of it. -/
theorem since_claim (before : List GuardCall) (id : String) (after : List GuardCall) :
    let g := run (before ++ .claim id :: after)
    let gone := .claim id ∈ after ∨ Discarded before after
    (gone ∧ Over g id ((run before).mine id)) ∨ (¬ gone ∧ Current g id ((run before).mine id) (taken before)) := by
  induction after using List.reverseRecOn with
  | nil =>
    refine .inr ⟨?_, current_claim before id⟩
    rintro (member | ⟨i, now | ⟨k, now, -⟩⟩)
    · cases member
    · cases now
    · cases now
  | append_singleton after c ih =>
    have grown : before ++ .claim id :: (after ++ [c]) = (before ++ .claim id :: after) ++ [c] := by simp
    have length := length_marks (before ++ .claim id :: after)
    have count : taken (before ++ .claim id :: after) = taken before + taken after := by
      rw [taken, List.count_append, List.count_cons_of_ne (show GuardCall.claim id ≠ .mark from GuardCall.noConfusion)]
      rfl
    have ends : (.claim id ∈ after ++ [c] ∨ Discarded before (after ++ [c])) ↔
        (.claim id ∈ after ∨ Discarded before after) ∨ Ends (run (before ++ .claim id :: after)) id (taken before) c := by
      rw [discarded_concat, List.mem_append, List.mem_singleton]
      cases c <;> simp [Ends, length, count, eq_comm] <;> tauto
    dsimp only at ih ⊢
    rw [grown, run_concat, ends]
    rcases ih with ⟨gone, past⟩ | ⟨not_yet, current⟩
    · exact .inl ⟨.inl gone, past.call c⟩
    · rcases current.call (by omega) c with ⟨now, past⟩ | ⟨still, current⟩
      · exact .inl ⟨.inr now, past⟩
      · exact .inr ⟨not_or.mpr ⟨not_yet, still⟩, current⟩

/-- A claim counts until a later one on its id, or a discard by a mark taken since. -/
theorem claim_answers_iff (before : List GuardCall) (id : String) (after : List GuardCall) :
    answers before id after = true ↔ .claim id ∉ after ∧ ¬ Discarded before after := by
  unfold answers
  rw [decide_eq_true_iff, ← not_or]
  rcases since_claim before id after with ⟨gone, n, above, past⟩ | ⟨not_yet, current⟩
  · refine iff_of_false (fun now => ?_) (not_not.mpr gone)
    exact Nat.ne_of_gt above (Option.some.inj (past.symm.trans now))
  · exact iff_of_true current.now not_yet

end RequestGuard

end Braidcast.Util
