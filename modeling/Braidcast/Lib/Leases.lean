import Mathlib.Logic.Basic

/-!
# Leases that are ended from outside

A key is on lease to one holder at a time, and leases are numbered in the order they are
given out. A holder acts in two steps, a check that its lease is not canceled and the act
itself, so that an act may be under way when the lease is canceled. Where none is under way
when a lease ends, no ended lease ever acts, and only the newest lease of a key does.
-/
namespace Braidcast.Lib

structure Leases (K : Type) where
  owner : Nat → Option K
  holds : Nat → K → Prop
  canceled : Nat → Prop
  /-- No act of the lease is under way. -/
  quiet : Nat → Prop
  /-- What ending a lease wrote for the key stands. -/
  closed : K → Prop

namespace Leases

variable {K : Type} {s t : Leases K} {a b : Nat} {k : K} {given : Option K}

structure Sound (s : Leases K) : Prop where
  known : ∀ {a k}, s.holds a k → s.owner a = some k
  newest : ∀ {a b k}, s.holds a k → s.owner b = some k → b ≤ a
  /-- A lease that is not held was canceled, and none of its acts is under way. -/
  gone : ∀ {a k}, s.owner a = some k → ¬s.holds a k → s.canceled a ∧ s.quiet a
  closed : ∀ {a k}, s.owner a = some k → (∀ b, ¬s.holds b k) → s.closed k

/-- What every step leaves alone: a canceled lease stays so, and it starts no act. -/
structure Frame (s t : Leases K) : Prop where
  canceled : ∀ {a}, s.canceled a → t.canceled a
  quiet : ∀ {a}, s.canceled a → s.quiet a → t.quiet a

/-- A step, with the key it gives out. -/
inductive Step (s t : Leases K) : Option K → Prop
  /-- Acts, and what others do: a key without a holder is not written to. -/
  | keeps (frame : Frame s t) (owner : t.owner = s.owner) (holds : t.holds = s.holds)
      (closed : ∀ {k}, (∀ b, ¬s.holds b k) → s.closed k → t.closed k) : Step s t none
  /-- A canceled lease ends, with no act of it under way. -/
  | ends (a : Nat) (k : K) (frame : Frame s t) (owner : t.owner = s.owner) (held : s.holds a k)
      (fewer : ∀ {b l}, t.holds b l → s.holds b l) (rest : ∀ {b l}, s.holds b l → t.holds b l ∨ b = a ∧ l = k)
      (canceled : t.canceled a) (quiet : t.quiet a) (written : t.closed k)
      (closed : ∀ {l}, l ≠ k → s.closed l → t.closed l) : Step s t none
  /-- A key that nobody holds is given out. -/
  | gives (a : Nat) (k : K) (frame : Frame s t) (free : ∀ b, ¬s.holds b k) (fresh : ∀ {b l}, s.owner b = some l → b < a)
      (owner : ∀ {b l}, t.owner b = some l ↔ s.owner b = some l ∨ b = a ∧ l = k)
      (holds : ∀ {b l}, t.holds b l ↔ s.holds b l ∨ b = a ∧ l = k)
      (closed : ∀ {l}, s.closed l → t.closed l) : Step s t (some k)

/-- Only a step that gives the key out makes a holder of it. -/
theorem Step.holds (step : s.Step t given) (held : t.holds a k) : s.holds a k ∨ given = some k := by
  cases step with
  | keeps _ _ holds _ => exact .inl (holds ▸ held)
  | ends _ _ _ _ _ fewer => exact .inl (fewer held)
  | gives a' k' _ _ _ _ holds _ =>
    rcases holds.mp held with before | ⟨-, rfl⟩
    · exact .inl before
    · exact .inr rfl

theorem Step.owner (step : s.Step t given) (owns : s.owner a = some k) : t.owner a = some k := by
  cases step with
  | keeps _ owner => rw [owner, owns]
  | ends _ _ _ owner => rw [owner, owns]
  | gives _ _ _ _ _ owner => exact owner.mpr (.inl owns)

theorem Sound.step (sound : s.Sound) (step : s.Step t given) : t.Sound := by
  cases step with
  | keeps frame owner holds closed =>
    constructor
    · intro a k held
      rw [owner]
      exact sound.known (holds ▸ held)
    · intro a b k held owns
      exact sound.newest (holds ▸ held) (owner ▸ owns)
    · intro a k owns free
      obtain ⟨canceled, quiet⟩ := sound.gone (owner ▸ owns) (holds ▸ free)
      exact ⟨frame.canceled canceled, frame.quiet canceled quiet⟩
    · intro a k owns free
      rw [holds] at free
      exact closed free (sound.closed (owner ▸ owns) free)
  | ends a k frame owner held fewer rest canceled quiet written closed =>
    constructor
    · intro b l still
      rw [owner]
      exact sound.known (fewer still)
    · intro b c l still owns
      exact sound.newest (fewer still) (owner ▸ owns)
    · intro b l owns free
      -- it was not held before either, or it is the lease that ends
      by_cases before : s.holds b l
      · rcases rest before with still | ⟨rfl, -⟩
        · exact absurd still free
        · exact ⟨canceled, quiet⟩
      · obtain ⟨canceled, quiet⟩ := sound.gone (owner ▸ owns) before
        exact ⟨frame.canceled canceled, frame.quiet canceled quiet⟩
    · intro b l owns free
      by_cases same : l = k
      · rw [same]
        exact written
      · refine closed same (sound.closed (owner ▸ owns) fun c before => ?_)
        rcases rest before with still | ⟨-, ended⟩
        · exact free c still
        · exact same ended
  | gives a k frame free fresh owner holds closed =>
    constructor
    · intro b l held
      rcases holds.mp held with before | new
      · exact owner.mpr (.inl (sound.known before))
      · exact owner.mpr (.inr new)
    · intro b c l held owns
      rcases holds.mp held with before | ⟨rfl, rfl⟩
      · rcases owner.mp owns with earlier | ⟨-, rfl⟩
        · exact sound.newest before earlier
        · exact absurd before (free b)
      · rcases owner.mp owns with earlier | ⟨rfl, -⟩
        · exact Nat.le_of_lt (fresh earlier)
        · exact Nat.le_refl _
    · intro b l owns unheld
      rcases owner.mp owns with earlier | new
      · obtain ⟨canceled, quiet⟩ := sound.gone earlier fun before => unheld (holds.mpr (.inl before))
        exact ⟨frame.canceled canceled, frame.quiet canceled quiet⟩
      · exact absurd (holds.mpr (.inr new)) unheld
    · intro b l owns unheld
      rcases owner.mp owns with earlier | new
      · exact closed (sound.closed earlier fun c before => unheld c (holds.mpr (.inl before)))
      · exact absurd (holds.mpr (.inr new)) (unheld b)

/-- A lease with an act under way is the newest of its key. -/
theorem Sound.newest_of_acting (sound : s.Sound) (owns : s.owner a = some k) (acting : ¬s.quiet a)
    (other : s.owner b = some k) : b ≤ a := by
  by_cases held : s.holds a k
  · exact sound.newest held other
  · exact absurd (sound.gone owns held).2 acting

/-! ### Closed keys -/

/-- The key was given out before and nobody holds it. -/
def Closed (s : Leases K) (k : K) : Prop := (∃ a, s.owner a = some k) ∧ ∀ b, ¬s.holds b k

theorem Closed.step (closed : s.Closed k) (step : s.Step t given) (kept : given ≠ some k) : t.Closed k := by
  obtain ⟨⟨a, owns⟩, free⟩ := closed
  refine ⟨⟨a, step.owner owns⟩, fun b held => ?_⟩
  rcases step.holds held with before | out
  · exact free b before
  · exact kept out

theorem Closed.stands (closed : s.Closed k) (sound : s.Sound) : s.closed k := by
  obtain ⟨⟨a, owns⟩, free⟩ := closed
  exact sound.closed owns free

theorem Closed.quiet (closed : s.Closed k) (sound : s.Sound) (owns : s.owner a = some k) : s.quiet a :=
  (sound.gone owns (closed.2 a)).2

end Leases

end Braidcast.Lib
