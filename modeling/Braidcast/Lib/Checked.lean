import Mathlib.Algebra.Order.Ring.Int

/-!
# Checked integers

Signed integers of a fixed width. Arithmetic that leaves the width is undefined in C, so it has no result.
-/
namespace Braidcast.Lib

/-- The value, where `bits` hold it. -/
def signed (bits : Nat) (x : Int) : Option Int := if -2 ^ (bits - 1) ≤ x ∧ x < 2 ^ (bits - 1) then some x else none

/-- What a conversion to `bits` keeps. -/
def truncated (bits : Nat) (x : Int) : Int := x.bmod (2 ^ bits)

variable {bits : Nat} {x : Int}

theorem signed_of_fits (low : -2 ^ (bits - 1) ≤ x) (high : x < 2 ^ (bits - 1)) : signed bits x = some x := if_pos ⟨low, high⟩

theorem signed_eq_none (high : 2 ^ (bits - 1) ≤ x) : signed bits x = none := if_neg fun fits => absurd fits.2 (Int.not_lt.mpr high)

end Braidcast.Lib
