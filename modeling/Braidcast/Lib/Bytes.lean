import Mathlib.Data.List.Basic
import Mathlib.Tactic.Ring

/-!
# Bytes in a block of memory

Reading, writing and moving ranges of bytes, and little-endian numbers. A block is a function
from offsets; what lies outside the block is whatever it is.
-/
namespace Braidcast.Lib

abbrev Block := Nat → UInt8

namespace Block

variable (m : Block) (place source : Nat)

def read (size : Nat) : List UInt8 := (List.range size).map fun i => m (place + i)

/-- `memcpy` from elsewhere. -/
def write (bytes : List UInt8) : Block := fun k =>
  if place ≤ k then (bytes[k - place]?).getD (m k) else m k

/-- `memmove` inside the block. -/
def move (size : Nat) : Block := fun k => if place ≤ k ∧ k < place + size then m (source + (k - place)) else m k

variable {m place source} {m' : Block} {size : Nat} {bytes : List UInt8}

@[simp] theorem read_length (m : Block) (place size : Nat) : (m.read place size).length = size := by simp [read]

@[simp] theorem write_nil (m : Block) (place : Nat) : m.write place [] = m := by
  funext k
  simp [write]

@[simp] theorem move_zero (m : Block) (place source : Nat) : m.move place source 0 = m := by
  funext k
  unfold move
  rw [if_neg (by omega)]

theorem read_congr (same : ∀ i, i < size → m (place + i) = m' (source + i)) :
    m.read place size = m'.read source size := by
  unfold read
  exact List.map_congr_left fun i member => same i (List.mem_range.mp member)

/-- A range is read in two parts. -/
theorem read_add (m : Block) (place size more : Nat) :
    m.read place (size + more) = m.read place size ++ m.read (place + size) more := by
  unfold read
  rw [List.range_add, List.map_append, List.map_map]
  congr 1
  exact List.map_congr_left fun i _ => congrArg m (Nat.add_assoc _ _ _).symm

theorem read_take {n : Nat} (within : n ≤ size) : (m.read place size).take n = m.read place n := by
  rw [read, ← List.map_take, List.take_range, min_eq_left within, read]

theorem read_drop {n : Nat} : (m.read place size).drop n = m.read (place + n) (size - n) := by
  apply List.ext_getElem
  · simp
  · intro i _ _
    simp [read, Nat.add_assoc]

theorem read_write_same (m : Block) (place : Nat) (bytes : List UInt8) :
    (m.write place bytes).read place bytes.length = bytes := by
  apply List.ext_getElem
  · simp
  · intro i _ inside
    simp [read, write, inside]

theorem write_outside {k : Nat} (outside : k < place ∨ place + bytes.length ≤ k) : m.write place bytes k = m k := by
  unfold write
  split
  next le =>
    rw [List.getElem?_eq_none (by omega)]
    rfl
  next => rfl

theorem read_write_apart {at_ : Nat} (apart : at_ + size ≤ place ∨ place + bytes.length ≤ at_) :
    (m.write place bytes).read at_ size = m.read at_ size :=
  read_congr fun i inside => write_outside (by omega)

theorem move_outside {k : Nat} (outside : k < place ∨ place + size ≤ k) : m.move place source size k = m k := by
  unfold move
  rw [if_neg (by omega)]

theorem read_move_apart {at_ length : Nat} (apart : at_ + length ≤ place ∨ place + size ≤ at_) :
    (m.move place source size).read at_ length = m.read at_ length :=
  read_congr fun i inside => move_outside (by omega)

/-- A part of what was moved, at its new place. -/
theorem read_move {shift length : Nat} (inside : shift + length ≤ size) :
    (m.move place source size).read (place + shift) length = m.read (source + shift) length := by
  refine read_congr fun i less => ?_
  unfold move
  rw [if_pos (by omega)]
  congr 1
  omega

theorem read_move_front {length : Nat} (inside : length ≤ size) :
    (m.move place source size).read place length = m.read source length := by
  have moved : (m.move place source size).read (place + 0) length = m.read (source + 0) length := read_move (by omega)
  simpa using moved

end Block

/-- The `width` little-endian bytes of a number. -/
def toLE : Nat → Nat → List UInt8
  | 0, _ => []
  | width + 1, n => UInt8.ofNat (n % 256) :: toLE width (n / 256)

def ofLE : List UInt8 → Nat
  | [] => 0
  | b :: rest => b.toNat + 256 * ofLE rest

@[simp] theorem toLE_length (width n : Nat) : (toLE width n).length = width := by
  induction width generalizing n with
  | zero => rfl
  | succ width ih => rw [toLE, List.length_cons, ih]

theorem ofLE_toLE {width n : Nat} (fits : n < 256 ^ width) : ofLE (toLE width n) = n := by
  induction width generalizing n with
  | zero =>
    rw [pow_zero, Nat.lt_one_iff] at fits
    rw [fits]
    rfl
  | succ width ih =>
    have high : n / 256 < 256 ^ width := by
      rw [Nat.div_lt_iff_lt_mul (by decide)]
      rwa [pow_succ] at fits
    have low : (UInt8.ofNat (n % 256)).toNat = n % 256 := UInt8.toNat_ofNat_of_lt (Nat.mod_lt n (by decide))
    rw [toLE, ofLE, ih high, low]
    exact Nat.mod_add_div n 256

end Braidcast.Lib
