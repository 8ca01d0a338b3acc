import Braidcast.Lib.Bytes

/-!
# The ring deque

`deque.h`. A read or a write out of the buffer is `none`. What a new buffer has behind the bytes of the old is anything.
-/
namespace Braidcast.Util

open Lib

structure Deque where
  data : Block
  /-- How many bytes there are at `data`. -/
  allocated : Nat
  size : Nat
  startPos : Nat
  endPos : Nat
  capacity : Nat

namespace Deque

def init : Deque := ⟨fun _ => 0, 0, 0, 0, 0, 0⟩

variable (d : Deque) (fresh : Block)

def load (place size : Nat) : Option (List UInt8) := if place + size ≤ d.allocated then some (d.data.read place size) else none

def store (place : Nat) (bytes : List UInt8) : Option Deque :=
  if place + bytes.length ≤ d.allocated then some { d with data := d.data.write place bytes } else none

def brealloc (size : Nat) : Deque :=
  { d with data := fun k => if k < d.allocated then d.data k else fresh k, allocated := size }

def reorderData (newCapacity : Nat) : Option Deque :=
  if d.size = 0 ∨ d.startPos = 0 ∨ d.endPos > d.startPos then some d
  else
    let difference := newCapacity - d.capacity
    if newCapacity ≤ d.allocated ∧ d.capacity ≤ d.allocated then
      some { d with
        data := d.data.move (d.startPos + difference) d.startPos (d.capacity - d.startPos), startPos := d.startPos + difference }
    else none

def grow (newCapacity : Nat) : Option Deque :=
  ((d.brealloc fresh newCapacity).reorderData newCapacity).map fun d => { d with capacity := newCapacity }

def ensureCapacity : Option Deque :=
  if d.size ≤ d.capacity then some d
  else d.grow fresh (if d.size > d.capacity * 2 then d.size else d.capacity * 2)

def reserve (capacity : Nat) : Option Deque := if capacity ≤ d.capacity then some d else d.grow fresh capacity

/-- The copies of `deque_place` and `deque_push_back`: what is beyond the capacity goes to the front. -/
def storeWrapped (place : Nat) (bytes : List UInt8) : Option Deque :=
  if place + bytes.length > d.capacity then do
    let d' ← d.store place (bytes.take (d.capacity - place))
    d'.store 0 (bytes.drop (d.capacity - place))
  else d.store place bytes

def pushBack (bytes : List UInt8) : Option Deque := do
  let newEndPos := d.endPos + bytes.length
  let d ← ensureCapacity { d with size := d.size + bytes.length } fresh
  let d ← d.storeWrapped d.endPos bytes
  some { d with endPos := if newEndPos > d.capacity then newEndPos - d.capacity else newEndPos }

def pushBackZero (size : Nat) : Option Deque := d.pushBack fresh (List.replicate size 0)

/-- Past its check, as `deque_push_back_zero` of what is missing. -/
def upsize (size : Nat) : Option Deque := if size ≤ d.size then some d else d.pushBackZero fresh (size - d.size)

def place (position : Nat) (bytes : List UInt8) : Option Deque :=
  (if position + bytes.length > d.size then d.upsize fresh (position + bytes.length) else some d).bind fun d =>
    let position := position + d.startPos
    d.storeWrapped (if position ≥ d.capacity then position - d.capacity else position) bytes

def pushFront (bytes : List UInt8) : Option Deque := do
  let d ← ensureCapacity { d with size := d.size + bytes.length } fresh
  if d.size = bytes.length then store { d with startPos := 0, endPos := bytes.length } 0 bytes
  else if d.startPos < bytes.length then
    let backSize := bytes.length - d.startPos
    let d' ← d.store 0 (bytes.drop backSize)
    store { d' with startPos := d.capacity - backSize } (d.capacity - backSize) (bytes.take backSize)
  else store { d with startPos := d.startPos - bytes.length } (d.startPos - bytes.length) bytes

def pushFrontZero (size : Nat) : Option Deque := d.pushFront fresh (List.replicate size 0)

/-- What goes to the caller's `data`, if it gave one. -/
def peekFront (data : Bool) (size : Nat) : Option (List UInt8) :=
  if data then
    let startSize := d.capacity - d.startPos
    if startSize < size then do
      let front ← d.load d.startPos startSize
      let rest ← d.load 0 (size - startSize)
      some (front ++ rest)
    else d.load d.startPos size
  else some []

def peekBack (data : Bool) (size : Nat) : Option (List UInt8) :=
  if data then
    let backSize := if d.endPos ≠ 0 then d.endPos else d.capacity
    if backSize < size then do
      let frontSize := size - backSize
      let back ← d.load 0 backSize
      let front ← d.load (d.capacity - frontSize) frontSize
      some (front ++ back)
    -- The copy would start before the buffer.
    else if d.endPos < size then none
    else d.load (d.endPos - size) size
  else some []

def popFront (size : Nat) : Deque :=
  if d.size - size = 0 then { d with size := 0, startPos := 0, endPos := 0 }
  else
    let startPos := d.startPos + size
    { d with size := d.size - size, startPos := if startPos ≥ d.capacity then startPos - d.capacity else startPos }

def popBack (size : Nat) : Deque :=
  if d.size - size = 0 then { d with size := 0, startPos := 0, endPos := 0 }
  else { d with size := d.size - size, endPos := if d.endPos ≤ size then d.capacity - (size - d.endPos) else d.endPos - size }

/-- `deque_data`, as the offset of the pointer. -/
def dataAt (idx : Nat) : Option Nat :=
  let offset := d.startPos + idx
  if idx ≥ d.size then none else if offset ≥ d.capacity then some (offset - d.capacity) else some offset

inductive Op where
  | pushBack (bytes : List UInt8)
  | pushFront (bytes : List UInt8)
  | pushBackZero (size : Nat)
  | pushFrontZero (size : Nat)
  | place (position : Nat) (bytes : List UInt8)
  | upsize (size : Nat)
  | reserve (capacity : Nat)
  | peekFront (data : Bool) (size : Nat)
  | peekBack (data : Bool) (size : Nat)
  | popFront (data : Bool) (size : Nat)
  | popBack (data : Bool) (size : Nat)

/-- A call, and what it hands out. A pop first peeks. -/
def call : Op → Option (Deque × List UInt8)
  | .pushBack bytes => (d.pushBack fresh bytes).map (·, [])
  | .pushFront bytes => (d.pushFront fresh bytes).map (·, [])
  | .pushBackZero size => (d.pushBackZero fresh size).map (·, [])
  | .pushFrontZero size => (d.pushFrontZero fresh size).map (·, [])
  | .place position bytes => (d.place fresh position bytes).map (·, [])
  | .upsize size => (d.upsize fresh size).map (·, [])
  | .reserve capacity => (d.reserve fresh capacity).map (·, [])
  | .peekFront data size => (d.peekFront data size).map (d, ·)
  | .peekBack data size => (d.peekBack data size).map (d, ·)
  | .popFront data size => (d.peekFront data size).map (d.popFront size, ·)
  | .popBack data size => (d.peekBack data size).map (d.popBack size, ·)

/-! ### The byte list -/

def filled (xs : List UInt8) (size : Nat) : List UInt8 := xs ++ List.replicate (size - xs.length) 0

/-- The same call on a plain list of bytes. A pop or a peek is of no more than there is. -/
def Op.onList (xs : List UInt8) : Op → Option (List UInt8 × List UInt8)
  | .pushBack bytes => some (xs ++ bytes, [])
  | .pushFront bytes => some (bytes ++ xs, [])
  | .pushBackZero size => some (xs ++ List.replicate size 0, [])
  | .pushFrontZero size => some (List.replicate size 0 ++ xs, [])
  | .place position bytes =>
    let xs := filled xs (position + bytes.length)
    some (xs.take position ++ bytes ++ xs.drop (position + bytes.length), [])
  | .upsize size => some (filled xs size, [])
  | .reserve _ => some (xs, [])
  | .peekFront data size => if size ≤ xs.length then some (xs, if data then xs.take size else []) else none
  | .peekBack data size => if size ≤ xs.length then some (xs, if data then xs.drop (xs.length - size) else []) else none
  | .popFront data size => if size ≤ xs.length then some (xs.drop size, if data then xs.take size else []) else none
  | .popBack data size =>
    if size ≤ xs.length then some (xs.take (xs.length - size), if data then xs.drop (xs.length - size) else []) else none

/-- Calls one after another, with what each hands out. -/
def calls {σ ι : Type} (f : σ → ι → Option (σ × List UInt8)) : σ → List ι → Option (σ × List (List UInt8))
  | s, [] => some (s, [])
  | s, i :: rest => do
    let (s, out) ← f s i
    let (s, outs) ← calls f s rest
    some (s, out :: outs)

/-! ### What a deque holds -/

/-- Where the `i`th byte from `startPos` is. -/
def slot (i : Nat) : Nat := if d.startPos + i < d.capacity then d.startPos + i else d.startPos + i - d.capacity

/-- The buffer from `startPos` on. -/
def view : Block := fun i => d.data (d.slot i)

/-- The first `n` bytes are in order between the positions, whatever `size` says. -/
structure Laid (n : Nat) : Prop where
  allocated : d.allocated = d.capacity
  fits : n ≤ d.capacity
  start : d.startPos < d.capacity ∨ d.startPos = 0
  empty : n = 0 → d.startPos = 0
  ends : d.endPos = d.startPos + n ∧ d.endPos ≤ d.capacity ∨ 0 < d.endPos ∧ d.endPos + d.capacity = d.startPos + n

/-- The deque is this list of bytes. -/
structure Holds (xs : List UInt8) : Prop where
  laid : d.Laid xs.length
  size : d.size = xs.length
  bytes : d.view.read 0 xs.length = xs

variable {d fresh} {d' : Deque} {bytes xs : List UInt8} {n size place : Nat}

/-! ### Reading and writing from `startPos` on -/

/-- The copies of the bytes from `offset` on, wherever they wrap. -/
theorem storeWrapped_spec {offset : Nat} (bytes : List UInt8) (place : Nat) (laid : d.Laid n) (room : offset + bytes.length ≤ d.capacity)
    (from_ : place = d.startPos + offset ∧ place ≤ d.capacity ∨ place + d.capacity = d.startPos + offset) :
    ∃ data, d.storeWrapped place bytes = some { d with data := data } ∧
      ∀ i, i < d.capacity → view { d with data := data } i = d.view.write offset bytes i := by
  have start := laid.start
  have allocated := laid.allocated
  unfold storeWrapped store
  split
  next wraps =>
    rw [if_pos (by rw [List.length_take]; omega)]
    dsimp only [Option.bind_eq_bind, Option.bind_some]
    rw [if_pos (by rw [List.length_drop]; omega)]
    refine ⟨_, rfl, fun i inside => ?_⟩
    simp only [view, slot, Block.write, List.getElem?_take, List.getElem?_drop]
    split_ifs <;> grind
  next within =>
    rw [if_pos (by omega)]
    refine ⟨_, rfl, fun i inside => ?_⟩
    simp only [view, slot, Block.write]
    split_ifs <;> grind

theorem slot_low {i : Nat} (low : d.startPos + i < d.capacity) : d.slot i = d.startPos + i := if_pos low

theorem slot_high {i : Nat} (high : d.capacity ≤ d.startPos + i) : d.slot i = d.startPos + i - d.capacity := if_neg (by omega)

theorem read_low {offset : Nat} (low : d.startPos + offset + n ≤ d.capacity) :
    d.view.read offset n = d.data.read (d.startPos + offset) n :=
  Block.read_congr fun i inside => by rw [view, slot_low (by omega), Nat.add_assoc]

theorem read_high {offset : Nat} (high : d.capacity ≤ d.startPos + offset) :
    d.view.read offset n = d.data.read (d.startPos + offset - d.capacity) n :=
  Block.read_congr fun i inside => by rw [view, slot_high (by omega)]; congr 1; omega

theorem read_wrapped {offset front back : Nat} (ends : d.startPos + offset + back = d.capacity) :
    d.view.read offset (back + front) = d.data.read (d.startPos + offset) back ++ d.data.read 0 front := by
  rw [Block.read_add, read_low (by omega), read_high (by omega)]
  congr 2
  omega

theorem load_spec (inside : place + size ≤ d.allocated) : d.load place size = some (d.data.read place size) := if_pos inside

theorem store_spec (inside : place + bytes.length ≤ d.allocated) : d.store place bytes = some { d with data := d.data.write place bytes } :=
  if_pos inside

/-! ### Growing -/

/-- `d'` is `d` in a buffer at least as large. -/
structure Grown (d d' : Deque) (n : Nat) : Prop where
  laid : d'.Laid n
  size : d'.size = d.size
  endPos : d'.endPos = d.endPos
  view : ∀ i, i < n → d'.view i = d.view i

theorem Laid.grown (laid : d.Laid n) : Grown d d n := ⟨laid, rfl, rfl, fun _ _ => rfl⟩

theorem grow_spec (fresh : Block) {newCapacity : Nat} (laid : d.Laid n) (counted : n ≤ d.size) (more : d.capacity ≤ newCapacity) :
    ∃ d', d.grow fresh newCapacity = some d' ∧ Grown d d' n ∧ d'.capacity = newCapacity := by
  have ⟨allocated, fits, start, empty, ends⟩ := laid
  unfold grow reorderData
  split
  next straight =>
    -- No byte is before `startPos`.
    have straight : d.startPos + n ≤ d.capacity := by
      simp only [brealloc] at straight
      omega
    refine ⟨_, rfl, ⟨⟨rfl, ?_, ?_, empty, ?_⟩, rfl, rfl, ?_⟩, rfl⟩ <;> simp only [brealloc]
    · omega
    · omega
    · omega
    · intro i inside
      have low : d.startPos + i < d.capacity := by omega
      rw [view, view, slot_low low, slot_low (by dsimp only; omega)]
      dsimp only
      rw [if_pos (by omega)]
  next wrapped =>
    simp only [brealloc, not_or] at wrapped
    have wrapped : d.capacity < d.startPos + n := by omega
    have inside : newCapacity ≤ (d.brealloc fresh newCapacity).allocated ∧
        (d.brealloc fresh newCapacity).capacity ≤ (d.brealloc fresh newCapacity).allocated := ⟨le_rfl, more⟩
    dsimp only
    rw [if_pos inside]
    refine ⟨_, rfl, ⟨⟨rfl, ?_, ?_, ?_, ?_⟩, rfl, rfl, ?_⟩, rfl⟩ <;> simp only [brealloc]
    · omega
    · omega
    · omega
    · omega
    · intro i inside
      by_cases low : d.startPos + i < d.capacity
      · rw [view, view, slot_low low, slot_low (by dsimp only; omega)]
        dsimp only
        rw [Block.move, if_pos (by omega), if_pos (by omega)]
        congr 1
        omega
      · have high : d.capacity ≤ d.startPos + i := by omega
        rw [view, view, slot_high high, slot_high (by dsimp only; omega)]
        dsimp only
        rw [Block.move_outside (by omega), if_pos (by omega)]
        congr 1
        omega

theorem ensureCapacity_spec (fresh : Block) (laid : d.Laid n) (counted : n ≤ d.size) :
    ∃ d', d.ensureCapacity fresh = some d' ∧ Grown d d' n ∧ d'.size ≤ d'.capacity := by
  unfold ensureCapacity
  split
  next fits => exact ⟨d, rfl, laid.grown, fits⟩
  next more =>
    obtain ⟨d', grown, moved, capacity⟩ :=
      grow_spec fresh laid counted (show d.capacity ≤ if d.size > d.capacity * 2 then d.size else d.capacity * 2 by split <;> omega)
    refine ⟨d', grown, moved, ?_⟩
    rw [capacity, moved.size]
    split <;> omega

/-! ### What each operation makes of the bytes -/

/-- With the new size, and room for it. -/
theorem Holds.sized (holds : d.Holds xs) (fresh : Block) (more : Nat) : ∃ d', ensureCapacity { d with size := d.size + more } fresh = some d' ∧
    d'.Laid xs.length ∧ d'.size = xs.length + more ∧ xs.length + more ≤ d'.capacity ∧ d'.endPos = d.endPos ∧ d'.view.read 0 xs.length = xs := by
  have ⟨allocated, fits, start, empty, ends⟩ := holds.laid
  have laid : Laid { d with size := d.size + more } xs.length := ⟨allocated, fits, start, empty, ends⟩
  obtain ⟨d', grown, moved, room⟩ := ensureCapacity_spec fresh laid (by rw [holds.size]; exact Nat.le_add_right ..)
  have size : d'.size = xs.length + more := by rw [moved.size, holds.size]
  refine ⟨d', grown, moved.laid, size, size ▸ room, moved.endPos, ?_⟩
  calc d'.view.read 0 xs.length
    _ = d.view.read 0 xs.length := Block.read_congr fun i inside => by rw [Nat.zero_add, moved.view i inside]; rfl
    _ = xs := holds.bytes

theorem pushBack_spec (holds : d.Holds xs) (fresh : Block) (bytes : List UInt8) : ∃ d', d.pushBack fresh bytes = some d' ∧ d'.Holds (xs ++ bytes) := by
  obtain ⟨d₁, grown, laid, size, room, endPos, held⟩ := holds.sized fresh bytes.length
  have ⟨allocated, _, start, empty, ends⟩ := laid
  obtain ⟨data, stored, written⟩ := storeWrapped_spec bytes d₁.endPos laid room (by omega)
  have pushed : d.pushBack fresh bytes = some { d₁ with
      data := data, endPos := if d₁.endPos + bytes.length > d₁.capacity then d₁.endPos + bytes.length - d₁.capacity else d₁.endPos + bytes.length } := by
    rw [pushBack, grown]
    dsimp only [Option.bind_eq_bind, Option.bind_some]
    rw [stored, endPos]
    rfl
  have whole : (xs ++ bytes).length = xs.length + bytes.length := List.length_append
  refine ⟨_, pushed, ⟨allocated, ?_, start, ?_, ?_⟩, ?_, ?_⟩
  · exact whole ▸ room
  · exact fun none_ => empty (by omega)
  · dsimp only
    split <;> omega
  · exact whole ▸ size
  · calc Block.read _ 0 (xs ++ bytes).length
      _ = (d₁.view.write xs.length bytes).read 0 (xs.length + bytes.length) := by
        rw [whole]
        exact Block.read_congr fun i inside => by rw [Nat.zero_add]; exact written i (by omega)
      _ = xs ++ bytes := by
        rw [Block.read_add, Nat.zero_add, Block.read_write_same, Block.read_write_apart (.inl (by omega)), held]

theorem upsize_spec (holds : d.Holds xs) (fresh : Block) (size : Nat) : ∃ d', d.upsize fresh size = some d' ∧ d'.Holds (filled xs size) := by
  unfold upsize filled
  rw [holds.size]
  split
  next enough => exact ⟨d, rfl, by rwa [Nat.sub_eq_zero_of_le enough, List.replicate_zero, List.append_nil]⟩
  next => exact pushBack_spec holds fresh _

theorem reserve_spec (holds : d.Holds xs) (fresh : Block) (capacity : Nat) : ∃ d', d.reserve fresh capacity = some d' ∧ d'.Holds xs := by
  unfold reserve
  split
  next => exact ⟨d, rfl, holds⟩
  next more =>
    obtain ⟨d', grown, moved, -⟩ := grow_spec fresh holds.laid holds.size.ge (Nat.le_of_not_le more)
    refine ⟨d', grown, moved.laid, moved.size.trans holds.size, ?_⟩
    exact (Block.read_congr fun i inside => by rw [Nat.zero_add, moved.view i inside]).trans holds.bytes

theorem place_spec (holds : d.Holds xs) (fresh : Block) (position : Nat) (bytes : List UInt8) :
    ∃ d', d.place fresh position bytes = some d' ∧ d'.Holds ((filled xs (position + bytes.length)).take position ++ bytes ++
      (filled xs (position + bytes.length)).drop (position + bytes.length)) := by
  obtain ⟨d₁, extended, ⟨laid, size, held⟩⟩ := upsize_spec holds fresh (position + bytes.length)
  have reaches : position + bytes.length ≤ (filled xs (position + bytes.length)).length := by
    rw [filled, List.length_append, List.length_replicate]
    omega
  generalize filled xs (position + bytes.length) = ys at *
  have ⟨allocated, fits, start, empty, ends⟩ := laid
  obtain ⟨data, stored, written⟩ := storeWrapped_spec bytes
    (if position + d₁.startPos ≥ d₁.capacity then position + d₁.startPos - d₁.capacity else position + d₁.startPos) laid
    (reaches.trans fits) (by split <;> omega)
  have placed : d.place fresh position bytes = some { d₁ with data := data } := by
    have extends_ : (if position + bytes.length > d.size then d.upsize fresh (position + bytes.length) else some d) = some d₁ := by
      rw [← extended, upsize]
      split <;> split <;> first | rfl | omega
    rw [place, extends_]
    exact stored
  have whole : (ys.take position ++ bytes ++ ys.drop (position + bytes.length)).length = ys.length := by
    rw [List.length_append, List.length_append, List.length_take, List.length_drop]
    omega
  refine ⟨_, placed, whole ▸ ⟨allocated, fits, start, empty, ends⟩, whole ▸ size, ?_⟩
  obtain ⟨rest, split⟩ := Nat.exists_eq_add_of_le reaches
  rw [whole]
  calc Block.read _ 0 ys.length
    _ = (d₁.view.write position bytes).read 0 (position + bytes.length + rest) := by
      rw [← split]
      exact Block.read_congr fun i inside => by rw [Nat.zero_add]; exact written i (by omega)
    _ = d₁.view.read 0 position ++ bytes ++ d₁.view.read (position + bytes.length) rest := by
      rw [Block.read_add, Block.read_add, Nat.zero_add, Nat.zero_add, Block.read_write_same, Block.read_write_apart (.inl (by omega)),
        Block.read_write_apart (.inr le_rfl)]
    _ = ys.take position ++ bytes ++ ys.drop (position + bytes.length) := by
      rw [← held, Block.read_take (by omega), Block.read_drop, Nat.zero_add, split, Nat.add_sub_cancel_left]

/-- Bytes before those there were. -/
theorem holds_ahead (laid : d.Laid (bytes.length + xs.length)) (size : d.size = xs.length + bytes.length)
    (front : d.view.read 0 bytes.length = bytes) (rest : d.view.read bytes.length xs.length = xs) : d.Holds (bytes ++ xs) := by
  have whole : (bytes ++ xs).length = bytes.length + xs.length := List.length_append
  refine ⟨whole ▸ laid, by omega, ?_⟩
  rw [whole, Block.read_add, front, Nat.zero_add, rest]

theorem pushFront_spec (holds : d.Holds xs) (fresh : Block) (bytes : List UInt8) :
    ∃ d', d.pushFront fresh bytes = some d' ∧ d'.Holds (bytes ++ xs) := by
  obtain ⟨d₁, grown, ⟨allocated, fits, start, empty, ends⟩, size, room, endPos, held⟩ := holds.sized fresh bytes.length
  unfold pushFront
  rw [grown]
  dsimp only [Option.bind_eq_bind, Option.bind_some]
  split
  next only =>
    -- The first bytes of a deque that was empty.
    have none_ : xs.length = 0 := by omega
    refine ⟨⟨d₁.data.write 0 bytes, _, _, 0, bytes.length, _⟩, store_spec (by dsimp only; omega),
      holds_ahead ⟨allocated, by dsimp only; omega, .inr rfl, fun _ => rfl, .inl ⟨by dsimp only; omega, by dsimp only; omega⟩⟩ size ?_ ?_⟩
    · rw [read_low (by dsimp only; omega)]
      exact Block.read_write_same d₁.data 0 bytes
    · rw [List.length_eq_zero_iff.mp none_]
      rfl
  next more =>
  split
  next wraps =>
    obtain ⟨back, whole⟩ := Nat.exists_eq_add_of_le' wraps.le
    rw [whole, Nat.add_sub_cancel]
    have backs : (bytes.take back).length = back := by rw [List.length_take]; omega
    have fronts : (bytes.drop back).length = d₁.startPos := by rw [List.length_drop]; omega
    have read_back := Block.read_write_same (d₁.data.write 0 (bytes.drop back)) (d₁.capacity - back) (bytes.take back)
    have read_front := Block.read_write_same d₁.data 0 (bytes.drop back)
    rw [backs] at read_back
    rw [fronts] at read_front
    rw [store_spec (by omega)]
    refine ⟨⟨(d₁.data.write 0 (bytes.drop back)).write (d₁.capacity - back) (bytes.take back), _, _, d₁.capacity - back, d₁.endPos, _⟩,
      store_spec (by dsimp only; omega), holds_ahead ⟨allocated, ?_, .inl ?_, ?_, .inr ?_⟩ size ?_ ?_⟩ <;> dsimp only
    · omega
    · omega
    · omega
    · omega
    · rw [whole, read_wrapped (by dsimp only; omega)]
      dsimp only
      rw [Nat.add_zero, read_back, Block.read_write_apart (.inl (by omega)), read_front, List.take_append_drop]
    · rw [read_high (by dsimp only; omega)]
      dsimp only
      rw [Block.read_write_apart (.inl (by omega)), Block.read_write_apart (.inr (by omega)), ← held, read_low (by omega), Block.read_length]
      congr 1
      omega
  next inside =>
    refine ⟨⟨d₁.data.write (d₁.startPos - bytes.length) bytes, _, _, d₁.startPos - bytes.length, d₁.endPos, _⟩,
      store_spec (by dsimp only; omega), holds_ahead ⟨allocated, ?_, ?_, ?_, ?_⟩ size ?_ ?_⟩ <;> dsimp only
    · omega
    · omega
    · omega
    · omega
    · rw [read_low (by dsimp only; omega)]
      exact Block.read_write_same d₁.data _ bytes
    · refine (Block.read_congr fun i within => ?_).trans held
      have same : slot ⟨d₁.data.write (d₁.startPos - bytes.length) bytes, d₁.allocated, d₁.size, d₁.startPos - bytes.length, d₁.endPos, d₁.capacity⟩
          (bytes.length + i) = d₁.slot (0 + i) := by
        unfold slot
        dsimp only
        split <;> split <;> omega
      rw [view, same]
      exact Block.write_outside (by unfold slot; split <;> omega)

theorem peekFront_spec (holds : d.Holds xs) (data : Bool) (within : size ≤ xs.length) :
    d.peekFront data size = some (if data then xs.take size else []) := by
  have ⟨⟨allocated, fits, start, _, _⟩, _, held⟩ := holds
  cases data with
  | false => rfl
  | true =>
    rw [peekFront, if_pos rfl, if_pos rfl, ← held, Block.read_take within]
    dsimp only
    split
    next wraps =>
      obtain ⟨front, whole⟩ := Nat.exists_eq_add_of_le wraps.le
      have read := @read_wrapped d 0 front (d.capacity - d.startPos) (by omega)
      rw [whole, Nat.add_sub_cancel_left, load_spec (by omega), load_spec (by omega), read]
      rfl
    next inside => rw [load_spec (by omega), read_low (by omega), Nat.add_zero]

theorem peekBack_spec (holds : d.Holds xs) (data : Bool) (within : size ≤ xs.length) :
    d.peekBack data size = some (if data then xs.drop (xs.length - size) else []) := by
  have ⟨⟨allocated, fits, start, empty, ends⟩, _, held⟩ := holds
  cases data with
  | false => rfl
  | true =>
    have last : xs.drop (xs.length - size) = d.view.read (xs.length - size) size := by
      conv_lhs => rw [← held, Block.read_length, Block.read_drop, Nat.zero_add, Nat.sub_sub_self within]
    rw [peekBack, if_pos rfl, if_pos rfl, last]
    dsimp only
    by_cases none_ : d.endPos = 0
    · -- An empty deque.
      have zero : size = 0 := by omega
      subst zero
      rw [if_neg (Nat.not_lt_zero _), if_neg (Nat.not_lt_zero _), load_spec (by omega)]
      rfl
    · rw [if_pos none_]
      split
      next wraps =>
        obtain ⟨back, whole⟩ := Nat.exists_eq_add_of_le' wraps.le
        have read := @read_wrapped d (xs.length - size) d.endPos back (by omega)
        rw [← whole] at read
        rw [read, whole, Nat.add_sub_cancel, load_spec (by omega), load_spec (by omega), show d.startPos + (xs.length - (back + d.endPos)) = d.capacity - back by omega]
        rfl
      next inside =>
        rw [load_spec (by omega)]
        rcases ends with ⟨low, _⟩ | ⟨_, high⟩
        · rw [read_low (by omega), ← Nat.add_sub_assoc within, ← low]
        · rw [read_high (by omega)]
          congr 2
          omega

theorem popFront_spec (holds : d.Holds xs) (within : size ≤ xs.length) : (d.popFront size).Holds (xs.drop size) := by
  have ⟨⟨allocated, fits, start, empty, ends⟩, counted, held⟩ := holds
  have left : (xs.drop size).length = xs.length - size := List.length_drop
  unfold popFront
  rw [counted]
  split
  next none_ =>
    rw [List.length_eq_zero_iff.mp (left.trans none_)]
    exact ⟨⟨allocated, Nat.zero_le _, .inr rfl, fun _ => rfl, .inl ⟨rfl, Nat.zero_le _⟩⟩, rfl, rfl⟩
  next some_ =>
    refine ⟨left ▸ ⟨allocated, ?_, .inl ?_, ?_, ?_⟩, left.symm, ?_⟩ <;> dsimp only
    · omega
    · split <;> omega
    · omega
    · split <;> omega
    · rw [left, ← held, Block.read_drop, Block.read_length, Nat.zero_add]
      refine Block.read_congr fun i inside => congrArg d.data ?_
      unfold slot
      dsimp only
      grind

theorem popBack_spec (holds : d.Holds xs) (within : size ≤ xs.length) : (d.popBack size).Holds (xs.take (xs.length - size)) := by
  have ⟨⟨allocated, fits, start, empty, ends⟩, counted, held⟩ := holds
  have left : (xs.take (xs.length - size)).length = xs.length - size := by rw [List.length_take]; omega
  unfold popBack
  rw [counted]
  split
  next none_ =>
    rw [none_, List.take_zero]
    exact ⟨⟨allocated, Nat.zero_le _, .inr rfl, fun _ => rfl, .inl ⟨rfl, Nat.zero_le _⟩⟩, rfl, rfl⟩
  next some_ =>
    refine ⟨?_, left.symm, ?_⟩
    · rw [left]
      exact ⟨allocated, by dsimp only; omega, start, by dsimp only; omega, by dsimp only; split <;> omega⟩
    · rw [left, ← held, Block.read_take (by rw [Block.read_length]; omega), Block.read_length]
      rfl

/-! ### Calls -/

theorem call_spec (holds : d.Holds xs) (fresh : Block) {op : Op} {ys out : List UInt8} (plain : op.onList xs = some (ys, out)) :
    ∃ d', d.call fresh op = some (d', out) ∧ d'.Holds ys := by
  have changed {o : Option Deque} {zs : List UInt8} (spec : ∃ d', o = some d' ∧ d'.Holds zs) (same : (zs, []) = (ys, out)) :
      ∃ d', o.map (·, []) = some (d', out) ∧ d'.Holds ys := by
    obtain ⟨d', rfl, held⟩ := spec
    cases same
    exact ⟨d', rfl, held⟩
  cases op with
  | pushBack bytes => exact changed (pushBack_spec holds fresh bytes) (Option.some.inj plain)
  | pushFront bytes => exact changed (pushFront_spec holds fresh bytes) (Option.some.inj plain)
  | pushBackZero size => exact changed (pushBack_spec holds fresh _) (Option.some.inj plain)
  | pushFrontZero size => exact changed (pushFront_spec holds fresh _) (Option.some.inj plain)
  | place position bytes => exact changed (place_spec holds fresh position bytes) (Option.some.inj plain)
  | upsize size => exact changed (upsize_spec holds fresh size) (Option.some.inj plain)
  | reserve capacity => exact changed (reserve_spec holds fresh capacity) (Option.some.inj plain)
  | peekFront data size =>
    obtain ⟨within, same⟩ := Option.ite_none_right_eq_some.mp plain
    cases same
    exact ⟨d, by rw [call, peekFront_spec holds data within]; rfl, holds⟩
  | peekBack data size =>
    obtain ⟨within, same⟩ := Option.ite_none_right_eq_some.mp plain
    cases same
    exact ⟨d, by rw [call, peekBack_spec holds data within]; rfl, holds⟩
  | popFront data size =>
    obtain ⟨within, same⟩ := Option.ite_none_right_eq_some.mp plain
    cases same
    exact ⟨_, by rw [call, peekFront_spec holds data within]; rfl, popFront_spec holds within⟩
  | popBack data size =>
    obtain ⟨within, same⟩ := Option.ite_none_right_eq_some.mp plain
    cases same
    exact ⟨_, by rw [call, peekBack_spec holds data within]; rfl, popBack_spec holds within⟩

theorem init_holds : init.Holds [] := ⟨⟨rfl, le_rfl, .inr rfl, fun _ => rfl, .inl ⟨rfl, le_rfl⟩⟩, rfl, rfl⟩

theorem calls_spec {ops : List (Block × Op)} (holds : d.Holds xs) {ys : List UInt8} {outs : List (List UInt8)}
    (plain : calls (fun xs (call : Block × Op) => call.2.onList xs) xs ops = some (ys, outs)) :
    ∃ d', calls (fun d (call : Block × Op) => d.call call.1 call.2) d ops = some (d', outs) ∧ d'.Holds ys := by
  induction ops generalizing d xs outs with
  | nil =>
    cases plain
    exact ⟨d, rfl, holds⟩
  | cons op ops ih =>
    obtain ⟨⟨zs, out⟩, one, later⟩ := Option.bind_eq_some_iff.mp plain
    obtain ⟨⟨_, outs'⟩, all, same⟩ := Option.bind_eq_some_iff.mp later
    cases same
    obtain ⟨d₁, called, held⟩ := call_spec holds op.1 one
    obtain ⟨d', rest, held⟩ := ih held all
    refine ⟨d', ?_, held⟩
    rw [calls, called]
    dsimp only [Option.bind_eq_bind, Option.bind_some]
    rw [rest]
    rfl

theorem dataAt_spec (holds : d.Holds xs) (idx : Nat) : (d.dataAt idx).bind (d.load · 1) = xs[idx]?.map ([·]) := by
  have ⟨⟨allocated, fits, start, _, _⟩, size, held⟩ := holds
  unfold dataAt
  dsimp only
  rw [size]
  split
  next beyond => rw [List.getElem?_eq_none beyond]; rfl
  next within =>
    have here : xs[idx]? = some (d.view idx) := by
      conv_lhs => rw [← held, Block.read, List.getElem?_map, List.getElem?_range (by omega), Option.map_some, Nat.zero_add]
    rw [here, view, slot]
    split
    next high => rw [if_neg (by omega), Option.bind_some, load_spec (by omega)]; rfl
    next low => rw [if_pos (by omega), Option.bind_some, load_spec (by omega)]; rfl

/-- Every run of calls that a plain list allows goes the same on a deque, whatever is in the buffers it grows into. -/
theorem runs_as_list (ops : List (Block × Op)) (ys : List UInt8) (outs : List (List UInt8))
    (plain : calls (fun xs (call : Block × Op) => call.2.onList xs) [] ops = some (ys, outs)) :
    ∃ d, calls (fun d (call : Block × Op) => d.call call.1 call.2) init ops = some (d, outs) ∧
      d.size = ys.length ∧ (∀ idx, (d.dataAt idx).bind (d.load · 1) = ys[idx]?.map ([·])) ∧ d.allocated = d.capacity ∧
      (0 < d.size → d.startPos < d.capacity ∧ d.endPos ≤ d.capacity ∧ d.size ≤ d.capacity) := by
  obtain ⟨d, ran, holds⟩ := calls_spec init_holds plain
  have ⟨⟨allocated, fits, start, _, ends⟩, size, _⟩ := holds
  exact ⟨d, ran, size, dataAt_spec holds, allocated, fun _ => ⟨by omega, by omega, by omega⟩⟩

theorem runs_as_list_wrapped : ∃ d, calls (fun d (call : Block × Op) => d.call call.1 call.2) init
      [(fun _ => 7, .pushBack [1, 2, 3]), (fun _ => 8, .popFront true 2), (fun _ => 9, .pushBack [4, 5]), (fun _ => 6, .pushFront [0])] =
        some (d, [[], [1, 2], [], []]) ∧
    d.size = 4 ∧ (∀ idx, (d.dataAt idx).bind (d.load · 1) = [0, 3, 4, 5][idx]?.map ([·])) ∧ d.allocated = d.capacity ∧
      (0 < d.size → d.startPos < d.capacity ∧ d.endPos ≤ d.capacity ∧ d.size ≤ d.capacity) :=
  runs_as_list _ [0, 3, 4, 5] _ rfl

end Deque

end Braidcast.Util
