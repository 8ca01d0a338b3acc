import Braidcast.Data.Item

/-!
# The three regions of an item

The lengths the setters keep are enough for the regions to lie apart and inside the allocation,
whatever is set in whatever order; each region then holds what was last stored in it.
-/
namespace Braidcast.Data

open Lib

namespace Item

variable {item : Item} {fresh : Block} {data : List UInt8} {type : DataType}

/-- The lengths that the setters keep. -/
structure Sized (item : Item) : Prop where
  user : item.dataSize ≤ item.dataLen
  default : item.defaultSize ≤ item.defaultLen
  noUser : item.dataSize = 0 → item.dataLen = 0
  noDefault : item.defaultSize = 0 → item.defaultLen = 0
  userAligned : item.defaultSize ≠ 0 ∨ item.autoselectSize ≠ 0 → item.dataLen = getAlignSize item.dataSize
  defaultAligned : item.autoselectSize ≠ 0 → item.defaultLen = getAlignSize item.defaultSize
  inside : item.totalSize ≤ item.capacity

/-- The regions stand behind the name, one behind the other, inside the allocation. -/
theorem Sized.apart (sized : item.Sized) :
    item.header + item.nameLen ≤ item.start .user ∧
    item.start .user + item.size .user ≤ item.start .default ∧
    item.start .default + item.size .default ≤ item.start .autoselect ∧
    item.start .autoselect + item.size .autoselect ≤ item.capacity := by
  have inside := sized.inside
  have user := sized.user
  have default := sized.default
  unfold totalSize at inside
  simp only [start, size, getDataPtr, getDefaultDataPtr, getAutoselectDataPtr]
  omega

@[simp] theorem bytes_length (item : Item) (region : Region) : (item.bytes region).length = item.size region := by
  simp [bytes]

theorem ensureCapacity_spec (item : Item) (fresh : Block) :
    ∃ capacity mem, item.ensureCapacity fresh = { item with capacity, mem } ∧ item.totalSize ≤ capacity ∧
      ∀ k < item.capacity, mem k = item.mem k := by
  unfold ensureCapacity
  split
  next enough => exact ⟨item.capacity, item.mem, rfl, enough, fun _ _ => rfl⟩
  next =>
    refine ⟨_, _, rfl, le_rfl, fun k inside => ?_⟩
    exact if_pos inside

/-- What a setter leaves: the new bytes in its region, the others and the name as they were. -/
structure Sets (item item' : Item) (region : Region) (data : List UInt8) : Prop where
  sized : item'.Sized
  header : item'.header = item.header
  nameLen : item'.nameLen = item.nameLen
  here : item'.bytes region = data
  others : ∀ r, r ≠ region → item'.bytes r = item.bytes r
  front : ∀ k < item.header + item.nameLen, item'.mem k = item.mem k

/-- Copying nothing is left out by the code, and moving nothing. -/
theorem write_if (item : Item) (place : Nat) (data : List UInt8) :
    (if data.length ≠ 0 then { item with mem := item.mem.write place data } else item) =
      { item with mem := item.mem.write place data } := by
  split
  next => rfl
  next none => rw [List.eq_nil_of_length_eq_zero (not_not.mp none), Block.write_nil]

theorem move_if (item : Item) (p : Prop) [Decidable p] (place source : Nat) {size : Nat} (none : ¬ p → size = 0) :
    (if p then { item with mem := item.mem.move place source size } else item) =
      { item with mem := item.mem.move place source size } := by
  split
  next => rfl
  next not => rw [none not, Block.move_zero]

theorem align_if (size : Nat) : (if size ≠ 0 then getAlignSize size else 0) = getAlignSize size := by
  split
  next => rfl
  next none => rw [not_not.mp none]; rfl

/-- `obs_data_item_setdata`, with the new lengths and the new block. -/
theorem setData_eq (sized : item.Sized) (fresh : Block) (data : List UInt8) (type : DataType) :
    ∃ dataLen capacity mem, item.setData fresh data type = { item with
        dataSize := data.length, type, dataLen, capacity
        mem := (Block.move mem (item.getDataPtr + dataLen) item.getDefaultDataPtr (item.defaultLen + item.autoselectSize)).write
          item.getDataPtr data } ∧
      data.length ≤ dataLen ∧ (data.length = 0 → dataLen = 0) ∧
      (item.defaultSize ≠ 0 ∨ item.autoselectSize ≠ 0 → dataLen = getAlignSize data.length) ∧
      item.getDataPtr + dataLen + item.defaultLen + item.autoselectSize ≤ capacity ∧
      ∀ k < item.capacity, mem k = item.mem k := by
  have room := le_getAlignSize data.length
  have others : (item.defaultSize ≠ 0 || item.autoselectSize ≠ 0) = true ↔
      item.defaultSize ≠ 0 ∨ item.autoselectSize ≠ 0 := by simp
  generalize len : (if (item.defaultSize ≠ 0 || item.autoselectSize ≠ 0) = true then getAlignSize data.length
    else data.length) = dataLen
  obtain ⟨capacity, mem, same, enough, kept⟩ := ensureCapacity_spec
    { item with dataSize := data.length, type, dataLen } fresh
  refine ⟨dataLen, capacity, mem, ?_, ?_, fun none => ?_, fun some => ?_, enough, kept⟩
  · unfold setData
    dsimp only
    rw [write_if, move_if, len, same]
    · rfl
    · intro none
      rw [len, same]
      have := sized.noDefault
      rw [others] at none
      show item.defaultLen + item.autoselectSize = 0
      omega
  · rw [← len]
    split <;> omega
  · rw [← len, none]
    split <;> rfl
  · rw [← len, if_pos (others.mpr some)]

theorem setData_spec (sized : item.Sized) : Sets item (item.setData fresh data type) .user data := by
  obtain ⟨dataLen, capacity, mem, same, room, none, aligned, enough, kept⟩ := setData_eq sized fresh data type
  have inside := sized.inside
  have default := sized.default
  unfold totalSize at inside
  rw [same]
  refine ⟨⟨room, default, none, sized.noDefault, aligned, sized.defaultAligned, ?_⟩, rfl, rfl, ?_, fun r other => ?_,
    fun k front => ?_⟩
  · exact enough
  · exact Block.read_write_same _ _ _
  · -- the other two were moved as one, from where they stood in the old allocation
    cases r with
    | user => exact absurd rfl other
    | default =>
      simp only [bytes, start, size, getDefaultDataPtr, getDataPtr] at enough kept ⊢
      rw [Block.read_write_apart (by omega), Block.read_move_front (by omega)]
      exact Block.read_congr fun i less => kept _ (by omega)
    | autoselect =>
      simp only [bytes, start, size, getAutoselectDataPtr, getDefaultDataPtr, getDataPtr] at enough kept ⊢
      rw [Block.read_write_apart (by omega), Block.read_move (by omega)]
      exact Block.read_congr fun i less => kept _ (by omega)
  · simp only [getDefaultDataPtr, getDataPtr] at front kept ⊢
    rw [Block.write_outside (by omega), Block.move_outside (by omega)]
    exact kept k (by omega)

/-- `obs_data_item_set_default_data` in the same way. -/
theorem setDefaultData_eq (item : Item) (fresh : Block) (data : List UInt8) (type : DataType) :
    ∃ defaultLen capacity mem, item.setDefaultData fresh data type = { item with
        type, defaultSize := data.length, defaultLen, dataLen := getAlignSize item.dataSize, capacity
        mem := (Block.move mem (item.getDataPtr + getAlignSize item.dataSize + defaultLen) item.getAutoselectDataPtr
          item.autoselectSize).write (item.getDataPtr + getAlignSize item.dataSize) data } ∧
      data.length ≤ defaultLen ∧ (data.length = 0 → defaultLen = 0) ∧
      (item.autoselectSize ≠ 0 → defaultLen = getAlignSize data.length) ∧
      item.getDataPtr + getAlignSize item.dataSize + defaultLen + item.autoselectSize ≤ capacity ∧
      ∀ k < item.capacity, mem k = item.mem k := by
  have room := le_getAlignSize data.length
  generalize len : (if item.autoselectSize ≠ 0 then getAlignSize data.length else data.length) = defaultLen
  obtain ⟨capacity, mem, same, enough, kept⟩ := ensureCapacity_spec
    { item with type, defaultSize := data.length, defaultLen, dataLen := getAlignSize item.dataSize } fresh
  refine ⟨defaultLen, capacity, mem, ?_, ?_, fun none => ?_, fun some => ?_, enough, kept⟩
  · unfold setDefaultData
    dsimp only
    rw [write_if, move_if, len, align_if, same]
    · rfl
    · exact not_not.mp
  · rw [← len]
    split <;> omega
  · rw [← len, none]
    split <;> rfl
  · rw [← len, if_pos some]

section

variable (sized : item.Sized)
include sized

theorem setDefaultData_spec : Sets item (item.setDefaultData fresh data type) .default data := by
  obtain ⟨defaultLen, capacity, mem, same, room, none, aligned, enough, kept⟩ := setDefaultData_eq item fresh data type
  have inside := sized.inside
  have user := sized.user
  have fits := le_getAlignSize item.dataSize
  unfold totalSize at inside
  rw [same]
  refine ⟨⟨fits, room, fun none => ?_, none, fun _ => rfl, aligned, enough⟩, rfl, rfl, ?_, fun r other => ?_,
    fun k front => ?_⟩
  · exact (congrArg getAlignSize none).trans rfl
  · exact Block.read_write_same _ _ _
  · cases r with
    | default => exact absurd rfl other
    | user =>
      simp only [bytes, start, size, getDefaultDataPtr, getAutoselectDataPtr, getDataPtr] at enough kept ⊢
      rw [Block.read_write_apart (by omega), Block.read_move_apart (by omega)]
      exact Block.read_congr fun i less => kept _ (by omega)
    | autoselect =>
      simp only [bytes, start, size, getAutoselectDataPtr, getDefaultDataPtr, getDataPtr] at enough kept ⊢
      rw [Block.read_write_apart (by omega), Block.read_move_front (by omega)]
      exact Block.read_congr fun i less => kept _ (by omega)
  · simp only [getDefaultDataPtr, getAutoselectDataPtr, getDataPtr] at front kept ⊢
    rw [Block.write_outside (by omega), Block.move_outside (by omega)]
    exact kept k (by omega)

/-- `obs_data_item_set_autoselect_data` moves nothing: the two others stand aligned already. -/
theorem setAutoselectData_spec :
    Sets item (item.setAutoselectData fresh data type) .autoselect data := by
  have inside := sized.inside
  have user := sized.user
  have default := sized.default
  have fitsUser := le_getAlignSize item.dataSize
  have fitsDefault := le_getAlignSize item.defaultSize
  obtain ⟨capacity, mem, same, enough, kept⟩ := ensureCapacity_spec { item with
    autoselectSize := data.length, type, dataLen := getAlignSize item.dataSize,
    defaultLen := getAlignSize item.defaultSize } fresh
  unfold totalSize at inside enough
  have eq : item.setAutoselectData fresh data type = { item with
      autoselectSize := data.length, type, dataLen := getAlignSize item.dataSize
      defaultLen := getAlignSize item.defaultSize, capacity
      mem := mem.write (item.getDataPtr + getAlignSize item.dataSize + getAlignSize item.defaultSize) data } := by
    unfold setAutoselectData
    dsimp only
    rw [write_if, align_if, align_if, same]
    rfl
  rw [eq]
  refine ⟨⟨fitsUser, fitsDefault, fun none => ?_, fun none => ?_, fun _ => rfl, fun _ => rfl, enough⟩, rfl, rfl, ?_,
    fun r other => ?_, fun k front => ?_⟩
  · exact (congrArg getAlignSize none).trans rfl
  · exact (congrArg getAlignSize none).trans rfl
  · exact Block.read_write_same _ _ _
  · cases r with
    | autoselect => exact absurd rfl other
    | user =>
      simp only [bytes, start, size, getDataPtr] at enough kept ⊢
      rw [Block.read_write_apart (by omega)]
      exact Block.read_congr fun i less => kept _ (by omega)
    | default =>
      simp only [bytes, start, size, getDefaultDataPtr, getDataPtr] at enough kept ⊢
      by_cases none : item.defaultSize = 0
      · rw [none]
        rfl
      · rw [sized.userAligned (.inl none)] at inside ⊢
        rw [Block.read_write_apart (by omega)]
        exact Block.read_congr fun i less => kept _ (by omega)
  · simp only [getDataPtr] at front kept ⊢
    rw [Block.write_outside (by omega)]
    exact kept k (by omega)

/-- A region that is empty has nothing to be unset. -/
theorem sets_nil {region : Region} (none : item.size region = 0) : Sets item item region [] := by
  refine ⟨sized, rfl, rfl, ?_, fun _ _ => rfl, fun _ _ => rfl⟩
  rw [bytes, none]
  rfl

/-- What an `obs_data_item_unset_` function leaves: nothing in its region. -/
theorem unsetUserValue_spec : Sets item item.unsetUserValue .user [] := by
  by_cases none : item.dataSize = 0
  · unfold unsetUserValue
    rw [if_pos none]
    exact sets_nil sized none
  have inside := sized.inside
  have default := sized.default
  have noDefault := sized.noDefault
  unfold totalSize at inside
  have eq : item.unsetUserValue = { item with
      dataSize := 0, dataLen := 0
      mem := item.mem.move item.getDataPtr item.getDefaultDataPtr (item.defaultLen + item.autoselectSize) } := by
    unfold unsetUserValue
    rw [if_neg none]
    refine move_if { item with dataSize := 0, dataLen := 0 } _ _ _ fun others => ?_
    dsimp only at others ⊢
    omega
  rw [eq]
  refine ⟨⟨le_rfl, default, fun _ => rfl, sized.noDefault, fun _ => getAlignSize_zero.symm, sized.defaultAligned, ?_⟩, rfl, rfl, rfl,
    fun r other => ?_, fun k front => ?_⟩
  · unfold totalSize
    dsimp only
    omega
  · cases r with
    | user => exact absurd rfl other
    | default =>
      simp only [bytes, start, size, getDefaultDataPtr, getDataPtr]
      exact Block.read_move_front (by omega)
    | autoselect =>
      simp only [bytes, start, size, getAutoselectDataPtr, getDefaultDataPtr, getDataPtr]
      exact Block.read_move (by omega)
  · simp only [getDefaultDataPtr, getDataPtr] at front ⊢
    exact Block.move_outside (by omega)

theorem unsetDefaultValue_spec : Sets item item.unsetDefaultValue .default [] := by
  by_cases none : item.defaultSize = 0
  · unfold unsetDefaultValue
    rw [if_pos none]
    exact sets_nil sized none
  have inside := sized.inside
  have user := sized.user
  unfold totalSize at inside
  have eq : item.unsetDefaultValue = { item with
      defaultSize := 0, defaultLen := 0
      mem := item.mem.move item.getDefaultDataPtr item.getAutoselectDataPtr item.autoselectSize } := by
    unfold unsetDefaultValue
    rw [if_neg none]
    exact move_if { item with defaultSize := 0, defaultLen := 0 } _ _ _ not_not.mp
  rw [eq]
  refine ⟨⟨user, le_rfl, sized.noUser, fun _ => rfl, fun _ => sized.userAligned (.inl none),
    fun _ => getAlignSize_zero.symm, ?_⟩, rfl, rfl, rfl, fun r other => ?_, fun k front => ?_⟩
  · unfold totalSize
    dsimp only
    omega
  · cases r with
    | default => exact absurd rfl other
    | user =>
      simp only [bytes, start, size, getAutoselectDataPtr, getDefaultDataPtr, getDataPtr]
      exact Block.read_move_apart (by omega)
    | autoselect =>
      simp only [bytes, start, size, getAutoselectDataPtr, getDefaultDataPtr, getDataPtr]
      exact Block.read_move_front (by omega)
  · simp only [getAutoselectDataPtr, getDefaultDataPtr, getDataPtr] at front ⊢
    exact Block.move_outside (by omega)

theorem unsetAutoselectValue_spec : Sets item item.unsetAutoselectValue .autoselect [] := by
  unfold unsetAutoselectValue
  split
  next none => exact sets_nil sized none
  next some =>
    have inside := sized.inside
    unfold totalSize at inside
    refine ⟨⟨sized.user, sized.default, sized.noUser, sized.noDefault, fun _ => sized.userAligned (.inr some),
      fun none => absurd rfl none, ?_⟩, rfl, rfl, rfl, fun r other => ?_, fun _ _ => rfl⟩
    · unfold totalSize
      dsimp only
      omega
    · cases r with
      | autoselect => exact absurd rfl other
      | user => rfl
      | default => rfl

end

theorem create_sized (header : Nat) (name data : List UInt8) (type : DataType) (region : Region) :
    (create header name data type region).Sized := by
  cases region with
  | user => exact ⟨le_rfl, le_rfl, id, id, fun some => by simp [create] at some, fun some => absurd rfl some, by
      simp [create, totalSize]; omega⟩
  | default => exact ⟨le_rfl, le_rfl, id, id, fun _ => getAlignSize_zero.symm, fun some => absurd rfl some, by
      simp [create, totalSize]; omega⟩
  | autoselect => exact ⟨le_rfl, le_rfl, id, id, fun _ => getAlignSize_zero.symm, fun _ => getAlignSize_zero.symm, by
      simp [create, totalSize]; omega⟩

theorem create_bytes (header : Nat) (name data : List UInt8) (type : DataType) (region r : Region) :
    (create header name data type region).bytes r = if r = region then data else [] := by
  split
  next same =>
    subst same
    cases r <;> exact Block.read_write_same _ _ _
  next other =>
    cases r <;> cases region <;> first | exact absurd rfl other | rfl

theorem create_name (header : Nat) (name data : List UInt8) (type : DataType) (region : Region) :
    (create header name data type region).mem.read header (name.length + 1) = name ++ [0] := by
  have fits := name_lt_getNameAlignSize header name
  have len : (name ++ [(0 : UInt8)]).length = name.length + 1 := by simp
  show ((Block.write _ header (name ++ [0])).write _ data).read header (name.length + 1) = name ++ [0]
  rw [Block.read_write_apart (by omega), ← len]
  exact Block.read_write_same _ _ _

/-- Reading a number's type and its 64 bits back. -/
theorem number_of_encodes {place size tag : Nat} {bits : UInt64} {pad : List UInt8} (padding : pad.length = 4)
    (small : tag < 256 ^ 4) (encoded : item.mem.read place size = toLE 4 tag ++ pad ++ toLE 8 bits.toNat) :
    item.numType place = tag ∧ item.word (place + 8) = bits := by
  have length : size = 4 + (4 + 8) := by simpa [padding] using congrArg List.length encoded
  rw [length, Block.read_add, Block.read_add, List.append_assoc] at encoded
  obtain ⟨front, rest⟩ := List.append_inj encoded (by simp)
  obtain ⟨_, back⟩ := List.append_inj rest (by simp [padding])
  unfold numType word
  rw [front, ofLE_toLE small, show place + 8 = place + 4 + 4 from rfl, back, ofLE_toLE bits.toNat_lt, UInt64.ofNat_toNat]
  exact ⟨rfl, rfl⟩

theorem pointer_of_encodes {place size : Nat} {ptr : UInt64} (encoded : item.mem.read place size = toLE 8 ptr.toNat) :
    item.word place = ptr := by
  have length : size = 8 := by simpa using congrArg List.length encoded
  unfold word
  rw [← length, encoded, ofLE_toLE ptr.toNat_lt, UInt64.ofNat_toNat]

/-- A getter of the right type on the bytes of a value answers that value. -/
theorem answers_of_encodes (c : Conversions) {v : Value} {place size : Nat} (type : item.type = v.type)
    (encodes : Encodes v (item.mem.read place size)) (inside : place + size ≤ item.capacity) :
    item.answers c (some place) = v.answers c := by
  cases v with
  | string text =>
    obtain ⟨encoded, clean⟩ := encodes
    have whole : item.cString place = text := by
      unfold cString
      obtain ⟨more, rest⟩ : ∃ more, item.capacity - place = size + more := ⟨item.capacity - place - size, by omega⟩
      rw [rest, Block.read_add, encoded, List.append_assoc, List.takeWhile_append_of_pos]
      · simp
      · intro b member
        have some : b ≠ 0 := fun zero => clean (by rw [← zero]; exact member)
        simpa using some
    simp [answers, valid, type, Value.type, Value.answers, whole]
  | int bits =>
    obtain ⟨pad, padding, encoded⟩ := encodes
    obtain ⟨tag, payload⟩ := number_of_encodes padding (by decide) encoded
    simp [answers, valid, type, Value.type, Value.answers, tag, payload]
  | double bits =>
    obtain ⟨pad, padding, encoded⟩ := encodes
    obtain ⟨tag, payload⟩ := number_of_encodes padding (by decide) encoded
    simp [answers, valid, type, Value.type, Value.answers, tag, payload, OBS_DATA_NUM_INT, OBS_DATA_NUM_DOUBLE]
  | boolean b =>
    have length : size = 1 := by simpa using congrArg List.length encodes
    have first : item.mem place = if b then 1 else 0 := by
      subst length
      simpa [Encodes, Block.read] using encodes
    simp [answers, valid, type, Value.type, Value.answers, first]
    cases b <;> rfl
  | object | array =>
    simp [answers, valid, type, Value.type, Value.answers, pointer_of_encodes encodes]

end Item

end Braidcast.Data
