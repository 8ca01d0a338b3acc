import Braidcast.Lib.Bytes
import Braidcast.Lib.Run

/-!
# Settings items

`libobs/obs-data.c`: an item is one allocation. Behind its header stand the name, the user value,
the default value and the autoselect value, each where the lengths before it put it; one type
field speaks for all three values.
-/
namespace Braidcast.Data

open Lib

/-- `enum obs_data_type`. -/
inductive DataType
  | null
  | string
  | number
  | boolean
  | object
  | array
  deriving DecidableEq

/-- The three values of an item. -/
inductive Region
  | user
  | default
  | autoselect
  deriving DecidableEq

/-- `struct obs_data_item` with the bytes behind it. -/
structure Item where
  /-- `sizeof(struct obs_data_item)`. -/
  header : Nat
  type : DataType
  nameLen : Nat
  dataLen : Nat
  dataSize : Nat
  defaultLen : Nat
  defaultSize : Nat
  autoselectSize : Nat
  capacity : Nat
  mem : Block

def ALIGNMENT : Nat := 32

def getAlignSize (size : Nat) : Nat := (size + ALIGNMENT - 1) / ALIGNMENT * ALIGNMENT

def getNameAlignSize (header : Nat) (name : List UInt8) : Nat :=
  (header + (name.length + 1 + ALIGNMENT - 1)) / ALIGNMENT * ALIGNMENT - header

theorem le_getAlignSize (size : Nat) : size ≤ getAlignSize size := by
  unfold getAlignSize ALIGNMENT
  omega

@[simp] theorem getAlignSize_zero : getAlignSize 0 = 0 := rfl

/-- The name and its end fit in front of the values. -/
theorem name_lt_getNameAlignSize (header : Nat) (name : List UInt8) : name.length < getNameAlignSize header name := by
  unfold getNameAlignSize ALIGNMENT
  omega

namespace Item

variable (item : Item)

def getDataPtr : Nat := item.header + item.nameLen

def getDefaultDataPtr : Nat := item.getDataPtr + item.dataLen

def getAutoselectDataPtr : Nat := item.getDefaultDataPtr + item.defaultLen

def totalSize : Nat := item.header + item.nameLen + item.dataLen + item.defaultLen + item.autoselectSize

/-- `get_item_data`, null where none of the values is there. -/
def getItemData : Option Nat :=
  if item.dataSize = 0 ∧ item.defaultSize = 0 ∧ item.autoselectSize = 0 then none else some item.getDataPtr

def getItemDefaultData : Option Nat := if item.defaultSize = 0 then none else some item.getDefaultDataPtr

def getItemAutoselectData : Option Nat := if item.autoselectSize = 0 then none else some item.getAutoselectDataPtr

def size : Region → Nat
  | .user => item.dataSize
  | .default => item.defaultSize
  | .autoselect => item.autoselectSize

def start : Region → Nat
  | .user => item.getDataPtr
  | .default => item.getDefaultDataPtr
  | .autoselect => item.getAutoselectDataPtr

/-- The bytes of a value. -/
def bytes (region : Region) : List UInt8 := item.mem.read (item.start region) (item.size region)

/-- `obs_data_item_create`; the references it takes are left to the references. -/
def create (header : Nat) (name data : List UInt8) (type : DataType) (region : Region) : Item :=
  let nameLen := getNameAlignSize header name
  let size := data.length
  { header, type, nameLen
    dataLen := if region = .user then size else 0
    dataSize := if region = .user then size else 0
    defaultLen := if region = .default then size else 0
    defaultSize := if region = .default then size else 0
    autoselectSize := if region = .autoselect then size else 0
    capacity := nameLen + header + size
    mem := (Block.write (fun _ => 0) header (name ++ [0])).write (header + nameLen) data }

/-- `obs_data_item_ensure_capacity`; `fresh` is what the allocator's new bytes hold. -/
def ensureCapacity (fresh : Block) : Item :=
  if item.capacity ≥ item.totalSize then item
  else { item with
    capacity := item.totalSize
    mem := fun k => if k < item.capacity then item.mem k else fresh k }

/-- `obs_data_item_setdata`. -/
def setData (fresh : Block) (data : List UInt8) (type : DataType) : Item :=
  let oldDefault := item.getDefaultDataPtr
  let size := data.length
  let others : Bool := item.defaultSize ≠ 0 || item.autoselectSize ≠ 0
  let item := { item with dataSize := size, type, dataLen := if others then getAlignSize size else size }
  let item := item.ensureCapacity fresh
  let item := if others then
    { item with mem := item.mem.move item.getDefaultDataPtr oldDefault (item.defaultLen + item.autoselectSize) }
    else item
  if size ≠ 0 then { item with mem := item.mem.write item.getDataPtr data } else item

/-- `obs_data_item_set_default_data`. -/
def setDefaultData (fresh : Block) (data : List UInt8) (type : DataType) : Item :=
  let oldAutoselect := item.getAutoselectDataPtr
  let size := data.length
  let item := { item with
    type, defaultSize := size
    defaultLen := if item.autoselectSize ≠ 0 then getAlignSize size else size
    dataLen := if item.dataSize ≠ 0 then getAlignSize item.dataSize else 0 }
  let item := item.ensureCapacity fresh
  let item := if item.autoselectSize ≠ 0 then
    { item with mem := item.mem.move item.getAutoselectDataPtr oldAutoselect item.autoselectSize }
    else item
  if size ≠ 0 then { item with mem := item.mem.write item.getDefaultDataPtr data } else item

/-- `obs_data_item_set_autoselect_data`. -/
def setAutoselectData (fresh : Block) (data : List UInt8) (type : DataType) : Item :=
  let size := data.length
  let item := { item with
    autoselectSize := size, type
    dataLen := if item.dataSize ≠ 0 then getAlignSize item.dataSize else 0
    defaultLen := if item.defaultSize ≠ 0 then getAlignSize item.defaultSize else 0 }
  let item := item.ensureCapacity fresh
  if size ≠ 0 then { item with mem := item.mem.write item.getAutoselectDataPtr data } else item

/-- `obs_data_item_unset_user_value`. -/
def unsetUserValue : Item :=
  if item.dataSize = 0 then item
  else
    let oldNonUser := item.getDefaultDataPtr
    let item := { item with dataSize := 0, dataLen := 0 }
    if item.defaultSize ≠ 0 ∨ item.autoselectSize ≠ 0 then
      { item with mem := item.mem.move item.getDefaultDataPtr oldNonUser (item.defaultLen + item.autoselectSize) }
    else item

/-- `obs_data_item_unset_default_value`. -/
def unsetDefaultValue : Item :=
  if item.defaultSize = 0 then item
  else
    let oldAutoselect := item.getAutoselectDataPtr
    let item := { item with defaultSize := 0, defaultLen := 0 }
    if item.autoselectSize ≠ 0 then
      { item with mem := item.mem.move item.getAutoselectDataPtr oldAutoselect item.autoselectSize }
    else item

/-- `obs_data_item_unset_autoselect_value`. -/
def unsetAutoselectValue : Item := if item.autoselectSize = 0 then item else { item with autoselectSize := 0 }

end Item

/-- A call on one key. The setters have the bytes of the value and their type. -/
inductive Call
  | set (region : Region) (data : List UInt8) (type : DataType)
  | unset (region : Region)

/-- `set_item_data` for a key whose item may not be there. -/
def setItemData (header : Nat) (name : List UInt8) (fresh : Block) (item : Option Item) (data : List UInt8)
    (type : DataType) (region : Region) : Item :=
  match item with
  | none => .create header name data type region
  | some item =>
    match region with
    | .default => item.setDefaultData fresh data type
    | .autoselect => item.setAutoselectData fresh data type
    | .user => item.setData fresh data type

/-- `set_item` and `set_item_auto`, and `set_item_def`, which leaves an item of another type alone. -/
def setItem (header : Nat) (name : List UInt8) (fresh : Block) (item : Option Item) (data : List UInt8)
    (type : DataType) (region : Region) : Option Item :=
  if region = .default ∧ item.any (fun item => item.type ≠ type) then item
  else some (setItemData header name fresh item data type region)

/-- The `obs_data_unset_` functions. -/
def unsetItem (item : Option Item) : Region → Option Item
  | .user => item.map (·.unsetUserValue)
  | .default => item.map (·.unsetDefaultValue)
  | .autoselect => item.map (·.unsetAutoselectValue)

/-- A value as the typed setters are given it: numbers and pointers by their 64 bits, a null pointer as 0. -/
inductive Value
  | string (text : List UInt8)
  | int (bits : UInt64)
  | double (bits : UInt64)
  | boolean (b : Bool)
  | object (ptr : UInt64)
  | array (ptr : UInt64)

def Value.type : Value → DataType
  | .string _ => .string
  | .int _ | .double _ => .number
  | .boolean _ => .boolean
  | .object _ => .object
  | .array _ => .array

def OBS_DATA_NUM_INT : Nat := 1
def OBS_DATA_NUM_DOUBLE : Nat := 2

/-- The bytes that the typed setters hand on for a value. Of `struct obs_data_number` four are padding. -/
def Encodes : Value → List UInt8 → Prop
  | .string text, bytes => bytes = text ++ [0] ∧ 0 ∉ text
  | .int bits, bytes => ∃ pad, pad.length = 4 ∧ bytes = toLE 4 OBS_DATA_NUM_INT ++ pad ++ toLE 8 bits.toNat
  | .double bits, bytes => ∃ pad, pad.length = 4 ∧ bytes = toLE 4 OBS_DATA_NUM_DOUBLE ++ pad ++ toLE 8 bits.toNat
  | .boolean b, bytes => bytes = [if b then 1 else 0]
  | .object ptr, bytes => bytes = toLE 8 ptr.toNat
  | .array ptr, bytes => bytes = toLE 8 ptr.toNat

/-- What the six getters answer; nothing is the empty string, zero, false and a null pointer. -/
structure Answers where
  string : List UInt8 := []
  int : UInt64 := 0
  double : UInt64 := 0
  bool : Bool := false
  obj : UInt64 := 0
  array : UInt64 := 0

/-- The conversions of C between a `double` and a `long long`, on their bits. -/
structure Conversions where
  toInt : UInt64 → UInt64
  ofInt : UInt64 → UInt64

def Value.answers (c : Conversions) : Value → Answers
  | .string text => { string := text }
  | .int bits => { int := bits, double := c.ofInt bits }
  | .double bits => { int := c.toInt bits, double := bits }
  | .boolean b => { bool := b }
  | .object ptr => { obj := ptr }
  | .array ptr => { array := ptr }

namespace Item

variable (c : Conversions) (item : Item)

/-- `item_valid` and the data pointer of the getters. -/
def valid (type : DataType) (getData : Option Nat) : Option Nat := if item.type = type then getData else none

/-- A C string, as far as the allocation goes. -/
def cString (place : Nat) : List UInt8 := (item.mem.read place (item.capacity - place)).takeWhile (· ≠ 0)

def word (place : Nat) : UInt64 := UInt64.ofNat (ofLE (item.mem.read place 8))

def numType (place : Nat) : Nat := ofLE (item.mem.read place 4)

/-- The getters over one of the data pointers. -/
def answers (getData : Option Nat) : Answers where
  string := ((item.valid .string getData).map item.cString).getD []
  int := ((item.valid .number getData).map fun num =>
    if item.numType num = OBS_DATA_NUM_INT then item.word (num + 8) else c.toInt (item.word (num + 8))).getD 0
  double := ((item.valid .number getData).map fun num =>
    if item.numType num = OBS_DATA_NUM_INT then c.ofInt (item.word (num + 8)) else item.word (num + 8)).getD 0
  bool := ((item.valid .boolean getData).map fun data => item.mem data != 0).getD false
  obj := ((item.valid .object getData).map item.word).getD 0
  array := ((item.valid .array getData).map item.word).getD 0

/-- The data pointer of a kind of getter. -/
def pointer : Region → Option Nat
  | .user => item.getItemData
  | .default => item.getItemDefaultData
  | .autoselect => item.getItemAutoselectData

end Item

end Braidcast.Data
