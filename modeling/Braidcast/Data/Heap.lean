import Braidcast.Data.Item
import Braidcast.Lib.Counted

/-!
# Objects, arrays and what refers to them

`libobs/obs-data.c`, for its reference counts: an object is a list of items, an array a list of
objects, and the values of an item may point to either. A pointer that is followed after its
target is freed, or to a target of the other kind, ends in `none`.
-/
namespace Braidcast.Data

open Lib

/-- A pointer to an object or an array. -/
inductive Ref
  | object (i : Nat)
  | array (i : Nat)
  deriving DecidableEq

/-- What the bytes of a value are: a pointer, null or not, or those of a string, a number or a boolean. -/
inductive Content
  | obj (o : Option Nat)
  | arr (a : Option Nat)
  | plain

/-- What the typed setters are given. -/
inductive Setting
  | string
  | number
  | boolean
  | object (o : Option Nat)
  | array (a : Option Nat)

def Setting.type : Setting → DataType
  | .string => .string
  | .number => .number
  | .boolean => .boolean
  | .object _ => .object
  | .array _ => .array

def Setting.content : Setting → Content
  | .object o => .obj o
  | .array a => .arr a
  | _ => .plain

/-- The pointers in a value. -/
def Content.pointers : Content → List Ref
  | .obj o => o.toList.map .object
  | .arr a => a.toList.map .array
  | .plain => []

/-- The pointers the bytes are taken for under a type; a number is not one that can be followed. -/
def Content.read (type : DataType) (c : Content) : Option (List Ref) :=
  match type, c with
  | .object, .obj p => some (p.toList.map .object)
  | .object, .arr p => some (p.toList.map .object)
  | .object, .plain => none
  | .array, .obj p => some (p.toList.map .array)
  | .array, .arr p => some (p.toList.map .array)
  | .array, .plain => none
  | _, _ => some []

/-- `struct obs_data_item`: the three values have one type. -/
structure Entry where
  name : List UInt8
  type : DataType
  value : Region → Option Content

namespace Entry

variable (item : Entry) (region : Region)

/-- The pointers in one of the values. -/
def pointers : List Ref := (item.value region).elim [] Content.pointers

/-- The slots of the item that hold something. -/
def held : List Ref := item.pointers .user ++ item.pointers .default ++ item.pointers .autoselect

/-- What `item_data_release`, `item_default_data_release` and `item_autoselect_data_release` follow and release. -/
def refs : Option (List Ref) :=
  match item.value region with
  | some c => c.read item.type
  | none => some []

/-- `item_data_addref`, `item_default_data_addref` and `item_autoselect_data_addref`: what they take. The
one for the default value returns where there is no user value. -/
def dataAddref : Option (List Ref) :=
  match region with
  | .default => if (item.value .user).isNone then some [] else item.refs .default
  | region => item.refs region

/-- `obs_data_item_create`, whose only value is at the data pointer whichever it is. -/
def create (name : List UInt8) (value : Content) (type : DataType) (region : Region) : Entry :=
  ⟨name, type, Function.update (fun _ => none) region (some value)⟩

/-- Stores a value, and with it the type of the item. -/
def store (value : Content) (type : DataType) : Entry :=
  { item with type := type, value := Function.update item.value region (some value) }

def unset : Entry := { item with value := Function.update item.value region none }

/-- What the getters for objects or arrays find; the plain ones read the first value there is. -/
def getPtr (kind : DataType) : Option (List Ref) :=
  if item.type = kind then
    match region with
    | .user => (((item.value .user).or (item.value .default)).or (item.value .autoselect)).elim (some []) (Content.read kind)
    | region => (item.value region).elim (some []) (Content.read kind)
  else some []

/-- What `obs_data_item_destroy` releases. -/
def destroy : Option (List Ref) :=
  (item.refs .user).bind fun user => (item.refs .default).bind fun default =>
    (item.refs .autoselect).map fun autoselect => user ++ default ++ autoselect

end Entry

/-- `struct obs_data` and `struct obs_data_array` without their counts. -/
inductive Body
  | object (items : List Entry)
  | array (objects : List Nat)

def Body.items : Body → List Entry
  | .object items => items
  | .array _ => []

def Body.objects : Body → List Nat
  | .object _ => []
  | .array objects => objects

/-- What `obs_data_destroy` releases, item by item. -/
def destroyItems : List Entry → Option (List Ref)
  | [] => some []
  | item :: items => item.destroy.bind fun refs => (destroyItems items).map fun rest => refs ++ rest

def holding : Holding Ref Body where
  address
    | .object i => i
    | .array i => i
  fits
    | .object _, .object _ => true
    | .array _, .array _ => true
    | _, _ => false
  held
    | .object items => items.flatMap Entry.held
    | .array objects => objects.map .object
  drops
    | .object items => destroyItems items
    | .array objects => some (objects.map .object)

/-- Everything there is, and the references that the callers took and have not released. -/
structure Heap where
  cells : Cells Body
  outside : List Ref

namespace Heap

def initial : Heap := ⟨[], []⟩

def getItem (items : List Entry) (name : List UInt8) : Option Entry := items.find? fun item => item.name = name

/-- Changes the item of a name. -/
def onItem (name : List UInt8) (f : Entry → Entry) (body : Body) : Body :=
  .object (modifyFirst (fun item => decide (item.name = name)) f body.items)

def addItem (item : Entry) (body : Body) : Body := .object (body.items ++ [item])

def removeItem (name : List UInt8) (body : Body) : Body :=
  .object (body.items.eraseP fun item => item.name = name)

variable (cells : Cells Body) (data : Nat) (name : List UInt8) (region : Region)

/-- `set_item` and `set_item_auto`, and `set_item_def`, which leaves an item of another type alone;
then `set_item_data` with `obs_data_item_create`, or the function that stores in the item there is. -/
def setItem (setting : Setting) : Option (Cells Body) :=
  (holding.deref cells (.object data)).bind fun object =>
    match getItem object.body.items name with
    | none =>
      let item := Entry.create name setting.content setting.type region
      -- `item_data_addref` follows what is at the data pointer, the only value there is
      (item.refs region).bind fun taken =>
        (holding.addrefAll taken cells).bind (Holding.rewrite data (addItem item))
    | some item =>
      if region = .default ∧ item.type ≠ setting.type then some cells
      else
        (item.refs region).bind fun dropped =>
          ((item.store region setting.content setting.type).dataAddref region).bind fun taken =>
            (holding.release dropped cells).bind fun cells =>
              (Holding.rewrite data (onItem name fun item => item.store region setting.content setting.type) cells).bind
                (holding.addrefAll taken)

/-- `obs_data_item_unset_user_value` and its two siblings. -/
def unsetItem : Option (Cells Body) :=
  (holding.deref cells (.object data)).bind fun object =>
    match getItem object.body.items name with
    | none => some cells
    | some item =>
      if (item.value region).isNone then some cells
      else
        (item.refs region).bind fun dropped =>
          (holding.release dropped cells).bind (Holding.rewrite data (onItem name fun item => item.unset region))

/-- `obs_data_clear`: `clear_item` releases and forgets the user value of each item. -/
def clear : Option (Cells Body) :=
  (holding.deref cells (.object data)).bind fun object =>
    (object.body.items.map Entry.name).foldlM (fun cells name => unsetItem cells data name .user) cells

/-- `obs_data_erase`: the item is detached, then its values are released. -/
def erase : Option (Cells Body) :=
  (holding.deref cells (.object data)).bind fun object =>
    match getItem object.body.items name with
    | none => some cells
    | some item => item.destroy.bind fun dropped =>
      (Holding.rewrite data (removeItem name) cells).bind (holding.release dropped)

/-- What the getters for objects or arrays find in an object. -/
def getPtr (kind : DataType) : Option (List Ref) :=
  (holding.deref cells (.object data)).bind fun object =>
    match getItem object.body.items name with
    | none => some []
    | some item => item.getPtr region kind

/-- `obs_data_array_insert`; at the end of the array it is `obs_data_array_push_back`. -/
def arrayInsert (array idx obj : Nat) : Option (Cells Body) :=
  (holding.addrefAll [.object obj] cells).bind
    (Holding.rewrite array fun body => .array (body.objects.insertIdx idx obj))

/-- `obs_data_array_push_back_array`. -/
def arrayPushBackArray (array array2 : Nat) : Option (Cells Body) :=
  (holding.deref cells (.array array2)).bind fun second =>
    (holding.addrefAll (second.body.objects.map .object) cells).bind
      (Holding.rewrite array fun body => .array (body.objects ++ second.body.objects))

/-- `obs_data_array_erase`. -/
def arrayErase (array idx : Nat) : Option (Cells Body) :=
  (holding.deref cells (.array array)).bind fun cell =>
    (cell.body.objects[idx]?).bind fun obj =>
      (holding.release [.object obj] cells).bind
        (Holding.rewrite array fun body => .array (body.objects.eraseIdx idx))

end Heap

/-- The calls on objects and arrays. A null pointer is `none`. -/
inductive HeapCall
  | create
  | arrayCreate
  | addref (ref : Option Ref)
  | release (ref : Option Ref)
  | set (region : Region) (data : Option Nat) (name : List UInt8) (setting : Setting)
  | unset (region : Region) (data : Option Nat) (name : List UInt8)
  | clear (data : Option Nat)
  | erase (data : Option Nat) (name : List UInt8)
  | getObj (region : Region) (data : Option Nat) (name : List UInt8)
  | getArray (region : Region) (data : Option Nat) (name : List UInt8)
  | arrayInsert (array : Option Nat) (idx : Nat) (obj : Option Nat)
  | arrayPushBackArray (array array2 : Option Nat)
  | arrayErase (array : Option Nat) (idx : Nat)
  | arrayItem (array : Option Nat) (idx : Nat)

namespace Heap

variable (h : Heap)

/-- A call that keeps to the heap. -/
def within (cells : Option (Cells Body)) : Option Heap := cells.map fun cells => { h with cells := cells }

/-- A caller is given references, and has them from then on. -/
def give (refs : List Ref) : Option Heap :=
  (holding.addrefAll refs h.cells).map fun cells => ⟨cells, refs ++ h.outside⟩

def step (call : HeapCall) : Option Heap :=
  match call with
  | .create => some ⟨h.cells ++ [some ⟨1, .object []⟩], .object h.cells.length :: h.outside⟩
  | .arrayCreate => some ⟨h.cells ++ [some ⟨1, .array []⟩], .array h.cells.length :: h.outside⟩
  | .addref ref => h.give ref.toList
  | .release (some ref) => (holding.release [ref] h.cells).map fun cells => ⟨cells, h.outside.erase ref⟩
  | .set region (some data) name setting => h.within (setItem h.cells data name region setting)
  | .unset region (some data) name => h.within (unsetItem h.cells data name region)
  | .clear (some data) => h.within (clear h.cells data)
  | .erase (some data) name => h.within (erase h.cells data name)
  | .getObj region (some data) name => (getPtr h.cells data name region .object).bind h.give
  | .getArray region (some data) name => (getPtr h.cells data name region .array).bind h.give
  | .arrayInsert (some array) idx (some obj) => h.within (arrayInsert h.cells array idx obj)
  | .arrayPushBackArray (some array) (some array2) => h.within (arrayPushBackArray h.cells array array2)
  | .arrayErase (some array) idx => h.within (arrayErase h.cells array idx)
  | .arrayItem (some array) idx => (holding.deref h.cells (.array array)).bind fun cell =>
      h.give (cell.body.objects[idx]?.toList.map .object)
  | _ => some h

end Heap

end Braidcast.Data
