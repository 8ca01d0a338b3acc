import Braidcast.Lib.JsonTree

/-!
# The widgets of the overlay store

`overlay/overlay_store.hpp` and `overlay/overlay_template.hpp`: a widget has code of its own once it is
forked, and the shipped template of its type before.
-/
namespace Braidcast.Overlay.Store

open Lib

variable {ν : Type}

structure CustomCode (ν : Type) where
  html : String
  css : String
  js : String
  fields : JsonTree ν

structure Widget (ν : Type) where
  id : String
  token : String
  name : String
  type : String
  settings : JsonTree ν
  custom : Option (CustomCode ν)
  assets : List (JsonTree ν)
  rev : Int

inductive TemplateStatus
  | ok
  | absent
  | partialRead
  | corrupt
  deriving DecidableEq

structure TypeTemplate (ν : Type) where
  status : TemplateStatus
  html : String
  css : String
  js : String
  schema : JsonTree ν

namespace Widget

def isForked (w : Widget ν) : Bool := w.custom.isSome

end Widget

structure ResolvedWidget (ν : Type) where
  schema : JsonTree ν
  html : String
  css : String
  js : String

/-- `templateFor` is what `TemplateFor` reads. -/
def resolve (templateFor : String → TypeTemplate ν) (w : Widget ν) : ResolvedWidget ν :=
  match w.custom with
  | some custom => ⟨custom.fields, custom.html, custom.css, custom.js⟩
  | none =>
    let shipped := templateFor w.type
    ⟨shipped.schema, shipped.html, shipped.css, shipped.js⟩

/-- The key of a field of a schema, which has to be a string of an object. -/
def fieldKey (f : JsonTree ν) : Option String :=
  match f.get? "key" with
  | some (.str key) => some key
  | _ => none

def defaultOf (f : JsonTree ν) : JsonTree ν := (f.get? "default").getD .null

def items : JsonTree ν → List (JsonTree ν)
  | .arr items => items
  | _ => []

def schemaDefault (schema : JsonTree ν) (key : String) : JsonTree ν :=
  ((items schema).find? fun f => fieldKey f = some key).elim .null defaultOf

def mergeField (settings : JsonTree ν) (out : List (String × JsonTree ν)) (f : JsonTree ν) : List (String × JsonTree ν) :=
  match fieldKey f with
  | some key => JsonTree.setField key ((settings.get? key).getD (defaultOf f)) out
  | none => out

/-- The fields of the object that `MergeSettings` gives. -/
def mergeSettings (schema settings : JsonTree ν) : List (String × JsonTree ν) := (items schema).foldl (mergeField settings) []

end Braidcast.Overlay.Store
