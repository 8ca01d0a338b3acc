import Braidcast.Multistream.MruRows
import Braidcast.OAuth.Identity

/-!
# Poll templates

`PollTemplateStore`: the capped history of the polls a streamer ran.
-/
namespace Braidcast.Multistream.PollTemplates

open Lib OAuth MruRows

structure Poll where
  name : String := ""
  createdAtMs : Int
  question : String
  options : List String

abbrev Template := Row Poll

def kMaxTemplates : Nat := 20

def templateIdentity (question : String) (options : List String) : String :=
  options.foldl appendLengthPrefixed (appendLengthPrefixed "" question)

def readOptions (item : Json) : List String :=
  match objAt item "options" with
  | .arr options => (options.map fun option => trim (strAt option "text")).filter fun text => text ≠ ""
  | _ => []

/-- One bad entry is skipped: it has no id, no question or no option. -/
def readTemplate (now : Clock) (item : Json) : Option Template :=
  match item with
  | .obj _ =>
    if strAt item "id" = "" ∨ trim (strAt item "question") = "" ∨ readOptions item = [] then none
    else some {
      id := strAt item "id"
      lastUsedAtMs := readTimestamp item "lastUsedAtMs" now.ms
      data := {
        name := strAt item "name"
        createdAtMs := readTimestamp item "createdAtMs" now.ms
        question := trim (strAt item "question")
        options := readOptions item } }
  | _ => none

def load (root : Json) (now : Clock) : List Template :=
  match objAt root "templates" with
  | .arr stored => normalize (stored.filterMap (readTemplate now)) kMaxTemplates
  | _ => []

/-- A poll that is run, with the uuid and the clock readings that remembering it takes. -/
structure Incoming where
  question : String
  options : List String
  newId : String
  now : Clock
  createdNow : Clock

def matchesPoll (incoming : Incoming) (row : Template) : Bool :=
  templateIdentity row.data.question row.data.options =
    templateIdentity (trim incoming.question) (incoming.options.map trim)

def remember (templates : List Template) (incoming : Incoming) : List Template × String × Bool :=
  match templates.find? (matchesPoll incoming) with
  | some row => (markUsed templates kMaxTemplates (matchesPoll incoming) (fun poll => poll) incoming.now, row.id, false)
  | none =>
    let kept := addUsed templates kMaxTemplates incoming.newId
      { createdAtMs := incoming.createdNow.ms, question := trim incoming.question, options := incoming.options.map trim }
      incoming.now
    let created := (findById kept incoming.newId).isSome
    (kept, if created then incoming.newId else "", created)

inductive Input
  | load (root : Json) (now : Clock)
  | remember (incoming : Incoming)
  | touch (id : String) (now : Clock)
  | rename (id name : String)
  | remove (id : String)

def setName (name : String) (poll : Poll) : Poll := { poll with name }

/-- A call on an id that no row has leaves the rows. -/
def step (templates : List Template) : Input → List Template
  | .load root now => load root now
  | .remember incoming => (remember templates incoming).1
  | .touch id now => (touch templates kMaxTemplates id now).getD templates
  | .rename id name => (rename templates (setName name) id).getD templates
  | .remove id => (remove templates id).getD templates

def Step (templates : List Template) (i : Input) (templates' : List Template) : Prop := step templates i = templates'

end Braidcast.Multistream.PollTemplates
