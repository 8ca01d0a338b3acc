import Braidcast.Lib.Lists
import Braidcast.Lib.Run
import Braidcast.Overlay.StoredWidgets

/-!
# Edits of the overlay store

The mutations of `overlay/overlay_store.cpp` as the sections that hold `mutex_`, in any order, with the
calls that have let go of it in between. An edit is made in memory first and taken back where the save
does not land.
-/
namespace Braidcast.Overlay.Store

open Lib

variable {ν : Type}

inductive MutateResult
  | ok
  | noSuchWidget
  | notForked
  | alreadyForked
  | alreadyStock
  | noTemplate
  | notPersisted
  deriving DecidableEq

/-- What a save writes. -/
structure Document (ν : Type) where
  port : Int
  widgets : List (Widget ν)

/-- A call between two of its sections: `Fork` before and after its template is read, `ReturnToStock`
likewise, `Duplicate` with its copy, and a call that has answered. -/
inductive EditCall (ν : Type)
  | forking (id type : String)
  | forkingWith (id : String) (code : CustomCode ν)
  | returning (id type : String)
  | returningChecked (id : String)
  | duplicating (id : String) (copy : Widget ν)
  | answered

/-- `armed` says that `hold_` has a fallback. It is the dump of no widgets: the hold is armed only by a load
that leaves none. `written` is what the last save that landed wrote. -/
structure OverlayStore (ν : Type) where
  widgets : List (Widget ν)
  port : Int
  upgradeDeferred : Bool
  armed : Bool
  calls : List (EditCall ν)
  written : Option (Document ν)

namespace OverlayStore

variable (s : OverlayStore ν)

def findWidget (id : String) : Option (Widget ν) := s.widgets.find? (·.id = id)

/-- `lands` is whether the file can be written. -/
def save (lands : Bool) : OverlayStore ν × Bool :=
  if s.upgradeDeferred then (s, false)
  else if s.armed ∧ s.widgets.isEmpty then (s, true)
  else if lands then ({ s with armed := false, written := some ⟨s.port, s.widgets⟩ }, true)
  else ({ s with armed := false }, false)

/-- An assignment through the pointer that `FindWidget` gave. -/
def assign (id : String) (w : Widget ν) : OverlayStore ν :=
  { s with widgets := modifyFirst (·.id = id) (fun _ => w) s.widgets }

def answer (call : Nat) : OverlayStore ν := { s with calls := s.calls.set call .answered }

end OverlayStore

def carriesCode (patch : JsonTree ν) : Bool :=
  patch.contains "html" || patch.contains "css" || patch.contains "js" || patch.contains "fields"

def patchedCode (patch : JsonTree ν) (code : CustomCode ν) : CustomCode ν :=
  let code := match patch.get? "html" with | some (.str html) => { code with html := html } | _ => code
  let code := match patch.get? "css" with | some (.str css) => { code with css := css } | _ => code
  let code := match patch.get? "js" with | some (.str js) => { code with js := js } | _ => code
  match patch.get? "fields" with | some (.arr fields) => { code with fields := .arr fields } | _ => code

/-- What `Update` makes of the widget. -/
def patched (patch : JsonTree ν) (w : Widget ν) : Widget ν :=
  let w := match patch.get? "name" with | some (.str name) => { w with name := name } | _ => w
  let w := match patch.get? "settings" with | some (.obj settings) => { w with settings := .obj settings } | _ => w
  let w := if carriesCode patch then { w with custom := w.custom.map (patchedCode patch) } else w
  { w with rev := w.rev + 1 }

def forked (code : CustomCode ν) (w : Widget ν) : Widget ν := { w with custom := some code, rev := w.rev + 1 }

def returned (w : Widget ν) : Widget ν := { w with custom := none, rev := w.rev + 1 }

/-- The file name of an asset's row. -/
def rowFile (row : JsonTree ν) : String :=
  match row.get? "file" with
  | some (.str file) => file
  | _ => ""

def isRowOf (file : String) (row : JsonTree ν) : Bool :=
  match row with
  | .obj _ => rowFile row = file
  | _ => false

/-- The bytes of the asset are on disk; its row is there once. -/
def withAsset (key kind file : String) (w : Widget ν) : Widget ν :=
  { w with
    assets := if w.assets.any (isRowOf file) then w.assets
      else w.assets ++ [.obj [("file", .str file), ("key", .str key), ("kind", .str kind)]]
    rev := w.rev + 1 }

def withoutAsset (file : String) (w : Widget ν) : Widget ν := { w with assets := w.assets.filter fun row => !isRowOf file row }

inductive Input (ν : Type)
  | setPort (port : Int) (lands : Bool)
  | create (id token name type : String) (lands : Bool)
  | update (id : String) (patch : JsonTree ν) (lands : Bool)
  | fork (id : String)
  | readForFork (call : Nat) (shipped : TypeTemplate ν)
  | install (call : Nat) (lands : Bool)
  | returnToStock (id : String)
  | readForReturn (call : Nat) (status : TemplateStatus)
  | dropCode (call : Nat) (lands : Bool)
  | duplicate (id copyId token : String)
  | register (call : Nat) (lands : Bool)
  | delete (id : String) (lands : Bool)
  | addAsset (id key kind file : String) (lands : Bool)
  | removeAsset (id file : String) (lands : Bool)

namespace OverlayStore

variable (s : OverlayStore ν)

/-- The part that the three edits share: the change is made, and taken back where it is not saved. -/
def persist (id : String) (change : Widget ν → Widget ν) (lands : Bool) (w : Widget ν) : OverlayStore ν × MutateResult :=
  let before := w
  let (s, saved) := (s.assign id (change w)).save lands
  if saved then (s, .ok) else (s.assign id before, .notPersisted)

def update (id : String) (patch : JsonTree ν) (lands : Bool) : OverlayStore ν × MutateResult :=
  match s.findWidget id with
  | none => (s, .noSuchWidget)
  | some w => if carriesCode patch ∧ ¬ w.isForked then (s, .notForked) else s.persist id (patched patch) lands w

def beginFork (id : String) : OverlayStore ν × Option MutateResult :=
  match s.findWidget id with
  | none => (s, some .noSuchWidget)
  | some w => if w.isForked then (s, some .alreadyForked) else ({ s with calls := s.calls ++ [.forking id w.type] }, none)

def readForFork (call : Nat) (id : String) (shipped : TypeTemplate ν) : OverlayStore ν × Option MutateResult :=
  if shipped.status ≠ .ok then (s.answer call, some .noTemplate)
  else ({ s with calls := s.calls.set call (.forkingWith id ⟨shipped.html, shipped.css, shipped.js, shipped.schema⟩) }, none)

def install (id : String) (code : CustomCode ν) (lands : Bool) : OverlayStore ν × MutateResult :=
  match s.findWidget id with
  | none => (s, .noSuchWidget)
  | some w => if w.isForked then (s, .alreadyForked) else s.persist id (forked code) lands w

def beginReturn (id : String) : OverlayStore ν × Option MutateResult :=
  match s.findWidget id with
  | none => (s, some .noSuchWidget)
  | some w => if w.isForked then ({ s with calls := s.calls ++ [.returning id w.type] }, none) else (s, some .alreadyStock)

def readForReturn (call : Nat) (id : String) (status : TemplateStatus) : OverlayStore ν × Option MutateResult :=
  if status ≠ .ok then (s.answer call, some .noTemplate) else ({ s with calls := s.calls.set call (.returningChecked id) }, none)

def dropCode (id : String) (lands : Bool) : OverlayStore ν × MutateResult :=
  match s.findWidget id with
  | none => (s, .noSuchWidget)
  | some w => if w.isForked then s.persist id returned lands w else (s, .alreadyStock)

/-- A mutation that does not look at what its save says. -/
def saved (lands : Bool) : OverlayStore ν := (s.save lands).1

/-- No widget is made where no token could be minted. -/
def create (id token name type : String) (lands : Bool) : OverlayStore ν :=
  if token = "" then s
  else
    let w : Widget ν := ⟨id, token, name, type, .obj [], none, [], 0⟩
    { s with widgets := s.widgets ++ [w] }.saved lands

def delete (id : String) (lands : Bool) : OverlayStore ν :=
  let widgets := s.widgets.filter (·.id ≠ id)
  if widgets.length = s.widgets.length then s else { s with widgets := widgets }.saved lands

def addAsset (id key kind file : String) (lands : Bool) : OverlayStore ν :=
  match s.findWidget id with
  | none => s
  | some w => (s.assign id (withAsset key kind file w)).saved lands

def removeAsset (id file : String) (lands : Bool) : OverlayStore ν :=
  match s.findWidget id with
  | none => s
  | some w => if w.assets.any (isRowOf file) then (s.assign id (withoutAsset file w)).saved lands else s

def beginDuplicate (id copyId token : String) : OverlayStore ν :=
  match s.findWidget id with
  | none => s
  | some w =>
    if token = "" then s
    else { s with calls := s.calls ++ [.duplicating id { w with id := copyId, token := token, name := w.name ++ " copy" }] }

def register (id : String) (copy : Widget ν) (lands : Bool) : OverlayStore ν :=
  match s.findWidget id with
  | none => s
  | some _ => { s with widgets := s.widgets ++ [copy] }.saved lands

/-- A section, and what its call answers if it was the last of one. -/
def step : Input ν → Option (OverlayStore ν × Option MutateResult)
  | .setPort port lands => some ({ s with port := port }.saved lands, none)
  | .create id token name type lands => some (s.create id token name type lands, none)
  | .update id patch lands => some ((s.update id patch lands).1, some (s.update id patch lands).2)
  | .fork id => some (s.beginFork id)
  | .readForFork call shipped =>
    match s.calls[call]? with
    | some (.forking id _) => some (s.readForFork call id shipped)
    | _ => none
  | .install call lands =>
    match s.calls[call]? with
    | some (.forkingWith id code) => some (((s.install id code lands).1).answer call, some (s.install id code lands).2)
    | _ => none
  | .returnToStock id => some (s.beginReturn id)
  | .readForReturn call status =>
    match s.calls[call]? with
    | some (.returning id _) => some (s.readForReturn call id status)
    | _ => none
  | .dropCode call lands =>
    match s.calls[call]? with
    | some (.returningChecked id) => some (((s.dropCode id lands).1).answer call, some (s.dropCode id lands).2)
    | _ => none
  | .duplicate id copyId token => some (s.beginDuplicate id copyId token, none)
  | .register call lands =>
    match s.calls[call]? with
    | some (.duplicating id copy) => some ((s.register id copy lands).answer call, none)
    | _ => none
  | .delete id lands => some (s.delete id lands, none)
  | .addAsset id key kind file lands => some (s.addAsset id key kind file lands, none)
  | .removeAsset id file lands => some (s.removeAsset id file lands, none)

end OverlayStore

/-! ### What the calls were to do -/

/-- A change of the list of widgets. -/
inductive Edit (ν : Type)
  | update (id : String) (patch : JsonTree ν)
  | fork (id : String) (code : CustomCode ν)
  | returnToStock (id : String)
  | add (w : Widget ν)
  | delete (id : String)
  | addAsset (id key kind file : String)
  | removeAsset (id file : String)

def Edit.apply (widgets : List (Widget ν)) : Edit ν → List (Widget ν)
  | .update id patch => modifyFirst (·.id = id) (patched patch) widgets
  | .fork id code => modifyFirst (·.id = id) (forked code) widgets
  | .returnToStock id => modifyFirst (·.id = id) returned widgets
  | .add w => widgets ++ [w]
  | .delete id => widgets.filter (·.id ≠ id)
  | .addAsset id key kind file => modifyFirst (·.id = id) (withAsset key kind file) widgets
  | .removeAsset id file => modifyFirst (·.id = id) (withoutAsset file) widgets

namespace OverlayStore

/-- The change that a section makes for its call; the three edits make one only where they answer `Ok`. -/
def edit (s : OverlayStore ν) (answer : Option MutateResult) : Input ν → Option (Edit ν)
  | .create id token name type _ => if token = "" then none else some (.add ⟨id, token, name, type, .obj [], none, [], 0⟩)
  | .update id patch _ => if answer = some .ok then some (.update id patch) else none
  | .install call _ =>
    match s.calls[call]? with
    | some (.forkingWith id code) => if answer = some .ok then some (.fork id code) else none
    | _ => none
  | .dropCode call _ =>
    match s.calls[call]? with
    | some (.returningChecked id) => if answer = some .ok then some (.returnToStock id) else none
    | _ => none
  | .register call _ =>
    match s.calls[call]? with
    | some (.duplicating id copy) => (s.findWidget id).map fun _ => .add copy
    | _ => none
  | .delete id _ => some (.delete id)
  | .addAsset id key kind file _ => some (.addAsset id key kind file)
  | .removeAsset id file _ => some (.removeAsset id file)
  | _ => none

def answered (m : Moment (OverlayStore ν) (Input ν)) : Option MutateResult := (m.before.step m.input).bind Prod.snd

def accepted (m : Moment (OverlayStore ν) (Input ν)) : Option (Edit ν) := m.before.edit (answered m) m.input

/-- One section, from `s` to `t`: what it does to the widgets, and to the file. -/
structure Section (s t : OverlayStore ν) (answer : Option MutateResult) (edit : Option (Edit ν)) : Prop where
  widgets : t.widgets = edit.elim s.widgets (Edit.apply s.widgets)
  written : t.written = s.written ∨ t.written = some ⟨t.port, t.widgets⟩
  refused : ∀ r, answer = some r → r ≠ .ok → t.widgets = s.widgets ∧ t.written = s.written

variable {s t : OverlayStore ν} {id : String} {w : Widget ν} {lands : Bool} {answer : Option MutateResult}

theorem Section.still (widgets : t.widgets = s.widgets) (written : t.written = s.written) : Section s t answer none :=
  ⟨widgets, .inl written, fun _ _ _ => ⟨widgets, written⟩⟩

theorem Section.of_answer {edit : Option (Edit ν)} (sect : Section s t answer edit) (call : Nat) :
    Section s (t.answer call) answer edit :=
  ⟨sect.widgets, sect.written, sect.refused⟩

/-- A save changes neither the widgets nor the port; it writes the whole store as it is in memory, or nothing. -/
theorem save_cases (s : OverlayStore ν) (lands : Bool) : (s.save lands).1.widgets = s.widgets ∧ (s.save lands).1.port = s.port ∧
    ((s.save lands).1.written = s.written ∨ (s.save lands).2 = true ∧ (s.save lands).1.written = some ⟨s.port, s.widgets⟩) := by
  unfold save
  split
  next => exact ⟨rfl, rfl, .inl rfl⟩
  split
  next => exact ⟨rfl, rfl, .inl rfl⟩
  split
  next => exact ⟨rfl, rfl, .inr ⟨rfl, rfl⟩⟩
  next => exact ⟨rfl, rfl, .inl rfl⟩

theorem save_widgets (s : OverlayStore ν) (lands : Bool) : (s.save lands).1.widgets = s.widgets := (save_cases s lands).1

theorem save_port (s : OverlayStore ν) (lands : Bool) : (s.save lands).1.port = s.port := (save_cases s lands).2.1

theorem save_written (s : OverlayStore ν) (lands : Bool) :
    (s.save lands).1.written = s.written ∨ (s.save lands).2 = true ∧ (s.save lands).1.written = some ⟨s.port, s.widgets⟩ :=
  (save_cases s lands).2.2

theorem save_refused (failed : (s.save lands).2 = false) : (s.save lands).1.written = s.written :=
  (save_written s lands).resolve_right fun done => Bool.false_ne_true (failed.symm.trans done.1)

/-- A mutation that is not taken back, whatever its save says. -/
theorem Section.of_saved {u : OverlayStore ν} {edit : Option (Edit ν)} (same : u.written = s.written)
    (widgets : u.widgets = edit.elim s.widgets (Edit.apply s.widgets)) : Section s (u.saved lands) none edit := by
  refine ⟨(save_widgets u lands).trans widgets, ?_, fun r refused => nomatch refused⟩
  rcases save_written u lands with kept | ⟨-, written⟩
  · exact .inl (kept.trans same)
  · refine .inr (written.trans ?_)
    rw [saved, save_widgets, save_port]

theorem findWidget_id (found : s.findWidget id = some w) : w.id = id := by
  have matching := List.find?_some found
  exact of_decide_eq_true matching

/-- An edit is made and saved, or neither. -/
theorem persist_cases (found : s.findWidget id = some w) (change : Widget ν → Widget ν) (same : (change w).id = w.id) (lands : Bool) :
    ((s.persist id change lands w).2 = .ok ∧ (s.persist id change lands w).1.widgets = modifyFirst (·.id = id) change s.widgets ∧
      ((s.persist id change lands w).1.written = s.written ∨
        (s.persist id change lands w).1.written = some ⟨(s.persist id change lands w).1.port, (s.persist id change lands w).1.widgets⟩)) ∨
    ((s.persist id change lands w).2 = .notPersisted ∧ (s.persist id change lands w).1.widgets = s.widgets ∧
      (s.persist id change lands w).1.written = s.written) := by
  have changed : (s.assign id (change w)).widgets = modifyFirst (·.id = id) change s.widgets := modifyFirst_const change found
  unfold persist
  dsimp only
  split
  next =>
    refine .inl ⟨rfl, (save_widgets _ lands).trans changed, ?_⟩
    rcases save_written (s.assign id (change w)) lands with kept | ⟨-, written⟩
    · exact .inl kept
    · refine .inr (written.trans ?_)
      rw [save_widgets, save_port]
  next failed =>
    have refused := save_refused (Bool.eq_false_iff.mpr failed)
    refine .inr ⟨rfl, ?_, refused⟩
    -- The widget that was changed is still the first of its id, so the old one is put back over it.
    have restored : ((s.assign id (change w)).save lands).1.widgets = modifyFirst (·.id = id) (fun _ => change w) s.widgets :=
      save_widgets _ lands
    calc (((s.assign id (change w)).save lands).1.assign id w).widgets
        = modifyFirst (·.id = id) (fun _ => w) (modifyFirst (·.id = id) (fun _ => change w) s.widgets) :=
          congrArg (modifyFirst _ _) restored
      _ = s.widgets := modifyFirst_restore found (decide_eq_true (same.trans (findWidget_id found)))

theorem Section.of_persist (found : s.findWidget id = some w) {change : Widget ν → Widget ν} (same : (change w).id = w.id) (lands : Bool)
    {edit : Edit ν} (applied : edit.apply s.widgets = modifyFirst (·.id = id) change s.widgets) :
    Section s (s.persist id change lands w).1 (some (s.persist id change lands w).2)
      (if (s.persist id change lands w).2 = .ok then some edit else none) := by
  rcases persist_cases found change same lands with ⟨ok, widgets, written⟩ | ⟨refused, widgets, written⟩
  · rw [if_pos ok]
    refine ⟨widgets.trans applied.symm, written, ?_⟩
    rintro r answered refused
    exact absurd ((Option.some.inj answered).symm.trans ok) refused
  · rw [if_neg (by rw [refused]; decide)]
    exact .still widgets written

theorem patched_id (patch : JsonTree ν) (w : Widget ν) : (patched patch w).id = w.id := by
  unfold patched
  dsimp only
  split <;> split <;> split <;> rfl

theorem update_section (s : OverlayStore ν) (id : String) (patch : JsonTree ν) (lands : Bool) :
    Section s (s.update id patch lands).1 (some (s.update id patch lands).2)
      (if (s.update id patch lands).2 = .ok then some (.update id patch) else none) := by
  unfold update
  split
  next => exact .still rfl rfl
  next w found =>
    split
    next => exact .still rfl rfl
    next => exact .of_persist found (patched_id patch w) lands rfl

theorem install_section (s : OverlayStore ν) (id : String) (code : CustomCode ν) (lands : Bool) :
    Section s (s.install id code lands).1 (some (s.install id code lands).2)
      (if (s.install id code lands).2 = .ok then some (.fork id code) else none) := by
  unfold install
  split
  next => exact .still rfl rfl
  next w found =>
    split
    next => exact .still rfl rfl
    next => exact .of_persist found rfl lands rfl

theorem dropCode_section (s : OverlayStore ν) (id : String) (lands : Bool) :
    Section s (s.dropCode id lands).1 (some (s.dropCode id lands).2)
      (if (s.dropCode id lands).2 = .ok then some (.returnToStock id) else none) := by
  unfold dropCode
  split
  next => exact .still rfl rfl
  next w found =>
    split
    next => exact .of_persist found rfl lands rfl
    next => exact .still rfl rfl

theorem filter_of_length_eq {α : Type} {p : α → Bool} {xs : List α} (all : (xs.filter p).length = xs.length) : xs.filter p = xs :=
  List.filter_eq_self.mpr (List.length_filter_eq_length_iff.mp all)

theorem delete_section (s : OverlayStore ν) (id : String) (lands : Bool) : Section s (s.delete id lands) none (some (.delete id)) := by
  unfold delete
  dsimp only
  split
  next all => exact ⟨(filter_of_length_eq all).symm, .inl rfl, fun _ refused => nomatch refused⟩
  next => exact .of_saved rfl rfl

theorem addAsset_section (s : OverlayStore ν) (id key kind file : String) (lands : Bool) :
    Section s (s.addAsset id key kind file lands) none (some (.addAsset id key kind file)) := by
  unfold addAsset
  split
  next absent => exact ⟨(modifyFirst_of_find?_eq_none _ absent).symm, .inl rfl, fun _ refused => nomatch refused⟩
  next w found => exact .of_saved rfl (modifyFirst_const (withAsset key kind file) found)

/-- Without a row of the file, the rows are all kept. -/
theorem withoutAsset_of_none {w : Widget ν} {file : String} (absent : ¬ w.assets.any (isRowOf file)) : withoutAsset file w = w := by
  have all : w.assets.filter (fun row => !isRowOf file row) = w.assets := by
    refine List.filter_eq_self.mpr fun row member => ?_
    simpa using fun there => absent (List.any_eq_true.mpr ⟨row, member, there⟩)
  rw [withoutAsset, all]

section

variable (s)

theorem removeAsset_section (id file : String) (lands : Bool) :
    Section s (s.removeAsset id file lands) none (some (.removeAsset id file)) := by
  unfold removeAsset
  split
  next absent => exact ⟨(modifyFirst_of_find?_eq_none _ absent).symm, .inl rfl, fun _ refused => nomatch refused⟩
  next w found =>
    split
    next => exact .of_saved rfl (modifyFirst_const (withoutAsset file) found)
    next absent =>
      exact ⟨(modifyFirst_self found (withoutAsset_of_none absent)).symm, .inl rfl, fun _ refused => nomatch refused⟩

theorem register_section (id : String) (copy : Widget ν) (lands : Bool) :
    Section s (s.register id copy lands) none ((s.findWidget id).map fun _ => .add copy) := by
  unfold register
  split
  next absent => exact absent ▸ .still rfl rfl
  next w found =>
    rw [found]
    exact .of_saved rfl rfl

theorem create_section (id token name type : String) (lands : Bool) :
    Section s (s.create id token name type lands) none
      (if token = "" then none else some (.add ⟨id, token, name, type, .obj [], none, [], 0⟩)) := by
  unfold create
  split
  next => exact .still rfl rfl
  next => exact .of_saved rfl rfl

theorem setPort_section (port : Int) (lands : Bool) : Section s ({ s with port := port }.saved lands) none none :=
  .of_saved rfl rfl

/-- Sections that only look at the store. -/
theorem beginFork_section (id : String) : Section s (s.beginFork id).1 (s.beginFork id).2 none := by
  unfold beginFork
  split
  next => exact .still rfl rfl
  split
  next => exact .still rfl rfl
  next => exact .still rfl rfl

theorem readForFork_section (call : Nat) (id : String) (shipped : TypeTemplate ν) :
    Section s (s.readForFork call id shipped).1 (s.readForFork call id shipped).2 none := by
  unfold readForFork
  split
  next => exact .still rfl rfl
  next => exact .still rfl rfl

theorem beginReturn_section (id : String) : Section s (s.beginReturn id).1 (s.beginReturn id).2 none := by
  unfold beginReturn
  split
  next => exact .still rfl rfl
  split
  next => exact .still rfl rfl
  next => exact .still rfl rfl

theorem readForReturn_section (call : Nat) (id : String) (status : TemplateStatus) :
    Section s (s.readForReturn call id status).1 (s.readForReturn call id status).2 none := by
  unfold readForReturn
  split
  next => exact .still rfl rfl
  next => exact .still rfl rfl

theorem beginDuplicate_section (id copyId token : String) : Section s (s.beginDuplicate id copyId token) none none := by
  unfold beginDuplicate
  split
  next => exact .still rfl rfl
  split
  next => exact .still rfl rfl
  next => exact .still rfl rfl

end

/-- Every section makes the change of its call, if that is accepted, and no other. -/
theorem step_section {i : Input ν} (step : s.step i = some (t, answer)) : Section s t answer (s.edit answer i) := by
  cases i with
  | setPort port lands =>
    cases step
    exact setPort_section s port lands
  | create id token name type lands =>
    cases step
    exact create_section s id token name type lands
  | update id patch lands =>
    cases step
    simpa only [edit, Option.some.injEq] using update_section s id patch lands
  | fork id =>
    have sect := beginFork_section s id
    rwa [Option.some.inj step] at sect
  | readForFork call shipped =>
    unfold OverlayStore.step at step
    dsimp only at step
    split at step
    next id type there =>
      have sect := readForFork_section s call id shipped
      rwa [Option.some.inj step] at sect
    next => cases step
  | install call lands =>
    unfold OverlayStore.step at step
    dsimp only at step
    split at step
    next id code there =>
      cases step
      simpa only [edit, there, Option.some.injEq] using (install_section s id code lands).of_answer call
    next => cases step
  | returnToStock id =>
    have sect := beginReturn_section s id
    rwa [Option.some.inj step] at sect
  | readForReturn call status =>
    unfold OverlayStore.step at step
    dsimp only at step
    split at step
    next id type there =>
      have sect := readForReturn_section s call id status
      rwa [Option.some.inj step] at sect
    next => cases step
  | dropCode call lands =>
    unfold OverlayStore.step at step
    dsimp only at step
    split at step
    next id there =>
      cases step
      simpa only [edit, there, Option.some.injEq] using (dropCode_section s id lands).of_answer call
    next => cases step
  | duplicate id copyId token =>
    cases step
    exact beginDuplicate_section s id copyId token
  | register call lands =>
    unfold OverlayStore.step at step
    dsimp only at step
    split at step
    next id copy there =>
      cases step
      simpa only [edit, there] using (register_section s id copy lands).of_answer call
    next => cases step
  | delete id lands =>
    cases step
    exact delete_section s id lands
  | addAsset id key kind file lands =>
    cases step
    exact addAsset_section s id key kind file lands
  | removeAsset id file lands =>
    cases step
    exact removeAsset_section s id file lands

/-- The widgets are what the accepted changes make of those at the start. -/
def Told (s : OverlayStore ν) (ms : List (Moment (OverlayStore ν) (Input ν))) (t : OverlayStore ν) : Prop :=
  t.widgets = (ms.filterMap accepted).foldl Edit.apply s.widgets

theorem section_of_step {i : Input ν} (step : (s.step i).map Prod.fst = some t) : Section s t (answered ⟨s, i, t⟩) (accepted ⟨s, i, t⟩) := by
  obtain ⟨⟨u, answer⟩, taken, rfl⟩ := Option.map_eq_some_iff.mp step
  have answers : answered ⟨s, i, u⟩ = answer := by rw [answered, taken]; rfl
  rw [accepted, answers]
  exact step_section taken

theorem Told.cons {m : Moment (OverlayStore ν) (Input ν)} {ms : List (Moment (OverlayStore ν) (Input ν))}
    (first : Section m.before m.after (answered m) (accepted m)) (told : Told m.after ms t) : Told m.before (m :: ms) t := by
  have widgets := first.widgets
  unfold Told at told ⊢
  rw [told, widgets, List.filterMap_cons]
  cases accepted m with
  | none => rfl
  | some edit => rfl

/-- An edit that is refused leaves the widgets as they are, and what a save writes at any time is what the
accepted changes up to then make of them. -/
theorem refused_never_lands (s t : OverlayStore ν) (ms : List (Moment (OverlayStore ν) (Input ν)))
    (run : Run (fun s i t => (s.step i).map Prod.fst = some t) s ms t) : ∀ xs m ys, ms = xs ++ m :: ys →
      (∀ r, answered m = some r → r ≠ .ok → m.after.widgets = m.before.widgets ∧ m.after.written = m.before.written) ∧
        Told s (xs ++ [m]) m.after ∧
        (m.after.written = m.before.written ∨ m.after.written = some ⟨m.after.port, m.after.widgets⟩) := by
  induction run with
  | nil s => exact fun xs m ys split => absurd split (by simp)
  | @cons s u t i ms step run ih =>
    have first := section_of_step step
    rintro (_ | ⟨x, xs⟩) m ys split
    · cases split
      have nothing : Told u [] u := rfl
      exact ⟨first.refused, Told.cons (m := ⟨s, i, u⟩) first nothing, first.written⟩
    · cases split
      obtain ⟨refused, told, written⟩ := ih xs m ys rfl
      exact ⟨refused, Told.cons (m := ⟨s, i, _⟩) first told, written⟩

/-- An overlay that was made and saved. -/
def oneWidget : OverlayStore Nat := ⟨[⟨"a", "t", "alerts", "alertbox", .obj [], none, [], 0⟩], 43000, false, false, [], none⟩

def renamed : JsonTree Nat := .obj [("name", .str "renamed")]

/-- A renaming that could not be saved is not in what the next save writes. -/
theorem failed_rename_never_lands : ∃ (ms : List (Moment (OverlayStore Nat) (Input Nat))) (t : OverlayStore Nat),
    ms.map (fun m => (answered m, m.after.widgets.map (·.name), m.after.written.map fun d => d.widgets.map (·.name))) =
      [(some .notPersisted, ["alerts"], none), (none, ["alerts", "goal"], some ["alerts", "goal"])] ∧ Told oneWidget ms t := by
  have run : Run (fun (s : OverlayStore Nat) i t => (s.step i).map Prod.fst = some t) oneWidget _ _ :=
    .cons (i := .update "a" renamed false) rfl (.cons (i := .create "b" "u" "goal" "goalbar" true) rfl (.nil _))
  exact ⟨_, _, rfl, (refused_never_lands _ _ _ run [_] _ [] rfl).2.1⟩

end OverlayStore

end Braidcast.Overlay.Store
