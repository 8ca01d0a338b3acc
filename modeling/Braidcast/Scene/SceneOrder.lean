import Braidcast.Lib.Listing
import Braidcast.Lib.Run
import Mathlib.Data.List.Dedup

/-!
# The scene order

`scene/scene_persistence.cpp`. Every canvas's scenes have an order that the user chose, by uuid. It is
kept under the canvas's uuid, the main canvas's under the empty string, and brought up to date with what
libobs has when it is read.
-/
namespace Braidcast.Scene

open Lib

/-- The scenes of a canvas as libobs enumerates them, each once. -/
structure Live where
  uuids : List String
  nodup : uuids.Nodup

/-- The orders in a collection file: "scene_order", and "canvas_scene_order" by its keys. -/
structure SavedOrders where
  sceneOrder : List String
  canvasSceneOrder : String → List String

/-- `sceneOrder` is `g_sceneOrder`, `canvases` has the definitions of the additional canvases and
`runtime` what is there of them, and `written` is the last file that was. -/
structure SceneOrders where
  sceneOrder : String → List String
  canvases : List String
  main : Live
  runtime : String → Option Live
  written : Option SavedOrders

namespace SceneOrders

variable (s : SceneOrders) (canvasUuid sceneUuid : String)

/-- The scenes of a canvas that is there. -/
def live : Option Live := if canvasUuid = "" then some s.main else s.runtime canvasUuid

def reconciled (tracked live : List String) : List String :=
  live.foldl (fun (reconciled : List String) uuid => if uuid ∈ reconciled then reconciled else reconciled ++ [uuid])
    (tracked.filter (· ∈ live))

def track (order : List String) : SceneOrders := { s with sceneOrder := Function.update s.sceneOrder canvasUuid order }

def reconcileSceneOrder : SceneOrders :=
  s.track canvasUuid (reconciled (s.sceneOrder canvasUuid) ((s.live canvasUuid).elim [] Live.uuids))

def pruneSceneOrder : SceneOrders :=
  { s with sceneOrder := fun canvas => if canvas ≠ "" ∧ canvas ∉ s.canvases then [] else s.sceneOrder canvas }

/-- `SceneOrder`: what it returns is the order that it leaves. -/
def readSceneOrder : SceneOrders := s.reconcileSceneOrder canvasUuid

def reorder (order : List String) (sceneUuid direction : String) : List String :=
  let idx := order.idxOf sceneUuid
  if direction = "up" ∧ 0 < idx then swapAt order idx (idx - 1)
  else if direction = "down" ∧ idx + 1 < order.length then swapAt order idx (idx + 1)
  else if direction = "top" ∧ 0 < idx then sceneUuid :: order.eraseIdx idx
  else if direction = "bottom" ∧ idx + 1 < order.length then order.eraseIdx idx ++ [sceneUuid]
  else order

def reorderScene (direction : String) : SceneOrders × Bool :=
  let s := s.reconcileSceneOrder canvasUuid
  let order := s.sceneOrder canvasUuid
  if sceneUuid ∈ order then (s.track canvasUuid (reorder order sceneUuid direction), true) else (s, false)

def moveToIndex (order : List String) (sceneUuid : String) (index : Int) : List String :=
  let rest := order.erase sceneUuid
  let index := if index < 0 then 0 else index
  let index := if (rest.length : Int) < index then (rest.length : Int) else index
  rest.insertIdx index.toNat sceneUuid

def moveSceneToIndex (index : Int) : SceneOrders × Bool :=
  let s := s.reconcileSceneOrder canvasUuid
  let order := s.sceneOrder canvasUuid
  if sceneUuid ∈ order then (s.track canvasUuid (moveToIndex order sceneUuid index), true) else (s, false)

/-- `SceneOrderToPersist`: the state it leaves the order in that it returns. -/
def sceneOrderToPersist : SceneOrders := if (s.runtime canvasUuid).isSome then s.readSceneOrder canvasUuid else s

/-- One canvas of the walk in `BuildCollectionData`. -/
def saveCanvas (p : SceneOrders × (String → List String)) (canvas : String) : SceneOrders × (String → List String) :=
  let s := p.1.sceneOrderToPersist canvas
  (s, if 0 < (s.sceneOrder canvas).length then Function.update p.2 canvas (s.sceneOrder canvas) else p.2)

def buildCollectionData : SceneOrders × SavedOrders :=
  let s := s.pruneSceneOrder
  let p := s.canvases.foldl saveCanvas (s, fun _ => [])
  let s := p.1.readSceneOrder ""
  (s, ⟨s.sceneOrder "", p.2⟩)

/-- The file is not written where the save is held back, or fails. -/
def save (writes : Bool) : SceneOrders :=
  let p := s.buildCollectionData
  if writes then { p.1 with written := some p.2 } else p.1

def readOrder (array out : List String) : List String := out ++ array.filter (· ≠ "")

/-- `Load` of a file that could not be used, or of one whose sources are `main` and the other canvases' scenes. -/
def load (file : Option SavedOrders) (main : Live) : SceneOrders :=
  let s := { s with sceneOrder := fun _ => [], main := main }
  match file with
  | none => s
  | some saved =>
    let s := (s.track "" (readOrder saved.sceneOrder (s.sceneOrder ""))).reconcileSceneOrder ""
    { s with sceneOrder := fun canvas => if canvas = "" then s.sceneOrder "" else readOrder (saved.canvasSceneOrder canvas) (s.sceneOrder canvas) }

inductive Input
  | sceneOrder (canvasUuid : String)
  | reorderScene (canvasUuid sceneUuid direction : String)
  | moveSceneToIndex (canvasUuid sceneUuid : String) (index : Int)
  | save (writes : Bool)
  /-- Scenes of a canvas that is there were created, renamed or removed. -/
  | scenes (canvasUuid : String) (now : Live)
  | starts (canvasUuid : String) (now : Live)
  | stops (canvasUuid : String)
  | define (canvases : List String)

def next : Input → SceneOrders
  | .sceneOrder canvasUuid => s.readSceneOrder canvasUuid
  | .reorderScene canvasUuid sceneUuid direction => (s.reorderScene canvasUuid sceneUuid direction).1
  | .moveSceneToIndex canvasUuid sceneUuid index => (s.moveSceneToIndex canvasUuid sceneUuid index).1
  | .save writes => s.save writes
  | .scenes canvasUuid now =>
    if canvasUuid = "" then { s with main := now }
    else if (s.runtime canvasUuid).isSome then { s with runtime := Function.update s.runtime canvasUuid (some now) }
    else s
  | .starts canvasUuid now => { s with runtime := Function.update s.runtime canvasUuid (some now) }
  | .stops canvasUuid => { s with runtime := Function.update s.runtime canvasUuid none }
  | .define canvases => { s with canvases := canvases }

variable {s} {canvasUuid sceneUuid} {canvas : String} {live : Live} {order : List String}

@[simp] theorem track_self : (s.track canvasUuid order).sceneOrder canvasUuid = order := Function.update_self ..

theorem track_of_ne (other : canvas ≠ canvasUuid) : (s.track canvasUuid order).sceneOrder canvas = s.sceneOrder canvas :=
  Function.update_of_ne other ..

/-- Reading brings the order up to date with the scenes that are there. -/
theorem read_present (present : s.live canvasUuid = some live) :
    (s.readSceneOrder canvasUuid).sceneOrder canvasUuid = keepUp (s.sceneOrder canvasUuid) live.uuids := by
  rw [readSceneOrder, reconcileSceneOrder, present, track_self]
  exact keepUp_eq_foldl live.nodup _

/-- The order of a canvas that is not there is gone once it is read. -/
theorem read_absent (absent : s.live canvasUuid = none) : (s.readSceneOrder canvasUuid).sceneOrder canvasUuid = [] := by
  rw [readSceneOrder, reconcileSceneOrder, absent, track_self]
  simp [reconciled]

theorem read_of_ne (other : canvas ≠ canvasUuid) : (s.readSceneOrder canvasUuid).sceneOrder canvas = s.sceneOrder canvas := track_of_ne other

theorem persist_of_ne (other : canvas ≠ canvasUuid) : (s.sceneOrderToPersist canvasUuid).sceneOrder canvas = s.sceneOrder canvas := by
  unfold sceneOrderToPersist
  split
  next => exact read_of_ne other
  next => rfl

@[simp] theorem persist_live : (s.sceneOrderToPersist canvasUuid).live canvas = s.live canvas := by
  unfold sceneOrderToPersist
  split
  next => rfl
  next => rfl

theorem live_additional (additional : canvasUuid ≠ "") : s.live canvasUuid = s.runtime canvasUuid := if_neg additional

theorem idxOf_split {before after : List String} (first : sceneUuid ∉ before) : (before ++ sceneUuid :: after).idxOf sceneUuid = before.length := by
  rw [List.idxOf_append_of_notMem first, List.idxOf_cons_self, Nat.add_zero]

theorem reorder_movesOnly (there : sceneUuid ∈ order) (direction : String) : MovesOnly sceneUuid order (reorder order sceneUuid direction) := by
  obtain ⟨before, after, rfl, first⟩ := List.eq_append_cons_of_mem there
  unfold reorder
  rw [idxOf_split first]
  dsimp only
  split
  next up => exact movesOnly_swapAt_prev up.2
  split
  next down => exact movesOnly_swapAt_next down.2
  split
  next => exact movesOnly_front
  split
  next => exact movesOnly_end
  next => exact .refl ..

theorem moveToIndex_movesOnly (there : sceneUuid ∈ order) (index : Int) : MovesOnly sceneUuid order (moveToIndex order sceneUuid index) := by
  refine movesOnly_insertIdx there ?_
  split <;> split <;> omega

/-- A move moves its scene in the order that a read gives, and leaves that order as it is where it fails. -/
theorem reorderScene_movesOnly (direction : String) :
    MovesOnly sceneUuid ((s.readSceneOrder canvasUuid).sceneOrder canvasUuid) ((s.reorderScene canvasUuid sceneUuid direction).1.sceneOrder canvasUuid) := by
  unfold reorderScene
  dsimp only
  split
  next there =>
    rw [track_self]
    exact reorder_movesOnly there direction
  next => exact .refl ..

theorem moveSceneToIndex_movesOnly (index : Int) :
    MovesOnly sceneUuid ((s.readSceneOrder canvasUuid).sceneOrder canvasUuid) ((s.moveSceneToIndex canvasUuid sceneUuid index).1.sceneOrder canvasUuid) := by
  unfold moveSceneToIndex
  dsimp only
  split
  next there =>
    rw [track_self]
    exact moveToIndex_movesOnly there index
  next => exact .refl ..

theorem reorderScene_of_ne (other : canvas ≠ canvasUuid) (direction : String) :
    (s.reorderScene canvasUuid sceneUuid direction).1.sceneOrder canvas = s.sceneOrder canvas := by
  unfold reorderScene
  dsimp only
  split
  next => exact (track_of_ne other).trans (track_of_ne other)
  next => exact track_of_ne other

theorem moveSceneToIndex_of_ne (other : canvas ≠ canvasUuid) (index : Int) :
    (s.moveSceneToIndex canvasUuid sceneUuid index).1.sceneOrder canvas = s.sceneOrder canvas := by
  unfold moveSceneToIndex
  dsimp only
  split
  next => exact (track_of_ne other).trans (track_of_ne other)
  next => exact track_of_ne other

end SceneOrders

end Braidcast.Scene

/-!
## Every scene is listed once

What a read gives is each of the canvas's scenes once, those that were listed before as they were and
the others after them, as long as no order in the collection file names a scene twice.
-/
namespace Braidcast.Scene.SceneOrders

open Lib

/-- A scene of the canvas is moved. -/
def Moves (canvas scene : String) : Input → Prop
  | .reorderScene canvasUuid sceneUuid _ => canvasUuid = canvas ∧ sceneUuid = scene
  | .moveSceneToIndex canvasUuid sceneUuid _ => canvasUuid = canvas ∧ sceneUuid = scene
  | _ => False

/-- The order of the canvas is none of the step's business. -/
def Elsewhere (canvas : String) : Input → Prop
  | .sceneOrder canvasUuid => canvasUuid ≠ canvas
  | .reorderScene canvasUuid _ _ => canvasUuid ≠ canvas
  | .moveSceneToIndex canvasUuid _ _ => canvasUuid ≠ canvas
  | .save _ => False
  | _ => True

structure Lawful (m : Moment SceneOrders Input) : Prop where
  once : ∀ canvas live, m.input = .sceneOrder canvas → m.before.live canvas = some live → (m.after.sceneOrder canvas).Nodup
  complete : ∀ canvas live, m.input = .sceneOrder canvas → m.before.live canvas = some live →
    ∀ scene, scene ∈ m.after.sceneOrder canvas ↔ scene ∈ live.uuids
  stable : ∀ canvas live, m.input = .sceneOrder canvas → m.before.live canvas = some live →
    ∃ fresh, m.after.sceneOrder canvas = (m.before.sceneOrder canvas).filter (· ∈ live.uuids) ++ fresh ∧
      ∀ scene ∈ fresh, scene ∉ m.before.sceneOrder canvas
  moved : ∀ canvas scene, Moves canvas scene m.input →
    MovesOnly scene ((m.before.readSceneOrder canvas).sceneOrder canvas) (m.after.sceneOrder canvas)
  saved : ∀ canvas live writes, m.input = .save writes → m.before.live canvas = some live → canvas ∈ "" :: m.before.canvases →
    m.after.sceneOrder canvas = (m.before.readSceneOrder canvas).sceneOrder canvas
  kept : ∀ canvas, Elsewhere canvas m.input → m.after.sceneOrder canvas = m.before.sceneOrder canvas

/-- No order in the file names a scene twice, of the main canvas's those that are there when it is loaded. -/
def OnceEach (saved : SavedOrders) (main : Live) : Prop :=
  ((readOrder saved.sceneOrder []).filter (· ∈ main.uuids)).Nodup ∧
    ∀ canvas, canvas ≠ "" → (readOrder (saved.canvasSceneOrder canvas) []).Nodup

/-- No order that is kept names a scene twice. -/
def Once (s : SceneOrders) : Prop := ∀ canvas, (s.sceneOrder canvas).Nodup

variable {s t : SceneOrders} {canvas : String} {live main : Live} {saved : SavedOrders}

theorem Once.read (once : s.Once) (canvasUuid : String) : (s.readSceneOrder canvasUuid).Once := by
  intro canvas
  by_cases same : canvas = canvasUuid
  · subst same
    cases present : s.live canvas with
    | none => exact read_absent present ▸ List.nodup_nil
    | some live => exact read_present present ▸ nodup_keepUp live.nodup (once canvas)
  · rw [read_of_ne same]
    exact once canvas

theorem Once.reorderScene (once : s.Once) (canvasUuid sceneUuid direction : String) : (s.reorderScene canvasUuid sceneUuid direction).1.Once := by
  intro canvas
  by_cases same : canvas = canvasUuid
  · subst same
    exact (reorderScene_movesOnly direction).nodup_iff.mpr (once.read canvas canvas)
  · rw [reorderScene_of_ne same]
    exact once canvas

theorem Once.moveSceneToIndex (once : s.Once) (canvasUuid sceneUuid : String) (index : Int) :
    (s.moveSceneToIndex canvasUuid sceneUuid index).1.Once := by
  intro canvas
  by_cases same : canvas = canvasUuid
  · subst same
    exact (moveSceneToIndex_movesOnly index).nodup_iff.mpr (once.read canvas canvas)
  · rw [moveSceneToIndex_of_ne same]
    exact once canvas

theorem Once.prune (once : s.Once) : s.pruneSceneOrder.Once := by
  intro canvas
  unfold pruneSceneOrder
  dsimp only
  split
  next => exact List.nodup_nil
  next => exact once canvas

theorem Once.sceneOrderToPersist (once : s.Once) (canvasUuid : String) : (s.sceneOrderToPersist canvasUuid).Once := by
  unfold SceneOrders.sceneOrderToPersist
  split
  next => exact once.read canvasUuid
  next => exact once

theorem Once.walk (canvases : List String) {p : SceneOrders × (String → List String)} (once : p.1.Once) : (canvases.foldl saveCanvas p).1.Once := by
  induction canvases generalizing p with
  | nil => exact once
  | cons canvas canvases ih => exact ih (once.sceneOrderToPersist canvas)

theorem Once.save (once : s.Once) (writes : Bool) : (s.save writes).Once := by
  have built : s.buildCollectionData.1.Once := (Once.walk _ once.prune).read ""
  unfold SceneOrders.save
  dsimp only
  split
  next => exact built
  next => exact built

/-- No step makes an order name a scene twice. -/
theorem Once.next (once : s.Once) (i : Input) : (s.next i).Once := by
  cases i with
  | sceneOrder canvasUuid => exact once.read canvasUuid
  | reorderScene canvasUuid sceneUuid direction => exact once.reorderScene canvasUuid sceneUuid direction
  | moveSceneToIndex canvasUuid sceneUuid index => exact once.moveSceneToIndex canvasUuid sceneUuid index
  | save writes => exact once.save writes
  | scenes canvasUuid now =>
    unfold SceneOrders.next
    dsimp only
    split
    next => exact once
    split
    next => exact once
    next => exact once
  | starts canvasUuid now => exact once
  | stops canvasUuid => exact once
  | define canvases => exact once

theorem persist_present (additional : canvas ≠ "") (present : s.live canvas = some live) :
    (s.sceneOrderToPersist canvas).sceneOrder canvas = keepUp (s.sceneOrder canvas) live.uuids := by
  have running : (s.runtime canvas).isSome = true := by rw [← live_additional additional, present]; rfl
  rw [sceneOrderToPersist, if_pos running, read_present present]

/-- A save reads each order on its walk, or leaves it as it is where the canvas is not there. -/
theorem persist_listed (present : s.live canvas = some live) (canvasUuid : String) :
    (s.sceneOrderToPersist canvasUuid).sceneOrder canvas = s.sceneOrder canvas ∨
      (s.sceneOrderToPersist canvasUuid).sceneOrder canvas = keepUp (s.sceneOrder canvas) live.uuids := by
  by_cases same : canvas = canvasUuid
  · subst same
    unfold sceneOrderToPersist
    split
    next => exact .inr (read_present present)
    next => exact .inl rfl
  · exact .inl (persist_of_ne same)

theorem walk_listed (canvases : List String) {p : SceneOrders × (String → List String)} (present : p.1.live canvas = some live) :
    (canvases.foldl saveCanvas p).1.live canvas = some live ∧
      ((canvases.foldl saveCanvas p).1.sceneOrder canvas = p.1.sceneOrder canvas ∧ (canvas ≠ "" → canvas ∉ canvases) ∨
        (canvases.foldl saveCanvas p).1.sceneOrder canvas = keepUp (p.1.sceneOrder canvas) live.uuids) := by
  induction canvases generalizing p with
  | nil => exact ⟨present, .inl ⟨rfl, fun _ => List.not_mem_nil⟩⟩
  | cons d canvases ih =>
    have here : (saveCanvas p d).1.live canvas = some live := persist_live.trans present
    obtain ⟨last, walked⟩ := ih here
    refine ⟨last, ?_⟩
    rw [List.foldl_cons]
    have head : (saveCanvas p d).1.sceneOrder canvas = _ ∨ (saveCanvas p d).1.sceneOrder canvas = _ := persist_listed present d
    rcases walked with ⟨same, beyond⟩ | up <;> rcases head with kept | listed
    · by_cases first : canvas = d ∧ canvas ≠ ""
      · obtain ⟨rfl, additional⟩ := first
        exact .inr (same.trans (persist_present additional present))
      · refine .inl ⟨same.trans kept, fun additional => ?_⟩
        exact List.not_mem_cons_of_ne_of_not_mem (fun is => first ⟨is, additional⟩) (beyond additional)
    · exact .inr (same.trans listed)
    · exact .inr (up.trans (by rw [kept]))
    · exact .inr (up.trans (by rw [listed, keepUp_keepUp]))

theorem save_sceneOrder (s : SceneOrders) (writes : Bool) : (s.save writes).sceneOrder = s.buildCollectionData.1.sceneOrder := by
  unfold SceneOrders.save
  dsimp only
  split
  next => rfl
  next => rfl

theorem prune_of_mem (known : canvas ∈ "" :: s.canvases) : s.pruneSceneOrder.sceneOrder canvas = s.sceneOrder canvas :=
  if_neg fun ⟨additional, unknown⟩ => (List.mem_cons.mp known).elim additional unknown

/-- A save lists the scenes as a read would. -/
theorem save_present (present : s.live canvas = some live) (known : canvas ∈ "" :: s.canvases) (writes : Bool) :
    (s.save writes).sceneOrder canvas = keepUp (s.sceneOrder canvas) live.uuids := by
  rw [save_sceneOrder, ← prune_of_mem known]
  obtain ⟨last, walked⟩ := walk_listed (p := (s.pruneSceneOrder, fun _ => [])) s.canvases present
  by_cases additional : canvas = ""
  · subst additional
    refine (read_present last).trans ?_
    rcases walked with ⟨same, -⟩ | up
    · rw [same]
    · rw [up, keepUp_keepUp]
  · refine (read_of_ne additional).trans ?_
    rcases walked with ⟨-, unknown⟩ | up
    · exact absurd ((List.mem_cons.mp known).resolve_left additional) (unknown additional)
    · exact up

theorem load_main (s : SceneOrders) (saved : SavedOrders) (main : Live) :
    (s.load (some saved) main).sceneOrder "" = keepUp (readOrder saved.sceneOrder []) main.uuids := by
  unfold load
  dsimp only
  rw [if_pos rfl]
  exact (read_present rfl).trans (by rw [track_self]; rfl)

theorem load_canvas (s : SceneOrders) (saved : SavedOrders) (main : Live) (additional : canvas ≠ "") :
    (s.load (some saved) main).sceneOrder canvas = readOrder (saved.canvasSceneOrder canvas) [] := by
  unfold load
  dsimp only
  rw [if_neg additional, reconcileSceneOrder, track_of_ne additional, track_of_ne additional]

theorem OnceEach.load (each : OnceEach saved main) (s : SceneOrders) : (s.load (some saved) main).Once := by
  intro canvas
  by_cases additional : canvas = ""
  · rw [additional, load_main]
    exact (nodup_keepUp_iff main.nodup).mpr each.1
  · rw [load_canvas s saved main additional]
    exact each.2 canvas additional

theorem next_elsewhere (i : Input) (elsewhere : Elsewhere canvas i) : (s.next i).sceneOrder canvas = s.sceneOrder canvas := by
  cases i with
  | sceneOrder canvasUuid => exact read_of_ne (Ne.symm elsewhere)
  | reorderScene canvasUuid sceneUuid direction => exact reorderScene_of_ne (Ne.symm elsewhere) direction
  | moveSceneToIndex canvasUuid sceneUuid index => exact moveSceneToIndex_of_ne (Ne.symm elsewhere) index
  | save writes => exact elsewhere.elim
  | scenes canvasUuid now =>
    unfold SceneOrders.next
    dsimp only
    split
    next => rfl
    split
    next => rfl
    next => rfl
  | starts canvasUuid now => rfl
  | stops canvasUuid => rfl
  | define canvases => rfl

theorem next_moves (i : Input) {scene : String} (moves : Moves canvas scene i) :
    MovesOnly scene ((s.readSceneOrder canvas).sceneOrder canvas) ((s.next i).sceneOrder canvas) := by
  cases i with
  | reorderScene canvasUuid sceneUuid direction =>
    obtain ⟨rfl, rfl⟩ := moves
    exact reorderScene_movesOnly direction
  | moveSceneToIndex canvasUuid sceneUuid index =>
    obtain ⟨rfl, rfl⟩ := moves
    exact moveSceneToIndex_movesOnly index
  | _ => exact moves.elim

/-- Where no order names a scene twice, every step is as it should be. -/
theorem Once.lawful (once : s.Once) (i : Input) : Lawful ⟨s, i, s.next i⟩ where
  once := by
    rintro canvas live rfl present
    exact once.read canvas canvas
  complete := by
    rintro canvas live rfl present scene
    exact read_present present ▸ mem_keepUp
  stable := by
    rintro canvas live rfl present
    refine ⟨_, read_present present, fun scene fresh => ?_⟩
    exact of_decide_eq_true (List.mem_filter.mp fresh).2
  moved := fun canvas scene moves => next_moves i moves
  saved := by
    rintro canvas live writes rfl present known
    exact (save_present present known writes).trans (read_present present).symm
  kept := fun canvas elsewhere => next_elsewhere i elsewhere

theorem Once.run_lawful {ms : List (Moment SceneOrders Input)} (once : s.Once) (run : Run (fun s i t => s.next i = t) s ms t) :
    ∀ m ∈ ms, Lawful m := by
  induction run with
  | nil => exact fun m member => nomatch member
  | @cons s _ u i ms step run ih =>
    subst step
    exact List.forall_mem_cons.mpr ⟨once.lawful i, ih (once.next i)⟩

/-- Every scene is listed once in every run from a load, if and only if no order in its file names one twice. -/
theorem lists_each_once_iff (s : SceneOrders) (file : Option SavedOrders) (main : Live) :
    (∀ ms t, Run (fun s i t => s.next i = t) (s.load file main) ms t → ∀ m ∈ ms, Lawful m) ↔ ∀ saved, file = some saved → OnceEach saved main := by
  constructor
  · rintro lawful saved rfl
    constructor
    · have once := (lawful _ _ (.cons (i := .sceneOrder "") rfl (.nil _)) _ List.mem_cons_self).once "" main rfl rfl
      rw [show ((s.load (some saved) main).next (.sceneOrder "")).sceneOrder "" = _ from read_present rfl, load_main] at once
      exact (nodup_keepUp_iff main.nodup).mp (keepUp_keepUp _ main.uuids ▸ once)
    · -- The canvas starts with every scene that its order names.
      intro canvas additional
      have order := load_canvas s saved main additional
      generalize readOrder (saved.canvasSceneOrder canvas) [] = named at order ⊢
      let all : Live := ⟨named.dedup, named.nodup_dedup⟩
      have present : ((s.load (some saved) main).next (.starts canvas all)).live canvas = some all :=
        (live_additional additional).trans (Function.update_self ..)
      have once := (lawful _ _ (.cons (i := .starts canvas all) rfl (.cons (i := .sceneOrder canvas) rfl (.nil _))) _ (List.mem_cons_of_mem _ List.mem_cons_self)).once canvas all rfl present
      have listed := (nodup_keepUp_iff all.nodup).mp (read_present present ▸ once)
      rwa [show ((s.load (some saved) main).next (.starts canvas all)).sceneOrder canvas = named from order,
        List.filter_eq_self.mpr fun scene member => decide_eq_true (List.mem_dedup.mpr member)] at listed
  · intro each ms t run
    cases file with
    | none => exact Once.run_lawful (fun _ => List.nodup_nil) run
    | some saved => exact Once.run_lawful ((each saved rfl).load s) run

/-- A file that names a scene of the main canvas twice has it listed twice. -/
theorem not_always_each_once : ¬ ∀ (s : SceneOrders) (file : Option SavedOrders) (main : Live) (ms : List (Moment SceneOrders Input)) (t : SceneOrders),
    Run (fun s i t => s.next i = t) (s.load file main) ms t → ∀ m ∈ ms, Lawful m := by
  intro claimed
  let scene : Live := ⟨["scene"], by decide⟩
  have lawful := claimed ⟨fun _ => [], [], scene, fun _ => none, none⟩ (some ⟨["scene", "scene"], fun _ => []⟩) scene _ _
    (.cons (i := .sceneOrder "") rfl (.nil _)) _ List.mem_cons_self
  exact absurd (lawful.once "" scene rfl rfl) (by decide)

end Braidcast.Scene.SceneOrders
