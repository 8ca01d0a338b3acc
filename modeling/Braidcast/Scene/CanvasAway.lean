import Braidcast.Scene.SceneOrder

/-!
# The order of a canvas that is away

A canvas's runtime may be gone for a while. Its order is still kept then, in memory and in every file
that a save writes, as long as nobody reads it before the canvas is back.
-/
namespace Braidcast.Scene.SceneOrders

open Lib

/-- What can happen while the canvas's definition and scenes stay. -/
def Quiet (canvas : String) (order : List String) : Input → Prop
  | .sceneOrder _ => True
  | .save _ => True
  | .stops _ => True
  | .starts canvasUuid now => canvasUuid = canvas → ∀ scene, scene ∈ order ↔ scene ∈ now.uuids
  | .define canvases => canvas ∈ canvases
  | .scenes canvasUuid _ => canvasUuid ≠ canvas
  | .reorderScene canvasUuid _ _ => canvasUuid ≠ canvas
  | .moveSceneToIndex canvasUuid _ _ => canvasUuid ≠ canvas

/-- An order that is kept is read while its canvas is away. -/
def Discards (canvas : String) (m : Moment SceneOrders Input) : Prop :=
  m.input = .sceneOrder canvas ∧ m.before.runtime canvas = none ∧ m.before.sceneOrder canvas ≠ []

structure Kept (canvas : String) (order : List String) (m : Moment SceneOrders Input) : Prop where
  read : ∀ live, m.input = .sceneOrder canvas → m.before.runtime canvas = some live → m.after.sceneOrder canvas = order
  saved : ∀ file, m.input = .save true → m.after.written = some file → file.canvasSceneOrder canvas = order

/-- The order is kept, and a canvas that is there has its scenes. -/
structure Held (canvas : String) (order : List String) (s : SceneOrders) : Prop where
  known : canvas ∈ s.canvases
  kept : s.sceneOrder canvas = order
  scenes : ∀ live, s.runtime canvas = some live → ∀ scene, scene ∈ order ↔ scene ∈ live.uuids

variable {s t : SceneOrders} {canvas : String} {order : List String} {live : Live}

/-- Only a read of an absent canvas can lose the order. -/
theorem Held.read (held : Held canvas order s) (additional : canvas ≠ "") (canvasUuid : String)
    (retains : canvasUuid = canvas → s.runtime canvas ≠ none ∨ order = []) : Held canvas order (s.readSceneOrder canvasUuid) := by
  refine ⟨held.known, ?_, held.scenes⟩
  by_cases same : canvas = canvasUuid
  · subst same
    cases present : s.runtime canvas with
    | none =>
      have empty := (retains rfl).resolve_left fun there => there present
      exact (read_absent ((live_additional additional).trans present)).trans empty.symm
    | some live =>
      rw [read_present ((live_additional additional).trans present), held.kept]
      exact keepUp_of_mem_iff (held.scenes live present)
  · exact (read_of_ne same).trans held.kept

theorem Held.persist (held : Held canvas order s) (additional : canvas ≠ "") (canvasUuid : String) :
    Held canvas order (s.sceneOrderToPersist canvasUuid) := by
  unfold sceneOrderToPersist
  split
  next there =>
    refine held.read additional canvasUuid fun same => .inl fun absent => ?_
    rw [same, absent] at there
    cases there
  next => exact held

variable {p : SceneOrders × (String → List String)}

theorem saveCanvas_of_ne {canvasUuid : String} (other : canvas ≠ canvasUuid) :
    (saveCanvas p canvasUuid).2 canvas = p.2 canvas := by
  unfold saveCanvas
  dsimp only
  split
  next => exact Function.update_of_ne other ..
  next => rfl

theorem Held.saveCanvas_self (held : Held canvas order p.1) (additional : canvas ≠ "")
    (so_far : p.2 canvas = [] ∨ p.2 canvas = order) : (saveCanvas p canvas).2 canvas = order := by
  have persisted := (held.persist additional canvas).kept
  unfold saveCanvas
  dsimp only
  rw [persisted]
  split
  next => exact Function.update_self ..
  next empty =>
    have none : order = [] := List.length_eq_zero_iff.mp (Nat.eq_zero_of_not_pos empty)
    exact so_far.elim (fun nothing => nothing.trans none.symm) id

/-- The walk of a save writes the order of each canvas it comes by. -/
theorem Held.walk (canvases : List String) (held : Held canvas order p.1) (additional : canvas ≠ "")
    (so_far : p.2 canvas = [] ∨ p.2 canvas = order) :
    Held canvas order (canvases.foldl saveCanvas p).1 ∧
      ((canvases.foldl saveCanvas p).2 canvas = order ∨ (canvases.foldl saveCanvas p).2 canvas = p.2 canvas ∧ canvas ∉ canvases) := by
  induction canvases generalizing p with
  | nil => exact ⟨held, .inr ⟨rfl, List.not_mem_nil⟩⟩
  | cons d canvases ih =>
    rw [List.foldl_cons]
    have next : Held canvas order (saveCanvas p d).1 := held.persist additional d
    by_cases here : canvas = d
    · subst here
      have written := held.saveCanvas_self additional so_far
      obtain ⟨last, walked⟩ := ih next (.inr written)
      exact ⟨last, .inl (walked.elim id fun unchanged => unchanged.1.trans written)⟩
    · have unchanged : (saveCanvas p d).2 canvas = p.2 canvas := saveCanvas_of_ne here
      obtain ⟨last, walked⟩ := ih next (unchanged ▸ so_far)
      refine ⟨last, walked.imp_right fun ⟨same, beyond⟩ => ⟨same.trans unchanged, ?_⟩⟩
      exact List.not_mem_cons_of_ne_of_not_mem here beyond

theorem Held.save (held : Held canvas order s) (additional : canvas ≠ "") (writes : Bool) :
    Held canvas order (s.save writes) ∧ ∀ file, writes = true → (s.save writes).written = some file → file.canvasSceneOrder canvas = order := by
  have pruned : Held canvas order s.pruneSceneOrder := ⟨held.known, (prune_of_mem (List.mem_cons_of_mem _ held.known)).trans held.kept, held.scenes⟩
  obtain ⟨walked, written⟩ := Held.walk (p := (s.pruneSceneOrder, fun _ => [])) s.canvases pruned additional (.inl rfl)
  have built : Held canvas order s.buildCollectionData.1 := walked.read additional "" fun same => absurd same.symm additional
  have saved : s.buildCollectionData.2.canvasSceneOrder canvas = order := written.resolve_right fun missed => missed.2 held.known
  cases writes with
  | false => exact ⟨built, fun _ writes => nomatch writes⟩
  | true =>
    refine ⟨⟨built.known, built.kept, built.scenes⟩, fun file _ wrote => ?_⟩
    cases wrote
    exact saved

theorem reorderScene_world (s : SceneOrders) (canvasUuid sceneUuid direction : String) :
    (s.reorderScene canvasUuid sceneUuid direction).1.runtime = s.runtime ∧ (s.reorderScene canvasUuid sceneUuid direction).1.canvases = s.canvases := by
  unfold reorderScene
  dsimp only
  split
  next => exact ⟨rfl, rfl⟩
  next => exact ⟨rfl, rfl⟩

theorem moveSceneToIndex_world (s : SceneOrders) (canvasUuid sceneUuid : String) (index : Int) :
    (s.moveSceneToIndex canvasUuid sceneUuid index).1.runtime = s.runtime ∧
      (s.moveSceneToIndex canvasUuid sceneUuid index).1.canvases = s.canvases := by
  unfold moveSceneToIndex
  dsimp only
  split
  next => exact ⟨rfl, rfl⟩
  next => exact ⟨rfl, rfl⟩

theorem Held.next (held : Held canvas order s) (additional : canvas ≠ "") (i : Input) (quiet : Quiet canvas order i)
    (retained : ¬ Discards canvas ⟨s, i, s.next i⟩) : Held canvas order (s.next i) := by
  cases i with
  | sceneOrder canvasUuid =>
    refine held.read additional canvasUuid fun same => ?_
    subst same
    by_cases absent : s.runtime canvasUuid = none
    · refine .inr (by_contra fun some => retained ⟨rfl, absent, ?_⟩)
      exact held.kept ▸ some
    · exact .inl absent
  | reorderScene canvasUuid sceneUuid direction =>
    obtain ⟨runtime, canvases⟩ := reorderScene_world s canvasUuid sceneUuid direction
    exact ⟨canvases ▸ held.known, (reorderScene_of_ne (Ne.symm quiet) direction).trans held.kept, runtime ▸ held.scenes⟩
  | moveSceneToIndex canvasUuid sceneUuid index =>
    obtain ⟨runtime, canvases⟩ := moveSceneToIndex_world s canvasUuid sceneUuid index
    exact ⟨canvases ▸ held.known, (moveSceneToIndex_of_ne (Ne.symm quiet) index).trans held.kept, runtime ▸ held.scenes⟩
  | save writes => exact (held.save additional writes).1
  | scenes canvasUuid now =>
    unfold SceneOrders.next
    dsimp only
    split
    next => exact ⟨held.known, held.kept, held.scenes⟩
    split
    next => exact ⟨held.known, held.kept, fun live there => held.scenes live ((Function.update_of_ne (Ne.symm quiet) ..).symm.trans there)⟩
    next => exact held
  | starts canvasUuid now =>
    refine ⟨held.known, held.kept, fun live there => ?_⟩
    by_cases same : canvas = canvasUuid
    · subst same
      cases (Function.update_self ..).symm.trans there
      exact quiet rfl
    · exact held.scenes live ((Function.update_of_ne same ..).symm.trans there)
  | stops canvasUuid =>
    refine ⟨held.known, held.kept, fun live there => ?_⟩
    by_cases same : canvas = canvasUuid
    · subst same
      cases (Function.update_self ..).symm.trans there
    · exact held.scenes live ((Function.update_of_ne same ..).symm.trans there)
  | define canvases => exact ⟨quiet, held.kept, held.scenes⟩

theorem Held.keeps (held : Held canvas order s) (additional : canvas ≠ "") (i : Input) : Kept canvas order ⟨s, i, s.next i⟩ where
  read := by
    rintro live rfl present
    exact (held.read additional canvas fun _ => .inl (by rw [present]; exact Option.some_ne_none live)).kept
  saved := by
    rintro file rfl written
    exact (held.save additional true).2 file rfl written

theorem Held.run_keeps {ms : List (Moment SceneOrders Input)} (held : Held canvas order s) (additional : canvas ≠ "")
    (run : Run (fun s i t => s.next i = t) s ms t) (quiet : ∀ m ∈ ms, Quiet canvas order m.input) (retained : ∀ m ∈ ms, ¬ Discards canvas m) :
    ∀ m ∈ ms, Kept canvas order m := by
  induction run with
  | nil => exact fun m member => nomatch member
  | @cons s _ u i ms step run ih =>
    subst step
    obtain ⟨quiet, later⟩ := List.forall_mem_cons.mp quiet
    obtain ⟨retained, retains⟩ := List.forall_mem_cons.mp retained
    exact List.forall_mem_cons.mpr ⟨held.keeps additional i, ih (held.next additional i quiet retained) later retains⟩

/-- The order that was read last is read again when the canvas is back, and is in every file that is
written meanwhile, unless the canvas was read while it was away. -/
theorem order_outlives_absence (s t : SceneOrders) (canvas : String) (live : Live) (additional : canvas ≠ "") (known : canvas ∈ s.canvases)
    (running : s.runtime canvas = some live) (ms : List (Moment SceneOrders Input))
    (run : Run (fun s i t => s.next i = t) (s.readSceneOrder canvas) ms t)
    (quiet : ∀ m ∈ ms, Quiet canvas ((s.readSceneOrder canvas).sceneOrder canvas) m.input) (retained : ∀ m ∈ ms, ¬ Discards canvas m) :
    ∀ m ∈ ms, Kept canvas ((s.readSceneOrder canvas).sceneOrder canvas) m := by
  have present : s.live canvas = some live := (live_additional additional).trans running
  refine Held.run_keeps (s := s.readSceneOrder canvas) ⟨known, rfl, fun there running' scene => ?_⟩ additional run quiet retained
  cases running.symm.trans running'
  rw [read_present present]
  exact mem_keepUp

/-- The canvas "vertical", its scene moved to the top of the other. -/
def vertical : SceneOrders :=
  ⟨fun canvas => if canvas = "vertical" then ["intro", "game"] else [], ["vertical"], ⟨[], .nil⟩,
    fun canvas => if canvas = "vertical" then some ⟨["game", "intro"], by decide⟩ else none, none⟩

theorem order_outlives_a_stop : ∃ (ms : List (Moment SceneOrders Input)) (t : SceneOrders),
    Run (fun s i t => s.next i = t) (vertical.readSceneOrder "vertical") ms t ∧
      (∀ m ∈ ms, Kept "vertical" ["intro", "game"] m) ∧ ms.map (·.input) = [.stops "vertical", .save true,
        .starts "vertical" ⟨["game", "intro"], by decide⟩, .sceneOrder "vertical"] := by
  have run : Run (fun (s : SceneOrders) i t => s.next i = t) (vertical.readSceneOrder "vertical") _ _ :=
    .cons (i := .stops "vertical") rfl <| .cons (i := .save true) rfl <|
      .cons (i := .starts "vertical" ⟨["game", "intro"], by decide⟩) rfl <| .cons (i := .sceneOrder "vertical") rfl (.nil _)
  have kept := order_outlives_absence vertical _ "vertical" ⟨["game", "intro"], by decide⟩ (by decide) (by decide) rfl _ run ?_ ?_
  · exact ⟨_, _, run, kept, rfl⟩
  · have order : (vertical.readSceneOrder "vertical").sceneOrder "vertical" = ["intro", "game"] := by decide
    simp only [List.forall_mem_cons, order]
    exact ⟨trivial, trivial, fun _ scene => by simp [or_comm], trivial, nofun⟩
  · simp only [List.forall_mem_cons]
    exact ⟨nofun, nofun, nofun, fun discards => absurd discards.2.1 (by decide), nofun⟩

/-- A read of an absent canvas and a save leave its order nowhere. -/
theorem not_always_outlives_absence : ¬ ∀ (s t : SceneOrders) (canvas : String) (live : Live), canvas ≠ "" → canvas ∈ s.canvases →
    s.runtime canvas = some live → ∀ ms : List (Moment SceneOrders Input),
      Run (fun s i t => s.next i = t) (s.readSceneOrder canvas) ms t →
        (∀ m ∈ ms, Quiet canvas ((s.readSceneOrder canvas).sceneOrder canvas) m.input) →
          ∀ m ∈ ms, Kept canvas ((s.readSceneOrder canvas).sceneOrder canvas) m := by
  intro claimed
  have kept := claimed vertical _ "vertical" ⟨["game", "intro"], by decide⟩ (by decide) (by decide) rfl _
    (.cons (i := .stops "vertical") rfl <| .cons (i := .sceneOrder "vertical") rfl <| .cons (i := .save true) rfl (.nil _)) ?_
  · simp only [List.forall_mem_cons] at kept
    exact absurd (kept.2.2.1.saved _ rfl rfl) (by decide)
  · simp only [List.forall_mem_cons]
    exact ⟨trivial, trivial, trivial, nofun⟩

end Braidcast.Scene.SceneOrders
