import Braidcast.Lib.Run
import Braidcast.Lib.Timeline

/-!
# The undo manager

`utility/UndoManager.cpp`, with the application state that its callbacks are about. A callback may
call the manager again before it returns, so a call of `Undo` or `Redo` is two steps with any others
between them. The top of a stack is its head.
-/
namespace Braidcast.Undo

/-- What a callback makes of the application state, given its data. -/
abbrev Cb (σ : Type) := String → σ → σ

structure Item (σ : Type) where
  name : String
  undoData : String
  redoData : String
  undo : Option (Cb σ)
  redo : Option (Cb σ)

/-- A call that has not returned, with the stacks as they were when it came. -/
inductive Frame (σ : Type)
  /-- Recording is suppressed by a `PushDisabled` whose `PopDisabled` is to come. -/
  | suppression
  | undoing (item : Item σ) (undoItems redoItems : List (Item σ))
  | redoing (item : Item σ) (undoItems redoItems : List (Item σ))

structure UndoManager (σ : Type) where
  app : σ
  undoItems : List (Item σ)
  redoItems : List (Item σ)
  disableRefs : Nat
  frames : List (Frame σ)

def kMaxUndo : Nat := 5000

namespace UndoManager

variable {σ : Type} (m : UndoManager σ)

def initial (app : σ) : UndoManager σ := ⟨app, [], [], 0, []⟩

def isEnabled : Bool := m.disableRefs = 0

def pushDisabled : UndoManager σ := { m with disableRefs := m.disableRefs + 1 }

def popDisabled : UndoManager σ := if 0 < m.disableRefs then { m with disableRefs := m.disableRefs - 1 } else m

def addAction (item : Item σ) : UndoManager σ :=
  if m.isEnabled then { m with undoItems := (item :: m.undoItems).take kMaxUndo, redoItems := [] } else m

/-- `Undo`, up to its callback. -/
def undo : UndoManager σ :=
  if m.disableRefs ≠ 0 then m
  else
    match m.undoItems with
    | [] => m
    | item :: undoItems =>
      if item.undo.isSome then
        { m with undoItems := undoItems, frames := .undoing item m.undoItems m.redoItems :: m.frames }.pushDisabled
      else { m with undoItems := undoItems, redoItems := item :: m.redoItems }

def redo : UndoManager σ :=
  if m.disableRefs ≠ 0 then m
  else
    match m.redoItems with
    | [] => m
    | item :: redoItems =>
      if item.redo.isSome then
        { m with redoItems := redoItems, frames := .redoing item m.undoItems m.redoItems :: m.frames }.pushDisabled
      else { m with redoItems := redoItems, undoItems := item :: m.undoItems }

/-- What a callback that returns has made of the application state. -/
def apply (cb : Option (Cb σ)) (data : String) : UndoManager σ :=
  { m with app := (cb.map fun cb => cb data m.app).getD m.app }

inductive Input (σ : Type)
  /-- The user edits the application, and the edit is recorded. -/
  | action (item : Item σ) (now : σ)
  | undo
  | redo
  | suppress
  /-- The call that came last returns. -/
  | returns
  /-- It throws, and leaves the application in some state. -/
  | throws (left : σ)

/-- What is recorded while another call is on its way is part of what that call does. -/
def step : Input σ → Option (UndoManager σ)
  | .action item now => if m.frames.isEmpty then some ({ m with app := now }.addAction item) else some (m.addAction item)
  | .undo => some m.undo
  | .redo => some m.redo
  | .suppress => some { m with frames := .suppression :: m.frames }.pushDisabled
  | .returns =>
    match m.frames with
    | [] => none
    | .suppression :: frames => some { m with frames := frames }.popDisabled
    | .undoing item _ _ :: frames =>
      let m := ({ m with frames := frames }.apply item.undo item.undoData).popDisabled
      some { m with redoItems := item :: m.redoItems }
    | .redoing item _ _ :: frames =>
      let m := ({ m with frames := frames }.apply item.redo item.redoData).popDisabled
      some { m with undoItems := item :: m.undoItems }
  | .throws left =>
    match m.frames with
    | [] => none
    | .suppression :: frames => some { m with frames := frames }.popDisabled
    | _ :: frames => some { m with frames := frames, app := left }.popDisabled

end UndoManager

end Braidcast.Undo

/-!
## Undo and redo walk the history

The two stacks record a timeline of the application's states, and every call moves along it as it
should, up to one that a callback throws out of.
-/
namespace Braidcast.Undo

open Lib Timeline

variable {σ : Type}

/-- The undo of an action restores the state before it, and the redo the state after it. -/
def Restores (item : Item σ) (s now : σ) : Prop :=
  ∃ undo redo, item.undo = some undo ∧ item.redo = some redo ∧ undo item.undoData now = s ∧ redo item.redoData s = now

/-- The stacks before a call of `Undo` or `Redo`. -/
def Frame.saved : Frame σ → Option (List (Item σ) × List (Item σ))
  | .suppression => none
  | .undoing _ undoItems redoItems => some (undoItems, redoItems)
  | .redoing _ undoItems redoItems => some (undoItems, redoItems)

namespace UndoManager

/-- The history that is to be walked: an edit of the user is recorded, and a callback that returns is a
step along it. -/
def note (t : Timeline σ) (m : Moment (UndoManager σ) (Input σ)) : Timeline σ :=
  match m.input, m.before.frames with
  | .action _ now, [] => t.record kMaxUndo now
  | .returns, .undoing .. :: _ => t.back
  | .returns, .redoing .. :: _ => t.forward
  | _, _ => t

/-- What a recorded action is to do. -/
def Restoring (m : Moment (UndoManager σ) (Input σ)) : Prop :=
  ∀ item now, m.input = .action item now → m.before.frames = [] → Restores item m.before.app now

/-- The callback of `Undo` or `Redo` throws. -/
def Throws (m : Moment (UndoManager σ) (Input σ)) : Prop :=
  ∃ left was, m.input = .throws left ∧ m.before.frames.head?.bind Frame.saved = some was

/-- A step along the history. -/
structure Lawful (t : Timeline σ) (m : Moment (UndoManager σ) (Input σ)) : Prop where
  position : m.after.app = (note t m).now
  records : m.after.frames = [] → Records Restores m.after.undoItems m.after.redoItems (note t m)
  nested : ∀ item now, m.input = .action item now → m.before.frames ≠ [] → m.after = m.before
  thrown : ∀ left undoItems redoItems, m.input = .throws left → m.before.frames.head?.bind Frame.saved = some (undoItems, redoItems) →
    m.after.undoItems = undoItems ∧ m.after.redoItems = redoItems

/-- The stacks record the timeline once the call on its way is taken back. -/
def Stands (t : Timeline σ) : List (Frame σ) → List (Item σ) → List (Item σ) → Prop
  | [], undoItems, redoItems => Records Restores undoItems redoItems t
  | .suppression :: frames, undoItems, redoItems => Stands t frames undoItems redoItems
  | .undoing item before after :: frames, undoItems, redoItems =>
    frames = [] ∧ before = item :: undoItems ∧ after = redoItems ∧ Records Restores before after t
  | .redoing item before after :: frames, undoItems, redoItems =>
    frames = [] ∧ before = undoItems ∧ after = item :: redoItems ∧ Records Restores before after t

structure Sound (m : UndoManager σ) (t : Timeline σ) : Prop where
  app : m.app = t.now
  refs : m.disableRefs = m.frames.length
  stands : Stands t m.frames m.undoItems m.redoItems

variable {m m' : UndoManager σ} {t : Timeline σ} {i : Input σ} {ms : List (Moment (UndoManager σ) (Input σ))} {app : σ}

theorem initial_sound (app : σ) : (initial app).Sound (start app) := ⟨rfl, rfl, records_start Restores app⟩

theorem Sound.records (sound : m.Sound t) (idle : m.frames = []) : Records Restores m.undoItems m.redoItems t := by
  have stands := sound.stands
  rwa [idle] at stands

theorem Sound.idle_iff (sound : m.Sound t) : m.disableRefs = 0 ↔ m.frames = [] := by
  rw [sound.refs, List.length_eq_zero_iff]

theorem addAction_idle (free : m.disableRefs = 0) (item : Item σ) :
    m.addAction item = { m with undoItems := (item :: m.undoItems).take kMaxUndo, redoItems := [] } :=
  if_pos (decide_eq_true free)

theorem addAction_nested (busy : m.disableRefs ≠ 0) (item : Item σ) : m.addAction item = m :=
  if_neg fun enabled => busy (of_decide_eq_true enabled)

/-- `Undo` is refused, has nothing to do, or takes the last action and calls back. -/
theorem undo_cases (sound : m.Sound t) : m.undo = m ∨ m.frames = [] ∧ ∃ item undoItems, m.undoItems = item :: undoItems ∧
    m.undo = { m with undoItems := undoItems, disableRefs := m.disableRefs + 1, frames := [.undoing item m.undoItems m.redoItems] } := by
  unfold undo
  split
  next => exact .inl rfl
  next free =>
    have idle := sound.idle_iff.mp (Decidable.not_not.mp free)
    split
    next => exact .inl rfl
    next item undoItems top =>
      have records := sound.records idle
      rw [top] at records
      obtain ⟨undo, -, known, -⟩ := records.back.1
      rw [if_pos (by rw [known]; rfl)]
      exact .inr ⟨idle, item, undoItems, top, by simp only [pushDisabled, idle]⟩

theorem redo_cases (sound : m.Sound t) : m.redo = m ∨ m.frames = [] ∧ ∃ item redoItems, m.redoItems = item :: redoItems ∧
    m.redo = { m with redoItems := redoItems, disableRefs := m.disableRefs + 1, frames := [.redoing item m.undoItems m.redoItems] } := by
  unfold redo
  split
  next => exact .inl rfl
  next free =>
    have idle := sound.idle_iff.mp (Decidable.not_not.mp free)
    split
    next => exact .inl rfl
    next item redoItems top =>
      have records := sound.records idle
      rw [top] at records
      obtain ⟨-, redo, -, known, -⟩ := records.forward.1
      rw [if_pos (by rw [known]; rfl)]
      exact .inr ⟨idle, item, redoItems, top, by simp only [pushDisabled, idle]⟩

theorem popDisabled_eq (m : UndoManager σ) : m.popDisabled = { m with disableRefs := m.disableRefs - 1 } := by
  obtain ⟨app, undoItems, redoItems, disableRefs, frames⟩ := m
  cases disableRefs with
  | zero => rfl
  | succ disableRefs => rfl

section

variable (sound : m.Sound t)
include sound

variable {frames : List (Frame σ)}

theorem Sound.resumes (top : m.frames = .suppression :: frames) :
    { m with frames := frames }.popDisabled.Sound t := by
  obtain ⟨app, refs, stands⟩ := sound
  rw [top] at refs stands
  rw [popDisabled_eq]
  exact ⟨app, congrArg (· - 1) refs, stands⟩

/-- The state an action's undo is called on is the one it restores from. -/
theorem Sound.undone {item : Item σ} {before after : List (Item σ)} (top : m.frames = .undoing item before after :: frames) :
    (m.apply item.undo item.undoData).app = t.back.now ∧ frames = [] ∧ Records Restores m.undoItems (item :: m.redoItems) t.back := by
  have stands := sound.stands
  rw [top] at stands
  obtain ⟨last, rfl, rfl, records⟩ := stands
  obtain ⟨⟨undo, redo, known, -, restores, -⟩, records⟩ := records.back
  refine ⟨?_, last, records⟩
  calc (m.apply item.undo item.undoData).app = undo item.undoData m.app := by rw [apply, known]; rfl
    _ = t.back.now := by rw [sound.app, restores]

theorem Sound.redone {item : Item σ} {before after : List (Item σ)} (top : m.frames = .redoing item before after :: frames) :
    (m.apply item.redo item.redoData).app = t.forward.now ∧ frames = [] ∧ Records Restores (item :: m.undoItems) m.redoItems t.forward := by
  have stands := sound.stands
  rw [top] at stands
  obtain ⟨last, rfl, rfl, records⟩ := stands
  obtain ⟨⟨undo, redo, -, known, -, restores⟩, records⟩ := records.forward
  refine ⟨?_, last, records⟩
  calc (m.apply item.redo item.redoData).app = redo item.redoData m.app := by rw [apply, known]; rfl
    _ = t.forward.now := by rw [sound.app, restores]

/-- One step keeps the two stacks and the history together. -/
theorem Sound.step (step : m.step i = some m') (restoring : Restoring ⟨m, i, m'⟩) (returns : ¬ Throws ⟨m, i, m'⟩) :
    m'.Sound (note t ⟨m, i, m'⟩) := by
  obtain ⟨app, undoItems, redoItems, disableRefs, frames⟩ := m
  cases i with
  | action item now =>
    cases frames with
    | nil =>
      have free : disableRefs = 0 := sound.refs
      have restores : Restores item t.now now := sound.app ▸ restoring item now rfl rfl
      cases (Option.some.inj step).symm.trans (addAction_idle free item)
      exact ⟨rfl, sound.refs, (sound.records rfl).record restores kMaxUndo⟩
    | cons frame frames =>
      have busy : disableRefs ≠ 0 := fun free => Nat.succ_ne_zero _ (sound.refs.symm.trans free)
      cases (Option.some.inj step).symm.trans (addAction_nested busy item)
      exact sound
  | undo =>
    cases Option.some.inj step
    rcases undo_cases sound with same | ⟨idle, item, undoItems, top, undone⟩
    · exact same.symm ▸ sound
    · rw [undone]
      exact ⟨sound.app, by rw [sound.refs, idle]; rfl, rfl, top, rfl, sound.records idle⟩
  | redo =>
    cases Option.some.inj step
    rcases redo_cases sound with same | ⟨idle, item, redoItems, top, redone⟩
    · exact same.symm ▸ sound
    · rw [redone]
      exact ⟨sound.app, by rw [sound.refs, idle]; rfl, rfl, rfl, top, sound.records idle⟩
  | suppress =>
    cases Option.some.inj step
    exact ⟨sound.app, congrArg (· + 1) sound.refs, sound.stands⟩
  | returns =>
    -- Only the call that came last returns, and it moves along the history unless it was a suppression.
    rcases frames with _ | ⟨_ | ⟨item, before, after⟩ | ⟨item, before, after⟩, frames⟩
    · cases step
    · cases Option.some.inj step
      exact sound.resumes rfl
    · obtain ⟨position, rfl, records⟩ := sound.undone rfl
      cases Option.some.inj step
      rw [popDisabled_eq]
      exact ⟨position, congrArg (· - 1) sound.refs, records⟩
    · obtain ⟨position, rfl, records⟩ := sound.redone rfl
      cases Option.some.inj step
      rw [popDisabled_eq]
      exact ⟨position, congrArg (· - 1) sound.refs, records⟩
  | throws left =>
    rcases frames with _ | ⟨_ | ⟨item, before, after⟩ | ⟨item, before, after⟩, frames⟩
    · cases step
    · cases Option.some.inj step
      exact sound.resumes rfl
    · exact absurd ⟨left, _, rfl, rfl⟩ returns
    · exact absurd ⟨left, _, rfl, rfl⟩ returns

theorem Sound.lawful (step : m.step i = some m') (restoring : Restoring ⟨m, i, m'⟩) (returns : ¬ Throws ⟨m, i, m'⟩) :
    Lawful t ⟨m, i, m'⟩ := by
  have next := sound.step step restoring returns
  refine ⟨next.app, fun idle => next.records idle, ?_, ?_⟩
  · rintro item now rfl busy
    have suppressed : m.disableRefs ≠ 0 := fun free => busy (sound.idle_iff.mp free)
    have nested : m.step (.action item now) = some (m.addAction item) := if_neg (by simpa using busy)
    exact Option.some.inj (step.symm.trans (nested.trans (congrArg some (addAction_nested suppressed item))))
  · exact fun left undoItems redoItems throws saved => absurd ⟨left, _, throws, saved⟩ returns

/-- The action that was being taken back, or done again, is in neither stack once its callback has thrown. -/
theorem Sound.not_lawful (step : m.step i = some m') (throws : Throws ⟨m, i, m'⟩) : ¬ Lawful t ⟨m, i, m'⟩ := by
  intro lawful
  obtain ⟨left, ⟨undoItems, redoItems⟩, rfl, saved⟩ := throws
  obtain ⟨undone, redone⟩ := lawful.thrown left undoItems redoItems rfl saved
  obtain ⟨app, _, _, disableRefs, frames⟩ := m
  have stands := sound.stands
  rcases frames with _ | ⟨_ | ⟨item, before, after⟩ | ⟨item, before, after⟩, frames⟩
  · cases saved
  · cases saved
  · cases Option.some.inj step
    cases saved
    rw [popDisabled_eq] at undone
    exact List.cons_ne_self _ _ (stands.2.1.symm.trans undone.symm)
  · cases Option.some.inj step
    cases saved
    rw [popDisabled_eq] at redone
    exact List.cons_ne_self _ _ (stands.2.2.1.symm.trans redone.symm)

theorem Sound.lawful_iff (run : Run (fun m i m' => m.step i = some m') m ms m') (restoring : ∀ m ∈ ms, Restoring m) :
    (∀ xs m ys, ms = xs ++ m :: ys → Lawful (xs.foldl note t) m) ↔ ∀ m ∈ ms, ¬ Throws m := by
  constructor
  · intro lawful
    induction run generalizing t with
    | nil m => exact fun _ member => nomatch member
    | @cons m _ m' i ms step run ih =>
      have returns : ¬ Throws ⟨m, i, _⟩ := fun throws => sound.not_lawful step throws (lawful [] _ ms rfl)
      have next := sound.step step (restoring _ List.mem_cons_self) returns
      have later := ih next (fun m member => restoring m (List.mem_cons_of_mem _ member))
        (fun xs m ys split => lawful (_ :: xs) m ys (congrArg (_ :: ·) split))
      exact List.forall_mem_cons.mpr ⟨returns, later⟩
  · intro returns
    induction run generalizing t with
    | nil m => exact fun xs _ _ split => absurd split (by simp)
    | @cons m _ m' i ms step run ih =>
      have restores := restoring _ List.mem_cons_self
      have returned := returns _ List.mem_cons_self
      intro xs m ys split
      cases xs with
      | nil =>
        cases split
        exact sound.lawful step restores returned
      | cons x xs =>
        cases split
        exact ih (sound.step step restores returned) (fun m member => restoring m (List.mem_cons_of_mem _ member))
          (fun m member => returns m (List.mem_cons_of_mem _ member)) xs m ys rfl

end

/-- The stacks walk the history in the runs where no callback throws, and in no other. -/
theorem walks_history_iff (app : σ) (ms : List (Moment (UndoManager σ) (Input σ))) (m : UndoManager σ)
    (run : Run (fun m i m' => m.step i = some m') (initial app) ms m) (restoring : ∀ m ∈ ms, Restoring m) :
    (∀ xs m ys, ms = xs ++ m :: ys → Lawful (xs.foldl note (start app)) m) ↔ ∀ m ∈ ms, ¬ Throws m :=
  (initial_sound app).lawful_iff run restoring

/-- An action that puts one number in the place of another. -/
def replaces (was now : Nat) : Item Nat := ⟨"", "", "", some fun _ _ => was, some fun _ _ => now⟩

theorem replaces_restores (was now : Nat) : Restores (replaces was now) was now := ⟨_, _, rfl, rfl, rfl, rfl⟩

theorem restoring_of_ne (other : ∀ item now, i ≠ .action item now) : Restoring ⟨m, i, m'⟩ :=
  fun item now recorded _ => absurd recorded (other item now)

theorem returns_of_ne (other : ∀ left, i ≠ .throws left) : ¬ Throws ⟨m, i, m'⟩ := fun ⟨left, _, throws, _⟩ => other left throws

theorem restoring_replaces {was now : Nat} {m m' : UndoManager Nat} (shown : m.app = was) :
    Restoring ⟨m, .action (replaces was now) now, m'⟩ := by
  rintro item now recorded _
  cases recorded
  exact shown ▸ replaces_restores was now

/-- An edit is undone and done again, and a callback tries to record another on the way. -/
theorem walks_back_and_forth : ∃ ms : List (Moment (UndoManager Nat) (Input Nat)),
    (∀ xs m ys, ms = xs ++ m :: ys → Lawful (xs.foldl note (start 0)) m) ∧
      ms.map (fun m => (m.after.app, m.after.undoItems.length)) = [(1, 1), (1, 0), (1, 0), (0, 0), (0, 0), (1, 1)] := by
  have run : Run (fun (m : UndoManager Nat) i m' => m.step i = some m') (initial 0) _ _ :=
    .cons (i := .action (replaces 0 1) 1) rfl <| .cons (i := .undo) rfl <| .cons (i := .action (replaces 1 2) 2) rfl <|
      .cons (i := .returns) rfl <| .cons (i := .redo) rfl <| .cons (i := .returns) rfl (.nil _)
  refine ⟨_, (walks_history_iff 0 _ _ run ?_).mpr ?_, rfl⟩
  · simp only [List.forall_mem_cons]
    exact ⟨restoring_replaces rfl, restoring_of_ne nofun, restoring_replaces rfl, restoring_of_ne nofun, restoring_of_ne nofun,
      restoring_of_ne nofun, nofun⟩
  · simp only [List.forall_mem_cons]
    exact ⟨returns_of_ne nofun, returns_of_ne nofun, returns_of_ne nofun, returns_of_ne nofun, returns_of_ne nofun,
      returns_of_ne nofun, nofun⟩

/-- An undo that throws has dropped the action it was to take back. -/
theorem not_always_walks_history : ¬ ∀ (app : Nat) (ms : List (Moment (UndoManager Nat) (Input Nat))) (m : UndoManager Nat),
    Run (fun m i m' => m.step i = some m') (initial app) ms m → (∀ m ∈ ms, Restoring m) →
      ∀ xs m ys, ms = xs ++ m :: ys → Lawful (xs.foldl note (start app)) m := by
  intro claimed
  have run : Run (fun (m : UndoManager Nat) i m' => m.step i = some m') (initial 0) _ _ :=
    .cons (i := .action (replaces 0 1) 1) rfl <| .cons (i := .undo) rfl <| .cons (i := .throws 1) rfl (.nil _)
  have lawful := claimed 0 _ _ run
  simp only [List.forall_mem_cons] at lawful
  have thrown := (lawful ⟨restoring_replaces rfl, restoring_of_ne nofun, restoring_of_ne nofun, nofun⟩ [_, _] _ [] rfl).thrown
    1 [replaces 0 1] [] rfl rfl
  exact nomatch thrown.1

end UndoManager

end Braidcast.Undo
