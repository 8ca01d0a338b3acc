import Braidcast.Lib.Json
import Braidcast.Lib.Lists
import Braidcast.Lib.Run

/-!
# The layout persister

`createLayoutPersister` with the page and the disk around it. A layout is the fields of a
serialized Dockview; JSON text is its fields, so two texts are equal when the fields are.

A write is issued, answered by the host and settled. The host answers writes in the order
they were issued, and one that succeeds is on disk from then on; its promise settles at any
later moment. The delay of a timer only says when it may expire, so an expiry is a step of
its own.
-/
namespace Braidcast.Docking

open Lib

/-- Only the arrangement decides whether a save is due. -/
def arrangement (layout : Fields) : Fields := layout.filter fun field => field.1 ≠ "activeGroup"

def SAVE_RETRIES : Nat := 6
def SAVE_RETRY_FIRST_MS : Nat := 1000
def SAVE_RETRY_MAX_MS : Nat := 30000
def delayMs : Nat := 250

/-- A save scheduled, with the retries made before it. -/
structure Timer where
  ms : Nat
  retries : Nat

/-- A write with what its flush holds until it settles. -/
structure LayoutWrite where
  /-- Its place in the order of issue. -/
  number : Nat
  layout : Fields
  forced : Bool
  gen : Nat
  retries : Nat

def LayoutWrite.key (w : LayoutWrite) : Fields := arrangement w.layout

structure Persister where
  armed : Bool
  gestures : Bool
  rewrite : Bool
  last : Option Fields
  timer : Option Timer
  generation : Nat
  -- the page and the host
  snapshot : Option Fields
  /-- Writes the host has not come to, oldest first. -/
  issued : List LayoutWrite
  /-- Writes the host answered that have not settled, with the answer. -/
  answered : List (LayoutWrite × Bool)
  disk : Option Fields
  -- kept for the statements only
  /-- How many writes were issued. -/
  writes : Nat
  /-- The write `last` was taken from, and the one on disk; 0 before any. -/
  lastFrom : Nat
  diskFrom : Nat
  /-- The retries of the last change ran out. -/
  exhausted : Bool

namespace Persister

/-- A persister just made, over what the page shows and what is saved. -/
def fresh (snapshot disk : Option Fields) : Persister :=
  { armed := false, gestures := false, rewrite := false, last := none, timer := none, generation := 0
    snapshot, issued := [], answered := [], disk, writes := 0, lastFrom := 0, diskFrom := 0, exhausted := false }

def schedule (p : Persister) (ms retries : Nat) : Persister := { p with timer := some ⟨ms, retries⟩ }

/-- `flush` up to its write. -/
def flush (p : Persister) (retries : Nat) : Persister :=
  match p.snapshot with
  | none => p
  | some layout =>
    if p.last = some (arrangement layout) ∧ p.rewrite = false then p
    else
      { p with
        issued := p.issued ++ [⟨p.writes + 1, layout, p.rewrite, p.generation, retries⟩]
        writes := p.writes + 1 }

/-- The rest of `flush`, once its write succeeded. -/
def saved (p : Persister) (w : LayoutWrite) : Persister :=
  { p with
    last := some w.key
    rewrite := if w.forced then false else p.rewrite
    lastFrom := w.number }

/-- The rest of `flush`, once its write failed. -/
def failed (p : Persister) (w : LayoutWrite) : Persister :=
  if w.gen = p.generation then
    if w.retries < SAVE_RETRIES then
      p.schedule (min SAVE_RETRY_MAX_MS (SAVE_RETRY_FIRST_MS * 2 ^ w.retries)) (w.retries + 1)
    else { p with exhausted := true }
  else p

def armFromGesture (p : Persister) : Persister := if p.gestures then { p with armed := true } else p
def armExplicit (p : Persister) : Persister := { p with armed := true }
def armRewrite (p : Persister) : Persister := { p with armed := true, rewrite := true }
def allowGestures (p : Persister) : Persister := { p with gestures := true }

/-- Takes the layout as it stands as the one on disk. -/
def settle (p : Persister) : Persister := { p with last := p.snapshot.map arrangement }

/-- Dockview reported a change that left this on screen. -/
def changed (p : Persister) (snapshot : Option Fields) : Persister :=
  if p.armed then
    { p with snapshot, generation := p.generation + 1, exhausted := false }.schedule delayMs 0
  else { p with snapshot }

/-! ### Steps -/

inductive LayoutEvent where
  | armFromGesture
  | armExplicit
  | armRewrite
  | allowGestures
  | changed (snapshot : Option Fields)
  | expire
  /-- The host comes to the oldest write it has not answered. -/
  | answer (success : Bool)
  /-- The answered write at this place settles. -/
  | settled (place : Nat)

def expire (p : Persister) : Option Persister :=
  p.timer.map fun timer => { p with timer := none }.flush timer.retries

def answer (p : Persister) (success : Bool) : Option Persister :=
  match p.issued with
  | [] => none
  | w :: rest =>
    some { p with
      issued := rest
      answered := p.answered ++ [(w, success)]
      disk := if success then some w.layout else p.disk
      diskFrom := if success then w.number else p.diskFrom }

def settled (p : Persister) (place : Nat) : Option Persister :=
  p.answered[place]?.map fun answered =>
    let p := { p with answered := p.answered.eraseIdx place }
    if answered.2 then p.saved answered.1 else p.failed answered.1

def step (p : Persister) : LayoutEvent → Option Persister
  | .armFromGesture => some p.armFromGesture
  | .armExplicit => some p.armExplicit
  | .armRewrite => some p.armRewrite
  | .allowGestures => some p.allowGestures
  | .changed snapshot => some (p.changed snapshot)
  | .expire => p.expire
  | .answer success => p.answer success
  | .settled place => p.settled place

/-- Nothing more will happen on its own. -/
def AtRest (p : Persister) : Prop := p.timer = none ∧ p.issued = [] ∧ p.answered = []

instance (p : Persister) : Decidable p.AtRest := inferInstanceAs (Decidable (_ ∧ _))

/-- What is on screen is on disk. -/
def Saved (p : Persister) : Prop :=
  p.snapshot = none ∨ p.disk.map arrangement = p.snapshot.map arrangement

instance (p : Persister) : Decidable p.Saved := inferInstanceAs (Decidable (_ ∨ _))

/-! ### What is on disk and what `last` says -/

/-- `last` is the arrangement on disk, or the write on disk has yet to settle. -/
structure Tracked (p : Persister) : Prop where
  current : p.lastFrom = p.diskFrom → p.last = p.disk.map arrangement
  behind : p.lastFrom ≠ p.diskFrom → ∃ w, (w, true) ∈ p.answered ∧ w.number = p.diskFrom
  /-- The write on disk is the newest that succeeded. -/
  newest : ∀ w, (w, true) ∈ p.answered →
    w.number ≤ p.diskFrom ∧ (w.number = p.diskFrom → p.disk.map arrangement = some w.key)
  fromLast : p.lastFrom ≤ p.diskFrom
  order : p.issued.Pairwise fun a b => a.number < b.number
  later : ∀ w ∈ p.issued, p.diskFrom < w.number ∧ w.number ≤ p.writes
  written : p.diskFrom ≤ p.writes

/-- What is on screen is on disk for good, or something still to come saves it. -/
def Pursued (p : Persister) : Prop :=
  p.exhausted ∨ p.timer.isSome ∨ p.snapshot = none ∨
    (∃ before w, p.issued = before ++ [w] ∧ w.gen = p.generation ∧ p.snapshot = some w.layout) ∨
    (p.issued = [] ∧ ∃ w, (w, false) ∈ p.answered ∧ w.gen = p.generation) ∨
    (p.issued = [] ∧ p.disk.map arrangement = p.snapshot.map arrangement)

/-- The armed persister keeps both. -/
structure Converging (p : Persister) : Prop where
  armed : p.armed = true
  tracked : p.Tracked
  pursued : p.Pursued

/-- A flush is skipped only with no write on its way, and a write that succeeded settles
before every later one that did. -/
def InTurn (m : Moment Persister LayoutEvent) : Prop :=
  match m.input with
  | .expire =>
    m.before.last = m.before.snapshot.map arrangement → m.before.rewrite = false →
      m.before.issued = [] ∧ m.before.answered = []
  | .settled place =>
    ∀ w, m.before.answered[place]? = some (w, true) → m.before.lastFrom < w.number
  | _ => True

variable {p q : Persister}

theorem Converging.saved_at_rest (converging : p.Converging) (rest : p.AtRest) (retries : p.exhausted = false) :
    p.Saved := by
  obtain ⟨quiet, unissued, unanswered⟩ := rest
  rcases converging.pursued with out | timer | absent | ⟨before, w, issued, -⟩ | ⟨-, w, owed, -⟩ | ⟨-, same⟩
  · simp [out] at retries
  · simp [quiet] at timer
  · exact .inl absent
  · simp [unissued] at issued
  · simp [unanswered] at owed
  · exact .inr same

/-- What is neither written nor on disk does not matter to it. -/
theorem Tracked.aside (tracked : p.Tracked) (armed gestures rewrite : Bool) (timer : Option Timer) (generation : Nat)
    (snapshot : Option Fields) (exhausted : Bool) :
    { p with armed, gestures, rewrite, timer, generation, snapshot, exhausted }.Tracked :=
  ⟨tracked.current, tracked.behind, tracked.newest, tracked.fromLast, tracked.order, tracked.later, tracked.written⟩

theorem Converging.changed (converging : p.Converging) (snapshot : Option Fields) :
    (p.changed snapshot).Converging := by
  obtain ⟨armed, tracked, -⟩ := converging
  rw [Persister.changed, if_pos armed]
  exact ⟨armed, tracked.aside .., .inr (.inl rfl)⟩

/-- A skipped flush found `last` on disk; one that is not skipped issues the newest write. -/
theorem Converging.expire (converging : p.Converging) (step : p.expire = some q)
    (turn : p.last = p.snapshot.map arrangement → p.rewrite = false → p.issued = [] ∧ p.answered = []) :
    q.Converging := by
  obtain ⟨armed, tracked, -⟩ := converging
  obtain ⟨timer, -, rfl⟩ := Option.map_eq_some_iff.mp step
  unfold flush
  dsimp only
  split
  next absent => exact ⟨armed, tracked.aside .., .inr (.inr (.inl absent))⟩
  next layout shown =>
    split
    next skipped =>
      obtain ⟨unissued, unanswered⟩ := turn (by rw [shown]; exact skipped.1) skipped.2
      -- with nothing on its way, the write on disk has settled
      have level : p.lastFrom = p.diskFrom := by
        by_contra apart
        obtain ⟨w, member, -⟩ := tracked.behind apart
        simp [unanswered] at member
      refine ⟨armed, tracked.aside .., .inr (.inr (.inr (.inr (.inr ⟨unissued, ?_⟩))))⟩
      rw [← tracked.current level, shown]
      exact skipped.1
    next due =>
      refine ⟨armed, ⟨tracked.current, tracked.behind, tracked.newest, tracked.fromLast, ?_, ?_, ?_⟩,
        .inr (.inr (.inr (.inl ⟨p.issued, _, rfl, rfl, shown⟩)))⟩
      · refine List.pairwise_append.mpr ⟨tracked.order, List.pairwise_singleton _ _, fun a member b newest => ?_⟩
        rw [List.mem_singleton.mp newest]
        exact Nat.lt_succ_of_le (tracked.later a member).2
      · intro w member
        rcases List.mem_append.mp member with old | new
        · exact ⟨(tracked.later w old).1, Nat.le_succ_of_le (tracked.later w old).2⟩
        · rw [List.mem_singleton.mp new]
          exact ⟨Nat.lt_succ_of_le tracked.written, le_rfl⟩
      · exact Nat.le_succ_of_le tracked.written

theorem Tracked.answer (tracked : p.Tracked) {success : Bool} (step : p.answer success = some q) : q.Tracked := by
  simp only [Persister.answer] at step
  split at step
  · cases step
  next w rest issued =>
    cases step
    obtain ⟨current, behind, newest, fromLast, order, later, written⟩ := tracked
    rw [issued] at order later
    obtain ⟨first, order⟩ := List.pairwise_cons.mp order
    have here := later w List.mem_cons_self
    have rest' : ∀ v ∈ rest, w.number < v.number ∧ v.number ≤ p.writes := fun v member =>
      ⟨first v member, (later v (List.mem_cons_of_mem _ member)).2⟩
    cases success with
    | false =>
      refine ⟨current, fun apart => ?_, fun v member => ?_, fromLast, order,
        fun v member => later v (List.mem_cons_of_mem _ member), written⟩
      · obtain ⟨v, member, same⟩ := behind apart
        exact ⟨v, List.mem_append_left _ member, same⟩
      · rcases List.mem_append.mp member with old | new
        · exact newest v old
        · simp at new
    | true =>
      -- the write is newer than everything answered so far
      refine ⟨fun level => absurd level (by simp; omega), fun _ => ⟨w, by simp, rfl⟩, fun v member => ?_, ?_, order,
        rest', here.2⟩
      · rcases List.mem_append.mp member with old | new
        · have older := (newest v old).1
          exact ⟨by simp; omega, fun same => absurd same (by simp; omega)⟩
        · obtain rfl : v = w := by simpa using new
          exact ⟨le_rfl, fun _ => rfl⟩
      · simp
        omega

theorem Pursued.answer (pursued : p.Pursued) {success : Bool} (step : p.answer success = some q) : q.Pursued := by
  simp only [Persister.answer] at step
  split at step
  · cases step
  next w rest issued =>
    cases step
    rcases pursued with out | timer | absent | ⟨before, v, last, gen, shown⟩ | ⟨none, -⟩ | ⟨none, -⟩
    · exact .inl out
    · exact .inr (.inl timer)
    · exact .inr (.inr (.inl absent))
    · cases before with
      | nil =>
        -- the newest write itself is answered
        obtain ⟨rfl, rfl⟩ : w = v ∧ rest = [] := by simpa [issued] using last
        cases success with
        | false => exact .inr (.inr (.inr (.inr (.inl ⟨rfl, w, by simp, gen⟩))))
        | true => exact .inr (.inr (.inr (.inr (.inr ⟨rfl, by simp [shown]⟩))))
      | cons u before =>
        obtain ⟨rfl, rfl⟩ : w = u ∧ rest = before ++ [v] := by simpa [issued] using last
        exact .inr (.inr (.inr (.inl ⟨before, v, rfl, gen, shown⟩)))
    · simp [issued] at none
    · simp [issued] at none

theorem Converging.settled (converging : p.Converging) {place : Nat} (step : p.settled place = some q)
    (turn : ∀ w, p.answered[place]? = some (w, true) → p.lastFrom < w.number) : q.Converging := by
  obtain ⟨armed, tracked, pursued⟩ := converging
  obtain ⟨⟨w, success⟩, there, rfl⟩ := Option.map_eq_some_iff.mp step
  have member : (w, success) ∈ p.answered := List.mem_of_getElem? there
  have fewer : ∀ v, v ∈ p.answered.eraseIdx place → v ∈ p.answered := fun v => List.mem_of_mem_eraseIdx
  obtain ⟨current, behind, newest, fromLast, order, later, written⟩ := tracked
  cases success with
  | true =>
    have ahead := turn w there
    obtain ⟨older, onDisk⟩ := newest w member
    refine ⟨armed, ⟨fun level => (onDisk level).symm, fun apart => ?_, fun v kept => newest v (fewer _ kept), older,
      order, later, written⟩, ?_⟩
    · obtain ⟨v, held, same⟩ := behind (by omega)
      refine ⟨v, mem_eraseIdx_of_ne there held ?_, same⟩
      rintro ⟨⟩
      exact apart same
    · rcases pursued with out | timer | absent | coming | ⟨none, v, owed, gen⟩ | same
      · exact .inl out
      · exact .inr (.inl timer)
      · exact .inr (.inr (.inl absent))
      · exact .inr (.inr (.inr (.inl coming)))
      · exact .inr (.inr (.inr (.inr (.inl ⟨none, v, mem_eraseIdx_of_ne there owed (by simp), gen⟩))))
      · exact .inr (.inr (.inr (.inr (.inr same))))
  | false =>
    have tracked' : { p with answered := p.answered.eraseIdx place }.Tracked := by
      refine ⟨current, fun apart => ?_, fun v kept => newest v (fewer _ kept), fromLast, order, later, written⟩
      obtain ⟨v, held, same⟩ := behind apart
      exact ⟨v, mem_eraseIdx_of_ne there held (by simp), same⟩
    simp only [Bool.false_eq_true, if_false]
    simp only [failed]
    split
    next gen =>
      split
      · exact ⟨armed, tracked'.aside .., .inr (.inl rfl)⟩
      · exact ⟨armed, tracked'.aside .., .inl rfl⟩
    next stale =>
      refine ⟨armed, tracked', ?_⟩
      rcases pursued with out | timer | absent | coming | ⟨none, v, owed, gen⟩ | same
      · exact .inl out
      · exact .inr (.inl timer)
      · exact .inr (.inr (.inl absent))
      · exact .inr (.inr (.inr (.inl coming)))
      · refine .inr (.inr (.inr (.inr (.inl ⟨none, v, mem_eraseIdx_of_ne there owed ?_, gen⟩))))
        rintro ⟨⟩
        exact stale gen
      · exact .inr (.inr (.inr (.inr (.inr same))))

theorem Converging.step (converging : p.Converging) {event : LayoutEvent} (turn : InTurn ⟨p, event, q⟩)
    (step : p.step event = some q) : q.Converging := by
  obtain ⟨armed, tracked, pursued⟩ := converging
  cases event with
  | armFromGesture =>
    obtain rfl : p.armFromGesture = q := Option.some.inj step
    simp only [Persister.armFromGesture]
    split
    · exact ⟨rfl, tracked.aside .., pursued⟩
    · exact ⟨armed, tracked, pursued⟩
  | armExplicit =>
    obtain rfl : p.armExplicit = q := Option.some.inj step
    exact ⟨rfl, tracked.aside .., pursued⟩
  | armRewrite =>
    obtain rfl : p.armRewrite = q := Option.some.inj step
    exact ⟨rfl, tracked.aside .., pursued⟩
  | allowGestures =>
    obtain rfl : p.allowGestures = q := Option.some.inj step
    exact ⟨armed, tracked.aside .., pursued⟩
  | changed snapshot =>
    obtain rfl : p.changed snapshot = q := Option.some.inj step
    exact Converging.changed ⟨armed, tracked, pursued⟩ snapshot
  | expire => exact Converging.expire ⟨armed, tracked, pursued⟩ step turn
  | answer success =>
    have still : q.armed = p.armed := by
      have answered : p.answer success = some q := step
      simp only [Persister.answer] at answered
      split at answered <;> cases answered
      rfl
    exact ⟨still.trans armed, tracked.answer step, pursued.answer step⟩
  | settled place => exact Converging.settled ⟨armed, tracked, pursued⟩ step turn

/-- The persister as the page leaves it after a restore, armed. -/
def start (layout disk : Fields) : Persister := (fresh (some layout) (some disk)).settle.armExplicit

theorem start_converging {layout disk : Fields} (same : arrangement layout = arrangement disk) :
    (start layout disk).Converging :=
  ⟨rfl, ⟨fun _ => by simp [start, fresh, settle, armExplicit, same], fun apart => absurd rfl apart,
    by simp [start, fresh, settle, armExplicit], le_rfl, .nil, by simp [start, fresh, settle, armExplicit], le_rfl⟩,
    .inr (.inr (.inr (.inr (.inr ⟨rfl, by simp [start, fresh, settle, armExplicit, same]⟩))))⟩

end Persister

/-! ### Whole runs -/

open Persister

def LayoutStep (p : Persister) (event : LayoutEvent) (q : Persister) : Prop := p.step event = some q

/-- The persister converges to what is on screen, in every run in which no flush is skipped
while a write is on its way and no success settles behind a later one. -/
theorem layout_converges {layout disk : Fields} (same : arrangement layout = arrangement disk)
    {ms : List (Moment Persister LayoutEvent)} {p : Persister} (run : Run LayoutStep (start layout disk) ms p)
    (turns : ∀ m ∈ ms, InTurn m) :
    (p.AtRest → p.exhausted = false → p.Saved) ∧
      ∀ m ∈ ms, m.after.AtRest → m.after.exhausted = false → m.after.Saved := by
  obtain ⟨last, each⟩ := run.invariant (P := Converging) (fun m turn step converging => converging.step turn step)
    turns (start_converging same)
  exact ⟨last.saved_at_rest, fun m member => (each m member).2.saved_at_rest⟩

/-- A layout with this grid and focus. -/
def gridLayout (grid focus : String) : Fields := [("activeGroup", .str focus), ("grid", .str grid)]

/-- A change is saved on the second attempt. -/
def savedOnRetry : List LayoutEvent :=
  [.changed (some (gridLayout "b" "2")), .expire, .answer false, .settled 0, .expire, .answer true, .settled 0]

theorem layout_converges_retried :
    ∃ ms p, Run LayoutStep (start (gridLayout "a" "1") (gridLayout "a" "2")) ms p ∧ p.AtRest ∧
      p.disk = some (gridLayout "b" "2") ∧ p.Saved := by
  obtain ⟨ms, p, run, shown⟩ := exists_run_of_follow Persister.step
    (start (gridLayout "a" "1") (gridLayout "a" "2")) savedOnRetry
    (fun ms p => decide (p.AtRest ∧ p.exhausted = false ∧ p.disk = some (gridLayout "b" "2")) &&
      ms.all fun m => match m.input with
        | .expire => decide (m.before.last ≠ m.before.snapshot.map arrangement)
        | .settled place => decide (m.before.lastFrom = 0 ∧
          ∀ answered ∈ m.before.answered[place]?, 0 < answered.1.number)
        | _ => true)
    (by decide)
  simp only [Bool.and_eq_true, decide_eq_true_eq, List.all_eq_true] at shown
  obtain ⟨⟨rest, retries, onDisk⟩, due⟩ := shown
  refine ⟨ms, p, run, rest, onDisk, (layout_converges (by decide) run fun m member => ?_).1 rest retries⟩
  have here := due m member
  simp only [InTurn]
  split
  next fired =>
    simp only [fired, decide_eq_true_eq] at here
    exact fun level => absurd level here
  next place settles =>
    simp only [settles, decide_eq_true_eq] at here
    intro w there
    rw [here.1]
    exact here.2 _ there
  · trivial

/-- A change is taken back while its write is on its way. -/
def takenBack : List LayoutEvent :=
  [.changed (some (gridLayout "b" "1")), .expire, .changed (some (gridLayout "a" "1")), .expire, .answer true,
    .settled 0]

theorem layout_left_behind :
    ¬∀ (layout disk : Fields) (ms : List (Moment Persister LayoutEvent)) (p : Persister),
      arrangement layout = arrangement disk → Run LayoutStep (start layout disk) ms p →
      p.AtRest → p.exhausted = false → p.Saved := by
  intro law
  obtain ⟨ms, p, run, shown⟩ := exists_run_of_follow Persister.step
    (start (gridLayout "a" "1") (gridLayout "a" "1")) takenBack
    (fun _ p => decide (p.AtRest ∧ p.exhausted = false ∧ ¬ p.Saved)) (by decide)
  obtain ⟨rest, retries, behind⟩ := of_decide_eq_true shown
  exact behind (law _ _ ms p rfl run rest retries)

end Braidcast.Docking
