import Braidcast.History.Recorder

/-!
# Begin, all or nothing

`Begin` writes a row per destination with no transaction around them. Exactly where none of these
writes throws it leaves nothing of a session it did not open, and then the bindings are always
those of the session that is recording.
-/
namespace Braidcast.History

open Lib

namespace Recorder

/-- A `Begin` that returns no id leaves no row and no binding that was not there. -/
def AllOrNothing (m : Moment Recorder Input) : Prop :=
  ∀ c, m.input = .begin_ c → (m.before.begin_ c).2 = "" →
    m.after.db.sessions ⊆ m.before.db.sessions ∧ m.after.db.destinations ⊆ m.before.db.destinations ∧
      m.after.bindings = m.before.bindings

/-- An `OnDestinationEnded` leaves every destination row of another session as it was, and outside a session every
row. -/
def Confined (m : Moment Recorder Input) : Prop :=
  ∀ bindingUuid finalState error thrown, m.input = .destinationEnded bindingUuid finalState error thrown →
    ∀ (i : Nat) (row : SessionDestination), m.before.db.destinations[i]? = some row →
      (row.sessionId = m.before.currentId → m.before.isRecording = false) → m.after.db.destinations[i]? = some row

/-- A destination row's write throws: the session's own, number 0, went through. -/
def DestinationThrows (m : Moment Recorder Input) : Prop :=
  ∃ c k, m.input = .begin_ c ∧ m.before.attached = true ∧ m.before.isRecording = false ∧ c.thrown.map (·.1) = some (k + 1) ∧
    k < c.start.destinations.length

/-- What the loop over the destinations leaves bound, it has written under the session. -/
def BoundTo (r : Recorder) (sessionId : String) : Prop :=
  ∀ uuid rowId, r.bindings uuid = some rowId → ∀ row ∈ r.db.destinations, row.id = rowId → row.sessionId = sessionId

/-! ### The loop -/

section

variable {r r' : Recorder} {sessionId : String} {now : Int} {rows : List (DestinationRecord × String)} {left : Option Nat}

/-- The loop is cut short by a throw within its writes. -/
theorem writeDestinations_false :
    (writeDestinations sessionId now r rows left).2 = false ↔ ∃ k, left = some k ∧ k < rows.length := by
  induction rows generalizing r left with
  | nil => simp [writeDestinations]
  | cons row rows ih =>
    unfold writeDestinations
    split
    · simp
    · next other =>
      rw [ih]
      cases left with
      | none => simp
      | some k =>
        cases k with
        | zero => exact (other rfl).elim
        | succ k => simp

theorem writeDestinations_sessions : (writeDestinations sessionId now r rows left).1.db.sessions = r.db.sessions := by
  induction rows generalizing r left with
  | nil => rfl
  | cons row rows ih =>
    unfold writeDestinations
    split
    · rfl
    · exact ih

theorem BoundTo.bind (bound : r.BoundTo sessionId) (uuid : String) {row : SessionDestination} (its : row.sessionId = sessionId) :
    ({ r with bindings := Function.update r.bindings uuid (some row.id), db := r.db.replaceDestination row } :
      Recorder).BoundTo sessionId := by
  intro other rowId known row' member same
  rcases List.mem_append.mp member with old | new
  · obtain ⟨old, apart⟩ := List.mem_filter.mp old
    have apart : row'.id ≠ row.id := of_decide_eq_true apart
    dsimp only at known
    by_cases here : other = uuid
    · rw [here, Function.update_self, Option.some.injEq] at known
      exact absurd (same.trans known.symm) apart
    · rw [Function.update_of_ne here] at known
      exact bound other rowId known row' old same
  · rw [List.mem_singleton.mp new, its]

theorem BoundTo.writeDestinations (bound : r.BoundTo sessionId) (done : (writeDestinations sessionId now r rows left).2 = true) :
    (writeDestinations sessionId now r rows left).1.BoundTo sessionId := by
  induction rows generalizing r left with
  | nil => exact bound
  | cons row rows ih =>
    obtain ⟨d, rowId⟩ := row
    unfold Recorder.writeDestinations at done ⊢
    split at done
    · cases done
    · exact ih (bound.bind d.bindingUuid rfl) done

end

/-! ### Steps -/

section

variable {r r' : Recorder} {c : BeginCall} {input : Input}

/-- Outside a session nothing is bound, and inside one only rows of its own. -/
structure Bound (r : Recorder) : Prop where
  idle : r.isRecording = false → r.bindings = fun _ => none
  mine : r.BoundTo r.currentId

theorem bound_of_unbound (unbound : r.bindings = fun _ => none) : r.Bound := by
  refine ⟨fun _ => unbound, fun uuid rowId known => ?_⟩
  rw [unbound] at known
  cases known

/-- A step that keeps the session, the bindings and every row's session. -/
theorem Bound.same (bound : r.Bound) (current : r'.currentId = r.currentId) (bindings : r'.bindings = r.bindings)
    (rows : ∀ row ∈ r'.db.destinations, ∃ old ∈ r.db.destinations, old.id = row.id ∧ old.sessionId = row.sessionId) :
    r'.Bound := by
  constructor
  · intro idle
    rw [bindings]
    exact bound.idle (by simpa [isRecording, current] using idle)
  · intro uuid rowId known row member same
    obtain ⟨old, member, ids, sessions⟩ := rows row member
    rw [← sessions, current]
    exact bound.mine uuid rowId (bindings ▸ known) old member (ids.trans same)

/-- What a call that opens no session leaves, by where it stopped. -/
theorem begin_cases (draws : Draws r.db c) : r.begin_ c = (r, "") ∨
    (∃ what, r.begin_ c = ({ r with lastError := what }, "")) ∨
    (r.attached = true ∧ r.isRecording = false ∧ c.thrown.map (·.1) ≠ some 0 ∧
      ((r.writeRows c).2 = true ∧ r.begin_ c =
          ({ (r.writeRows c).1 with
            currentId := c.id, startedAtMs := c.start.startedAtMs, havePersisted := false, lastError := "" }, c.id) ∨
        (r.writeRows c).2 = false ∧ r.begin_ c = ({ (r.writeRows c).1 with lastError := c.what }, "") ∧
          ∃ k, c.thrown.map (·.1) = some (k + 1) ∧ k < c.start.destinations.length)) := by
  unfold begin_
  split
  · exact .inl rfl
  next open_ =>
  obtain ⟨attached, idle⟩ : r.attached = true ∧ r.isRecording = false := by simpa using open_
  split
  · exact .inr (.inl ⟨_, rfl⟩)
  next unthrown =>
  refine .inr (.inr ⟨attached, idle, unthrown, ?_⟩)
  split
  · next done => exact .inl ⟨done, rfl⟩
  · next cut =>
    have cut : (r.writeRows c).2 = false := by simpa using cut
    obtain ⟨k, left, within⟩ := writeDestinations_false.mp cut
    refine .inr ⟨cut, rfl, k, ?_, ?_⟩
    · obtain ⟨⟨n, what⟩, thrown, rfl⟩ := Option.map_eq_some_iff.mp left
      cases n with
      | zero => exact absurd (by simp [thrown]) unthrown
      | succ n => simp [thrown]
    · rw [List.length_zip, draws.2.2.2.1, Nat.min_self] at within
      exact within

theorem begin_of_throws (draws : Draws r.db c) (attached : r.attached = true) (idle : r.isRecording = false) {k : Nat}
    (thrown : c.thrown.map (·.1) = some (k + 1)) (within : k < c.start.destinations.length) :
    r.begin_ c = ({ (r.writeRows c).1 with lastError := c.what }, "") := by
  have cut : (r.writeRows c).2 = false := by
    refine writeDestinations_false.mpr ⟨k, ?_, ?_⟩
    · obtain ⟨t, whole, number⟩ := Option.map_eq_some_iff.mp thrown
      simp [whole, number]
    · rw [List.length_zip, draws.2.2.2.1, Nat.min_self]
      exact within
  unfold begin_
  rw [if_neg (by simp [attached, idle]), if_neg (by simp [thrown]), if_neg (by simp [cut])]

/-- A throw of a destination row's write leaves the session's row behind, and no other throw leaves anything. -/
theorem allOrNothing_iff (step : Step r input r') : AllOrNothing ⟨r, input, r'⟩ ↔ ¬DestinationThrows ⟨r, input, r'⟩ := by
  constructor
  · rintro whole ⟨c, k, began, attached, idle, thrown, within⟩
    cases began
    obtain ⟨draws, taken⟩ := Option.ite_none_right_eq_some.mp step
    have same := begin_of_throws draws attached idle thrown within
    have after : r' = (r.begin_ c).1 := (Option.some.inj taken).symm
    obtain ⟨sessions, -⟩ := whole c rfl (congrArg Prod.snd same)
    have kept : sessionOf c.start c.id c.now ∈ r'.db.sessions := by
      rw [after, same]
      dsimp only [writeRows]
      rw [writeDestinations_sessions]
      exact List.mem_append_right _ (List.mem_singleton_self _)
    exact draws.2.1 (List.mem_map_of_mem (sessions kept))
  · rintro whole c began nothing
    cases began
    obtain ⟨draws, taken⟩ := Option.ite_none_right_eq_some.mp step
    have after : r' = (r.begin_ c).1 := (Option.some.inj taken).symm
    dsimp only at nothing ⊢
    rcases begin_cases draws with same | ⟨what, same⟩ | ⟨attached, idle, -, ⟨-, same⟩ | ⟨-, same, k, thrown, within⟩⟩
    · rw [after, same]
      exact ⟨List.Subset.refl _, List.Subset.refl _, rfl⟩
    · rw [after, same]
      exact ⟨List.Subset.refl _, List.Subset.refl _, rfl⟩
    · rw [same] at nothing
      exact absurd nothing draws.1
    · exact absurd ⟨c, k, rfl, attached, idle, thrown, within⟩ whole

theorem Bound.begin_ (bound : r.Bound) (draws : Draws r.db c) (whole : ¬DestinationThrows ⟨r, .begin_ c, (r.begin_ c).1⟩) :
    (r.begin_ c).1.Bound := by
  rcases begin_cases draws with same | ⟨what, same⟩ | ⟨attached, idle, -, ⟨done, same⟩ | ⟨-, -, k, thrown, within⟩⟩
  · rw [same]
    exact bound
  · rw [same]
    exact bound.same rfl rfl fun row member => ⟨row, member, rfl, rfl⟩
  · rw [same]
    refine ⟨fun unopened => ?_, ?_⟩
    · exact absurd (of_decide_eq_false unopened) (not_not.mpr draws.1)
    -- nothing was bound when the loop began
    · refine BoundTo.writeDestinations (fun uuid rowId known => ?_) done
      rw [bound.idle idle] at known
      cases known
  · exact absurd ⟨c, k, rfl, attached, idle, thrown, within⟩ whole

theorem Bound.step (bound : r.Bound) (step : Step r input r') (whole : ¬DestinationThrows ⟨r, input, r'⟩) : r'.Bound := by
  cases input with
  | attach thrown =>
    cases step
    cases thrown <;> exact bound_of_unbound rfl
  | detach =>
    cases step
    exact bound_of_unbound rfl
  | begin_ c =>
    obtain ⟨draws, taken⟩ := Option.ite_none_right_eq_some.mp step
    cases taken
    exact bound.begin_ draws whole
  | sample sample thrown =>
    cases step
    unfold onSample
    split
    · cases thrown <;> exact bound.same rfl rfl fun row member => ⟨row, member, rfl, rfl⟩
    · exact bound
  | destinationEnded bindingUuid finalState error thrown =>
    cases step
    unfold onDestinationEnded
    split
    · exact bound
    · split
      · exact bound
      · exact bound.same rfl rfl fun row member => ⟨row, member, rfl, rfl⟩
      · refine bound.same rfl rfl fun row member => ?_
        obtain ⟨old, there, rfl⟩ := List.mem_map.mp member
        exact ⟨old, there, by split <;> rfl, by split <;> rfl⟩
  | end_ endedAtMs reason thrown =>
    cases step
    unfold end_
    split
    · exact bound
    · exact bound_of_unbound rfl
  | setThumbnail relPath thrown =>
    cases step
    unfold setThumbnail updateSession
    split
    · exact bound
    · cases thrown <;> exact bound.same rfl rfl fun row member => ⟨row, member, rfl, rfl⟩

/-- An update reaches the rows of the session that is recording. -/
theorem Bound.confined (bound : r.Bound) (step : Step r input r') : Confined ⟨r, input, r'⟩ := by
  rintro bindingUuid finalState error thrown ended i row here others
  cases ended
  cases step
  dsimp only at here others ⊢
  unfold onDestinationEnded
  split
  · exact here
  next open_ =>
  obtain ⟨-, recording⟩ : r.attached = true ∧ r.isRecording = true := by simpa using open_
  split
  · exact here
  · exact here
  next rowId known =>
  have apart : row.id ≠ rowId := by
    intro same
    have idle := others (bound.mine bindingUuid rowId known row (List.mem_of_getElem? here) same)
    rw [recording] at idle
    cases idle
  rw [List.getElem?_map, here, Option.map_some, if_neg apart]

end

/-! ### Whole runs -/

/-- A `Begin` is all or nothing exactly where no destination row's write throws; and where none throws in a run,
every `OnDestinationEnded` of the run keeps to the session that is recording. -/
theorem begin_all_or_nothing {db : Tables} {ms : List (Moment Recorder Input)} {r : Recorder}
    (run : Run Step (fresh db) ms r) : (∀ m ∈ ms, AllOrNothing m ↔ ¬DestinationThrows m) ∧
      ((∀ m ∈ ms, ¬DestinationThrows m) → ∀ m ∈ ms, Confined m) := by
  refine ⟨fun m member => allOrNothing_iff (run.step_of_mem member), fun whole m member => ?_⟩
  have each := (run.invariant (P := Bound) (fun m whole step bound => bound.step step whole) whole (bound_of_unbound rfl)).2
  exact (each m member).1.confined (run.step_of_mem member)

def twoDestinations : SessionStart := ⟨0, "", "", [], [{ bindingUuid := "b1" }, { bindingUuid := "b2" }]⟩

def oneDestination : SessionStart := ⟨0, "", "", [], [{ bindingUuid := "b2" }]⟩

/-- A session with one destination, and its ending. -/
theorem begin_all_or_nothing_whole : ∃ ms r, Run Step (fresh {}) ms r ∧ (∀ m ∈ ms, AllOrNothing m) ∧ (∀ m ∈ ms, Confined m) ∧
    r.db.destinations.map (·.finalState) = ["ended"] := by
  obtain ⟨ms, r, run, shown⟩ := exists_run_of_follow Recorder.step (fresh {})
    [.attach none, .begin_ { start := oneDestination, id := "s", rowIds := ["d"], now := 0 },
      .destinationEnded "b2" "ended" "" none]
    (fun ms r => (ms.all fun m => match m.input with
      | .begin_ c => c.thrown.isNone
      | _ => true) && decide (r.db.destinations.map (·.finalState) = ["ended"]))
    (by decide)
  rw [Bool.and_eq_true, List.all_eq_true] at shown
  have whole : ∀ m ∈ ms, ¬DestinationThrows m := by
    rintro m member ⟨c, k, began, -, -, thrown, -⟩
    have unthrown := shown.1 m member
    rw [began] at unthrown
    simp [Option.isNone_iff_eq_none.mp unthrown] at thrown
  obtain ⟨each, confined⟩ := begin_all_or_nothing run
  exact ⟨ms, r, run, fun m member => (each m member).mpr (whole m member), confined whole, of_decide_eq_true shown.2⟩

/-- The second destination's row does not get written; the next session has only that destination, and the first one
ends. -/
def staleEnding : List Input :=
  [.attach none,
    .begin_ { start := twoDestinations, id := "s1", rowIds := ["d1", "d2"], now := 0, thrown := some (2, "disk full") },
    .begin_ { start := oneDestination, id := "s2", rowIds := ["d3"], now := 1 }, .destinationEnded "b1" "ended" "" none]

/-- A begin that gives no id leaves a session behind. -/
def beganHalf (m : Moment Recorder Input) : Bool :=
  match m.input with
  | .begin_ c => decide ((m.before.begin_ c).2 = "" ∧ m.before.db.sessions = [] ∧ m.after.db.sessions ≠ [])
  | _ => false

/-- A destination's end changes the first row, which is another session's. -/
def endedElsewhere (m : Moment Recorder Input) : Bool :=
  match m.input, m.before.db.destinations[0]? with
  | .destinationEnded _ _ _ _, some row =>
    decide (row.sessionId ≠ m.before.currentId ∧ m.after.db.destinations[0]? ≠ some row)
  | _, _ => false

theorem not_begin_all_or_nothing :
    (¬∀ (db : Tables) (ms : List (Moment Recorder Input)) (r : Recorder), Run Step (fresh db) ms r →
      ∀ m ∈ ms, AllOrNothing m) ∧
    ¬∀ (db : Tables) (ms : List (Moment Recorder Input)) (r : Recorder), Run Step (fresh db) ms r → ∀ m ∈ ms, Confined m := by
  constructor
  · intro law
    obtain ⟨xs, m, ys, r, run, shown⟩ := exists_run_through Recorder.step (fresh {}) staleEnding 1
      (fun m _ _ => beganHalf m) (by decide)
    rw [beganHalf] at shown
    split at shown
    next c began =>
      obtain ⟨nothing, none, left⟩ := of_decide_eq_true shown
      obtain ⟨sessions, -⟩ := law _ _ _ run m (by simp) c began nothing
      rw [none] at sessions
      exact left (List.subset_nil.mp sessions)
    next => cases shown
  · intro law
    obtain ⟨xs, m, ys, r, run, shown⟩ := exists_run_through Recorder.step (fresh {}) staleEnding 3
      (fun m _ _ => endedElsewhere m) (by decide)
    rw [endedElsewhere] at shown
    split at shown
    next ended here =>
      obtain ⟨other, changed⟩ := of_decide_eq_true shown
      exact changed (law _ _ _ run m (by simp) _ _ _ _ ended 0 _ here fun same => absurd same other)
    next => cases shown

end Recorder

end Braidcast.History
