import Braidcast.Schedule.Settling

/-!
# What a refused manual start leaves

`StartNow` with a store that may answer one of its calls and fail the next.
-/
namespace Braidcast.Schedule

open Braidcast.Lib (Moment Run run_trace)

/-- Which of the calls `StartNow` makes to the store go through. -/
structure StoreAnswers where
  get : Bool := true
  destinationsFor : Bool := true
  setState : Bool := true

namespace World

/-- `StartNow`, each call to the store with an answer of its own. -/
def startNowWith (a : Answers) (store : StoreAnswers) (id : String) (w : World) : World :=
  match w.store.get store.get id with
  | none => w.emit (.answered (some ("no scheduled entry with id '" ++ id ++ "'")))
  | some entry =>
    if w.isStartInFlight a id then w.emit (.answered (some "that entry is already going live"))
    else if entry.state = .live ∨ entry.state = .done ∨ entry.state = .canceled then
      w.emit (.answered (some ("that entry is " ++ entry.state.text ++ " and cannot be started")))
    else
      let row : ScheduleEntryWithDestinations :=
        { entry, destinations := w.store.destinationsFor store.destinationsFor id }
      let p := w.armable a row
      let w := if p.2.changed then p.1.emit .onChanged else p.1
      if !p.2.armable then w.emit (.answered (some p.2.reason))
      else if w.routingHeldElsewhere a id then w.emit (.answered (some kAlreadyStreamingReason))
      else if entry.state ≠ .armed ∧ !store.setState then
        w.emit (.answered (some ("failed to arm the entry: " ++ a.storeError)))
      else
        let q := (w.rearm entry).requestStart a { row with entry := { entry with state := .armed } }
        match q.2 with
        | some error => q.1.emit (.answered (some error))
        | none => (q.1.emit .onChanged).emit (.answered none)

/-- With one answer for all three calls it is the operation of every run. -/
theorem startNow_eq (a : Answers) (id : String) (w : World) :
    w.startNow a id = w.startNowWith a ⟨a.storeUp, a.storeUp, a.storeUp⟩ id := rfl

/-- What the runner and the store say of one entry: the state of its row, what its occurrence
decided, and whether it is remembered as armed. -/
def standing (w : World) (id : String) : Option ScheduleState × Flags × Prop :=
  ((w.ledger.row id).map (·.state), w.ledger.flags id, id ∈ w.armedIds)

/-- The caller was told an error. -/
def Refused (w : World) : Prop := ∃ error, w.effects.getLast? = some (.answered (some error))

/-- Loading the entry was refused. -/
def ApplyRefused (a : Answers) (id : String) : Prop :=
  ∃ apply reason, a.applyEntry = some apply ∧ apply id = some reason

variable {a : Answers} {store : StoreAnswers} {w : World} {id : String}

theorem standing_congr {v : World} (ledger : v.ledger = w.ledger) (listed : v.armedIds = w.armedIds) :
    v.standing id = w.standing id := by
  rw [standing, ledger, listed, standing]

/-- The start is refused before the entry is touched, or goes through, or is refused once the entry
is armed and its occurrence is afresh. -/
theorem startNowWith_cases (a : Answers) (store : StoreAnswers) (w : World) (id : String) :
    ((w.startNowWith a store id).ledger = w.ledger ∧ (w.startNowWith a store id).armedIds = w.armedIds) ∨
    ¬(w.startNowWith a store id).Refused ∨
    ApplyRefused a id ∧ ∃ entry, w.ledger.row id = some entry ∧
      (w.startNowWith a store id).ledger = (w.ledger.rearm id).revert ∧
      (w.startNowWith a store id).armedIds =
        if entry.state ≠ .armed then (w.rememberArmed id).armedIds else w.armedIds := by
  have early : ∀ (v : World) (error : String), v.ledger = w.ledger → v.armedIds = w.armedIds →
      (v.emit (.answered (some error))).ledger = w.ledger ∧ (v.emit (.answered (some error))).armedIds = w.armedIds :=
    fun v error ledger listed => ⟨(v.ledger_emit_answered _).trans ledger, listed⟩
  unfold startNowWith
  split
  · exact .inl (early w _ rfl rfl)
  next entry found =>
    have answers : store.get = true := by
      by_contra down
      simp [ScheduleStore.get, down] at found
    rw [answers] at found
    obtain rfl : entry.id = id := ScheduleStore.get_id found
    split
    · exact .inl (early w _ rfl rfl)
    split
    · exact .inl (early w _ rfl rfl)
    dsimp only
    have asked := armable_ledger (a := a) w ⟨entry, w.store.destinationsFor store.destinationsFor entry.id⟩
    have listed := armable_armedIds (a := a) w ⟨entry, w.store.destinationsFor store.destinationsFor entry.id⟩
    generalize w.armable a ⟨entry, w.store.destinationsFor store.destinationsFor entry.id⟩ = p at asked listed
    -- asking the destinations tells the interface at most
    have ledger : (if p.2.changed = true then p.1.emit .onChanged else p.1).ledger = w.ledger := by
      split
      · exact (ledger_emit_onChanged p.1).trans asked
      · exact asked
    have armedIds : (if p.2.changed = true then p.1.emit .onChanged else p.1).armedIds = w.armedIds := by
      split
      · exact listed
      · exact listed
    generalize (if p.2.changed = true then p.1.emit .onChanged else p.1) = v at ledger armedIds ⊢
    split
    · exact .inl (early v _ ledger armedIds)
    split
    · exact .inl (early v _ ledger armedIds)
    split
    · exact .inl (early v _ ledger armedIds)
    have rearmed := v.rearm_ledger entry (by rw [ledger]; exact found)
    have clear := v.rearm_blockReason entry
    have remembered := rearm_armedIds v entry
    rcases (v.rearm entry).requestStart_cases (a := a)
        ⟨{ entry with state := .armed }, w.store.destinationsFor store.destinationsFor entry.id⟩ with
      ⟨blocked, -⟩ | ⟨-, done, -⟩ | ⟨-, reverted, apply, reason, error, wired, answer, failed⟩
    -- rearmed, the entry has no block reason left
    · exact absurd clear blocked
    · right; left
      rintro ⟨error, told⟩
      simp [done, emit] at told
    · right; right
      refine ⟨⟨apply, reason, wired, answer⟩, entry, found, ?_, ?_⟩
      · simp only [failed, ledger_emit_answered]
        rw [reverted, rearmed, ledger]
      · simp only [failed]
        have same : (v.rememberArmed entry.id).armedIds = (w.rememberArmed entry.id).armedIds := by
          rw [rememberArmed_armedIds, rememberArmed_armedIds, armedIds]
        rw [← same, ← armedIds, ← remembered]
        exact requestStart_armedIds (v.rearm entry) _

end World

open World

/-- A manual start that is refused changes no slot and nothing of any other entry. Of the entry
itself it changes nothing either, unless it is loading the entry that is refused: the row is then armed and
the occurrence starts afresh. -/
theorem startNow_refused (a : Answers) (store : StoreAnswers) (w : World) (id : String)
    (refused : (w.startNowWith a store id).Refused) :
    (w.startNowWith a store id).startingId = w.startingId ∧
      (w.startNowWith a store id).ledger.launched = w.ledger.launched ∧
      (∀ other, other ≠ id → (w.startNowWith a store id).standing other = w.standing other) ∧
      ((w.startNowWith a store id).standing id = w.standing id ∨
        ApplyRefused a id ∧ (w.startNowWith a store id).standing id =
          (some .armed, { w.ledger.flags id with canceled := false, requested := false, failed := false },
            id ∈ w.armedIds ∨ (w.ledger.row id).map (·.state) ≠ some .armed)) := by
  rcases startNowWith_cases a store w id with ⟨ledger, listed⟩ | accepted | ⟨why, entry, stored, ledger, listed⟩
  · refine ⟨congrArg Ledger.startingId ledger, by rw [ledger], fun other _ => standing_congr ledger listed, .inl ?_⟩
    exact standing_congr ledger listed
  · exact absurd refused accepted
  · refine ⟨(congrArg Ledger.startingId ledger).trans ?_, ?_, fun other apart => ?_, .inr ⟨why, ?_⟩⟩
    · rw [Ledger.revert_startingId]
      rfl
    · rw [ledger]
      simp [Ledger.rearm]
    · have member : other ∈ (w.startNowWith a store id).armedIds ↔ other ∈ w.armedIds := by
        rw [listed]
        split
        · rw [mem_rememberArmed]
          simp [apart]
        · rfl
      simp only [standing, ledger, Ledger.revert_row, Ledger.revert_flags, Ledger.rearm_row, Ledger.rearm_flags,
        if_neg apart, member]
    · have member : id ∈ (w.startNowWith a store id).armedIds ↔
          id ∈ w.armedIds ∨ (w.ledger.row id).map (·.state) ≠ some .armed := by
        rw [listed, stored]
        by_cases armed : entry.state = .armed
        · simp [armed]
        · simp [armed, mem_rememberArmed]
      simp only [standing, ledger, Ledger.revert_row, Ledger.revert_flags, Ledger.rearm_row, Ledger.rearm_flags,
        if_true, stored, member]
      rfl

/-- "a" is armed and its countdown canceled. -/
def canceledCountdown : List Input := [⟨{ now := 0 }, .tick⟩, ⟨{ now := 1000 }, .cancelCountdown "a"⟩]

/-- Something streams: "a" stays planned and canceled. -/
theorem startNow_refused_streaming :
    let w := canceledCountdown.foldl World.step (World.attach oneEntry)
    let v := ({ w with effects := [] } : World).startNowWith { now := 2000, isStreaming := fun _ => true } {} "a"
    v.Refused ∧ v.standing "a" = w.standing "a" := by
  intro w v
  have refused : v.Refused := ⟨kAlreadyStreamingReason, by decide⟩
  refine ⟨refused, ?_⟩
  rcases (startNow_refused { now := 2000, isStreaming := fun _ => true } {} { w with effects := [] } "a" refused).2.2.2 with
    same | ⟨⟨apply, reason, wired, answer⟩, -⟩
  · exact same
  · cases wired
    cases answer

/-- Loading "a" is refused: it is armed again, and no longer canceled. -/
theorem refused_start_revives :
    ¬∀ (store : ScheduleStore) (ms : List (Moment World Input)) (w : World),
      Run Step (World.attach store) ms w → ∀ (a : Answers) (id : String), (w.step ⟨a, .startNow id⟩).Refused →
        (w.step ⟨a, .startNow id⟩).standing id = w.standing id := by
  intro law
  have same := law oneEntry _ _ (run_trace World.step (World.attach oneEntry) canceledCountdown)
    { now := 2000, applyEntry := some fun _ => some "" } "a"
    ⟨"could not load this entry's destinations", by decide⟩
  have flag := congrArg (fun standing => standing.2.1.canceled) same
  revert flag
  decide

end Braidcast.Schedule
