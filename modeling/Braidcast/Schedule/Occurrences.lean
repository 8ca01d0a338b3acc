import Braidcast.Schedule.Sound

/-!
# Each occurrence is started once

The memory that an occurrence was started, or was canceled, lives in the runner's occurrence
map, and pruning, disarming and deletion erase it. None of them makes the same occurrence
startable again: whatever erases the memory also shows that the occurrence is over.
-/
namespace Braidcast.Schedule

open Relation (ReflTransGen)
open Braidcast.Lib (Moment Run star_keeps trace run_trace input_of_mem_trace mem_filterMap_iff)
open Ledger

namespace Ledger

/-- The occurrence asked to go live, or its row is done with. -/
def Spent (L : Ledger) (id : String) : Prop :=
  (L.flags id).requested = true ∨ ∀ e, L.row id = some e → e.state = .done

/-- The occurrence was canceled, and is neither armed nor live. -/
def Barred (L : Ledger) (id : String) : Prop :=
  (L.flags id).canceled = true ∧ id ≠ "" ∧ L.liveId ≠ id ∧ ∀ e, L.row id = some e → e.state ≠ .armed

end Ledger

/-! ### One tick -/

variable {id : String} {L M : Ledger} {a : Answers}

theorem Prune.notStale (step : Prune a L M) (fresh : ¬L.Stale a.now id) : ¬M.Stale a.now id := by
  simp only [Stale, not_forall, exists_prop] at fresh ⊢
  obtain ⟨e, stored, near⟩ := fresh
  cases step with
  | drop | dropStarting | dropLive => exact ⟨e, stored, near⟩
  | disarm other found armed ahead free => grind

theorem Prune.spent (step : Prune a L M) (fresh : ¬L.Stale a.now id) (spent : L.Spent id) : M.Spent id := by
  cases step with
  | drop other free stale => grind [Spent]
  | disarm e stored armed ahead free => grind [Spent, Stale]
  | dropStarting | dropLive => exact spent

theorem Prune.barred (step : Prune a L M) (fresh : ¬L.Stale a.now id) (barred : L.Barred id) : M.Barred id := by
  cases step with
  | drop other free stale => grind [Barred]
  | disarm e stored armed ahead free => grind [Barred, Stale]
  | dropStarting => exact barred
  | dropLive => exact ⟨barred.1, barred.2.1, barred.2.1.symm, barred.2.2.2⟩

theorem Move.spent (step : Move a L M) (spent : L.Spent id) : M.Spent id ∧ (id ∈ M.launched → id ∈ L.launched) := by
  cases step with
  | arm | refuse | settle | miss => grind [Spent]
  | launch e stored armed due wanted unasked free =>
    have apart : id ≠ e.id := by grind [Spent]
    exact ⟨by grind [Spent], by simp [apart]⟩

theorem Move.barred (step : Move a L M) (barred : L.Barred id) : M.Barred id ∧ (id ∈ M.launched → id ∈ L.launched) := by
  cases step with
  | arm | refuse | settle | miss => grind [Barred]
  | launch e stored armed due wanted unasked free =>
    have apart : id ≠ e.id := by grind [Barred]
    exact ⟨by grind [Barred], by simp [apart]⟩

/-- A tick keeps what its two halves keep, and launches nothing that stays launchable by
neither of them. -/
theorem tick_keeps {L N M : Ledger} {P : Ledger → Prop} (prune : ∀ L M, Prune a L M → ¬L.Stale a.now id → P L → P M)
    (move : ∀ L M, Move a L M → P L → P M ∧ (id ∈ M.launched → id ∈ L.launched))
    (prunes : ReflTransGen (Prune a) L N) (moves : ReflTransGen (Move a) N M)
    (fresh : ¬L.Stale a.now id) (start : P L) : P M ∧ (id ∈ M.launched → id ∈ N.launched) := by
  have pruned := star_keeps (P := fun N => ¬N.Stale a.now id ∧ P N)
    (fun L M step held => ⟨step.notStale held.1, prune L M step held.1 held.2⟩) prunes ⟨fresh, start⟩
  exact star_keeps (P := fun M => P M ∧ (id ∈ M.launched → id ∈ N.launched))
    (fun L M step held => ⟨(move L M step held.1).1, fun late => held.2 ((move L M step held.1).2 late)⟩)
    moves ⟨pruned.2, fun early => early⟩

/-- An entry launched in this tick is marked, and so is not launched again. -/
theorem Move.launchedOnce (step : Move a L M)
    (once : L.launched.count id ≤ 1 ∧ (id ∈ L.launched → (L.flags id).requested = true)) :
    M.launched.count id ≤ 1 ∧ (id ∈ M.launched → (M.flags id).requested = true) := by
  obtain ⟨once, marked⟩ := once
  cases step with
  | launch e stored armed due wanted unasked free =>
    -- a launch asks that the entry is unmarked, so it was not launched before
    by_cases same : id = e.id
    · have quiet : id ∉ L.launched := by grind
      subst same
      simp [List.count_eq_zero.mpr quiet, mark_flags]
    · refine ⟨by simpa [List.count_append, List.count_singleton, Ne.symm same] using once, ?_⟩
      intro member
      grind
  | arm | refuse | settle | miss => grind

/-- What a tick launches was due when the tick began. -/
theorem Move.due {L M N : Ledger} (step : Move a M N) (held : L.Timed M ∧ ∀ id ∈ M.launched, ¬L.Stale a.now id) :
    L.Timed N ∧ ∀ id ∈ N.launched, ¬L.Stale a.now id := by
  obtain ⟨timed, due⟩ := held
  refine ⟨step.timed timed, ?_⟩
  cases step with
  | arm | miss => exact due
  | refuse | settle => simpa using due
  | launch e stored armed inTime wanted unasked free =>
    intro id member
    rcases List.mem_append.mp member with old | new
    · exact due id old
    · obtain ⟨old, before, same⟩ := timed e.id e stored
      rw [List.mem_singleton.mp new]
      -- due now, and a tick does not change when an entry starts
      intro stale
      have out := stale old before
      simp only [kArmLeadMs, kMissedGraceMs, kOccurrenceRetentionMs] at out inTime
      omega

theorem Acts.launched_tick (acts : Acts a .tick L M) (wiped : L.launched = []) (id : String) :
    M.launched.count id ≤ 1 ∧ (id ∈ M.launched → (M.flags id).requested = true ∧ ¬L.Stale a.now id ∧
      ¬L.Spent id ∧ ¬L.Barred id) := by
  cases acts with
  | idle => simp [wiped]
  | @ticked _ N _ prunes _ moves =>
    -- pruning launches nothing, so all launches are the moves'
    have quiet : N.launched = [] := star_keeps (P := fun N => N.launched = [])
      (fun _ _ step before => by cases step <;> simpa using before) prunes wiped
    have timed : L.Timed N := star_keeps (P := L.Timed) (fun _ _ step => step.timed) prunes
      (fun _ e stored => ⟨e, stored, rfl⟩)
    have once := star_keeps (P := fun N => N.launched.count id ≤ 1 ∧
      (id ∈ N.launched → (N.flags id).requested = true)) (fun _ _ step => step.launchedOnce) moves (by simp [quiet])
    have due := star_keeps (P := fun N => L.Timed N ∧ ∀ id ∈ N.launched, ¬L.Stale a.now id)
      (fun _ _ step => step.due) moves ⟨timed, by simp [quiet]⟩
    refine ⟨once.1, fun member => ⟨once.2 member, due.2 id member, fun spent => ?_, fun barred => ?_⟩⟩
    · have late := (tick_keeps (fun _ _ step => step.spent) (fun _ _ step => step.spent) prunes moves
        (due.2 id member) spent).2 member
      simp [quiet] at late
    · have late := (tick_keeps (fun _ _ step => step.barred) (fun _ _ step => step.barred) prunes moves
        (due.2 id member) barred).2 member
      simp [quiet] at late

/-! ### Every operation -/

/-- Only a new start by hand, or an occurrence that is over, ends what is spent. -/
theorem Acts.spent {call : Call} (acts : Acts a call L M)
    (spent : L.Spent id) : M.Spent id ∨ call = .startNow id ∨ L.Stale a.now id := by
  by_cases ended : call = .startNow id ∨ L.Stale a.now id
  · exact .inr ended
  left
  obtain ⟨other, fresh⟩ := not_or.mp ended
  cases acts with
  | idle => exact spent
  | ticked prunes _ moves =>
    exact (tick_keeps (fun _ _ step => step.spent) (fun _ _ step => step.spent) prunes moves fresh spent).1
  | canceled | started | startRefused | adopted | adoptRefused | wentLive | startFailed => grind [Spent]
  | disarmed | forgotten => grind [Spent, Stale]
  | unclaimed unarmed => exact spent
  -- the entry that was live reads done now, and a done one is spent
  | stopped alive =>
    by_cases same : id = L.liveId
    · refine .inr fun e found => ?_
      simp only [release_row, setFlags_row] at found
      rcases of_setState_row _ _ _ _ found with ⟨_, done⟩ | ⟨differs, _⟩
      · exact done
      · exact absurd same differs
    · simpa [Spent, setFlags_flags, setState_row, same] using spent
  | created e destinations planned named absent unheld => grind [Spent, Stale, Function.update_apply]
  | edited e startsAt autoStart destinations stored => grind [Spent, Function.update_apply]
  | deleted id => grind [Spent, Function.update_apply]

theorem Acts.barred {call : Call} (acts : Acts a call L M)
    (barred : L.Barred id) : M.Barred id ∨ call = .startNow id ∨ L.Stale a.now id := by
  by_cases ended : call = .startNow id ∨ L.Stale a.now id
  · exact .inr ended
  left
  obtain ⟨other, fresh⟩ := not_or.mp ended
  cases acts with
  | idle | unclaimed => exact barred
  | ticked prunes _ moves =>
    exact (tick_keeps (fun _ _ step => step.barred) (fun _ _ step => step.barred) prunes moves fresh barred).1
  | canceled | started | startRefused | adopted | adoptRefused | wentLive | startFailed => grind [Barred]
  | disarmed | forgotten => grind [Barred, Stale]
  | stopped alive =>
    -- the entry that stopped is another one: this one was not live
    obtain ⟨canceled, named, differs, unarmed⟩ := barred
    refine ⟨by simpa [setFlags_flags, Ne.symm differs] using canceled, named, by simpa using named.symm, ?_⟩
    simpa [setState_row, Ne.symm differs] using unarmed
  | created e destinations planned named absent unheld => grind [Barred, Stale, Function.update_apply]
  | edited | deleted => grind [Barred, Function.update_apply]

theorem Acts.claimed (acts : Acts a .adoptImminentArmed L M)
    (barred : L.Barred id) (claimed : M.startingId = id) : L.startingId = id := by
  cases acts with
  | idle => exact claimed
  | adopted e stored armed unasked idle free => grind [Barred]
  | adoptRefused id idle free => simpa using claimed

/-! ### Whole runs -/

/-- The moment makes a new occurrence of the entry: it is started by hand, or it is not there,
or its start is out of reach of the clock. -/
def Renewal (id : String) (m : Moment World Input) : Prop :=
  m.input.call = .startNow id ∨
    ∀ e, m.before.store.get true id = some e →
      kArmLeadMs < e.startsAt - m.input.answers.now ∨
        kOccurrenceRetentionMs < m.input.answers.now - e.startsAt

/-- `Tick` asks for this entry to go live. -/
def TickStarts (id : String) (m : Moment World Input) : Prop :=
  m.input.call = .tick ∧ Effect.goLive id ∈ m.after.effects

/-- `AdoptImminentArmed` takes a start made elsewhere for this entry's. -/
def AdoptClaims (id : String) (m : Moment World Input) : Prop :=
  m.input.call = .adoptImminentArmed ∧ m.before.startingId ≠ id ∧ m.after.startingId = id

/-- `CancelCountdown` for this entry succeeds. -/
def Cancels (id : String) (m : Moment World Input) : Prop :=
  m.input.call = .cancelCountdown id ∧ Effect.answered none ∈ m.after.effects

theorem mem_launched {w : World} : id ∈ w.ledger.launched ↔ Effect.goLive id ∈ w.effects :=
  mem_filterMap_iff fun _ => Effect.launchedId_eq_some

theorem count_launched (w : World) (id : String) :
    w.effects.count (.goLive id) = w.ledger.launched.count id := by
  simp only [World.ledger, List.count, List.countP_filterMap]
  refine List.countP_congr fun effect _ => ?_
  cases effect <;> simp [Effect.launchedId]

theorem Cancels.barred {m : Moment World Input} (cancels : Cancels id m)
    (up : m.input.answers.storeUp = true) (step : Step m.before m.input m.after) :
    m.after.ledger.Barred id := by
  obtain ⟨called, answered⟩ := cancels
  have performed : World.cancelCountdown m.input.answers id { m.before with effects := [] } = m.after := by
    rw [← show m.before.step m.input = m.after from step, World.step, called]
    rfl
  rcases World.cancelCountdown_cases { m.before with effects := [] } up id with
    ⟨error, refused⟩ | ⟨e, rfl, stored, armed, free, ledger, _⟩
  · rw [← performed, refused] at answered
    simp [World.emit] at answered
  · rw [← performed, ledger]
    have named := ScheduleStore.ne_empty_of_get stored
    generalize World.ledger { m.before with effects := [] } = L at stored free ⊢
    refine ⟨by simp [setFlags_flags], named, ?_, ?_⟩
    · simpa using fun live => free (.inl ⟨named, live⟩)
    · simp [setState_row, stored]

/-- From a spent or barred occurrence on, the next start by the clock comes after a renewal. -/
theorem renewed_before {P : Ledger → Prop} {w u : World} {ys : List (Moment World Input)}
    (keeps : ∀ {a call L M}, Acts a call L M → P L → P M ∨ call = .startNow id ∨ L.Stale a.now id)
    (wipes : ∀ L : Ledger, P L → P { L with reverted := [], launched := [] })
    (run : Run Step w ys u) (up : ∀ m ∈ ys, m.input.answers.storeUp = true) (start : P w.ledger) :
    P u.ledger ∨ ∃ r ∈ ys, Renewal id r :=
  run.persists (P := fun w => P w.ledger)
    (fun _ up step held => keeps (step_acts up step) (wipes _ held)) up start

/-- The clock starts an occurrence at most once, and never a canceled one. -/
theorem clock_starts_once {s u : World} {ms : List (Moment World Input)} (run : Run Step s ms u)
    (up : ∀ m ∈ ms, m.input.answers.storeUp = true) (id : String) :
    (∀ m ∈ ms, m.input.call = .tick → m.after.effects.count (.goLive id) ≤ 1) ∧
    (∀ xs m ys m' zs, ms = xs ++ m :: (ys ++ m' :: zs) → TickStarts id m → TickStarts id m' →
      ∃ r ∈ ys, Renewal id r) ∧
    (∀ xs m ys m' zs, ms = xs ++ m :: (ys ++ m' :: zs) → Cancels id m →
      TickStarts id m' ∨ AdoptClaims id m' → ∃ r ∈ ys, Renewal id r) := by
  have acts : ∀ m ∈ ms, Acts m.input.answers m.input.call
      { m.before.ledger with reverted := [], launched := [] } m.after.ledger :=
    fun m member => step_acts (up m member) (run.step_of_mem member)
  have ticked : ∀ m ∈ ms, m.input.call = .tick → Acts m.input.answers .tick
      { m.before.ledger with reverted := [], launched := [] } m.after.ledger :=
    fun m member call => call ▸ acts m member
  refine ⟨fun m member call => ?_, ?_, ?_⟩
  · rw [count_launched]
    exact ((ticked m member call).launched_tick rfl id).1
  · rintro xs m ys m' zs rfl ⟨call, started⟩ ⟨call', started'⟩
    have asked := (((ticked m (by simp) call).launched_tick rfl id).2 (mem_launched.mpr started)).1
    have unspent := (((ticked m' (by simp) call').launched_tick rfl id).2 (mem_launched.mpr started')).2.2.1
    -- the first start spends the occurrence, and a spent one is not started
    rcases renewed_before (P := fun L => L.Spent id) (fun acts => acts.spent) (fun _ held => held) run.between
      (fun r member => up r (by simp [member])) (.inl asked) with spent | renewed
    · exact absurd spent unspent
    · exact renewed
  · rintro xs m ys m' zs rfl cancels again
    have barred := cancels.barred (up m (by simp)) (run.step_of_mem (by simp))
    -- the cancel bars the occurrence from the clock and from a claim
    rcases renewed_before (P := fun L => L.Barred id) (fun acts => acts.barred) (fun _ held => held) run.between
      (fun r member => up r (by simp [member])) barred with still | renewed
    · rcases again with ⟨call, started⟩ | ⟨call, before, after⟩
      · exact absurd still
          (((ticked m' (by simp) call).launched_tick rfl id).2 (mem_launched.mpr started)).2.2.2
      · exact absurd ((call ▸ acts m' (by simp)).claimed still after) before
    · exact renewed

/-- An entry that failed to start, was moved ahead, and is started again at its new time. -/
def movedAhead : List Input :=
  [⟨{ now := 0 }, .tick⟩, ⟨{ now := 60000 }, .tick⟩, ⟨{ now := 61000 }, .noteStartFailed⟩,
    ⟨{ now := 61200 }, .editRow "a" 400000 true [{ profileId := "p" }]⟩, ⟨{ now := 61500 }, .tick⟩,
    ⟨{ now := 150000 }, .tick⟩, ⟨{ now := 400000 }, .tick⟩]

theorem clock_starts_once_moved :
    ∃ r ∈ trace World.step (World.attach oneEntry) movedAhead, Renewal "a" r := by
  have up : ∀ i ∈ movedAhead, i.answers.storeUp = true := by decide
  have once := clock_starts_once (run_trace World.step (World.attach oneEntry) movedAhead)
    (fun m member => up m.input (input_of_mem_trace member)) "a"
  obtain ⟨r, member, renewal⟩ := once.2.1 [_] _ [_, _, _, _] _ [] rfl ⟨rfl, by decide +kernel⟩
    ⟨rfl, by decide +kernel⟩
  refine ⟨r, ?_, renewal⟩
  exact List.mem_cons_of_mem _ (List.mem_cons_of_mem _ (List.mem_append_left [_] member))

end Braidcast.Schedule
