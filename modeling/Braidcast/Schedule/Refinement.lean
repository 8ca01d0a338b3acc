import Braidcast.Schedule.Ledger

/-! Every operation of the runner is one the ledger allows. -/
namespace Braidcast.Schedule

open Relation (ReflTransGen)

namespace World

variable {a : Answers} (w : World)

/-! ### What leaves the ledger alone -/

@[simp] theorem setBlockReason_ledger (id reason : String) :
    (w.setBlockReason id reason).1.ledger = w.ledger := by
  simp only [setBlockReason]
  split
  · rfl
  · split
    · rfl
    · exact ledger_setOccurrence_same w id _ rfl

@[simp] theorem setDestinationRefusals_ledger (id : String) (refusals : List DestinationRefusal) :
    (w.setDestinationRefusals id refusals).1.ledger = w.ledger := by
  simp only [setDestinationRefusals]
  split
  · rfl
  · split
    · rfl
    · exact ledger_setOccurrence_same w id _ rfl

@[simp] theorem armable_ledger (row : ScheduleEntryWithDestinations) :
    (w.armable a row).1.ledger = w.ledger := by
  unfold armable
  split
  · rfl
  · dsimp only
    split <;> exact setDestinationRefusals_ledger w _ _

@[simp] theorem refreshArmability_ledger (row : ScheduleEntryWithDestinations) :
    (w.refreshArmability a row).1.ledger = w.ledger := by
  simp only [refreshArmability]
  split
  · rfl
  · simp

@[simp] theorem openCountdownIfDue_ledger (row : ScheduleEntryWithDestinations) :
    (w.openCountdownIfDue a row).ledger = w.ledger := by
  simp only [openCountdownIfDue]
  split
  · rfl
  · split
    · rfl
    · exact ledger_setOccurrence_same w _ _ rfl

/-! ### The block reason decides the routing -/

theorem setBlockReason_blockReason (id reason : String) :
    (w.setBlockReason id reason).1.blockReason id = reason := by
  simp only [setBlockReason]
  split
  next untracked =>
    have absent : w.occurrences.lookup id = none := AList.lookup_eq_none.mpr untracked.2
    simp [blockReason, occurrence, absent, untracked.1]
  · split
    next same => exact same
    · simp [blockReason, occurrence_setOccurrence]

theorem openCountdownIfDue_blockReason (row : ScheduleEntryWithDestinations) (id : String) :
    (w.openCountdownIfDue a row).blockReason id = w.blockReason id := by
  simp only [openCountdownIfDue]
  split
  · rfl
  · split
    · rfl
    · simp only [blockReason, occurrence_setOccurrence]
      split
      next same => rw [same]
      · rfl

theorem free_of_unheld {id : String} (grounded : ¬w.ledger.InFlight a.now id)
    (unheld : w.routingHeldElsewhere a id = false) : w.ledger.Free a.now id := by
  refine ⟨grounded, ?_⟩
  simp only [routingHeldElsewhere, (w.not_isStartInFlight_iff id).mpr grounded] at unheld
  by_cases none : w.ledger.appliedId = ""
  · exact .inl none
  · by_cases own : w.ledger.appliedId = id
    · exact .inr (own ▸ grounded)
    · right
      intro flying
      have held := (w.isStartInFlight_iff w.appliedId).mpr flying
      simp [show w.appliedId ≠ "" from none, show w.appliedId ≠ id from own, held] at unheld

variable {row : ScheduleEntryWithDestinations}

theorem unheld_of_refreshed (armed : row.entry.state = .armed)
    (clear : (w.refreshArmability a row).1.blockReason row.entry.id = "") :
    (w.armable a row).1.routingHeldElsewhere a row.entry.id = false := by
  simp only [refreshArmability, armed, ne_eq, not_true_eq_false, if_false,
    setBlockReason_blockReason] at clear
  by_contra held
  simp [Bool.eq_true_of_not_eq_false held, kAlreadyStreamingReason] at clear

/-! ### Starting -/

@[simp] theorem markRequested_ledger (id : String) :
    (w.markRequested a id).ledger = w.ledger.mark a.now id := by
  have flags := w.ledger_setOccurrence id
    { w.occurrence id with startRequested := true, startRequestedAtMs := a.now }
  exact congrArg (fun L : Ledger => { L with startingId := id }) flags

/-- A preparation is blocked, goes through, or is refused after the old one was put back. -/
theorem prepareStart_cases (row : ScheduleEntryWithDestinations) :
    (w.blockReason row.entry.id ≠ "" ∧ ∃ error, w.prepareStart a row = (w, some error)) ∨
    (w.blockReason row.entry.id = "" ∧ (w.prepareStart a row).2 = none ∧
      (w.prepareStart a row).1.ledger = (w.ledger.load a row.entry.id).mark a.now row.entry.id) ∨
    (w.blockReason row.entry.id = "" ∧ (w.prepareStart a row).1.ledger = w.ledger.revert ∧
      ∃ apply reason error, a.applyEntry = some apply ∧ apply row.entry.id = some reason ∧
        (w.prepareStart a row).2 = some error) := by
  simp only [prepareStart]
  by_cases blocked : w.blockReason row.entry.id ≠ ""
  · exact .inl ⟨blocked, _, if_pos blocked⟩
  · right
    have clear : w.blockReason row.entry.id = "" := not_not.mp blocked
    simp only [clear, ne_eq, not_true_eq_false, if_false, true_and]
    cases wired : a.applyEntry with
    | none => simp [Ledger.load, wired]
    | some apply =>
      cases answer : apply row.entry.id with
      | some reason =>
        simp only [answer]
        exact .inr ⟨by simp, apply, reason, _, rfl, answer, rfl⟩
      | none =>
        simp only [answer]
        left
        refine ⟨trivial, ?_⟩
        -- the old routing is put back before the new one is loaded
        have loaded : { w.revertApplied.emit (.applyEntry row.entry.id true) with
            appliedId := row.entry.id }.ledger = w.ledger.load a row.entry.id := by
          simp only [Ledger.load, wired, Option.isSome_some, if_true, ← ledger_revertApplied,
            ← ledger_emit_applyEntry w.revertApplied row.entry.id true]
          rfl
        rw [markRequested_ledger, loaded]

/-- `RequestStart` is a preparation followed by the go-live call. -/
theorem requestStart_cases (row : ScheduleEntryWithDestinations) :
    (w.blockReason row.entry.id ≠ "" ∧ ∃ error, w.requestStart a row = (w, some error)) ∨
    (w.blockReason row.entry.id = "" ∧ (w.requestStart a row).2 = none ∧
      (w.requestStart a row).1.ledger =
        { (w.ledger.load a row.entry.id).mark a.now row.entry.id with
          launched := w.ledger.launched ++ [row.entry.id] }) ∨
    (w.blockReason row.entry.id = "" ∧ (w.requestStart a row).1.ledger = w.ledger.revert ∧
      ∃ apply reason error, a.applyEntry = some apply ∧ apply row.entry.id = some reason ∧
        (w.requestStart a row).2 = some error) := by
  simp only [requestStart]
  rcases w.prepareStart_cases (a := a) row with ⟨why, error, blocked⟩ | ⟨clear, done, ledger⟩ |
    ⟨clear, ledger, apply, reason, error, wired, answer, failed⟩
  · exact .inl ⟨why, error, by simp [blocked]⟩
  · right; left
    refine ⟨clear, by simp [done], ?_⟩
    simp [done, ledger]
  · right; right
    exact ⟨clear, by simp [failed, ledger], apply, reason, error, wired, answer, by simp [failed]⟩

/-! ### Pruning -/

@[simp] theorem revertApplied_armedIds : w.revertApplied.armedIds = w.armedIds := by
  simp only [revertApplied]
  split <;> rfl

theorem disarmIfOutOfWindow_cases (up : a.storeUp = true) (entry : ScheduleEntry) :
    (w.disarmIfOutOfWindow a entry = (w, false) ∧ (entry.state = .armed →
      kArmLeadMs < entry.startsAt - a.now → w.ledger.InFlight a.now entry.id)) ∨
    (entry.state = .armed ∧ kArmLeadMs < entry.startsAt - a.now ∧
      ¬w.ledger.InFlight a.now entry.id ∧ (w.disarmIfOutOfWindow a entry).2 = true ∧
      (w.disarmIfOutOfWindow a entry).1.ledger =
        ((w.ledger.setState entry.id .planned).setFlags entry.id {}).release entry.id ∧
      (w.disarmIfOutOfWindow a entry).1.armedIds = w.armedIds.erase entry.id) := by
  simp only [disarmIfOutOfWindow]
  split
  next near =>
    refine .inl ⟨rfl, fun armed ahead => ?_⟩
    rcases near with other | inReach
    · exact absurd armed other
    · omega
  next outOfReach =>
    simp only [not_or, not_not, not_le] at outOfReach
    split
    next flying => exact .inl ⟨rfl, fun _ _ => (w.isStartInFlight_iff _).mp flying⟩
    next grounded =>
      simp only [up, Bool.not_true, Bool.false_eq_true, if_false]
      right
      refine ⟨outOfReach.1, outOfReach.2, (w.not_isStartInFlight_iff _).mp (by simpa using grounded),
        trivial, ?_, ?_⟩
      · rw [ledger_release]
        simp
      · split
        · rw [revertApplied_armedIds]; rfl
        · rfl

theorem pruneOccurrence_prunes (up : a.storeUp = true) (p : World × Bool) (id : String) :
    ReflTransGen (Prune a) p.1.ledger (pruneOccurrence a p id).1.ledger := by
  simp only [pruneOccurrence]
  split
  · exact .refl
  next gone =>
    rw [Bool.not_eq_true] at gone
    simp only [keepsOccurrence, up, Bool.or_eq_false_iff] at gone
    obtain ⟨grounded, absent⟩ := gone
    simp only [ledger_eraseOccurrence]
    refine .single (.drop id ((p.1.not_isStartInFlight_iff id).mp grounded) ?_)
    intro e stored
    rw [show p.1.store.get true id = some e from stored] at absent
    simp only [Bool.and_eq_false_iff, decide_eq_false_iff_not, not_le] at absent
    exact absent

theorem pruneOccurrences_keep (ids : List String) (p : World × Bool) :
    (ids.foldl (pruneOccurrence a) p).1.armedIds = p.1.armedIds ∧
      (ids.foldl (pruneOccurrence a) p).1.store = p.1.store := by
  refine List.foldlRecOn (b := p) ids (pruneOccurrence a)
    (motive := fun q => q.1.armedIds = p.1.armedIds ∧ q.1.store = p.1.store) ⟨rfl, rfl⟩ ?_
  intro q held id _
  simp only [pruneOccurrence]
  split <;> exact held

theorem pruneArmedId_prunes (up : a.storeUp = true) (p : World × Bool) (id : String) :
    ReflTransGen (Prune a) p.1.ledger (pruneArmedId a p id).1.ledger := by
  unfold pruneArmedId
  rw [up]
  split
  · exact .refl
  next row stored =>
    have same : row.id = id := ScheduleStore.get_id stored
    split
    · exact .refl
    · dsimp only
      rcases p.1.disarmIfOutOfWindow_cases up row with ⟨kept, _⟩ | ⟨armed, ahead, free, disarmed, ledger, _⟩
      · simp only [kept]
        simp only [Bool.false_eq_true, if_false, ledger_rememberArmed]
        exact .refl
      · simp only [disarmed, if_true, ledger]
        exact .single (.disarm row (same ▸ stored) armed ahead free)

theorem foldl_prunes {α : Type} (f : World × Bool → α → World × Bool)
    (each : ∀ p x, ReflTransGen (Prune a) p.1.ledger (f p x).1.ledger) (xs : List α) (p : World × Bool) :
    ReflTransGen (Prune a) p.1.ledger (xs.foldl f p).1.ledger := by
  induction xs generalizing p with
  | nil => exact .refl
  | cons x xs ih => exact (each p x).trans (ih (f p x))

/-- A start is held on to only while it is on its way up or its row is armed. -/
theorem pruneStarting_prunes (up : a.storeUp = true) :
    ReflTransGen (Prune a) w.ledger (w.pruneStarting a).ledger ∧
      ((w.pruneStarting a).startingId ≠ "" → w.ledger.InFlight a.now (w.pruneStarting a).startingId ∨
        ∃ e, w.ledger.row (w.pruneStarting a).startingId = some e ∧ e.state = .armed) := by
  simp only [pruneStarting]
  split
  next dropped =>
    have free := (w.not_isStartInFlight_iff _).mp dropped.2
    rw [up]
    split
    next starting stored =>
      split
      next armed => exact ⟨.refl, fun _ => .inr ⟨starting, stored, armed⟩⟩
      next unarmed =>
        refine ⟨.single (.dropStarting free fun e found => ?_), fun named => absurd rfl named⟩
        rw [show w.ledger.row w.ledger.startingId = some starting from stored] at found
        cases found
        exact unarmed
    next absent =>
      refine ⟨.single (.dropStarting free fun e found => ?_), fun named => absurd rfl named⟩
      rw [show w.ledger.row w.ledger.startingId = none from absent] at found
      cases found
  next kept =>
    refine ⟨.refl, fun named => .inl ((w.isStartInFlight_iff _).mp ?_)⟩
    by_contra grounded
    exact kept ⟨named, by simpa using grounded⟩

theorem pruneStarting_keeps : (w.pruneStarting a).ledger.flags = w.ledger.flags ∧
    (w.pruneStarting a).ledger.row = w.ledger.row := by
  simp only [pruneStarting]
  split
  · split
    · split <;> exact ⟨rfl, rfl⟩
    · exact ⟨rfl, rfl⟩
  · exact ⟨rfl, rfl⟩

theorem pruneLive_prunes (up : a.storeUp = true) :
    ReflTransGen (Prune a) w.ledger (w.pruneLive a).ledger ∧ (w.pruneLive a).ledger.LiveRow := by
  simp only [pruneLive]
  split
  · rw [up]
    split
    next live stored =>
      split
      next still => exact ⟨.refl, fun _ => ⟨live, stored, still⟩⟩
      next ended =>
        refine ⟨.single (.dropLive fun e found => ?_), fun named => absurd rfl named⟩
        rw [show w.ledger.row w.ledger.liveId = some live from stored] at found
        cases found
        exact ended
    next absent =>
      refine ⟨.single (.dropLive fun e found => ?_), fun named => absurd rfl named⟩
      rw [show w.ledger.row w.ledger.liveId = none from absent] at found
      cases found
  next unnamed => exact ⟨.refl, fun named => absurd named unnamed⟩

theorem pruneLive_keeps : (w.pruneLive a).ledger.startingId = w.ledger.startingId ∧
    (w.pruneLive a).ledger.row = w.ledger.row ∧ (w.pruneLive a).ledger.flags = w.ledger.flags := by
  simp only [pruneLive]
  split
  · split
    · split <;> exact ⟨rfl, rfl, rfl⟩
    · exact ⟨rfl, rfl, rfl⟩
  · exact ⟨rfl, rfl, rfl⟩

theorem pruneStale_prunes (up : a.storeUp = true) :
    ReflTransGen (Prune a) w.ledger (w.pruneStale a).1.ledger ∧
      Pruned a.now w.ledger (w.pruneStale a).1.ledger := by
  unfold pruneStale
  dsimp only
  -- the four loops one after another: occurrences, armed ids, the start waited for, the live entry
  have dropped := foldl_prunes _ (pruneOccurrence_prunes up) w.occurrences.keys (w, false)
  generalize w.occurrences.keys.foldl (pruneOccurrence a) (w, false) = p at dropped ⊢
  have disarmed := foldl_prunes _ (pruneArmedId_prunes up) p.1.armedIds ({ p.1 with armedIds := [] }, p.2)
  generalize p.1.armedIds.foldl (pruneArmedId a) ({ p.1 with armedIds := [] }, p.2) = q at disarmed ⊢
  have first : ReflTransGen (Prune a) w.ledger q.1.ledger := dropped.trans disarmed
  obtain ⟨waited, held⟩ := pruneStarting_prunes q.1 up
  obtain ⟨ended, live⟩ := pruneLive_prunes (q.1.pruneStarting a) up
  obtain ⟨starting, rows, flags⟩ := pruneLive_keeps (a := a) (q.1.pruneStarting a)
  refine ⟨(first.trans waited).trans ended, live, fun named => ?_⟩
  rw [starting] at named ⊢
  rw [rows]
  obtain ⟨kept, same⟩ := q.1.pruneStarting_keeps (a := a)
  -- the live entry is not dropped by the two loops before
  rcases held named with (⟨_, live⟩ | pending) | armed
  · rcases Prune.liveId first with before | none
    · exact .inl (live.symm.trans before)
    · exact absurd (live.symm.trans none) named
  · right; left
    simp only [Ledger.Pending, flags, kept]
    exact pending
  · right; right
    rw [same]
    exact armed

/-! ### One row of a tick -/

theorem armIfDue_cases (row : ScheduleEntryWithDestinations) :
    (w.armIfDue a row = (w, row, false) ∧ (a.storeUp = true → row.entry.state = .planned →
      a.now < row.entry.startsAt → row.entry.startsAt - a.now ≤ kArmLeadMs →
        (w.occurrence row.entry.id).canceled = true)) ∨
    (row.entry.state = .planned ∧ a.now < row.entry.startsAt ∧
      row.entry.startsAt - a.now ≤ kArmLeadMs ∧ (w.occurrence row.entry.id).canceled = false ∧
      w.armIfDue a row = ((w.setState row.entry.id .armed).rememberArmed row.entry.id,
        { row with entry := { row.entry with state := .armed } }, true)) := by
  simp only [armIfDue]
  split
  next undue => exact .inl ⟨rfl, by grind⟩
  next due =>
    simp only [not_or, not_not, not_le, not_lt] at due
    split
    next canceled => exact .inl ⟨rfl, fun _ _ _ _ => canceled⟩
    next wanted =>
      split
      next down => exact .inl ⟨rfl, fun up => by simp [up] at down⟩
      · exact .inr ⟨due.1, due.2.1, due.2.2, by simpa [isCountdownCanceled] using wanted, rfl⟩

/-- What `StartIfDue` does with a row that is stored, once its armability is fresh. -/
theorem startIfDue_moves (row : ScheduleEntryWithDestinations)
    (stored : w.ledger.row row.entry.id = some row.entry)
    (reach : a.now - kMissedGraceMs ≤ row.entry.startsAt) (grounded : row.entry.state = .armed → w.liveId ≠ row.entry.id)
    (unheld : row.entry.state = .armed → ¬w.ledger.InFlight a.now row.entry.id →
      w.blockReason row.entry.id = "" → w.ledger.appliedId = "" ∨ ¬w.ledger.InFlight a.now w.ledger.appliedId) :
    ReflTransGen (Move a) w.ledger (w.startIfDue a row).1.ledger ∧
      (w.startIfDue a row).1.ledger.row = w.ledger.row ∧
      (w.startIfDue a row).1.ledger.liveId = w.ledger.liveId := by
  simp only [startIfDue]
  split
  · exact ⟨.refl, rfl, rfl⟩
  next due =>
    simp only [not_or, not_not, not_lt] at due
    split
    · exact ⟨.refl, rfl, rfl⟩
    next wanted =>
      simp only [Bool.or_eq_true, not_or, Bool.not_eq_true] at wanted
      have canceled : (w.ledger.flags row.entry.id).canceled = false := wanted.1
      have unasked : (w.ledger.flags row.entry.id).requested = false := wanted.2
      -- armed it is not the live one, and it has not asked
      have idle : ¬w.ledger.InFlight a.now row.entry.id := by
        rintro (⟨_, live⟩ | ⟨asked, _⟩)
        · exact grounded due.1 live
        · rw [unasked] at asked
          cases asked
      rcases w.requestStart_cases (a := a) row with ⟨_, error, blocked⟩ | ⟨clear, done, ledger⟩ |
        ⟨clear, ledger, apply, reason, error, wired, answer, failed⟩
      · simp only [blocked, setBlockReason_ledger]
        exact ⟨.refl, trivial, trivial⟩
      · simp only [done, ledger]
        exact ⟨.single (.launch row.entry stored due.1 ⟨reach, due.2.2⟩ canceled unasked
            ⟨idle, unheld due.1 idle clear⟩),
          by funext id; simp, by simp⟩
      · simp only [failed, setBlockReason_ledger, ledger]
        exact ⟨.single (.refuse row.entry apply reason stored wired answer ⟨idle, unheld due.1 idle clear⟩),
          by funext id; simp, by simp⟩

theorem refreshArmability_unheld (armed : row.entry.state = .armed) (grounded : ¬w.ledger.InFlight a.now row.entry.id)
    (clear : (w.refreshArmability a row).1.blockReason row.entry.id = "") :
    w.ledger.appliedId = "" ∨ ¬w.ledger.InFlight a.now w.ledger.appliedId := by
  have free := free_of_unheld (a := a) (w.armable a row).1 (by simpa using grounded)
    (unheld_of_refreshed w armed clear)
  simpa using free.2

/-- What a row's turn does after arming, for whatever row arming left. -/
theorem afterArming_moves (row : ScheduleEntryWithDestinations)
    (stored : w.ledger.row row.entry.id = some row.entry)
    (reach : a.now - kMissedGraceMs ≤ row.entry.startsAt) (live : w.ledger.LiveRow) :
    let v := (w.refreshArmability a row).1.openCountdownIfDue a row
    ReflTransGen (Move a) w.ledger (v.startIfDue a row).1.ledger ∧
      (v.startIfDue a row).1.ledger.row = w.ledger.row ∧
      (v.startIfDue a row).1.ledger.liveId = w.ledger.liveId := by
  intro v
  have named : row.entry.id ≠ "" := ScheduleStore.ne_empty_of_get stored
  have ledger : v.ledger = w.ledger := by simp [v]
  have moves := startIfDue_moves (a := a) v row (by rw [ledger]; exact stored) reach ?_ ?_
  · rw [ledger] at moves
    exact moves
  · intro armed
    have apart : w.liveId ≠ row.entry.id := live.ne_of_armed stored armed named
    rwa [show w.liveId = _ from (congrArg Ledger.liveId ledger).symm] at apart
  · intro armed idle clear
    rw [openCountdownIfDue_blockReason] at clear
    rw [ledger] at idle ⊢
    exact w.refreshArmability_unheld armed idle clear

/-- Arming leaves a stored row of the same name and time, and touches no other. -/
theorem armIfDue_moves (stored : w.ledger.row row.entry.id = some row.entry) (live : w.ledger.LiveRow) :
    let q := w.armIfDue a row
    ReflTransGen (Move a) w.ledger q.1.ledger ∧ q.1.ledger.LiveRow ∧
      (q.2.1.entry.id = row.entry.id ∧ q.2.1.entry.startsAt = row.entry.startsAt) ∧
      q.1.ledger.row q.2.1.entry.id = some q.2.1.entry ∧
      (∀ other, other ≠ row.entry.id → q.1.ledger.row other = w.ledger.row other) := by
  intro q
  rcases w.armIfDue_cases (a := a) row with ⟨kept, _⟩ | ⟨planned, ahead, inReach, wanted, armed⟩
  · simp only [q, kept]
    exact ⟨.refl, live, ⟨trivial, trivial⟩, stored, fun _ _ => trivial⟩
  · have ledger : ((w.setState row.entry.id .armed).rememberArmed row.entry.id).ledger =
        w.ledger.setState row.entry.id .armed := by simp
    have apart : w.ledger.liveId ≠ row.entry.id := by
      intro same
      obtain ⟨other, found, state⟩ := live (same ▸ ScheduleStore.ne_empty_of_get stored)
      rw [same, stored] at found
      cases found
      rw [planned] at state
      cases state
    simp only [q, armed, ledger]
    refine ⟨.single (.arm row.entry stored planned ⟨ahead, inReach⟩ wanted), ?_, ⟨trivial, trivial⟩, ?_, ?_⟩
    · intro nonempty
      obtain ⟨other, found, state⟩ := live nonempty
      exact ⟨other, by simp [Ledger.setState_row, apart, found], state⟩
    · simp [Ledger.setState_row, stored]
    · exact fun other differs => by simp [Ledger.setState_row, differs]

/-- A row's turn is made of moves, and touches no row but its own. -/
theorem tickRow_moves (p : World × Bool) (stored : p.1.ledger.row row.entry.id = some row.entry)
    (reach : a.now - kMissedGraceMs ≤ row.entry.startsAt) (live : p.1.ledger.LiveRow) :
    ReflTransGen (Move a) p.1.ledger (tickRow a p row).1.ledger ∧
      (∀ other, other ≠ row.entry.id →
        (tickRow a p row).1.ledger.row other = p.1.ledger.row other) ∧
      (tickRow a p row).1.ledger.LiveRow := by
  obtain ⟨arms, live', ⟨_, sameTime⟩, stored', others⟩ := p.1.armIfDue_moves (a := a) stored live
  obtain ⟨moves, rows, liveId⟩ := afterArming_moves (a := a) _ _ stored' (sameTime ▸ reach) live'
  refine ⟨arms.trans moves, fun other differs => ?_, ?_⟩
  · rw [tickRow, rows]
    exact others other differs
  · simp only [tickRow, Ledger.LiveRow, rows, liveId]
    exact live'

theorem tickRows_moves {rows : List ScheduleEntryWithDestinations}
    (nodup : (rows.map (·.entry.id)).Nodup) (p : World × Bool)
    (stored : ∀ row ∈ rows, p.1.ledger.row row.entry.id = some row.entry)
    (reach : ∀ row ∈ rows, a.now - kMissedGraceMs ≤ row.entry.startsAt) (live : p.1.ledger.LiveRow) :
    ReflTransGen (Move a) p.1.ledger (rows.foldl (tickRow a) p).1.ledger := by
  induction rows generalizing p with
  | nil => exact .refl
  | cons row rows ih =>
    obtain ⟨fresh, rest⟩ := List.nodup_cons.mp nodup
    obtain ⟨moves, others, live'⟩ :=
      tickRow_moves (a := a) p (stored row (by simp)) (reach row (by simp)) live
    refine moves.trans (ih rest _ (fun later member => ?_) (fun later member => reach later (by simp [member]))
      live')
    -- ids are held once, so the rows still to come are as they were
    have apart : later.entry.id ≠ row.entry.id :=
      fun same => fresh (List.mem_map.mpr ⟨later, member, same⟩)
    rw [others _ apart]
    exact stored later (by simp [member])

/-! ### The tick -/

theorem mem_inFlightIds_of_pending {id : String} (pending : w.ledger.Pending a.now id) :
    id ∈ w.inFlightIds a := by
  refine List.mem_filter.mpr ⟨?_, (w.isStartInFlight_iff id).mpr (.inr pending)⟩
  by_contra untracked
  have absent : w.occurrences.lookup id = none :=
    AList.lookup_eq_none.mpr fun tracked => untracked (AList.mem_keys.mp tracked)
  have unasked := pending.1
  simp [ledger, occurrence, absent, Occurrence.flags] at unasked

theorem sweep_moves :
    ReflTransGen (Move a) w.ledger { w with
      store := w.store.sweepMissed true (a.now - kMissedGraceMs) (w.inFlightIds a) }.ledger := by
  let late : ScheduleEntry → Bool := fun e =>
    decide ((e.startsAt < a.now - kMissedGraceMs ∧ (e.state = .planned ∨ e.state = .armed)) ∧
      e.id ∉ w.inFlightIds a)
  have swept : { w with
      store := w.store.sweepMissed true (a.now - kMissedGraceMs) (w.inFlightIds a) }.ledger =
      w.ledger.miss late := by
    simp only [ledger, Ledger.miss, occurrence]
    congr 1
    funext id
    rw [ScheduleStore.get_sweepMissed]
    simp [late]
  rw [swept]
  refine .single (.miss late ?_ ?_)
  · intro e missed
    exact (of_decide_eq_true missed).1.2
  · intro e _ missed pending
    exact (of_decide_eq_true missed).2 (w.mem_inFlightIds_of_pending pending)

theorem settleApplied_moves (up : a.storeUp = true) :
    ReflTransGen (Move a) w.ledger (w.settleApplied a).ledger := by
  simp only [settleApplied]
  split
  · exact .refl
  next kept =>
    simp only [not_or, Bool.not_eq_true] at kept
    have free := (w.not_isStartInFlight_iff _).mp kept.2
    rw [up]
    split
    next entry stored =>
      split
      · exact .refl
      next ended =>
        rw [ledger_revertApplied]
        refine .single (.settle free fun e found => ?_)
        rw [show w.ledger.row w.ledger.appliedId = some entry from stored] at found
        cases found
        exact not_or.mp ended
    next absent =>
      rw [ledger_revertApplied]
      refine .single (.settle free fun e found => ?_)
      rw [show w.ledger.row w.ledger.appliedId = none from absent] at found
      cases found

theorem tick_acts (up : a.storeUp = true) : Acts a .tick w.ledger (w.tick a).ledger := by
  obtain ⟨prunes, pruned⟩ := w.pruneStale_prunes up
  simp only [tick, up]
  generalize w.pruneStale a = p at prunes pruned ⊢
  have rows := tickRows_moves (a := a)
    (p.1.store.listRange_ids_nodup (a.now - kMissedGraceMs) (a.now + kArmLeadMs + 1)) p
    (fun row member => ScheduleStore.get_row (ScheduleStore.mem_listRange.mp member).1)
    (fun row member => (ScheduleStore.mem_listRange.mp member).2.1) pruned.live
  generalize (p.1.store.listRange true _ _).foldl (tickRow a) p = q at rows ⊢
  have settled := settleApplied_moves (a := a) { q.1 with
    store := q.1.store.sweepMissed true (a.now - kMissedGraceMs) (q.1.inFlightIds a) } up
  have all := (rows.trans q.1.sweep_moves).trans settled
  split
  · rw [ledger_emit_onChanged]
    exact .ticked prunes pruned all
  · exact .ticked prunes pruned all

/-! ### The other operations -/

theorem forget_ledger (id : String) :
    (w.forget id).ledger = { w.ledger.setFlags id {} with
      startingId := if w.ledger.startingId = id then "" else w.ledger.startingId
      liveId := if w.ledger.liveId = id then "" else w.ledger.liveId } := by
  rw [← ledger_eraseOccurrence]
  rfl

/-- The routing of an entry that is let go is put back, or left to the broadcast it is for. -/
theorem letGo_ledger (id : String) :
    (if w.appliedId ≠ id then w.forget id
      else if w.isStartInFlight a id then { w.forget id with appliedId := "" }
      else (w.forget id).revertApplied).ledger = w.ledger.letGo a.now id := by
  simp only [Ledger.letGo, ← forget_ledger, ← isStartInFlight_iff]
  split
  next other =>
    -- its routing is not the one loaded, so there is nothing to put back
    have apart : ¬w.ledger.appliedId = id := other
    rw [if_neg (fun both => apart both.1)]
    exact (if_neg apart).symm
  next applied =>
    have loaded : w.ledger.appliedId = id := not_not.mp applied
    split
    next committed =>
      rw [if_pos ⟨loaded, committed⟩]
      exact congrArg (fun L : Ledger => { L with appliedId := "" }) (w.forget_ledger id)
    next free =>
      rw [if_neg (fun both => free both.2), ledger_revertApplied]
      exact (if_pos loaded).symm

section

variable (up : a.storeUp = true)
include up

theorem noteEntryChanged_acts (id : String) :
    Acts a (.noteEntryChanged id) w.ledger (w.noteEntryChanged a id).ledger := by
  unfold noteEntryChanged
  rw [up]
  split
  next entry stored =>
    obtain rfl : entry.id = id := ScheduleStore.get_id stored
    rcases w.disarmIfOutOfWindow_cases up entry with ⟨kept, _⟩ | ⟨armed, ahead, free, _, ledger, _⟩
    · rw [kept]
      exact .idle _
    · rw [ledger]
      exact .disarmed entry stored armed ahead free
  next deleted =>
    dsimp only
    rw [letGo_ledger]
    exact .forgotten id deleted

/-- A cancel is refused with an error, or puts the armed entry back to planned. -/
theorem cancelCountdown_cases (id : String) :
    (∃ error, w.cancelCountdown a id = w.emit (.answered (some error))) ∨
    ∃ e, e.id = id ∧ w.ledger.row e.id = some e ∧ e.state = .armed ∧ ¬w.ledger.InFlight a.now e.id ∧
      (w.cancelCountdown a id).ledger =
        ((w.ledger.setState e.id .planned).setFlags e.id
          { w.ledger.flags e.id with canceled := true }).release e.id ∧
      (w.cancelCountdown a id).armedIds = w.armedIds.erase e.id := by
  simp only [cancelCountdown]
  rw [up]
  split
  · exact .inl ⟨_, rfl⟩
  next entry stored =>
    obtain rfl : entry.id = id := ScheduleStore.get_id stored
    split
    · exact .inl ⟨_, rfl⟩
    next armed =>
      split
      · exact .inl ⟨_, rfl⟩
      next grounded =>
        have free := (w.not_isStartInFlight_iff _).mp (by simpa using grounded)
        refine .inr ⟨entry, rfl, stored, not_not.mp armed, free, ?_, ?_⟩
        · simp only [Bool.not_true, Bool.false_eq_true, if_false, ledger_emit_answered,
            ledger_emit_onChanged, ledger_release, ledger_forgetArmed, ledger_setOccurrence,
            ledger_setState]
          rfl
        · simp only [Bool.not_true, Bool.false_eq_true, if_false, emit]
          split
          · exact revertApplied_armedIds _
          · rfl

theorem cancelCountdown_acts (id : String) :
    Acts a (.cancelCountdown id) w.ledger (w.cancelCountdown a id).ledger := by
  rcases w.cancelCountdown_cases up id with ⟨error, refused⟩ | ⟨e, rfl, stored, armed, free, ledger, _⟩
  · rw [refused, ledger_emit_answered]
    exact .idle _
  · rw [ledger]
    exact .canceled e stored armed free

theorem noteWentLive_acts :
    Acts a .noteWentLive w.ledger (w.noteWentLive a).ledger := by
  simp only [noteWentLive]
  split
  next none =>
    have same : { w with startingId := "" }.ledger = w.ledger := by
      simp [ledger, occurrence, none]
    rw [same]
    exact .idle _
  next asked =>
    rw [up]
    split
    next absent =>
      refine .unclaimed fun e found => ?_
      rw [show w.ledger.row w.ledger.startingId = none from absent] at found
      cases found
    next entry stored =>
      have same : entry.id = w.startingId := ScheduleStore.get_id stored
      split
      next unarmed =>
        refine .unclaimed fun e found => ?_
        rw [show w.ledger.row w.ledger.startingId = some entry from stored] at found
        cases found
        exact unarmed
      next armed =>
        simp only [Bool.not_true, Bool.false_eq_true, if_false, ledger_emit_onChanged,
          ledger_forgetArmed]
        have wentLive := Acts.wentLive (a := a) (L := w.ledger) entry (same ▸ stored) (not_not.mp armed)
          same.symm
        rw [← ledger_setState] at wentLive
        rw [← same]
        exact wentLive

theorem noteStoppedStreaming_acts :
    Acts a .noteStoppedStreaming w.ledger (w.noteStoppedStreaming a).ledger := by
  simp only [noteStoppedStreaming]
  split
  · exact .idle _
  next live =>
    simp only [up, Bool.not_true, Bool.false_eq_true, if_false, ledger_emit_onChanged,
      ledger_release, ledger_eraseOccurrence, ledger_setState]
    exact .stopped live

end

theorem noteStartFailed_acts : Acts a .noteStartFailed w.ledger w.noteStartFailed.ledger := by
  unfold noteStartFailed
  split
  · exact .idle _
  next asked =>
    dsimp only
    split
    · simp only [ledger_emit_onChanged, ledger_release]
      have failed := Acts.startFailed (a := a) (L := w.ledger)
        { w.ledger.flags w.startingId with failed := true } asked (.inr rfl)
      simp only [ledger_setOccurrence]
      exact failed
    · simp only [ledger_emit_onChanged]
      have failed := Acts.startFailed (a := a) (L := w.ledger) (w.ledger.flags w.startingId) asked (.inl rfl)
      have kept : w.ledger.setFlags w.ledger.startingId (w.ledger.flags w.startingId) = w.ledger :=
        congrArg (fun flags => { w.ledger with flags }) (Function.update_eq_self w.startingId w.ledger.flags)
      rw [kept] at failed
      have release := ledger_release { w with startingId := "" } w.startingId
      exact (congrArg (Acts a .noteStartFailed w.ledger) release).mpr failed

/-- The imminent entry is one of the armed rows. -/
theorem imminentArmedId_armed (up : a.storeUp = true) {e : ScheduleEntry}
    (stored : w.store.get true (w.imminentArmedId a) = some e) : e.state = .armed := by
  -- the candidate so far is unset or names an armed row
  have held : (w.armedIds.foldl (w.sooner a) ("", 0)).1 = "" ∨
      ∀ e, w.store.get true (w.armedIds.foldl (w.sooner a) ("", 0)).1 = some e → e.state = .armed := by
    refine List.foldlRecOn (b := ("", 0)) w.armedIds (w.sooner a)
      (motive := fun best => best.1 = "" ∨ ∀ e, w.store.get true best.1 = some e → e.state = .armed)
      (.inl rfl) ?_
    intro best start id _
    simp only [sooner]
    rw [up]
    split
    · exact start
    next row found =>
      split
      · exact start
      next armed =>
        split
        · right
          intro e again
          rw [found] at again
          cases again
          exact not_not.mp armed
        · exact start
  rcases held with none | armed
  · exact absurd none (ScheduleStore.ne_empty_of_get stored)
  · exact armed e stored

theorem adoptImminentArmed_acts (up : a.storeUp = true) :
    Acts a .adoptImminentArmed w.ledger (w.adoptImminentArmed a).ledger := by
  unfold adoptImminentArmed
  split
  · exact .idle _
  next idle =>
    simp only [not_or, not_not] at idle
    dsimp only
    split
    · exact .idle _
    next named =>
      split
      · exact .idle _
      next unasked =>
        split
        · exact .idle _
        next unheld =>
          rw [up]
          split
          · exact .idle _
          next entry stored =>
            have same : entry.id = w.imminentArmedId a := ScheduleStore.get_id stored
            rw [← same] at stored named unasked unheld ⊢
            have asked : (w.ledger.flags entry.id).requested = false := by
              simpa [hasRequestedStart, ledger, Occurrence.flags] using unasked
            -- nothing is live and this entry has not asked, so it is not in flight itself
            have free : w.ledger.Free a.now entry.id := by
              refine w.free_of_unheld ?_ (by simpa using unheld)
              rintro (⟨_, live⟩ | ⟨requested, _⟩)
              · exact named (live.symm.trans idle.2)
              · rw [asked] at requested
                cases requested
            rcases w.prepareStart_cases (a := a)
                { entry, destinations := w.store.destinationsFor true entry.id } with
              ⟨_, error, blocked⟩ | ⟨_, _, ledger⟩ | ⟨_, ledger, _⟩
            · rw [blocked]
              exact .idle _
            · rw [ledger]
              exact .adopted entry stored (w.imminentArmedId_armed up (same ▸ stored)) asked idle free
            · rw [ledger]
              exact .adoptRefused entry.id idle free

theorem rearm_ledger (entry : ScheduleEntry) (stored : w.ledger.row entry.id = some entry) :
    (w.rearm entry).ledger = w.ledger.rearm entry.id := by
  simp only [rearm]
  have armed : (if entry.state ≠ .armed then (w.setState entry.id .armed).rememberArmed entry.id
      else w).ledger = w.ledger.setState entry.id .armed := by
    by_cases already : entry.state = .armed
    · simp only [already, ne_eq, not_true_eq_false, if_false]
      exact (already ▸ Ledger.setState_self stored).symm
    · simp [already]
  generalize (if entry.state ≠ .armed then _ else w) = v at armed ⊢
  have flags : (v.occurrence entry.id).flags = w.ledger.flags entry.id :=
    congrArg (fun L : Ledger => L.flags entry.id) armed
  rw [ledger_setOccurrence, armed]
  simp only [Ledger.rearm, ← flags, Occurrence.flags]

theorem rearm_blockReason (entry : ScheduleEntry) : (w.rearm entry).blockReason entry.id = "" := by
  simp [rearm, blockReason, occurrence_setOccurrence]

theorem startNow_acts (up : a.storeUp = true) (id : String) :
    Acts a (.startNow id) w.ledger (w.startNow a id).ledger := by
  unfold startNow
  rw [up]
  split
  · simp only [ledger_emit_answered]
    exact .idle _
  next entry stored =>
    obtain rfl : entry.id = id := ScheduleStore.get_id stored
    split
    · simp only [ledger_emit_answered]
      exact .idle _
    next grounded =>
      have idle := (w.not_isStartInFlight_iff _).mp (by simpa using grounded)
      split
      · simp only [ledger_emit_answered]
        exact .idle _
      next startable =>
        simp only [not_or] at startable
        dsimp only
        generalize probed : w.armable a
          { entry, destinations := w.store.destinationsFor true entry.id } = p
        -- asking the destinations tells the interface at most
        have same : (if p.2.changed = true then p.1.emit .onChanged else p.1).ledger = w.ledger := by
          rw [← armable_ledger (a := a) w { entry, destinations := w.store.destinationsFor true entry.id },
            probed]
          split
          · exact ledger_emit_onChanged p.1
          · rfl
        generalize (if p.2.changed = true then p.1.emit .onChanged else p.1) = v at same ⊢
        split
        · rw [ledger_emit_answered, same]
          exact .idle _
        · split
          · rw [ledger_emit_answered, same]
            exact .idle _
          next unheld =>
            have free : w.ledger.Free a.now entry.id := by
              rw [← same] at idle ⊢
              exact v.free_of_unheld idle (by simpa using unheld)
            simp only [Bool.not_true, Bool.false_eq_true, and_false, if_false]
            have rearmed := v.rearm_ledger entry (by rw [same]; exact stored)
            have clear := v.rearm_blockReason entry
            rw [same] at rearmed
            rcases (v.rearm entry).requestStart_cases (a := a)
                ⟨{ entry with state := .armed }, w.store.destinationsFor true entry.id⟩ with
              ⟨blocked, _⟩ | ⟨_, done, ledger⟩ | ⟨_, ledger, apply, reason, error, wired, answer, failed⟩
            -- rearmed, the entry has no block reason left
            · exact absurd clear blocked
            · simp only [done, ledger_emit_answered, ledger_emit_onChanged, ledger, rearmed]
              exact .started entry stored ⟨startable.1, startable.2.1⟩ free
            · simp only [failed, ledger_emit_answered, ledger, rearmed]
              exact .startRefused entry apply reason wired answer stored
                ⟨startable.1, startable.2.1⟩ free

/-! ### Row changes -/

theorem createRow_acts (id : String) (startsAt : Int) (autoStart : Bool)
    (destinations : List ScheduleDestination) :
    let call := Call.createRow id startsAt autoStart destinations
    Acts a call w.ledger (w.perform a call).ledger := by
  dsimp only [perform]
  split
  · exact .idle _
  next unheld =>
    simp only [holds, not_or] at unheld
    obtain ⟨untracked, _, starting, live, applied⟩ := unheld
    by_cases fresh : id ≠ "" ∧ w.store.get true id = none
    · have flags : w.ledger.flags id = {} := by
        simp [ledger, occurrence, AList.lookup_eq_none.mpr untracked, Occurrence.flags]
      have made := Acts.created (a := a) (L := w.ledger) { id, startsAt, autoStart } destinations rfl
        fresh.1 fresh.2 ⟨starting, live, applied, flags⟩
      have ledger : { w with store := w.store.create id startsAt autoStart destinations }.ledger =
          { w.ledger with row := Function.update w.ledger.row id (some { id, startsAt, autoStart }) } := by
        simp only [World.ledger, occurrence]
        congr 1
        funext other
        rw [ScheduleStore.get_create other startsAt autoStart destinations fresh.1 fresh.2]
        by_cases same : other = id
        · simp [same]
        · simp [same]
      rw [ledger]
      exact made
    -- an id that is empty or taken leaves the store alone
    · have kept : w.store.create id startsAt autoStart destinations = w.store := by
        simp only [ScheduleStore.create]
        rw [dif_neg (by rwa [← ScheduleStore.get_eq_none])]
      rw [kept]
      exact .idle _

theorem editRow_acts (id : String) (startsAt : Int) (autoStart : Bool)
    (destinations : List ScheduleDestination) :
    let call := Call.editRow id startsAt autoStart destinations
    Acts a call w.ledger (w.perform a call).ledger := by
  dsimp only [perform]
  have rows : { w with store := w.store.update id startsAt autoStart destinations }.ledger =
      { w.ledger with
        row := Function.update w.ledger.row id
          ((w.ledger.row id).map fun e => { e with startsAt, autoStart }) } := by
    simp only [ledger, occurrence]
    congr 1
    funext other
    rw [ScheduleStore.get_update]
    by_cases same : other = id
    · simp [same]
    · simp [same]
  rw [rows]
  cases stored : w.ledger.row id with
  | none =>
    rw [Option.map_none, ← stored, Function.update_eq_self]
    exact .idle _
  | some e =>
    obtain rfl : e.id = id := ScheduleStore.get_id stored
    exact .edited e startsAt autoStart destinations stored

theorem deleteRow_acts (id : String) :
    Acts a (.deleteRow id) w.ledger (w.perform a (.deleteRow id)).ledger := by
  dsimp only [perform]
  have rows : { w with store := w.store.remove id }.ledger =
      { w.ledger with row := Function.update w.ledger.row id none } := by
    simp only [ledger, occurrence]
    congr 1
    funext other
    rw [ScheduleStore.get_remove]
    by_cases same : other = id
    · simp [same]
    · simp [same]
  rw [rows]
  exact .deleted id

/-- The runner on a store that answers does to its ledger what `Acts` allows, and no more. -/
theorem perform_acts (up : a.storeUp = true) (call : Call) :
    Acts a call w.ledger (w.perform a call).ledger := by
  cases call with
  | tick => exact w.tick_acts up
  | cancelCountdown id => exact w.cancelCountdown_acts up id
  | startNow id => exact w.startNow_acts up id
  | adoptImminentArmed => exact w.adoptImminentArmed_acts up
  | noteEntryChanged id => exact w.noteEntryChanged_acts up id
  | noteWentLive => exact w.noteWentLive_acts up
  | noteStartFailed => exact w.noteStartFailed_acts
  | noteStoppedStreaming => exact w.noteStoppedStreaming_acts up
  | createRow id startsAt autoStart destinations =>
    exact w.createRow_acts id startsAt autoStart destinations
  | editRow id startsAt autoStart destinations => exact w.editRow_acts id startsAt autoStart destinations
  | deleteRow id => exact w.deleteRow_acts id

end World

/-- A step of the runner, on the ledger with its record of the last operation wiped. -/
theorem step_acts {w w' : World} {i : Input} (up : i.answers.storeUp = true) (step : Step w i w') :
    Acts i.answers i.call { w.ledger with reverted := [], launched := [] } w'.ledger := by
  rw [← show w.step i = w' from step]
  exact World.perform_acts { w with effects := [] } up i.call

end Braidcast.Schedule
