import Braidcast.Schedule.Sound

/-!
# What a tick leaves behind

A tick goes over the rows in reach, over the armed list for the rows it can no longer see,
and sweeps what is late. Between them no row is left in a state its time does not allow.
-/
namespace Braidcast.Schedule

open Relation (ReflTransGen)
open Braidcast.Lib (Moment Run star_keeps trace run_trace input_of_mem_trace last_mem_trace)
open Ledger

/-! ### The armed list -/

/-- The armed list is free of duplicates and has every armed row. -/
structure Remembers (w : World) : Prop where
  nodup : w.armedIds.Nodup
  armed : ∀ id e, w.ledger.row id = some e → e.state = .armed → id ∈ w.armedIds

namespace World

variable {a : Answers} (w : World)

@[simp] theorem setBlockReason_armedIds (id reason : String) :
    (w.setBlockReason id reason).1.armedIds = w.armedIds := by
  simp only [setBlockReason]
  split
  · rfl
  · split <;> rfl

@[simp] theorem setDestinationRefusals_armedIds (id : String) (refusals : List DestinationRefusal) :
    (w.setDestinationRefusals id refusals).1.armedIds = w.armedIds := by
  simp only [setDestinationRefusals]
  split
  · rfl
  · split <;> rfl

section

variable (row : ScheduleEntryWithDestinations)

@[simp] theorem armable_armedIds :
    (w.armable a row).1.armedIds = w.armedIds := by
  unfold armable
  split
  · rfl
  · dsimp only
    split <;> simp

@[simp] theorem refreshArmability_armedIds :
    (w.refreshArmability a row).1.armedIds = w.armedIds := by
  simp only [refreshArmability]
  split
  · rfl
  · simp

@[simp] theorem openCountdownIfDue_armedIds :
    (w.openCountdownIfDue a row).armedIds = w.armedIds := by
  simp only [openCountdownIfDue]
  split
  · rfl
  · split <;> rfl

@[simp] theorem prepareStart_armedIds :
    (w.prepareStart a row).1.armedIds = w.armedIds := by
  simp only [prepareStart]
  split
  · rfl
  · split
    · rfl
    · split
      · exact revertApplied_armedIds w
      · exact revertApplied_armedIds w

@[simp] theorem requestStart_armedIds :
    (w.requestStart a row).1.armedIds = w.armedIds := by
  simp only [requestStart]
  split
  · exact prepareStart_armedIds w row
  · exact prepareStart_armedIds w row

@[simp] theorem startIfDue_armedIds :
    (w.startIfDue a row).1.armedIds = w.armedIds := by
  simp only [startIfDue]
  split
  · rfl
  · split
    · rfl
    · split <;> simp

end

@[simp] theorem settleApplied_armedIds : (w.settleApplied a).armedIds = w.armedIds := by
  simp only [settleApplied]
  split
  · rfl
  · split
    · split
      · rfl
      · exact revertApplied_armedIds w
    · exact revertApplied_armedIds w

theorem rememberArmed_armedIds (id : String) : (w.rememberArmed id).armedIds =
    if id ∈ w.armedIds then w.armedIds else w.armedIds ++ [id] := by
  simp only [rememberArmed]
  split <;> rfl

theorem mem_rememberArmed {id other : String} :
    other ∈ (w.rememberArmed id).armedIds ↔ other = id ∨ other ∈ w.armedIds := by
  simp only [rememberArmed]
  split
  next known =>
    constructor
    · exact .inr
    · rintro (rfl | old)
      · exact known
      · exact old
  · simp [or_comm]

theorem rememberArmed_setState (id : String) (state : ScheduleState) :
    ((w.setState id state).rememberArmed id).armedIds = (w.rememberArmed id).armedIds := by
  simp only [rememberArmed_armedIds]
  rfl

theorem rememberArmed_nodup {id : String} (nodup : w.armedIds.Nodup) :
    (w.rememberArmed id).armedIds.Nodup := by
  simp only [rememberArmed]
  split
  · exact nodup
  next fresh =>
    rw [List.nodup_append_comm]
    simpa using ⟨fresh, nodup⟩

end World

namespace Remembers

variable {w v : World}

/-- What leaves the list alone and arms no row. -/
theorem keep (remembers : Remembers w) (same : v.armedIds = w.armedIds)
    (rows : ∀ id e, v.ledger.row id = some e → e.state = .armed →
      ∃ old, w.ledger.row id = some old ∧ old.state = .armed) : Remembers v where
  nodup := by rw [same]; exact remembers.nodup
  armed := by
    intro id e stored armed
    obtain ⟨old, before, state⟩ := rows id e stored armed
    rw [same]
    exact remembers.armed id old before state

/-- What strikes an id from the list leaves its row unarmed. -/
theorem strike (remembers : Remembers w) {id : String} (same : v.armedIds = w.armedIds.erase id)
    (rows : ∀ other e, v.ledger.row other = some e → e.state = .armed →
      other ≠ id ∧ ∃ old, w.ledger.row other = some old ∧ old.state = .armed) : Remembers v where
  nodup := by rw [same]; exact remembers.nodup.erase id
  armed := by
    intro other e stored armed
    obtain ⟨differs, old, before, state⟩ := rows other e stored armed
    rw [same]
    exact (List.mem_erase_of_ne differs).mpr (remembers.armed other old before state)

/-- What arms a row also lists it. -/
theorem add (remembers : Remembers w) {id : String} (same : v.armedIds = (w.rememberArmed id).armedIds)
    (rows : ∀ other e, v.ledger.row other = some e → e.state = .armed →
      other = id ∨ ∃ old, w.ledger.row other = some old ∧ old.state = .armed) : Remembers v where
  nodup := by rw [same]; exact w.rememberArmed_nodup remembers.nodup
  armed := by
    intro other e stored armed
    rw [same, w.mem_rememberArmed]
    rcases rows other e stored armed with here | ⟨old, before, state⟩
    · exact .inl here
    · exact .inr (remembers.armed other old before state)

end Remembers

/-! ### Pruning -/

/-- What going over `ids` does: armed rows stay as they were, those of `ids` are listed again,
and one too far ahead is left armed only in flight. -/
structure Relisted (a : Answers) (ids : List String) (v w : World) : Prop where
  rows : ∀ id e, w.ledger.row id = some e → e.state = .armed → v.ledger.row id = some e
  nodup : v.armedIds.Nodup → w.armedIds.Nodup
  kept : ∀ id e, id ∈ v.armedIds → w.ledger.row id = some e → e.state = .armed → id ∈ w.armedIds
  listed : ∀ id e, id ∈ ids → w.ledger.row id = some e → e.state = .armed →
    id ∈ w.armedIds ∧ (kArmLeadMs < e.startsAt - a.now → w.ledger.InFlight a.now id)
  flying : ∀ id, v.ledger.InFlight a.now id → w.ledger.InFlight a.now id

variable {a : Answers}

theorem pruneArmedId_relists (up : a.storeUp = true) (p : World × Bool) (id : String) :
    Relisted a [id] p.1 (World.pruneArmedId a p id).1 := by
  unfold World.pruneArmedId
  rw [up]
  split
  next absent =>
    refine ⟨fun _ _ stored _ => stored, fun nodup => nodup, fun _ _ old _ _ => old, ?_, fun _ fly => fly⟩
    intro other e same stored armed
    rw [List.mem_singleton.mp same] at stored
    exact absurd (absent.symm.trans stored) (by simp)
  next row stored =>
    obtain rfl : row.id = id := ScheduleStore.get_id stored
    split
    next unarmed =>
      refine ⟨fun _ _ stored _ => stored, fun nodup => nodup, fun _ _ old _ _ => old, ?_, fun _ fly => fly⟩
      intro other e same found armed
      rw [List.mem_singleton.mp same] at found
      cases stored.symm.trans found
      exact absurd armed unarmed
    next armed =>
      dsimp only
      rcases p.1.disarmIfOutOfWindow_cases up row with
        ⟨kept, flies⟩ | ⟨_, ahead, free, disarmed, ledger, erased⟩
      -- in reach, or in flight: listed again
      · simp only [kept, Bool.false_eq_true, if_false]
        refine ⟨?_, p.1.rememberArmed_nodup, ?_, ?_, ?_⟩
        · rw [World.ledger_rememberArmed]
          exact fun _ _ found _ => found
        · exact fun other e old _ _ => p.1.mem_rememberArmed.mpr (.inr old)
        · intro other e same found state
          rw [World.ledger_rememberArmed] at found ⊢
          rw [List.mem_singleton.mp same] at found ⊢
          cases stored.symm.trans found
          exact ⟨p.1.mem_rememberArmed.mpr (.inl rfl), flies state⟩
        · simp
      -- too far ahead: planned again, and struck from the list
      · simp only [disarmed, if_true]
        refine ⟨?_, ?_, ?_, ?_, ?_⟩
        · rw [ledger]
          intro other e found state
          simp only [release_row, setFlags_row] at found
          rcases of_setState_row _ _ _ _ found with ⟨_, planned⟩ | ⟨_, before⟩
          · rw [planned] at state; cases state
          · exact before
        · rw [erased]
          exact fun nodup => nodup.erase _
        · rw [ledger, erased]
          intro other e old found state
          simp only [release_row, setFlags_row] at found
          rcases of_setState_row _ _ _ _ found with ⟨_, planned⟩ | ⟨differs, _⟩
          · rw [planned] at state; cases state
          · exact (List.mem_erase_of_ne differs).mpr old
        · rw [ledger]
          intro other e same found state
          simp only [release_row, setFlags_row] at found
          rcases of_setState_row _ _ _ _ found with ⟨_, planned⟩ | ⟨differs, _⟩
          · rw [planned] at state; cases state
          · exact absurd (List.mem_singleton.mp same) differs
        · rw [ledger]
          intro other fly
          have differs : other ≠ row.id := fun same => free (same ▸ fly)
          simpa [InFlight, Pending, setFlags_flags, differs] using fly

theorem pruneArmedIds_relist (up : a.storeUp = true) (ids : List String) (p : World × Bool) :
    Relisted a ids p.1 (ids.foldl (World.pruneArmedId a) p).1 := by
  induction ids generalizing p with
  | nil =>
    exact ⟨fun _ _ stored _ => stored, fun nodup => nodup, fun _ _ old _ _ => old, by simp, fun _ fly => fly⟩
  | cons id ids ih =>
    have first := pruneArmedId_relists up p id
    have rest := ih (World.pruneArmedId a p id)
    refine ⟨?_, fun nodup => rest.nodup (first.nodup nodup), ?_, ?_,
      fun other fly => rest.flying other (first.flying other fly)⟩
    · exact fun other e stored armed => first.rows other e (rest.rows other e stored armed) armed
    · intro other e old stored armed
      exact rest.kept other e (first.kept other e old (rest.rows other e stored armed) armed) stored armed
    · intro other e member stored armed
      rcases List.mem_cons.mp member with rfl | later
      · obtain ⟨listed, fly⟩ := first.listed other e (by simp) (rest.rows other e stored armed) armed
        exact ⟨rest.kept other e listed stored armed, fun ahead => rest.flying other (fly ahead)⟩
      · exact rest.listed other e later stored armed

theorem pruneStarting_armedIds (w : World) : (w.pruneStarting a).armedIds = w.armedIds := by
  simp only [World.pruneStarting]
  split
  · split
    · split <;> rfl
    · rfl
  · rfl

theorem pruneLive_armedIds (w : World) : (w.pruneLive a).armedIds = w.armedIds := by
  simp only [World.pruneLive]
  split
  · split
    · split <;> rfl
    · rfl
  · rfl

variable {w : World}

/-- After pruning, every armed row is listed, and one too far ahead is in flight. -/
theorem pruneStale_settles (up : a.storeUp = true) (sound : Sound w.ledger) (remembers : Remembers w) :
    Remembers (w.pruneStale a).1 ∧ ∀ id e, (w.pruneStale a).1.ledger.row id = some e →
      e.state = .armed → kArmLeadMs < e.startsAt - a.now → (w.pruneStale a).1.ledger.InFlight a.now id := by
  unfold World.pruneStale
  dsimp only
  obtain ⟨sameIds, sameStore⟩ := World.pruneOccurrences_keep (a := a) w.occurrences.keys (w, false)
  have dropped := World.foldl_prunes _ (World.pruneOccurrence_prunes up) w.occurrences.keys (w, false)
  generalize w.occurrences.keys.foldl (World.pruneOccurrence a) (w, false) = p at dropped sameIds sameStore ⊢
  have disarmed := World.foldl_prunes _ (World.pruneArmedId_prunes up) p.1.armedIds
    ({ p.1 with armedIds := [] }, p.2)
  have relisted := pruneArmedIds_relist up p.1.armedIds ({ p.1 with armedIds := [] }, p.2)
  generalize p.1.armedIds.foldl (World.pruneArmedId a) ({ p.1 with armedIds := [] }, p.2) = q
    at disarmed relisted ⊢
  have sound' : Sound q.1.ledger := star_keeps (P := Sound) (fun _ _ step => step.sound)
    (dropped.trans disarmed) sound
  obtain ⟨flags, rows⟩ := q.1.pruneStarting_keeps (a := a)
  obtain ⟨_, rows', flags'⟩ := (q.1.pruneStarting a).pruneLive_keeps (a := a)
  have slots : ((q.1.pruneStarting a).pruneLive a).armedIds = q.1.armedIds := by
    rw [pruneLive_armedIds, pruneStarting_armedIds]
  rw [rows] at rows'
  rw [flags] at flags'
  generalize (q.1.pruneStarting a).pruneLive a = v at rows' flags' slots ⊢
  -- an armed row was on the list that was gone over
  have listed : ∀ id e, v.ledger.row id = some e → e.state = .armed → id ∈ q.1.armedIds ∧
      (kArmLeadMs < e.startsAt - a.now → q.1.ledger.InFlight a.now id) := by
    intro id e stored armed
    rw [rows'] at stored
    have before : p.1.ledger.row id = some e := relisted.rows id e stored armed
    have known : id ∈ w.armedIds := by
      refine remembers.armed id e ?_ armed
      have same : p.1.ledger.row = w.ledger.row := congrArg (fun store => store.get true) sameStore
      rwa [same] at before
    exact relisted.listed id e (sameIds ▸ known) stored armed
  refine ⟨⟨?_, ?_⟩, ?_⟩
  · rw [slots]
    exact relisted.nodup List.nodup_nil
  · rw [slots]
    exact fun id e stored armed => (listed id e stored armed).1
  · intro id e stored armed ahead
    -- the live row does not read armed
    rcases (listed id e stored armed).2 ahead with ⟨_, live⟩ | pending
    · rw [rows', ← live] at stored
      rw [sound'.live e stored] at armed
      cases armed
    · right
      simpa only [Pending, flags'] using pending

/-! ### The rest of the tick -/

/-- Armed too far ahead only in flight. -/
def Ledger.AheadFlying (now : Int) (L : Ledger) : Prop :=
  ∀ id e, L.row id = some e → e.state = .armed → kArmLeadMs < e.startsAt - now → L.InFlight now id

/-- Planned within the arm window only if canceled. -/
def Ledger.Shunned (now : Int) (L : Ledger) (id : String) : Prop :=
  ∀ e, L.row id = some e → e.state = .planned → now < e.startsAt → e.startsAt - now ≤ kArmLeadMs →
    (L.flags id).canceled = true

theorem Move.aheadFlying {L M : Ledger} (step : Move a L M) (flying : L.AheadFlying a.now) :
    M.AheadFlying a.now := by
  intro id e found state ahead
  cases step with
  | arm | refuse | settle | miss => grind [AheadFlying, InFlight, Pending]
  | launch other stored armed due wanted unasked free =>
    -- a launched entry is due, so it is not too far ahead
    have apart : id ≠ other.id := by
      rintro rfl
      have same : other = e := by grind
      subst same
      simp only [kArmLeadMs] at ahead
      omega
    have before : L.row id = some e := by simpa using found
    have fly := flying id e before state ahead
    simpa [InFlight, Pending, mark_flags, apart] using fly

theorem Move.shunned {L M : Ledger} (step : Move a L M) {id : String} (shunned : L.Shunned a.now id) : M.Shunned a.now id := by
  cases step with
  | arm | launch | refuse | miss | settle => grind [Shunned]

theorem tickRow_shuns (up : a.storeUp = true) (p : World × Bool)
    {row : ScheduleEntryWithDestinations} (stored : p.1.ledger.row row.entry.id = some row.entry)
    (reach : a.now - kMissedGraceMs ≤ row.entry.startsAt) (live : p.1.ledger.LiveRow) :
    (World.tickRow a p row).1.ledger.Shunned a.now row.entry.id := by
  obtain ⟨_, live', ⟨sameId, sameTime⟩, stored', _⟩ := p.1.armIfDue_moves (a := a) stored live
  obtain ⟨moves, _, _⟩ := World.afterArming_moves (a := a) _ _ stored' (sameTime ▸ reach) live'
  refine star_keeps (P := fun L => L.Shunned a.now row.entry.id) (fun _ _ step => step.shunned) moves ?_
  -- what arming passed over was not planned, not in reach, or canceled
  intro e found planned
  rw [← sameId] at found
  cases stored'.symm.trans found
  rcases p.1.armIfDue_cases (a := a) row with ⟨kept, shunned⟩ | ⟨_, _, _, _, armed⟩
  · simp only [kept] at planned ⊢
    exact shunned up planned
  · simp [armed] at planned

theorem tickRow_remembers (p : World × Bool) {row : ScheduleEntryWithDestinations}
    (stored : p.1.ledger.row row.entry.id = some row.entry)
    (reach : a.now - kMissedGraceMs ≤ row.entry.startsAt) (live : p.1.ledger.LiveRow)
    (remembers : Remembers p.1) : Remembers (World.tickRow a p row).1 := by
  obtain ⟨_, live', ⟨_, sameTime⟩, stored', others⟩ := p.1.armIfDue_moves (a := a) stored live
  obtain ⟨_, rows, _⟩ := World.afterArming_moves (a := a) _ _ stored' (sameTime ▸ reach) live'
  have armed : Remembers (p.1.armIfDue a row).1 := by
    rcases p.1.armIfDue_cases (a := a) row with ⟨kept, _⟩ | ⟨_, _, _, _, armed⟩
    · rw [kept]
      exact remembers
    · refine remembers.add (by rw [armed, World.rememberArmed_setState]) fun other e found state => ?_
      by_cases same : other = row.entry.id
      · exact .inl same
      · rw [others other same] at found
        exact .inr ⟨e, found, state⟩
  refine armed.keep (by simp [World.tickRow]) fun id e found state => ⟨e, ?_, state⟩
  rw [World.tickRow, rows] at found
  exact found

/-- The rows' turns: each row in reach that is left planned was canceled. -/
theorem tickRows_settle (up : a.storeUp = true) {rows : List ScheduleEntryWithDestinations}
    (nodup : (rows.map (·.entry.id)).Nodup) (p : World × Bool)
    (stored : ∀ row ∈ rows, p.1.ledger.row row.entry.id = some row.entry)
    (reach : ∀ row ∈ rows, a.now - kMissedGraceMs ≤ row.entry.startsAt) (live : p.1.ledger.LiveRow)
    (remembers : Remembers p.1) :
    Remembers (rows.foldl (World.tickRow a) p).1 ∧
      ∀ row ∈ rows, (rows.foldl (World.tickRow a) p).1.ledger.Shunned a.now row.entry.id := by
  induction rows generalizing p with
  | nil => exact ⟨remembers, by simp⟩
  | cons row rows ih =>
    obtain ⟨fresh, rest⟩ := List.nodup_cons.mp nodup
    have here := stored row (by simp)
    have soon := reach row (by simp)
    obtain ⟨_, others, live'⟩ := World.tickRow_moves (a := a) p here soon live
    have later : ∀ r ∈ rows, (World.tickRow a p row).1.ledger.row r.entry.id = some r.entry := by
      intro r member
      rw [others _ fun same => fresh (List.mem_map.mpr ⟨r, member, same⟩)]
      exact stored r (by simp [member])
    have reach' : ∀ r ∈ rows, a.now - kMissedGraceMs ≤ r.entry.startsAt :=
      fun r member => reach r (by simp [member])
    obtain ⟨remembers', shunned⟩ := ih rest _ later reach' live' (tickRow_remembers p here soon live remembers)
    refine ⟨remembers', fun r member => ?_⟩
    rcases List.mem_cons.mp member with rfl | old
    · exact star_keeps (P := fun L => L.Shunned a.now r.entry.id) (fun _ _ step => step.shunned)
        (World.tickRows_moves rest _ later reach' live') (tickRow_shuns up p here soon live)
    · exact shunned r old

/-- Every row is where its time allows. -/
structure Settled (a : Answers) (w : World) : Prop where
  ahead : w.ledger.AheadFlying a.now
  late : ∀ id e, w.ledger.row id = some e → e.state = .planned ∨ e.state = .armed →
    e.startsAt < a.now - kMissedGraceMs → w.ledger.InFlight a.now id
  near : ∀ id, w.ledger.Shunned a.now id
  remembers : Remembers w

/-- Neither what is loaded nor what was told matters to what is settled. -/
theorem Settled.congr {v w : World} (settled : Settled a w)
    (rows : v.ledger.row = w.ledger.row) (flags : v.ledger.flags = w.ledger.flags)
    (live : v.ledger.liveId = w.ledger.liveId) (listed : v.armedIds = w.armedIds) : Settled a v := by
  have flying : ∀ id, v.ledger.InFlight a.now id ↔ w.ledger.InFlight a.now id := by
    simp only [InFlight, Pending, flags, live, implies_true]
  constructor
  · simpa only [AheadFlying, rows, flying] using settled.ahead
  · simpa only [rows, flying] using settled.late
  · simpa only [Shunned, rows, flags] using settled.near
  · exact settled.remembers.keep listed fun id e found armed => ⟨e, rows ▸ found, armed⟩

theorem settleApplied_keeps (w : World) :
    (w.settleApplied a).ledger.row = w.ledger.row ∧ (w.settleApplied a).ledger.flags = w.ledger.flags ∧
      (w.settleApplied a).ledger.liveId = w.ledger.liveId := by
  have put : w.revertApplied.ledger.row = w.ledger.row ∧ w.revertApplied.ledger.flags = w.ledger.flags ∧
      w.revertApplied.ledger.liveId = w.ledger.liveId := by
    rw [World.ledger_revertApplied]
    exact ⟨by funext id; simp, by funext id; simp, by simp⟩
  simp only [World.settleApplied]
  split
  · exact ⟨rfl, rfl, rfl⟩
  · split
    · split
      · exact ⟨rfl, rfl, rfl⟩
      · exact put
    · exact put

theorem sweep_settles (ahead : w.ledger.AheadFlying a.now) (near : ∀ id, w.ledger.Shunned a.now id) (remembers : Remembers w) :
    Settled a { w with
      store := w.store.sweepMissed true (a.now - kMissedGraceMs) (w.inFlightIds a) } := by
  have moves := w.sweep_moves (a := a)
  refine ⟨star_keeps (P := fun L => L.AheadFlying a.now) (fun _ _ step => step.aheadFlying) moves ahead, ?_,
    fun id => star_keeps (P := fun L => L.Shunned a.now id) (fun _ _ step => step.shunned) moves (near id), ?_⟩
  · intro id e found waiting late
    obtain ⟨old, stored, result⟩ := Option.map_eq_some_iff.mp
      ((ScheduleStore.get_sweepMissed w.store _ _ id).symm.trans found)
    split at result
    next missed =>
      subst result
      simp at waiting
    next spared =>
      subst result
      have flying : old.id ∈ w.inFlightIds a := by
        by_contra swept
        exact spared ⟨⟨late, waiting⟩, swept⟩
      rw [← ScheduleStore.get_id stored]
      exact (w.isStartInFlight_iff old.id).mp (List.mem_filter.mp flying).2
  · refine remembers.keep rfl fun id e found armed => ?_
    obtain ⟨old, stored, rfl⟩ := Option.map_eq_some_iff.mp
      ((ScheduleStore.get_sweepMissed w.store _ _ id).symm.trans found)
    refine ⟨old, stored, ?_⟩
    split at armed
    · cases armed
    · exact armed

theorem tick_settles (up : a.storeUp = true) (sound : Sound w.ledger) (remembers : Remembers w) : Settled a (w.tick a) := by
  obtain ⟨_, pruned⟩ := w.pruneStale_prunes up
  obtain ⟨remembers', ahead⟩ := pruneStale_settles up sound remembers
  simp only [World.tick, up]
  generalize w.pruneStale a = p at pruned remembers' ahead ⊢
  have stored : ∀ row ∈ p.1.store.listRange true (a.now - kMissedGraceMs) (a.now + kArmLeadMs + 1),
      p.1.ledger.row row.entry.id = some row.entry :=
    fun row member => ScheduleStore.get_row (ScheduleStore.mem_listRange.mp member).1
  have reach : ∀ row ∈ p.1.store.listRange true (a.now - kMissedGraceMs) (a.now + kArmLeadMs + 1),
      a.now - kMissedGraceMs ≤ row.entry.startsAt :=
    fun row member => (ScheduleStore.mem_listRange.mp member).2.1
  have nodup := p.1.store.listRange_ids_nodup (a.now - kMissedGraceMs) (a.now + kArmLeadMs + 1)
  have moves := World.tickRows_moves (a := a) nodup p stored reach pruned.live
  obtain ⟨remembers'', shunned⟩ := tickRows_settle up nodup p stored reach pruned.live remembers'
  generalize (p.1.store.listRange true _ _).foldl (World.tickRow a) p = q at moves remembers'' shunned ⊢
  have ahead' := star_keeps (P := fun L => L.AheadFlying a.now) (fun _ _ step => step.aheadFlying) moves ahead
  -- a row in the window after the turns was in reach before them
  have near : ∀ id, q.1.ledger.Shunned a.now id := by
    intro id e found planned future soon
    obtain ⟨old, before, same⟩ := star_keeps (P := p.1.ledger.Timed) (fun _ _ step => step.timed) moves
      (fun _ e stored => ⟨e, stored, rfl⟩) id e found
    obtain ⟨row, member, rfl, rfl⟩ := ScheduleStore.get_eq_some.mp before
    refine shunned row (ScheduleStore.mem_listRange.mpr ⟨member, ?_, ?_⟩) e found planned future soon
    · simp only [kMissedGraceMs]
      omega
    · omega
  have swept := sweep_settles ahead' near remembers''
  generalize { q.1 with store := q.1.store.sweepMissed true (a.now - kMissedGraceMs) (q.1.inFlightIds a) } = v
    at swept ⊢
  obtain ⟨rows, flags, live⟩ := settleApplied_keeps (a := a) v
  have settled : Settled a (v.settleApplied a) := swept.congr rows flags live (v.settleApplied_armedIds)
  split
  · exact settled.congr rfl rfl rfl rfl
  · exact settled

/-! ### The armed list under every operation -/

theorem Acts.armedRows {call : Call} {L M : Ledger} (acts : Acts a call L M)
    (quiet : call ≠ .tick) (id : String) (other : call ≠ .startNow id) :
    ∀ e, M.row id = some e → e.state = .armed → ∃ old, L.row id = some old ∧ old.state = .armed := by
  intro e found armed
  cases acts with
  | idle | unclaimed => exact ⟨e, found, armed⟩
  | ticked => exact absurd rfl quiet
  | canceled | disarmed | started | startRefused | adopted | adoptRefused | forgotten | wentLive
  | startFailed => grind
  | stopped alive =>
    simp only [release_row, setFlags_row] at found
    rcases of_setState_row _ _ _ _ found with ⟨_, done⟩ | ⟨_, before⟩
    · rw [done] at armed; cases armed
    · exact ⟨e, before, armed⟩
  | created | edited | deleted => grind [Function.update_apply]

/-- The list is as it was, or lost an id whose row is not armed. -/
def Struck (w v : World) : Prop :=
  v.armedIds = w.armedIds ∨
    ∃ id, v.armedIds = w.armedIds.erase id ∧ ∀ e, v.ledger.row id = some e → e.state ≠ .armed

theorem Remembers.struck {w v : World} (remembers : Remembers w) (struck : Struck w v)
    (rows : ∀ id e, v.ledger.row id = some e → e.state = .armed →
      ∃ old, w.ledger.row id = some old ∧ old.state = .armed) : Remembers v := by
  rcases struck with same | ⟨id, erased, unarmed⟩
  · exact remembers.keep same rows
  · refine remembers.strike erased fun other e found armed => ⟨?_, rows other e found armed⟩
    rintro rfl
    exact unarmed e found armed

theorem release_unarmed {L : Ledger} {id : String} {flags : Flags} :
    ∀ e, (((L.setState id .planned).setFlags id flags).release id).row id = some e → e.state ≠ .armed := by
  intro e found armed
  simp only [release_row, setFlags_row] at found
  rcases of_setState_row _ _ _ _ found with ⟨_, planned⟩ | ⟨differs, _⟩
  · rw [planned] at armed; cases armed
  · exact differs rfl

theorem cancelCountdown_strikes (up : a.storeUp = true) (w : World) (id : String) :
    Struck w (w.cancelCountdown a id) := by
  rcases w.cancelCountdown_cases up id with ⟨error, refused⟩ | ⟨e, rfl, _, _, _, ledger, erased⟩
  · rw [refused]
    exact .inl rfl
  · refine .inr ⟨e.id, erased, ?_⟩
    rw [ledger]
    exact release_unarmed

theorem noteEntryChanged_strikes (up : a.storeUp = true) (w : World) (id : String) :
    Struck w (w.noteEntryChanged a id) := by
  unfold World.noteEntryChanged
  rw [up]
  split
  next entry stored =>
    rcases w.disarmIfOutOfWindow_cases up entry with ⟨kept, _⟩ | ⟨_, _, _, _, ledger, erased⟩
    · rw [kept]
      exact .inl rfl
    · refine .inr ⟨entry.id, erased, ?_⟩
      rw [ledger]
      exact release_unarmed
  next deleted =>
    have gone : ∀ v : World, v.armedIds = w.armedIds.erase id → v.ledger.row id = none → Struck w v :=
      fun v erased absent => .inr ⟨id, erased, fun e found => by rw [absent] at found; cases found⟩
    dsimp only
    split
    · exact gone _ rfl deleted
    · split
      · exact gone _ rfl deleted
      · refine gone _ (by rw [World.revertApplied_armedIds]; rfl) ?_
        rw [World.ledger_revertApplied, revert_row]
        exact deleted

theorem noteWentLive_strikes (up : a.storeUp = true) (w : World) :
    Struck w (w.noteWentLive a) := by
  simp only [World.noteWentLive]
  split
  · exact .inl rfl
  · rw [up]
    split
    next absent =>
      refine .inr ⟨w.startingId, rfl, fun e found => ?_⟩
      rw [show w.store.get true w.startingId = some e from found] at absent
      cases absent
    next entry stored =>
      split
      next unarmed =>
        refine .inr ⟨w.startingId, rfl, fun e found => ?_⟩
        cases stored.symm.trans found
        exact unarmed
      · simp only [Bool.not_true, Bool.false_eq_true, if_false]
        refine .inr ⟨w.startingId, rfl, fun e found armed => ?_⟩
        rw [World.ledger_emit_onChanged, World.ledger_forgetArmed] at found
        have row : (w.ledger.setState w.startingId .live).row w.startingId = some e := by
          rw [← World.ledger_setState]
          exact found
        rcases of_setState_row _ _ _ _ row with ⟨_, live⟩ | ⟨differs, _⟩
        · rw [live] at armed; cases armed
        · exact differs rfl

theorem noteStoppedStreaming_armedIds (w : World) :
    (w.noteStoppedStreaming a).armedIds = w.armedIds := by
  unfold World.noteStoppedStreaming
  split
  · rfl
  · dsimp only
    split
    · rfl
    · simp only [World.emit]
      split
      · exact World.revertApplied_armedIds _
      · rfl

theorem noteStartFailed_armedIds (w : World) : w.noteStartFailed.armedIds = w.armedIds := by
  simp only [World.noteStartFailed]
  split
  · rfl
  · simp only [World.emit]
    split <;> split <;> simp [World.setOccurrence]

theorem adoptImminentArmed_armedIds (w : World) :
    (w.adoptImminentArmed a).armedIds = w.armedIds := by
  unfold World.adoptImminentArmed
  split
  · rfl
  · dsimp only
    split
    · rfl
    · split
      · rfl
      · split
        · rfl
        · split
          · rfl
          · exact World.prepareStart_armedIds w _

theorem rearm_armedIds (w : World) (entry : ScheduleEntry) : (w.rearm entry).armedIds =
    if entry.state ≠ .armed then (w.rememberArmed entry.id).armedIds else w.armedIds := by
  simp only [World.rearm, World.setOccurrence]
  split
  · exact w.rememberArmed_setState entry.id .armed
  · rfl

/-- A manual start lists the entry, or found it armed already, or was refused. -/
theorem startNow_lists (up : a.storeUp = true) (w : World) (id : String) :
    ((w.startNow a id).armedIds = w.armedIds ∧ ((w.startNow a id).ledger = w.ledger ∨
      ∃ e, w.ledger.row id = some e ∧ e.state = .armed)) ∨
    (w.startNow a id).armedIds = (w.rememberArmed id).armedIds := by
  have refused : ∀ v : World, v.ledger = w.ledger → v.armedIds = w.armedIds → ∀ error,
      ((v.emit (.answered error)).armedIds = w.armedIds ∧ ((v.emit (.answered error)).ledger = w.ledger ∨
        ∃ e, w.ledger.row id = some e ∧ e.state = .armed)) ∨
      (v.emit (.answered error)).armedIds = (w.rememberArmed id).armedIds :=
    fun v ledger listed error => .inl ⟨listed, .inl ((v.ledger_emit_answered error).trans ledger)⟩
  unfold World.startNow
  rw [up]
  split
  · exact refused w rfl rfl _
  next entry stored =>
    obtain rfl : entry.id = id := ScheduleStore.get_id stored
    split
    · exact refused w rfl rfl _
    · split
      · exact refused w rfl rfl _
      · dsimp only
        generalize row : (⟨entry, w.store.destinationsFor true entry.id⟩ : ScheduleEntryWithDestinations) = r
        have ledger : (if (w.armable a r).2.changed = true then (w.armable a r).1.emit .onChanged
            else (w.armable a r).1).ledger = w.ledger := by
          split <;> simp
        have listed : (if (w.armable a r).2.changed = true then (w.armable a r).1.emit .onChanged
            else (w.armable a r).1).armedIds = w.armedIds := by
          split
          · exact w.armable_armedIds r
          · exact w.armable_armedIds r
        generalize (if (w.armable a r).2.changed = true then (w.armable a r).1.emit .onChanged
            else (w.armable a r).1) = v at ledger listed ⊢
        split
        · exact refused v ledger listed _
        · split
          · exact refused v ledger listed _
          · simp only [Bool.not_true, Bool.false_eq_true, and_false, if_false]
            have ended : ∀ u : World, u.armedIds = (v.rearm entry).armedIds →
                (u.armedIds = w.armedIds ∧ (u.ledger = w.ledger ∨
                  ∃ e, w.ledger.row entry.id = some e ∧ e.state = .armed)) ∨
                u.armedIds = (w.rememberArmed entry.id).armedIds := by
              intro u same
              rw [rearm_armedIds] at same
              by_cases armed : entry.state = .armed
              · simp only [armed, ne_eq, not_true_eq_false, if_false] at same
                exact .inl ⟨same.trans listed, .inr ⟨entry, stored, armed⟩⟩
              · simp only [armed, ne_eq, not_false_eq_true, if_true, World.rememberArmed_armedIds, listed] at same
                exact .inr (same.trans (w.rememberArmed_armedIds entry.id).symm)
            split
            · exact ended _ (World.requestStart_armedIds _ _)
            · exact ended _ (World.requestStart_armedIds _ _)

theorem startNow_remembers (up : a.storeUp = true) (id : String) (remembers : Remembers w) : Remembers (w.startNow a id) := by
  have rows : ∀ other e, (w.startNow a id).ledger.row other = some e → e.state = .armed →
      other = id ∨ ∃ old, w.ledger.row other = some old ∧ old.state = .armed := by
    intro other e found armed
    by_cases same : other = id
    · exact .inl same
    · exact .inr ((w.startNow_acts up id).armedRows (by simp) other (by simpa using Ne.symm same) e found armed)
  rcases startNow_lists up w id with ⟨listed, kept | already⟩ | listed
  · exact remembers.keep listed fun other e found armed => ⟨e, kept ▸ found, armed⟩
  · refine remembers.keep listed fun other e found armed => ?_
    rcases rows other e found armed with rfl | before
    · exact already
    · exact before
  · exact remembers.add listed rows

theorem Step.remembers {w w' : World} {i : Input} (up : i.answers.storeUp = true) (step : Step w i w')
    (sound : Sound w.ledger) (remembers : Remembers w) : Remembers w' := by
  rw [← show w.step i = w' from step, World.step]
  have start : Remembers { w with effects := [] } := ⟨remembers.nodup, remembers.armed⟩
  have sound' : Sound (World.ledger { w with effects := [] }) := ⟨sound.named, sound.live, sound.asked⟩
  generalize { w with effects := [] } = v at start sound' ⊢
  have acts := v.perform_acts up i.call
  have strikes : i.call ≠ .tick → (∀ id, i.call ≠ .startNow id) → Struck v (v.perform i.answers i.call) →
      Remembers (v.perform i.answers i.call) :=
    fun quiet other struck => start.struck struck fun id => acts.armedRows quiet id (other id)
  generalize i.call = call at strikes ⊢
  cases call with
  | tick => exact (tick_settles up sound' start).remembers
  | startNow id => exact startNow_remembers up id start
  | cancelCountdown id => exact strikes (by simp) (by simp) (cancelCountdown_strikes up v id)
  | noteEntryChanged id => exact strikes (by simp) (by simp) (noteEntryChanged_strikes up v id)
  | noteWentLive => exact strikes (by simp) (by simp) (noteWentLive_strikes up v)
  | noteStoppedStreaming => exact strikes (by simp) (by simp) (.inl (noteStoppedStreaming_armedIds v))
  | noteStartFailed => exact strikes (by simp) (by simp) (.inl (noteStartFailed_armedIds v))
  | adoptImminentArmed => exact strikes (by simp) (by simp) (.inl (adoptImminentArmed_armedIds v))
  | createRow id startsAt autoStart destinations =>
    refine strikes (by simp) (by simp) (.inl ?_)
    simp only [World.perform]
    split <;> rfl
  | editRow | deleteRow => exact strikes (by simp) (by simp) (.inl rfl)

/-! ### Whole runs -/

theorem attach_remembers {store : ScheduleStore} (unarmed : ∀ row ∈ store.rows, row.entry.state ≠ .armed) :
    Remembers (World.attach store) where
  nodup := List.nodup_nil
  armed := by
    intro id e found armed
    obtain ⟨row, member, rfl, _⟩ := ScheduleStore.get_eq_some.mp found
    exact absurd armed (unarmed row member)

/-- After a tick, every row is where its time allows, unless its start is in flight or its
occurrence canceled, and the armed list has every armed row once. -/
theorem tick_settles_every_row {store : ScheduleStore} {ms : List (Moment World Input)} {u : World}
    (run : Run Step (World.attach store) ms u) (up : ∀ m ∈ ms, m.input.answers.storeUp = true)
    (unarmed : ∀ row ∈ store.rows, row.entry.state ≠ .armed)
    {m : Moment World Input} (member : m ∈ ms) (ticked : m.input.call = .tick) :
    ∀ row ∈ m.after.store.rows,
      (row.entry.state = .armed → kArmLeadMs < row.entry.startsAt - m.input.answers.now →
        m.after.isStartInFlight m.input.answers row.entry.id = true) ∧
      (row.entry.state = .planned ∨ row.entry.state = .armed →
        row.entry.startsAt < m.input.answers.now - kMissedGraceMs →
        m.after.isStartInFlight m.input.answers row.entry.id = true) ∧
      (row.entry.state = .planned → 0 < row.entry.startsAt - m.input.answers.now →
        row.entry.startsAt - m.input.answers.now ≤ kArmLeadMs →
        m.after.isCountdownCanceled row.entry.id = true) ∧
      (row.entry.state = .armed → m.after.armedIds.count row.entry.id = 1) := by
  have before := ((run.invariant (P := fun w => Sound w.ledger ∧ Remembers w)
    (fun m (up : m.input.answers.storeUp = true) step held =>
      ⟨Step.sound up step held.1, Step.remembers up step held.1 held.2⟩)
    up ⟨attach_sound store, attach_remembers unarmed⟩).2 m member).1
  have settled : Settled m.input.answers m.after := by
    rw [← show m.before.step m.input = m.after from run.step_of_mem member, World.step, ticked]
    exact tick_settles (up m member) ⟨before.1.named, before.1.live, before.1.asked⟩
      ⟨before.2.nodup, before.2.armed⟩
  intro row stored
  have found : m.after.ledger.row row.entry.id = some row.entry := ScheduleStore.get_row stored
  refine ⟨fun armed ahead => ?_, fun waiting late => ?_, fun planned future soon => ?_, fun armed => ?_⟩
  · exact (m.after.isStartInFlight_iff _).mpr (settled.ahead _ _ found armed ahead)
  · exact (m.after.isStartInFlight_iff _).mpr (settled.late _ _ found waiting late)
  · exact settled.near _ _ found planned (by omega) soon
  · exact List.count_eq_one_of_mem settled.remembers.nodup (settled.remembers.armed _ _ found armed)

theorem tick_settles_every_row_armed :
    let w := World.step (World.attach oneEntry) ⟨{ now := 0 }, .tick⟩
    (w.store.get true "a").map (·.state) = some .armed ∧ w.armedIds.count "a" = 1 := by
  intro w
  refine ⟨by decide, ?_⟩
  have member : (⟨{ id := "a", startsAt := 60000, autoStart := true, state := .armed },
      [{ profileId := "p" }]⟩ : ScheduleEntryWithDestinations) ∈ w.store.rows := by decide
  have up : ∀ i ∈ [(⟨{ now := 0 }, .tick⟩ : Input)], i.answers.storeUp = true := by decide
  exact (tick_settles_every_row (run_trace World.step (World.attach oneEntry) ([] ++ [⟨{ now := 0 }, .tick⟩]))
    (fun m member => up m.input (input_of_mem_trace member)) (by decide)
    (last_mem_trace World.step (World.attach oneEntry) [] _) rfl _ member).2.2.2 rfl

end Braidcast.Schedule
