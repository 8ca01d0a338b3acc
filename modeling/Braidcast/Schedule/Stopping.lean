import Braidcast.Schedule.StoreFailure

/-!
# The end of a broadcast

What `NoteStoppedStreaming` leaves to a later tick, whether or not the store answers.
-/
namespace Braidcast.Schedule

open Braidcast.Lib (Moment Run run_trace star_keeps mem_filterMap_iff)
open Relation (ReflTransGen)
open Ledger

/-- While a live entry's own configuration is loaded no other start is waited for; and the row named
live reads live. -/
structure Aloft (L : Ledger) : Prop where
  named : L.row "" = none
  live : ∀ e, L.row L.liveId = some e → e.state = .live
  waits : L.liveId ≠ "" → L.appliedId = L.liveId → L.startingId = ""

variable {L M : Ledger} {a : Answers}

theorem Prune.aloft (step : Prune a L M) (aloft : Aloft L) : Aloft M := by
  obtain ⟨named, live, waits⟩ := aloft
  cases step with
  | drop other free stale => exact ⟨named, live, waits⟩
  | disarm e stored armed ahead free => constructor <;> grind [InFlight]
  | dropStarting free unarmed => exact ⟨named, live, fun _ _ => rfl⟩
  | dropLive ended => exact ⟨named, by simp [named], fun grounded => absurd rfl grounded⟩

theorem Move.aloft (step : Move a L M) (aloft : Aloft L) : Aloft M := by
  obtain ⟨named, live, waits⟩ := aloft
  cases step with
  | arm | refuse | miss | settle => constructor <;> grind
  | launch e stored armed due wanted unasked free => constructor <;> grind [Free, InFlight]

theorem Acts.aloft {call : Call} (acts : Acts a call L M) (aloft : Aloft L) :
    Aloft M := by
  cases acts with
  | idle => exact aloft
  | ticked prunes _ moves =>
    have pruned := star_keeps (P := Aloft) (fun _ _ step => step.aloft) prunes aloft
    exact star_keeps (P := Aloft) (fun _ _ step => step.aloft) moves pruned
  | canceled | disarmed => obtain ⟨_, _, _⟩ := aloft; constructor <;> grind [InFlight]
  | started e stored fresh free => obtain ⟨_, _, _⟩ := aloft; constructor <;> grind [InFlight, Free]
  | startRefused e apply reason wired refused stored fresh free =>
    obtain ⟨_, _, _⟩ := aloft
    constructor <;> grind [InFlight, Free]
  | adopted | adoptRefused | forgotten | wentLive | startFailed | stopped => obtain ⟨_, _, _⟩ := aloft; constructor <;> grind
  | unclaimed unarmed => exact ⟨aloft.named, aloft.live, fun _ _ => rfl⟩
  | created | edited =>
    obtain ⟨_, _, _⟩ := aloft
    constructor <;> grind [Function.update_apply]
  | deleted id => obtain ⟨_, _, _⟩ := aloft; constructor <;> grind [Function.update_apply]

/-! ### While the store does not answer -/

/-- What an operation can do without its store: no row changes, slots are let go, and a configuration that
is loaded is put back or is in flight. -/
structure Lapses (a : Answers) (L M : Ledger) : Prop where
  row : M.row = L.row
  startingId : M.startingId = L.startingId ∨ M.startingId = ""
  liveId : M.liveId = L.liveId ∨ M.liveId = ""
  flags : ∀ id, M.flags id = L.flags id ∨ M.flags id = {} ∨ M.flags id = { L.flags id with failed := true }
  appliedId : M.appliedId = L.appliedId ∨
    M.appliedId = "" ∧ (L.appliedId ∈ M.reverted ∨ L.InFlight a.now L.appliedId)

theorem Lapses.aloft (lapses : Lapses a L M) (aloft : Aloft L) : Aloft M := by
  obtain ⟨named, live, waits⟩ := aloft
  refine ⟨by rw [lapses.row, named], fun e found => ?_, fun flying loaded => ?_⟩
  · rw [lapses.row] at found
    rcases lapses.liveId with same | gone
    · exact live e (same ▸ found)
    · rw [gone, named] at found
      cases found
  · have same := lapses.liveId.resolve_right flying
    have kept : M.appliedId = L.appliedId := lapses.appliedId.resolve_right fun put => flying (loaded ▸ put.1)
    have waited := waits (same ▸ flying) (kept ▸ loaded.trans same)
    rcases lapses.startingId with still | gone
    · exact still.trans waited
    · exact gone

theorem Lapses.refl (a : Answers) (L : Ledger) : Lapses a L L :=
  ⟨rfl, .inl rfl, .inl rfl, fun _ => .inl rfl, .inl rfl⟩

/-- A configuration that is let go is put back, or was in flight. -/
theorem Ledger.letGo_lapses (L : Ledger) (now : Int) (id : String) : (L.letGo now id).appliedId = L.appliedId ∨
    (L.letGo now id).appliedId = "" ∧ (L.appliedId ∈ (L.letGo now id).reverted ∨ L.InFlight now L.appliedId) := by
  rw [letGo_appliedId]
  by_cases loaded : L.appliedId = id
  · by_cases empty : L.appliedId = ""
    · exact .inl (by simp [empty])
    · rw [if_pos loaded]
      refine .inr ⟨rfl, ?_⟩
      by_cases flying : L.InFlight now id
      · exact .inr (loaded ▸ flying)
      · left
        rw [letGo, if_neg fun both => flying both.2]
        exact mem_reverted_release.mpr (.inr ⟨empty, loaded, loaded⟩)
  · exact .inl (if_neg loaded)

namespace World

variable (w : World)

theorem pruneOccurrences_lapse (down : a.storeUp = false) (ids : List String) (p : World × Bool) :
    (ids.foldl (pruneOccurrence a) p).1.ledger.row = p.1.ledger.row ∧
      (ids.foldl (pruneOccurrence a) p).1.startingId = p.1.startingId ∧
      (ids.foldl (pruneOccurrence a) p).1.liveId = p.1.liveId ∧
      (ids.foldl (pruneOccurrence a) p).1.appliedId = p.1.appliedId ∧
      ∀ id, (ids.foldl (pruneOccurrence a) p).1.ledger.flags id = p.1.ledger.flags id ∨
        (ids.foldl (pruneOccurrence a) p).1.ledger.flags id = {} := by
  induction ids generalizing p with
  | nil => exact ⟨rfl, rfl, rfl, rfl, fun _ => .inl rfl⟩
  | cons next ids ih =>
    obtain ⟨row, starting, live, applied, flags⟩ := ih (pruneOccurrence a p next)
    have first := pruneOccurrence_down down p next
    rw [List.foldl_cons]
    by_cases flying : p.1.isStartInFlight a next = true
    · rw [if_pos flying] at first
      rw [first] at row starting live applied flags
      exact ⟨row, starting, live, applied, flags⟩
    · rw [if_neg flying] at first
      rw [first] at row starting live applied flags
      refine ⟨row, starting, live, applied, fun id => ?_⟩
      rcases flags id with same | dropped
      · rw [ledger_eraseOccurrence, Ledger.setFlags_flags] at same
        split at same
        · exact .inr same
        · exact .inl same
      · exact .inr dropped

theorem pruneStarting_lapse (down : a.storeUp = false) : (w.pruneStarting a).ledger = w.ledger ∨
    (w.pruneStarting a).ledger = { w.ledger with startingId := "" } := by
  rw [pruneStarting_down w down]
  split
  · exact .inr rfl
  · exact .inl rfl

theorem settleApplied_lapse (down : a.storeUp = false) :
    (w.settleApplied a).ledger = w.ledger ∨ (w.settleApplied a).ledger = w.ledger.revert := by
  rw [settleApplied_down w down]
  split
  · exact .inl rfl
  · exact .inr (ledger_revertApplied w)

theorem revert_lapses (L : Ledger) : L.revert.appliedId = L.appliedId ∨
    L.revert.appliedId = "" ∧ L.appliedId ∈ L.revert.reverted := by
  by_cases loaded : L.appliedId = ""
  · exact .inl (by simp [loaded])
  · exact .inr ⟨L.revert_appliedId, Ledger.mem_reverted_revert.mpr (.inr ⟨loaded, rfl⟩)⟩

theorem tick_lapses (down : a.storeUp = false) : Lapses a w.ledger (w.tick a).ledger := by
  obtain ⟨row, starting, live, applied, flags⟩ := pruneOccurrences_lapse down w.occurrences.keys (w, false)
  -- only the settling looks at what is loaded
  have ticked : ∃ v : World, v.ledger.row = w.ledger.row ∧ (v.startingId = w.startingId ∨ v.startingId = "") ∧
      v.liveId = "" ∧ v.appliedId = w.appliedId ∧
      (∀ id, v.ledger.flags id = w.ledger.flags id ∨ v.ledger.flags id = {}) ∧
      ((w.tick a).ledger = v.ledger ∨ (w.tick a).ledger = v.ledger.revert) := by
    have steps := w.tick_down down
    generalize (w.occurrences.keys.foldl (pruneOccurrence a) (w, false)).1 = u at row starting live applied flags steps
    have waited := pruneStarting_lapse (a := a) { u with armedIds := [] } down
    generalize ({ u with armedIds := [] } : World).pruneStarting a = x at waited steps
    dsimp only at steps
    rw [pruneLive_down x down] at steps
    refine ⟨{ x with liveId := "" }, ?_, ?_, rfl, ?_, fun id => ?_, ?_⟩
    · rcases waited with same | same <;> exact (congrArg Ledger.row same).trans row
    · rcases waited with same | same
      · exact .inl ((congrArg Ledger.startingId same).trans starting)
      · exact .inr (congrArg Ledger.startingId same)
    · rcases waited with same | same <;> exact (congrArg Ledger.appliedId same).trans applied
    · have kept : x.ledger.flags id = u.ledger.flags id := by
        rcases waited with same | same <;> rw [same] <;> rfl
      have now := flags id
      rw [← kept] at now
      exact now
    · have settled := settleApplied_lapse (a := a) { x with liveId := "" } down
      rcases steps with same | same
      · rwa [same]
      · rwa [same, ledger_emit_onChanged]
  obtain ⟨v, row, starting, live, applied, flags, ends⟩ := ticked
  have kept : Lapses a w.ledger v.ledger :=
    ⟨row, starting, .inr live, fun id => (flags id).imp_right .inl, .inl applied⟩
  rcases ends with same | same
  · rwa [same]
  · rw [same]
    refine ⟨funext fun id => (v.ledger.revert_row id).trans (congrFun row id), ?_, ?_, fun id => ?_, ?_⟩
    · rw [Ledger.revert_startingId]
      exact starting
    · exact .inr ((Ledger.revert_liveId _).trans live)
    · rw [Ledger.revert_flags]
      exact kept.flags id
    · rcases revert_lapses v.ledger with same | ⟨gone, put⟩
      · exact .inl (same.trans applied)
      · rw [show v.ledger.appliedId = w.ledger.appliedId from applied] at put
        exact .inr ⟨gone, .inl put⟩

/-- Without its store an operation lapses, or is a change of the rows. -/
theorem perform_down (down : a.storeUp = false) (call : Call) :
    Lapses a w.ledger (w.perform a call).ledger ∨ Acts a call w.ledger (w.perform a call).ledger := by
  cases call with
  | tick => exact .inl (w.tick_lapses down)
  | cancelCountdown id =>
    left
    simp only [perform, cancelCountdown, down, ScheduleStore.get, Bool.false_eq_true, if_false, ledger_emit_answered]
    exact .refl a _
  | startNow id =>
    left
    simp only [perform, startNow, down, ScheduleStore.get, Bool.false_eq_true, if_false, ledger_emit_answered]
    exact .refl a _
  | adoptImminentArmed =>
    left
    have none_ : w.imminentArmedId a = "" := by
      have unmoved : ∀ (ids : List String) (best : String × Int), ids.foldl (w.sooner a) best = best := by
        intro ids
        induction ids with
        | nil => exact fun _ => rfl
        | cons id ids ih =>
          intro best
          rw [List.foldl_cons, ih]
          simp [sooner, down, ScheduleStore.get]
      rw [imminentArmedId, unmoved]
    simp only [perform, adoptImminentArmed, none_, if_true, ite_self]
    exact .refl a _
  | noteEntryChanged id =>
    left
    have gone : w.store.get a.storeUp id = none := by simp [ScheduleStore.get, down]
    simp only [perform, noteEntryChanged, gone]
    rw [letGo_ledger]
    refine ⟨funext fun other => Ledger.letGo_row w.ledger a.now id other, ?_, ?_, fun other => ?_, ?_⟩
    · rw [Ledger.letGo_startingId]
      split <;> simp
    · rw [Ledger.letGo_liveId]
      split <;> simp
    · rw [Ledger.letGo_flags]
      split
      · exact .inr (.inl rfl)
      · exact .inl rfl
    · exact w.ledger.letGo_lapses a.now id
  | noteWentLive =>
    left
    simp only [perform, noteWentLive, down, ScheduleStore.get, Bool.false_eq_true, if_false]
    split
    · exact ⟨rfl, .inr rfl, .inl rfl, fun _ => .inl rfl, .inl rfl⟩
    · exact ⟨rfl, .inr rfl, .inl rfl, fun _ => .inl rfl, .inl rfl⟩
  | noteStoppedStreaming =>
    left
    simp only [perform, noteStoppedStreaming, down, Bool.not_false, if_true]
    split
    · exact .refl a _
    · exact ⟨rfl, .inl rfl, .inr rfl, fun _ => .inl rfl, .inl rfl⟩
  | noteStartFailed => exact .inr w.noteStartFailed_acts
  | createRow id startsAt autoStart destinations =>
    exact .inr (w.createRow_acts id startsAt autoStart destinations)
  | editRow id startsAt autoStart destinations => exact .inr (w.editRow_acts id startsAt autoStart destinations)
  | deleteRow id => exact .inr (w.deleteRow_acts id)

end World

/-! ### After the stop edge -/

/-- No row reads live, and no start is waited for. -/
structure Over (L : Ledger) : Prop where
  named : L.row "" = none
  starting : L.startingId = ""
  grounded : L.liveId = ""
  ended : ∀ id e, L.row id = some e → e.state ≠ .live

/-- What is loaded is the configuration of an entry that is gone and whose start is over. -/
structure Owes (id : String) (L : Ledger) : Prop where
  loaded : L.appliedId = id
  gone : L.row id = none
  spent : ¬((L.flags id).requested = true ∧ (L.flags id).failed = false)

theorem Prune.finished (step : Prune a L M) (finished : Over L) : Over M := by
  obtain ⟨named, starting, grounded, ended⟩ := finished
  cases step with
  | drop other free stale => exact ⟨named, starting, grounded, ended⟩
  | disarm e stored armed ahead free => constructor <;> grind
  | dropStarting free unarmed => exact ⟨named, rfl, grounded, ended⟩
  | dropLive finished => exact ⟨named, starting, rfl, ended⟩

variable {id : String}

theorem Prune.owes (step : Prune a L M) (owes : Owes id L) : Owes id M := by
  obtain ⟨loaded, gone, spent⟩ := owes
  cases step with
  | drop | disarm => constructor <;> grind
  | dropStarting | dropLive => exact ⟨loaded, gone, spent⟩

/-- A start is waited for, or none was asked for and everything is over. -/
def Launching (L : Ledger) : Prop := L.row "" = none ∧ (L.startingId ≠ "" ∨ Over L)

theorem Move.launching (step : Move a L M) (launching : Launching L) : Launching M := by
  obtain ⟨named, waits | ⟨-, starting, grounded, ended⟩⟩ := launching
  · cases step with
    | arm | refuse | miss | settle | launch => exact ⟨by grind, .inl (by grind)⟩
  · cases step with
    | arm | refuse | miss | settle => exact ⟨by grind, .inr (by constructor <;> grind)⟩
    | launch e stored => exact ⟨by grind, .inl (by grind)⟩

/-- A start is waited for, or what is owed is still loaded or was put back. -/
def Settles (id : String) (L : Ledger) : Prop :=
  L.row "" = none ∧ (L.startingId ≠ "" ∨ Owes id L ∨ id ∈ L.reverted)

theorem Owes.not_inFlight {L : Ledger} {now : Int} (owes : Owes id L) (finished : Over L) :
    ¬L.InFlight now L.appliedId := by
  rintro (⟨named, live⟩ | ⟨asked, kept, -⟩)
  · exact named (live.symm.trans finished.grounded)
  · exact owes.spent (owes.loaded ▸ ⟨asked, kept⟩)

theorem Owes.revert {L : Ledger} (owes : Owes id L) (filled : id ≠ "") : id ∈ L.revert.reverted :=
  mem_reverted_revert.mpr (.inr ⟨owes.loaded ▸ filled, owes.loaded.symm⟩)

theorem mem_revert_of_mem {L : Ledger} (put : id ∈ L.reverted) : id ∈ L.revert.reverted :=
  mem_reverted_revert.mpr (.inl put)

theorem Move.settles (filled : id ≠ "") (step : Move a L M) (settles : Settles id L) : Settles id M := by
  obtain ⟨named, waits | owes | put⟩ := settles
  · cases step with
    | arm | refuse | miss | settle | launch => exact ⟨by grind, .inl (by grind)⟩
  · have put := owes.revert filled
    obtain ⟨loaded, gone, spent⟩ := owes
    cases step with
    | arm | miss => exact ⟨by grind, .inr (.inl (by constructor <;> grind))⟩
    | launch e stored => exact ⟨by grind, .inl (by grind)⟩
    | refuse | settle => exact ⟨by grind, .inr (.inr put)⟩
  · cases step with
    | arm | miss => exact ⟨by grind, .inr (.inr put)⟩
    | launch e stored => exact ⟨by grind, .inl (by grind)⟩
    | refuse | settle => exact ⟨by grind, .inr (.inr (mem_revert_of_mem put))⟩

/-- An operation that asks for no start leaves everything over. -/
theorem Acts.finished {call : Call} (acts : Acts a call L M) (quiet : M.startingId = "") (finished : Over L) : Over M := by
  cases acts with
  | idle => exact finished
  | ticked prunes _ moves =>
    have pruned := star_keeps (P := Over) (fun _ _ step => step.finished) prunes finished
    have launching := star_keeps (P := Launching) (fun _ _ step => step.launching) moves ⟨pruned.named, .inr pruned⟩
    exact launching.2.resolve_left (fun waits => waits quiet)
  | canceled | startRefused | adoptRefused | disarmed | forgotten | unclaimed =>
    obtain ⟨_, _, _, _⟩ := finished
    constructor <;> grind
  | started | adopted | wentLive => obtain ⟨_, _, _, _⟩ := finished; constructor <;> grind
  | startFailed flags asked same => exact absurd finished.starting asked
  | stopped live => exact absurd finished.grounded live
  | created | edited =>
    obtain ⟨_, _, _, _⟩ := finished
    constructor <;> grind [Function.update_apply]
  | deleted id => obtain ⟨_, _, _, _⟩ := finished; constructor <;> grind [Function.update_apply]

theorem Acts.owes {call : Call} (filled : id ≠ "")
    (acts : Acts a call L M) (quiet : M.startingId = "") (finished : Over L) (owes : Owes id L) :
    Owes id M ∨ id ∈ M.reverted := by
  have put := owes.revert filled
  cases acts with
  | idle => exact .inl owes
  | ticked prunes _ moves =>
    have pruned := star_keeps (P := Over) (fun _ _ step => step.finished) prunes finished
    have held := star_keeps (P := Owes id) (fun _ _ step => step.owes) prunes owes
    have settles := star_keeps (P := Settles id) (fun _ _ step => step.settles filled) moves
      ⟨pruned.named, .inr (.inl held)⟩
    exact settles.2.resolve_left (fun waits => waits quiet)
  | canceled | disarmed | unclaimed =>
    obtain ⟨_, _, _⟩ := owes
    left
    constructor <;> grind
  | startRefused e apply reason wired refused stored fresh free =>
    exact .inr (mem_reverted_revert.mpr (.inr ⟨owes.loaded ▸ filled, owes.loaded.symm⟩))
  | adoptRefused => exact .inr put
  | started | adopted | wentLive => obtain ⟨_, _, _, _⟩ := finished; left; constructor <;> grind
  | startFailed flags asked same => exact absurd finished.starting asked
  | stopped live => exact absurd finished.grounded live
  | forgotten other deleted =>
    rcases L.letGo_lapses a.now other with kept | ⟨-, put | flying⟩
    · obtain ⟨_, _, _⟩ := owes
      left
      constructor <;> grind
    · exact .inr (owes.loaded ▸ put)
    · exact absurd flying (owes.not_inFlight finished)
  | created | edited =>
    obtain ⟨_, _, _⟩ := owes
    left
    constructor <;> grind [Function.update_apply]
  | deleted other => obtain ⟨_, _, _⟩ := owes; left; constructor <;> grind [Function.update_apply]

theorem Lapses.finished (lapses : Lapses a L M) (finished : Over L) : Over M where
  named := by rw [lapses.row, finished.named]
  starting := lapses.startingId.elim (fun same => same.trans finished.starting) id
  grounded := lapses.liveId.elim (fun same => same.trans finished.grounded) id
  ended := by
    rw [lapses.row]
    exact finished.ended

theorem Lapses.owes (lapses : Lapses a L M) (finished : Over L) (owes : Owes id L) : Owes id M ∨ id ∈ M.reverted := by
  rcases lapses.appliedId with kept | ⟨-, put | flying⟩
  · refine .inl ⟨kept.trans owes.loaded, by rw [lapses.row, owes.gone], ?_⟩
    rcases lapses.flags id with same | dropped | failed
    · rw [same]
      exact owes.spent
    · rw [dropped]
      simp
    · rw [failed]
      simp
  · exact .inr (owes.loaded ▸ put)
  · exact absurd flying (owes.not_inFlight finished)

variable {w w' : World} {i : Input}

/-- What a step does with its store, or without. -/
theorem step_lapses_or_acts (step : Step w i w') :
    Lapses i.answers { w.ledger with reverted := [], launched := [] } w'.ledger ∨
      Acts i.answers i.call { w.ledger with reverted := [], launched := [] } w'.ledger := by
  obtain rfl : w.step i = w' := step
  by_cases up : i.answers.storeUp = true
  · exact .inr (World.perform_acts { w with effects := [] } up i.call)
  · exact World.perform_down { w with effects := [] } (by simpa using up) i.call

theorem Step.aloft (step : Step w i w') (aloft : Aloft w.ledger) : Aloft w'.ledger := by
  have wiped : Aloft { w.ledger with reverted := [], launched := [] } := ⟨aloft.named, aloft.live, aloft.waits⟩
  rcases step_lapses_or_acts step with lapses | acts
  · exact lapses.aloft wiped
  · exact acts.aloft wiped

theorem Step.finished (step : Step w i w') (quiet : w'.startingId = "") (finished : Over w.ledger) : Over w'.ledger := by
  have wiped : Over { w.ledger with reverted := [], launched := [] } :=
    ⟨finished.named, finished.starting, finished.grounded, finished.ended⟩
  rcases step_lapses_or_acts step with lapses | acts
  · exact lapses.finished wiped
  · exact acts.finished quiet wiped

theorem mem_reverted : id ∈ w.ledger.reverted ↔ Effect.revertEntry id ∈ w.effects :=
  mem_filterMap_iff fun _ => Effect.revertedId_eq_some

theorem Step.owes (filled : id ≠ "") (step : Step w i w')
    (quiet : w'.startingId = "") (finished : Over w.ledger) (owes : Owes id w.ledger) :
    Owes id w'.ledger ∨ .revertEntry id ∈ w'.effects := by
  have wiped : Over { w.ledger with reverted := [], launched := [] } :=
    ⟨finished.named, finished.starting, finished.grounded, finished.ended⟩
  have held : Owes id { w.ledger with reverted := [], launched := [] } := ⟨owes.loaded, owes.gone, owes.spent⟩
  rw [← mem_reverted]
  rcases step_lapses_or_acts step with lapses | acts
  · exact lapses.owes wiped held
  · exact acts.owes filled quiet wiped held

/-- A tick that can read its store leaves nothing loaded but what is in flight, armed or live. -/
theorem tick_applied (up : a.storeUp = true) (w : World) :
    (w.tick a).ledger.appliedId = "" ∨ (w.tick a).ledger.InFlight a.now (w.tick a).ledger.appliedId ∨
      ∃ e, (w.tick a).ledger.row (w.tick a).ledger.appliedId = some e := by
  have settled : ∀ v : World, (v.settleApplied a).ledger.appliedId = "" ∨
      (v.settleApplied a).ledger.InFlight a.now (v.settleApplied a).ledger.appliedId ∨
        ∃ e, (v.settleApplied a).ledger.row (v.settleApplied a).ledger.appliedId = some e := by
    intro v
    unfold World.settleApplied
    rw [up]
    split
    next idle =>
      rcases idle with empty | flying
      · exact .inl empty
      · exact .inr (.inl ((v.isStartInFlight_iff _).mp flying))
    · split
      next e found =>
        split
        · exact .inr (.inr ⟨e, found⟩)
        · rw [World.ledger_revertApplied]
          exact .inl (Ledger.revert_appliedId _)
      next =>
        rw [World.ledger_revertApplied]
        exact .inl (Ledger.revert_appliedId _)
  simp only [World.tick]
  split
  · rw [World.ledger_emit_onChanged]
    exact settled _
  · exact settled _

/-! ### Whole runs -/

/-- No start is asked for. -/
def Quiet (m : Moment World Input) : Prop := m.after.startingId = "" ∨ m.after.startingId = m.before.startingId

/-- However the runner goes on after the stop edge, a tick that can read the store finds the configuration put
back and no row live that is not the broadcast's. -/
def ComesBack (a : Answers) (w : World) : Prop :=
  ∀ (ms : List (Moment World Input)) (u : World) (t : Answers), t.storeUp = true →
    Run Step (w.step ⟨a, .noteStoppedStreaming⟩) ms u → (∀ m ∈ ms, Quiet m) → Quiet ⟨u, ⟨t, .tick⟩, u.step ⟨t, .tick⟩⟩ →
    (.revertEntry w.appliedId ∈ (w.step ⟨a, .noteStoppedStreaming⟩).effects ∨
        (∃ m ∈ ms, .revertEntry w.appliedId ∈ m.after.effects) ∨
        .revertEntry w.appliedId ∈ (u.step ⟨t, .tick⟩).effects) ∧
      ((u.step ⟨t, .tick⟩).liveId = "" → ∀ id e, (u.step ⟨t, .tick⟩).ledger.row id = some e → e.state ≠ .live)

/-- No other row reads live; and the store takes the new state, or the live entry's row is gone and
its start is no longer counted. -/
def Recovers (a : Answers) (w : World) : Prop :=
  (∀ id e, w.ledger.row id = some e → e.state = .live → id = w.liveId) ∧
    (a.storeUp = true ∨ w.ledger.row w.liveId = none ∧
      ¬((w.ledger.flags w.liveId).requested = true ∧ (w.ledger.flags w.liveId).failed = false))

theorem stopped_ledger (up : a.storeUp = true) (live : w.liveId ≠ "") :
    (w.step ⟨a, .noteStoppedStreaming⟩).ledger =
      Ledger.release { ({ w.ledger with reverted := [], launched := [] }.setState w.liveId .done).setFlags w.liveId {} with
        liveId := "" } w.liveId := by
  simp only [World.step, World.perform, World.noteStoppedStreaming, if_neg live, up, Bool.not_true, Bool.false_eq_true,
    if_false, World.ledger_emit_onChanged, World.ledger_release, World.ledger_eraseOccurrence, World.ledger_setState]
  rfl

theorem unstopped_ledger (down : a.storeUp = false) (live : w.liveId ≠ "") :
    (w.step ⟨a, .noteStoppedStreaming⟩).ledger = { w.ledger with reverted := [], launched := [], liveId := "" } := by
  simp only [World.step, World.perform, World.noteStoppedStreaming, if_neg live, down, Bool.not_false, if_true]
  rfl

/-- The stop edge puts the configuration back at once, or still owes it. -/
theorem stopped_over (aloft : Aloft w.ledger) (live : w.liveId ≠ "") (loaded : w.appliedId = w.liveId) (recovers : Recovers a w) :
    Over (w.step ⟨a, .noteStoppedStreaming⟩).ledger ∧
      (Owes w.appliedId (w.step ⟨a, .noteStoppedStreaming⟩).ledger ∨
        .revertEntry w.appliedId ∈ (w.step ⟨a, .noteStoppedStreaming⟩).effects) := by
  obtain ⟨alone, answered⟩ := recovers
  have waits : w.ledger.startingId = "" := aloft.waits live loaded
  by_cases up : a.storeUp = true
  · have done := stopped_ledger up live
    refine ⟨⟨?_, ?_, ?_, fun id e found => ?_⟩, .inr ?_⟩
    · rw [done]
      grind [aloft.named]
    · rw [done, Ledger.release_startingId]
      exact waits
    · rw [done, Ledger.release_liveId]
    · rw [done, Ledger.release_row] at found
      rcases Ledger.of_setState_row _ _ _ _ found with ⟨-, state⟩ | ⟨apart, found⟩
      · rw [state]
        decide
      · exact fun state => apart (alone id e found state)
    · rw [← mem_reverted, done]
      exact mem_reverted_release.mpr (.inr ⟨loaded ▸ live, loaded, loaded⟩)
  · have kept := unstopped_ledger (by simpa using up) live
    obtain ⟨gone, spent⟩ := answered.resolve_left up
    rw [kept]
    refine ⟨⟨aloft.named, waits, rfl, fun id e found state => ?_⟩, .inl ⟨rfl, ?_, ?_⟩⟩
    · have here := alone id e found state
      subst here
      rw [gone] at found
      cases found
    · rw [loaded]
      exact gone
    · rw [loaded]
      exact spent

theorem run_over {w u : World} {ms : List (Moment World Input)} (filled : id ≠ "")
    (run : Run Step w ms u) (quiet : ∀ m ∈ ms, Quiet m) (finished : Over w.ledger) :
    Over u.ledger ∧ (Owes id w.ledger → Owes id u.ledger ∨ ∃ m ∈ ms, .revertEntry id ∈ m.after.effects) := by
  induction run with
  | nil => exact ⟨finished, .inl⟩
  | @cons s t u i ms step rest ih =>
    have calm : t.startingId = "" := by
      rcases quiet ⟨s, i, t⟩ (by simp) with calm | same
      · exact calm
      · exact same.trans finished.starting
    obtain ⟨last, owed⟩ := ih (fun m member => quiet m (by simp [member])) (step.finished calm finished)
    refine ⟨last, fun owes => ?_⟩
    rcases step.owes filled calm finished owes with still | put
    · rcases owed still with still | ⟨m, member, put⟩
      · exact .inl still
      · exact .inr ⟨m, by simp [member], put⟩
    · exact .inr ⟨⟨s, i, t⟩, by simp, put⟩

/-! ### A tick before anything is due -/

theorem exists_early (rows : List ScheduleEntryWithDestinations) (bound : Int) :
    ∃ now : Int, now ≤ bound ∧ ∀ row ∈ rows, now < row.entry.startsAt := by
  induction rows with
  | nil => exact ⟨bound, le_refl bound, by simp⟩
  | cons row rows ih =>
    obtain ⟨now, before, each⟩ := ih
    refine ⟨min now (row.entry.startsAt - 1), by omega, fun other member => ?_⟩
    rcases List.mem_cons.mp member with rfl | later
    · omega
    · have after := each other later
      omega

/-- What a tick before anything is due keeps of `L`: no start is asked for, and what reads live stays live. -/
structure Early (L M : Ledger) : Prop where
  timed : L.Timed M
  starting : M.startingId = ""
  grounded : M.liveId = ""
  live : ∀ id e, L.row id = some e → e.state = .live → M.row id = some e

theorem Prune.early {L M N : Ledger} (step : Prune a M N) (early : Early L M) : Early L N := by
  have timed := step.timed early.timed
  obtain ⟨-, starting, grounded, live⟩ := early
  cases step with
  | drop other free stale => exact ⟨timed, starting, grounded, live⟩
  | disarm e stored armed ahead free => constructor <;> grind
  | dropStarting free unarmed => exact ⟨timed, rfl, grounded, live⟩
  | dropLive finished => exact ⟨timed, starting, rfl, live⟩

theorem Move.early {L M N : Ledger} (ahead : ∀ id e, L.row id = some e → a.now < e.startsAt)
    (step : Move a M N) (early : Early L M) : Early L N := by
  have timed := step.timed early.timed
  obtain ⟨before, starting, grounded, live⟩ := early
  cases step with
  | arm | refuse | settle => constructor <;> grind
  | launch e stored armed due wanted unasked free =>
    obtain ⟨old, found, same⟩ := before e.id e stored
    have later := ahead e.id old found
    omega
  | miss late waiting idle =>
    refine ⟨timed, starting, grounded, fun id e found state => ?_⟩
    rw [miss_row, live id e found state, Option.map_some, if_neg]
    exact fun missed => by rcases waiting e missed with planned | armed <;> simp_all

/-- The configuration of a start on its way up is loaded, and was not put back. -/
structure Carried (now : Int) (id : String) (L : Ledger) : Prop where
  pending : L.Pending now id
  loaded : L.appliedId = id
  kept : id ∉ L.reverted

theorem Prune.carried (step : Prune a L M) (carried : Carried a.now id L) :
    Carried a.now id M := by
  obtain ⟨pending, loaded, kept⟩ := carried
  cases step with
  | drop other free stale =>
    have apart : id ≠ other := fun same => free (.inr (same ▸ pending))
    refine ⟨?_, loaded, kept⟩
    simpa [Pending, setFlags_flags, apart] using pending
  | disarm e stored armed ahead free =>
    have apart : id ≠ e.id := fun same => free (.inr (same ▸ pending))
    refine ⟨?_, ?_, ?_⟩
    · simpa [Pending, setFlags_flags, apart] using pending
    · rw [release_appliedId]
      simp [loaded, apart]
    · rw [mem_reverted_release]
      simp [setFlags, Ledger.setState, kept, apart]
  | dropStarting | dropLive => exact ⟨pending, loaded, kept⟩

theorem Move.carried {M N : Ledger} (filled : id ≠ "") (step : Move a M N)
    (carried : Carried a.now id M) : Carried a.now id N := by
  obtain ⟨pending, loaded, kept⟩ := carried
  have flying : M.InFlight a.now M.appliedId := .inr (loaded.symm ▸ pending)
  have held : ∀ other, ¬M.Free a.now other := by
    rintro other ⟨-, empty | free⟩
    · exact filled (loaded.symm.trans empty)
    · exact free flying
  cases step with
  | arm | miss => exact ⟨pending, loaded, kept⟩
  | launch e stored armed due wanted unasked free => exact absurd free (held e.id)
  | refuse e apply reason stored wired refused free => exact absurd free (held e.id)
  | settle free finished => exact absurd flying free

theorem Acts.early (acts : Acts a .tick L M)
    (ahead : ∀ id e, L.row id = some e → a.now < e.startsAt) (early : Early L L) : Early L M := by
  cases acts with
  | idle => exact early
  | ticked prunes _ moves =>
    have pruned := star_keeps (P := Early L) (fun _ _ step => step.early) prunes early
    exact star_keeps (P := Early L) (fun _ _ step => step.early ahead) moves pruned

theorem Acts.carried (filled : id ≠ "") (acts : Acts a .tick L M) (carried : Carried a.now id L) : Carried a.now id M := by
  cases acts with
  | idle => exact carried
  | ticked prunes _ moves =>
    have pruned := star_keeps (P := Carried a.now id) (fun _ _ step => step.carried) prunes carried
    exact star_keeps (P := Carried a.now id) (fun _ _ step => step.carried filled) moves pruned

/-- There is always a tick to come before anything is due. -/
theorem exists_early_tick (w : World) (bound : Int) (starting : w.startingId = "") (grounded : w.liveId = "") :
    ∃ t : Answers, t.storeUp = true ∧ t.now ≤ bound ∧ Early w.ledger (w.step ⟨t, .tick⟩).ledger := by
  obtain ⟨now, before, each⟩ := exists_early w.store.rows bound
  refine ⟨{ now }, rfl, before, ?_⟩
  have acts : Acts { now } .tick { w.ledger with reverted := [], launched := [] } (w.step ⟨{ now }, .tick⟩).ledger :=
    step_acts (w := w) (i := ⟨{ now }, .tick⟩) rfl rfl
  have early := acts.early (fun id e found => ?_) ⟨fun _ e found => ⟨e, found, rfl⟩, starting, grounded, fun _ _ found _ => found⟩
  · exact ⟨early.timed, early.starting, early.grounded, early.live⟩
  · obtain ⟨row, member, rfl, -⟩ := ScheduleStore.get_eq_some.mp found
    exact each row member

/-- Where a row reads live after the stop edge, a tick may leave it so. -/
theorem not_comesBack_of_live {e : ScheduleEntry} (starting : (w.step ⟨a, .noteStoppedStreaming⟩).startingId = "")
    (grounded : (w.step ⟨a, .noteStoppedStreaming⟩).liveId = "")
    (found : (w.step ⟨a, .noteStoppedStreaming⟩).ledger.row id = some e) (live : e.state = .live) :
    ¬ComesBack a w := by
  intro back
  obtain ⟨t, up, -, early⟩ := exists_early_tick (w.step ⟨a, .noteStoppedStreaming⟩) 0 starting grounded
  have ended := (back [] _ t up (.nil _) (by simp) (.inl early.starting)).2 early.grounded id e (early.live id e found live)
  exact ended live

/-- In every reachable state in which an entry is live with its own configuration loaded, the configuration
comes back after the stop edge and no row is left live exactly where the store takes the new state and no
other row reads live. -/
theorem comes_back_iff {store : ScheduleStore} {ms : List (Moment World Input)} {w : World}
    (run : Run Step (World.attach store) ms w) (live : w.liveId ≠ "") (loaded : w.appliedId = w.liveId) (a : Answers) :
    ComesBack a w ↔ Recovers a w := by
  have aloft : Aloft w.ledger := by
    refine run.always (P := fun w => Aloft w.ledger) (fun _ _ _ step held => step.aloft held) ?_
    have sound := attach_sound store
    exact ⟨sound.named, sound.live, fun flying => absurd rfl flying⟩
  have waits : w.startingId = "" := aloft.waits live loaded
  constructor
  · intro back
    by_contra fails
    by_cases up : a.storeUp = true
    · have done := stopped_ledger up live
      -- the store answers, so another row reads live
      have other : ∃ id e, w.ledger.row id = some e ∧ e.state = .live ∧ id ≠ w.liveId := by
        by_contra none_
        refine fails ⟨fun id e found state => ?_, .inl up⟩
        by_contra apart
        exact none_ ⟨id, e, found, state, apart⟩
      obtain ⟨id, e, found, state, apart⟩ := other
      have stays : (w.step ⟨a, .noteStoppedStreaming⟩).ledger.row id = some e := by
        rw [done, Ledger.release_row]
        simp only [Ledger.setFlags_row, Ledger.setState_row, if_neg apart]
        exact found
      refine not_comesBack_of_live ?_ ?_ stays state back
      · exact (congrArg Ledger.startingId done).trans ((Ledger.release_startingId _ _).trans waits)
      · exact (congrArg Ledger.liveId done).trans (Ledger.release_liveId _ _)
    · have kept := unstopped_ledger (a := a) (by simpa using up) live
      have starting : (w.step ⟨a, .noteStoppedStreaming⟩).startingId = "" := (congrArg Ledger.startingId kept).trans waits
      have grounded : (w.step ⟨a, .noteStoppedStreaming⟩).liveId = "" := congrArg Ledger.liveId kept
      have none_live : ∀ id e, w.ledger.row id = some e → e.state ≠ .live := by
        intro id e found state
        have stays : (w.step ⟨a, .noteStoppedStreaming⟩).ledger.row id = some e := by
          rw [kept]
          exact found
        exact not_comesBack_of_live starting grounded stays state back
      have gone : w.ledger.row w.liveId = none := by
        cases found : w.ledger.row w.liveId with
        | none => rfl
        | some e => exact absurd (aloft.live e found) (none_live _ e found)
      have asked : (w.ledger.flags w.liveId).requested = true ∧ (w.ledger.flags w.liveId).failed = false := by
        by_contra spent
        exact fails ⟨fun id e found state => absurd state (none_live id e found), .inr ⟨gone, spent⟩⟩
      -- the start is still counted, so a tick within its allowance leaves the configuration
      obtain ⟨t, answers, before, early⟩ :=
        exists_early_tick (w.step ⟨a, .noteStoppedStreaming⟩) (w.ledger.flags w.liveId).since starting grounded
      have carried : Carried t.now w.appliedId { (w.step ⟨a, .noteStoppedStreaming⟩).ledger with
          reverted := [], launched := [] } := by
        rw [kept]
        refine ⟨?_, rfl, List.not_mem_nil⟩
        have allowance : (0 : Int) < kStartInFlightMs := by decide
        rw [loaded]
        exact ⟨asked.1, asked.2, by dsimp only; omega⟩
      have acts := step_acts (w := w.step ⟨a, .noteStoppedStreaming⟩) (i := ⟨t, .tick⟩) answers rfl
      have held := acts.carried (loaded ▸ live) carried
      rcases (back [] _ t answers (.nil _) (by simp) (.inl early.starting)).1 with put | ⟨m, member, -⟩ | put
      · rw [← mem_reverted, kept] at put
        cases put
      · cases member
      · exact held.kept (mem_reverted.mpr put)
  · intro recovers v_ms u t up rest quiet calm
    have filled : w.appliedId ≠ "" := loaded ▸ live
    obtain ⟨finished, owed⟩ := stopped_over aloft live loaded recovers
    obtain ⟨last, kept⟩ := run_over filled rest quiet finished
    have still : (u.step ⟨t, .tick⟩).startingId = "" := by
      rcases calm with calm | same
      · exact calm
      · exact same.trans last.starting
    have ticked : Step u ⟨t, .tick⟩ (u.step ⟨t, .tick⟩) := rfl
    refine ⟨?_, fun _ => (ticked.finished still last).ended⟩
    rcases owed with owes | put
    · rcases kept owes with owes | put
      · rcases ticked.owes filled still last owes with owes | put
        · have applied := tick_applied (a := t) up { u with effects := [] }
          have after := ticked.finished still last
          rcases applied with empty | flying | ⟨e, found⟩
          · exact absurd (owes.loaded.symm.trans empty) filled
          · exact absurd flying (owes.not_inFlight after)
          · have gone := owes.gone
            rw [← owes.loaded] at gone
            exact absurd (found.symm.trans gone) (by simp)
        · exact .inr (.inr put)
      · exact .inr (.inl put)
    · exact .inl put

/-- "a" is started by hand and goes live. -/
def startedThenLive : List Input := [⟨{ now := 0 }, .startNow "a"⟩, ⟨{ now := 1000 }, .noteWentLive⟩]

theorem comes_back_stored :
    ComesBack { now := 2000 } (startedThenLive.foldl World.step (World.attach oneEntry)) := by
  refine (comes_back_iff (run_trace World.step (World.attach oneEntry) startedThenLive) (by decide)
    (by decide) { now := 2000 }).mpr ⟨fun id e found _ => ?_, .inl rfl⟩
  obtain ⟨row, member, rfl, same⟩ := ScheduleStore.get_eq_some.mp found
  have ids : (startedThenLive.foldl World.step (World.attach oneEntry)).store.rows.map (·.entry.id) = ["a"] := by
    decide
  have named : row.entry.id ∈ ["a"] := ids ▸ List.mem_map_of_mem member
  rw [← same, List.mem_singleton.mp named]
  decide

/-- The store does not take "done": nothing is put back, and the row stays live. -/
theorem not_comes_back :
    ¬∀ (store : ScheduleStore) (ms : List (Moment World Input)) (w : World),
      Run Step (World.attach store) ms w → w.liveId ≠ "" → w.appliedId = w.liveId →
        ∀ a : Answers, ComesBack a w := by
  intro law
  have back := law oneEntry _ _ (run_trace World.step (World.attach oneEntry) startedThenLive) (by decide)
    (by decide) { now := 2000, storeUp := false } [] _ { now := 3000 } rfl (.nil _) (by simp)
    (.inl (by decide))
  rcases back.1 with put | ⟨m, member, -⟩ | put
  · revert put
    decide
  · cases member
  · revert put
    decide

end Braidcast.Schedule
