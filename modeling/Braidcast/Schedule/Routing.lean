import Braidcast.Schedule.Sound

/-!
# Whose routing is loaded

Two laws of the routing. The runner puts a configuration back only when its entry is not on
its way up, and a row reads live only with its own configuration loaded.
-/
namespace Braidcast.Schedule

open Relation (ReflTransGen)
open Braidcast.Lib (Moment Run star_keeps run_trace last_mem_trace input_of_mem_trace)

namespace Ledger

/-- On its way up, or live and reading so. Pruning drops a live entry that does not. -/
def Held (now : Int) (L : Ledger) (id : String) : Prop :=
  L.Pending now id ∨ (id ≠ "" ∧ L.liveId = id ∧ ∃ e, L.row id = some e ∧ e.state = .live)

theorem Held.inFlight {now : Int} {L : Ledger} {id : String} (held : L.Held now id) :
    L.InFlight now id := by
  rcases held with pending | ⟨named, live, _⟩
  · exact .inr pending
  · exact .inl ⟨named, live⟩

/-- `M` still holds what `L` held, and has put back nothing that `L` held. -/
def Guards (now : Int) (L M : Ledger) : Prop :=
  ∀ id, (L.Held now id → M.Held now id) ∧ (id ∈ M.reverted → id ∈ L.reverted ∨ ¬L.Held now id)

theorem Guards.star {now : Int} {R : Ledger → Ledger → Prop} {L M : Ledger}
    (each : ∀ L M, R L M → L.Guards now M) (steps : ReflTransGen R L M) : L.Guards now M := by
  induction steps with
  | refl => exact fun id => ⟨fun held => held, .inl⟩
  | @tail M N _ step ih =>
    intro id
    obtain ⟨keeps, only⟩ := ih id
    obtain ⟨keeps', only'⟩ := each M N step id
    refine ⟨fun held => keeps' (keeps held), fun member => ?_⟩
    rcases only' member with old | unheld
    · exact only old
    · exact .inr fun held => unheld (keeps held)

end Ledger

open Ledger

variable {L M : Ledger} {a : Answers}

theorem Prune.guards (step : Prune a L M) : L.Guards a.now M := by
  intro id
  cases step with
  | drop other free stale =>
    refine ⟨fun held => ?_, .inl⟩
    -- a held entry is in flight, and pruning drops the bookkeeping of none that is
    have apart : id ≠ other := fun same => free (same ▸ held.inFlight)
    simpa [Held, Pending, setFlags, Function.update_of_ne apart] using held
  | disarm e stored armed ahead free =>
    constructor
    · intro held
      have apart : id ≠ e.id := fun same => free (same ▸ held.inFlight)
      simpa [Held, Pending, setFlags, setState, Function.update_of_ne apart] using held
    · intro member
      rcases mem_reverted_release.mp member with old | ⟨_, _, rfl⟩
      · exact .inl old
      · exact .inr fun held => free held.inFlight
  | dropStarting free unarmed => exact ⟨fun held => held, .inl⟩
  | dropLive ended =>
    refine ⟨fun held => ?_, .inl⟩
    rcases held with pending | ⟨_, rfl, e, stored, live⟩
    · exact .inl pending
    · exact absurd live (ended e stored)

theorem Move.guards (step : Move a L M) : L.Guards a.now M := by
  intro id
  cases step with
  | arm e stored planned due wanted =>
    refine ⟨fun held => ?_, .inl⟩
    rcases held with pending | ⟨named, live, other, found, state⟩
    · exact .inl pending
    · have apart : id ≠ e.id := by
        rintro rfl
        rw [stored] at found
        cases found
        rw [planned] at state
        cases state
      exact .inr ⟨named, live, other, by simpa [setState, Function.update_of_ne apart] using found, state⟩
  | launch e stored armed due wanted unasked free =>
    constructor
    · intro held
      have apart : id ≠ e.id := fun same => free.1 (same ▸ held.inFlight)
      simpa [Held, Pending, mark, setFlags, Function.update_of_ne apart] using held
    · intro member
      rcases mem_reverted_load.mp member with old | ⟨_, named, rfl⟩
      · exact .inl old
      · exact .inr fun held => (free.2.resolve_left named) held.inFlight
  | refuse e apply reason stored wired refused free =>
    refine ⟨fun held => by simpa [Held, Pending] using held, fun member => ?_⟩
    rcases mem_reverted_revert.mp member with old | ⟨named, rfl⟩
    · exact .inl old
    · exact .inr fun held => (free.2.resolve_left named) held.inFlight
  | miss late waiting idle =>
    refine ⟨fun held => ?_, .inl⟩
    rcases held with pending | ⟨named, live, e, found, state⟩
    · exact .inl pending
    · have kept : late e = false := by
        by_contra missed
        rcases waiting e (by simpa using missed) with planned | armed
        · rw [planned] at state; cases state
        · rw [armed] at state; cases state
      exact .inr ⟨named, live, e, by simp [Ledger.miss, found, kept], state⟩
  | settle free ended =>
    refine ⟨fun held => by simpa [Held, Pending] using held, fun member => ?_⟩
    rcases mem_reverted_revert.mp member with old | ⟨_, rfl⟩
    · exact .inl old
    · exact .inr fun held => free held.inFlight

/-- Whatever an operation puts back was idle, or had just ended, or was live with its row
no longer reading so. -/
theorem Acts.reverted {call : Call} (acts : Acts a call L M) {id : String} (member : id ∈ M.reverted) :
    id ∈ L.reverted ∨ ¬L.InFlight a.now id ∨ (call = .noteStartFailed ∧ L.startingId = id) ∨
      (call = .noteStoppedStreaming ∧ L.liveId = id) ∨
      (call = .tick ∧ L.liveId = id ∧ ∀ e, L.row id = some e → e.state ≠ .live) := by
  cases acts with
  | idle | unclaimed | wentLive | created | edited | deleted => exact .inl member
  | ticked prunes _ moves =>
    obtain ⟨keeps, first⟩ := Guards.star (fun _ _ => Prune.guards) prunes id
    obtain ⟨_, second⟩ := Guards.star (fun _ _ => Move.guards) moves id
    -- neither half of the tick puts back what was held before it
    have unheld : id ∈ L.reverted ∨ ¬L.Held a.now id := by
      rcases second member with early | late
      · exact first early
      · exact .inr fun held => late (keeps held)
    rcases unheld with old | unheld
    · exact .inl old
    · by_cases flying : L.InFlight a.now id
      -- in flight and not held: named live by a row that reads live no more
      · rcases flying with ⟨named, live⟩ | pending
        · have ended : ∀ e, L.row id = some e → e.state ≠ .live :=
            fun e stored state => unheld (.inr ⟨named, live, e, stored, state⟩)
          exact .inr (.inr (.inr (.inr ⟨rfl, live, ended⟩)))
        · exact absurd (.inl pending) unheld
      · exact .inr (.inl flying)
  | canceled e _ _ free | disarmed e _ _ _ free =>
    rcases mem_reverted_release.mp member with old | ⟨_, _, rfl⟩
    · exact .inl old
    · exact .inr (.inl free)
  | started e _ _ free | adopted e _ _ _ _ free =>
    rcases mem_reverted_load.mp member with old | ⟨_, named, rfl⟩
    · exact .inl old
    · exact .inr (.inl (free.2.resolve_left named))
  | startRefused e _ _ _ _ _ _ free | adoptRefused _ _ free =>
    rcases mem_reverted_revert.mp member with old | ⟨named, rfl⟩
    · exact .inl old
    · exact .inr (.inl (free.2.resolve_left named))
  | forgotten other deleted =>
    simp only [letGo] at member
    split at member
    · exact .inl member
    next spared =>
      rcases mem_reverted_release.mp member with old | ⟨_, loaded, rfl⟩
      · exact .inl old
      · exact .inr (.inl fun flying => spared ⟨loaded, flying⟩)
  | startFailed =>
    rcases mem_reverted_release.mp member with old | ⟨_, _, rfl⟩
    · exact .inl old
    · exact .inr (.inr (.inl ⟨rfl, rfl⟩))
  | stopped =>
    rcases mem_reverted_release.mp member with old | ⟨_, _, rfl⟩
    · exact .inl old
    · exact .inr (.inr (.inr (.inl ⟨rfl, rfl⟩)))

/-- What is put back was not in flight just before the operation, unless the operation
reports that entry's end. -/
def PutsBackOnlyIdle (m : Moment World Input) : Prop :=
  ∀ id, Effect.revertEntry id ∈ m.after.effects →
    m.before.isStartInFlight m.input.answers id = false ∨
      (m.input.call = .noteStartFailed ∧ m.before.startingId = id) ∨
      (m.input.call = .noteStoppedStreaming ∧ m.before.liveId = id)

/-- An entry goes live, and its row is deleted without a word to the runner. -/
def deletedWhileLive : List Input :=
  [⟨{ now := 0 }, .startNow "a"⟩, ⟨{ now := 1000 }, .noteWentLive⟩, ⟨{ now := 2000 }, .deleteRow "a"⟩]

/-- Ten minutes on, the next tick drops the live entry and puts its routing back. -/
theorem revertEntry_of_deleted_live :
    ¬∀ (store : ScheduleStore) (ms : List (Moment World Input)) (u : World),
      Run Step (World.attach store) ms u →
      (∀ m ∈ ms, m.input.answers.storeUp = true ∧ m.input.answers.applyEntry.isSome = true) →
      ∀ m ∈ ms, PutsBackOnlyIdle m := by
  intro law
  have idle := law oneEntry _ _
    (run_trace World.step (World.attach oneEntry) (deletedWhileLive ++ [⟨{ now := 700000 }, .tick⟩]))
    (fun m member => ?_) _ (last_mem_trace World.step (World.attach oneEntry) deletedWhileLive _) "a"
    (by decide +kernel)
  · revert idle
    decide +kernel
  · have each : ∀ i ∈ deletedWhileLive ++ [⟨{ now := 700000 }, .tick⟩],
        i.answers.storeUp = true ∧ i.answers.applyEntry.isSome = true := by decide
    exact each m.input (input_of_mem_trace member)

/-- The tick that finds the live entry's row deleted behind the runner's back, with no
`NoteEntryChanged` to say so, puts its configuration back too. -/
theorem revertEntry_only_idle {store : ScheduleStore} {ms : List (Moment World Input)} {u : World}
    (run : Run Step (World.attach store) ms u) (up : ∀ m ∈ ms, m.input.answers.storeUp = true)
    {m : Moment World Input} (member : m ∈ ms) :
    ∀ id, Effect.revertEntry id ∈ m.after.effects →
      m.before.isStartInFlight m.input.answers id = false ∨
        (m.input.call = .noteStartFailed ∧ m.before.startingId = id) ∨
        (m.input.call = .noteStoppedStreaming ∧ m.before.liveId = id) ∨
        (m.input.call = .tick ∧ m.before.liveId = id ∧ m.before.store.get true id = none) := by
  intro id reverted
  have listed : id ∈ m.after.ledger.reverted :=
    List.mem_filterMap.mpr ⟨.revertEntry id, reverted, rfl⟩
  rcases (step_acts (up m member) (run.step_of_mem member)).reverted listed with
    old | idle | failed | stopped | ⟨ticked, live, ended⟩
  · exact absurd old (List.not_mem_nil)
  · exact .inl ((m.before.not_isStartInFlight_iff id).mpr idle)
  · exact .inr (.inl failed)
  · exact .inr (.inr (.inl stopped))
  · refine .inr (.inr (.inr ⟨ticked, live, ?_⟩))
    -- a row the runner named live reads live for as long as it is there
    cases found : m.before.store.get true id with
    | none => rfl
    | some e =>
      have sound := ((run_sound run up).2 m member).1
      have named : m.before.ledger.liveId = id := live
      exact absurd (sound.live e (by rw [named]; exact found)) (ended e found)

theorem revertEntry_after_failure :
    let before := World.step (World.attach oneEntry) ⟨{ now := 0 }, .startNow "a"⟩
    Effect.revertEntry "a" ∈ (before.step ⟨{ now := 5 }, .noteStartFailed⟩).effects ∧
      before.startingId = "a" := by
  intro before
  have reverted : Effect.revertEntry "a" ∈ (before.step ⟨{ now := 5 }, .noteStartFailed⟩).effects := by
    decide +kernel
  let inputs : List Input := [⟨{ now := 0 }, .startNow "a"⟩]
  have up : ∀ i ∈ inputs ++ [⟨{ now := 5 }, .noteStartFailed⟩], i.answers.storeUp = true := by decide
  have why := revertEntry_only_idle (run_trace World.step (World.attach oneEntry) (inputs ++ _))
    (fun m member => up m.input (input_of_mem_trace member))
    (last_mem_trace World.step (World.attach oneEntry) inputs _) "a" reverted
  rcases why with idle | ⟨_, asked⟩ | ⟨stopped, _⟩ | ⟨ticked, _⟩
  · revert idle
    decide +kernel
  · exact ⟨reverted, asked⟩
  · cases stopped
  · cases ticked

/-! ### A row reads live only with its own routing loaded -/

/-- How the three slots hang together. -/
structure Routed (L : Ledger) : Prop where
  live : ∀ id e, L.row id = some e → e.state = .live → L.liveId = id
  slot : L.liveId ≠ "" → L.startingId = "" ∧ L.appliedId = L.liveId
  start : ∀ e, L.row L.startingId = some e → e.state = .armed → L.appliedId = L.startingId

/-- No start is waited for that is past its allowance with its row still armed. -/
def Ledger.Current (now : Int) (L : Ledger) : Prop :=
  ∀ e, L.row L.startingId = some e → e.state = .armed → L.InFlight now L.startingId

/-- A failed start is one that was asked for. -/
def Ledger.Honest (L : Ledger) : Prop := ∀ id, (L.flags id).failed = true → (L.flags id).requested = true

theorem Prune.routed (step : Prune a L M) (sound : Sound L) (routed : Routed L) : Routed M := by
  obtain ⟨named, _, _⟩ := sound
  obtain ⟨live, slot, start⟩ := routed
  cases step with
  | drop other free stale => exact ⟨by grind -linarith, slot, by grind -linarith⟩
  | disarm e stored armed ahead free => constructor <;> grind -linarith [InFlight]
  | dropStarting | dropLive => constructor <;> grind -linarith

/-- Where loading a stored entry is refused, every start waited for is current and every
failed one was asked for. -/
def Ledger.Spared (a : Answers) (L : Ledger) : Prop :=
  ∀ id apply reason, L.row id ≠ none → a.applyEntry = some apply → apply id = some reason →
    L.Current a.now ∧ L.Honest

theorem Prune.spared (step : Prune a L M) (sound : Sound L) (routed : Routed L) (spared : L.Spared a) : M.Spared a := by
  obtain ⟨named, _, _⟩ := sound
  obtain ⟨_, slot, _⟩ := routed
  intro id apply reason stored wired refused
  have before : L.row id ≠ none := by cases step <;> grind -linarith
  obtain ⟨current, honest⟩ := spared id apply reason before wired refused
  cases step with
  | drop | disarm => exact ⟨by grind -linarith [Current, InFlight, Pending], by grind -linarith [Honest]⟩
  | dropStarting free unarmed => exact ⟨by grind -linarith [Current], honest⟩
  | dropLive ended => exact ⟨by grind -linarith [Current, InFlight, Pending], honest⟩

/-- What the second half of a tick keeps: besides the routing, that a planned entry still
named as starting stays planned. -/
structure Ready (a : Answers) (L : Ledger) : Prop where
  sound : Sound L
  routed : Routed L
  spared : L.Spared a
  waiting : ∀ e, L.row L.startingId = some e → e.state = .planned → (L.flags L.startingId).canceled = true

theorem Prune.startingId (step : Prune a L M) :
    M.startingId = L.startingId ∨ M.startingId = "" := by
  cases step <;> simp

theorem ready_of_pruned (prunes : ReflTransGen (Prune a) L M)
    (pruned : Pruned a.now L M) (sound : Sound L) (routed : Routed L) (spared : L.Spared a) :
    Ready a M := by
  obtain ⟨⟨sound', routed', spared'⟩, starting⟩ := star_keeps
    (P := fun N => (Sound N ∧ Routed N ∧ N.Spared a) ∧
      (N.startingId = L.startingId ∨ N.startingId = ""))
    (fun N N' step held => ⟨⟨step.sound held.1.1, step.routed held.1.1 held.1.2.1,
      step.spared held.1.1 held.1.2.1 held.1.2.2⟩, by have := step.startingId; grind -linarith⟩)
    prunes ⟨⟨sound, routed, spared⟩, .inl rfl⟩
  refine ⟨sound', routed', spared', fun e stored planned => ?_⟩
  by_cases named : M.startingId = ""
  · rw [named, sound'.named] at stored
    cases stored
  · rcases pruned.starting named with live | pending | ⟨other, found, armed⟩
    -- a live entry leaves no start to wait for
    · have same := starting.resolve_right named
      have idle := (routed.slot (live ▸ named)).1
      exact absurd (same.trans idle) named
    · exact sound'.asked _ e stored planned pending.1
    · rw [stored] at found
      cases found
      rw [planned] at armed
      cases armed

theorem Move.ready (wired : a.applyEntry.isSome = true) (step : Move a L M) (ready : Ready a L) : Ready a M := by
  have sound := step.sound ready.sound
  obtain ⟨⟨named, _, _⟩, ⟨live, slot, start⟩, spared, waiting⟩ := ready
  cases step with
  | arm | miss =>
    refine ⟨sound, ?_, ?_, ?_⟩
    · constructor <;> grind -linarith
    · intro id apply reason found wired refused
      obtain ⟨current, honest⟩ := spared id apply reason (by grind -linarith) wired refused
      exact ⟨by grind -linarith [Current, InFlight, Pending], honest⟩
    · grind -linarith
  | launch e stored armed due wanted unasked free =>
    refine ⟨sound, ?_, ?_, ?_⟩
    · constructor <;> grind -linarith [Free, InFlight]
    · intro id apply reason found wired refused
      obtain ⟨current, honest⟩ := spared id apply reason (by grind -linarith) wired refused
      exact ⟨by grind -linarith [Current, InFlight, Pending, Honest, kStartInFlightMs], by grind -linarith [Honest]⟩
    · grind -linarith
  | refuse e apply reason stored wired refused free =>
    obtain ⟨current, honest⟩ := spared e.id apply reason (by grind -linarith) wired refused
    refine ⟨sound, ?_, ?_, ?_⟩
    · constructor <;> grind -linarith [Free, InFlight, Current]
    · intro id apply reason found wired refused
      exact ⟨by grind -linarith [Current, InFlight, Pending], by grind -linarith [Honest]⟩
    · grind -linarith
  | settle free ended =>
    refine ⟨sound, ?_, ?_, ?_⟩
    · constructor <;> grind -linarith [InFlight]
    · intro id apply reason found wired refused
      obtain ⟨current, honest⟩ := spared id apply reason (by grind -linarith) wired refused
      exact ⟨by grind -linarith [Current, InFlight, Pending], by grind -linarith [Honest]⟩
    · grind -linarith

theorem Acts.routed {call : Call} (wired : a.applyEntry.isSome = true)
    (acts : Acts a call L M) (sound : Sound L) (routed : Routed L) (ticks : call = .tick → L.Spared a)
    (starts : ∀ id apply reason, call = .startNow id → a.applyEntry = some apply → apply id = some reason →
      L.Current a.now ∧ (L.startingId = id → L.InFlight a.now id)) : Routed M := by
  have before : Sound L ∧ Routed L := ⟨sound, routed⟩
  obtain ⟨named, _, _⟩ := sound
  obtain ⟨live, slot, start⟩ := routed
  cases acts with
  | idle => exact before.2
  | ticked prunes pruned moves =>
    have ready := ready_of_pruned prunes pruned before.1 before.2 (ticks rfl)
    exact (star_keeps (P := Ready a) (fun _ _ step => step.ready wired) moves ready).routed
  | canceled | disarmed => constructor <;> grind -linarith [InFlight]
  | started | adopted => constructor <;> grind -linarith [Free, InFlight]
  | startRefused e apply reason wired refused stored fresh free =>
    -- refused: the routing was put back, so nothing still waited for may have relied on it
    obtain ⟨current, own⟩ := starts e.id apply reason rfl wired refused
    constructor <;> grind -linarith [Free, InFlight, Current]
  | adoptRefused | forgotten | unclaimed | wentLive | startFailed => constructor <;> grind -linarith
  | stopped alive =>
    refine ⟨fun id e found still => ?_, by grind -linarith, by grind -linarith⟩
    -- a second live row would be named live as well
    simp only [release_row, setFlags_row] at found
    rcases of_setState_row _ _ _ _ found with ⟨_, done⟩ | ⟨apart, stored⟩
    · rw [done] at still
      cases still
    · exact absurd (live id e stored still).symm apart
  | created | edited | deleted => constructor <;> grind -linarith [Function.update_apply]

/-- The start the runner waits for is past its allowance with its row still armed, so that
`NoteWentLive` would claim it. -/
def World.overdue (a : Answers) (w : World) : Bool :=
  !w.isStartInFlight a w.startingId &&
    match w.store.get true w.startingId with
    | some e => decide (e.state = .armed)
    | none => false

/-- A tick or a `StartNow` in which `applyEntry` refuses a preparation finds no overdue start,
no failure recorded for a start that was never asked for, and is not itself the second
start of the entry still waited for. -/
def RefusesSafely (m : Moment World Input) : Prop :=
  ∀ apply, m.input.answers.applyEntry = some apply →
    (m.input.call = .tick → (∃ row ∈ m.before.store.rows, (apply row.entry.id).isSome = true) →
      m.before.overdue m.input.answers = false ∧
      ∀ id, (m.before.occurrence id).startFailed = true → (m.before.occurrence id).startRequested = true) ∧
    (∀ id, m.input.call = .startNow id → (apply id).isSome = true →
      m.before.overdue m.input.answers = false ∧
      (m.before.startingId = id → m.before.isStartInFlight m.input.answers id = true))

theorem current_of_not_overdue {w : World} (fine : w.overdue a = false) :
    w.ledger.Current a.now := by
  intro e stored armed
  by_contra grounded
  have down : w.isStartInFlight a w.startingId = false := (w.not_isStartInFlight_iff _).mpr grounded
  simp [World.overdue, down, show w.store.get true w.startingId = some e from stored, armed] at fine

theorem Step.routed {w w' : World} {i : Input} (up : i.answers.storeUp = true)
    (wired : i.answers.applyEntry.isSome = true) (safe : RefusesSafely ⟨w, i, w'⟩) (step : Step w i w')
    (sound : Sound w.ledger) (routed : Routed w.ledger) : Routed w'.ledger := by
  refine (step_acts up step).routed wired ⟨sound.named, sound.live, sound.asked⟩
    ⟨routed.live, routed.slot, routed.start⟩ ?_ ?_
  · intro ticked id apply reason stored applied refused
    obtain ⟨e, found⟩ := Option.ne_none_iff_exists'.mp stored
    obtain ⟨row, member, rfl, same⟩ := ScheduleStore.get_eq_some.mp found
    obtain ⟨fine, honest⟩ := (safe apply applied).1 ticked ⟨row, member, by simp [same, refused]⟩
    exact ⟨current_of_not_overdue fine, honest⟩
  · intro id apply reason started applied refused
    obtain ⟨fine, own⟩ := (safe apply applied).2 id started (by simp [refused])
    exact ⟨current_of_not_overdue fine, fun same => (w.isStartInFlight_iff id).mp (own same)⟩

theorem boot_routed (store : ScheduleStore) : Routed (World.attach store.recoverInterrupted).ledger where
  live := by
    intro id e found live
    obtain ⟨old, _, rfl⟩ := Option.map_eq_some_iff.mp
      ((ScheduleStore.get_recoverInterrupted store id).symm.trans found)
    revert live
    cases old.state <;> simp
  slot := fun named => absurd rfl named
  start := fun e found _ => absurd rfl (ScheduleStore.ne_empty_of_get found)

/-- The rows that read live are the one the runner named live, with its routing loaded. -/
def LiveWithOwnRouting (w : World) : Prop :=
  ∀ row ∈ w.store.rows, row.entry.state = .live → w.liveId = row.entry.id ∧ w.appliedId = row.entry.id

theorem Routed.liveWithOwnRouting {w : World} (routed : Routed w.ledger) : LiveWithOwnRouting w := by
  intro row member live
  have named : w.ledger.liveId = row.entry.id := routed.live _ _ (ScheduleStore.get_row member) live
  have loaded := (routed.slot (named ▸ w.store.nonempty row member)).2
  exact ⟨named, loaded.trans named⟩

/-- In a run in which no preparation is refused over an overdue start, no row ever reads
live without its own routing. -/
theorem live_with_own_routing {store : ScheduleStore} {ms : List (Moment World Input)} {u : World}
    (run : Run Step (World.attach store.recoverInterrupted) ms u)
    (up : ∀ m ∈ ms, m.input.answers.storeUp = true)
    (wired : ∀ m ∈ ms, m.input.answers.applyEntry.isSome = true) (safe : ∀ m ∈ ms, RefusesSafely m) :
    LiveWithOwnRouting u ∧ ∀ m ∈ ms, LiveWithOwnRouting m.before ∧ LiveWithOwnRouting m.after := by
  obtain ⟨last, each⟩ := run.invariant (P := fun w => Sound w.ledger ∧ Routed w.ledger)
    (fun m (ok : m.input.answers.storeUp = true ∧ m.input.answers.applyEntry.isSome = true ∧
      RefusesSafely m) step held =>
        ⟨Step.sound ok.1 step held.1, Step.routed ok.1 ok.2.1 ok.2.2 step held.1 held.2⟩)
    (fun m member => ⟨up m member, wired m member, safe m member⟩)
    ⟨attach_sound _, boot_routed store⟩
  exact ⟨last.2.liveWithOwnRouting, fun m member =>
    ⟨(each m member).1.2.liveWithOwnRouting, (each m member).2.2.liveWithOwnRouting⟩⟩

theorem live_with_own_routing_started :
    let w := [⟨{ now := 0 }, .startNow "a"⟩, ⟨{ now := 1000 }, .noteWentLive⟩].foldl World.step
      (World.attach oneEntry.recoverInterrupted)
    (w.store.get true "a").map (·.state) = some .live ∧ LiveWithOwnRouting w := by
  refine ⟨by decide +kernel, ?_⟩
  let inputs : List Input := [⟨{ now := 0 }, .startNow "a"⟩, ⟨{ now := 1000 }, .noteWentLive⟩]
  have each : ∀ i ∈ inputs, i.answers.storeUp = true ∧ i.answers.applyEntry.isSome = true := by decide
  have accepts : ∀ i ∈ inputs, ∀ apply, i.answers.applyEntry = some apply → ∀ id, apply id = none := by
    intro i member apply wired id
    rcases List.mem_cons.mp member with rfl | member
    · cases wired; rfl
    · rw [List.mem_singleton.mp member] at wired
      cases wired; rfl
  refine (live_with_own_routing (run_trace World.step _ inputs)
    (fun m member => (each _ (input_of_mem_trace member)).1)
    (fun m member => (each _ (input_of_mem_trace member)).2) fun m member apply wired => ?_).1
  have accept := accepts _ (input_of_mem_trace member) apply wired
  exact ⟨fun _ ⟨row, _, refused⟩ => by simp [accept] at refused, fun id _ refused => by simp [accept] at refused⟩

def twoEntries : ScheduleStore where
  rows := [⟨{ id := "a", startsAt := 900000, autoStart := false }, [{ profileId := "p" }]⟩,
    ⟨{ id := "b", startsAt := 700000, autoStart := true }, [{ profileId := "p" }]⟩]
  nodup := by decide
  nonempty := by decide

/-- "a" is started by hand and reports nothing for ten minutes; the preparation of "b" puts
its routing back and is refused; then "a" reports that it went live. -/
def refusedOverOverdue : List Input :=
  [⟨{ now := 0 }, .startNow "a"⟩, ⟨{ now := 650000 }, .tick⟩,
    ⟨{ now := 700000, applyEntry := some fun _ => some "busy" }, .tick⟩, ⟨{ now := 700500 }, .noteWentLive⟩]

theorem live_without_own_routing :
    ¬∀ (store : ScheduleStore) (ms : List (Moment World Input)) (u : World),
      Run Step (World.attach store.recoverInterrupted) ms u →
      (∀ m ∈ ms, m.input.answers.storeUp = true ∧ m.input.answers.applyEntry.isSome = true) →
      LiveWithOwnRouting u := by
  intro law
  have each : ∀ i ∈ refusedOverOverdue,
      i.answers.storeUp = true ∧ i.answers.applyEntry.isSome = true := by decide
  have routed := law twoEntries _ _ (run_trace World.step _ refusedOverOverdue)
    (fun m member => each m.input (input_of_mem_trace member))
  unfold LiveWithOwnRouting at routed
  revert routed
  decide +kernel

end Braidcast.Schedule
