import Braidcast.Chat.Hub
import Braidcast.Lib.Leases
import Braidcast.Lib.Lists

/-!
# A stop has the last word

The hub's destinations as leases: a worker holds its destination while it is in `active_` or
taken out of it and not yet reported Disconnected. Where no call of a worker stands between
its check and its write when the worker's destination is reported Disconnected, the row
stays so until the destination is armed again.
-/
namespace Braidcast.Chat

open Lib

namespace ChatHub

def Active.key (e : Active) : Nat × Destination := (e.arm, e.dest)

/-- The rows of `active_`, by worker and destination. -/
def entries (h : ChatHub) : List (Nat × Destination) := h.active.map Active.key

/-- Those a stop has taken out and not yet reported. -/
def Ui.due : Ui → List Active
  | .signalling _ taken _ => taken
  | .disconnecting _ left _ => left
  | _ => []

def Holds (h : ChatHub) (a : Nat) (dest : Destination) : Prop :=
  (a, dest) ∈ h.entries ∨ (a, dest) ∈ h.ui.due.map Active.key

/-- No call with the flags of `a` stands between its check and its write. -/
def Quiet (h : ChatHub) (a : Nat) : Prop := ∀ worker ∈ h.workers, worker.arm = a → worker.pending = none

def stopped : HealthEntry := ⟨.disconnected, ""⟩

def leases (h : ChatHub) : Leases Destination where
  owner a := (h.arms[a]?).map Arm.dest
  holds := h.Holds
  canceled a := h.canceled a = true
  quiet := h.Quiet
  closed dest := h.rows (chatTransportId dest) = some stopped

/-- The destination that a step arms. -/
def armed (h : ChatHub) : Input → Option Destination
  | .arm (some _) =>
    match h.ui with
    | .arming _ (dest :: _) => some dest
    | _ => none
  | _ => none

/-- What the UI thread counts on where it stands. -/
def UiOk (h : ChatHub) : Prop :=
  match h.ui with
  | .idle => True
  | .signalling flag taken restart =>
    (∀ e ∈ taken, ∃ arm, h.arms[e.arm]? = some arm ∧ arm.dest = e.dest ∧
      (flag = some (.generation arm.generation) ∨ flag = some (.destination e.arm))) ∧
    (∀ e ∈ taken, ∀ a, (a, e.dest) ∉ h.entries) ∧ (restart = true → h.entries = [])
  | .disconnecting taken left restart =>
    (∀ e ∈ taken, ∃ arm, h.arms[e.arm]? = some arm ∧ arm.dest = e.dest ∧ h.canceled e.arm = true) ∧ left ⊆ taken ∧
    (∀ e ∈ taken, ∀ a, (a, e.dest) ∉ h.entries) ∧ (restart = true → h.entries = [])
  | .starting => h.entries = []
  | .arming stop enabled => h.stop = some stop ∧ enabled.Nodup ∧ ∀ a, ∀ dest ∈ enabled, (a, dest) ∉ h.entries

structure Inv (h : ChatHub) : Prop where
  sound : h.leases.Sound
  /-- What is active belongs to the generation whose flag `stop_` is. -/
  current : ∀ {a : Nat} {dest : Destination} {arm : Arm}, (a, dest) ∈ h.entries → h.arms[a]? = some arm → h.stop = some arm.generation
  ui : h.UiOk

/-! ### Steps -/

section

variable {env : Env} {h h' : ChatHub} {a i : Nat} {dest : Destination} {given : Option Destination}

/-- What a step owes: it is a step of the leases, and the UI thread can go on. -/
structure Moves (h h' : ChatHub) (given : Option Destination) : Prop where
  lease : h.leases.Step h'.leases given
  current : ∀ {a : Nat} {dest : Destination} {arm : Arm}, (a, dest) ∈ h'.entries → h'.arms[a]? = some arm → h'.stop = some arm.generation
  ui : h'.UiOk

theorem Inv.moves (inv : h.Inv) (moves : Moves h h' given) : h'.Inv :=
  ⟨inv.sound.step moves.lease, moves.current, moves.ui⟩

theorem canceled_iff : h.canceled a = true ↔ ∃ arm, h.arms[a]? = some arm ∧
    (Flag.generation arm.generation ∈ h.signalled ∨ Flag.destination a ∈ h.signalled) := by
  unfold canceled
  cases h.arms[a]? <;> simp

theorem owner_iff : h.leases.owner a = some dest ↔ ∃ arm, h.arms[a]? = some arm ∧ arm.dest = dest :=
  Option.map_eq_some_iff

theorem frame_of (arms : ∀ (a : Nat) (arm : Arm), h.arms[a]? = some arm → h'.arms[a]? = some arm) (signalled : h.signalled ⊆ h'.signalled)
    (quiet : ∀ a, h.canceled a = true → h.Quiet a → h'.Quiet a) : Leases.Frame h.leases h'.leases := by
  constructor
  · intro a canceled
    obtain ⟨arm, here, flag⟩ := canceled_iff.mp canceled
    exact canceled_iff.mpr ⟨arm, arms a arm here, flag.imp (@signalled _) (@signalled _)⟩
  · intro a
    exact quiet a

/-- A step of a worker, or of what the hub shares with others. -/
theorem Inv.keeps (inv : h.Inv) (arms : h'.arms = h.arms) (signalled : h'.signalled = h.signalled) (stop : h'.stop = h.stop)
    (ui : h'.ui = h.ui) (entries : h'.entries = h.entries) (quiet : ∀ a, h.canceled a = true → h.Quiet a → h'.Quiet a)
    (rows : ∀ dest, (∀ b, ¬h.Holds b dest) → h'.rows (chatTransportId dest) = h.rows (chatTransportId dest)) :
    Moves h h' none := by
  have holds : h'.Holds = h.Holds := by
    funext a dest
    simp only [Holds, entries, ui]
  constructor
  · refine .keeps (frame_of (by simp [arms]) (by simp [signalled]) quiet) ?_ holds ?_
    · funext a
      simp only [leases, arms]
    · intro dest free closed
      exact (rows dest free).trans closed
  · intro a dest arm member here
    rw [stop]
    exact inv.current (entries ▸ member) (arms ▸ here)
  · have same : h'.UiOk = h.UiOk := by simp only [UiOk, canceled, ui, arms, entries, signalled, stop]
    rw [same]
    exact inv.ui

variable {worker : Worker}

theorem Quiet.set (quiet : h.Quiet a) (fine : worker.arm = a → worker.pending = none) :
    ∀ other ∈ h.workers.set i worker, other.arm = a → other.pending = none := by
  intro other member its
  rcases List.mem_or_eq_of_mem_set member with old | rfl
  · exact quiet other old its
  · exact fine its

theorem Inv.dispatchSend (inv : h.Inv) (step : h.dispatchSend dest = some h') : Moves h h' none := by
  obtain ⟨e, -, rfl⟩ := Option.map_eq_some_iff.mp step
  refine inv.keeps rfl rfl rfl rfl rfl ?_ fun _ _ => rfl
  intro a _ quiet worker member its
  rcases List.mem_append.mp member with old | new
  · exact quiet worker old its
  · rw [List.mem_singleton.mp new]

theorem Inv.call (inv : h.Inv) {write : Write} (step : h.call i write = some h') : Moves h h' none := by
  unfold ChatHub.call at step
  split at step
  next b stage latch here =>
    obtain ⟨stage', -, rfl⟩ := Option.map_eq_some_iff.mp step
    split
    next => exact inv.keeps rfl rfl rfl rfl rfl (fun a _ quiet => quiet.set fun _ => rfl) fun _ _ => rfl
    -- only a worker that is not canceled passes the check
    next passed =>
      refine inv.keeps rfl rfl rfl rfl rfl (fun a canceled quiet => quiet.set ?_) fun _ _ => rfl
      rintro rfl
      exact absurd canceled passed
  next => cases step

theorem Inv.finish (inv : h.Inv) {error : String} (step : h.finish i error = some h') : Moves h h' none := by
  unfold ChatHub.finish at step
  split at step
  case h_3 => cases step
  all_goals
    cases step
    exact inv.keeps rfl rfl rfl rfl rfl (fun a _ quiet => quiet.set fun _ => rfl) fun _ _ => rfl

theorem Inv.backstop (inv : h.Inv) (step : h.backstop i = some h') : Moves h h' none := by
  unfold ChatHub.backstop at step
  split at step
  · cases step
    exact inv.keeps rfl rfl rfl rfl rfl (fun a _ quiet => quiet.set fun _ => rfl) fun _ _ => rfl
  · cases step

theorem Inv.elsewhere (inv : h.Inv) {event : Event} (step : h.elsewhere env event = some h') : Moves h h' none := by
  unfold ChatHub.elsewhere at step
  split at step
  · cases step
  · obtain ⟨history, -, rfl⟩ := Option.map_eq_some_iff.mp step
    exact inv.keeps rfl rfl rfl rfl rfl (fun _ _ quiet => quiet) fun _ _ => rfl

theorem entries_observe (h : ChatHub) (dest : Destination) (body : Fields) :
    ({ h with active := h.active.map fun e => if e.dest = dest then e.observe body else e } : ChatHub).entries = h.entries := by
  simp only [entries, List.map_map]
  apply List.map_congr_left
  intro e _
  simp only [Function.comp_apply]
  split <;> rfl

/-- What an emit leaves alone. -/
structure Emits (h h' : ChatHub) : Prop where
  arms : h'.arms = h.arms
  signalled : h'.signalled = h.signalled
  stop : h'.stop = h.stop
  ui : h'.ui = h.ui
  workers : h'.workers = h.workers
  entries : h'.entries = h.entries
  rows : h'.rows = h.rows

theorem emits_of_emit {payload : Fields} {now : Int} (step : h.emit env dest payload now = some h') : Emits h h' := by
  simp only [ChatHub.emit] at step
  split at step
  · cases step
    exact ⟨rfl, rfl, rfl, rfl, rfl, entries_observe h dest _, rfl⟩
  split at step
  · split at step
    · obtain ⟨history, -, rfl⟩ := Option.map_eq_some_iff.mp step
      exact ⟨rfl, rfl, rfl, rfl, rfl, rfl, rfl⟩
    · cases step
      exact ⟨rfl, rfl, rfl, rfl, rfl, rfl, rfl⟩
  · cases step
    exact ⟨rfl, rfl, rfl, rfl, rfl, rfl, rfl⟩

theorem land_inv {now : Int} (step : h.land env i now = some h') : ∃ worker write arm, h.workers[i]? = some worker ∧
    worker.pending = some write ∧ h.arms[worker.arm]? = some arm ∧
    ({ h with workers := h.workers.set i { worker with pending := none } } : ChatHub).perform env arm.dest write now =
      some h' := by
  unfold ChatHub.land at step
  split at step
  · obtain ⟨arm, here, performed⟩ := Option.bind_eq_some_iff.mp step
    exact ⟨_, _, arm, ‹_›, rfl, here, performed⟩
  · cases step

theorem not_quiet_of_pending {write : Write} (here : h.workers[i]? = some worker) (its : worker.arm = a)
    (pending : worker.pending = some write) : ¬h.Quiet a := by
  intro quiet
  have none := quiet worker (List.mem_of_getElem? here) its
  rw [pending] at none
  cases none

/-- A call under way is that of a holder. -/
theorem Inv.holds_of_pending (inv : h.Inv) {write : Write} {arm : Arm} (here : h.workers[i]? = some worker)
    (pending : worker.pending = some write) (owns : h.arms[worker.arm]? = some arm) : h.Holds worker.arm arm.dest := by
  by_contra free
  exact not_quiet_of_pending here rfl pending (inv.sound.gone (owner_iff.mpr ⟨arm, owns, rfl⟩) free).2

theorem Inv.land (inv : h.Inv) {now : Int} (step : h.land env i now = some h') : Moves h h' none := by
  obtain ⟨worker, write, arm, here, pending, owns, performed⟩ := land_inv step
  have held := inv.holds_of_pending here pending owns
  have quiet : ∀ a, h.canceled a = true → h.Quiet a →
      ({ h with workers := h.workers.set i { worker with pending := none } } : ChatHub).Quiet a :=
    fun a _ quiet => quiet.set fun _ => rfl
  cases write with
  | report state error =>
    cases performed
    refine inv.keeps rfl rfl rfl rfl rfl quiet fun dest free => ?_
    -- the row that is written is the holder's
    refine HealthRows.report_of_ne _ (fun same => ?_) _
    rw [chatTransportId_inj same] at free
    exact free _ held
  | emit payload =>
    have same := emits_of_emit performed
    refine inv.keeps same.arms same.signalled same.stop same.ui same.entries (fun a canceled before => ?_) fun dest _ => ?_
    · unfold Quiet
      rw [same.workers]
      exact quiet a canceled before
    · rw [same.rows]

/-! ### The UI thread -/

/-- A step of the UI thread that moves entries out of `active_` into its own hands, or lets go of none. -/
theorem Moves.hands (arms : h'.arms = h.arms) (signalled : h.signalled ⊆ h'.signalled) (workers : h'.workers = h.workers)
    (rows : h'.rows = h.rows) (holds : ∀ a dest, h'.Holds a dest ↔ h.Holds a dest)
    (current : ∀ {a : Nat} {dest : Destination} {arm : Arm}, (a, dest) ∈ h'.entries → h.arms[a]? = some arm →
      h'.stop = some arm.generation) (ui : h'.UiOk) : Moves h h' none := by
  refine ⟨.keeps (frame_of (by simp [arms]) signalled ?_) ?_ ?_ ?_, ?_, ui⟩
  · intro a _ quiet
    unfold Quiet
    rwa [workers]
  · funext a
    simp only [leases, arms]
  · funext a dest
    exact propext (holds a dest)
  · intro dest _ closed
    simpa only [leases, rows] using closed
  · intro a dest arm member here
    exact current member (arms ▸ here)

theorem Inv.takeAll (inv : h.Inv) {restart : Bool} (step : h.takeAll restart = some h') : Moves h h' none := by
  unfold ChatHub.takeAll at step
  split at step
  · next idle =>
    cases step
    refine .hands rfl (List.Subset.refl _) rfl rfl ?_ ?_ ?_
    · intro a dest
      simp only [Holds, entries, Ui.due, idle, List.map_nil, List.not_mem_nil, false_or, or_false]
    · intro a dest arm member
      cases member
    · refine ⟨fun e member => ?_, fun _ _ _ => List.not_mem_nil, fun _ => rfl⟩
      have active : (e.arm, e.dest) ∈ h.entries := List.mem_map_of_mem member
      obtain ⟨arm, here, same⟩ := owner_iff.mp (inv.sound.known (.inl active))
      exact ⟨arm, here, same, .inl (by rw [inv.current active here]; rfl)⟩
  · cases step

theorem mem_entries {e : Active} (member : e ∈ h.active) : (e.arm, e.dest) ∈ h.entries := List.mem_map_of_mem member

section

variable (inv : h.Inv)
include inv

/-- One worker holds a destination. -/
theorem Inv.one {b : Nat} (held : h.Holds a dest) (held' : h.Holds b dest) : a = b :=
  Nat.le_antisymm (inv.sound.newest held' (inv.sound.known held)) (inv.sound.newest held (inv.sound.known held'))

theorem Inv.takeOne (step : h.takeOne dest = some h') : Moves h h' none := by
  unfold ChatHub.takeOne at step
  split at step
  · next e idle found =>
    cases step
    have active : e ∈ h.active := List.mem_of_find?_eq_some found
    have itsDest : e.dest = dest := by simpa using List.find?_some found
    have others : ∀ {a other}, (a, other) ∈ (h.active.filter fun o => o.dest ≠ dest).map Active.key ↔
        (a, other) ∈ h.entries ∧ other ≠ dest := by
      intro a other
      simp only [entries, List.mem_map, List.mem_filter, Active.key, Prod.mk.injEq, decide_eq_true_eq]
      constructor
      · rintro ⟨o, ⟨member, apart⟩, rfl, rfl⟩
        exact ⟨⟨o, member, rfl, rfl⟩, apart⟩
      · rintro ⟨⟨o, member, rfl, rfl⟩, apart⟩
        exact ⟨o, ⟨member, apart⟩, rfl, rfl⟩
    refine .hands rfl (List.Subset.refl _) rfl rfl ?_ ?_ ?_
    · intro a other
      simp only [Holds, Ui.due, idle, List.map_nil, List.not_mem_nil, or_false]
      constructor
      · rintro (kept | taken)
        · exact (others.mp kept).1
        · cases List.mem_singleton.mp taken
          exact mem_entries active
      · intro before
        -- the entry that is found is the only one of its destination
        by_cases same : other = dest
        · refine .inr (List.mem_singleton.mpr ?_)
          rw [same, ← itsDest] at before ⊢
          rw [inv.one (.inl before) (.inl (mem_entries active))]
          rfl
        · exact .inl (others.mpr ⟨before, same⟩)
    · intro a other arm member here
      exact inv.current (others.mp member).1 here
    · refine ⟨fun o member => ?_, fun o member a kept => ?_, fun restart => by cases restart⟩
      · rw [List.mem_singleton.mp member]
        obtain ⟨arm, here, same⟩ := owner_iff.mp (inv.sound.known (.inl (mem_entries active)))
        exact ⟨arm, here, same, .inr rfl⟩
      · rw [List.mem_singleton.mp member] at kept
        exact (others.mp kept).2 itsDest
  · cases step
    exact .hands rfl (List.Subset.refl _) rfl rfl (fun _ _ => .rfl) inv.current inv.ui
  · cases step

theorem Inv.signal (step : h.signal = some h') : Moves h h' none := by
  unfold ChatHub.signal at step
  split at step
  · next flag taken restart at_ =>
    cases step
    have ui := inv.ui
    simp only [UiOk, at_] at ui
    obtain ⟨known, out, empty⟩ := ui
    refine .hands rfl (List.subset_append_right _ _) rfl rfl ?_ inv.current ?_
    · intro a dest
      simp only [Holds, entries, Ui.due, at_]
    · refine ⟨fun e member => ?_, List.Subset.refl _, out, empty⟩
      obtain ⟨arm, here, same, flags⟩ := known e member
      refine ⟨arm, here, same, canceled_iff.mpr ⟨arm, here, ?_⟩⟩
      rcases flags with rfl | rfl
      · exact .inl List.mem_cons_self
      · exact .inr List.mem_cons_self
  · cases step

theorem Inv.returns (step : h.returns = some h') : Moves h h' none := by
  unfold ChatHub.returns at step
  split at step
  · next taken restart at_ =>
    cases step
    have ui := inv.ui
    simp only [UiOk, at_] at ui
    refine .hands rfl (List.Subset.refl _) rfl rfl ?_ inv.current ?_
    · intro a dest
      cases restart <;> simp [Holds, entries, Ui.due, at_]
    · cases restart with
      | false => trivial
      | true => exact ui.2.2.2 rfl
  · cases step

theorem Inv.open_ {enabled : List Destination} (step : h.open_ enabled = some h') : Moves h h' none := by
  unfold ChatHub.open_ at step
  split at step
  · next at_ =>
    split at step
    · next once =>
      cases step
      have empty : h.entries = [] := by simpa only [UiOk, at_] using inv.ui
      refine .hands rfl (List.Subset.refl _) rfl rfl ?_ ?_ ⟨rfl, once, fun a dest _ member => ?_⟩
      · intro a dest
        simp only [Holds, entries, Ui.due, at_]
      · intro a dest arm member
        exact absurd (empty ▸ member) List.not_mem_nil
      · exact absurd (empty ▸ member) List.not_mem_nil
    · cases step
  · cases step

theorem Inv.started (step : h.started = some h') : Moves h h' none := by
  unfold ChatHub.started at step
  split at step
  · next at_ =>
    cases step
    refine .hands rfl (List.Subset.refl _) rfl rfl ?_ inv.current trivial
    intro a dest
    simp only [Holds, entries, Ui.due, at_]
  · cases step

/-- The UI thread is about to report the destination of `a` Disconnected. -/
def Reports (h : ChatHub) (a : Nat) : Prop :=
  ∃ taken e left restart, h.ui = .disconnecting taken (e :: left) restart ∧ e.arm = a

theorem Inv.disconnect (step : h.disconnect = some h') (quiet : ∀ a, h.Reports a → h.Quiet a) :
    Moves h h' none := by
  unfold ChatHub.disconnect at step
  split at step
  · next taken e left restart at_ =>
    cases step
    have ui := inv.ui
    simp only [UiOk, at_] at ui
    obtain ⟨known, within, out, empty⟩ := ui
    obtain ⟨arm, here, same, canceled⟩ := known e (within List.mem_cons_self)
    refine ⟨.ends e.arm e.dest (frame_of (fun _ _ => id) (List.Subset.refl _) fun _ _ => id) rfl ?_ ?_ ?_ canceled
      (quiet e.arm ⟨taken, e, left, restart, at_, rfl⟩) (HealthRows.report_self _ _ _) ?_, inv.current, ?_⟩
    · exact .inr (by simp [Ui.due, at_, Active.key])
    · intro a dest held
      refine held.imp id fun due => ?_
      simp only [Ui.due, at_, List.map_cons]
      exact List.mem_cons_of_mem _ due
    · intro a dest held
      rcases held with active | due
      · exact .inl (.inl active)
      · simp only [Ui.due, at_, List.map_cons] at due
        rcases List.mem_cons.mp due with first | later
        · exact .inr (Prod.mk.inj first)
        · exact .inl (.inr later)
    · intro dest apart closed
      exact (HealthRows.report_of_ne _ (fun same => apart (chatTransportId_inj same)) _).trans closed
    · exact ⟨known, fun o member => within (List.mem_cons_of_mem _ member), out, empty⟩
  · cases step

end

/-- Where nothing of the destination is active, its assignment in `active_` only adds. -/
theorem mem_entries_arm (b : Nat) (providerId : String) (free : ∀ a, (a, dest) ∉ h.entries) {other : Destination} :
    (a, other) ∈ List.map Active.key ((h.active.filter fun e => e.dest ≠ dest) ++ [⟨providerId, dest, b, false, ""⟩]) ↔
      (a, other) ∈ h.entries ∨ a = b ∧ other = dest := by
  have kept : (h.active.filter fun e => e.dest ≠ dest) = h.active := by
    refine List.filter_eq_self.mpr fun e member => ?_
    have other : e.dest ≠ dest := fun same => free e.arm (same ▸ mem_entries member)
    simpa using other
  rw [kept]
  simp [entries, Active.key]

theorem Inv.arm (inv : h.Inv) {provider : Option String} (step : h.arm provider = some h') :
    Moves h h' (h.armed (.arm provider)) := by
  unfold ChatHub.arm at step
  split at step
  -- the destination has no chat to connect
  · next stop dest enabled at_ =>
    cases step
    have ui := inv.ui
    simp only [UiOk, at_] at ui
    obtain ⟨current, once, apart⟩ := ui
    refine .hands rfl (List.Subset.refl _) rfl rfl ?_ inv.current
      ⟨current, once.of_cons, fun a other member => apart a other (List.mem_cons_of_mem _ member)⟩
    intro a other
    simp only [Holds, entries, Ui.due, at_]
  · next stop dest enabled providerId at_ =>
    cases step
    have ui := inv.ui
    simp only [UiOk, at_] at ui
    obtain ⟨current, once, apart⟩ := ui
    have given : h.armed (.arm (some providerId)) = some dest := by simp only [armed, at_]
    have free : ∀ b, ¬h.Holds b dest := by
      rintro b (active | due)
      · exact apart b dest List.mem_cons_self active
      · simp [Ui.due, at_] at due
    have entered := fun a other =>
      @mem_entries_arm h a dest h.arms.length providerId (fun b active => free b (.inl active)) other
    have arms : ∀ (a : Nat) (arm : Arm), h.arms[a]? = some arm → (h.arms ++ [⟨dest, stop⟩])[a]? = some arm :=
      fun a arm => getElem?_append_old
    have newArm : ∀ {a : Nat} {arm : Arm}, (h.arms ++ [⟨dest, stop⟩])[a]? = some arm →
        h.arms[a]? = some arm ∨ a = h.arms.length ∧ arm = ⟨dest, stop⟩ := getElem?_append_new
    rw [given]
    refine ⟨.gives h.arms.length dest (frame_of arms (List.Subset.refl _) ?_) free ?_ ?_ ?_ id, ?_, ?_⟩
    · intro a _ quiet worker member its
      rcases List.mem_append.mp member with old | new
      · exact quiet worker old its
      · rw [List.mem_singleton.mp new]
    · intro b other owns
      obtain ⟨arm, here, -⟩ := owner_iff.mp owns
      exact (List.getElem?_eq_some_iff.mp here).1
    · intro b other
      rw [owner_iff, owner_iff]
      constructor
      · rintro ⟨arm, here, rfl⟩
        rcases newArm here with old | ⟨rfl, rfl⟩
        · exact .inl ⟨arm, old, rfl⟩
        · exact .inr ⟨rfl, rfl⟩
      · rintro (⟨arm, here, rfl⟩ | ⟨rfl, rfl⟩)
        · exact ⟨arm, arms b arm here, rfl⟩
        · exact ⟨⟨other, stop⟩, by simp, rfl⟩
    · intro b other
      simp only [leases, Holds, Ui.due, at_, List.map_nil, List.not_mem_nil, or_false]
      exact entered b other
    · intro a other arm member here
      rcases (entered a other).mp member with old | ⟨rfl, rfl⟩
      · rcases newArm here with before | ⟨rfl, -⟩
        · exact inv.current old before
        · obtain ⟨arm', here', -⟩ := owner_iff.mp (inv.sound.known (.inl old))
          exact absurd (List.getElem?_eq_some_iff.mp here').1 (Nat.lt_irrefl _)
      · rcases newArm here with before | ⟨-, rfl⟩
        · exact absurd (List.getElem?_eq_some_iff.mp before).1 (Nat.lt_irrefl _)
        · exact current
    · refine ⟨current, once.of_cons, fun a other member active => ?_⟩
      rcases (entered a other).mp active with old | ⟨-, rfl⟩
      · exact apart a other (List.mem_cons_of_mem _ member) old
      · exact (List.nodup_cons.mp once).1 member
  · cases step

/-- Every step moves the leases, where a destination is reported Disconnected with no call of its worker
under way. -/
theorem Inv.step {input : Input} (inv : h.Inv) (step : Step env h input h')
    (quiet : input = .disconnect → ∀ a, h.Reports a → h.Quiet a) : Moves h h' (h.armed input) := by
  cases input with
  | stop | start => exact inv.takeAll step
  | stopDestination dest => exact inv.takeOne step
  | signal => exact inv.signal step
  | disconnect => exact inv.disconnect step (quiet rfl)
  | returns => exact inv.returns step
  | generation enabled => exact inv.open_ step
  | arm provider => exact inv.arm step
  | started => exact inv.started step
  | send dest => exact inv.dispatchSend step
  | call i write => exact inv.call step
  | land i now => exact inv.land step
  | finish i error => exact inv.finish step
  | backstop i => exact inv.backstop step
  | elsewhere event => exact inv.elsewhere step

end

/-! ### Whole runs -/

theorem inv_fresh (history : World) : (fresh history).Inv where
  sound := by
    constructor
    · rintro a dest (active | due)
      · cases active
      · cases due
    · rintro a b dest (active | due)
      · cases active
      · cases due
    all_goals
      intro a dest owns
      simp [leases, fresh] at owns
  current active := by cases active
  ui := trivial

/-- A stop that took `e` out of `active_` returns. -/
def Returned (m : Moment ChatHub Input) (e : Active) : Prop :=
  m.input = .returns ∧ ∃ taken restart, m.before.ui = .disconnecting taken [] restart ∧ e ∈ taken

/-- The write of a call with the flags of `a` lands. -/
def Lands (m : Moment ChatHub Input) (a : Nat) (write : Write) : Prop :=
  ∃ i now worker, m.input = .land i now ∧ m.before.workers[i]? = some worker ∧ worker.arm = a ∧ worker.pending = some write

/-- The message of an emit is admitted: it takes a seq. -/
def Admits (m : Moment ChatHub Input) (a : Nat) : Prop :=
  ∃ payload, Lands m a (.emit payload) ∧ m.after.history.nextSeq ≠ m.before.history.nextSeq

/-- The write is one of the health row, or of an entry of `active_`. -/
def Write.reaches (h : ChatHub) (dest : Destination) : Write → Prop
  | .report _ _ => True
  | .emit payload => (splitEvent payload).1 = kChatState ∧ (h.find dest).isSome = true

/-- No later worker was started for the destination. -/
def Newest (h : ChatHub) (a : Nat) (dest : Destination) : Prop :=
  ∀ b arm, h.arms[b]? = some arm → arm.dest = dest → b ≤ a

/-- A stop that has returned has the last word on what it covered until that is armed again, and only the
newest worker of a destination writes its row and its entry. -/
structure Authoritative (ms : List (Moment ChatHub Input)) : Prop where
  stays : ∀ {xs m ys zs e}, ms = xs ++ m :: (ys ++ zs) → Returned m e →
    (∀ n ∈ ys, n.before.armed n.input ≠ some e.dest) →
    ∀ n ∈ m :: ys, n.after.rows (chatTransportId e.dest) = some stopped
  silent : ∀ {xs m ys zs e}, ms = xs ++ m :: (ys ++ zs) → Returned m e →
    (∀ n ∈ ys, n.before.armed n.input ≠ some e.dest) →
    ∀ n ∈ ys, ∀ a arm, n.before.arms[a]? = some arm → arm.dest = e.dest → ¬Admits n a
  newest : ∀ m ∈ ms, ∀ a write arm, Lands m a write → m.before.arms[a]? = some arm → write.reaches m.before arm.dest →
    m.before.Newest a arm.dest

/-- When a destination is reported Disconnected, no call with the flags of its worker stands between its
check and its write. -/
def Prompt (m : Moment ChatHub Input) : Prop :=
  m.input = .disconnect → ∀ a, m.before.Reports a → m.before.Quiet a

section

variable {env : Env} {history : World} {h : ChatHub} {m : Moment ChatHub Input} {ms xs ys zs : List (Moment ChatHub Input)}
  {e : Active}

/-- What a returned stop took out is held by nobody. -/
theorem Inv.closed_of_returned (inv : m.before.Inv) (returned : Returned m e) : m.before.leases.Closed e.dest := by
  obtain ⟨-, taken, restart, at_, member⟩ := returned
  have ui := inv.ui
  simp only [UiOk, at_] at ui
  obtain ⟨known, -, out, -⟩ := ui
  obtain ⟨arm, here, same, -⟩ := known e member
  refine ⟨⟨e.arm, owner_iff.mpr ⟨arm, here, same⟩⟩, ?_⟩
  rintro b (active | due)
  · exact out e member b active
  · simp [Ui.due, at_] at due

/-- From a stop's return up to the next arming, the destination is held by nobody. -/
theorem closed_after (run : Run (Step env) (fresh history) (xs ++ m :: (ys ++ zs)) h)
    (prompt : ∀ n ∈ xs ++ m :: (ys ++ zs), Prompt n) (returned : Returned m e)
    (kept : ∀ n ∈ ys, n.before.armed n.input ≠ some e.dest) :
    (m.after.Inv ∧ m.after.leases.Closed e.dest) ∧
      ∀ n ∈ ys, (n.before.Inv ∧ n.before.leases.Closed e.dest) ∧ n.after.Inv ∧ n.after.leases.Closed e.dest := by
  have each := (run.invariant (P := Inv) (fun n prompt step inv => inv.moves (inv.step step prompt)) prompt
    (inv_fresh history)).2
  obtain ⟨before, after⟩ := each m (by simp)
  have step := run.step_of_mem (m := m) (by simp)
  have unarmed : m.before.armed m.input ≠ some e.dest := by
    rw [returned.1]
    simp [armed]
  have closed : m.after.leases.Closed e.dest :=
    (before.closed_of_returned returned).step (before.step step (prompt m (by simp))).lease unarmed
  obtain ⟨_, _, rest⟩ := Run.append_iff.mp run
  obtain ⟨_, _, rest⟩ := Run.cons_iff.mp rest
  obtain ⟨t, middle, _⟩ := Run.append_iff.mp rest
  refine ⟨⟨after, closed⟩, ?_⟩
  refine (middle.invariant (P := fun h => h.Inv ∧ h.leases.Closed e.dest)
    (Q := fun n => Prompt n ∧ n.before.armed n.input ≠ some e.dest) ?_
    (fun n member => ⟨prompt n (by simp [member]), kept n member⟩) ⟨after, closed⟩).2
  rintro n ⟨prompt, kept⟩ step ⟨inv, closed⟩
  have moves := inv.step step prompt
  exact ⟨inv.moves moves, closed.step moves.lease kept⟩

/-- Where every report of a stop finds no call of the stopped worker under way, the stop is authoritative. -/
theorem stop_authoritative (run : Run (Step env) (fresh history) ms h) (prompt : ∀ m ∈ ms, Prompt m) :
    Authoritative ms := by
  constructor
  · rintro xs m ys zs e rfl returned kept n member
    obtain ⟨⟨inv, closed⟩, each⟩ := closed_after run prompt returned kept
    rcases List.mem_cons.mp member with rfl | later
    · exact closed.stands inv.sound
    · obtain ⟨-, inv, closed⟩ := each n later
      exact closed.stands inv.sound
  · rintro xs m ys zs e rfl returned kept n member a arm here same ⟨payload, ⟨i, now, worker, -, there, its, pending⟩, -⟩
    obtain ⟨⟨inv, closed⟩, -⟩ := (closed_after run prompt returned kept).2 n member
    exact not_quiet_of_pending there its pending (closed.quiet inv.sound (owner_iff.mpr ⟨arm, here, same⟩))
  · intro m member a write arm lands here _ b other there same
    have each := (run.invariant (P := Inv) (fun n prompt step inv => inv.moves (inv.step step prompt)) prompt
      (inv_fresh history)).2
    obtain ⟨i, now, worker, -, at_, its, pending⟩ := lands
    have inv := (each m member).1
    exact inv.sound.newest_of_acting (owner_iff.mpr ⟨arm, here, rfl⟩) (not_quiet_of_pending at_ its pending)
      (owner_iff.mpr ⟨other, there, same⟩)

end

/-! ### A stop and one worker -/

def stopEnv : Env := ⟨⟨fun _ => .null, fun _ => ""⟩, ⟨"launch", ["twitch"]⟩⟩

def stopDest : Destination := ⟨⟨"twitch:1", ""⟩, by decide⟩

/-- The hub starts, and the worker reports Connecting. -/
def goesLive : List Input :=
  [.start, .signal, .returns, .generation [stopDest], .arm (some "twitch"), .started, .call 0 (.report .connecting ""),
    .land 0 0]

def stops : List Input := [.stop, .signal, .disconnect, .returns]

/-- The worker is connected before the stop. -/
theorem stop_authoritative_idle : ∃ ms h, Run (Step stopEnv) (fresh (World.fresh .off .off)) ms h ∧ Authoritative ms ∧
    h.rows (chatTransportId stopDest) = some stopped := by
  obtain ⟨ms, h, run, shown⟩ := exists_run_of_follow (ChatHub.step stopEnv) (fresh (World.fresh .off .off))
    (goesLive ++ [.call 0 (.report .connected ""), .land 0 0] ++ stops)
    (fun ms h => (ms.all fun m => match m.input with
        | .disconnect => m.before.workers.all fun worker => worker.pending.isNone
        | _ => true) && decide (h.rows (chatTransportId stopDest) = some stopped))
    (by decide)
  rw [Bool.and_eq_true, List.all_eq_true] at shown
  refine ⟨ms, h, run, stop_authoritative run fun m member report a _ worker among _ => ?_, of_decide_eq_true shown.2⟩
  have idle := shown.1 m member
  rw [report] at idle
  exact Option.isNone_iff_eq_none.mp (List.all_eq_true.mp idle worker among)

/-- `m` returns a disconnect, and a row of its destination is not stopped after that, with no write of a
worker that is armed again. -/
def shownLate (m : Moment ChatHub Input) (ys : List (Moment ChatHub Input)) : Bool :=
  match m.input, m.before.ui with
  | .returns, .disconnecting (e :: _) [] _ =>
    (ys.all fun n => decide (n.before.armed n.input ≠ some e.dest)) &&
      ys.any fun n => decide (n.after.rows (chatTransportId e.dest) ≠ some stopped)
  | _, _ => false

/-- The worker's check comes before the stop, and its Connected lands after it. -/
theorem not_stop_authoritative : ¬∀ (env : Env) (history : World) (ms : List (Moment ChatHub Input)) (h : ChatHub),
    Run (Step env) (fresh history) ms h → Authoritative ms := by
  intro law
  obtain ⟨xs, m, ys, h, run, shown⟩ := exists_run_through (ChatHub.step stopEnv) (fresh (World.fresh .off .off))
    (goesLive ++ [.call 0 (.report .connected "")] ++ stops ++ [.land 0 0]) 12
    (fun m ys _ => shownLate m ys) (by decide)
  rw [shownLate] at shown
  split at shown
  · next e taken restart returns at_ =>
    rw [Bool.and_eq_true, List.all_eq_true, List.any_eq_true] at shown
    obtain ⟨unarmed, n, member, late⟩ := shown
    have whole : xs ++ m :: ys = xs ++ m :: (ys ++ []) := by rw [List.append_nil]
    have stays := (law stopEnv _ _ h run).stays whole ⟨returns, _, _, at_, List.mem_cons_self⟩
      (fun n member => of_decide_eq_true (unarmed n member)) n (List.mem_cons_of_mem _ member)
    exact of_decide_eq_true late stays
  · cases shown

end ChatHub

end Braidcast.Chat
