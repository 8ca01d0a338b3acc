import Braidcast.Events.Store
import Braidcast.Lib.Lists

/-!
# What reaches events.json

Snapshots are taken in one order and written in another. The epoch keeps a snapshot from
before a removal off the disk for good (`removed_stays_gone`), but it does not order the
snapshots of one epoch, so the newest of them must not be written before an older one
(`no_event_lost`).
-/
namespace Braidcast.Events

open Lib

namespace EventStore

variable {s t : EventStore}

/-- A step of a call under `mutex_`. -/
def Locked : StoreEvent → Prop
  | .write _ _ => False
  | .markDirty _ => False
  | _ => True

/-- What a locked step can do: nothing, change the events and mark the store dirty, or take a
snapshot of what it leaves. -/
inductive Moves (s : EventStore) : EventStore → Prop
  | same : Moves s s
  | dirtied (events : List NormalizedEvent) : Moves s { s with events, dirty := true }
  | taken (events : List NormalizedEvent) (dirty : Bool) (seq : Nat) (now : UInt64) (later : s.seq ≤ seq) :
      Moves s ({ s with events, dirty, seq }.snapshot now)

theorem newEpoch_moves (s : EventStore) (events : List NormalizedEvent) (now : UInt64) :
    s.Moves ({ s with events }.newEpochSnapshot now) :=
  .taken events s.dirty (s.seq + 1) now (Nat.le_succ _)

theorem removeIf_moves (s : EventStore) (drop : NormalizedEvent → Bool) (now : UInt64) :
    s.Moves (s.removeIf drop now) := by
  simp only [removeIf]
  split
  · exact newEpoch_moves s _ now
  · exact .same

theorem locked_moves {event : StoreEvent} (locked : Locked event) (step : s.step event = some t) : s.Moves t := by
  cases event with
  | add ev now =>
    obtain rfl : (s.add ev now).1 = t := Option.some.inj step
    simp only [add]
    split
    · exact .same
    · split
      · unfold adoptIdentity
        split
        · exact .same
        · split
          · exact .same
          · exact .dirtied _
      · dsimp only
        split
        · exact .taken _ true s.seq now le_rfl
        · exact .dirtied _
  | flush now =>
    obtain rfl : s.flush now = t := Option.some.inj step
    simp only [flush]
    split
    · exact .taken s.events s.dirty s.seq now le_rfl
    · exact .same
  | clear now =>
    obtain rfl : s.clear now = t := Option.some.inj step
    exact newEpoch_moves s _ now
  | purgeAccount accountId now =>
    obtain rfl : s.purgeAccount accountId now = t := Option.some.inj step
    simp only [purgeAccount]
    split
    · exact .same
    · exact removeIf_moves s _ now
  | pruneOlderThan platform cutoffMs now =>
    obtain rfl : s.pruneOlderThan platform cutoffMs now = t := Option.some.inj step
    exact removeIf_moves s _ now
  | redactMessages reaches mark now =>
    obtain rfl : s.redactMessages reaches mark now = t := Option.some.inj step
    simp only [redactMessages]
    split
    · exact newEpoch_moves s _ now
    · exact .same
  | write | markDirty => exact locked.elim

variable {place : Nat}

/-- The two outcomes of a write step: the snapshot was superseded, or a save of it was tried. -/
theorem write_inv {attempt : Attempt} (step : s.write place attempt = some t) :
    ∃ number snapshot epoch, s.calls[place]? = some (.writing number snapshot epoch) ∧
      ((epoch < s.lastWrittenSeq ∧ t = { s with calls := s.calls.eraseIdx place }) ∨
        (s.lastWrittenSeq ≤ epoch ∧
          t = { s with
            lastWrittenSeq := epoch
            files := (s.files.save snapshot attempt).1
            calls := if (s.files.save snapshot attempt).2 then s.calls.eraseIdx place
              else s.calls.set place .unsaved })) := by
  simp only [write] at step
  split at step
  next number snapshot epoch there =>
    refine ⟨number, snapshot, epoch, there, ?_⟩
    split at step
    next older => exact .inl ⟨older, (Option.some.inj step).symm⟩
    next current => exact .inr ⟨not_lt.mp current, (Option.some.inj step).symm⟩
  · cases step

theorem markDirty_inv (step : s.markDirty place = some t) :
    t = { s with dirty := true, calls := s.calls.eraseIdx place } := by
  simp only [markDirty] at step
  split at step
  · exact (Option.some.inj step).symm
  · cases step

theorem mem_of_mem_set {calls : List Call} {place number epoch : Nat} {snapshot : Json}
    (member : .writing number snapshot epoch ∈ calls.set place .unsaved) : .writing number snapshot epoch ∈ calls := by
  rcases List.mem_or_eq_of_mem_set member with kept | new
  · exact kept
  · cases new

/-- A write step starts no call. -/
theorem write_calls {attempt : Attempt} (step : s.write place attempt = some t)
    {number epoch : Nat} {snapshot : Json} (member : .writing number snapshot epoch ∈ t.calls) :
    .writing number snapshot epoch ∈ s.calls := by
  obtain ⟨_, _, _, -, ⟨-, rfl⟩ | ⟨-, rfl⟩⟩ := write_inv step
  · exact List.mem_of_mem_eraseIdx member
  · dsimp only at member
    split at member
    · exact List.mem_of_mem_eraseIdx member
    · exact mem_of_mem_set member

/-! ### The order of snapshots -/

/-- Snapshots are numbered as they are taken, under epochs that only grow. -/
structure Numbered (s : EventStore) : Prop where
  flight : ∀ number snapshot epoch, .writing number snapshot epoch ∈ s.calls → number ≤ s.taken ∧ epoch ≤ s.seq
  written : s.lastWrittenSeq ≤ s.seq

theorem Numbered.moves (numbered : s.Numbered) (moves : s.Moves t) : t.Numbered := by
  obtain ⟨flight, written⟩ := numbered
  cases moves with
  | same | dirtied => exact ⟨flight, written⟩
  | taken events dirty seq now later =>
    refine ⟨fun number snapshot epoch member => ?_, written.trans later⟩
    rcases List.mem_append.mp member with old | new
    · obtain ⟨before, under⟩ := flight _ _ _ old
      exact ⟨Nat.le_succ_of_le before, under.trans later⟩
    · cases List.mem_singleton.mp new
      exact ⟨le_rfl, le_rfl⟩

theorem Numbered.step (numbered : s.Numbered) {event : StoreEvent} (step : s.step event = some t) : t.Numbered := by
  cases event with
  | write place attempt =>
    -- the epoch written is one that was in flight
    have calls := @write_calls s t place attempt step
    obtain ⟨number, snapshot, epoch, there, outcome⟩ := write_inv step
    have under := (numbered.flight _ _ _ (List.mem_of_getElem? there)).2
    rcases outcome with ⟨-, rfl⟩ | ⟨-, rfl⟩
    · exact ⟨fun _ _ _ member => numbered.flight _ _ _ (calls member), numbered.written⟩
    · exact ⟨fun _ _ _ member => numbered.flight _ _ _ (calls member), under⟩
  | markDirty place =>
    obtain rfl := markDirty_inv step
    exact ⟨fun _ _ _ member => numbered.flight _ _ _ (List.mem_of_mem_eraseIdx member), numbered.written⟩
  | _ => exact numbered.moves (locked_moves (by trivial) step)

theorem load_numbered (files : Files) : (load files).Numbered := ⟨by simp [load], le_rfl⟩

/-! ### No event is lost -/

/-- The last snapshot taken is still on its way. -/
def NewestWaits (s : EventStore) : Prop := ∃ snapshot epoch, .writing s.taken snapshot epoch ∈ s.calls

/-- Unless the store is dirty, the last snapshot taken is of what it holds, and it is on its
way or on disk. -/
structure Kept (s : EventStore) : Prop where
  current : s.dirty = false → ∀ snapshot epoch, .writing s.taken snapshot epoch ∈ s.calls →
    snapshot = buildJson s.events ∧ epoch = s.seq
  kept : s.dirty = false → s.NewestWaits ∨ s.files.events = s.events

/-- A snapshot that is not superseded is written only if it is the last one taken, if that
one is still on its way, or if the store is dirty. -/
def InOrder (m : Moment EventStore StoreEvent) : Prop :=
  match m.input with
  | .write place _ =>
    ∀ number snapshot epoch, m.before.calls[place]? = some (.writing number snapshot epoch) →
      m.before.lastWrittenSeq ≤ epoch → m.before.dirty = false → number = m.before.taken ∨ m.before.NewestWaits
  | _ => True

/-- Every write succeeds. -/
def WriteSucceeds (m : Moment EventStore StoreEvent) : Prop :=
  match m.input with
  | .write _ attempt => attempt = .succeeds
  | _ => True

theorem Kept.moves (kept : s.Kept) (numbered : s.Numbered) (moves : s.Moves t) : t.Kept := by
  cases moves with
  | same => exact kept
  | dirtied events => exact ⟨fun clean => absurd clean (by simp), fun clean => absurd clean (by simp)⟩
  | taken events dirty seq now later =>
    refine ⟨fun _ snapshot epoch member => ?_, fun _ => .inl ⟨_, _, List.mem_append_right _ (List.mem_singleton.mpr rfl)⟩⟩
    rcases List.mem_append.mp member with old | new
    · -- a number past those in flight is the new snapshot's own
      have bound : s.taken + 1 ≤ s.taken := (numbered.flight _ _ _ old).1
      omega
    · cases List.mem_singleton.mp new
      exact ⟨rfl, rfl⟩

theorem Kept.write (kept : s.Kept) (numbered : s.Numbered) (step : s.write place .succeeds = some t)
    (order : ∀ number snapshot epoch, s.calls[place]? = some (.writing number snapshot epoch) →
      s.lastWrittenSeq ≤ epoch → s.dirty = false → number = s.taken ∨ s.NewestWaits) : t.Kept := by
  obtain ⟨number, snapshot, epoch, there, outcome⟩ := write_inv step
  have here := List.mem_of_getElem? there
  rcases outcome with ⟨older, rfl⟩ | ⟨current, rfl⟩
  · refine ⟨fun clean j e member => kept.current clean j e (List.mem_of_mem_eraseIdx member), fun clean => ?_⟩
    rcases kept.kept clean with ⟨j, e, waits⟩ | onDisk
    · refine .inl ⟨j, e, mem_eraseIdx_of_ne there waits ?_⟩
      -- the newest snapshot is of the current epoch, so it is not the superseded one
      rintro ⟨⟩
      have newest := (kept.current clean _ _ here).2
      have written := numbered.written
      omega
    · exact .inr onDisk
  · refine ⟨fun clean j e member => kept.current clean j e (List.mem_of_mem_eraseIdx member), fun clean => ?_⟩
    -- the last snapshot taken reaches the file, or it is still to be written over this one
    by_cases newest : number = s.taken
    · subst newest
      refine .inr ?_
      show eventsIn snapshot = s.events
      rw [(kept.current clean _ _ here).1, eventsIn_buildJson]
    · obtain ⟨j, e, waits⟩ := (order _ _ _ there current clean).resolve_left newest
      refine .inl ⟨j, e, mem_eraseIdx_of_ne there waits ?_⟩
      rintro ⟨⟩
      exact newest rfl

theorem Kept.step (m : Moment EventStore StoreEvent) (ok : InOrder m ∧ WriteSucceeds m)
    (step : m.before.step m.input = some m.after) (held : m.before.Kept ∧ m.before.Numbered) :
    m.after.Kept ∧ m.after.Numbered := by
  obtain ⟨s, event, t⟩ := m
  obtain ⟨kept, numbered⟩ := held
  refine ⟨?_, numbered.step step⟩
  cases event with
  | write place attempt =>
    obtain rfl : attempt = .succeeds := ok.2
    exact kept.write numbered step ok.1
  | markDirty place =>
    obtain rfl : t = { s with dirty := true, calls := s.calls.eraseIdx place } := markDirty_inv step
    exact ⟨fun clean => absurd clean (by simp), fun clean => absurd clean (by simp)⟩
  | _ => exact kept.moves numbered (locked_moves (by trivial) step)

theorem load_kept {files : Files} (intact : loaded files.events = files.events) : (load files).Kept := by
  refine ⟨fun _ _ _ member => absurd member (by simp [load]), fun _ => .inr ?_⟩
  simp only [load, intact]

end EventStore

open EventStore

/-- What the store holds is on disk or will be: in every run in which every write succeeds and
the snapshots of one epoch are not written out of order, a store with no call in flight is
dirty or its events are those in the file. -/
theorem no_event_lost {files : Files} (intact : loaded files.events = files.events)
    {ms : List (Moment EventStore StoreEvent)} {s : EventStore} (run : Run StoreStep (load files) ms s)
    (succeeds : ∀ m ∈ ms, WriteSucceeds m) (order : ∀ m ∈ ms, InOrder m) :
    (s.calls = [] → s.dirty = true ∨ s.files.events = s.events) ∧
      ∀ m ∈ ms, m.after.calls = [] → m.after.dirty = true ∨ m.after.files.events = m.after.events := by
  have settled (t : EventStore) (kept : t.Kept ∧ t.Numbered) (quiet : t.calls = []) :
      t.dirty = true ∨ t.files.events = t.events := by
    cases clean : t.dirty with
    | true => exact .inl rfl
    | false =>
      rcases kept.1.kept clean with ⟨_, _, waits⟩ | onDisk
      · simp [quiet] at waits
      · exact .inr onDisk
  obtain ⟨last, each⟩ := run.invariant (P := fun t => t.Kept ∧ t.Numbered) Kept.step
    (fun m member => ⟨order m member, succeeds m member⟩)
    ⟨load_kept intact, load_numbered files⟩
  exact ⟨settled s last, fun m member => settled m.after (each m member).2⟩

/-- A follow under this id. -/
def followed (id : String) : NormalizedEvent := { id, platform := "kick", type := "follow" }

theorem no_event_lost_flushed :
    ∃ ms s, Run StoreStep (load ⟨none, none⟩) ms s ∧ s.calls = [] ∧ s.dirty = false ∧
      s.files.events = [followed "a", followed "b"] := by
  obtain ⟨ms, s, run, shown⟩ := exists_run_of_follow EventStore.step (load ⟨none, none⟩)
    [.add (followed "a") 1, .write 0 .succeeds, .add (followed "b") 2, .flush 3, .write 0 .succeeds]
    (fun ms s => decide (s.calls = [] ∧ s.dirty = false ∧ s.events = [followed "a", followed "b"]) &&
      ms.all fun m => match m.input with
        | .write place attempt => decide (attempt = .succeeds) && decide (place = 0 ∧ m.before.calls.length = 1) &&
          m.before.calls.all fun call => match call with
            | .writing number _ _ => decide (number = m.before.taken)
            | .unsaved => false
        | _ => true) (by decide)
  simp only [Bool.and_eq_true, decide_eq_true_eq, List.all_eq_true] at shown
  obtain ⟨⟨quiet, clean, held⟩, writes⟩ := shown
  have lost := no_event_lost (by rfl) run
    (fun m member => by
      have here := writes m member
      simp only [WriteSucceeds]
      split
      next place attempt input => simp only [input, Bool.and_eq_true, decide_eq_true_eq] at here; exact here.1.1
      · trivial)
    (fun m member => by
      have here := writes m member
      simp only [InOrder]
      split
      next place attempt input =>
        simp only [input, Bool.and_eq_true, decide_eq_true_eq, List.all_eq_true] at here
        intro number snapshot epoch there _ _
        exact .inl (by simpa using here.2 _ (List.mem_of_getElem? there))
      · trivial)
  exact ⟨ms, s, run, quiet, clean, ((lost.1 quiet).resolve_left (by simp [clean])).trans held⟩

/-- Events are cleared, an event follows, and the shutdown flush is written before the clear
is: the file is left empty. -/
theorem event_lost_to_older_snapshot :
    ¬∀ (files : Files) (ms : List (Moment EventStore StoreEvent)) (s : EventStore),
      loaded files.events = files.events → Run StoreStep (load files) ms s → (∀ m ∈ ms, WriteSucceeds m) →
      s.calls = [] → s.dirty = true ∨ s.files.events = s.events := by
  intro law
  obtain ⟨ms, s, run, shown⟩ := exists_run_of_follow EventStore.step (load ⟨none, none⟩)
    [.clear 1, .add (followed "a") 2, .flush 3, .write 1 .succeeds, .write 0 .succeeds]
    (fun ms s => decide (s.calls = [] ∧ s.dirty = false ∧ s.files.events ≠ s.events) &&
      ms.all fun m => match m.input with
        | .write _ attempt => decide (attempt = .succeeds)
        | _ => true) (by decide)
  simp only [Bool.and_eq_true, decide_eq_true_eq, List.all_eq_true] at shown
  obtain ⟨⟨quiet, clean, apart⟩, writes⟩ := shown
  have succeeds : ∀ m ∈ ms, WriteSucceeds m := by
    intro m member
    have here := writes m member
    simp only [WriteSucceeds]
    split
    next place attempt input => simpa only [input, decide_eq_true_eq] using here
    · trivial
  rcases law ⟨none, none⟩ ms s rfl run succeeds quiet with dirty | same
  · simp [clean] at dirty
  · exact apart same

end Braidcast.Events
