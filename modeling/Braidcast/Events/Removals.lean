import Braidcast.Events.Writes

/-!
# What a removal takes off the disk

A Clear, a purge, a prune or a redaction opens a new epoch. Every snapshot of that epoch or a
later one was taken after it, and once a write of it has been answered, no older one is
written. A failed save can still move an older temp file into place, so what the file holds
is followed from the moment the removal's own snapshot is in it.
-/
namespace Braidcast.Events

open Lib

/-- A stored event after later calls: under its id, with its words or without. -/
def Descends (ev ev' : NormalizedEvent) : Prop :=
  ev'.id = ev.id ∧ (ev'.message = ev.message ∨ ev'.message = "")

/-- Neither events.json nor its temp file holds what is ruled out. -/
def Files.Free (files : Files) (gone : NormalizedEvent → Prop) : Prop :=
  (∀ json, files.saved = some json → ∀ ev ∈ eventsIn json, gone ev) ∧
    ∀ json, files.temp = some json → ∀ ev ∈ eventsIn json, gone ev

theorem Files.Free.save {files : Files} {gone : NormalizedEvent → Prop} (free : files.Free gone) {root : Json}
    (clean : ∀ ev ∈ eventsIn root, gone ev) (attempt : Attempt) : (files.save root attempt).1.Free gone := by
  obtain ⟨file, temp⟩ := free
  have own : ∀ json, some root = some json → ∀ ev ∈ eventsIn json, gone ev := by
    rintro json ⟨⟩
    exact clean
  have none : ∀ json, (none : Option Json) = some json → ∀ ev ∈ eventsIn json, gone ev := by simp
  cases attempt with
  | succeeds => exact ⟨own, none⟩
  | fails reached outgoing promotes clears =>
    -- each of the two slots holds what one of them held before, this snapshot or nothing
    have left : ∀ json, files.left root reached = some json → ∀ ev ∈ eventsIn json, gone ev := by
      cases reached
      · exact temp
      · exact none
      · exact own
    have kept : ∀ json, (if reached = .finished ∧ outgoing = true then Option.none else files.saved) = some json →
        ∀ ev ∈ eventsIn json, gone ev := by
      split
      · exact none
      · exact file
    unfold Files.save
    dsimp only
    split
    next t gone' there =>
      rw [there] at left
      split
      · exact ⟨left, none⟩
      · exact ⟨none, left⟩
    · exact ⟨none, none⟩
    next file' _ there =>
      rw [there] at kept
      refine ⟨kept, ?_⟩
      dsimp only
      split
      · exact none
      · exact left

theorem Files.free_of_saved {files : Files} {gone : NormalizedEvent → Prop} {root : Json} {attempt : Attempt}
    (saved : (files.save root attempt).2 = true) (clean : ∀ ev ∈ eventsIn root, gone ev) :
    (files.save root attempt).1.Free gone := by
  have own : ∀ json, some root = some json → ∀ ev ∈ eventsIn json, gone ev := by
    rintro json ⟨⟩
    exact clean
  have placed : files.save root attempt = (⟨some root, none⟩, true) := by
    cases attempt with
    | succeeds => rfl
    | fails reached outgoing promotes clears =>
      unfold Files.save at saved ⊢
      dsimp only at saved ⊢
      split at saved
      next t there left =>
        split at saved
        next moves =>
          obtain rfl : t = root := by simpa using saved
          simp [moves]
        · cases saved
      · cases saved
      · cases saved
  rw [placed]
  exact ⟨own, by simp⟩

namespace EventStore

variable {s t : EventStore}

/-! ### What a step does to the events -/

theorem mem_updateFirst {found : NormalizedEvent → Bool} {change : NormalizedEvent → NormalizedEvent}
    {events : List NormalizedEvent} {ev' : NormalizedEvent} (member : ev' ∈ updateFirst found change events) :
    ∃ ev ∈ events, ev' = ev ∨ ev' = change ev := by
  induction events with
  | nil => cases member
  | cons ev rest ih =>
    simp only [updateFirst] at member
    split at member <;> rcases List.mem_cons.mp member with rfl | later
    · exact ⟨ev, List.mem_cons_self, .inr rfl⟩
    · exact ⟨ev', List.mem_cons_of_mem _ later, .inl rfl⟩
    · exact ⟨ev', List.mem_cons_self, .inl rfl⟩
    · obtain ⟨old, held, same⟩ := ih later
      exact ⟨old, List.mem_cons_of_mem _ held, same⟩

theorem descends_refl (ev : NormalizedEvent) : Descends ev ev := ⟨rfl, .inl rfl⟩

theorem redactEvent_descends (reaches : NormalizedEvent → Bool) (mark : String) (ev : NormalizedEvent) :
    Descends ev (redactEvent reaches mark ev) := by
  simp only [redactEvent]
  split
  · exact ⟨rfl, .inr rfl⟩
  · exact descends_refl ev

theorem removeIf_events (drop : NormalizedEvent → Bool) (now : UInt64) :
    (s.removeIf drop now).events = s.events.filter fun ev => !drop ev := by
  simp only [removeIf]
  split
  · rfl
  next none =>
    rw [eq_comm, List.filter_eq_self]
    simpa using none

theorem redactMessages_events (reaches : NormalizedEvent → Bool) (mark : String) (now : UInt64) :
    (s.redactMessages reaches mark now).events = s.events.map (redactEvent reaches mark) := by
  simp only [redactMessages]
  split
  · rfl
  next none =>
    have kept : ∀ ev ∈ s.events, redactEvent reaches mark ev = id ev := by
      intro ev member
      have untouched : redacts reaches ev = false := by simpa using fun hit => none (List.any_eq_true.mpr ⟨ev, member, hit⟩)
      simp [redactEvent, untouched]
    rw [List.map_congr_left kept, List.map_id]

theorem capped_sublist (events : List NormalizedEvent) : (capped events).Sublist events := List.drop_sublist _ _

/-- The events an Add leaves: a duplicate's stored copy may change, and a new event is put
behind the newest. -/
theorem add_events_eq (s : EventStore) (ev : NormalizedEvent) (now : UInt64) :
    (s.add ev now).1.events = s.events ∨
      (s.add ev now).1.events = updateFirst (fun old => old.id == ev.id) (adoptFrom ev) s.events ∨
      (s.contains ev.id = false ∧ (s.add ev now).1.events = capped (s.events ++ [ev])) := by
  simp only [add]
  split
  · exact .inl rfl
  · split
    · unfold adoptIdentity
      split
      · exact .inl rfl
      · split
        · exact .inl rfl
        · exact .inr (.inl rfl)
    next fresh =>
      refine .inr (.inr ⟨by simpa using fresh, ?_⟩)
      simp only [apply_ite EventStore.events, snapshot, ite_self]

theorem add_events {ev ev' : NormalizedEvent} {now : UInt64} (member : ev' ∈ (s.add ev now).1.events) :
    (∃ old ∈ s.events, Descends old ev') ∨ (ev' = ev ∧ s.contains ev.id = false) := by
  rcases add_events_eq s ev now with same | adopted | ⟨fresh, grown⟩
  · exact .inl ⟨ev', same ▸ member, descends_refl ev'⟩
  · obtain ⟨old, held, rfl | rfl⟩ := mem_updateFirst (adopted ▸ member)
    · exact .inl ⟨_, held, descends_refl _⟩
    · exact .inl ⟨old, held, rfl, .inl rfl⟩
  · rcases List.mem_append.mp ((capped_sublist _).subset (grown ▸ member)) with old | new
    · exact .inl ⟨ev', old, descends_refl ev'⟩
    · exact .inr ⟨List.mem_singleton.mp new, fresh⟩

variable {event : StoreEvent}

theorem step_events (step : s.step event = some t) {ev' : NormalizedEvent} (member : ev' ∈ t.events) :
    (∃ ev ∈ s.events, Descends ev ev') ∨ ∃ now, event = .add ev' now ∧ s.contains ev'.id = false := by
  cases event with
  | add ev now =>
    obtain rfl : (s.add ev now).1 = t := Option.some.inj step
    rcases add_events member with old | ⟨rfl, fresh⟩
    · exact .inl old
    · exact .inr ⟨now, rfl, fresh⟩
  | flush now =>
    obtain rfl : s.flush now = t := Option.some.inj step
    refine .inl ⟨ev', ?_, descends_refl ev'⟩
    simp only [flush] at member
    split at member <;> exact member
  | clear now =>
    obtain rfl : s.clear now = t := Option.some.inj step
    cases member
  | purgeAccount accountId now =>
    obtain rfl : s.purgeAccount accountId now = t := Option.some.inj step
    refine .inl ⟨ev', ?_, descends_refl ev'⟩
    simp only [purgeAccount] at member
    split at member
    · exact member
    · exact List.mem_of_mem_filter (removeIf_events _ now ▸ member)
  | pruneOlderThan platform cutoffMs now =>
    obtain rfl : s.pruneOlderThan platform cutoffMs now = t := Option.some.inj step
    exact .inl ⟨ev', List.mem_of_mem_filter (removeIf_events _ now ▸ member), descends_refl ev'⟩
  | redactMessages reaches mark now =>
    obtain rfl : s.redactMessages reaches mark now = t := Option.some.inj step
    rw [redactMessages_events] at member
    obtain ⟨ev, held, rfl⟩ := List.mem_map.mp member
    exact .inl ⟨ev, held, redactEvent_descends reaches mark ev⟩
  | write place attempt =>
    obtain ⟨_, _, _, -, ⟨-, rfl⟩ | ⟨-, rfl⟩⟩ := write_inv step <;> exact .inl ⟨ev', member, descends_refl ev'⟩
  | markDirty place =>
    obtain rfl := markDirty_inv step
    exact .inl ⟨ev', member, descends_refl ev'⟩

/-! ### Ids are held once -/

/-- No two stored events share an id. -/
def Distinct (s : EventStore) : Prop := (s.events.map (·.id)).Nodup

theorem updateFirst_ids (found : NormalizedEvent → Bool) {change : NormalizedEvent → NormalizedEvent}
    (keeps : ∀ ev, (change ev).id = ev.id) (events : List NormalizedEvent) :
    (updateFirst found change events).map (·.id) = events.map (·.id) := by
  induction events with
  | nil => rfl
  | cons ev rest ih =>
    simp only [updateFirst]
    split <;> simp [keeps, ih]

variable {ev : NormalizedEvent}

/-- One more event, under an id that is not held. -/
theorem nodup_append_fresh {events : List NormalizedEvent}
    (distinct : (events.map (·.id)).Nodup) (fresh : ¬ events.any (fun old => old.id == ev.id)) :
    ((events ++ [ev]).map (·.id)).Nodup := by
  rw [List.map_append, List.nodup_append]
  refine ⟨distinct, by simp, fun a held b new same => fresh ?_⟩
  obtain ⟨old, member, rfl⟩ := List.mem_map.mp held
  obtain rfl : b = ev.id := by simpa using new
  exact List.any_eq_true.mpr ⟨old, member, by simpa using same⟩

theorem Distinct.add (distinct : s.Distinct) (ev : NormalizedEvent) (now : UInt64) : (s.add ev now).1.Distinct := by
  simp only [Distinct]
  rcases add_events_eq s ev now with same | adopted | ⟨fresh, grown⟩
  · rw [same]
    exact distinct
  · have ids := updateFirst_ids (fun old => old.id == ev.id) (fun copied => show (adoptFrom ev copied).id = _ from rfl) s.events
    rw [adopted, ids]
    exact distinct
  · rw [grown]
    exact (nodup_append_fresh distinct (by simpa [contains] using fresh)).sublist ((capped_sublist _).map _)

theorem Distinct.step (distinct : s.Distinct) (step : s.step event = some t) : t.Distinct := by
  have filtered (p : NormalizedEvent → Bool) : ((s.events.filter p).map (·.id)).Nodup :=
    distinct.sublist ((List.filter_sublist).map _)
  cases event with
  | add ev now =>
    obtain rfl : (s.add ev now).1 = t := Option.some.inj step
    exact distinct.add ev now
  | flush now =>
    obtain rfl : s.flush now = t := Option.some.inj step
    simp only [flush]
    split <;> exact distinct
  | clear now =>
    obtain rfl : s.clear now = t := Option.some.inj step
    exact .nil
  | purgeAccount accountId now =>
    obtain rfl : s.purgeAccount accountId now = t := Option.some.inj step
    simp only [purgeAccount]
    split
    · exact distinct
    · unfold Distinct
      rw [removeIf_events]
      exact filtered _
  | pruneOlderThan platform cutoffMs now =>
    obtain rfl : s.pruneOlderThan platform cutoffMs now = t := Option.some.inj step
    simp only [Distinct, pruneOlderThan]
    rw [removeIf_events]
    exact filtered _
  | redactMessages reaches mark now =>
    obtain rfl : s.redactMessages reaches mark now = t := Option.some.inj step
    have same : (s.events.map (redactEvent reaches mark)).map (·.id) = s.events.map (·.id) := by
      rw [List.map_map]
      exact List.map_congr_left fun ev _ => (redactEvent_descends reaches mark ev).1
    simp only [Distinct]
    rw [redactMessages_events, same]
    exact distinct
  | write place attempt =>
    obtain ⟨_, _, _, -, ⟨-, rfl⟩ | ⟨-, rfl⟩⟩ := write_inv step <;> exact distinct
  | markDirty place =>
    obtain rfl := markDirty_inv step
    exact distinct

theorem load_distinct (files : Files) : (load files).Distinct := by
  -- the loop skips an id that is held, whatever it holds when it starts
  have grows (events held : List NormalizedEvent) (distinct : (held.map (·.id)).Nodup) :
      ((events.foldl (fun held ev =>
        if ev.id = "" ∨ held.any (fun h => h.id == ev.id) then held else held ++ [ev]) held).map (·.id)).Nodup := by
    induction events generalizing held with
    | nil => exact distinct
    | cons ev rest ih =>
      refine ih _ ?_
      dsimp only
      split
      · exact distinct
      next fresh => exact nodup_append_fresh distinct fun held => fresh (.inr held)
  have kept := grows files.events [] .nil
  simp only [Distinct, load, loaded]
  exact kept.sublist ((capped_sublist _).map _)

theorem Distinct.eq_of_id (distinct : s.Distinct) {a b : NormalizedEvent} (first : a ∈ s.events)
    (second : b ∈ s.events) (same : a.id = b.id) : a = b :=
  List.inj_on_of_nodup_map distinct first second same

/-! ### After a removal -/

/-- An Add stores an event under this id. -/
def Readds (id : String) (m : Moment EventStore StoreEvent) : Prop :=
  ∃ ev now, m.input = .add ev now ∧ ev.id = id ∧ m.before.contains id = false

/-- Neither the events nor a snapshot of this epoch or later holds what `gone` rules out.
`number` is the snapshot the epoch opened with. -/
structure Rid (gone : NormalizedEvent → Prop) (epoch number : Nat) (s : EventStore) : Prop where
  held : ∀ ev ∈ s.events, gone ev
  opened : epoch ≤ s.seq
  issued : number ≤ s.taken
  flight : ∀ n snapshot e, .writing n snapshot e ∈ s.calls → epoch ≤ e → ∀ ev ∈ eventsIn snapshot, gone ev
  own : ∀ snapshot e, .writing number snapshot e ∈ s.calls → e = epoch

/-- What is ruled out of an id's event stays so until the id is added again. -/
structure Rules (gone : NormalizedEvent → Prop) (id : String) : Prop where
  descends : ∀ ev ev', Descends ev ev' → gone ev → gone ev'
  others : ∀ ev, ev.id ≠ id → gone ev

variable {gone : NormalizedEvent → Prop} {id : String} {epoch number : Nat}

theorem Rid.step (rid : s.Rid gone epoch number) (rules : Rules gone id)
    (step : s.step event = some t) : t.Rid gone epoch number ∨ Readds id ⟨s, event, t⟩ := by
  by_cases readds : Readds id ⟨s, event, t⟩
  · exact .inr readds
  refine .inl ?_
  have held : ∀ ev ∈ t.events, gone ev := by
    intro ev' member
    rcases step_events step member with ⟨ev, old, descends⟩ | ⟨now, rfl, fresh⟩
    · exact rules.descends ev ev' descends (rid.held ev old)
    · exact rules.others ev' fun same => readds ⟨ev', now, rfl, same, same ▸ fresh⟩
  -- under the lock a snapshot is only ever taken of what the store then holds
  have locked (moves : s.Moves t) : t.Rid gone epoch number := by
    obtain ⟨-, opened, issued, flight, own⟩ := rid
    cases moves with
    | same | dirtied => exact ⟨held, opened, issued, flight, own⟩
    | taken events dirty seq now later =>
      refine ⟨held, opened.trans later, Nat.le_succ_of_le issued, fun n j e member under => ?_, fun j e member => ?_⟩
      · rcases List.mem_append.mp member with old | new
        · exact flight n j e old under
        · cases List.mem_singleton.mp new
          rw [eventsIn_buildJson]
          exact held
      · rcases List.mem_append.mp member with old | new
        · exact own j e old
        · cases List.mem_singleton.mp new
          exact absurd issued (Nat.not_succ_le_self _)
  obtain ⟨-, opened, issued, flight, own⟩ := rid
  cases event with
  | write place attempt =>
    -- a write takes no snapshot, so those in flight were there before
    have calls := @write_calls s t place attempt step
    obtain ⟨_, _, _, -, ⟨-, rfl⟩ | ⟨-, rfl⟩⟩ := write_inv step <;>
      exact ⟨held, opened, issued, fun n j e member => flight n j e (calls member),
        fun j e member => own j e (calls member)⟩
  | markDirty place =>
    obtain rfl := markDirty_inv step
    exact ⟨held, opened, issued, fun n j e member => flight n j e (List.mem_of_mem_eraseIdx member),
      fun j e member => own j e (List.mem_of_mem_eraseIdx member)⟩
  | _ => exact locked (locked_moves (by trivial) step)

/-- Once a write of the epoch was answered, older snapshots are dropped. -/
structure Barred (gone : NormalizedEvent → Prop) (epoch number : Nat) (s : EventStore) : Prop extends
    Rid gone epoch number s where
  barred : epoch ≤ s.lastWrittenSeq

theorem step_lastWritten (step : s.step event = some t) :
    s.lastWrittenSeq ≤ t.lastWrittenSeq := by
  have locked (moves : s.Moves t) : s.lastWrittenSeq ≤ t.lastWrittenSeq := by
    cases moves <;> exact le_rfl
  cases event with
  | write place attempt =>
    obtain ⟨_, _, _, -, ⟨-, rfl⟩ | ⟨current, rfl⟩⟩ := write_inv step
    · exact le_rfl
    · exact current
  | markDirty place =>
    obtain rfl := markDirty_inv step
    exact le_rfl
  | _ => exact locked (locked_moves (by trivial) step)

theorem Barred.step (barred : s.Barred gone epoch number) (rules : Rules gone id)
    (step : s.step event = some t) : t.Barred gone epoch number ∨ Readds id ⟨s, event, t⟩ := by
  rcases barred.toRid.step rules step with rid | readds
  · exact .inl ⟨rid, barred.barred.trans (step_lastWritten step)⟩
  · exact .inr readds

variable {attempt : Attempt}

theorem Barred.write_free (barred : s.Barred gone epoch number) (free : s.files.Free gone) {place : Nat}
    (step : s.write place attempt = some t) : t.files.Free gone := by
  obtain ⟨n, snapshot, e, there, ⟨-, rfl⟩ | ⟨current, rfl⟩⟩ := write_inv step
  · exact free
  · exact free.save (barred.flight n snapshot e (List.mem_of_getElem? there) (barred.barred.trans current)) attempt

/-- And the file never holds it again, once it is free of it. -/
structure Landed (gone : NormalizedEvent → Prop) (epoch number : Nat) (s : EventStore) : Prop extends
    Barred gone epoch number s where
  free : s.files.Free gone

theorem Landed.step (landed : s.Landed gone epoch number) (rules : Rules gone id)
    (step : s.step event = some t) : t.Landed gone epoch number ∨ Readds id ⟨s, event, t⟩ := by
  rcases landed.toBarred.step rules step with barred | readds
  · refine .inl ⟨barred, ?_⟩
    have locked (moves : s.Moves t) : t.files.Free gone := by
      cases moves <;> exact landed.free
    cases event with
    | write place attempt => exact landed.toBarred.write_free landed.free step
    | markDirty place =>
      obtain rfl := markDirty_inv step
      exact landed.free
    | _ => exact locked (locked_moves (by trivial) step)
  · exact .inr readds

/-! ### The removal itself -/

/-- A step that drops events or takes their words. -/
def Removes : StoreEvent → Prop
  | .clear _ => True
  | .purgeAccount _ _ => True
  | .pruneOlderThan _ _ _ => True
  | .redactMessages _ _ _ => True
  | _ => False

/-- What a removal rules out of an event it took: a redaction the words, any other the event. -/
def Gone (removal : StoreEvent) (ev ev' : NormalizedEvent) : Prop :=
  match removal with
  | .redactMessages _ _ _ => ev'.id = ev.id → ev'.message = ""
  | _ => ev'.id ≠ ev.id

theorem gone_rules (removal : StoreEvent) (ev : NormalizedEvent) : Rules (Gone removal ev) ev.id := by
  unfold Gone
  split
  · refine ⟨fun old new descends silent same => ?_, fun other apart same => absurd same apart⟩
    rcases descends.2 with kept | empty
    · rw [kept]
      exact silent (descends.1.symm.trans same)
    · exact empty
  · exact ⟨fun old new descends apart same => apart (descends.1.symm.trans same), fun _ apart => apart⟩

/-- A removal that took an event opened a new epoch, and left what it rules out nowhere. -/
theorem removal_rids (distinct : s.Distinct) (numbered : s.Numbered) (removes : Removes event)
    (step : s.step event = some t) (old : ev ∈ s.events) (taken : ev ∉ t.events) :
    t.Rid (Gone event ev) t.seq (s.taken + 1) := by
  -- every removal that took something ends in `newEpochSnapshot`
  have opens (events : List NormalizedEvent) (now : UInt64) (same : t = { s with events }.newEpochSnapshot now)
      (rid : ∀ ev' ∈ events, Gone event ev ev') : t.Rid (Gone event ev) t.seq (s.taken + 1) := by
    subst same
    refine ⟨rid, le_rfl, le_rfl, fun n j e member under => ?_, fun j e member => ?_⟩
    · rcases List.mem_append.mp member with before | new
      · -- a snapshot taken before is of an older epoch
        have older : s.seq + 1 ≤ s.seq := le_trans under (numbered.flight _ _ _ before).2
        omega
      · cases List.mem_singleton.mp new
        rw [eventsIn_buildJson]
        exact rid
    · rcases List.mem_append.mp member with before | new
      · have older : s.taken + 1 ≤ s.taken := (numbered.flight _ _ _ before).1
        omega
      · cases List.mem_singleton.mp new
        rfl
  -- a removal that filters took the event itself, and no other bears its id
  have dropped (drop : NormalizedEvent → Bool) (now : UInt64) (same : t = s.removeIf drop now)
      (kind : ∀ ev', Gone event ev ev' ↔ ev'.id ≠ ev.id) : t.Rid (Gone event ev) t.seq (s.taken + 1) := by
    simp only [removeIf] at same
    split at same
    next some =>
      refine opens _ now same fun ev' member => (kind ev').mpr fun id => taken ?_
      obtain rfl := distinct.eq_of_id (List.mem_of_mem_filter member) old id
      rw [same]
      exact member
    · exact absurd (same ▸ old) taken
  cases event with
  | clear now =>
    obtain rfl : s.clear now = t := Option.some.inj step
    exact opens [] now rfl (by simp)
  | purgeAccount accountId now =>
    have same : s.purgeAccount accountId now = t := Option.some.inj step
    simp only [purgeAccount] at same
    split at same
    · exact absurd (same ▸ old) taken
    · exact dropped _ now same.symm fun _ => Iff.rfl
  | pruneOlderThan platform cutoffMs now =>
    exact dropped _ now (Option.some.inj step).symm fun _ => Iff.rfl
  | redactMessages reaches mark now =>
    have same : s.redactMessages reaches mark now = t := Option.some.inj step
    simp only [redactMessages] at same
    split at same
    · refine opens _ now same.symm fun ev' member id => ?_
      obtain ⟨before, held, rfl⟩ := List.mem_map.mp member
      obtain rfl := distinct.eq_of_id held old ((redactEvent_descends reaches mark before).1.symm.trans id)
      -- had it kept its words it would be there as it was
      by_cases hit : redacts reaches before
      · simp [redactEvent, hit]
      · refine absurd ?_ taken
        rw [← same]
        exact List.mem_map.mpr ⟨before, held, by simp [redactEvent, hit]⟩
    · exact absurd (same ▸ old) taken
  | add | flush | write | markDirty => exact removes.elim

/-! ### Whole runs -/

/-- What `WriteToDisk` answers the call at this place. -/
def answers (s : EventStore) (place : Nat) (attempt : Attempt) : Bool :=
  match s.calls[place]? with
  | some (.writing _ snapshot epoch) => decide (epoch < s.lastWrittenSeq) || (s.files.save snapshot attempt).2
  | _ => false

/-- The events of the snapshot a write step saves or tries to; none where it is dropped. -/
def puts (s : EventStore) (place : Nat) : List NormalizedEvent :=
  match s.calls[place]? with
  | some (.writing _ snapshot epoch) => if epoch < s.lastWrittenSeq then [] else eventsIn snapshot
  | _ => []

/-- The moment a removal took an event. -/
def Takes (removal : Moment EventStore StoreEvent) (ev : NormalizedEvent) : Prop :=
  Removes removal.input ∧ ev ∈ removal.before.events ∧ ev ∉ removal.after.events

/-- The write step of the removal's own snapshot, answered true. -/
def Answered (removal write : Moment EventStore StoreEvent) : Prop :=
  ∃ place attempt snapshot epoch, write.input = .write place attempt ∧
    write.before.calls[place]? = some (.writing (removal.before.taken + 1) snapshot epoch) ∧
    write.before.answers place attempt = true

/-- It did not find its snapshot superseded. -/
def Written (removal write : Moment EventStore StoreEvent) : Prop :=
  ∀ (place : Nat) (snapshot : Json) (epoch : Nat),
    write.before.calls[place]? = some (.writing (removal.before.taken + 1) snapshot epoch) →
      write.before.lastWrittenSeq ≤ epoch

theorem Rid.answered (rid : s.Rid gone epoch number) {place e : Nat} {snapshot : Json}
    (there : s.calls[place]? = some (.writing number snapshot e)) (step : s.write place attempt = some t) :
    epoch ≤ t.lastWrittenSeq := by
  have own := rid.own snapshot e (List.mem_of_getElem? there)
  obtain ⟨_, _, _, here, ⟨superseded, rfl⟩ | ⟨-, rfl⟩⟩ := write_inv step <;> cases there.symm.trans here
  · subst own
    exact le_of_lt superseded
  · exact own.ge

/-- The removal's snapshot is in the file, and no temp file is left. -/
theorem Rid.written (rid : s.Rid gone epoch number) {place e : Nat} {snapshot : Json}
    (there : s.calls[place]? = some (.writing number snapshot e)) (current : s.lastWrittenSeq ≤ e)
    (saved : (s.files.save snapshot attempt).2 = true) (step : s.write place attempt = some t) :
    t.files.Free gone := by
  have own := rid.own snapshot e (List.mem_of_getElem? there)
  have clean := rid.flight number snapshot e (List.mem_of_getElem? there) own.ge
  obtain ⟨_, _, _, here, ⟨superseded, rfl⟩ | ⟨-, rfl⟩⟩ := write_inv step <;> cases there.symm.trans here
  · omega
  · exact Files.free_of_saved saved clean

theorem Barred.puts (barred : s.Barred gone epoch number) {place : Nat} (put : ev ∈ s.puts place) : gone ev := by
  simp only [EventStore.puts] at put
  split at put
  next n snapshot e there =>
    split at put
    · cases put
    next current =>
      exact barred.flight n snapshot e (List.mem_of_getElem? there) (barred.barred.trans (not_lt.mp current)) ev put
  · cases put

/-- The write of the removal's snapshot bars every older one; not superseded, it frees the file. -/
theorem Rid.write {removal : Moment EventStore StoreEvent} (rid : s.Rid gone epoch (removal.before.taken + 1))
    (rules : Rules gone id) (step : s.step event = some t)
    (answered : Answered removal ⟨s, event, t⟩) :
    (t.Barred gone epoch (removal.before.taken + 1) ∧ (Written removal ⟨s, event, t⟩ → t.files.Free gone)) ∨
      Readds id ⟨s, event, t⟩ := by
  obtain ⟨place, attempt, snapshot, e, input, there, answer⟩ := answered
  have write : s.write place attempt = some t := by
    have taken : s.step (.write place attempt) = some t := input ▸ step
    exact taken
  rcases rid.step rules step with after | readds
  · refine .inl ⟨⟨after, rid.answered there write⟩, fun written => ?_⟩
    have current := written place snapshot e there
    refine rid.written there current ?_ write
    have split : (decide (e < s.lastWrittenSeq) || (s.files.save snapshot attempt).2) = true := by
      simpa only [answers, show s.calls[place]? = some _ from there] using answer
    simpa [not_lt.mpr current] using split
  · exact .inr readds

end EventStore

open EventStore

/-- A removed event never comes back: once the write of a removal's snapshot was answered, no
later write saves a snapshot with what the removal took, unless its id was added again; and
where that snapshot was written, nothing a later write does, failed or not, puts it in the
file. -/
theorem removed_stays_gone {files : Files} {xs ys zs ws : List (Moment EventStore StoreEvent)}
    {removal write later : Moment EventStore StoreEvent} {u : EventStore}
    (run : Run StoreStep (load files) (xs ++ removal :: (ys ++ write :: (zs ++ later :: ws))) u)
    {ev : NormalizedEvent} (takes : Takes removal ev) (answered : Answered removal write) :
    (∃ m ∈ ys ++ write :: zs, Readds ev.id m) ∨
      ∀ place attempt, later.input = .write place attempt →
        (∀ ev' ∈ later.before.puts place, Gone removal.input ev ev') ∧
        (Written removal write → ∀ ev' ∈ later.after.files.events, Gone removal.input ev ev') := by
  -- the run is cut at the removal, at the write of its snapshot and at the later write
  obtain ⟨s, before, rest⟩ := Run.append_iff.mp run
  obtain ⟨rfl, removes, rest⟩ := Run.cons_iff.mp rest
  obtain ⟨t, between, rest⟩ := Run.append_iff.mp rest
  obtain ⟨rfl, writes, rest⟩ := Run.cons_iff.mp rest
  obtain ⟨v, after, rest⟩ := Run.append_iff.mp rest
  obtain ⟨rfl, last, -⟩ := Run.cons_iff.mp rest
  have distinct : removal.before.Distinct :=
    before.always (P := Distinct) (fun _ _ _ step distinct => distinct.step step) (load_distinct files)
  have numbered : removal.before.Numbered :=
    before.always (P := Numbered) (fun _ _ _ step numbered => numbered.step step) (load_numbered files)
  have rules := gone_rules removal.input ev
  have rid := removal_rids distinct numbered takes.1 removes takes.2.1 takes.2.2
  rcases between.persists
    (fun m (_ : True) step rid => rid.step rules step) (fun _ _ => trivial) rid with rid | ⟨m, member, readds⟩
  -- from the removal to its write, and from there on to the later one
  · rcases rid.write rules writes answered with ⟨barred, freed⟩ | readds
    · rcases after.persists
        (fun m (_ : True) step barred => barred.step rules step) (fun _ _ => trivial) barred with barred' | ⟨m, member, readds⟩
      -- superseded, its write says nothing of the file
      · rcases Classical.em (Written removal write) with written | superseded
        · rcases after.persists
            (fun m (_ : True) step landed => landed.step rules step) (fun _ _ => trivial)
            (⟨barred, freed written⟩ : write.after.Landed _ _ _) with landed | ⟨m, member, readds⟩
          · refine .inr fun place attempt input => ⟨fun ev' => barred'.puts, fun _ ev' held => ?_⟩
            have step : later.before.write place attempt = some later.after := by
              have taken : later.before.step later.input = some later.after := last
              rw [input] at taken
              exact taken
            have free := landed.toBarred.write_free landed.free step
            simp only [Files.events] at held
            cases saved : later.after.files.saved with
            | none => simp [saved] at held
            | some json => exact free.1 json saved ev' (by simpa [saved] using held)
          · exact .inl ⟨m, by simp [member], readds⟩
        · exact .inr fun place attempt _ => ⟨fun ev' => barred'.puts, fun written => absurd written superseded⟩
      · exact .inl ⟨m, by simp [member], readds⟩
    · exact .inl ⟨write, by simp, readds⟩
  · exact .inl ⟨m, by simp [member], readds⟩

/-- An event is stored and cleared; the snapshot from before the clear wins the write lock
after it. -/
def staleAdd : EventStore := ((load ⟨none, none⟩).add (followed "a") 1).1
def staleClear : EventStore := staleAdd.clear 2

theorem removed_stays_gone_cleared :
    ∃ after last, staleClear.write 1 .succeeds = some after ∧ after.write 0 .succeeds = some last ∧
      ∀ ev ∈ last.files.events, ev.id ≠ "a" := by
  obtain ⟨after, written⟩ : ∃ after, staleClear.write 1 .succeeds = some after := ⟨_, rfl⟩
  obtain ⟨last, stale⟩ : ∃ last, after.write 0 .succeeds = some last := by
    cases written
    exact ⟨_, rfl⟩
  refine ⟨after, last, written, stale, ?_⟩
  have run : Run StoreStep (load ⟨none, none⟩)
      ([⟨load ⟨none, none⟩, .add (followed "a") 1, staleAdd⟩] ++ ⟨staleAdd, .clear 2, staleClear⟩ ::
        ([] ++ ⟨staleClear, .write 1 .succeeds, after⟩ :: ([] ++ ⟨after, .write 0 .succeeds, last⟩ :: []))) last :=
    .cons rfl (.cons rfl (.cons written (.cons stale (.nil _))))
  have takes : Takes ⟨staleAdd, .clear 2, staleClear⟩ (followed "a") := ⟨trivial, by decide, by decide⟩
  rcases removed_stays_gone run takes ⟨1, .succeeds, _, _, rfl, rfl, rfl⟩ with ⟨m, member, _, _, input, -⟩ | gone
  · obtain rfl := List.mem_singleton.mp member
    cases input
  · refine (gone 0 .succeeds rfl).2 fun place snapshot epoch there => ?_
    have zero : staleClear.lastWrittenSeq = 0 := rfl
    exact zero ▸ Nat.zero_le epoch

end Braidcast.Events
