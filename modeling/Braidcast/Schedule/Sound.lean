import Braidcast.Lib.Run
import Braidcast.Schedule.Refinement

/-!
# What every run keeps

Facts about the rows and the occurrences that hold however the injected callables answer,
as long as the store does.
-/
namespace Braidcast.Schedule

open Braidcast.Lib (Moment Run star_keeps)
open Ledger

/-- No row is unnamed, the entry named live reads live unless it was deleted, and a planned
entry that once asked to go live was canceled. -/
structure Sound (L : Ledger) : Prop where
  named : L.row "" = none
  live : ∀ e, L.row L.liveId = some e → e.state = .live
  asked : ∀ id e, L.row id = some e → e.state = .planned → (L.flags id).requested = true →
    (L.flags id).canceled = true

variable {a : Answers}

theorem Prune.sound {L M : Ledger} (step : Prune a L M) (sound : Sound L) : Sound M := by
  obtain ⟨named, live, asked⟩ := sound
  cases step with
  | drop other free stale => constructor <;> grind -linarith
  | disarm e stored armed ahead free => constructor <;> grind -linarith [InFlight]
  | dropStarting free unarmed => exact ⟨named, live, asked⟩
  | dropLive ended => exact ⟨named, by simp [named], asked⟩

theorem Move.sound {L M : Ledger} (step : Move a L M) (sound : Sound L) : Sound M := by
  obtain ⟨named, live, asked⟩ := sound
  cases step with
  | arm | launch | refuse | miss | settle => constructor <;> grind -linarith

theorem Acts.sound {call : Call} {L M : Ledger} (acts : Acts a call L M) (sound : Sound L) : Sound M := by
  cases acts with
  | idle => exact sound
  | ticked prunes _ moves =>
    have pruned := star_keeps (P := Sound) (fun _ _ step => step.sound) prunes sound
    exact star_keeps (P := Sound) (fun _ _ step => step.sound) moves pruned
  | canceled | disarmed => obtain ⟨_, _, _⟩ := sound; constructor <;> grind -linarith [InFlight]
  | started e stored fresh free =>
    -- a live row is in flight, so the row armed here is not the one named live
    obtain ⟨_, _, _⟩ := sound
    constructor <;> grind -linarith [InFlight, Free]
  | startRefused e apply reason wired refused stored fresh free =>
    obtain ⟨_, _, _⟩ := sound
    constructor <;> grind -linarith [InFlight, Free]
  | adopted | adoptRefused | forgotten | wentLive | startFailed | stopped => obtain ⟨_, _, _⟩ := sound; constructor <;> grind -linarith
  | unclaimed unarmed => exact ⟨sound.named, sound.live, sound.asked⟩
  | created | edited =>
    obtain ⟨_, _, _⟩ := sound
    constructor <;> grind -linarith [Function.update_apply]
  | deleted id => obtain ⟨_, _, _⟩ := sound; constructor <;> grind -linarith [Function.update_apply]

/-- The rows of `M` are rows of `L`, at the same times. -/
def Ledger.Timed (L M : Ledger) : Prop :=
  ∀ id e, M.row id = some e → ∃ old, L.row id = some old ∧ old.startsAt = e.startsAt

theorem Prune.timed {L M N : Ledger} (step : Prune a M N) (timed : L.Timed M) : L.Timed N := by
  cases step with
  | drop | dropStarting | dropLive => exact timed
  | disarm e stored armed ahead free => grind -linarith [Timed]

theorem Move.timed {L M N : Ledger} (step : Move a M N) (timed : L.Timed M) : L.Timed N := by
  cases step with
  | arm | launch | refuse | settle | miss => grind -linarith [Timed]

theorem attach_sound (store : ScheduleStore) : Sound (World.attach store).ledger where
  named := by
    cases found : (World.attach store).ledger.row "" with
    | none => rfl
    | some e => exact absurd rfl (ScheduleStore.ne_empty_of_get found)
  live := fun _ found => absurd rfl (ScheduleStore.ne_empty_of_get found)
  asked := by
    intro id e _ _ requested
    simp [World.ledger, World.attach, World.occurrence, Occurrence.flags] at requested

theorem Step.sound {w w' : World} {i : Input} (up : i.answers.storeUp = true) (step : Step w i w')
    (sound : Sound w.ledger) : Sound w'.ledger :=
  (step_acts up step).sound ⟨sound.named, sound.live, sound.asked⟩

theorem run_sound {store : ScheduleStore} {ms : List (Moment World Input)} {u : World}
    (run : Run Step (World.attach store) ms u) (up : ∀ m ∈ ms, m.input.answers.storeUp = true) :
    Sound u.ledger ∧ ∀ m ∈ ms, Sound m.before.ledger ∧ Sound m.after.ledger :=
  run.invariant (P := fun w => Sound w.ledger) (fun _ up step => Step.sound up step) up
    (attach_sound store)

/-- One entry, a minute from the epoch. -/
def oneEntry : ScheduleStore where
  rows := [⟨{ id := "a", startsAt := 60000, autoStart := true }, [{ profileId := "p" }]⟩]
  nodup := by decide
  nonempty := by decide

end Braidcast.Schedule
