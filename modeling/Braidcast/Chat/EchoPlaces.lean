import Braidcast.Lib.Run
import Braidcast.Chat.Echo

/-!
# Every echo is in one place

Each step moves an echo from one place to another or leaves all where they are, so the
places taken together stay a rearrangement of the sends begun.
-/
namespace Braidcast.Chat.Sends

open Lib

variable {φ : Type}

/-- Every place an echo can be in, by its nonce. -/
def places (s : Sends φ) : List String :=
  s.queue.nonces ++ (s.hub ++ (s.emitted.map Prod.fst ++ s.dropped))

structure Sound (s : Sends φ) : Prop where
  placed : s.places.Perm s.begun
  distinct : s.begun.Nodup
  idle : ∀ n, s.phase n = .idle ↔ n ∉ s.begun
  /-- The hub has the echo of a send that was not staged, or was handed back. -/
  hub : ∀ n, s.phase n = .writing false ∨ (∃ ok, s.phase n = .returned ok true) → n ∈ s.hub
  /-- Until its write is done an echo is unsent, and only its `USERSTATE` can claim it. -/
  unsent : ∀ n, (s.phase n = .writing true ∨ n ∈ s.failed) →
    (∀ p ∈ s.queue.pending, p.nonce = n → p.sent = false) ∧ (n ∈ s.emitted.map Prod.fst → n ∈ s.resolved)
  shown : ∀ n ∈ s.shown, s.phase n = .over ∧ n ∉ s.failed
  failed : ∀ n ∈ s.failed, s.phase n = .wrote true false ∨ (∃ hasEcho, s.phase n = .returned false hasEcho) ∨ s.phase n = .over
  fails : ∀ n, s.phase n = .wrote true false ∨ (∃ hasEcho, s.phase n = .returned false hasEcho) → n ∈ s.failed
  dropped : ∀ n ∈ s.dropped, n ∈ s.failed

variable {s : Sends φ}

variable {n : String}

/-- An echo with the hub is nowhere else. -/
theorem Sound.only_hub (sound : s.Sound) (there : n ∈ s.hub) :
    n ∉ s.queue.nonces ∧ n ∉ s.emitted.map Prod.fst := by
  -- the places taken together hold each nonce once
  have nodup : s.places.Nodup := sound.placed.nodup_iff.mpr sound.distinct
  simp only [places] at nodup
  rw [List.nodup_append] at nodup
  obtain ⟨_, rest, apart⟩ := nodup
  rw [List.nodup_append] at rest
  refine ⟨fun queued => apart n queued n (List.mem_append_left _ there) rfl, fun emitted => ?_⟩
  exact rest.2.2 n there n (List.mem_append_left _ emitted) rfl

theorem Sound.mem_begun (sound : s.Sound) (there : n ∈ s.places) : n ∈ s.begun :=
  sound.placed.subset there

theorem Sound.not_begun (sound : s.Sound) (idle : s.phase n = .idle) :
    n ∉ s.begun ∧ (∀ p ∈ s.queue.pending, p.nonce ≠ n) ∧ n ∉ s.emitted.map Prod.fst ∧ n ∉ s.failed ∧ n ∉ s.shown := by
  have new : n ∉ s.begun := (sound.idle n).mp idle
  refine ⟨new, ?_, ?_, ?_, ?_⟩
  · rintro p member rfl
    exact new (sound.mem_begun (List.mem_append_left _ (List.mem_map_of_mem member)))
  · intro emitted
    exact new (sound.mem_begun (List.mem_append_right _ (List.mem_append_right _ (List.mem_append_left _ emitted))))
  · intro failed
    rcases sound.failed n failed with phase | ⟨_, phase⟩ | phase <;> rw [idle] at phase <;> cases phase
  · intro shown
    have done := (sound.shown n shown).1
    rw [idle] at done
    cases done

/-! ### The send worker's steps -/

/-- A new send has begun: its echo is in one place, unsent where it is staged. -/
structure Begins (s s' : Sends φ) (nonce : String) (staged : Bool) : Prop where
  phase : s'.phase = Function.update s.phase nonce (.writing staged)
  begun : s'.begun = nonce :: s.begun
  placed : s'.places.Perm (nonce :: s.places)
  entries : ∀ p ∈ s'.queue.pending, p ∈ s.queue.pending ∨ p.nonce = nonce ∧ p.sent = false
  hub : ∀ n ∈ s.hub, n ∈ s'.hub
  ownHub : staged = false → nonce ∈ s'.hub
  emitted : s'.emitted = s.emitted ∧ s'.resolved = s.resolved
  ended : s'.shown = s.shown ∧ s'.failed = s.failed ∧ s'.dropped = s.dropped

variable {nonce : String} {s' : Sends φ}

theorem Sound.begins (sound : s.Sound) (staged : Bool) (idle : s.phase nonce = .idle)
    (begins : Begins s s' nonce staged) : s'.Sound := by
  obtain ⟨phase, begun, placed, entries, hub, ownHub, ⟨emitted, resolved⟩, shown, failed, dropped⟩ := begins
  obtain ⟨new, notQueued, notEmitted, notFailed, notShown⟩ := sound.not_begun idle
  have own : s'.phase nonce = .writing staged := by rw [phase, Function.update_self]
  have other : ∀ n, n ≠ nonce → s'.phase n = s.phase n := fun n apart => by rw [phase, Function.update_of_ne apart]
  refine ⟨?_, begun ▸ List.nodup_cons.mpr ⟨new, sound.distinct⟩, ?_, ?_, ?_, ?_, ?_, ?_, ?_⟩
  · rw [begun]
    exact placed.trans (sound.placed.cons nonce)
  · intro n
    rw [begun]
    by_cases same : n = nonce
    · simp [same, own]
    · rw [other n same, sound.idle n]
      simp [same]
  · intro n held
    by_cases same : n = nonce
    · subst same
      rw [own] at held
      rcases held with held | ⟨_, held⟩
      · exact ownHub (SendPhase.writing.inj held)
      · cases held
    · rw [other n same] at held
      exact hub n (sound.hub n held)
  · intro n unsent
    rw [failed] at unsent
    rw [emitted, resolved]
    by_cases same : n = nonce
    · subst same
      refine ⟨fun p member named => ?_, fun claimed => absurd claimed notEmitted⟩
      rcases entries p member with old | ⟨_, unsent⟩
      · exact absurd named (notQueued p old)
      · exact unsent
    · rw [other n same] at unsent
      obtain ⟨before, claimed⟩ := sound.unsent n unsent
      refine ⟨fun p member named => ?_, claimed⟩
      rcases entries p member with old | ⟨mine, _⟩
      · exact before p old named
      · exact absurd (named.symm.trans mine) same
  · intro n done
    rw [shown] at done
    have apart : n ≠ nonce := fun same => notShown (same ▸ done)
    rw [other n apart, failed]
    exact sound.shown n done
  · intro n lost
    rw [failed] at lost
    have apart : n ≠ nonce := fun same => notFailed (same ▸ lost)
    rw [other n apart]
    exact sound.failed n lost
  · intro n lost
    rw [failed]
    by_cases same : n = nonce
    · subst same
      rw [own] at lost
      rcases lost with lost | ⟨_, lost⟩ <;> cases lost
    · rw [other n same] at lost
      exact sound.fails n lost
  · intro n gone
    rw [dropped] at gone
    rw [failed]
    exact sound.dropped n gone

theorem Sound.staged (sound : s.Sound) {echo : Echo φ} {queue : TwitchEchoQueue φ}
    (idle : s.phase nonce = .idle) (staged : s.queue.stage nonce echo = some queue) :
    Sound { s with queue, phase := Function.update s.phase nonce (.writing true), begun := nonce :: s.begun } := by
  have nonces := TwitchEchoQueue.nonces_stage staged
  apply sound.begins true idle
  exact {
    phase := rfl
    begun := rfl
    placed := by
      rw [List.perm_iff_count]
      intro n
      simp only [places, nonces, List.count_append, List.count_cons, List.count_nil]
      omega
    entries := by
      simp only [TwitchEchoQueue.stage] at staged
      split at staged
      · cases staged
      · cases staged
        intro p member
        rcases List.mem_append.mp member with old | last
        · exact .inl old
        · rw [List.mem_singleton.mp last]
          exact .inr ⟨rfl, rfl⟩
    hub := fun n held => held
    ownHub := by simp
    emitted := ⟨rfl, rfl⟩
    ended := ⟨rfl, rfl, rfl⟩ }

theorem Sound.left (sound : s.Sound) (idle : s.phase nonce = .idle) :
    Sound { s with
      phase := Function.update s.phase nonce (.writing false)
      begun := nonce :: s.begun
      hub := nonce :: s.hub } := by
  apply sound.begins false idle
  exact {
    phase := rfl
    begun := rfl
    placed := List.perm_middle
    entries := fun p member => .inl member
    hub := fun n held => List.mem_cons_of_mem _ held
    ownHub := fun _ => List.mem_cons_self
    emitted := ⟨rfl, rfl⟩
    ended := ⟨rfl, rfl, rfl⟩ }

/-- A step of the send `nonce` names: what it owes is about that send alone. -/
structure Turns (s s' : Sends φ) (nonce : String) (next : SendPhase) : Prop where
  phase : s'.phase = Function.update s.phase nonce next := by rfl
  begun : s'.begun = s.begun := by rfl
  started : s.phase nonce ≠ .idle ∧ next ≠ .idle := by simp [*]
  placed : s'.places.Perm s.places := by exact .rfl
  entries : ∀ p ∈ s'.queue.pending, p.nonce ≠ nonce → p ∈ s.queue.pending := by exact fun p member _ => member
  emitted : s'.emitted = s.emitted ∧ s'.resolved = s.resolved := by exact ⟨rfl, rfl⟩
  hub : ∀ n ∈ s.hub, n ≠ nonce → n ∈ s'.hub := by exact fun n member _ => member
  others : ∀ n, n ≠ nonce → (n ∈ s'.failed → n ∈ s.failed) ∧ (n ∈ s'.shown → n ∈ s.shown) := by exact fun n _ => ⟨id, id⟩
  ownHub : next = .writing false ∨ (∃ ok, next = .returned ok true) → nonce ∈ s'.hub := by simp
  ownUnsent : next = .writing true ∨ nonce ∈ s'.failed →
    (∀ p ∈ s'.queue.pending, p.nonce = nonce → p.sent = false) ∧ (nonce ∈ s.emitted.map Prod.fst → nonce ∈ s.resolved)
  ownShown : nonce ∈ s'.shown → next = .over ∧ nonce ∉ s'.failed
  ownFailed : nonce ∈ s'.failed → next = .wrote true false ∨ (∃ hasEcho, next = .returned false hasEcho) ∨ next = .over
  ownFails : next = .wrote true false ∨ (∃ hasEcho, next = .returned false hasEcho) → nonce ∈ s'.failed
  grows : ∀ n ∈ s.failed, n ∈ s'.failed := by exact fun n member => member
  dropped : ∀ n ∈ s'.dropped, n ∈ s.dropped ∨ n ∈ s'.failed := by exact fun n member => .inl member

theorem Sound.turn (sound : s.Sound) (nonce : String) (next : SendPhase) (turns : Turns s s' nonce next) :
    s'.Sound := by
  obtain ⟨phase, begun, started, placed, entries, ⟨emitted, resolved⟩, hub, others, ownHub, ownUnsent, ownShown, ownFailed,
    ownFails, grows, dropped⟩ := turns
  have own : s'.phase nonce = next := by rw [phase, Function.update_self]
  have other : ∀ n, n ≠ nonce → s'.phase n = s.phase n := fun n apart => by rw [phase, Function.update_of_ne apart]
  refine ⟨begun ▸ placed.trans sound.placed, begun ▸ sound.distinct, fun n => ?_, fun n => ?_, fun n => ?_, fun n => ?_, fun n => ?_,
    fun n => ?_, fun n member => (dropped n member).elim (fun old => grows n (sound.dropped n old)) id⟩
  · by_cases same : n = nonce
    · subst same
      rw [own, begun, ← sound.idle n]
      exact ⟨fun idle => absurd idle started.2, fun idle => absurd idle started.1⟩
    · rw [other n same, begun]
      exact sound.idle n
  · by_cases same : n = nonce
    · subst same
      rw [own]
      exact ownHub
    · rw [other n same]
      exact fun held => hub n (sound.hub n held) same
  · rw [emitted, resolved]
    by_cases same : n = nonce
    · subst same
      rw [own]
      exact ownUnsent
    · rw [other n same]
      intro pending
      obtain ⟨unsent, claimed⟩ := sound.unsent n (pending.imp_right (others n same).1)
      exact ⟨fun p member named => unsent p (entries p member (named ▸ same)) named, claimed⟩
  · by_cases same : n = nonce
    · subst same
      rw [own]
      exact ownShown
    · rw [other n same]
      intro shown
      obtain ⟨done, notFailed⟩ := sound.shown n ((others n same).2 shown)
      exact ⟨done, fun failed => notFailed ((others n same).1 failed)⟩
  · by_cases same : n = nonce
    · subst same
      rw [own]
      exact ownFailed
    · rw [other n same]
      exact fun failed => sound.failed n ((others n same).1 failed)
  · by_cases same : n = nonce
    · subst same
      rw [own]
      exact ownFails
    · rw [other n same]
      exact fun phase => grows n (sound.fails n phase)

theorem Sound.not_failed (sound : s.Sound) (phase : (∃ staged, s.phase n = .writing staged) ∨ s.phase n = .wrote true true ∨
    ∃ hasEcho, s.phase n = .returned true hasEcho) : n ∉ s.failed := by
  intro failed
  rcases phase with ⟨_, phase⟩ | phase | ⟨_, phase⟩ <;>
    rcases sound.failed n failed with h | ⟨_, h⟩ | h <;> rw [phase] at h <;> cases h

theorem Sound.not_shown (sound : s.Sound) (phase : s.phase n ≠ .over) : n ∉ s.shown :=
  fun shown => phase (sound.shown n shown).1

variable {ok : Bool}

theorem mem_failed {nonce n : String} (apart : n ≠ nonce)
    (member : n ∈ if ok then s.failed else nonce :: s.failed) : n ∈ s.failed := by
  cases ok
  · exact (List.mem_cons.mp member).resolve_left apart
  · exact member

theorem mem_failed_or {nonce n : String} (member : n ∈ s.failed) :
    n ∈ if ok then s.failed else nonce :: s.failed := by
  cases ok
  · exact List.mem_cons_of_mem _ member
  · exact member

section

variable (sound : s.Sound)
include sound

theorem Sound.wrote (phase : s.phase nonce = .writing true) :
    Sound { s with
      phase := Function.update s.phase nonce (.wrote true ok)
      failed := if ok then s.failed else nonce :: s.failed } := by
  have notFailed := sound.not_failed (.inl ⟨_, phase⟩)
  have notShown := sound.not_shown (n := nonce) (by simp [phase])
  have ownFailed : nonce ∈ (if ok then s.failed else nonce :: s.failed) → ok = false := by
    cases ok
    · exact fun _ => rfl
    · exact fun failed => absurd failed notFailed
  apply sound.turn nonce (.wrote true ok)
  exact {
    others := fun n apart => ⟨mem_failed apart, fun shown => shown⟩
    -- the entry was unsent and unclaimed before the write was done
    ownUnsent := fun _ => sound.unsent nonce (.inl phase)
    ownShown := fun shown => absurd shown notShown
    ownFailed := fun failed => .inl (by rw [ownFailed failed])
    ownFails := by cases ok <;> simp
    grows := fun n => mem_failed_or }

theorem Sound.wroteUnstaged (phase : s.phase nonce = .writing false) :
    Sound { s with
      phase := Function.update s.phase nonce (.returned ok true)
      failed := if ok then s.failed else nonce :: s.failed } := by
  have notFailed := sound.not_failed (.inl ⟨_, phase⟩)
  have notShown := sound.not_shown (n := nonce) (by simp [phase])
  have there : nonce ∈ s.hub := sound.hub nonce (.inl phase)
  obtain ⟨notQueued, notEmitted⟩ := sound.only_hub there
  have ownFailed : nonce ∈ (if ok then s.failed else nonce :: s.failed) → ok = false := by
    cases ok
    · exact fun _ => rfl
    · exact fun failed => absurd failed notFailed
  have notEntry : ∀ p ∈ s.queue.pending, p.nonce ≠ nonce := by
    rintro p member rfl
    exact notQueued (List.mem_map_of_mem member)
  apply sound.turn nonce (.returned ok true)
  exact {
    others := fun n apart => ⟨mem_failed apart, fun shown => shown⟩
    ownHub := fun _ => there
    -- the hub has the echo, so the queue does not
    ownUnsent := fun _ => ⟨fun p member named => absurd named (notEntry p member), fun emitted => absurd emitted notEmitted⟩
    ownShown := fun shown => absurd shown notShown
    ownFailed := fun failed => .inr (.inl ⟨true, by rw [ownFailed failed]⟩)
    ownFails := by cases ok <;> simp
    grows := fun n => mem_failed_or }

/-- A send that went out moves on; its echo may have gone back to the hub. -/
theorem Sound.sent {hasEcho : Bool} {queue : TwitchEchoQueue φ} {hub : List String}
    (phase : s.phase nonce = .wrote true true) (placed : (queue.nonces ++ hub).Perm (s.queue.nonces ++ s.hub))
    (entries : ∀ p ∈ queue.pending, p.nonce ≠ nonce → p ∈ s.queue.pending) (held : ∀ n ∈ s.hub, n ∈ hub)
    (ownHub : hasEcho = true → nonce ∈ hub) :
    Sound { s with queue, phase := Function.update s.phase nonce (.returned true hasEcho), hub } := by
  have notFailed := sound.not_failed (.inr (.inl phase))
  have notShown := sound.not_shown (n := nonce) (by simp [phase])
  apply sound.turn nonce (.returned true hasEcho)
  exact {
    placed := by
      rw [List.perm_iff_count]
      intro n
      have counts := placed.count_eq n
      simp only [places, List.count_append] at counts ⊢
      omega
    entries := entries
    hub := fun n member _ => held n member
    ownHub := fun has => ownHub (by simpa using has)
    ownUnsent := fun pending => absurd (pending.resolve_left (by simp)) notFailed
    ownShown := fun shown => absurd shown notShown
    ownFailed := fun failed => absurd failed notFailed
    ownFails := by simp }

theorem Sound.markSent {deadlineMs : Int} (step : s.step (.markSent nonce deadlineMs) = some s') : s'.Sound := by
  simp only [Sends.step] at step
  split at step
  next phase =>
    simp only [TwitchEchoQueue.markSent] at step
    cases found : s.queue.pending.find? (·.nonce = nonce) with
    | none =>
      simp only [found] at step
      rw [← Option.some.inj step]
      exact sound.sent phase (List.Perm.refl _) (fun p member _ => member) (fun n member => member) (by simp)
    | some p =>
      simp only [found] at step
      split at step
      next queue echo taken =>
        split at taken
        · -- the connection returns no nonce: the echo goes back to the hub
          cases taken
          rw [← Option.some.inj step]
          refine sound.sent phase ?_ (fun p member _ => List.mem_of_mem_eraseP member) (fun n member => List.mem_cons_of_mem _ member)
            fun _ => List.mem_cons_self
          exact List.perm_middle.trans ((TwitchEchoQueue.nonces_eraseP found).symm.append_right s.hub)
        · cases taken
      next queue taken =>
        split at taken
        · cases taken
        · -- it waits in the queue for its `USERSTATE`
          cases taken
          rw [← Option.some.inj step]
          refine sound.sent phase ?_ (fun p member apart => (TwitchEchoQueue.mem_setSent member).resolve_right apart)
            (fun n member => member) (by simp)
          rw [TwitchEchoQueue.nonces, TwitchEchoQueue.nonces_setSent, TwitchEchoQueue.nonces]
  · cases step

theorem Sound.drop (phase : s.phase nonce = .wrote true false) :
    Sound { s with
      queue := s.queue.drop nonce
      phase := Function.update s.phase nonce (.returned false false)
      dropped := s.dropped ++ (s.queue.pending.filter (·.nonce = nonce)).map (·.nonce) } := by
  have failed : nonce ∈ s.failed := sound.fails nonce (.inl phase)
  obtain ⟨unsent, claimed⟩ := sound.unsent nonce (.inr failed)
  apply sound.turn nonce (.returned false false)
  exact {
    placed := by
      rw [List.perm_iff_count]
      intro n
      have counts := (TwitchEchoQueue.nonces_filter (fun p => decide (p.nonce = nonce)) s.queue.pending).count_eq n
      simp only [places, TwitchEchoQueue.nonces, TwitchEchoQueue.drop, List.count_append, ne_eq, decide_not] at counts ⊢
      omega
    entries := fun p member _ => (List.mem_filter.mp member).1
    ownUnsent := fun _ => ⟨fun p member => unsent p (List.mem_filter.mp member).1, claimed⟩
    ownShown := fun shown => absurd shown (sound.not_shown (by simp [phase]))
    ownFailed := fun _ => .inr (.inl ⟨_, rfl⟩)
    ownFails := fun _ => failed
    dropped := by
      intro n member
      rcases List.mem_append.mp member with old | new
      · exact .inl old
      · -- what is dropped is the entry of a send that failed
        obtain ⟨p, there, rfl⟩ := List.mem_map.mp new
        have named : p.nonce = nonce := by simpa using (List.mem_filter.mp there).2
        exact .inr (named ▸ failed) }

/-- The hub is done with a send and shows or drops the echo it has of it. -/
theorem Sound.ends {ok hasEcho : Bool} {hub shown dropped : List String}
    (phase : s.phase nonce = .returned ok hasEcho) (placed : (hub ++ dropped).Perm (s.hub ++ s.dropped))
    (held : ∀ n ∈ s.hub, n ≠ nonce → n ∈ hub) (showing : ∀ n ∈ shown, n ∈ s.shown ∨ n = nonce ∧ ok = true)
    (dropping : ∀ n ∈ dropped, n ∈ s.dropped ∨ n = nonce ∧ ok = false) :
    Sound { s with phase := Function.update s.phase nonce .over, hub, shown, dropped } := by
  have notShown := sound.not_shown (n := nonce) (by simp [phase])
  apply sound.turn nonce .over
  exact {
    placed := by
      rw [List.perm_iff_count]
      intro n
      have counts := placed.count_eq n
      simp only [places, List.count_append] at counts ⊢
      omega
    hub := held
    others := fun n apart => ⟨fun failed => failed, fun shown => (showing n shown).resolve_right fun own => apart own.1⟩
    ownUnsent := fun pending => sound.unsent nonce (.inr (pending.resolve_left (by simp)))
    ownShown := by
      intro shown
      rcases showing nonce shown with old | ⟨_, rfl⟩
      · exact absurd old notShown
      · exact ⟨rfl, sound.not_failed (.inr (.inr ⟨_, phase⟩))⟩
    ownFailed := fun _ => .inr (.inr rfl)
    ownFails := by simp
    dropped := by
      intro n member
      rcases dropping n member with old | ⟨rfl, rfl⟩
      · exact .inl old
      · exact .inr (sound.fails n (.inr ⟨_, phase⟩)) }

theorem Sound.hubEnds (step : s.step (.hubEnds nonce) = some s') :
    s'.Sound := by
  simp only [Sends.step] at step
  split at step
  next phase =>
    rw [← Option.some.inj step]
    refine sound.ends phase (List.Perm.refl _) (fun n member _ => member) ?_ fun n member => .inl member
    exact fun n member => (List.mem_cons.mp member).symm.imp_right fun same => ⟨same, rfl⟩
  next phase =>
    -- the echo of a send that did not go out leaves the hub unshown
    have there : nonce ∈ s.hub := sound.hub nonce (.inr ⟨_, phase⟩)
    rw [← Option.some.inj step]
    refine sound.ends phase ?_ (fun n member apart => (List.mem_erase_of_ne apart).mpr member) (fun n member => .inl member) ?_
    · exact List.perm_middle.trans ((List.perm_cons_erase there).symm.append_right s.dropped)
    · exact fun n member => (List.mem_cons.mp member).symm.imp_right fun same => ⟨same, rfl⟩
  next ok phase =>
    rw [← Option.some.inj step]
    exact sound.ends phase (List.Perm.refl _) (fun n member _ => member) (fun n member => .inl member) fun n member => .inl member
  · cases step

/-! ### The read worker's steps -/

/-- The read worker takes entries out and emits them; of a send whose write is not done, or
failed, only by its `USERSTATE`. -/
theorem Sound.taken {taken : List (String × Echo φ)}
    (same : s'.phase = s.phase ∧ s'.begun = s.begun ∧ s'.hub = s.hub ∧ s'.shown = s.shown ∧ s'.dropped = s.dropped ∧
      s'.failed = s.failed)
    (emitted : s'.emitted = s.emitted ++ taken) (resolved : ∀ n ∈ s.resolved, n ∈ s'.resolved)
    (moved : s.queue.nonces.Perm (s'.queue.nonces ++ taken.map Prod.fst))
    (entries : ∀ p ∈ s'.queue.pending, p ∈ s.queue.pending)
    (claimed : ∀ n ∈ taken.map Prod.fst, n ∈ s'.resolved ∨ ∃ p ∈ s.queue.pending, p.nonce = n ∧ p.sent = true) : s'.Sound := by
  obtain ⟨phase, begun, hub, shown, dropped, failed⟩ := same
  refine ⟨?_, begun ▸ sound.distinct, by rw [phase, begun]; exact sound.idle, by rw [phase, hub]; exact sound.hub, ?_,
    by rw [phase, shown, failed]; exact sound.shown, by rw [phase, failed]; exact sound.failed,
    by rw [phase, failed]; exact sound.fails, by rw [dropped, failed]; exact sound.dropped⟩
  · rw [begun]
    apply List.Perm.trans _ sound.placed
    rw [List.perm_iff_count]
    intro n
    have counts := moved.count_eq n
    simp only [places, hub, dropped, emitted, List.map_append, List.count_append] at counts ⊢
    omega
  · intro n pending
    rw [phase, failed] at pending
    obtain ⟨unsent, known⟩ := sound.unsent n pending
    refine ⟨fun p member => unsent p (entries p member), fun member => ?_⟩
    rw [emitted, List.map_append] at member
    rcases List.mem_append.mp member with old | new
    · exact resolved n (known old)
    · rcases claimed n new with byId | ⟨p, there, named, sent⟩
      · exact byId
      -- an entry of such a send is not sent, so the read worker does not take it
      · rw [unsent p there named] at sent
        cases sent

theorem Sound.emit {q : TwitchEchoQueue φ} (pending : q.pending = s.queue.pending)
    (take : TwitchEchoQueue.Pending φ → Bool) : (s.emit (q.takeSentLocked take)).Sound := by
  refine sound.taken ⟨rfl, rfl, rfl, rfl, rfl, rfl⟩ rfl (fun n member => member) ?_ ?_ ?_
  · have perm := TwitchEchoQueue.nonces_filter (fun p => p.sent && take p) q.pending
    rw [TwitchEchoQueue.nonces, ← pending, List.map_map]
    exact perm
  · intro p member
    rw [← pending]
    exact (List.mem_filter.mp member).1
  · intro n member
    right
    simp only [TwitchEchoQueue.takeSentLocked, List.map_map] at member
    obtain ⟨p, there, rfl⟩ := List.mem_map.mp member
    obtain ⟨queued, picked⟩ := List.mem_filter.mp there
    rw [Bool.and_eq_true] at picked
    exact ⟨p, pending ▸ queued, rfl, picked.1⟩

theorem Sound.resolve {nonce id : String} (step : s.step (.resolve nonce id) = some s') :
    s'.Sound := by
  simp only [Sends.step, TwitchEchoQueue.resolve] at step
  cases found : s.queue.pending.find? (·.nonce = nonce) with
  | none =>
    simp only [found] at step
    rw [← Option.some.inj step]
    exact sound
  | some p =>
    simp only [found] at step
    rw [← Option.some.inj step]
    refine sound.taken ⟨rfl, rfl, rfl, rfl, rfl, rfl⟩ rfl (fun n member => List.mem_cons_of_mem _ member) ?_
      (fun p member => List.mem_of_mem_eraseP member) (fun n member => .inl ?_)
    · exact (TwitchEchoQueue.nonces_eraseP found).trans (List.perm_append_singleton _ _).symm
    · rw [List.mem_singleton.mp member]
      exact List.mem_cons_self

theorem Sound.step {i : SendStep φ} (step : s.step i = some s') : s'.Sound := by
  cases i with
  | stage nonce frame =>
    simp only [Sends.step] at step
    split at step
    next idle =>
      split at step
      next queue staged =>
        rw [← Option.some.inj step]
        split at staged
        · cases staged
        · exact sound.staged idle staged
      · rw [← Option.some.inj step]
        exact sound.left idle
    · cases step
  | write nonce ok =>
    simp only [Sends.step] at step
    split at step
    next phase =>
      rw [← Option.some.inj step]
      exact sound.wrote phase
    next phase =>
      rw [← Option.some.inj step]
      exact sound.wroteUnstaged phase
    · cases step
  | markSent nonce deadlineMs => exact sound.markSent step
  | drop nonce =>
    simp only [Sends.step] at step
    split at step
    next phase =>
      rw [← Option.some.inj step]
      exact sound.drop phase
    · cases step
  | hubEnds nonce => exact sound.hubEnds step
  | resolve nonce id => exact sound.resolve step
  | nonceMissing =>
    rw [← Option.some.inj step]
    exact sound.emit (q := { s.queue with nonceMissing := true }) rfl _
  | newConnection =>
    rw [← Option.some.inj step]
    exact ⟨sound.placed, sound.distinct, sound.idle, sound.hub, sound.unsent, sound.shown, sound.failed, sound.fails, sound.dropped⟩
  | takeExpired | takeSent =>
    rw [← Option.some.inj step]
    exact sound.emit rfl _

/-! ### Whole runs -/

/-- Each echo is pending, with the hub, emitted or dropped: in one of the four, once. An echo
is dropped only where its write failed, and one whose write failed is never shown by the hub,
nor by the read worker unless its own `USERSTATE` claimed it. -/
def Accounted (s : Sends φ) : Prop :=
  (∀ n ∈ s.begun, s.queue.nonces.count n + s.hub.count n + (s.emitted.map Prod.fst).count n + s.dropped.count n = 1) ∧
  (∀ n ∈ s.dropped, n ∈ s.failed) ∧
  ∀ n ∈ s.failed, n ∉ s.shown ∧ (n ∈ s.emitted.map Prod.fst → n ∈ s.resolved)

theorem Sound.accounted : s.Accounted := by
  refine ⟨fun n member => ?_, sound.dropped, fun n failed => ?_⟩
  · have counts := sound.placed.count_eq n
    rw [List.count_eq_one_of_mem sound.distinct member] at counts
    simp only [places, List.count_append] at counts
    omega
  · exact ⟨fun shown => (sound.shown n shown).2 failed, (sound.unsent n (.inr failed)).2⟩

end

theorem sound_empty : ({} : Sends φ).Sound :=
  ⟨List.Perm.refl _, List.nodup_nil, by simp, by simp, by simp, by simp, by simp, by simp, by simp⟩

/-- In every run of sends and read worker, with a nonce for each send, every echo is
accounted for at every moment. -/
theorem echo_in_one_place {ms : List (Moment (Sends φ) (SendStep φ))} {u : Sends φ}
    (run : Run (fun s i t => s.step i = some t) {} ms u) :
    u.Accounted ∧ ∀ m ∈ ms, m.before.Accounted ∧ m.after.Accounted := by
  obtain ⟨last, each⟩ := Run.invariant (P := Sound) (Q := fun _ => True)
    (fun m _ step sound => sound.step step) run (fun _ _ => trivial) sound_empty
  exact ⟨last.accounted, fun m member => ⟨(each m member).1.accounted, (each m member).2.accounted⟩⟩

/-- A write that failed after Twitch had answered it, a send the hub shows itself because the
connection returns no nonce, and one that waited too long. -/
theorem echo_in_one_place_of_three : ∃ (ms : List (Moment (Sends String) (SendStep String))) (u : Sends String),
    Run (fun s i t => s.step i = some t) {} ms u ∧ u.emitted.map Prod.fst = ["a", "c"] ∧ u.shown = ["b"] ∧
    u.failed = ["a"] ∧ u.Accounted := by
  obtain ⟨ms, u, run, shown⟩ := exists_run_of_follow step ({} : Sends String)
    [.stage "a" "first", .resolve "a" "7", .write "a" false, .drop "a", .stage "b" "second", .nonceMissing,
      .write "b" true, .markSent "b" 2000, .hubEnds "b", .newConnection, .stage "c" "third", .write "c" true,
      .markSent "c" 2000, .takeExpired 2000]
    (fun _ u => u.emitted.map Prod.fst = ["a", "c"] && (u.shown = ["b"] && u.failed = ["a"])) (by decide)
  rw [Bool.and_eq_true, Bool.and_eq_true] at shown
  exact ⟨ms, u, run, of_decide_eq_true shown.1, of_decide_eq_true shown.2.1, of_decide_eq_true shown.2.2,
    (echo_in_one_place run).1⟩

end Braidcast.Chat.Sends
