import Braidcast.Overlay.SoundBudget

/-!
# Runs of the sounds

The budget over whole runs, and that the chain gets on: a link that an entry waits for settles once the chain
has taken twice as many steps as there are links up to it.
-/
namespace Braidcast.Overlay

open Lib

/-- What a link has behind it. -/
def LinkPhase.steps : LinkPhase → Nat
  | .queued => 0
  | .running => 1
  | .settled => 2

def DecodeLink.steps (link : DecodeLink) : Nat := link.phase.steps

theorem DecodeLink.steps_le (link : DecodeLink) : link.steps ≤ 2 := by
  unfold steps
  cases link.phase <;> decide

namespace SoundPage

variable {s s' : SoundPage} {place : Nat} {link : DecodeLink}

/-! ### How far the chain has got -/

def progress (s : SoundPage) : Nat := totalSize DecodeLink.steps s.decodeChain

/-- A step of the chain, not a call. -/
def SoundInput.advances : SoundInput → Bool
  | .start _ => true
  | .settle _ _ => true
  | _ => false

theorem totalSize_modify {α : Type} {size : α → Nat} {f : α → α} {xs : List α} {a : α} (there : xs[place]? = some a)
    (more : size a < size (f a)) : totalSize size xs < totalSize size (xs.modify place f) := by
  induction xs generalizing place with
  | nil => cases there
  | cons x xs ih =>
    cases place with
    | zero =>
      obtain rfl : x = a := Option.some.inj there
      rw [List.modify_zero_cons, totalSize_cons, totalSize_cons]
      omega
    | succ place =>
      rw [List.modify_succ_cons, totalSize_cons, totalSize_cons]
      exact Nat.add_lt_add_left (ih there) (size x)

theorem progress_setPhase {phase : LinkPhase} (there : s.decodeChain[place]? = some link) (more : link.steps < phase.steps) :
    s.progress < (s.setPhase place phase).progress := totalSize_modify there more

theorem decodeChain_soundEntry (s : SoundPage) (url : String) : (s.soundEntry url).1.decodeChain = s.decodeChain := by
  unfold soundEntry
  split
  · rfl
  · rfl

theorem progress_preloadSound (s : SoundPage) (url : String) (ctx : Bool) : (s.preloadSound url ctx).progress = s.progress := by
  have found : (s.soundEntry url).1.progress = s.progress := by rw [progress, decodeChain_soundEntry, progress]
  unfold preloadSound
  split
  · rfl
  · dsimp only
    split
    · exact found
    · split
      · exact found
      · refine Eq.trans ?_ found
        exact totalSize_append

/-- A call leaves the chain where it is, and a step of the chain takes it on. -/
theorem progress_step {i : SoundInput} (step : Step s i s') : s.progress + (if i.advances then 1 else 0) ≤ s'.progress := by
  cases step with
  | soundEntry url => exact Nat.le_of_eq (by rw [progress, progress, decodeChain_soundEntry]; rfl)
  | preloadSound url ctx => exact Nat.le_of_eq (progress_preloadSound s url ctx).symm
  | @start place link there queued turn =>
    have none_yet : link.steps = 0 := by rw [DecodeLink.steps, queued]; rfl
    show s.progress + 1 ≤ (s.startLink place link).progress
    -- a link that drops is two steps on, one that runs is one
    unfold startLink
    dsimp only
    split
    · exact progress_setPhase there (by rw [none_yet]; decide)
    · have more : link.steps < LinkPhase.running.steps := by rw [none_yet]; decide
      exact progress_setPhase there more
  | @settle place link there running outcome =>
    have one_yet : link.steps = 1 := by rw [DecodeLink.steps, running]; rfl
    have more : link.steps < LinkPhase.settled.steps := by rw [one_yet]; decide
    exact progress_setPhase there more

theorem progress_run {ms : List (Moment SoundPage SoundInput)} (run : Run Step s ms s') :
    s.progress + (ms.countP fun m => m.input.advances) ≤ s'.progress := by
  induction run with
  | nil s => exact Nat.le_refl _
  | @cons s t u i ms step _ ih =>
    have first := progress_step step
    rw [List.countP_cons]
    dsimp only
    omega

/-- While a link has not settled, no link behind it has begun. -/
theorem totalSize_le {α : Type} {size : α → Nat} {xs : List α} (small : ∀ a ∈ xs, size a ≤ 2) {a : α} (there : xs[place]? = some a)
    (open_ : size a ≤ 1) (behind : ∀ later b, place < later → xs[later]? = some b → size b = 0) : totalSize size xs ≤ 2 * place + 1 := by
  induction xs generalizing place with
  | nil => cases there
  | cons x xs ih =>
    rw [totalSize_cons]
    cases place with
    | zero =>
      obtain rfl : x = a := Option.some.inj there
      have rest : totalSize size xs = 0 := totalSize_eq_zero fun b member => by
        obtain ⟨later, here⟩ := List.mem_iff_getElem?.mp member
        exact behind (later + 1) b (Nat.succ_pos later) here
      omega
    | succ place =>
      have rest := ih (fun b member => small b (List.mem_cons_of_mem x member)) there
        (fun later b beyond here => behind (later + 1) b (Nat.succ_lt_succ beyond) here)
      have first := small x List.mem_cons_self
      omega

theorem Chained.progress_le (chained : Chained s) (there : s.decodeChain[place]? = some link) (unsettled : link.phase ≠ .settled) :
    s.progress ≤ 2 * place + 1 := by
  refine totalSize_le (fun link _ => DecodeLink.steps_le link) there ?_ ?_
  · unfold DecodeLink.steps
    cases phase : link.phase with
    | queued => decide
    | running => decide
    | settled => exact absurd phase unsettled
  -- a link behind that has begun would have this one settled
  · intro later other beyond here
    unfold DecodeLink.steps
    cases phase : other.phase with
    | queued => rfl
    | running | settled =>
      obtain ⟨first, old, settled⟩ := chained.ordered place later other beyond here (by rw [phase]; decide)
      exact absurd (Option.some.inj (there.symm.trans old) ▸ settled) unsettled

/-- The first link that has not settled can start or settle; a fetch that hangs fails in time. -/
theorem gets_on (there : s.decodeChain[place]? = some link) (unsettled : link.phase ≠ .settled) :
    ∃ i s', SoundInput.advances i = true ∧ Step s i s' := by
  induction place using Nat.strong_induction_on generalizing link with
  | _ place ih =>
    by_cases turn : ∀ before < place, s.InPhase before .settled
    · cases phase : link.phase with
      | queued => exact ⟨_, _, rfl, .start there phase turn⟩
      | running => exact ⟨_, _, rfl, .settle there phase .failed⟩
      | settled => exact absurd phase unsettled
    -- a link before it has not settled: that one is at a smaller place
    · obtain ⟨before, late⟩ := not_forall.mp turn
      obtain ⟨earlier, still⟩ := Classical.not_imp.mp late
      have within := (List.getElem?_eq_some_iff.mp there).1
      have old : s.decodeChain[before]? = some s.decodeChain[before] := List.getElem?_eq_getElem (earlier.trans within)
      exact ih before earlier old fun settled => still ⟨_, old, settled⟩

/-! ### Whole runs -/

/-- The budget of the sounds, and the chain. -/
structure Kept (s : SoundPage) : Prop where
  count : s.soundCache.length ≤ kMaxSoundEntries + 1
  retained : s.retained ≤ kMaxDecodedSoundBytes
  alone : ∀ p q, s.InPhase p .running → s.InPhase q .running → p = q
  attempts : ∀ e, (s.entries e).attempts ≤ kMaxSoundDecodeAttempts ∧
    ((s.entries e).attempts = kMaxSoundDecodeAttempts → (s.entries e).elementOnly = true)

/-- The link that an item waits for. -/
structure Waits (s : SoundPage) (item : String × Nat) (place : Nat) : Prop where
  link : ∃ link : DecodeLink, s.decodeChain[place]? = some link ∧ (link.url, link.entry) = item ∧ (link.phase = .queued ∨ link.phase = .running)
  gets_on : ∃ i s', SoundInput.advances i = true ∧ Step s i s'
  settles : ∀ ms s', Run Step s ms s' → 2 * (place + 1) ≤ (ms.countP fun m => m.input.advances) → item ∈ s'.soundCache →
    (s'.entries item.2).decode ≠ some place

theorem Budgeted.kept (budgeted : Budgeted s) : Kept s where
  count := budgeted.bounded
  retained := budgeted.budget
  alone := by
    rintro p q ⟨first, there, running⟩ ⟨second, here, runs⟩
    exact (budgeted.alone there (budgeted.turn there running) (by rw [running]; decide) here runs).symm
  attempts := fun e => ⟨(budgeted.sound e).attempts, (budgeted.sound e).spent⟩

theorem Budgeted.run {ms : List (Moment SoundPage SoundInput)} (budgeted : Budgeted s) (run : Run Step s ms s') : Budgeted s' := by
  induction run with
  | nil => exact budgeted
  | cons step _ ih => exact ih (budgeted.step step)

theorem Budgeted.waits (budgeted : Budgeted s) {item : String × Nat} (member : item ∈ s.soundCache)
    (waiting : (s.entries item.2).decode = some place) : Waits s item place := by
  obtain ⟨link, there, same, left⟩ := budgeted.awaited item member place waiting
  refine ⟨⟨link, there, same, ?_⟩, gets_on there left, ?_⟩
  · cases phase : link.phase with
    | queued => exact .inl rfl
    | running => exact .inr rfl
    | settled => exact absurd phase left
  · intro ms s' run enough still again
    have after := budgeted.run run
    obtain ⟨last, here, -, unsettled⟩ := after.awaited item still place again
    -- still waiting it would be unsettled, and the chain no further than its place allows
    have far := progress_run run
    have near := after.progress_le here unsettled
    omega

/-- Whatever is called and whenever links start and settle, the cache stays inside its budget, one decode runs at a
time, an entry fails no more often than it may, and no cached entry waits in vain. -/
theorem sound_cache_kept {ms : List (Moment SoundPage SoundInput)} (run : Run Step {} ms s) :
    Kept s ∧ ∀ item ∈ s.soundCache, ∀ place, (s.entries item.2).decode = some place → Waits s item place := by
  have budgeted := Budgeted.new.run run
  exact ⟨budgeted.kept, fun item member place waiting => budgeted.waits member waiting⟩

/-- A sound that is being decoded. -/
def decodingPage : SoundPage := (({} : SoundPage).preloadSound "ding.ogg" true).startLink 0 { url := "ding.ogg", entry := 0 }

theorem sound_cache_kept_decoding : Kept decodingPage ∧ Waits decodingPage ("ding.ogg", 0) 0 := by
  have run : Run Step {} [⟨{}, .preloadSound "ding.ogg" true, ({} : SoundPage).preloadSound "ding.ogg" true⟩,
      ⟨({} : SoundPage).preloadSound "ding.ogg" true, .start 0, decodingPage⟩] decodingPage :=
    .cons (.preloadSound {} "ding.ogg" true) (.cons (.start rfl rfl fun _ earlier => nomatch earlier) (.nil _))
  have cached : ("ding.ogg", 0) ∈ decodingPage.soundCache := by decide
  have kept := sound_cache_kept run
  exact ⟨kept.1, kept.2 _ cached 0 rfl⟩

end SoundPage

end Braidcast.Overlay
