import Braidcast.Diag.CaptureRate
import Braidcast.Lib.Latch
import Braidcast.Lib.Run

/-!
# The lock says what the trace says

The lock fields of an entry are a latch, which hears the band of each second that counts for the
lock and is cleared by the events that end it. So the lock is the band of the last run that was long
enough and was not left since.
-/
namespace Braidcast.Diag

open Lib

/-- What one of the tracker's calls is for the lock of a source. -/
inductive Reading (β : Type)
  | passed
  | judged (band : Option β)
  | cleared

namespace Entry

variable {β : Type} (e : Entry β)

def latch : Latch β := ⟨e.streakFraction, e.streakCount, e.lockedFraction, e.exitCount⟩

theorem noteSession_latch (inSession : Bool) (src : SourceInput) (status : Status) :
    (e.noteSession inSession src status).latch = e.latch := by
  unfold noteSession
  split <;> rfl

theorem enterLock_latch : e.enterLock.latch = e.latch.engage kEnterSeconds := by
  obtain ⟨name, kind, identity, baselined, hadRef, last, sinceBaselineSec, streak, count, locked, exits, session, window⟩ := e
  cases locked with
  | some g => rfl
  | none =>
    cases streak with
    | none => rfl
    | some f => exact apply_ite latch _ _ _

end Entry

variable {β : Type} [DecidableEq β] {MatchFraction : ℚ → Option β} {e : Entry β} {t t' : Tracker β} {i : SampleInput}
  {src : SourceInput} {sources : List SourceInput} {seen : List String} {dt mainFps : ℚ} {inSession : Bool} {uuid : String}

/-- The bands that count are heard. -/
def Reading.hear (l : Latch β) : Reading β → Latch β
  | .passed => l
  | .judged band => l.hear kEnterSeconds kExitSeconds band
  | .cleared => .unlocked

/-- The bands heard since the lock was cleared. -/
def Reading.note (heard : List (Option β)) : Reading β → List (Option β)
  | .passed => heard
  | .judged band => heard ++ [band]
  | .cleared => []

namespace Entry

/-- The band of a second that counts for the lock. -/
def bandOf (MatchFraction : ℚ → Option β) (fraction : Option ℚ) (eligible : Bool) : Reading β :=
  match eligible, fraction with
  | true, some fraction => .judged (MatchFraction fraction)
  | _, _ => .passed

/-- A sample with the source in it: a new window, a canvas that goes live or off air, or a second. -/
def reads (MatchFraction : ℚ → Option β) (e : Entry β) (i : SampleInput) (src : SourceInput) : Reading β :=
  let ref := refFps src.reach i.mainFps
  let s := e.second src i.dtSec i.mainFps
  if e.restarts i src || e.goesLive ref || e.goesOffAir ref then .cleared
  else bandOf MatchFraction s.fraction (statusOf src = .ok && isDisplayRate src.counts.kind && s.eligible)

theorem trackStreak_latch (e : Entry β) (f : Option β) : (e.trackStreak f).latch = e.latch.track f :=
  apply_ite latch _ _ _

theorem leaveLock_latch (e : Entry β) (f : Option β) : (e.leaveLock f).latch = e.latch.release kExitSeconds f := by
  obtain ⟨name, kind, identity, baselined, hadRef, last, sinceBaselineSec, streak, count, locked, exits, session, window⟩ := e
  cases locked with
  | none => rfl
  | some g => exact apply_ite latch _ _ _

/-- `UpdateLock` is one value for the latch, if the second counts. -/
theorem updateLock_latch (e : Entry β) (fraction : Option ℚ) (eligible : Bool) :
    (e.updateLock MatchFraction fraction eligible).latch = (bandOf MatchFraction fraction eligible).hear e.latch := by
  unfold updateLock bandOf
  split
  · dsimp only
    rw [enterLock_latch, leaveLock_latch, trackStreak_latch]
    rfl
  next other =>
    cases eligible with
    | false => rfl
    | true =>
      cases fraction with
      | none => rfl
      | some fraction => exact absurd rfl (other fraction rfl)

omit [DecidableEq β] in
theorem bandOf_false (fraction : Option ℚ) : bandOf MatchFraction fraction false = .passed := by
  cases fraction <;> rfl

theorem measure_latch (e : Entry β) (s : Second) (r : Row β) (dt : ℚ) : (e.measure MatchFraction s r dt).1.latch =
    (bandOf MatchFraction s.fraction (r.status = .ok && isDisplayRate r.kind && s.eligible)).hear e.latch := by
  have others (unlike : (r.status = .ok && isDisplayRate r.kind) = false) : (bandOf MatchFraction s.fraction
      (r.status = .ok && isDisplayRate r.kind && s.eligible)).hear e.latch = e.latch := by
    rw [unlike, Bool.false_and, bandOf_false]
    rfl
  unfold measure
  split
  next changes =>
    obtain ⟨ok, -⟩ := Bool.and_eq_true_iff.mp changes
    dsimp only
    split
    next display =>
      rw [ok, display, Bool.true_and, Bool.true_and]
      exact updateLock_latch e s.fraction s.eligible
    next overlay => exact (others (by rw [Bool.eq_false_iff.mpr overlay, Bool.and_false])).symm
  next still =>
    have unlike : (r.status = .ok && isDisplayRate r.kind) = false := by
      refine Bool.eq_false_iff.mpr fun display => still ?_
      obtain ⟨ok, display⟩ := Bool.and_eq_true_iff.mp display
      rw [ok, isChangeRate, display]
      rfl
    rw [others unlike]
    split <;> rfl

/-- All of a second that the lock hears. -/
theorem evaluate_latch (e : Entry β) (inSession : Bool) (src : SourceInput) (dt mainFps : ℚ) :
    (e.evaluate MatchFraction inSession src dt mainFps).1.latch =
      (bandOf MatchFraction ((e.meetRef (refFps src.reach mainFps)).second src dt mainFps).fraction
        (statusOf src = .ok && isDisplayRate src.counts.kind && ((e.meetRef (refFps src.reach mainFps)).second src dt mainFps).eligible)).hear
        (e.meetRef (refFps src.reach mainFps)).latch := by
  unfold evaluate
  dsimp only
  rw [noteSession_latch]
  have tallied (c : Prop) [Decidable c] (e : Entry β) (r : Row β) : (if c then e.tally inSession r dt else e).latch = e.latch := by
    split <;> rfl
  rw [tallied]
  exact measure_latch _ _ _ dt

theorem eligible_of_grace {s : Second} (grace : s.inGrace = true) : s.eligible = false := by
  simp [Second.eligible, grace]

theorem eligible_of_noRef {s : Second} (unreached : s.hasRef = false) : s.eligible = false := by
  simp [Second.eligible, unreached]

omit [DecidableEq β] in
/-- The second in which a source goes live is in the grace period, and without a live canvas none counts. -/
theorem not_eligible (e : Entry β) (short : i.dtSec ≤ kMaxSampleGapSec)
    (ends : e.goesLive (refFps src.reach i.mainFps) = true ∨ e.goesOffAir (refFps src.reach i.mainFps) = true) :
    (e.meetRef (refFps src.reach i.mainFps)).latch = .unlocked ∧
      ((e.meetRef (refFps src.reach i.mainFps)).second src i.dtSec i.mainFps).eligible = false := by
  unfold meetRef
  by_cases live : e.goesLive (refFps src.reach i.mainFps) = true
  · rw [if_pos live]
    refine ⟨rfl, ?_⟩
    have grace : (0 : ℚ) + i.dtSec ≤ kGraceSec + kEpsilon := by
      unfold kMaxSampleGapSec at short
      unfold kGraceSec kEpsilon
      linarith
    exact eligible_of_grace (decide_eq_true grace)
  · have air := ends.resolve_left live
    rw [if_neg live, if_pos air]
    refine ⟨rfl, ?_⟩
    obtain ⟨unreached, -⟩ := Bool.and_eq_true_iff.mp air
    rw [Bool.not_eq_true'] at unreached
    exact eligible_of_noRef unreached

/-- A sample of a source. -/
theorem sample_latch (e : Entry β) (inSession : Bool) (i : SampleInput) (src : SourceInput) :
    (e.sample MatchFraction inSession i src).1.latch = (e.reads MatchFraction i src).hear e.latch := by
  have named : ({ e with name := src.name } : Entry β).reads MatchFraction i src = e.reads MatchFraction i src := rfl
  rw [← named]
  change _ = Reading.hear ({ e with name := src.name } : Entry β).latch _
  unfold sample
  dsimp only
  generalize ({ e with name := src.name } : Entry β) = e
  unfold reads
  dsimp only
  by_cases again : e.restarts i src = true
  · rw [if_pos again, again, noteSession_latch]
    rfl
  · rw [if_neg again, evaluate_latch]
    have short : i.dtSec ≤ kMaxSampleGapSec := by
      simp only [restarts, Bool.or_eq_true, Bool.not_eq_true', Bool.and_eq_false_iff, decide_eq_false_iff_not, not_or] at again
      tauto
    by_cases ends : e.goesLive (refFps src.reach i.mainFps) = true ∨ e.goesOffAir (refFps src.reach i.mainFps) = true
    · obtain ⟨unlocked, late⟩ := not_eligible e short ends
      rw [unlocked, late, Bool.and_false, bandOf_false, if_pos (by simpa [again] using ends)]
      rfl
    · have plain : e.meetRef (refFps src.reach i.mainFps) = { e with hadRef := (refFps src.reach i.mainFps).isSome } := by
        unfold meetRef
        rw [if_neg fun live => ends (.inl live), if_neg fun air => ends (.inr air)]
      rw [plain, if_neg (by simpa [again] using ends)]
      rfl

end Entry

namespace Tracker

variable {t t' : Tracker β} {ms : List (Moment (Tracker β) Input)} {f : β}

/-- The lock fields of a source that has no entry are as good as new. -/
def latch (t : Tracker β) (uuid : String) : Latch β := ((t.entries uuid).map Entry.latch).getD .unlocked

def lockedFraction (t : Tracker β) (uuid : String) : Option β := (t.latch uuid).locked

/-- What a call is for the lock of a source; an entry that goes takes its lock with it. -/
def reads (MatchFraction : ℚ → Option β) (t : Tracker β) (uuid : String) : Input → Reading β
  | .sample i =>
    match i.sources.find? fun src => src.uuid = uuid with
    | some src => ((t.entries uuid).getD {}).reads MatchFraction i src
    | none => if t.inSession then .passed else .cleared
  | .sessionEnd => if t.inSession && (t.entries uuid).any fun e => !e.baselined then .cleared else .passed
  | .clear => .cleared
  | _ => .passed

/-- The loop over the sources of a sample. -/
theorem sampleSources_spec (MatchFraction : ℚ → Option β) (i : SampleInput) (sources : List SourceInput) (seen : List String)
    (t : Tracker β) (uuid : String) :
    (sampleSources MatchFraction i sources seen t).1.inSession = t.inSession ∧
    (uuid ∈ (sampleSources MatchFraction i sources seen t).2 ↔ uuid ∈ seen ∨ (sources.find? fun src => src.uuid = uuid).isSome) ∧
    (sampleSources MatchFraction i sources seen t).1.entries uuid =
      if uuid ∈ seen then t.entries uuid
      else
        match sources.find? fun src => src.uuid = uuid with
        | some src => some (((t.entries uuid).getD {}).sample MatchFraction t.inSession i src).1
        | none => t.entries uuid := by
  induction sources generalizing seen t with
  | nil => simp [sampleSources]
  | cons src sources ih =>
    unfold sampleSources
    by_cases known : src.uuid ∈ seen
    · rw [if_pos known]
      obtain ⟨session, members, entries⟩ := ih seen t
      by_cases here : src.uuid = uuid
      · rw [List.find?_cons_of_pos (by simpa using here)]
        refine ⟨session, ?_, ?_⟩
        · rw [members]
          simp [here ▸ known]
        · rw [entries, if_pos (here ▸ known), if_pos (here ▸ known)]
      · rw [List.find?_cons_of_neg (by simpa using here)]
        exact ⟨session, members, entries⟩
    · rw [if_neg known]
      obtain ⟨session, members, entries⟩ := ih (src.uuid :: seen) (t.sampleSource MatchFraction i src)
      refine ⟨session, ?_, ?_⟩
      · rw [members, List.mem_cons]
        by_cases here : src.uuid = uuid
        · rw [List.find?_cons_of_pos (by simpa using here)]
          simp [here]
        · rw [List.find?_cons_of_neg (by simpa using here)]
          simp [Ne.symm here]
      · rw [entries]
        unfold sampleSource
        dsimp only
        by_cases here : src.uuid = uuid
        · subst here
          rw [List.find?_cons_of_pos (by simp), if_pos List.mem_cons_self, if_neg known, Function.update_self]
        · rw [List.find?_cons_of_neg (by simpa using here), Function.update_of_ne (Ne.symm here)]
          simp [Ne.symm here]

theorem sample_entries (i : SampleInput) (t : Tracker β) (uuid : String) : (t.sample MatchFraction i).entries uuid =
    match i.sources.find? fun src => src.uuid = uuid with
    | some src => some (((t.entries uuid).getD {}).sample MatchFraction t.inSession i src).1
    | none => if t.inSession then (t.entries uuid).map fun e => { e with baselined := false } else none := by
  obtain ⟨session, members, entries⟩ :=
    sampleSources_spec MatchFraction i i.sources [] { t with rows := [] } uuid
  unfold sample
  dsimp only
  rw [session, entries]
  cases found : i.sources.find? fun src => src.uuid = uuid with
  | none =>
    rw [if_neg (by rw [members, found]; simp)]
    simp
  | some src =>
    rw [if_pos (by rw [members, found]; simp)]
    simp

omit [DecidableEq β] in
/-- A change of every entry that leaves the lock fields alone. -/
theorem latch_map (g : Entry β → Entry β) (same : ∀ e, (g e).latch = e.latch) (entry : Option (Entry β)) :
    ((entry.map g).map Entry.latch).getD .unlocked = (entry.map Entry.latch).getD .unlocked := by
  cases entry with
  | none => rfl
  | some e => exact same e

omit [DecidableEq β] in
theorem sessionEnd_latch (t : Tracker β) (uuid : String) : t.sessionEnd.latch uuid =
    if t.inSession && (t.entries uuid).any fun e => !e.baselined then .unlocked else t.latch uuid := by
  unfold sessionEnd latch
  by_cases session : t.inSession = true
  · rw [if_pos session, session, Bool.true_and]
    dsimp only
    cases t.entries uuid with
    | none => rfl
    | some e =>
      rw [Option.map_some, Option.filter_some, Option.any_some]
      cases e.baselined <;> rfl
  · rw [if_neg session, Bool.eq_false_iff.mpr session]
    rfl

/-- Whatever the tracker is called for, the lock of a source hears what it is read as. -/
theorem react_latch (t : Tracker β) (uuid : String) (i : Input) :
    (t.react MatchFraction i).latch uuid = (t.reads MatchFraction uuid i).hear (t.latch uuid) := by
  cases i with
  | sample i =>
    unfold react reads latch
    dsimp only
    rw [sample_entries]
    cases i.sources.find? fun src => src.uuid = uuid with
    | some src =>
      have fresh : ((t.entries uuid).getD {}).latch = ((t.entries uuid).map Entry.latch).getD .unlocked := by
        cases t.entries uuid <;> rfl
      dsimp only
      rw [Option.map_some, Option.getD_some, Entry.sample_latch, fresh]
    | none =>
      dsimp only
      split
      · exact latch_map (fun e => { e with baselined := false }) (fun _ => rfl) (t.entries uuid)
      · rfl
  | pause => exact latch_map (fun e => { e with baselined := false }) (fun _ => rfl) (t.entries uuid)
  | resetWindows => exact latch_map (fun e => { e with window := {} }) (fun _ => rfl) (t.entries uuid)
  | sessionBegin =>
    unfold react sessionBegin
    dsimp only
    split
    · rfl
    · exact latch_map (fun e => { e with session := {} }) (fun _ => rfl) (t.entries uuid)
  | sessionEnd =>
    unfold react reads
    dsimp only
    rw [sessionEnd_latch]
    split <;> rfl
  | clear => rfl

/-- The bands that a source's lock heard in a run since it was cleared. -/
def heard (MatchFraction : ℚ → Option β) (uuid : String) (ms : List (Moment (Tracker β) Input)) : List (Option β) :=
  ms.foldl (fun heard m => (m.before.reads MatchFraction uuid m.input).note heard) []

theorem hear_note (reading : Reading β) (before : List (Option β)) :
    (reading.note before).foldl (Latch.hear kEnterSeconds kExitSeconds) .unlocked =
      reading.hear (before.foldl (Latch.hear kEnterSeconds kExitSeconds) .unlocked) := by
  cases reading with
  | passed => rfl
  | judged band => exact List.foldl_append
  | cleared => rfl

theorem run_latch (run : Run (fun t i t' => t.react MatchFraction i = t') t ms t') (uuid : String) (before : List (Option β))
    (start : t.latch uuid = before.foldl (Latch.hear kEnterSeconds kExitSeconds) .unlocked) :
    t'.latch uuid = (ms.foldl (fun heard m => (m.before.reads MatchFraction uuid m.input).note heard) before).foldl
      (Latch.hear kEnterSeconds kExitSeconds) .unlocked := by
  induction run generalizing before with
  | nil t => exact start
  | @cons s t u i ms step rest ih =>
    refine ih _ ?_
    rw [hear_note, ← start, ← step]
    exact react_latch s uuid i

theorem heard_latch (run : Run (fun t i t' => t.react MatchFraction i = t') initial ms t) (uuid : String) :
    t.latch uuid = (heard MatchFraction uuid ms).foldl (Latch.hear kEnterSeconds kExitSeconds) .unlocked :=
  run_latch run uuid [] rfl

theorem locked_iff_holds (run : Run (fun t i t' => t.react MatchFraction i = t') initial ms t) (uuid : String) (f : β) :
    t.lockedFraction uuid = some f ↔ Holds kEnterSeconds kExitSeconds f (heard MatchFraction uuid ms) := by
  unfold lockedFraction
  rw [heard_latch run uuid]
  exact (Latch.tells_foldl (by decide) (by decide) (by decide) _).locked f

omit [DecidableEq β] in
/-- Without an event that clears the lock, more is only heard after what was. -/
theorem heard_prefix {xs ys : List (Moment (Tracker β) Input)} (on : ∀ m ∈ ys, m.before.reads MatchFraction uuid m.input ≠ .cleared) :
    heard MatchFraction uuid xs <+: heard MatchFraction uuid (xs ++ ys) := by
  induction ys using List.reverseRecOn with
  | nil => exact ⟨[], by rw [List.append_nil, List.append_nil]⟩
  | append_singleton ys m ih =>
    have before := ih fun m' member => on m' (List.mem_append_left _ member)
    rw [← List.append_assoc]
    unfold heard at before ⊢
    rw [List.foldl_append]
    change _ <+: (m.before.reads MatchFraction uuid m.input).note _
    cases reading : m.before.reads MatchFraction uuid m.input with
    | passed => exact before
    | judged band => exact before.trans (List.prefix_append _ _)
    | cleared => exact absurd reading (on m (by simp))

/-- After any of the tracker's calls: a source is locked on a band if and only if, since the lock was
cleared, a run of `kEnterSeconds` seconds in the band was not followed by `kExitSeconds` outside it. The
lock was taken at the end of the earliest such run; another may be held for the first `kExitSeconds`
seconds of that run, and none for the rest of it. -/
theorem lock_says_trace (run : Run (fun t i t' => t.react MatchFraction i = t') initial ms t) (uuid : String) (f : β) :
    (t.lockedFraction uuid = some f ↔ Holds kEnterSeconds kExitSeconds f (heard MatchFraction uuid ms)) ∧
    (t.lockedFraction uuid = some f → ∃ before after, Takes kEnterSeconds kExitSeconds f (heard MatchFraction uuid ms) before after ∧
      ∀ xs ys s, ms = xs ++ ys → Run (fun t i t' => t.react MatchFraction i = t') initial xs s →
        (∀ m ∈ ys, m.before.reads MatchFraction uuid m.input ≠ .cleared) → before.length ≤ (heard MatchFraction uuid xs).length →
        (s.lockedFraction uuid = some f ↔ before.length + kEnterSeconds ≤ (heard MatchFraction uuid xs).length) ∧
        (before.length + kExitSeconds ≤ (heard MatchFraction uuid xs).length →
          (heard MatchFraction uuid xs).length < before.length + kEnterSeconds → s.lockedFraction uuid = none)) := by
  have holds := locked_iff_holds run uuid f
  refine ⟨holds, fun locked => ?_⟩
  obtain ⟨before, after, takes⟩ := (holds.mp locked).takes
  refine ⟨before, after, takes, fun xs ys s whole first on began => ?_⟩
  have upTo : heard MatchFraction uuid xs <+: heard MatchFraction uuid ms := whole ▸ heard_prefix on
  constructor
  · rw [locked_iff_holds first uuid f]
    constructor
    · intro held
      by_contra early
      exact takes.not_holds (by decide) upTo began (Nat.not_le.mp early) held
    · exact takes.holds upTo
  · intro into early
    refine Option.eq_none_iff_forall_ne_some.mpr fun g other => ?_
    exact takes.none_holds (by decide) (by decide) upTo into early ((locked_iff_holds first uuid g).mp other)

/-- A display capture on a live canvas of 60 fps. -/
def display (ticks frames : Nat) : SourceInput where
  uuid := "a"
  name := "screen"
  identity := 1
  showing := true
  frameSignal := true
  unmeasurableNote := none
  counts := { kind := .wgc, liveTicks := .ofNat ticks, framesDelivered := .ofNat frames }
  reach := [⟨60, true⟩]

/-- A sample every two and a half seconds: twelve at half the rate, and then at a third of it. -/
def halvesThenThirds (k : Nat) : Input :=
  .sample ⟨5 / 2, 60, [display (150 * k) (if k ≤ 12 then 75 * k else 900 + 50 * (k - 12))]⟩

/-- Ten seconds at half the rate count after the grace period, and the source is locked on it. -/
theorem lock_says_trace_halves : ∃ ms t, Run (fun t i t' => react matchFraction t i = t') initial ms t ∧
    t.lockedFraction "a" = some 0 ∧ Holds kEnterSeconds kExitSeconds 0 (heard matchFraction "a" ms) ∧
    ∃ before after, Takes kEnterSeconds kExitSeconds 0 (heard matchFraction "a" ms) before after := by
  let inputs := (List.range 13).map halvesThenThirds
  have run := run_trace (react matchFraction) initial inputs
  have locked : (inputs.foldl (react matchFraction) initial).lockedFraction "a" = some 0 := by decide +kernel
  obtain ⟨holds, taken⟩ := lock_says_trace run "a" 0
  obtain ⟨before, after, takes, -⟩ := taken locked
  exact ⟨_, _, run, locked, holds.mp locked, before, after, takes⟩

/-- The source is locked on a third of the rate, and no run of ten seconds in it is apart from the lock
that was held on the half. -/
theorem lock_of_overlapping_run : ∃ ms t, Run (fun t i t' => react matchFraction t i = t') initial ms t ∧ t.lockedFraction "a" = some 1 ∧
    ¬ ∃ before after, heard matchFraction "a" ms = before ++ List.replicate kEnterSeconds (some 1) ++ after ∧ Stays kExitSeconds 1 after ∧
      ∀ xs ys s, ms = xs ++ ys → Run (fun t i t' => react matchFraction t i = t') initial xs s →
        before.length < (heard matchFraction "a" xs).length → (heard matchFraction "a" xs).length ≤ before.length + kEnterSeconds →
        ∀ g ≠ 1, s.lockedFraction "a" ≠ some g := by
  let early := (List.range 16).map halvesThenThirds
  let late := (List.range' 16 7).map halvesThenThirds
  let s := early.foldl (react matchFraction) initial
  let xs := trace (react matchFraction) initial early
  let ys := trace (react matchFraction) s late
  have first : Run (fun t i t' => react matchFraction t i = t') initial xs s := run_trace _ _ early
  have rest := run_trace (react matchFraction) s late
  have bands : heard matchFraction "a" (xs ++ ys) = List.replicate 10 (some 0) ++ List.replicate 10 (some 1) := by decide +kernel
  have soFar : (heard matchFraction "a" xs).length = 13 := by decide +kernel
  have held : s.lockedFraction "a" = some 0 := by decide +kernel
  refine ⟨xs ++ ys, _, Run.append_iff.mpr ⟨s, first, rest⟩, by decide +kernel, ?_⟩
  rintro ⟨before, after, whole, -, apart⟩
  rw [bands] at whole
  unfold kEnterSeconds at whole apart
  have length := congrArg List.length whole
  simp only [List.length_append, List.length_replicate] at length
  -- the run begins where the last second at half the rate was
  have began : 10 ≤ before.length := by
    by_contra short
    have same : (List.replicate 10 (some 0) ++ List.replicate 10 (some 1))[before.length]? =
        (before ++ List.replicate 10 (some 1) ++ after)[before.length]? := by rw [whole]
    rw [List.append_assoc before, List.getElem?_append_right (Nat.le_refl _), Nat.sub_self,
      List.getElem?_append_left (by simp only [List.length_replicate]; omega), List.getElem?_replicate, if_pos (by omega)] at same
    cases same
  exact apart xs ys s rfl first (by omega) (by omega) 0 (by decide) held

end Tracker

end Braidcast.Diag
