import Braidcast.Lib.Run

/-!
# The latch on browser acceleration

`BrowserHwAccel` of `gpu_safe_mode.cpp` over the launches against one config folder. Between launches only the
sentinel file is left; its writes and deletions succeed.
-/
namespace Braidcast.Boot

open Lib

def kHwAccelSentinelFile : String := "browser-hwaccel-probe.lock"

def braidcastConfigPath (base relative : String) : String := if base = "" then "" else base ++ "/" ++ relative

structure BootDecision where
  enable : Bool := false
  crashDetected : Bool := false

/-- The file on disk and the globals of one process. -/
structure BrowserHwAccel where
  sentinel : Bool
  hwAccelProbeArmed : Bool := false
  hwAccelSentinelPathW : String := ""
  hwAccelSuppressionPending : Bool := false

namespace BrowserHwAccel

/-- `DecideAtBoot`. -/
def decideAtBoot (base : String) (selfTestRun enabledInSettings gpuUnavailable : Bool) (g : BrowserHwAccel) :
    BootDecision × BrowserHwAccel :=
  let enable := enabledInSettings && !gpuUnavailable
  if selfTestRun then ({ enable }, g)
  else if base = "" then ({ enable }, g)
  -- the user turned it off: an old verdict is cleared
  else if !enabledInSettings then ({ enable }, { g with sentinel := false })
  -- nothing to probe without a GPU, and the verdict waits for a launch that has one
  else if gpuUnavailable then ({ enable }, g)
  -- a sentinel that stands is the last launch's, which did not get to a closer
  else if g.sentinel then ({ enable := false, crashDetected := true }, { g with hwAccelSuppressionPending := true })
  else ({ enable }, { g with
    sentinel := true
    hwAccelSentinelPathW := braidcastConfigPath base kHwAccelSentinelFile
    hwAccelProbeArmed := true })

/-- `NoteSurvived`; `DisarmHwAccelProbe` answers once. -/
def noteSurvived (g : BrowserHwAccel) : BrowserHwAccel :=
  if g.hwAccelProbeArmed then { g with hwAccelProbeArmed := false, sentinel := false } else g

/-- `NoteFatalError`. -/
def noteFatalError (g : BrowserHwAccel) : BrowserHwAccel :=
  if g.hwAccelProbeArmed then
    { g with hwAccelProbeArmed := false, sentinel := g.sentinel && g.hwAccelSentinelPathW = "" }
  else g

/-- `ConfirmSuppressionPersisted`. -/
def confirmSuppressionPersisted (g : BrowserHwAccel) : BrowserHwAccel :=
  if g.hwAccelSuppressionPending then { g with hwAccelSuppressionPending := false, sentinel := false } else g

inductive Closer where
  | noteSurvived
  | noteFatalError

def close (g : BrowserHwAccel) : Closer → BrowserHwAccel
  | .noteSurvived => g.noteSurvived
  | .noteFatalError => g.noteFatalError

end BrowserHwAccel

open BrowserHwAccel

/-- The config folder that was found. -/
structure ConfigFolder where
  base : String
  found : base ≠ ""

/-- A launch: what it reads, whether the caller's save of the suppression succeeds, and the closers that it reaches. -/
structure Launch where
  enabledInSettings : Bool
  gpuUnavailable : Bool := false
  selfTestRun : Bool := false
  saves : Bool := true
  closers : List Closer := []

namespace Launch

variable (folder : ConfigFolder) (l : Launch) (sentinel : Bool)

def boot : BootDecision × BrowserHwAccel :=
  decideAtBoot folder.base l.selfTestRun l.enabledInSettings l.gpuUnavailable { sentinel }

/-- The caller confirms the suppression once it has been saved. -/
def confirmed : BrowserHwAccel :=
  if (l.boot folder sentinel).1.crashDetected && l.saves then (l.boot folder sentinel).2.confirmSuppressionPersisted
  else (l.boot folder sentinel).2

/-- The sentinel as the launch leaves it. -/
def ends : Bool := (l.closers.foldl close (l.confirmed folder sentinel)).sentinel

/-- The launches of a folder, each with the sentinel on either side of it. -/
def history (launches : List Launch) : List (Moment Bool Launch) := trace (fun s l => ends folder l s) false launches

end Launch

/-! ### What a launch was -/

section

variable (folder : ConfigFolder) (m : Moment Bool Launch)

def Accelerates : Prop := (m.input.boot folder m.before).1.enable = true

def DetectsCrash : Prop := (m.input.boot folder m.before).1.crashDetected = true

def Armed : Prop := (m.input.boot folder m.before).2.hwAccelProbeArmed = true

/-- Acceleration was on, and no closer was reached. -/
def Frozen : Prop := Accelerates folder m ∧ m.input.closers = []

/-- The stored setting was off, or has been off since the crash was detected. -/
def TurnedOff : Prop := m.input.enabledInSettings = false ∨ (DetectsCrash folder m ∧ m.input.saves = true)

/-- A freeze stays latched, among the launches that are held to it. -/
structure Latched (held : Launch → Prop) (ms : List (Moment Bool Launch)) : Prop where
  stays : ∀ xs m ys m' zs, ms = xs ++ m :: (ys ++ m' :: zs) → held m.input → Frozen folder m → held m'.input →
    Accelerates folder m' → ∃ r ∈ ys, held r.input ∧ TurnedOff folder r
  detected : ∀ xs m ys, ms = xs ++ m :: ys → DetectsCrash folder m → ∃ f ∈ xs, held f.input ∧ Frozen folder f
  kept : ∀ m ∈ ms, m.input.enabledInSettings = true → ¬ Armed folder m → m.before = true → m.after = false →
    DetectsCrash folder m ∧ m.input.saves = true

end

/-! ### One launch -/

variable {folder : ConfigFolder} {l : Launch} {s : Bool} {m : Moment Bool Launch}

theorem closers_unarmed (closers : List Closer) {g : BrowserHwAccel} (unarmed : g.hwAccelProbeArmed = false) :
    closers.foldl close g = g := by
  induction closers with
  | nil => rfl
  | cons closer closers ih =>
    have same : close g closer = g := by
      cases closer with
      | noteSurvived => simp [close, noteSurvived, unarmed]
      | noteFatalError => simp [close, noteFatalError, unarmed]
    rw [List.foldl_cons, same, ih]

/-- A closer of an armed launch deletes the sentinel, and no later one brings it back. -/
theorem closers_armed {closers : List Closer} {g : BrowserHwAccel} (armed : g.hwAccelProbeArmed = true) (known : g.hwAccelSentinelPathW ≠ "")
    (some_closer : closers ≠ []) : (closers.foldl close g).sentinel = false := by
  cases closers with
  | nil => exact absurd rfl some_closer
  | cons closer closers =>
    have first : (close g closer).hwAccelProbeArmed = false ∧ (close g closer).sentinel = false := by
      cases closer with
      | noteSurvived => simp [close, noteSurvived, armed]
      | noteFatalError => simp [close, noteFatalError, armed, known]
    rw [List.foldl_cons, closers_unarmed closers first.1]
    exact first.2

/-- What a launch can be, and the sentinel that it leaves. -/
inductive Kind (folder : ConfigFolder) (l : Launch) (s : Bool) : Prop
  | unattended (run : l.selfTestRun = true) (decision : l.boot folder s = ({ enable := l.enabledInSettings && !l.gpuUnavailable }, { sentinel := s }))
      (left : l.ends folder s = s)
  | off (attended : l.selfTestRun = false) (setting : l.enabledInSettings = false)
      (decision : (l.boot folder s).1 = { enable := false }) (left : l.ends folder s = false)
  | without (attended : l.selfTestRun = false) (setting : l.enabledInSettings = true)
      (decision : l.boot folder s = ({ enable := false }, { sentinel := s })) (left : l.ends folder s = s)
  | suppressed (attended : l.selfTestRun = false) (setting : l.enabledInSettings = true) (pending : s = true)
      (decision : l.boot folder s = ({ enable := false, crashDetected := true }, { sentinel := true, hwAccelSuppressionPending := true }))
      (left : l.ends folder s = !l.saves)
  | armed (attended : l.selfTestRun = false) (setting : l.enabledInSettings = true) (clear : s = false)
      (decision : (l.boot folder s).1 = { enable := true }) (holds : (l.boot folder s).2.hwAccelProbeArmed = true)
      (left : l.ends folder s = l.closers.isEmpty)

theorem kind (folder : ConfigFolder) (l : Launch) (s : Bool) : Kind folder l s := by
  have found := folder.found
  cases run : l.selfTestRun with
  | true =>
    have decision : l.boot folder s = ({ enable := l.enabledInSettings && !l.gpuUnavailable }, { sentinel := s }) := by
      simp [Launch.boot, decideAtBoot, run]
    refine .unattended run decision ?_
    rw [Launch.ends, Launch.confirmed, decision, if_neg (by simp), closers_unarmed _ rfl]
  | false =>
    cases setting : l.enabledInSettings with
    | false =>
      have decision : l.boot folder s = ({ enable := false }, { sentinel := false }) := by
        simp [Launch.boot, decideAtBoot, run, setting, found]
      refine .off run setting (by rw [decision]) ?_
      rw [Launch.ends, Launch.confirmed, decision, if_neg (by simp), closers_unarmed _ rfl]
    | true =>
      cases gpu : l.gpuUnavailable with
      | true =>
        have decision : l.boot folder s = ({ enable := false }, { sentinel := s }) := by
          simp [Launch.boot, decideAtBoot, run, setting, gpu, found]
        refine .without run setting decision ?_
        rw [Launch.ends, Launch.confirmed, decision, if_neg (by simp), closers_unarmed _ rfl]
      | false =>
        cases s with
        | true =>
          have decision : l.boot folder true =
              ({ enable := false, crashDetected := true }, { sentinel := true, hwAccelSuppressionPending := true }) := by
            simp [Launch.boot, decideAtBoot, run, setting, gpu, found]
          refine .suppressed run setting rfl decision ?_
          rw [Launch.ends, Launch.confirmed, decision]
          cases l.saves with
          | true => rw [if_pos (by simp), closers_unarmed _ rfl]; rfl
          | false => rw [if_neg (by simp), closers_unarmed _ rfl]; rfl
        | false =>
          have decision : l.boot folder false = ({ enable := true }, {
              sentinel := true
              hwAccelSentinelPathW := braidcastConfigPath folder.base kHwAccelSentinelFile
              hwAccelProbeArmed := true }) := by
            simp [Launch.boot, decideAtBoot, run, setting, gpu, found]
          refine .armed run setting rfl (by rw [decision]) (by rw [decision]) ?_
          rw [Launch.ends, Launch.confirmed, decision, if_neg (by simp)]
          cases closers : l.closers with
          | nil => rfl
          | cons closer rest =>
            refine closers_armed rfl ?_ (List.cons_ne_nil closer rest)
            simp [braidcastConfigPath, found]

/-! ### Launches one after another -/

/-- A launch that does not drive itself. -/
def Attended (l : Launch) : Prop := l.selfTestRun = false

theorem Kind.accelerates (kind : Kind folder m.input m.before) (attended : Attended m.input) (on : Accelerates folder m) :
    m.before = false ∧ m.input.ends folder m.before = m.input.closers.isEmpty := by
  unfold Accelerates at on
  cases kind with
  | unattended run => cases run.symm.trans attended
  | off _ _ decision =>
    rw [decision] at on
    cases on
  | without _ _ decision =>
    rw [decision] at on
    cases on
  | suppressed _ _ _ decision =>
    rw [decision] at on
    cases on
  | armed _ _ clear _ _ left => exact ⟨clear, left⟩

/-- A sentinel stays where no attended launch has its setting off. -/
theorem sentinel_keeps (step : m.input.ends folder m.before = m.after) (standing : m.before = true) :
    m.after = true ∨ (Attended m.input ∧ TurnedOff folder m) := by
  rw [← step]
  cases kind folder m.input m.before with
  | unattended _ _ left => exact .inl (left.trans standing)
  | off attended setting => exact .inr ⟨attended, .inl setting⟩
  | without _ _ _ left => exact .inl (left.trans standing)
  | suppressed attended _ _ decision left =>
    cases saves : m.input.saves with
    | true =>
      have detects : DetectsCrash folder m := by
        unfold DetectsCrash
        rw [decision]
      exact .inr ⟨attended, .inr ⟨detects, saves⟩⟩
    | false => exact .inl (left.trans (by rw [saves]; rfl))
  | armed _ _ clear => cases clear.symm.trans standing

/-- Only a freeze leaves a sentinel. -/
theorem sentinel_appears (step : m.input.ends folder m.before = m.after) (clear : m.before = false) :
    m.after = false ∨ (Attended m.input ∧ Frozen folder m) := by
  rw [← step]
  cases kind folder m.input m.before with
  | unattended _ _ left => exact .inl (left.trans clear)
  | off _ _ _ left => exact .inl left
  | without _ _ _ left => exact .inl (left.trans clear)
  | suppressed _ _ pending => cases pending.symm.trans clear
  | armed attended _ _ decision _ left =>
    cases closers : m.input.closers with
    | nil =>
      have on : Accelerates folder m := by
        unfold Accelerates
        rw [decision]
      exact .inr ⟨attended, on, closers⟩
    | cons closer rest => exact .inl (left.trans (by rw [closers]; rfl))

theorem detects_pending (detects : DetectsCrash folder m) : m.before = true := by
  unfold DetectsCrash at detects
  cases kind folder m.input m.before with
  | unattended _ decision =>
    rw [decision] at detects
    cases detects
  | off _ _ decision =>
    rw [decision] at detects
    cases detects
  | without _ _ decision =>
    rw [decision] at detects
    cases detects
  | suppressed _ _ pending => exact pending
  | armed _ _ _ decision =>
    rw [decision] at detects
    cases detects

/-- With the setting on a sentinel is removed only once its suppression has been saved. -/
theorem removed_confirmed (step : m.input.ends folder m.before = m.after) (setting : m.input.enabledInSettings = true)
    (standing : m.before = true) (gone : m.after = false) :
    DetectsCrash folder m ∧ m.input.saves = true := by
  rcases sentinel_keeps step standing with still | ⟨-, off | spent⟩
  · cases still.symm.trans gone
  · cases off.symm.trans setting
  · exact spent

/-- After a launch that froze no attended launch accelerates until the setting has been off. -/
theorem freeze_stays_latched (folder : ConfigFolder) (launches : List Launch) :
    Latched folder Attended (Launch.history folder launches) := by
  have run := run_trace (fun s l => Launch.ends folder l s) false launches
  rw [← Launch.history] at run
  constructor
  case stays =>
    intro xs m ys m' zs cut attended frozen attended' on
    rw [cut] at run
    have step := run.step_of_mem (List.mem_append_right xs List.mem_cons_self)
    -- the freeze leaves the sentinel, and a launch that accelerates finds none
    have left : m.after = true := by
      rw [← step, ((kind folder m.input m.before).accelerates attended frozen.1).2, frozen.2]
      rfl
    have clear := ((kind folder m'.input m'.before).accelerates attended' on).1
    have keeps (r : Moment Bool Launch) (_ : True) (step : r.input.ends folder r.before = r.after) (standing : r.before = true) :
        r.after = true ∨ Attended r.input ∧ TurnedOff folder r := sentinel_keeps step standing
    -- so on the way some launch had it removed
    rcases run.between.persists (P := fun s => s = true) keeps (fun _ _ => trivial) left with standing | ⟨r, member, ends⟩
    · cases standing.symm.trans clear
    · exact ⟨r, member, ends⟩
  case detected =>
    intro xs m ys cut detects
    rw [cut] at run
    obtain ⟨t, first, rest⟩ := Run.append_iff.mp run
    have pending := detects_pending detects
    rw [(Run.cons_iff.mp rest).1] at pending
    have appears (f : Moment Bool Launch) (_ : True) (step : f.input.ends folder f.before = f.after) (clear : f.before = false) :
        f.after = false ∨ Attended f.input ∧ Frozen folder f := sentinel_appears step clear
    -- the folder begins without a sentinel, so some launch before left this one
    rcases first.persists (P := fun s => s = false) appears (fun _ _ => trivial) rfl with clear | ⟨f, member, ends⟩
    · cases clear.symm.trans pending
    · exact ⟨f, member, ends⟩
  case kept =>
    intro m member setting _ standing gone
    exact removed_confirmed (run.step_of_mem member) setting standing gone

def someFolder : ConfigFolder := ⟨"braidcast", by decide⟩

/-- A launch that drives itself enables acceleration over a freeze. -/
theorem not_always_latched : ¬ ∀ folder launches, Latched folder (fun _ => True) (Launch.history folder launches) := by
  intro always
  have latched := always someFolder [{ enabledInSettings := true }, { enabledInSettings := true, selfTestRun := true }]
  obtain ⟨r, member, -⟩ := latched.stays [] ⟨false, { enabledInSettings := true }, true⟩ []
    ⟨true, { enabledInSettings := true, selfTestRun := true }, true⟩ [] rfl trivial ⟨rfl, rfl⟩ trivial rfl
  cases member

end Braidcast.Boot
