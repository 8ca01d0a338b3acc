import Mathlib.Data.List.Basic

/-!
# A chat's health row

The reports of one chat session, with the latch and the failure counter that decide which of its
reads and failed attempts are reported: `AnnounceOnce`, `ReportDegraded` and `EndSession` of
`youtube_chat.cpp` and `facebook_chat.cpp`.
-/
namespace Braidcast.Chat

/-- `Transports::TransportHealth::State`, as far as a transport reports it. -/
inductive Health
  | connected
  | reconnecting
  | failed
  | unavailable

/-- One `chat.state` frame. -/
structure HealthReport where
  connected : Bool
  health : Health
  error : String

/-- `EmitChatState`. -/
def emitChatState (connected : Bool) (error : String) : HealthReport :=
  ⟨connected, if connected then .connected else .reconnecting, error⟩

/-- `EmitChatTerminal`. -/
def emitChatTerminal (reason : String) (health : Health) : HealthReport :=
  ⟨false, health, reason⟩

/-- What a session did that its health row depends on, with what was reported at it. -/
inductive HealthEvent
  /-- `AnnounceOnce`. -/
  | read (report : Option HealthReport)
  /-- `NoteHealthy` on its own. -/
  | alive
  /-- `ReportDegraded`. -/
  | failed (report : Option HealthReport)
  /-- A terminal report. -/
  | ended (report : HealthReport)
  /-- The clean bookend of `connect`. -/
  | bookend (report : HealthReport)

namespace HealthEvent

def report : HealthEvent → Option HealthReport
  | .read report | .failed report => report
  | .alive => none
  | .ended report | .bookend report => some report

def isFinal : HealthEvent → Bool
  | .ended _ | .bookend _ => true
  | .read _ | .alive | .failed _ => false

end HealthEvent

/-- The last report of a history. -/
def lastReport (log : List HealthEvent) : Option HealthReport :=
  log.foldl (fun last e => e.report.or last) none

/-- The last report says connected. -/
def saysConnected (log : List HealthEvent) : Prop :=
  ∃ report, lastReport log = some report ∧ report.connected = true

/-- The failed attempts since the last sign of life. -/
def failures (log : List HealthEvent) : Nat :=
  log.foldl (fun n e => match e with
    | .read _ | .alive => 0
    | .failed _ => n + 1
    | .ended _ | .bookend _ => n) 0

/-- A degradation was reported and nothing has been read since. -/
def degraded (log : List HealthEvent) : Bool :=
  log.foldl (fun d e => match e with
    | .read _ => false
    | .failed report => d || report.isSome
    | .alive | .ended _ | .bookend _ => d) false

section

variable (log : List HealthEvent)

@[simp] theorem lastReport_concat (e : HealthEvent) :
    lastReport (log ++ [e]) = e.report.or (lastReport log) := by
  simp [lastReport]

@[simp] theorem failures_read (report : Option HealthReport) :
    failures (log ++ [.read report]) = 0 := by
  simp [failures]

@[simp] theorem failures_alive : failures (log ++ [.alive]) = 0 := by
  simp [failures]

@[simp] theorem failures_failed (report : Option HealthReport) :
    failures (log ++ [.failed report]) = failures log + 1 := by
  simp [failures]

@[simp] theorem degraded_read (report : Option HealthReport) :
    degraded (log ++ [.read report]) = false := by
  simp [degraded]

@[simp] theorem degraded_alive : degraded (log ++ [.alive]) = degraded log := by
  simp [degraded]

@[simp] theorem degraded_failed (report : Option HealthReport) :
    degraded (log ++ [.failed report]) = (degraded log || report.isSome) := by
  simp [degraded]

end

def kDegradedGraceAttempts : Nat := 2

/-- A read after a reported degradation reports connected again. -/
def Recovers (log : List HealthEvent) : Prop :=
  ∀ xs report, xs ++ [.read report] <+: log → degraded xs = true → ∃ note, report = some (emitChatState true note)

/-- At no moment is connected the last report with the grace used up. -/
def Honest (log : List HealthEvent) : Prop :=
  ∀ xs, xs <+: log → kDegradedGraceAttempts ≤ failures xs → ¬ saysConnected xs

theorem Recovers.concat {log : List HealthEvent} {e : HealthEvent} (recovers : Recovers log)
    (last : ∀ report, e = .read report → degraded log = true → ∃ note, report = some (emitChatState true note)) :
    Recovers (log ++ [e]) := by
  intro xs report front down
  rcases List.prefix_concat_iff.mp front with whole | earlier
  · obtain ⟨rfl, same⟩ := List.append_inj' whole rfl
    cases same
    exact last report rfl down
  · exact recovers xs report earlier down

theorem Honest.concat {log : List HealthEvent} {e : HealthEvent} (honest : Honest log)
    (last : kDegradedGraceAttempts ≤ failures (log ++ [e]) → ¬ saysConnected (log ++ [e])) : Honest (log ++ [e]) := by
  intro xs front spent
  rcases List.prefix_concat_iff.mp front with rfl | earlier
  · exact last spent
  · exact honest xs earlier spent

/-- Whether a degraded report waits out the grace. -/
inductive Degradation
  | transient
  | sustained
  deriving DecidableEq

/-- The part of a session that the reports go through. -/
structure HealthRow where
  announced : Bool
  failedAttempts : Nat
  terminal : Bool
  log : List HealthEvent

namespace HealthRow

variable (row : HealthRow)

def fresh : HealthRow := ⟨false, 0, false, []⟩

def noteHealthy : HealthRow :=
  { row with failedAttempts := 0, log := row.log ++ [.alive] }

def announceOnce (note : String) : HealthRow :=
  if row.announced then { row with failedAttempts := 0, log := row.log ++ [.read none] }
  else { row with failedAttempts := 0, announced := true, log := row.log ++ [.read (some (emitChatState true note))] }

def reportDegraded (why : String) (kind : Degradation) : HealthRow :=
  let counted := match kind with
    | .transient => row.failedAttempts + 1
    | .sustained => row.failedAttempts
  if kind = .transient ∧ counted < kDegradedGraceAttempts then
    { row with failedAttempts := counted, log := row.log ++ [.failed none] }
  else
    { row with
      failedAttempts := counted
      announced := false
      log := row.log ++ [.failed (some (emitChatState false why))] }

/-- The connected state is due again, without a degradation (`EnterBilledRead`). -/
def rearm : HealthRow := { row with announced := false }

def endSession (text : String) (health : Health) : HealthRow :=
  { row with terminal := true, log := row.log ++ [.ended (emitChatTerminal text health)] }

/-- The clean bookend, only where nothing final was reported. -/
def close : HealthRow :=
  if row.terminal then row else { row with log := row.log ++ [.bookend (emitChatState false "")] }

/-- A session that goes on: the latch and the counter say what the history says. -/
structure Live (row : HealthRow) : Prop where
  going : row.terminal = false
  unended : ∀ e ∈ row.log, e.isFinal = false
  recovers : Recovers row.log
  honest : Honest row.log
  /-- While the latch is set no reported degradation stands. -/
  latch : row.announced = true → degraded row.log = false
  /-- While the row says connected, every failure since the last sign of life was counted and held back. -/
  grace : saysConnected row.log → failures row.log ≤ row.failedAttempts ∧ row.failedAttempts < kDegradedGraceAttempts

/-- A session that has reported its ending. -/
structure Ended (row : HealthRow) : Prop where
  closed : row.terminal = true
  recovers : Recovers row.log
  honest : Honest row.log
  final : ∃ xs report, row.log = xs ++ [.ended report] ∧ ∀ e ∈ xs, e.isFinal = false

variable {row}

theorem fresh_live : fresh.Live := by
  refine ⟨rfl, by simp [fresh], ?_, ?_, fun _ => rfl, ?_⟩
  · intro xs report front
    simp [fresh] at front
  · intro xs front
    simp only [fresh, List.prefix_nil] at front
    subst front
    exact fun spent => absurd spent (by decide)
  · rintro ⟨report, last, -⟩
    cases last

private theorem unended_concat {log : List HealthEvent} {e : HealthEvent} (unended : ∀ e ∈ log, e.isFinal = false)
    (last : e.isFinal = false) : ∀ e' ∈ log ++ [e], e'.isFinal = false := by
  intro e' member
  rcases List.mem_append.mp member with old | new
  · exact unended e' old
  · rw [List.mem_singleton.mp new]
    exact last

namespace Live

section

variable (live : row.Live)
include live

theorem noteHealthy : row.noteHealthy.Live := by
  unfold HealthRow.noteHealthy
  refine ⟨live.going, unended_concat live.unended rfl, live.recovers.concat (by rintro _ ⟨⟩), live.honest.concat ?_,
    fun set => ?_, fun _ => ?_⟩
  · intro spent
    simp [kDegradedGraceAttempts] at spent
  · simpa using live.latch set
  · simp [kDegradedGraceAttempts]

theorem announceOnce (note : String) : (row.announceOnce note).Live := by
  have spent : ∀ report, ¬ kDegradedGraceAttempts ≤ failures (row.log ++ [.read report]) := by
    simp [kDegradedGraceAttempts]
  unfold HealthRow.announceOnce
  split
  next set =>
    refine ⟨live.going, unended_concat live.unended rfl, live.recovers.concat ?_,
      live.honest.concat (fun many => absurd many (spent _)), fun _ => degraded_read _ _, fun _ => ?_⟩
    · intro _ _ down
      rw [live.latch set] at down
      cases down
    · simp [kDegradedGraceAttempts]
  next =>
    refine ⟨live.going, unended_concat live.unended rfl, live.recovers.concat ?_,
      live.honest.concat (fun many => absurd many (spent _)), fun _ => degraded_read _ _, fun _ => ?_⟩
    · rintro _ ⟨⟩ _
      exact ⟨note, rfl⟩
    · simp [kDegradedGraceAttempts]

/-- A failed attempt within the grace. -/
private theorem held (few : row.failedAttempts + 1 < kDegradedGraceAttempts) :
    ({ row with failedAttempts := row.failedAttempts + 1, log := row.log ++ [.failed none] } : HealthRow).Live := by
  have same : saysConnected (row.log ++ [.failed none]) → saysConnected row.log := by
    rintro ⟨report, last, on⟩
    exact ⟨report, by simpa [HealthEvent.report] using last, on⟩
  refine ⟨live.going, unended_concat live.unended rfl, live.recovers.concat (by rintro _ ⟨⟩), live.honest.concat ?_,
    fun set => ?_, fun shown => ?_⟩
  · intro spent shown
    have counted := (live.grace (same shown)).1
    rw [failures_failed] at spent
    omega
  · simpa using live.latch set
  · have counted := (live.grace (same shown)).1
    rw [failures_failed]
    exact ⟨by dsimp only; omega, few⟩

/-- A reported degradation, which clears the latch. -/
private theorem degrade (why : String) (failedAttempts : Nat) :
    ({ row with failedAttempts, announced := false, log := row.log ++ [.failed (some (emitChatState false why))] } :
      HealthRow).Live := by
  have silent : ¬ saysConnected (row.log ++ [.failed (some (emitChatState false why))]) := by
    rintro ⟨report, last, on⟩
    simp only [lastReport_concat, HealthEvent.report, Option.some_or, Option.some.injEq] at last
    subst last
    cases on
  exact ⟨live.going, unended_concat live.unended rfl, live.recovers.concat (by rintro _ ⟨⟩),
    live.honest.concat fun _ => silent, nofun, fun shown => absurd shown silent⟩

theorem reportDegraded (why : String) (kind : Degradation) : (row.reportDegraded why kind).Live := by
  cases kind with
  | transient =>
    by_cases few : row.failedAttempts + 1 < kDegradedGraceAttempts
    · simpa only [HealthRow.reportDegraded, few, and_self, if_true] using live.held few
    · simpa only [HealthRow.reportDegraded, few, and_false, if_false] using live.degrade why _
  | sustained => simpa [HealthRow.reportDegraded] using live.degrade why _

theorem rearm : row.rearm.Live :=
  { live with latch := fun set => by cases set }

/-- A final report that does not say connected closes the history well. -/
private theorem finish {e : HealthEvent} {report : HealthReport} (own : e.report = some report)
    (off : report.connected = false) (other : ∀ r, e ≠ .read r) : Recovers (row.log ++ [e]) ∧ Honest (row.log ++ [e]) := by
  refine ⟨live.recovers.concat fun r same => absurd same (other r), live.honest.concat fun _ => ?_⟩
  rintro ⟨last, final, on⟩
  rw [lastReport_concat, own, Option.some_or, Option.some.injEq] at final
  rw [← final, off] at on
  cases on

theorem endSession (text : String) (health : Health) : (row.endSession text health).Ended := by
  obtain ⟨recovers, honest⟩ := live.finish (e := .ended (emitChatTerminal text health)) rfl rfl fun _ => nofun
  exact ⟨rfl, recovers, honest, _, _, rfl, live.unended⟩

end

end Live

/-- What is asked of a whole session's history: reads recover, connected is never the last word after
the grace, and the last event is the only final one. -/
structure Truthful (log : List HealthEvent) : Prop where
  recovers : Recovers log
  honest : Honest log
  final : ∃ xs last, log = xs ++ [last] ∧ last.isFinal = true ∧ ∀ e ∈ xs, e.isFinal = false

theorem Ended.truthful (ended : row.Ended) : Truthful row.log := by
  obtain ⟨xs, report, whole, unended⟩ := ended.final
  exact ⟨ended.recovers, ended.honest, xs, _, whole, rfl, unended⟩

/-- `connect` ends a session that goes on by the bookend, and adds nothing to an ended one. -/
theorem close_truthful (closed : row.Live ∨ row.Ended) : Truthful row.close.log := by
  unfold close
  rcases closed with live | ended
  · rw [live.going]
    obtain ⟨recovers, honest⟩ := live.finish (e := .bookend (emitChatState false "")) rfl rfl fun _ => nofun
    exact ⟨recovers, honest, _, _, rfl, rfl, live.unended⟩
  · rw [ended.closed]
    exact ended.truthful

end HealthRow

end Braidcast.Chat
