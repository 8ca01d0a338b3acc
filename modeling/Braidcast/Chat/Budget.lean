import Braidcast.Chat.ReadLoops
import Braidcast.OAuth.PacificDay
import Braidcast.Lib.Run
import Braidcast.Lib.Lists

/-!
# The day's allowance of charged chat reads

Any number of YouTube chat sessions share one counter. A session reserves a request
(`ChargeChatUnits`), passes the quota gate and sends; `SendAuthed` may send once more after a
refused token. Each of these is a step of its own, between the steps of the others.
-/
namespace Braidcast.Chat

open Lib OAuth YouTube

def kChatUnitCost : Int := 5

/-- The provider's counter, and the midnight its day ends at. -/
structure ChatBudget where
  chatDayEnd : Int
  chatUnitsSpent : Int

namespace ChatBudget

variable (b : ChatBudget) (budget now : Int)

/-- The first charge past midnight starts the day fresh. -/
def rolled : ChatBudget :=
  if now ≥ b.chatDayEnd then ⟨nextPacificMidnightUtc now, 0⟩ else b

/-- `ChargeChatUnits`. -/
def chargeChatUnits (units : Int) : ChatBudget × Bool :=
  let b := b.rolled now
  if units ≤ 0 ∨ b.chatUnitsSpent + units ≤ budget then ({ b with chatUnitsSpent := b.chatUnitsSpent + units }, true)
  else (b, false)

/-- `ChatBudgetExhausted`. -/
def chatBudgetExhausted : Bool :=
  if now ≥ b.chatDayEnd then false else b.chatUnitsSpent ≥ budget

end ChatBudget

inductive BilledRead
  | streamList
  | list
  deriving DecidableEq

/-- Where a session stands. `at` is the reading its reservation was charged at. -/
inductive SessionPhase
  /-- On the free read, or before the ladder. -/
  | walking
  | entering (read : BilledRead)
  | looping (read : BilledRead)
  | reserved (read : BilledRead) (charged : Int)
  | waiting (read : BilledRead) (charged : Int) (retried : Bool)
  /-- The first attempt was answered 401 and the token refreshed. -/
  | retrying (read : BilledRead) (charged : Int)
  | ended
  | finished
  deriving DecidableEq

/-- What the answer to a request holds, as far as the loops look at it. -/
structure Answer where
  status : Int
  reason : String
  offline : Bool
  /-- The connections that delivered nothing have reached `kStreamDeadStrikes`. -/
  dead : Bool
  /-- A forced refresh of the token succeeded. -/
  refreshed : Bool

/-- What a charged read goes on to after an answer that `SendAuthed` returned. -/
def afterAnswer (read : BilledRead) (answer : Answer) : SessionPhase :=
  if answer.status = 0 then .looping read
  else if answer.status = 401 then .ended
  else if answer.status = 403 ∨ answer.status = 429 then
    match classifyYouTubeError answer.status answer.reason with
    | .quotaExhausted | .rateLimited => .looping read
    | .other => .ended
  else
    match read with
    | .streamList =>
      if answer.status = 404 ∨ answer.status = 400 then .entering .list
      else if answer.status < 200 ∨ answer.status ≥ 300 then .looping read
      else if answer.offline then .ended
      else if answer.dead then .entering .list
      else .looping read
    | .list =>
      if answer.status = 404 then .ended
      else if answer.status < 200 ∨ answer.status ≥ 300 then .looping read
      else if answer.offline then .ended
      else .looping read

/-- `StreamProvider::SendAuthed` at an answer: a first 401 is retried once after a refresh. -/
def onAnswer (read : BilledRead) (charged : Int) (retried : Bool) (answer : Answer) : SessionPhase :=
  if answer.status = 401 ∧ retried = false ∧ answer.refreshed = true then .retrying read charged
  else afterAnswer read answer

inductive BudgetEvent
  | granted (i : Nat) (charged : Int)
  | refused (i : Nat)
  /-- A request went out, on the reservation charged at that reading. -/
  | sent (i : Nat) (time charged : Int)
  | terminal (i : Nat)

structure BudgetWorld where
  budget : Int
  clock : Int
  counter : ChatBudget
  sessions : List SessionPhase
  log : List BudgetEvent

inductive BudgetAct
  | tick (t : Int)
  | join
  | handOver (i : Nat) (read : BilledRead)
  | enter (i : Nat) (isPrivate : Bool)
  | charge (i : Nat)
  /-- The quota gate is closed at the request, which is not sent. -/
  | preflight (i : Nat)
  | send (i : Nat)
  | answer (i : Nat) (answer : Answer)
  | resend (i : Nat)
  | cancel (i : Nat)

namespace BudgetWorld

variable (w : BudgetWorld)

def goto (i : Nat) (phase : SessionPhase) : BudgetWorld :=
  { w with sessions := w.sessions.set i phase }

def note (e : BudgetEvent) : BudgetWorld :=
  { w with log := w.log ++ [e] }

/-- A session's ending is reported. -/
def settle (i : Nat) (phase : SessionPhase) : BudgetWorld :=
  if phase = .ended then (w.goto i phase).note (.terminal i) else w.goto i phase

end BudgetWorld

/-- A session can be canceled wherever it polls for it. -/
def SessionPhase.cancelable : SessionPhase → Bool
  | .walking | .entering _ | .looping _ | .waiting .. => true
  | .reserved .. | .retrying .. | .ended | .finished => false

inductive BudgetStep : BudgetWorld → BudgetAct → BudgetWorld → Prop
  | tick {w t} : w.clock ≤ t → BudgetStep w (.tick t) { w with clock := t }
  | join {w} : BudgetStep w .join { w with sessions := w.sessions ++ [.walking] }
  | handOver {w i read} : w.sessions[i]? = some .walking → BudgetStep w (.handOver i read) (w.goto i (.entering read))
  | shut {w i read isPrivate} : w.sessions[i]? = some (.entering read) →
      isPrivate = true ∨ w.counter.chatBudgetExhausted w.budget w.clock = true →
      BudgetStep w (.enter i isPrivate) (w.settle i .ended)
  | enter {w i read} : w.sessions[i]? = some (.entering read) →
      w.counter.chatBudgetExhausted w.budget w.clock = false → BudgetStep w (.enter i false) (w.goto i (.looping read))
  | grant {w i read counter} : w.sessions[i]? = some (.looping read) →
      w.counter.chargeChatUnits w.budget w.clock kChatUnitCost = (counter, true) →
      BudgetStep w (.charge i) (({ w with counter }.goto i (.reserved read w.clock)).note (.granted i w.clock))
  | refuse {w i read counter} : w.sessions[i]? = some (.looping read) →
      w.counter.chargeChatUnits w.budget w.clock kChatUnitCost = (counter, false) →
      BudgetStep w (.charge i) (({ w with counter }.note (.refused i)).settle i .ended)
  | preflight {w i read charged} : w.sessions[i]? = some (.reserved read charged) →
      BudgetStep w (.preflight i) (w.goto i (.looping read))
  | send {w i read charged} : w.sessions[i]? = some (.reserved read charged) →
      BudgetStep w (.send i) ((w.goto i (.waiting read charged false)).note (.sent i w.clock charged))
  | answer {w i read charged retried answer} : w.sessions[i]? = some (.waiting read charged retried) →
      BudgetStep w (.answer i answer) (w.settle i (onAnswer read charged retried answer))
  | resend {w i read charged} : w.sessions[i]? = some (.retrying read charged) →
      BudgetStep w (.resend i) ((w.goto i (.waiting read charged true)).note (.sent i w.clock charged))
  | cancel {w i phase} : w.sessions[i]? = some phase → phase.cancelable = true →
      BudgetStep w (.cancel i) (w.goto i .finished)

/-! ### What the log says -/

/-- The reservations granted, by session and reading. -/
def granted (log : List BudgetEvent) : List (Nat × Int) :=
  log.filterMap fun
    | .granted i charged => some (i, charged)
    | _ => none

/-- The reservations that requests went out on. -/
def used (log : List BudgetEvent) : List (Nat × Int) :=
  log.filterMap fun
    | .sent i _ charged => some (i, charged)
    | _ => none

/-- The instants requests went out at. -/
def sendTimes (log : List BudgetEvent) : List Int :=
  log.filterMap fun
    | .sent _ time _ => some time
    | _ => none

/-- The requests sent on the Pacific day that ends at `midnight`. -/
def sentOn (midnight : Int) (log : List BudgetEvent) : Nat :=
  (sendTimes log).countP (nextPacificMidnightUtc · = midnight)

/-- No request goes out but on a reservation of its session's own, made before. -/
def ReservedFirst (log : List BudgetEvent) : Prop :=
  ∀ xs, xs <+: log → ∀ i, (used xs).countP (·.1 = i) ≤ (granted xs).countP (·.1 = i)

/-- A refused session reports its ending at once and sends nothing more. -/
def RefusedEnds (log : List BudgetEvent) : Prop :=
  ∀ xs i ys, log = xs ++ .refused i :: ys → ys.head? = some (.terminal i) ∧ ∀ time charged, .sent i time charged ∉ ys

/-- The day's requests stay within the budget (none at all where it is below zero). -/
def WithinBudget (budget : Int) (log : List BudgetEvent) : Prop :=
  ∀ midnight, sentOn midnight log = 0 ∨ sentOn midnight log * kChatUnitCost ≤ budget

section Concat

variable (log : List BudgetEvent) (i : Nat) (time charged : Int)

@[simp] theorem granted_granted : granted (log ++ [.granted i charged]) = granted log ++ [(i, charged)] := by
  simp [granted]

@[simp] theorem granted_refused : granted (log ++ [.refused i]) = granted log := by simp [granted]

@[simp] theorem granted_sent : granted (log ++ [.sent i time charged]) = granted log := by simp [granted]

@[simp] theorem granted_terminal : granted (log ++ [.terminal i]) = granted log := by simp [granted]

@[simp] theorem used_granted : used (log ++ [.granted i charged]) = used log := by simp [used]

@[simp] theorem used_refused : used (log ++ [.refused i]) = used log := by simp [used]

@[simp] theorem used_sent : used (log ++ [.sent i time charged]) = used log ++ [(i, charged)] := by simp [used]

@[simp] theorem used_terminal : used (log ++ [.terminal i]) = used log := by simp [used]

end Concat

theorem ReservedFirst.concat {log : List BudgetEvent} {e : BudgetEvent} (first : ReservedFirst log)
    (last : (used (log ++ [e])).Subperm (granted (log ++ [e]))) : ReservedFirst (log ++ [e]) := by
  intro xs front i
  rcases List.prefix_concat_iff.mp front with rfl | earlier
  · exact last.countP_le _
  · exact first xs earlier i

/-- The reading a request not sent yet was reserved at. -/
def SessionPhase.reservedAt : SessionPhase → Option Int
  | .reserved _ charged => some charged
  | _ => none

namespace BudgetWorld

variable {w : BudgetWorld} {i : Nat} {phase old : SessionPhase}

/-- A session's reservation that no request has gone out on. -/
def pending (w : BudgetWorld) (i : Nat) (charged : Int) : Nat :=
  if w.sessions[i]?.bind SessionPhase.reservedAt = some charged then 1 else 0

theorem pending_goto (there : w.sessions[i]? = some old) (phase : SessionPhase) (j : Nat) (charged : Int) :
    (w.goto i phase).pending j charged =
      if i = j then (if phase.reservedAt = some charged then 1 else 0) else w.pending j charged := by
  unfold pending goto
  dsimp only
  by_cases same : i = j
  · subst same
    rw [List.getElem?_set_self (List.getElem?_eq_some_iff.mp there).1, if_pos rfl]
    rfl
  · rw [List.getElem?_set_ne same, if_neg same]

/-- Every request so far went out on a reservation of its own, and so will the ones reserved now. -/
structure Covered (w : BudgetWorld) : Prop where
  ledger : ∀ i charged, (used w.log).count (i, charged) + w.pending i charged ≤ (granted w.log).count (i, charged)
  first : ReservedFirst w.log

namespace Covered

section

variable (covered : w.Covered)
include covered

theorem subperm : (used w.log).Subperm (granted w.log) := by
  rw [List.subperm_ext_iff]
  rintro ⟨i, charged⟩ _
  exact (Nat.le_add_right _ _).trans (covered.ledger i charged)

/-- One more event, where the ledger holds with it. -/
theorem concat {e : BudgetEvent} (sessions : List SessionPhase)
    (ledger : ∀ i charged, (used (w.log ++ [e])).count (i, charged) + ({ w with sessions } : BudgetWorld).pending i charged ≤
      (granted (w.log ++ [e])).count (i, charged)) : ({ w with sessions }.note e : BudgetWorld).Covered := by
  refine ⟨ledger, covered.first.concat ?_⟩
  rw [List.subperm_ext_iff]
  rintro ⟨i, charged⟩ _
  exact (Nat.le_add_right _ _).trans (ledger i charged)

/-- A move to a phase without a reservation. -/
theorem goto (there : w.sessions[i]? = some old) (unreserved : phase.reservedAt = none) :
    (w.goto i phase).Covered := by
  refine ⟨fun j charged => ?_, covered.first⟩
  have before := covered.ledger j charged
  rw [pending_goto there, unreserved]
  change (used w.log).count (j, charged) + _ ≤ (granted w.log).count (j, charged)
  split
  · simp only [reduceCtorEq, if_false]
    omega
  · exact before

/-- An event that neither reserves nor sends. -/
theorem note {e : BudgetEvent} (grants : granted (w.log ++ [e]) = granted w.log)
    (sends : used (w.log ++ [e]) = used w.log) : (w.note e).Covered :=
  covered.concat w.sessions fun i charged => by
    rw [grants, sends]
    exact covered.ledger i charged

theorem settle (there : w.sessions[i]? = some old) (unreserved : phase.reservedAt = none) :
    (w.settle i phase).Covered := by
  unfold BudgetWorld.settle
  split
  · exact (covered.goto there unreserved).note (granted_terminal _ _) (used_terminal _ _)
  · exact covered.goto there unreserved

theorem grant {read : BilledRead} {charged : Int} (there : w.sessions[i]? = some (.looping read)) :
    ((w.goto i (.reserved read charged)).note (.granted i charged)).Covered := by
  refine covered.concat _ fun j c => ?_
  have before := covered.ledger j c
  have moved := pending_goto there (.reserved read charged) j c
  unfold BudgetWorld.goto at moved
  rw [moved, used_granted, granted_granted, List.count_append, List.count_singleton]
  unfold pending at before ⊢
  by_cases same : i = j
  · subst same
    rw [there] at before
    by_cases now : charged = c
    · subst now
      simpa [SessionPhase.reservedAt] using before
    · simpa [SessionPhase.reservedAt, now] using before
  · simpa [same] using before

theorem send {read : BilledRead} {charged : Int} (there : w.sessions[i]? = some (.reserved read charged))
    (time : Int) : ((w.goto i (.waiting read charged false)).note (.sent i time charged)).Covered := by
  refine covered.concat _ fun j c => ?_
  have before := covered.ledger j c
  have moved := pending_goto there (.waiting read charged false) j c
  unfold BudgetWorld.goto at moved
  rw [moved, used_sent, granted_sent, List.count_append, List.count_singleton]
  unfold pending at before ⊢
  by_cases same : i = j
  · subst same
    rw [there] at before
    by_cases now : charged = c
    · subst now
      simpa [SessionPhase.reservedAt] using before
    · simpa [SessionPhase.reservedAt, now] using before
  · simpa [same] using before

end

end Covered

/-- The reservations of the Pacific day that ends at `midnight`. -/
def grantedOn (midnight : Int) (log : List BudgetEvent) : Nat :=
  (granted log).countP (nextPacificMidnightUtc ·.2 = midnight)

/-- The counter counts the reservations of its day, and no day has more than the budget buys. -/
structure Counted (w : BudgetWorld) : Prop where
  clock : 0 ≤ w.clock
  day : w.counter.chatDayEnd = 0 ∨ ∃ t, 0 ≤ t ∧ t ≤ w.clock ∧ w.counter.chatDayEnd = nextPacificMidnightUtc t
  past : ∀ g ∈ granted w.log, nextPacificMidnightUtc g.2 ≤ w.counter.chatDayEnd
  spent : w.counter.chatUnitsSpent = grantedOn w.counter.chatDayEnd w.log * kChatUnitCost
  bound : ∀ midnight, grantedOn midnight w.log = 0 ∨ grantedOn midnight w.log * kChatUnitCost ≤ w.budget

namespace Counted

/-- A step that reserves nothing. -/
theorem frame {w' : BudgetWorld} (counted : w.Counted) (budget : w'.budget = w.budget) (clock : w.clock ≤ w'.clock)
    (counter : w'.counter = w.counter) (grants : granted w'.log = granted w.log) : w'.Counted := by
  refine ⟨counted.clock.trans clock, ?_, ?_, ?_, ?_⟩
  · rw [counter]
    exact counted.day.imp_right fun ⟨t, pos, before, same⟩ => ⟨t, pos, before.trans clock, same⟩
  · rw [counter, grants]
    exact counted.past
  · rw [counter, grantedOn, grants]
    exact counted.spent
  · intro midnight
    rw [grantedOn, grants, budget]
    exact counted.bound midnight

/-- After the roll the counter stands for the day of the reading. -/
theorem rolled (counted : w.Counted) :
    ({ w with counter := w.counter.rolled w.clock } : BudgetWorld).Counted ∧
      (w.counter.rolled w.clock).chatDayEnd = nextPacificMidnightUtc w.clock := by
  unfold ChatBudget.rolled
  split
  next beyond =>
    have ahead := lt_nextPacificMidnightUtc counted.clock
    have none : grantedOn (nextPacificMidnightUtc w.clock) w.log = 0 := by
      rw [grantedOn, List.countP_eq_zero]
      intro g member same
      have before := counted.past g member
      rw [of_decide_eq_true same] at before
      omega
    refine ⟨⟨counted.clock, .inr ⟨_, counted.clock, le_refl _, rfl⟩, fun g member => ?_, ?_, counted.bound⟩, rfl⟩
    · exact (counted.past g member).trans (le_of_lt (lt_of_le_of_lt beyond ahead))
    · dsimp only
      rw [none]
      rfl
  next within =>
    refine ⟨counted, ?_⟩
    rcases counted.day with start | ⟨t, pos, before, same⟩
    · have clock := counted.clock
      omega
    · rw [same] at within ⊢
      exact (nextPacificMidnightUtc_stable pos before (not_le.mp within)).symm

theorem refuse {counter : ChatBudget} (counted : w.Counted)
    (charge : w.counter.chargeChatUnits w.budget w.clock kChatUnitCost = (counter, false)) :
    ({ w with counter } : BudgetWorld).Counted := by
  unfold ChatBudget.chargeChatUnits at charge
  dsimp only at charge
  split at charge
  · cases charge
  · cases charge
    exact counted.rolled.1

theorem grant {counter : ChatBudget} (counted : w.Counted)
    (charge : w.counter.chargeChatUnits w.budget w.clock kChatUnitCost = (counter, true)) (i : Nat) :
    ({ w with counter, log := w.log ++ [.granted i w.clock] } : BudgetWorld).Counted := by
  obtain ⟨rolled, today⟩ := counted.rolled
  unfold ChatBudget.chargeChatUnits at charge
  dsimp only at charge
  split at charge
  next room =>
    cases charge
    have room : (w.counter.rolled w.clock).chatUnitsSpent + kChatUnitCost ≤ w.budget := by
      simpa [kChatUnitCost] using room
    have spent := rolled.spent
    dsimp only at spent
    have counts : ∀ midnight, grantedOn midnight (w.log ++ [.granted i w.clock]) =
        grantedOn midnight w.log + if nextPacificMidnightUtc w.clock = midnight then 1 else 0 := by
      intro midnight
      simp [grantedOn]
    refine ⟨counted.clock, rolled.day, ?_, ?_, ?_⟩
    · intro g member
      simp only [granted_granted, List.mem_append, List.mem_singleton] at member
      rcases member with old | rfl
      · exact rolled.past g old
      · exact today.ge
    · dsimp only
      rw [counts, today, if_pos rfl, spent, today]
      push_cast
      rw [add_mul, one_mul]
    · intro midnight
      dsimp only
      rw [counts]
      by_cases same : nextPacificMidnightUtc w.clock = midnight
      · right
        rw [if_pos same, ← same, ← today]
        push_cast
        rw [add_mul, one_mul, ← spent]
        exact room
      · rw [if_neg same]
        exact counted.bound midnight
  next => cases charge

end Counted

end BudgetWorld

theorem RefusedEnds.append {log zs : List BudgetEvent} (ends : RefusedEnds log) (own : RefusedEnds zs)
    (later : ∀ i, .refused i ∈ log → ∀ time charged, .sent i time charged ∉ zs) : RefusedEnds (log ++ zs) := by
  intro xs i ys whole
  rcases List.append_eq_append_iff.mp whole with ⟨as, -, tail⟩ | ⟨bs, front, tail⟩
  · exact own as i ys tail
  · cases bs with
    | nil => exact own [] i ys tail.symm
    | cons b bs =>
      rw [List.cons_append, List.cons.injEq] at tail
      obtain ⟨rfl, rfl⟩ := tail
      obtain ⟨first, silent⟩ := ends xs i bs front
      refine ⟨by rw [List.head?_append, first]; rfl, fun time charged member => ?_⟩
      rcases List.mem_append.mp member with old | new
      · exact silent time charged old
      · exact later i (by rw [front]; simp) time charged new

theorem refusedEnds_single {e : BudgetEvent} (other : ∀ i, e ≠ .refused i) : RefusedEnds [e] := by
  intro xs i ys whole
  have member : BudgetEvent.refused i ∈ [e] := by
    rw [whole]
    simp
  exact absurd (List.mem_singleton.mp member).symm (other i)

theorem refusedEnds_refused (i : Nat) : RefusedEnds [.refused i, .terminal i] := by
  intro xs j ys whole
  match xs with
  | [] =>
    cases whole
    exact ⟨rfl, by simp⟩
  | [x] => cases whole
  | x :: y :: xs =>
    rw [List.cons_append, List.cons_append, List.cons.injEq, List.cons.injEq] at whole
    exact absurd whole.2.2.symm (by simp)

namespace BudgetWorld

variable {w w' : BudgetWorld} {i : Nat} {phase old : SessionPhase} {act : BudgetAct}

/-- A refused session has ended. -/
structure Stopped (w : BudgetWorld) : Prop where
  ends : RefusedEnds w.log
  gone : ∀ i, .refused i ∈ w.log → w.sessions[i]? = some .ended

namespace Stopped

section

variable (stopped : w.Stopped)
include stopped

/-- A session that goes on was never refused. -/
theorem unrefused (there : w.sessions[i]? = some old) (going : old ≠ .ended) : .refused i ∉ w.log := by
  intro refused
  have gone := stopped.gone i refused
  rw [there] at gone
  exact going (Option.some.inj gone)

theorem goto (there : w.sessions[i]? = some old) (going : old ≠ .ended) (phase : SessionPhase) :
    (w.goto i phase).Stopped := by
  refine ⟨stopped.ends, fun j refused => ?_⟩
  have other : i ≠ j := by
    rintro rfl
    exact stopped.unrefused there going refused
  change (w.sessions.set i phase)[j]? = some .ended
  rw [List.getElem?_set_ne other]
  exact stopped.gone j refused

theorem note {e : BudgetEvent} (other : ∀ i, e ≠ .refused i)
    (sender : ∀ i time charged, e = .sent i time charged → .refused i ∉ w.log) : (w.note e).Stopped := by
  refine ⟨stopped.ends.append (refusedEnds_single other) fun j refused time charged member => ?_, fun j refused => ?_⟩
  · exact sender j time charged (List.mem_singleton.mp member).symm refused
  · rcases List.mem_append.mp refused with before | now
    · exact stopped.gone j before
    · exact absurd (List.mem_singleton.mp now).symm (other j)

theorem settle (there : w.sessions[i]? = some old) (going : old ≠ .ended) (phase : SessionPhase) :
    (w.settle i phase).Stopped := by
  unfold BudgetWorld.settle
  split
  · exact (stopped.goto there going phase).note nofun nofun
  · exact stopped.goto there going phase

theorem refuse (there : w.sessions[i]? = some old) : ((w.note (.refused i)).settle i .ended).Stopped := by
  have log : ((w.note (.refused i)).settle i .ended).log = w.log ++ [.refused i, .terminal i] := by
    simp [BudgetWorld.settle, BudgetWorld.note, BudgetWorld.goto]
  refine ⟨?_, fun j refused => ?_⟩
  · rw [log]
    exact stopped.ends.append (refusedEnds_refused i) (by simp)
  · rw [log] at refused
    change (w.sessions.set i .ended)[j]? = some .ended
    by_cases same : i = j
    · subst same
      exact List.getElem?_set_self (List.getElem?_eq_some_iff.mp there).1
    · rw [List.getElem?_set_ne same]
      refine stopped.gone j ?_
      simpa [Ne.symm same] using refused

end

end Stopped

/-- No request of the log went out past the midnight its reservation was made before. -/
def Punctual (w : BudgetWorld) : Prop :=
  ∀ i time charged, .sent i time charged ∈ w.log → nextPacificMidnightUtc time = nextPacificMidnightUtc charged

/-- `SendAuthed` does not send a request a second time. -/
def NotResent (m : Moment BudgetWorld BudgetAct) : Prop :=
  ∀ i, m.input ≠ .resend i

/-- A request goes out on the Pacific day its reservation was charged on. -/
def SameDay (m : Moment BudgetWorld BudgetAct) : Prop :=
  ∀ i read charged, m.input = .send i → m.before.sessions[i]? = some (.reserved read charged) →
    nextPacificMidnightUtc m.before.clock = nextPacificMidnightUtc charged

/-- What every step of a run under the two conditions keeps. -/
structure Sound (w : BudgetWorld) : Prop where
  covered : w.Covered
  counted : w.Counted
  stopped : w.Stopped
  punctual : w.Punctual

theorem Punctual.log (punctual : w.Punctual) {e : BudgetEvent} (log : w'.log = w.log ++ [e])
    (last : ∀ i time charged, e = .sent i time charged → nextPacificMidnightUtc time = nextPacificMidnightUtc charged) :
    w'.Punctual := by
  intro i time charged member
  rw [log] at member
  rcases List.mem_append.mp member with before | now
  · exact punctual i time charged before
  · exact last i time charged (List.mem_singleton.mp now).symm

namespace Sound

/-- A move that reserves and sends nothing. -/
theorem goto (sound : w.Sound) (there : w.sessions[i]? = some old) (going : old ≠ .ended) (unreserved : phase.reservedAt = none) :
    (w.goto i phase).Sound :=
  ⟨sound.covered.goto there unreserved, sound.counted.frame rfl (le_refl _) rfl rfl, sound.stopped.goto there going phase,
    sound.punctual⟩

theorem settle (sound : w.Sound) (there : w.sessions[i]? = some old) (going : old ≠ .ended) (unreserved : phase.reservedAt = none) :
    (w.settle i phase).Sound := by
  refine ⟨sound.covered.settle there unreserved, ?_, sound.stopped.settle there going phase, ?_⟩
  · unfold BudgetWorld.settle
    split
    · exact sound.counted.frame rfl (le_refl _) rfl (granted_terminal _ _)
    · exact sound.counted.frame rfl (le_refl _) rfl rfl
  · unfold BudgetWorld.settle
    split
    · exact sound.punctual.log rfl nofun
    · exact sound.punctual

theorem join (sound : w.Sound) : ({ w with sessions := w.sessions ++ [.walking] } : BudgetWorld).Sound := by
  refine ⟨⟨fun j charged => ?_, sound.covered.first⟩, sound.counted.frame rfl (le_refl _) rfl rfl,
    ⟨sound.stopped.ends, fun j refused => getElem?_append_old (sound.stopped.gone j refused)⟩, sound.punctual⟩
  refine le_trans ?_ (sound.covered.ledger j charged)
  unfold pending
  dsimp only
  cases there : (w.sessions ++ [SessionPhase.walking])[j]? with
  | none => simp
  | some phase =>
    rcases getElem?_append_new there with old | ⟨-, rfl⟩
    · rw [old]
    · simp [SessionPhase.reservedAt]

theorem onAnswer_unreserved (read : BilledRead) (charged : Int) (retried : Bool) (answer : Answer) :
    (onAnswer read charged retried answer).reservedAt = none := by
  unfold onAnswer afterAnswer
  repeat' split
  all_goals rfl

theorem step (sound : w.Sound) (once : NotResent ⟨w, act, w'⟩) (today : SameDay ⟨w, act, w'⟩) (taken : BudgetStep w act w') :
    w'.Sound := by
  cases taken with
  | tick later => exact ⟨⟨sound.covered.ledger, sound.covered.first⟩, sound.counted.frame rfl later rfl rfl,
      ⟨sound.stopped.ends, sound.stopped.gone⟩, sound.punctual⟩
  | join => exact sound.join
  | handOver there => exact sound.goto there nofun rfl
  | shut there => exact sound.settle there nofun rfl
  | enter there => exact sound.goto there nofun rfl
  | @grant i read counter there charge =>
    have covered : ({ w with counter } : BudgetWorld).Covered := ⟨sound.covered.ledger, sound.covered.first⟩
    have stopped : ({ w with counter } : BudgetWorld).Stopped := ⟨sound.stopped.ends, sound.stopped.gone⟩
    exact ⟨covered.grant there, (sound.counted.grant charge i).frame rfl (le_refl _) rfl rfl,
      (stopped.goto there nofun _).note nofun nofun, sound.punctual.log rfl nofun⟩
  | @refuse i read counter there charge =>
    have covered : ({ w with counter } : BudgetWorld).Covered := ⟨sound.covered.ledger, sound.covered.first⟩
    have stopped : ({ w with counter } : BudgetWorld).Stopped := ⟨sound.stopped.ends, sound.stopped.gone⟩
    refine ⟨(covered.note (granted_refused _ _) (used_refused _ _)).settle there rfl,
      (sound.counted.refuse charge).frame rfl (le_refl _) rfl ?_, stopped.refuse there, ?_⟩
    · exact (granted_terminal _ _).trans (granted_refused _ _)
    · have refused : ({ w with counter }.note (.refused i) : BudgetWorld).Punctual := sound.punctual.log rfl nofun
      exact refused.log rfl nofun
  | preflight there => exact sound.goto there nofun rfl
  | send there =>
    refine ⟨sound.covered.send there _, sound.counted.frame rfl (le_refl _) rfl (granted_sent _ _ _ _),
      (sound.stopped.goto there nofun _).note nofun ?_, sound.punctual.log rfl ?_⟩
    · rintro _ _ _ ⟨⟩
      exact sound.stopped.unrefused there nofun
    · rintro _ _ _ ⟨⟩
      exact today _ _ _ rfl there
  | answer there => exact sound.settle there nofun (onAnswer_unreserved _ _ _ _)
  | resend => exact absurd rfl (once _)
  | cancel there stops =>
    refine sound.goto there ?_ rfl
    rintro rfl
    cases stops

end Sound

/-- The process has just started: nothing is charged, no session is past its free read. -/
structure Fresh (w : BudgetWorld) : Prop where
  clock : 0 ≤ w.clock
  counter : w.counter = ⟨0, 0⟩
  walking : ∀ phase ∈ w.sessions, phase = .walking
  log : w.log = []

theorem Fresh.sound (fresh : w.Fresh) : w.Sound := by
  have log := fresh.log
  refine ⟨⟨fun i charged => ?_, ?_⟩, ⟨fresh.clock, .inl (by rw [fresh.counter]), ?_, ?_, ?_⟩, ⟨?_, ?_⟩, ?_⟩
  · have none : w.pending i charged = 0 := by
      unfold pending
      cases there : w.sessions[i]? with
      | none => rfl
      | some phase =>
        rw [fresh.walking phase (List.mem_of_getElem? there)]
        rfl
    rw [log, none]
    exact le_refl _
  · intro xs front
    rw [log, List.prefix_nil] at front
    subst front
    exact fun i => le_refl _
  · rw [log]
    exact fun g member => absurd member List.not_mem_nil
  · rw [log, fresh.counter]
    rfl
  · rw [log]
    exact fun midnight => .inl rfl
  · rw [log]
    exact fun xs i ys whole => absurd whole.symm (by simp)
  · rw [log]
    exact fun i refused => absurd refused List.not_mem_nil
  · intro i time charged member
    rw [log] at member
    cases member

/-- The charged reads stay inside the allowance, are reserved first, and end on a refusal. -/
structure Contained (w : BudgetWorld) : Prop where
  within : WithinBudget w.budget w.log
  reserved : ReservedFirst w.log
  ends : RefusedEnds w.log

/-- On the days of their reservations the requests are no more than those. -/
theorem Sound.sentOn_le (sound : w.Sound) (midnight : Int) : sentOn midnight w.log ≤ grantedOn midnight w.log := by
  have days : ∀ log : List BudgetEvent,
      (∀ i time charged, .sent i time charged ∈ log → nextPacificMidnightUtc time = nextPacificMidnightUtc charged) →
      sentOn midnight log = (used log).countP (nextPacificMidnightUtc ·.2 = midnight) := by
    intro log
    induction log with
    | nil => exact fun _ => rfl
    | cons e log ih =>
      intro punctual
      have rest := ih fun i time charged member => punctual i time charged (List.mem_cons_of_mem _ member)
      cases e with
      | granted | refused | terminal => exact rest
      | sent i time charged =>
        have same := punctual i time charged List.mem_cons_self
        unfold sentOn at rest ⊢
        simp only [sendTimes, used, List.filterMap_cons, List.countP_cons, same] at rest ⊢
        rw [rest]
  rw [days w.log sound.punctual]
  exact sound.covered.subperm.countP_le _

theorem Sound.contained (sound : w.Sound) : w.Contained := by
  refine ⟨fun midnight => ?_, sound.covered.first, sound.stopped.ends⟩
  have fewer := sound.sentOn_le midnight
  rcases sound.counted.bound midnight with none | within
  · exact .inl (by omega)
  · right
    unfold kChatUnitCost at within ⊢
    omega

theorem chat_reads_contained {w₀ : BudgetWorld} {ms : List (Moment BudgetWorld BudgetAct)} (run : Run BudgetStep w₀ ms w)
    (fresh : w₀.Fresh) (once : ∀ m ∈ ms, NotResent m) (today : ∀ m ∈ ms, SameDay m) : w.Contained :=
  (run.invariant (P := Sound) (Q := fun m => NotResent m ∧ SameDay m) (fun _ ok taken sound => sound.step ok.1 ok.2 taken)
    (fun m member => ⟨once m member, today m member⟩) fresh.sound).1.contained

/-- A budget of one request. -/
def oneRequest (sessions : Nat) : BudgetWorld :=
  ⟨5, 1793534400, ⟨0, 0⟩, List.replicate sessions .walking, []⟩

theorem oneRequest_fresh (sessions : Nat) : (oneRequest sessions).Fresh :=
  ⟨by simp [oneRequest], rfl, fun _ member => List.eq_of_mem_replicate member, rfl⟩

def unauthorized : Answer := ⟨401, "", false, false, true⟩

/-- The request is refused for its token, and sent again on the same reservation. -/
theorem not_chat_reads_contained : ¬ ∀ (w₀ : BudgetWorld) ms w, Run BudgetStep w₀ ms w → w₀.Fresh → w.Contained := by
  intro always
  have run : Run BudgetStep (oneRequest 1) _ _ :=
    .cons (.handOver rfl : BudgetStep _ (.handOver 0 .streamList) _) <|
    .cons (.enter rfl (by decide) : BudgetStep _ (.enter 0 false) _) <|
    .cons (.grant rfl rfl : BudgetStep _ (.charge 0) _) <|
    .cons (.send rfl : BudgetStep _ (.send 0) _) <|
    .cons (.answer rfl : BudgetStep _ (.answer 0 unauthorized) _) <|
    .cons (.resend rfl : BudgetStep _ (.resend 0) _) <| .nil _
  have within := (always _ _ _ run (oneRequest_fresh 1)).within 1793606400
  revert within
  decide

/-- Without any second attempt: the first session reserves before midnight and sends after it, on a
day whose budget the second session has spent. -/
theorem not_contained_past_midnight :
    ∃ ms w, Run BudgetStep (oneRequest 2) ms w ∧ (∀ m ∈ ms, NotResent m) ∧ ¬ w.Contained := by
  have run : Run BudgetStep (oneRequest 2) _ _ :=
    .cons (.handOver rfl : BudgetStep _ (.handOver 0 .streamList) _) <|
    .cons (.enter rfl (by decide) : BudgetStep _ (.enter 0 false) _) <|
    .cons (.grant rfl rfl : BudgetStep _ (.charge 0) _) <|
    .cons (.tick (by decide) : BudgetStep _ (.tick 1793606400) _) <|
    .cons (.handOver rfl : BudgetStep _ (.handOver 1 .streamList) _) <|
    .cons (.enter rfl (by decide) : BudgetStep _ (.enter 1 false) _) <|
    .cons (.grant rfl rfl : BudgetStep _ (.charge 1) _) <|
    .cons (.send rfl : BudgetStep _ (.send 1) _) <|
    .cons (.send rfl : BudgetStep _ (.send 0) _) <| .nil _
  refine ⟨_, _, run, by simp [NotResent], fun contained => ?_⟩
  have within := contained.within (nextPacificMidnightUtc 1793606400)
  revert within
  decide

/-- One session, one request on its reservation, and a refusal at the next. -/
theorem chat_reads_contained_once :
    ∃ ms w, Run BudgetStep (oneRequest 1) ms w ∧ w.Contained ∧ w.log.length = 4 := by
  have run : Run BudgetStep (oneRequest 1) _ _ :=
    .cons (.handOver rfl : BudgetStep _ (.handOver 0 .streamList) _) <|
    .cons (.enter rfl (by decide) : BudgetStep _ (.enter 0 false) _) <|
    .cons (.grant rfl rfl : BudgetStep _ (.charge 0) _) <|
    .cons (.send rfl : BudgetStep _ (.send 0) _) <|
    .cons (.answer rfl : BudgetStep _ (.answer 0 ⟨200, "", false, false, false⟩) _) <|
    .cons (.refuse rfl rfl : BudgetStep _ (.charge 0) _) <| .nil _
  refine ⟨_, _, run, chat_reads_contained run (oneRequest_fresh 1) (by simp [NotResent]) ?_, by decide⟩
  intro m member i read charged sends there
  simp only [List.mem_cons, List.not_mem_nil, or_false] at member
  rcases member with rfl | rfl | rfl | rfl | rfl | rfl
  case inr.inr.inr.inl =>
    cases sends
    cases there
    rfl
  all_goals cases sends

end BudgetWorld

end Braidcast.Chat
