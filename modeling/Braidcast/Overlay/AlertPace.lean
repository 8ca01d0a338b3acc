import Braidcast.Lib.Run
import Braidcast.Overlay.AlertBox
import Mathlib.Data.Rat.Floor

/-!
# The pace of a burst

The burst on the deck of `default-alertbox/template.js` as its timer sees it, in exact milliseconds:
how many events it holds, which card is in front since when, and what the timer does next and when.
The fields do not change while it is on the deck.
-/
namespace Braidcast.Overlay

open Lib

def BURST_EXTRA_MS : ℚ := 8000
def CARD_FLOOR_MS : ℚ := 350
def HIDE_MS : ℚ := 360

/-- The fields the pace reads, in seconds; `none` where one is missing or no number. -/
structure PaceFields where
  duration : Option ℚ
  cardInterval : Option ℚ

namespace PaceFields

variable (f : PaceFields)

def seconds (v : Option ℚ) (byDefault : ℚ) : ℚ :=
  match v with
  | some v => if 0 ≤ v then v else byDefault
  | none => byDefault

def durationMs : ℚ :=
  match f.duration with
  | some v => (if v = 0 then 5 else v) * 1000
  | none => 5 * 1000

def intervalMs : ℚ :=
  let interval := seconds f.cardInterval 1
  max CARD_FLOOR_MS ((if interval = 0 then 1 else interval) * 1000)

end PaceFields

structure PacedBurst where
  /-- How many events it holds. -/
  events : Nat
  startAt : ℚ
  front : Nat
  frontAt : ℚ
  summaryFrom : Int
  leaving : Bool

namespace PacedBurst

variable (b : PacedBurst)

/-- Up to when the cards before the last may take. -/
def budget : ℚ := b.startAt + BURST_EXTRA_MS

def cardCount : Int := if 0 ≤ b.summaryFrom then b.summaryFrom + 1 else b.events

/-- How many cards are behind the front one. -/
def toGo : Int := b.cardCount - 1 - b.front

def atLast : Bool := b.toGo ≤ 0

/-- What the budget left when the front card came to the front. -/
def left : ℚ := max 0 (b.budget - b.frontAt)

/-- How many cards fit behind the front one at the shortest hold. -/
def fit : Int := max 1 ⌊b.left / CARD_FLOOR_MS⌋

/-- The burst is cut to the cards that fit. -/
def cut : PacedBurst := { b with summaryFrom := b.front + b.fit }

/-- Even the shortest hold does not fit the cards behind the front one, and a "+N more" card stands for enough of them. -/
def cuts : Bool :=
  !b.atLast && b.left / b.toGo < CARD_FLOOR_MS && b.summaryFrom < 0 && MIN_SUMMARIZED ≤ b.events - (b.front + b.fit)

def holdMs (f : PaceFields) : PacedBurst × ℚ :=
  if b.atLast then (b, f.durationMs)
  else if CARD_FLOOR_MS ≤ b.left / b.toGo then (b, min f.intervalMs (b.left / b.toGo))
  else if b.summaryFrom < 0 ∧ MIN_SUMMARIZED ≤ b.events - (b.front + b.fit) then (b.cut, CARD_FLOOR_MS)
  else (b, CARD_FLOOR_MS)

/-- `waiting` bursts wait; the event is of this burst's group, with bursts turned on, or it is not. -/
def canJoin (waiting : Nat) (grouped : Bool) (now : ℚ) : Bool :=
  waiting = 0 && grouped && !b.leaving && (0 ≤ b.summaryFrom || now < b.budget)

end PacedBurst

/-- The burst, the time of the last step and what the timer does next. -/
structure PacedDeck where
  burst : PacedBurst
  now : ℚ
  step : DeckStep
  due : ℚ

inductive PaceInput
  | event (waiting : Nat) (grouped : Bool) (now : ℚ)
  | fire

namespace PacedDeck

variable (f : PaceFields) (d : PacedDeck)

/-- `setStep` for the card in front. -/
def plan (b : PacedBurst) (now : ℚ) : PacedDeck :=
  let (b, hold) := b.holdMs f
  ⟨b, now, if b.atLast then .leave else .advance, now + max 0 (b.frontAt + hold - now)⟩

/-- A burst that waited comes to the deck. -/
def next (events : Nat) (summaryFrom : Int) (now : ℚ) : PacedDeck := plan f ⟨events, now, 0, now, summaryFrom, false⟩ now

def onEvent (waiting : Nat) (grouped : Bool) (now : ℚ) : PacedDeck :=
  if d.burst.canJoin waiting grouped now then plan f { d.burst with events := d.burst.events + 1 } now
  else { d with now := now }

/-- The timer's step, on time; `none` where the burst is gone. -/
def fire : Option PacedDeck :=
  match d.step with
  | .advance => some (plan f { d.burst with front := d.burst.front + 1, frontAt := d.due } d.due)
  | .leave => some ⟨{ d.burst with leaving := true }, d.due, .next, d.due + HIDE_MS⟩
  | .next => none

/-- An event comes before the timer's step that is due. -/
def react : PaceInput → Option PacedDeck
  | .event waiting grouped now => if d.now ≤ now ∧ now ≤ d.due then some (d.onEvent f waiting grouped now) else none
  | .fire => d.fire f

end PacedDeck

end Braidcast.Overlay

/-!
## How long a burst takes

The card in front and those behind it are counted against the budget from when the front card came
to the front. An event that joins later than that finds a budget that is partly spent already.
-/
namespace Braidcast.Overlay

open Lib

namespace PacedBurst

variable {b b' : PacedBurst} {f : PaceFields} {now t : ℚ}

theorem floor_pos : (0 : ℚ) < CARD_FLOOR_MS := by decide +kernel

theorem floor_le_interval : CARD_FLOOR_MS ≤ f.intervalMs := le_max_left ..

theorem left_eq (early : b.frontAt ≤ b.budget) : b.left = b.budget - b.frontAt := max_eq_right (sub_nonneg.mpr early)

theorem one_le_fit : 1 ≤ b.fit := le_max_left ..

/-- The cards that fit do fit, but for the one that is always kept. -/
theorem fit_cases : b.fit = 1 ∨ CARD_FLOOR_MS * b.fit ≤ b.left := by
  unfold fit
  rcases le_total ⌊b.left / CARD_FLOOR_MS⌋ 1 with few | many
  · exact .inl (max_eq_left few)
  · right
    rw [max_eq_right many, mul_comm, ← le_div_iff₀ floor_pos]
    exact Int.floor_le _

theorem toGo_pos (more : b.atLast = false) : 1 ≤ b.toGo := by
  unfold atLast at more
  rw [decide_eq_false_iff_not] at more
  omega

theorem toGo_pos' (more : b.atLast = false) : (1 : ℚ) ≤ b.toGo := by exact_mod_cast toGo_pos more

/-- What a plan finds: the last card in front, cards that fit, a burst it cuts, or too little time for few cards. -/
theorem holdMs_cases (b : PacedBurst) (f : PaceFields) :
    (b.atLast = true ∧ b.holdMs f = (b, f.durationMs)) ∨
    (b.atLast = false ∧ CARD_FLOOR_MS * b.toGo ≤ b.left ∧ ∃ hold ≤ f.intervalMs, CARD_FLOOR_MS ≤ hold ∧ hold * b.toGo ≤ b.left ∧ b.holdMs f = (b, hold)) ∨
    (b.atLast = false ∧ b.cuts = true ∧ b.holdMs f = (b.cut, CARD_FLOOR_MS)) ∨
    (b.atLast = false ∧ b.cuts = false ∧ b.left < CARD_FLOOR_MS * b.toGo ∧ b.holdMs f = (b, CARD_FLOOR_MS)) := by
  unfold holdMs
  cases last : b.atLast with
  | true => exact .inl ⟨rfl, if_pos rfl⟩
  | false =>
    have some := toGo_pos' last
    rw [if_neg Bool.false_ne_true]
    by_cases fits : CARD_FLOOR_MS ≤ b.left / b.toGo
    · refine .inr (.inl ⟨rfl, ?_, _, min_le_left .., le_min floor_le_interval fits, ?_, if_pos fits⟩)
      · exact (le_div_iff₀ (by linarith)).mp fits
      · exact (le_div_iff₀ (by linarith)).mp (min_le_right ..)
    · rw [if_neg fits]
      by_cases cut : b.summaryFrom < 0 ∧ MIN_SUMMARIZED ≤ b.events - (b.front + b.fit)
      · refine .inr (.inr (.inl ⟨rfl, ?_, if_pos cut⟩))
        simp [cuts, last, not_le.mp fits, cut.1, cut.2]
      · refine .inr (.inr (.inr ⟨rfl, ?_, (div_lt_iff₀ (by linarith)).mp (not_le.mp fits), if_neg cut⟩))
        simpa [cuts, last, not_le.mp fits] using cut

theorem cut_toGo : b.cut.toGo = b.fit := by
  have some : 1 ≤ b.fit := one_le_fit
  have place : b.cut.summaryFrom = b.front + b.fit := rfl
  have count : b.cut.cardCount = b.cut.summaryFrom + 1 := if_pos (by omega)
  have front : b.cut.front = b.front := rfl
  unfold toGo
  omega

theorem uncut_toGo (uncut : b.summaryFrom < 0) : b.toGo = b.events - 1 - b.front := by
  unfold toGo cardCount
  rw [if_neg (by omega)]

/-- A burst is cut to fewer cards than it had to go. -/
theorem fit_lt_toGo (cuts : b.cuts = true) : b.summaryFrom < 0 ∧ b.fit < b.toGo := by
  simp only [PacedBurst.cuts, Bool.and_eq_true, decide_eq_true_eq] at cuts
  obtain ⟨⟨-, uncut⟩, enough⟩ := cuts
  unfold MIN_SUMMARIZED at enough
  rw [uncut_toGo uncut]
  exact ⟨uncut, by omega⟩

/-- Too little time with nothing to cut leaves one card to go. -/
theorem toGo_eq_one (uncut : b.summaryFrom < 0) (more : b.atLast = false) (tight : b.left < CARD_FLOOR_MS * b.toGo)
    (whole : b.cuts = false) : b.toGo = 1 := by
  have some := toGo_pos more
  have pace : b.left / b.toGo < CARD_FLOOR_MS := (div_lt_iff₀ (by exact_mod_cast some)).mpr tight
  have few : b.toGo ≤ b.fit := by
    simp only [cuts, more, Bool.not_false, pace, decide_true, uncut, Bool.true_and, decide_eq_false_iff_not] at whole
    unfold MIN_SUMMARIZED at whole
    rw [uncut_toGo uncut]
    omega
  rcases (fit_cases : b.fit = 1 ∨ CARD_FLOOR_MS * b.fit ≤ b.left) with one | fits
  · omega
  · have order : (b.toGo : ℚ) ≤ b.fit := by exact_mod_cast few
    exact absurd (lt_of_le_of_lt fits tight) (not_lt.mpr (mul_le_mul_of_nonneg_left order floor_pos.le))

end PacedBurst

namespace PacedDeck

open PacedBurst

variable {b : PacedBurst} {d d' : PacedDeck} {f : PaceFields} {now t : ℚ} {waiting events : Nat} {grouped : Bool} {summaryFrom : Int}

/-- A timer is never set for the past. -/
theorem setStep_eq (now t : ℚ) : now + max 0 (t - now) = max now t := by
  rcases le_total t now with past | ahead
  · rw [max_eq_left (sub_nonpos.mpr past), max_eq_left past, add_zero]
  · rw [max_eq_right (sub_nonneg.mpr ahead), max_eq_right ahead]
    ring

/-- What holds of a burst that has not begun to leave: the last card comes to the front in time. -/
structure Paced (f : PaceFields) (d : PacedDeck) : Prop where
  front : 0 ≤ d.burst.toGo
  arrived : d.burst.frontAt ≤ d.now
  ahead : d.now ≤ d.due
  last : d.burst.atLast = true → d.due = d.burst.frontAt + f.durationMs ∧ d.burst.frontAt ≤ d.burst.budget + CARD_FLOOR_MS
  whole : d.burst.atLast = false → d.burst.summaryFrom < 0 →
    d.due ≤ d.burst.budget ∨ d.burst.toGo = 1 ∧ d.due ≤ d.burst.budget + CARD_FLOOR_MS
  cut : d.burst.atLast = false → 0 ≤ d.burst.summaryFrom →
    d.due + CARD_FLOOR_MS * (d.burst.toGo - 1) ≤ d.burst.budget + CARD_FLOOR_MS ∧
      d.burst.frontAt + CARD_FLOOR_MS * d.burst.toGo ≤ d.burst.budget + CARD_FLOOR_MS

theorem plan_eq {b' : PacedBurst} {hold : ℚ} (held : b.holdMs f = (b', hold)) :
    plan f b now = ⟨b', now, if b'.atLast then .leave else .advance, max now (b'.frontAt + hold)⟩ := by
  unfold plan
  rw [held]
  dsimp only
  rw [setStep_eq]

/-- The last card, in front since before the budget and one floor were over. -/
theorem plan_last (last : b.atLast = true) (front : 0 ≤ b.toGo) (arrived : b.frontAt ≤ now) (inTime : b.frontAt ≤ b.budget + CARD_FLOOR_MS)
    (holds : now ≤ b.frontAt + f.durationMs) : (plan f b now).Paced f := by
  have hold : b.holdMs f = (b, f.durationMs) := by
    unfold holdMs
    exact if_pos last
  rw [plan_eq hold, max_eq_right holds]
  exact ⟨front, arrived, holds, fun _ => ⟨rfl, inTime⟩, fun more => absurd (last.symm.trans more) (by decide),
    fun more => absurd (last.symm.trans more) (by decide)⟩

/-- A burst with cards to go, whatever it was planned by. -/
theorem paced_more {due : ℚ} (more : b.atLast = false) (arrived : b.frontAt ≤ now) (ahead : now ≤ due)
    (whole : b.summaryFrom < 0 → due ≤ b.budget ∨ b.toGo = 1 ∧ due ≤ b.budget + CARD_FLOOR_MS)
    (cut : 0 ≤ b.summaryFrom → due + CARD_FLOOR_MS * (b.toGo - 1) ≤ b.budget + CARD_FLOOR_MS ∧
      b.frontAt + CARD_FLOOR_MS * b.toGo ≤ b.budget + CARD_FLOOR_MS) :
    (⟨b, now, if b.atLast then .leave else .advance, due⟩ : PacedDeck).Paced f where
  front := (by decide : (0 : Int) ≤ 1).trans (toGo_pos more)
  arrived := arrived
  ahead := ahead
  last last := absurd (last.symm.trans more) (by decide)
  whole _ := whole
  cut _ := cut

/-- The cards kept by a cut at `now` are through, but for the "+N more" card, by the budget and one floor. -/
def Fits (b : PacedBurst) (now : ℚ) : Prop := b.cuts = true → now + CARD_FLOOR_MS * (b.fit - 2) ≤ b.budget

/-- A burst that is cut has cards to go, and they take until the budget and one floor at most. -/
theorem cut_paced (arrived : b.frontAt ≤ now) (early : now ≤ b.budget) (inTime : now + CARD_FLOOR_MS * (b.fit - 2) ≤ b.budget) :
    (⟨b.cut, now, if b.cut.atLast then .leave else .advance, max now (b.cut.frontAt + CARD_FLOOR_MS)⟩ : PacedDeck).Paced f := by
  have left : b.left = b.budget - b.frontAt := left_eq (arrived.trans early)
  have one : 1 ≤ b.fit := one_le_fit
  have behind : b.cut.atLast = false := by
    unfold atLast
    rw [cut_toGo, decide_eq_false_iff_not]
    omega
  have first : b.frontAt + CARD_FLOOR_MS * b.fit ≤ b.budget + CARD_FLOOR_MS := by
    rcases (fit_cases : b.fit = 1 ∨ CARD_FLOOR_MS * b.fit ≤ b.left) with one | fitting
    · rw [one]
      push_cast
      linarith
    · linarith
  refine paced_more behind arrived (le_max_left ..) (fun whole => ?_) fun _ => ?_
  · change (b.front : Int) + b.fit < 0 at whole
    omega
  · rw [cut_toGo]
    change max now (b.frontAt + CARD_FLOOR_MS) + _ ≤ b.budget + CARD_FLOOR_MS ∧ b.frontAt + _ ≤ b.budget + CARD_FLOOR_MS
    refine ⟨?_, first⟩
    rcases max_choice now (b.frontAt + CARD_FLOOR_MS) with here | here
    · rw [here]
      linarith
    · rw [here]
      linarith

/-- A burst without a "+N more" card, planned before its budget is over. -/
theorem plan_whole (more : b.atLast = false) (uncut : b.summaryFrom < 0) (arrived : b.frontAt ≤ now) (early : now ≤ b.budget)
    (fits : Fits b now) : (plan f b now).Paced f := by
  have left : b.left = b.budget - b.frontAt := left_eq (arrived.trans early)
  have some := toGo_pos' more
  have floor := floor_pos
  rcases holdMs_cases b f with ⟨last, -⟩ | ⟨-, -, hold, -, paced, shared, held⟩ | ⟨-, cuts, held⟩ | ⟨-, kept, tight, held⟩
  · exact absurd (last.symm.trans more) (by decide)
  · -- the cards fit, so the next one comes before the budget is over
    have bound : b.frontAt + hold ≤ b.budget := by nlinarith
    rw [plan_eq held]
    exact paced_more more arrived (le_max_left ..) (fun _ => .inl (max_le early bound)) fun cut => absurd uncut (not_lt.mpr cut)
  · rw [plan_eq held]
    exact cut_paced arrived early (fits cuts)
  · -- one card is to go, and it comes after one floor
    have one := toGo_eq_one uncut more tight kept
    rw [plan_eq held]
    refine paced_more more arrived (le_max_left ..) (fun _ => .inr ⟨one, max_le ?_ ?_⟩) fun cut => absurd uncut (not_lt.mpr cut)
    · linarith
    · linarith

/-- A burst with a "+N more" card keeps to it. -/
theorem plan_cut (more : b.atLast = false) (cut : 0 ≤ b.summaryFrom) (arrived : b.frontAt ≤ now)
    (early : now + CARD_FLOOR_MS * (b.toGo - 1) ≤ b.budget + CARD_FLOOR_MS)
    (inTime : b.frontAt + CARD_FLOOR_MS * b.toGo ≤ b.budget + CARD_FLOOR_MS) : (plan f b now).Paced f := by
  have some := toGo_pos' more
  have floor := floor_pos
  rcases holdMs_cases b f with ⟨last, -⟩ | ⟨-, fits, hold, -, paced, shared, held⟩ | ⟨-, cuts, -⟩ | ⟨-, -, -, held⟩
  · exact absurd (last.symm.trans more) (by decide)
  · -- the cards behind the next one fit the rest of the budget
    have within : b.frontAt + hold + CARD_FLOOR_MS * (b.toGo - 1) ≤ b.budget := by
      have left : b.left = b.budget - b.frontAt := left_eq (by
        by_contra late
        have none : b.left = 0 := max_eq_left (sub_nonpos.mpr (not_le.mp late).le)
        rw [none] at fits
        nlinarith)
      nlinarith
    rw [plan_eq held]
    refine paced_more more arrived (le_max_left ..) (fun whole => absurd cut (not_le.mpr whole)) fun _ => ⟨?_, inTime⟩
    rcases max_choice now (b.frontAt + hold) with here | here
    · rw [here]
      exact early
    · rw [here]
      linarith
  · exact absurd cut (not_le.mpr (fit_lt_toGo cuts).1)
  · rw [plan_eq held]
    refine paced_more more arrived (le_max_left ..) (fun whole => absurd cut (not_le.mpr whole)) fun _ => ⟨?_, inTime⟩
    rcases max_choice now (b.frontAt + CARD_FLOOR_MS) with here | here
    · rw [here]
      exact early
    · rw [here]
      linarith

/-- A card that has just come to the front fits what it is cut to. -/
theorem fits_fresh (early : b.frontAt ≤ b.budget) : Fits b b.frontAt := by
  intro _
  have left : b.left = b.budget - b.frontAt := left_eq early
  have floor := floor_pos
  rcases (fit_cases : b.fit = 1 ∨ CARD_FLOOR_MS * b.fit ≤ b.left) with one | fitting
  · rw [one]
    push_cast
    linarith
  · linarith

/-- The step the timer has for the burst. -/
def stepOf (b : PacedBurst) : DeckStep := if b.leaving then .next else if b.atLast then .leave else .advance

theorem holdMs_leaving (b : PacedBurst) (f : PaceFields) : (b.holdMs f).1.leaving = b.leaving ∧ (b.holdMs f).1.startAt = b.startAt ∧
    (b.holdMs f).1.front = b.front ∧ (b.holdMs f).1.frontAt = b.frontAt := by
  rcases holdMs_cases b f with ⟨-, held⟩ | ⟨-, -, hold, -, -, -, held⟩ | ⟨-, -, held⟩ | ⟨-, -, -, held⟩ <;>
  · rw [held]
    exact ⟨rfl, rfl, rfl, rfl⟩

theorem plan_step (staying : b.leaving = false) : (plan f b now).step = stepOf (plan f b now).burst := by
  unfold stepOf
  have kept : (plan f b now).burst.leaving = false := (holdMs_leaving b f).1.trans staying
  rw [kept]
  rfl

/-- What holds of the burst all the way: it keeps its start, and the timer has the step for it. -/
structure Kept (f : PaceFields) (startAt : ℚ) (d : PacedDeck) : Prop where
  startAt : d.burst.startAt = startAt
  step : d.step = stepOf d.burst

theorem next_kept : (next f events summaryFrom now).Kept f now := ⟨(holdMs_leaving _ f).2.1, plan_step rfl⟩

theorem event_eq (step : d.react f (.event waiting grouped now) = some d') :
    (d.now ≤ now ∧ now ≤ d.due) ∧ d.onEvent f waiting grouped now = d' := by
  obtain ⟨inTime, same⟩ := Option.ite_none_right_eq_some.mp step
  exact ⟨inTime, Option.some.inj same⟩

/-- The card behind comes to the front. -/
def advanced (f : PaceFields) (d : PacedDeck) : PacedDeck :=
  plan f { d.burst with front := d.burst.front + 1, frontAt := d.due } d.due

theorem fire_cases (step : d.react f .fire = some d') : d.step = .advance ∧ d.advanced f = d' ∨
    d.step = .leave ∧ ⟨{ d.burst with leaving := true }, d.due, .next, d.due + HIDE_MS⟩ = d' := by
  change d.fire f = some d' at step
  unfold fire at step
  cases here : d.step with
  | advance =>
    rw [here] at step
    exact .inl ⟨rfl, Option.some.inj step⟩
  | leave =>
    rw [here] at step
    exact .inr ⟨rfl, Option.some.inj step⟩
  | next =>
    rw [here] at step
    cases step

/-- The timer advances a burst that has cards to go and does not leave. -/
theorem Kept.advances {startAt : ℚ} (kept : d.Kept f startAt) (advances : d.step = .advance) :
    d.burst.leaving = false ∧ d.burst.atLast = false := by
  have step := kept.step
  rw [advances] at step
  unfold stepOf at step
  cases leaving : d.burst.leaving with
  | true =>
    rw [leaving] at step
    cases step
  | false =>
    cases last : d.burst.atLast with
    | true =>
      rw [leaving, last] at step
      cases step
    | false => exact ⟨rfl, rfl⟩

theorem Kept.react {startAt : ℚ} {i : PaceInput} (kept : d.Kept f startAt) (step : d.react f i = some d') : d'.Kept f startAt := by
  cases i with
  | event waiting grouped now =>
    obtain ⟨-, rfl⟩ := event_eq step
    unfold onEvent
    split
    next joins =>
      simp only [canJoin, Bool.and_eq_true, Bool.not_eq_true'] at joins
      exact ⟨(holdMs_leaving _ f).2.1.trans kept.startAt, plan_step joins.1.2⟩
    next => exact ⟨kept.startAt, kept.step⟩
  | fire =>
    rcases fire_cases step with ⟨advances, rfl⟩ | ⟨-, rfl⟩
    · exact ⟨(holdMs_leaving _ f).2.1.trans kept.startAt, plan_step (kept.advances advances).1⟩
    · exact ⟨kept.startAt, rfl⟩

theorem next_paced (some : 0 < events) (summary : summaryFrom = -1 ∨ summaryFrom = 0) (positive : 0 < f.durationMs) :
    (next f events summaryFrom now).Paced f := by
  have floor := floor_pos
  have extra : (0 : ℚ) < BURST_EXTRA_MS := by decide +kernel
  let b : PacedBurst := ⟨events, now, 0, now, summaryFrom, false⟩
  have early : b.frontAt ≤ b.budget := le_add_of_nonneg_right extra.le
  have front : 0 ≤ b.toGo := by
    unfold toGo cardCount
    dsimp only [b]
    split <;> omega
  change (plan f b b.frontAt).Paced f
  cases last : b.atLast with
  | true => exact plan_last last front le_rfl (by linarith) (by linarith)
  | false =>
    rcases summary with whole | overflow
    · exact plan_whole last (by change summaryFrom < 0; omega) le_rfl early (fits_fresh early)
    · -- an overflow burst is its last card alone
      have few : b.toGo = 0 := by
        unfold toGo cardCount
        dsimp only [b]
        rw [if_pos (le_of_eq overflow.symm)]
        omega
      have some := toGo_pos last
      omega

/-- An event that joins leaves a burst that can still take its cards to the front in time. -/
def Timely (d : PacedDeck) : PaceInput → Prop
  | .event waiting grouped now => d.burst.canJoin waiting grouped now = true → Fits { d.burst with events := d.burst.events + 1 } now
  | .fire => True

theorem Paced.onEvent (paced : d.Paced f) (later : d.now ≤ now) (inTime : now ≤ d.due)
    (timely : d.Timely (.event waiting grouped now)) : (d.onEvent f waiting grouped now).Paced f := by
  have arrived : d.burst.frontAt ≤ now := paced.arrived.trans later
  unfold PacedDeck.onEvent
  split
  next joins =>
    have fits := timely joins
    let b : PacedBurst := { d.burst with events := d.burst.events + 1 }
    simp only [canJoin, Bool.and_eq_true, Bool.or_eq_true, decide_eq_true_eq] at joins
    by_cases cut : 0 ≤ d.burst.summaryFrom
    · -- the "+N more" card counts the event
      have count : b.toGo = d.burst.toGo := by
        have cards : b.cardCount = d.burst.summaryFrom + 1 := if_pos cut
        have before : d.burst.cardCount = d.burst.summaryFrom + 1 := if_pos cut
        unfold toGo
        rw [cards, before]
      have same : b.atLast = d.burst.atLast := by
        unfold atLast
        rw [count]
      cases last : d.burst.atLast with
      | true =>
        obtain ⟨due, early⟩ := paced.last last
        exact plan_last (same.trans last) (count ▸ paced.front) arrived early (due ▸ inTime)
      | false =>
        obtain ⟨next, own⟩ := paced.cut last cut
        refine plan_cut (b := b) (same.trans last) cut arrived ?_ ?_
        · rw [count]
          change _ ≤ d.burst.budget + CARD_FLOOR_MS
          linarith
        · rw [count]
          exact own
    · -- one more card, before the budget is over
      have uncut : d.burst.summaryFrom < 0 := not_le.mp cut
      have early : now < d.burst.budget := joins.2.resolve_left cut
      have more : b.atLast = false := by
        have count : b.toGo = d.burst.toGo + 1 := by
          rw [uncut_toGo uncut, uncut_toGo (b := b) uncut]
          simp only [b]
          omega
        have front := paced.front
        unfold atLast
        rw [decide_eq_false_iff_not]
        omega
      exact plan_whole more uncut arrived early.le fits
  next =>
    exact ⟨paced.front, arrived, inTime, paced.last, paced.whole, paced.cut⟩

theorem Paced.advance (paced : d.Paced f) (more : d.burst.atLast = false) (positive : 0 < f.durationMs) :
    (d.advanced f).Paced f := by
  let b : PacedBurst := { d.burst with front := d.burst.front + 1, frontAt := d.due }
  have floor := floor_pos
  have count : b.toGo = d.burst.toGo - 1 := by
    change d.burst.cardCount - 1 - ((d.burst.front + 1 : Nat) : Int) = d.burst.cardCount - 1 - d.burst.front - 1
    omega
  have some := toGo_pos more
  have front : 0 ≤ b.toGo := by omega
  change (plan f b b.frontAt).Paced f
  cases last : b.atLast with
  | true =>
    have one : d.burst.toGo = 1 := by
      unfold atLast at last
      rw [decide_eq_true_eq] at last
      omega
    refine plan_last last front le_rfl ?_ (by linarith)
    change d.due ≤ d.burst.budget + CARD_FLOOR_MS
    by_cases cut : 0 ≤ d.burst.summaryFrom
    · have next := (paced.cut more cut).1
      rw [one] at next
      push_cast at next
      linarith
    · rcases paced.whole more (not_le.mp cut) with early | ⟨-, early⟩
      · linarith
      · exact early
  | false =>
    have left := toGo_pos last
    by_cases cut : 0 ≤ d.burst.summaryFrom
    · have next := (paced.cut more cut).1
      refine plan_cut (b := b) last cut le_rfl ?_ ?_
      · rw [count]
        change d.due + _ ≤ d.burst.budget + CARD_FLOOR_MS
        push_cast
        linarith
      · rw [count]
        change d.due + _ ≤ d.burst.budget + CARD_FLOOR_MS
        push_cast
        linarith
    · rcases paced.whole more (not_le.mp cut) with early | ⟨one, -⟩
      · exact plan_whole last (not_le.mp cut) le_rfl early (fits_fresh early)
      · omega

end PacedDeck

end Braidcast.Overlay
