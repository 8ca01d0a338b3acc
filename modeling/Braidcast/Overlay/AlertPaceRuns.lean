import Braidcast.Overlay.AlertPace

/-!
# A burst from its first card to its last

Over a whole run: when the burst begins to leave, how long a card is in front, and what an event
does that joins too late for the cards it leaves.
-/
namespace Braidcast.Overlay

open Lib

namespace PacedDeck

open PacedBurst

variable {b : PacedBurst} {d d' last : PacedDeck} {f : PaceFields} {now startAt : ℚ} {waiting events : Nat} {grouped : Bool}
  {summaryFrom : Int} {moments : List (Moment PacedDeck PaceInput)}

/-- A run from when the burst came to the deck. -/
def Plays (f : PaceFields) (s : PacedDeck) (moments : List (Moment PacedDeck PaceInput)) (t : PacedDeck) : Prop :=
  Run (fun d i d' => d.react f i = some d') s moments t

theorem onEvent_keeps : (d.onEvent f waiting grouped now).burst.leaving = d.burst.leaving ∧
    (d.onEvent f waiting grouped now).burst.startAt = d.burst.startAt ∧ (d.onEvent f waiting grouped now).burst.front = d.burst.front ∧
    (d.onEvent f waiting grouped now).burst.frontAt = d.burst.frontAt := by
  unfold onEvent
  split
  · exact holdMs_leaving _ f
  · exact ⟨rfl, rfl, rfl, rfl⟩

theorem paced_run (run : Plays f (next f events summaryFrom startAt) moments last) (some : 0 < events)
    (summary : summaryFrom = -1 ∨ summaryFrom = 0) (positive : 0 < f.durationMs) (timely : ∀ m ∈ moments, m.before.Timely m.input) :
    last.Kept f startAt ∧ (last.burst.leaving = false → last.Paced f) := by
  refine (Run.invariant (P := fun d => d.Kept f startAt ∧ (d.burst.leaving = false → d.Paced f)) (Q := fun m => m.before.Timely m.input)
    (fun m timely step before => ?_) run timely ⟨next_kept, fun _ => next_paced some summary positive⟩).1
  obtain ⟨kept, paced⟩ := before
  refine ⟨kept.react step, fun staying => ?_⟩
  cases input : m.input with
  | event waiting grouped now =>
    rw [input] at step timely
    obtain ⟨⟨later, inTime⟩, same⟩ := event_eq step
    rw [← same] at staying ⊢
    exact (paced (onEvent_keeps.1.symm.trans staying)).onEvent later inTime timely
  | fire =>
    rw [input] at step
    rcases fire_cases step with ⟨advances, same⟩ | ⟨-, same⟩
    · obtain ⟨staying', more⟩ := kept.advances advances
      rw [← same]
      exact (paced staying').advance more positive
    · rw [← same] at staying
      cases staying

/-- The timer is never set past the bound. -/
theorem Paced.due_le (paced : d.Paced f) (positive : 0 < f.durationMs) :
    d.due ≤ d.burst.budget + CARD_FLOOR_MS + f.durationMs := by
  have floor := floor_pos
  cases last : d.burst.atLast with
  | true =>
    obtain ⟨due, early⟩ := paced.last last
    linarith
  | false =>
    by_cases cut : 0 ≤ d.burst.summaryFrom
    · have some := toGo_pos' last
      have next := (paced.cut last cut).1
      nlinarith
    · rcases paced.whole last (not_le.mp cut) with early | ⟨-, early⟩ <;> linarith

theorem holdMs_toGo (b : PacedBurst) (f : PaceFields) : (b.holdMs f).1.toGo ≤ b.toGo := by
  rcases holdMs_cases b f with ⟨-, held⟩ | ⟨-, -, hold, -, -, -, held⟩ | ⟨-, cuts, held⟩ | ⟨-, -, -, held⟩
  · rw [held]
  · rw [held]
  · rw [held, cut_toGo]
    exact (fit_lt_toGo cuts).2.le
  · rw [held]

theorem advanced_toGo (f : PaceFields) (d : PacedDeck) : (d.advanced f).burst.toGo ≤ d.burst.toGo - 1 := by
  refine (holdMs_toGo _ f).trans ?_
  change d.burst.cardCount - 1 - ((d.burst.front + 1 : Nat) : Int) ≤ d.burst.cardCount - 1 - d.burst.front - 1
  omega

/-- The timer alone takes the burst to where it leaves. -/
def Leaves (f : PaceFields) (d : PacedDeck) : Prop :=
  ∃ moments last, Plays f d moments last ∧ (∀ m ∈ moments, m.input = .fire) ∧ last.burst.leaving = true

theorem Kept.leaves (kept : d.Kept f startAt) (staying : d.burst.leaving = false) : d.Leaves f := by
  -- each turn brings another card to the front, and none is added
  induction cards : d.burst.toGo.toNat using Nat.strong_induction_on generalizing d with
  | _ cards ih =>
    have step := kept.step
    unfold stepOf at step
    rw [staying] at step
    cases last : d.burst.atLast with
    | true =>
      rw [last] at step
      have fired : d.react f .fire = some ⟨{ d.burst with leaving := true }, d.due, .next, d.due + HIDE_MS⟩ := by
        change d.fire f = _
        unfold fire
        rw [step]
        rfl
      exact ⟨[⟨d, .fire, _⟩], _, .cons fired (.nil _), by simp, rfl⟩
    | false =>
      rw [last] at step
      have fired : d.react f .fire = some (d.advanced f) := by
        change d.fire f = _
        unfold fire
        rw [step]
        rfl
      have some := toGo_pos last
      have fewer := advanced_toGo f d
      have kept' := kept.react fired
      obtain ⟨moments, t, run, fires, leaving⟩ := ih (d.advanced f).burst.toGo.toNat (by omega) kept'
        ((holdMs_leaving _ f).1.trans staying) rfl
      refine ⟨⟨d, .fire, _⟩ :: moments, t, .cons fired run, fun m member => ?_, leaving⟩
      rcases List.mem_cons.mp member with rfl | later
      · rfl
      · exact fires m later

/-- A card with others behind it goes after an interval at most, or when the event joined that made it one of these. -/
def Prompt (f : PaceFields) (moments : List (Moment PacedDeck PaceInput)) (d : PacedDeck) : Prop :=
  d.due ≤ d.burst.frontAt + f.intervalMs ∨ d.due = d.now ∧ ∃ j ∈ moments, ∃ waiting grouped,
    j.input = .event waiting grouped d.due ∧ j.before.burst.front = d.burst.front ∧ j.before.burst.atLast = true

/-- A plan with cards to go holds the front card an interval at most, from when it came there. -/
theorem plan_due (more : (plan f b now).burst.atLast = false) :
    (plan f b now).due ≤ (plan f b now).burst.frontAt + f.intervalMs ∨ (plan f b now).due = now := by
  have bound {b' : PacedBurst} {hold : ℚ} (held : b.holdMs f = (b', hold)) (short : hold ≤ f.intervalMs) :
      (plan f b now).due ≤ (plan f b now).burst.frontAt + f.intervalMs ∨ (plan f b now).due = now := by
    rw [plan_eq held]
    dsimp only
    rcases max_choice now (b'.frontAt + hold) with here | here
    · exact .inr here
    · rw [here]
      exact .inl (by linarith)
  rcases holdMs_cases b f with ⟨last, held⟩ | ⟨-, -, hold, short, -, -, held⟩ | ⟨-, -, held⟩ | ⟨-, -, -, held⟩
  · rw [plan_eq held] at more
    exact absurd (last.symm.trans more) (by decide)
  · exact bound held short
  · exact bound held floor_le_interval
  · exact bound held floor_le_interval

/-- A card that has just come to the front. -/
theorem fresh_due (more : (plan f b b.frontAt).burst.atLast = false) :
    (plan f b b.frontAt).due ≤ (plan f b b.frontAt).burst.frontAt + f.intervalMs := by
  have long : 0 ≤ f.intervalMs := floor_pos.le.trans floor_le_interval
  rcases plan_due more with early | here
  · exact early
  · have place : (plan f b b.frontAt).burst.frontAt = b.frontAt := (holdMs_leaving b f).2.2.2
    rw [here, place]
    linarith

/-- A step that leaves the timer at the same time, with the same card in front. -/
theorem Prompt.later (prompt : Prompt f moments d) (m : Moment PacedDeck PaceInput) (front : d'.burst.front = d.burst.front)
    (frontAt : d'.burst.frontAt = d.burst.frontAt) (due : d'.due = d.due) (now : d.due = d.now → d'.now = d.due) :
    Prompt f (moments ++ [m]) d' := by
  rcases prompt with early | ⟨joined, j, member, found⟩
  · left
    rw [due, frontAt]
    exact early
  · right
    rw [due, front]
    exact ⟨(now joined).symm, j, List.mem_append_left _ member, found⟩

/-- An event that joins sets the timer for no later than it was, or for at once. -/
theorem Prompt.onEvent (kept : d.Kept f startAt) (prompt : d.step = .advance → Prompt f moments d)
    (step : d.react f (.event waiting grouped now) = some d') (advances : d'.step = .advance) :
    Prompt f (moments ++ [⟨d, .event waiting grouped now, d'⟩]) d' := by
  have more := ((kept.react step).advances advances).2
  obtain ⟨⟨later, inTime⟩, rfl⟩ := event_eq step
  by_cases joins : d.burst.canJoin waiting grouped now = true
  · have joined : d.onEvent f waiting grouped now = plan f { d.burst with events := d.burst.events + 1 } now := if_pos joins
    obtain ⟨-, -, front, frontAt⟩ : _ ∧ _ ∧ (d.onEvent f waiting grouped now).burst.front = d.burst.front ∧
      (d.onEvent f waiting grouped now).burst.frontAt = d.burst.frontAt := onEvent_keeps
    have clock : (d.onEvent f waiting grouped now).now = now := congrArg PacedDeck.now joined
    have planned : (d.onEvent f waiting grouped now).due ≤ (d.onEvent f waiting grouped now).burst.frontAt + f.intervalMs ∨
        (d.onEvent f waiting grouped now).due = now := by
      rw [joined] at more ⊢
      exact plan_due more
    rcases planned with early | here
    · exact .inl early
    · cases last : d.burst.atLast with
      | true =>
        exact .inr ⟨here.trans clock.symm, _, List.mem_append_right _ List.mem_cons_self, waiting, grouped, by rw [here], front.symm, last⟩
      | false =>
        -- the card had others behind it before, so its time was set already
        have staying : d.burst.leaving = false := by
          simp only [canJoin, Bool.and_eq_true, Bool.not_eq_true'] at joins
          exact joins.1.2
        have before : d.step = .advance := by
          have own := kept.step
          unfold stepOf at own
          rwa [staying, last] at own
        rcases prompt before with early | ⟨set, j, member, w, g, input, found⟩
        · left
          rw [here, frontAt]
          exact inTime.trans early
        · right
          have same : now = d.due := le_antisymm inTime (set ▸ later)
          rw [here, clock, front, same]
          exact ⟨rfl, j, List.mem_append_left _ member, w, g, input, found⟩
  · have stays : d.onEvent f waiting grouped now = { d with now := now } := if_neg joins
    rw [stays] at advances ⊢
    exact (prompt advances).later _ rfl rfl rfl fun set => le_antisymm inTime (set ▸ later)

theorem prompt_run (run : Plays f (next f events summaryFrom startAt) moments last) (advances : last.step = .advance) :
    Prompt f moments last := by
  induction moments using List.reverseRecOn generalizing last with
  | nil =>
    cases run
    exact .inl (fresh_due (next_kept.advances advances).2)
  | append_singleton earlier m ih =>
    obtain ⟨_, first, rest⟩ := Run.append_iff.mp run
    obtain ⟨rfl, step, done⟩ := Run.cons_iff.mp rest
    cases done
    have kept : m.before.Kept f startAt := Run.always (fun _ _ _ step before => Kept.react before step) first next_kept
    obtain ⟨d, i, d'⟩ := m
    dsimp only at *
    cases i with
    | event waiting grouped now => exact Prompt.onEvent kept (ih first) step advances
    | fire =>
      rcases fire_cases step with ⟨-, rfl⟩ | ⟨-, rfl⟩
      · exact .inl (fresh_due ((kept.react step).advances advances).2)
      · cases advances

/-- The cards kept do not come to the front in time, even at the shortest hold. -/
structure Late (d : PacedDeck) : Prop where
  step : d.step = .advance
  more : d.burst.atLast = false
  cut : 0 ≤ d.burst.summaryFrom
  late : d.burst.budget < d.due + CARD_FLOOR_MS * (d.burst.toGo - 2)

/-- The timer alone takes the burst to its last card, which holds past the bound. -/
def Overruns (f : PaceFields) (d : PacedDeck) : Prop :=
  ∃ moments last, Plays f d moments last ∧ (∀ m ∈ moments, m.input = .fire) ∧ last.step = .leave ∧
    d.burst.budget + CARD_FLOOR_MS + f.durationMs < last.due

theorem Late.overruns (late : d.Late) (staying : d.burst.leaving = false) : d.Overruns f := by
  have floor := floor_pos
  induction cards : d.burst.toGo.toNat generalizing d with
  | zero =>
    have some := toGo_pos late.more
    omega
  | succ cards ih =>
    let b : PacedBurst := { d.burst with front := d.burst.front + 1, frontAt := d.due }
    have count : b.toGo = d.burst.toGo - 1 := by
      change d.burst.cardCount - 1 - ((d.burst.front + 1 : Nat) : Int) = d.burst.cardCount - 1 - d.burst.front - 1
      omega
    have fired : d.react f .fire = Option.some (d.advanced f) := by
      change d.fire f = _
      unfold fire
      rw [late.step]
      rfl
    have beyond := late.late
    cases last : b.atLast with
    | true =>
      have one : d.burst.toGo = 1 := by
        unfold atLast at last
        rw [decide_eq_true_eq] at last
        omega
      have planned : d.advanced f = ⟨b, d.due, .leave, max d.due (d.due + f.durationMs)⟩ := by
        have held : b.holdMs f = (b, f.durationMs) := if_pos last
        change plan f b d.due = _
        rw [plan_eq held, if_pos last]
      refine ⟨[⟨d, .fire, _⟩], _, .cons fired (.nil _), by simp, by rw [planned], ?_⟩
      rw [planned]
      rw [one] at beyond
      push_cast at beyond
      exact lt_max_of_lt_right (by linarith)
    | false =>
      -- the budget is over too soon for the cards left, and a burst is cut once
      have more := toGo_pos' last
      have tight : b.left < CARD_FLOOR_MS * b.toGo := by
        refine max_lt (by positivity) ?_
        change d.burst.budget - d.due < _
        rw [count]
        push_cast
        linarith
      have held : b.holdMs f = (b, CARD_FLOOR_MS) := by
        rcases holdMs_cases b f with ⟨here, -⟩ | ⟨-, fits, -⟩ | ⟨-, cuts, -⟩ | ⟨-, -, -, held⟩
        · exact absurd (last.symm.trans here) (by decide)
        · exact absurd fits (not_le.mpr tight)
        · exact absurd late.cut (not_le.mpr (fit_lt_toGo cuts).1)
        · exact held
      have planned : d.advanced f = ⟨b, d.due, .advance, d.due + CARD_FLOOR_MS⟩ := by
        change plan f b d.due = _
        rw [plan_eq held, last, max_eq_right (by change d.due ≤ d.due + CARD_FLOOR_MS; linarith)]
        rfl
      have late' : (d.advanced f).Late := by
        rw [planned]
        refine ⟨rfl, last, late.cut, ?_⟩
        change d.burst.budget < d.due + CARD_FLOOR_MS + CARD_FLOOR_MS * (b.toGo - 2)
        rw [count]
        push_cast
        linarith
      have kept : (d.advanced f).burst = b := by rw [planned]
      obtain ⟨moments, t, run, fires, leaves, past⟩ := ih late' (by rw [kept]; exact staying) (by rw [kept]; omega)
      refine ⟨⟨d, .fire, _⟩ :: moments, t, .cons fired run, fun m member => ?_, leaves, ?_⟩
      · rcases List.mem_cons.mp member with rfl | later
        · rfl
        · exact fires m later
      · rw [kept] at past
        exact past

/-- An event that joins too late for the cards it leaves. -/
theorem untimely_overruns (joins : d.burst.canJoin waiting grouped now = true)
    (untimely : ¬ Fits { d.burst with events := d.burst.events + 1 } now) :
    (d.onEvent f waiting grouped now).Overruns f := by
  let b : PacedBurst := { d.burst with events := d.burst.events + 1 }
  obtain ⟨cuts, beyond⟩ : b.cuts = true ∧ b.budget < now + CARD_FLOOR_MS * (b.fit - 2) := by
    by_contra none
    refine untimely fun cuts => ?_
    by_contra beyond
    exact none ⟨cuts, not_le.mp beyond⟩
  have one : 1 ≤ b.fit := one_le_fit
  have behind : b.cut.atLast = false := by
    unfold atLast
    rw [cut_toGo, decide_eq_false_iff_not]
    omega
  have held : b.holdMs f = (b.cut, CARD_FLOOR_MS) := by
    rcases holdMs_cases b f with ⟨last, -⟩ | ⟨more, fits, -⟩ | ⟨-, -, held⟩ | ⟨-, whole, -⟩
    · simp [PacedBurst.cuts, last] at cuts
    · have some := toGo_pos' more
      have pace : CARD_FLOOR_MS ≤ b.left / b.toGo := (le_div_iff₀ (by linarith)).mpr fits
      simp [PacedBurst.cuts, not_lt.mpr pace] at cuts
    · exact held
    · exact absurd (cuts.symm.trans whole) (by decide)
  have planned : d.onEvent f waiting grouped now = ⟨b.cut, now, .advance, max now (b.cut.frontAt + CARD_FLOOR_MS)⟩ := by
    refine (if_pos joins).trans ?_
    rw [plan_eq held, behind]
    rfl
  have late : (d.onEvent f waiting grouped now).Late := by
    rw [planned]
    refine ⟨rfl, behind, ?_, ?_⟩
    · change 0 ≤ (b.front : Int) + b.fit
      omega
    · rw [cut_toGo]
      change b.budget < max now (b.cut.frontAt + CARD_FLOOR_MS) + _
      exact beyond.trans_le (add_le_add_left (le_max_left ..) _)
  refine late.overruns ?_
  rw [onEvent_keeps.1]
  simp only [canJoin, Bool.and_eq_true, Bool.not_eq_true'] at joins
  exact joins.1.2

/-- Up to when the burst has to begin to leave. -/
def bound (f : PaceFields) (startAt : ℚ) : ℚ := startAt + BURST_EXTRA_MS + CARD_FLOOR_MS + f.durationMs

theorem Kept.bound (kept : d.Kept f startAt) : d.burst.budget + CARD_FLOOR_MS + f.durationMs = bound f startAt := by
  unfold budget PacedDeck.bound
  rw [kept.startAt]

/-- Where every event joins in time for the cards it leaves, the timer is never set past the bound, so
the burst has begun to leave by then; the timer alone brings it there. No card with others behind it is in
front for longer than an interval, but one that was the last until an event joined goes when it joins.
An event that does not join in time leaves a burst whose timer takes it past the bound. -/
theorem leaves_in_time (run : Plays f (next f events summaryFrom startAt) moments last) (some : 0 < events)
    (summary : summaryFrom = -1 ∨ summaryFrom = 0) (positive : 0 < f.durationMs) :
    ((∀ m ∈ moments, m.before.Timely m.input) → last.burst.leaving = false → last.due ≤ bound f startAt) ∧
      (last.burst.leaving = false → last.Leaves f) ∧
      (last.step = .advance → Prompt f moments last) ∧
      ∀ waiting grouped now after, last.react f (.event waiting grouped now) = Option.some after →
        ¬ last.Timely (.event waiting grouped now) →
        ∃ later t, Plays f after later t ∧ (∀ m ∈ later, m.input = .fire) ∧ t.step = .leave ∧ bound f startAt < t.due := by
  have kept : last.Kept f startAt := Run.always (fun _ _ _ step before => Kept.react before step) run next_kept
  refine ⟨fun timely staying => ?_, kept.leaves, prompt_run run, fun waiting grouped now after step untimely => ?_⟩
  · rw [← kept.bound]
    exact ((paced_run run some summary positive timely).2 staying).due_le positive
  · have kept' := kept.react step
    obtain ⟨-, rfl⟩ := event_eq step
    obtain ⟨joins, late⟩ := Classical.not_imp.mp untimely
    rw [← kept'.bound]
    exact untimely_overruns joins late

def defaults : PaceFields := ⟨none, none⟩

/-- An event that joins does not cut the burst. -/
def joinsWhole (m : Moment PacedDeck PaceInput) : Bool :=
  match m.input with
  | .event _ _ _ => !{ m.before.burst with events := m.before.burst.events + 1 : PacedBurst }.cuts
  | .fire => true

/-- Two follows, and one that joins while the second holds: the third leaves by 13350. -/
theorem leaves_in_time_joined : ∃ moments last, Plays defaults (next defaults 2 (-1) 0) moments last ∧ last.step = .leave ∧
    last.burst.events = 3 ∧ last.due ≤ 13350 := by
  obtain ⟨moments, last, run, shown⟩ := exists_run_of_follow (PacedDeck.react defaults) (next defaults 2 (-1) 0)
    [.fire, .event 0 true 3000, .fire] (fun moments last =>
      moments.all joinsWhole && last.step = .leave && last.burst.events = 3 && !last.burst.leaving) (by decide +kernel)
  simp only [Bool.and_eq_true, List.all_eq_true, decide_eq_true_eq, Bool.not_eq_true'] at shown
  obtain ⟨⟨⟨whole, leave⟩, three⟩, staying⟩ := shown
  refine ⟨moments, last, run, leave, three, ?_⟩
  have early := (leaves_in_time run (by decide) (.inl rfl) (by decide +kernel)).1 (fun m member => ?_) staying
  · exact early.trans (by decide +kernel)
  · have uncut := whole m member
    rw [joinsWhole] at uncut
    cases input : m.input with
    | event waiting grouped now =>
      rw [input] at uncut
      intro _ cuts
      rw [cuts] at uncut
      cases uncut
    | fire => trivial

/-- One after the other until the third has been in front for most of its time, then six at once: five
cards are kept as if the budget had not been running since. -/
theorem not_leaves_in_time : ∃ moments last, Plays defaults (next defaults 1 (-1) 0) moments last ∧ last.step = .leave ∧
    last.burst.leaving = false ∧ last.due = 14390 ∧ bound defaults 0 = 13350 := by
  obtain ⟨moments, last, run, shown⟩ := exists_run_of_follow (PacedDeck.react defaults) (next defaults 1 (-1) 0)
    ([.event 0 true 4900, .fire, .event 0 true 6200, .fire] ++ List.replicate 6 (.event 0 true 7990) ++ List.replicate 5 .fire)
    (fun _ last => last.step = .leave && !last.burst.leaving && last.due = 14390) (by decide +kernel)
  simp only [Bool.and_eq_true, decide_eq_true_eq, Bool.not_eq_true'] at shown
  exact ⟨moments, last, run, shown.1.1, shown.1.2, shown.2, by decide +kernel⟩

end PacedDeck

end Braidcast.Overlay
