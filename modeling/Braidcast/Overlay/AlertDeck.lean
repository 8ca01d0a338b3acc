import Braidcast.Lib.Run
import Braidcast.Overlay.AlertBursts

/-!
# No alert is lost

What holds of the bursts that are gone, on the deck and waiting after any events and any steps of
the deck's timer.
-/
namespace Braidcast.Overlay

open Lib

namespace AlertBox

variable {d d' : AlertBox} {fields : AlertFields} {now : Int} {e : AlertEvent} {b b' : Burst}
  {gone queue : List Burst} {deck : Option Burst} {arrived : List AlertEvent} {entered : Nat}

/-- Each event is in one burst, and the bursts are in the order they were made. -/
structure Books (gone : List Burst) (deck : Option Burst) (queue : List Burst) (arrived : List AlertEvent)
    (entered : Nat) : Prop where
  events : ((gone ++ deck.toList ++ queue).flatMap Burst.events).Perm arrived
  entries : (gone ++ deck.toList ++ queue).map Burst.entry = List.range entered
  formed : ∀ b ∈ gone ++ deck.toList ++ queue, b.Formed
  waits : ∀ b ∈ queue, b.Waits
  settled : ∀ b ∈ gone, b.Settled
  bounded : Bounded (queue.map Burst.kind)

/-- The step the timer has for the burst on the deck. -/
def stepFor (b : Burst) : DeckStep := if b.leaving then .next else if b.atLast then .leave else .advance

structure Sound (d : AlertBox) : Prop where
  books : Books d.gone d.current d.queue d.arrived d.entered
  onDeck : ∀ b ∈ d.current, b.OnDeck
  timer : ∀ b ∈ d.current, d.timer.map Prod.fst = some (stepFor b)
  idle : d.current = none → d.queue = [] ∧ d.timer = none

/-- One more event in one of the bursts. -/
theorem events_push (xs ys : List Burst) (pushed : b'.events = b.events ++ [e]) :
    ((xs ++ b' :: ys).flatMap Burst.events).Perm ((xs ++ b :: ys).flatMap Burst.events ++ [e]) := by
  rw [List.flatMap_append, List.flatMap_append, List.flatMap_cons, List.flatMap_cons, pushed]
  rw [List.perm_iff_count]
  intro e'
  simp only [List.count_append]
  omega

/-- Replacing the burst on the deck by one with the same events. -/
theorem Books.replan (books : Books gone (some b) queue arrived entered) (b' : Burst) (same : b'.events = b.events)
    (entry : b'.entry = b.entry) (formed : b'.Formed) : Books gone (some b') queue arrived entered where
  events := by
    have events := books.events
    simp only [Option.toList_some, List.flatMap_append, List.flatMap_cons, List.flatMap_nil] at events ⊢
    rwa [same]
  entries := by
    have entries := books.entries
    simp only [Option.toList_some, List.map_append, List.map_cons, List.map_nil] at entries ⊢
    rwa [entry]
  formed x member := by
    simp only [Option.toList_some, List.mem_append, List.mem_singleton] at member
    rcases member with (old | rfl) | waiting
    · exact books.formed x (by simp [old])
    · exact formed
    · exact books.formed x (by simp [waiting])
  waits := books.waits
  settled := books.settled
  bounded := books.bounded

/-- A burst that is ready is planned. -/
theorem plan_sound (books : Books d.gone (some b) d.queue d.arrived d.entered) (ready : b.Ready) (staying : b.leaving = false) :
    (d.plan fields now b).Sound := by
  obtain ⟨onDeck, formed, planned⟩ := ready.plan fields (books.formed b (by simp)) staying
  refine ⟨books.replan _ planned.events planned.entry formed, fun b' here => ?_, fun b' here => ?_, fun none => (by cases none)⟩
  · have same : (b.holdTime fields).1.layout = b' := Option.some.inj here
    subst same
    exact onDeck
  · have same : (b.holdTime fields).1.layout = b' := Option.some.inj here
    subst same
    rw [stepFor, planned.leaving.trans staying]
    rfl

/-- The deck takes the first burst that waits. -/
theorem next_sound (books : Books d.gone none d.queue d.arrived d.entered) (unset : d.timer = none) :
    (d.next fields now).Sound := by
  unfold next
  cases waiting : d.queue with
  | nil =>
    rw [waiting] at books
    dsimp only
    exact ⟨books, fun b none => (by cases none), fun b none => (by cases none), fun _ => ⟨rfl, unset⟩⟩
  | cons b queue =>
    rw [waiting] at books
    have same : d.gone ++ (none : Option Burst).toList ++ b :: queue = d.gone ++ (some b).toList ++ queue := by simp
    have taken : Books d.gone (some b) queue d.arrived d.entered :=
      ⟨same ▸ books.events, same ▸ books.entries, same ▸ books.formed, fun x member => books.waits x (List.mem_cons_of_mem _ member),
        books.settled, books.bounded.tail⟩
    have waits := books.waits b List.mem_cons_self
    have formed := taken.formed b (by simp)
    exact plan_sound (d := { d with queue := queue })
      (taken.replan { b with startAt := now, frontAt := now } rfl rfl ⟨formed.some, formed.grouped, formed.summary⟩)
      (waits.ready formed) waits.staying

/-- An event joins a burst that waits. -/
structure Joins (e : AlertEvent) (b b' : Burst) : Prop where
  events : b'.events = b.events ++ [e]
  entry : b'.entry = b.entry
  kind : b'.kind = b.kind
  formed : b'.Formed
  waits : b'.Waits

theorem Books.join {front back : List Burst} (books : Books gone deck (front ++ b :: back) arrived entered)
    (joins : Joins e b b') : Books gone deck (front ++ b' :: back) (arrived ++ [e]) entered where
  events := by
    have events := books.events
    rw [← List.append_assoc] at events ⊢
    exact (events_push _ _ joins.events).trans (events.append_right [e])
  entries := by
    have entries := books.entries
    simp only [List.map_append, List.map_cons] at entries ⊢
    rwa [joins.entry]
  formed x member := by
    simp only [List.mem_append, List.mem_cons] at member
    rcases member with (old | old) | old | rfl | old
    · exact books.formed x (by simp [old])
    · exact books.formed x (by simp [old])
    · exact books.formed x (by simp [old])
    · exact joins.formed
    · exact books.formed x (by simp [old])
  waits x member := by
    rcases List.mem_append.mp member with old | member
    · exact books.waits x (by simp [old])
    · rcases List.mem_cons.mp member with rfl | old
      · exact joins.waits
      · exact books.waits x (by simp [old])
  settled := books.settled
  bounded := by
    have bounded := books.bounded
    simp only [List.map_append, List.map_cons] at bounded ⊢
    rwa [joins.kind]

theorem joins_push (formed : b.Formed) (waits : b.Waits) (own : groupOf e.type = b.group) (now : Int) : Joins e b (b.push e now) :=
  ⟨rfl, rfl, Burst.push_kind formed, formed.push own, waits.front, waits.shown, waits.staying, waits.summary⟩

/-- Wherever an event joins the queue, it joins one burst that waits. -/
theorem joinQueue_books (books : Books d.gone deck d.queue arrived entered)
    (joined : (d.joinTail fields now e).or ((d.joinGroup now e).or (d.joinOverflow now e)) = some queue) :
    Books d.gone deck queue (arrived ++ [e]) entered := by
  have joining {front back : List Burst} {b : Burst} (there : d.queue = front ++ b :: back) : b.Formed ∧ b.Waits :=
    ⟨books.formed b (by simp [there]), books.waits b (by simp [there])⟩
  rcases Option.or_eq_some_iff.mp joined with tail | ⟨_, rest⟩
  · unfold joinTail at tail
    split at tail
    next group last own found =>
      split at tail
      next near =>
        cases tail
        have there : d.queue = d.queue.dropLast ++ last :: [] := (List.dropLast_append_getLast? last found).symm
        obtain ⟨formed, waits⟩ := joining there
        rw [there] at books
        have after := books.join (joins_push formed waits (own.trans near.2.1.symm) now)
        exact after
      next => cases tail
    next => cases tail
  · rcases Option.or_eq_some_iff.mp rest with grouped | ⟨_, overflow⟩
    · unfold joinGroup at grouped
      split at grouped
      next group own =>
        split at grouped
        next =>
          obtain ⟨front, b, back, there, same, rfl⟩ := modifyLast_eq_some grouped
          obtain ⟨formed, waits⟩ := joining there
          rw [there] at books
          exact books.join (joins_push formed waits (own.trans (of_decide_eq_true same).symm) now)
        next => cases grouped
      next => cases grouped
    · unfold joinOverflow at overflow
      split at overflow
      next => cases overflow
      next alone =>
        obtain ⟨front, b, back, there, same, rfl⟩ := modifyLast_eq_some overflow
        obtain ⟨formed, waits⟩ := joining there
        simp only [isBacklog, Bool.and_eq_true, Option.isNone_iff_eq_none] at same
        obtain ⟨events, entry, kind, formed', waits'⟩ :=
          joins_push formed waits (alone.trans same.1.1.symm) now
        rw [there] at books
        refine books.join ⟨events, entry, kind, ⟨formed'.some, formed'.grouped, .inr ⟨le_refl _, ?_⟩⟩, waits'.front,
          waits'.shown, waits'.staying, .inr ⟨same.2, rfl⟩⟩
        have some := List.length_pos_iff.mpr formed.some
        simp only [Burst.push, List.length_append, List.length_singleton]
        omega

theorem isBacklog_eq (type : String) (b : Burst) :
    isBacklog type b = (b.kind.1.isNone && decide (b.kind.2.2 = some type)) := by
  unfold isBacklog Burst.kind
  cases b.events with
  | nil => simp
  | cons e rest => simp

/-- Where an event could not join the queue, there is room for a burst of its own. -/
theorem enqueue_bounded (bounded : Bounded (d.queue.map Burst.kind))
    (left : (d.joinTail fields now e).or ((d.joinGroup now e).or (d.joinOverflow now e)) = none) :
    Bounded ((d.queue ++ [d.newBurst now e]).map Burst.kind) := by
  obtain ⟨_, rest⟩ := Option.or_eq_none_iff.mp left
  obtain ⟨group, overflow⟩ := Option.or_eq_none_iff.mp rest
  rw [List.map_append, List.map_singleton]
  cases own : groupOf e.type with
  | some name =>
    refine bounded.concat_group name own ?_
    simp only [joinGroup, own] at group
    split at group
    next =>
      right
      intro listed
      obtain ⟨k, member, same⟩ := List.mem_filterMap.mp listed
      obtain ⟨b, waiting, rfl⟩ := List.mem_map.mp member
      have other := modifyLast_eq_none.mp group b waiting
      rw [decide_eq_false_iff_not] at other
      exact other same
    next few => exact .inl (by simpa using few)
  | none =>
    have single : overflowOf e.type (d.queue.map Burst.kind) = 0 := by
      simp only [joinOverflow, own] at overflow
      rw [overflowOf, List.countP_map, List.countP_eq_zero]
      intro b waiting
      have other := modifyLast_eq_none.mp overflow b waiting
      rw [isBacklog_eq] at other
      simpa [Burst.kind] using other
    have full : d.aloneFull e.type = decide (MAX_ALONE_WAITING ≤ wholeOf e.type (d.queue.map Burst.kind)) := by
      rw [aloneFull, wholeOf, List.countP_map, List.countP_eq_length_filter]
      simp only [isBacklog_eq]
      rfl
    refine bounded.concat_alone e.type own rfl single ?_
    rw [← full]
    simp [Burst.kind, newBurst, own]

theorem newBurst_formed : (d.newBurst now e).Formed where
  some := by simp [newBurst]
  grouped e' member := by
    rcases List.mem_singleton.mp member with rfl
    rfl
  summary := .inl rfl

/-- An event takes a burst of its own to the end of the queue. -/
theorem enqueue_sound (sound : d.Sound)
    (left : (d.joinTail fields now e).or ((d.joinGroup now e).or (d.joinOverflow now e)) = none) :
    ({ d with arrived := d.arrived ++ [e] }.enqueue fields now e).Sound := by
  have books := sound.books
  have added : Books d.gone d.current (d.queue ++ [d.newBurst now e]) (d.arrived ++ [e]) (d.entered + 1) := by
    refine ⟨?_, ?_, fun b member => ?_, fun b member => ?_, books.settled, enqueue_bounded books.bounded left⟩
    · rw [← List.append_assoc, List.flatMap_append]
      exact books.events.append (by rfl)
    · rw [← List.append_assoc, List.map_append, books.entries, List.range_succ]
      rfl
    · rw [← List.append_assoc] at member
      rcases List.mem_append.mp member with old | new
      · exact books.formed b old
      · exact List.mem_singleton.mp new ▸ newBurst_formed
    · rcases List.mem_append.mp member with old | new
      · exact books.waits b old
      · exact List.mem_singleton.mp new ▸ ⟨rfl, rfl, rfl, .inl rfl⟩
  unfold enqueue
  cases deck : d.current with
  | none =>
    rw [deck] at added
    exact next_sound (d := { d with
      queue := d.queue ++ [d.newBurst now e], arrived := d.arrived ++ [e], entered := d.entered + 1, current := none })
      added (sound.idle deck).2
  | some b =>
    rw [deck] at added
    refine ⟨added, fun b' here => ?_, fun b' here => ?_, fun none => by cases none⟩
    · exact sound.onDeck b' (deck.trans here)
    · exact sound.timer b' (deck.trans here)

theorem Books.pushDeck (books : Books gone (some b) queue arrived entered) (own : groupOf e.type = b.group) :
    Books gone (some (b.push e now)) queue (arrived ++ [e]) entered where
  events := by
    have events := books.events
    rw [Option.toList_some, List.append_assoc] at events ⊢
    exact (events_push gone queue rfl).trans (events.append_right [e])
  entries := by
    have entries := books.entries
    simp only [Option.toList_some, List.map_append, List.map_cons, List.map_nil] at entries ⊢
    exact entries
  formed x member := by
    simp only [Option.toList_some, List.mem_append, List.mem_singleton] at member
    rcases member with (old | rfl) | waiting
    · exact books.formed x (by simp [old])
    · exact (books.formed b (by simp)).push own
    · exact books.formed x (by simp [waiting])
  waits := books.waits
  settled := books.settled
  bounded := books.bounded

/-- An event that joins is of the group of the burst on the deck, which is planned anew. -/
theorem joinDeck_cases (joined : d.joinDeck fields now e = some d') :
    ∃ group b, groupOf e.type = some group ∧ d.current = some b ∧ d.canJoin now b group ∧ d' = d.plan fields now (b.push e now) := by
  unfold joinDeck at joined
  split at joined
  next group b own deck =>
    split at joined
    next may =>
      cases joined
      exact ⟨group, b, own, deck, may.2, rfl⟩
    next => cases joined
  next => cases joined

theorem joinDeck_sound (sound : d.Sound)
    (joined : ({ d with arrived := d.arrived ++ [e] }.joinDeck fields now e) = some d') : d'.Sound := by
  obtain ⟨group, b, own, deck, free, rfl⟩ := joinDeck_cases joined
  have here : d.current = some b := deck
  simp only [canJoin, Bool.and_eq_true, decide_eq_true_eq, Bool.not_eq_true'] at free
  have books := sound.books
  rw [here] at books
  exact plan_sound (d := { d with arrived := d.arrived ++ [e] }) (books.pushDeck (own.trans free.1.1.2.symm))
    (sound.onDeck b here).push free.1.2

theorem joinQueue_nil (empty : d.queue = []) :
    (d.joinTail fields now e).or ((d.joinGroup now e).or (d.joinOverflow now e)) = none := by
  have tail : d.joinTail fields now e = none := by
    unfold joinTail
    rw [empty]
    split
    next found => cases found
    next => rfl
  have group : d.joinGroup now e = none := by
    unfold joinGroup
    rw [empty]
    cases groupOf e.type <;> rfl
  have overflow : d.joinOverflow now e = none := by
    unfold joinOverflow
    rw [empty]
    cases groupOf e.type <;> rfl
  rw [tail, group, overflow]
  rfl

theorem onEvent_sound (sound : d.Sound) : (d.onEvent fields now e).Sound := by
  unfold onEvent
  dsimp only
  split
  next d' joined => exact joinDeck_sound sound joined
  next =>
    split
    next queue joined =>
      have joined : (d.joinTail fields now e).or ((d.joinGroup now e).or (d.joinOverflow now e)) = some queue := joined
      have books : Books d.gone d.current queue (d.arrived ++ [e]) d.entered := joinQueue_books sound.books joined
      refine ⟨books, sound.onDeck, sound.timer, fun idle => ?_⟩
      rw [joinQueue_nil (sound.idle idle).1] at joined
      cases joined
    next left => exact enqueue_sound sound left

/-- The timer's step is one of three, on the burst there is. -/
theorem fire_cases (fired : d.fire fields now = some d') :
    ∃ b, d.current = some b ∧
      (d.timer.map Prod.fst = some .advance ∧ d' = { d with timer := none }.advance fields now b ∨
        d.timer.map Prod.fst = some .leave ∧ d' = { d with timer := none }.leave b ∨
        d.timer.map Prod.fst = some .next ∧ d' = d.hidden fields now b) := by
  unfold fire at fired
  split at fired
  next b timer deck =>
    cases fired
    exact ⟨b, deck, .inl ⟨by rw [timer, Option.map_some], rfl⟩⟩
  next b timer deck =>
    cases fired
    exact ⟨b, deck, .inr (.inl ⟨by rw [timer, Option.map_some], rfl⟩)⟩
  next b timer deck =>
    cases fired
    exact ⟨b, deck, .inr (.inr ⟨by rw [timer, Option.map_some], rfl⟩)⟩
  next => cases fired

/-- The deck's timer only ever does the step that its burst is at. -/
theorem fire_sound (sound : d.Sound) (fired : d.fire fields now = some d') : d'.Sound := by
  obtain ⟨b, deck, done⟩ := fire_cases fired
  have books := sound.books
  have at_step := sound.timer b deck
  have onDeck := sound.onDeck b deck
  rw [deck] at books
  have formed := books.formed b (by simp)
  rcases done with ⟨timer, rfl⟩ | ⟨timer, rfl⟩ | ⟨timer, rfl⟩
  · rw [timer, Option.some.injEq, stepFor] at at_step
    cases leaving : b.leaving with
    | true => simp [leaving] at at_step
    | false =>
      cases last : b.atLast with
      | true => simp [leaving, last] at at_step
      | false =>
        exact plan_sound (d := { d with timer := none })
          (books.replan { b with front := b.front + 1, frontAt := now } rfl rfl ⟨formed.some, formed.grouped, formed.summary⟩)
          (onDeck.advance last) leaving
  · rw [timer, Option.some.injEq, stepFor] at at_step
    have last : b.atLast = true := by
      cases last : b.atLast with
      | true => rfl
      | false => cases leaving : b.leaving <;> simp [leaving, last] at at_step
    refine ⟨books.replan _ rfl rfl ⟨formed.some, formed.grouped, formed.summary⟩, fun b' here => ?_, fun b' here => ?_,
      fun none => by cases none⟩
    · cases here
      exact ⟨⟨onDeck.front, onDeck.shown, onDeck.apart⟩, onDeck.drawn, fun _ => last⟩
    · cases here
      rfl
  · rw [timer, Option.some.injEq, stepFor] at at_step
    have last : b.atLast = true := by
      cases leaving : b.leaving with
      | true => exact onDeck.leaving leaving
      | false => cases last : b.atLast <;> simp [leaving, last] at at_step
    have same : d.gone ++ [b] ++ (none : Option Burst).toList ++ d.queue = d.gone ++ (some b).toList ++ d.queue := by simp
    refine next_sound (d := { d with current := none, timer := none, gone := d.gone ++ [b] })
      ⟨same ▸ books.events, same ▸ books.entries, same ▸ books.formed, books.waits, fun x member => ?_, books.bounded⟩ rfl
    rcases List.mem_append.mp member with old | new
    · exact books.settled x old
    · exact List.mem_singleton.mp new ▸ onDeck.settled last

theorem initial_sound : initial.Sound :=
  ⟨⟨.refl _, rfl, fun _ none => (by cases none), fun _ none => (by cases none), fun _ none => (by cases none), .nil⟩,
    fun _ none => (by cases none), fun _ none => (by cases none), fun _ => ⟨rfl, rfl⟩⟩

/-- An event, or the timer's step, at some time and with the fields there are. -/
inductive Step
  | event (fields : AlertFields) (now : Int) (e : AlertEvent)
  | fire (fields : AlertFields) (now : Int)

def step (d : AlertBox) : Step → Option AlertBox
  | .event fields now e => some (d.onEvent fields now e)
  | .fire fields now => d.fire fields now

/-- The bursts that left the deck, the one on it and those that wait. -/
def bursts (d : AlertBox) : List Burst := d.gone ++ d.current.toList ++ d.queue

def groups (d : AlertBox) : List String := groupsOf (d.queue.map Burst.kind)

def aloneTypes (d : AlertBox) : List String := aloneTypesOf (d.queue.map Burst.kind)

/-- The events that come with the steps of a run. -/
def Step.events : Step → List AlertEvent
  | .event _ _ e => [e]
  | .fire _ _ => []

theorem next_arrived : (d.next fields now).arrived = d.arrived := by
  unfold next
  split <;> rfl

theorem onEvent_arrived : (d.onEvent fields now e).arrived = d.arrived ++ [e] := by
  unfold onEvent
  dsimp only
  split
  next d' joined =>
    obtain ⟨group, b, -, -, -, rfl⟩ := joinDeck_cases joined
    rfl
  next =>
    split
    next => rfl
    next =>
      unfold enqueue
      split
      next => exact next_arrived
      next => rfl

theorem fire_arrived (fired : d.fire fields now = some d') : d'.arrived = d.arrived := by
  obtain ⟨b, -, ⟨-, rfl⟩ | ⟨-, rfl⟩ | ⟨-, rfl⟩⟩ := fire_cases fired
  · rfl
  · rfl
  · exact next_arrived

/-- What arrived is what came with the steps. -/
theorem run_arrived {d₀ : AlertBox} {ms : List (Moment AlertBox Step)} (run : Run (fun d i d' => d.step i = some d') d₀ ms d) :
    d.arrived = d₀.arrived ++ ms.flatMap fun m => m.input.events := by
  induction run with
  | nil d => exact (List.append_nil _).symm
  | @cons s t u i ms taken rest ih =>
    have own : t.arrived = s.arrived ++ i.events := by
      cases i with
      | event fields now e =>
        cases taken
        exact onEvent_arrived
      | fire fields now =>
        rw [Step.events, List.append_nil]
        exact fire_arrived taken
    rw [ih, own, List.append_assoc, List.flatMap_cons]

/-- After any events and any steps of the timer: each event is in one burst, and the bursts are in the
order they were made; of a burst that is gone each event was in front or is counted; the front card
is one of the burst's cards, a summary counts two or more and none that was shown; few wait, and none
without a burst on the deck and a step to come. -/
theorem no_alert_lost {ms : List (Moment AlertBox Step)}
    (run : Run (fun d i d' => d.step i = some d') initial ms d) :
    (d.bursts.flatMap Burst.events).Perm (ms.flatMap fun m => m.input.events) ∧
    d.bursts.map Burst.entry = List.range d.entered ∧
    (∀ b ∈ d.gone, b.Settled) ∧
    (∀ b ∈ d.current, b.front < b.cardCount) ∧
    (∀ b ∈ d.bursts, b.summaryFrom = -1 ∨ 0 ≤ b.summaryFrom ∧ b.summaryFrom ≤ b.events.length - 2) ∧
    (∀ b ∈ d.current, 0 ≤ b.summaryFrom → ∀ k ∈ b.shown, (k : Int) < b.summaryFrom) ∧
    d.queue.length ≤ MAX_WAITING + d.groups.toFinset.card + (MAX_ALONE_WAITING + 1) * d.aloneTypes.toFinset.card ∧
    (d.queue ≠ [] → d.timer ≠ none) := by
  have sound : d.Sound := by
    refine run.always (P := Sound) (fun d i d' taken sound => ?_) ?_
    · cases i with
      | event fields now e =>
        cases taken
        exact onEvent_sound sound
      | fire fields now => exact fire_sound sound taken
    · exact initial_sound
  have waiting := sound.books.bounded.bound
  rw [List.length_map] at waiting
  have arrived := run_arrived run
  rw [show initial.arrived = [] from rfl, List.nil_append] at arrived
  refine ⟨arrived ▸ sound.books.events, sound.books.entries, sound.books.settled, fun b here => (sound.onDeck b here).front,
    fun b member => (sound.books.formed b member).summary, fun b here cut k shown => ((sound.onDeck b here).apart k shown).2 cut,
    waiting, fun some unset => ?_⟩
  cases deck : d.current with
  | none => exact some (sound.idle deck).1
  | some b =>
    have step := sound.timer b deck
    rw [unset] at step
    cases step

/-- The fields of a box that was never set up. -/
def unsetFields : AlertFields := ⟨none, none, none⟩

/-- Two follows a second apart, and a cheer that waits for them. -/
def follows : List Step :=
  [.event unsetFields 0 ⟨"follow", "a"⟩, .event unsetFields 1000000 ⟨"follow", "b"⟩, .event unsetFields 1200000 ⟨"cheer", "c"⟩,
    .fire unsetFields 1300000, .fire unsetFields 7000000, .fire unsetFields 7360000]

/-- The follows are gone, both were in front, and the cheer is on the deck. -/
theorem no_alert_lost_follows : ∃ ms d, Run (fun d i d' => step d i = some d') initial ms d ∧
    (d.bursts.flatMap Burst.events).Perm (ms.flatMap fun m => m.input.events) ∧ (∀ b ∈ d.gone, b.Settled) ∧
    d.gone.map Burst.shown = [[1, 0, 0]] ∧ d.current.map Burst.group = some none := by
  obtain ⟨ms, d, run, shows⟩ := exists_run_of_follow step initial follows
    (fun _ d => d.gone.map Burst.shown = [[1, 0, 0]] && d.current.map Burst.group = some none) rfl
  have whole := no_alert_lost run
  rw [Bool.and_eq_true, decide_eq_true_eq, decide_eq_true_eq] at shows
  exact ⟨ms, d, run, whole.1, whole.2.2.1, shows⟩

/-! ### The deck drains -/

/-- A bound on the timer's steps, were no event to come. -/
def stepsLeft (d : AlertBox) : Nat :=
  (d.current.elim 0 fun b => if b.leaving then 1 else b.events.length - b.front + 1) + (d.queue.map fun b => b.events.length + 2).sum

theorem plan_stepsLeft (d : AlertBox) (fields : AlertFields) (now : Int) (b : Burst) :
    (d.plan fields now b).stepsLeft = ({ d with current := some b } : AlertBox).stepsLeft := by
  simp only [stepsLeft, plan, Burst.layout]
  rcases b.holdTime_cases fields with same | ⟨-, s, same, -⟩ <;> rw [same] <;> split <;> rfl

theorem fire_stepsLeft (sound : d.Sound) (fired : d.fire fields now = some d') : d'.stepsLeft < d.stepsLeft := by
  obtain ⟨b, deck, done⟩ := fire_cases fired
  have at_step := sound.timer b deck
  have inside : b.front < b.events.length := by
    have front := (sound.onDeck b deck).front
    have summary := (sound.books.formed b (by simp [deck])).summary
    unfold Burst.cardCount at front
    split at front <;> omega
  have staying (other : d.timer.map Prod.fst ≠ some .next) : b.leaving = false := by
    by_contra leaving
    rw [Bool.not_eq_false] at leaving
    exact other (by rw [at_step, stepFor, if_pos leaving])
  rcases done with ⟨timer, rfl⟩ | ⟨timer, rfl⟩ | ⟨timer, rfl⟩
  · rw [advance, plan_stepsLeft]
    simp [stepsLeft, deck, staying (by simp [timer])]
    omega
  · simp [stepsLeft, leave, deck, staying (by simp [timer])]
    omega
  · cases queue : d.queue with
    | nil =>
      simp [stepsLeft, hidden, next, deck, queue]
      split <;> omega
    | cons b' rest =>
      simp only [hidden, next, queue, plan_stepsLeft]
      simp [stepsLeft, deck, queue]
      split <;> split <;> omega

/-- With no more events to come, the timer has but so many steps, and where it has none left every burst has been on the deck. -/
theorem deck_drains {ms : List (Moment AlertBox Step)} {ns : List (Moment AlertBox (AlertFields × Int))}
    (run : Run (fun d i d' => d.step i = some d') initial ms d) (fires : Run (fun d i d' => d.fire i.1 i.2 = some d') d ns d') :
    ns.length + d'.stepsLeft ≤ d.stepsLeft ∧
      ∀ fields now, d'.fire fields now = none → d'.bursts = d'.gone ∧ ∀ b ∈ d'.gone, b.Settled := by
  have sound : d.Sound := by
    refine run.always (P := Sound) (fun d i d' taken sound => ?_) initial_sound
    cases i with
    | event => exact Option.some.inj taken ▸ onEvent_sound sound
    | fire => exact fire_sound sound taken
  clear run
  induction fires with
  | nil d =>
    refine ⟨by simp, fun fields now idle => ⟨?_, sound.books.settled⟩⟩
    cases deck : d.current with
    | none => simp [bursts, deck, (sound.idle deck).1]
    | some b =>
      obtain ⟨⟨due, _⟩, set, -⟩ := Option.map_eq_some_iff.mp (sound.timer b deck)
      cases due <;> simp [fire, set, deck] at idle
  | cons fired _ ih =>
    obtain ⟨fewer, rest⟩ := ih (fire_sound sound fired)
    have less := fire_stepsLeft sound fired
    refine ⟨?_, rest⟩
    rw [List.length_cons]
    omega
/-- A follow alone, whose two steps are all there are. -/
theorem deck_drains_alone : ∃ (ns : List (Moment AlertBox (AlertFields × Int))) (d' : AlertBox),
    Run (fun d i d' => fire d i.1 i.2 = some d') (onEvent initial unsetFields 0 ⟨"follow", "a"⟩) ns d' ∧ ns.length = 2 ∧ d'.bursts = d'.gone ∧ ∀ b ∈ d'.gone, b.Settled := by
  have run : Run (fun d i d' => step d i = some d') initial _ _ := .cons (i := .event unsetFields 0 ⟨"follow", "a"⟩) rfl (.nil _)
  obtain ⟨ns, d', fires, shown⟩ := exists_run_of_follow (fun d i => fire d i.1 i.2) (onEvent initial unsetFields 0 ⟨"follow", "a"⟩)
    [(unsetFields, 5000000), (unsetFields, 5360000)] (fun ns d' => ns.length = 2 && (d'.fire unsetFields 0).isNone) rfl
  rw [Bool.and_eq_true, decide_eq_true_eq, Option.isNone_iff_eq_none] at shown
  exact ⟨ns, d', fires, shown.1, (deck_drains run fires).2 _ _ shown.2⟩

end AlertBox

end Braidcast.Overlay
