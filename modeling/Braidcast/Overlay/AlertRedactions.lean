import Braidcast.Overlay.AlertCards

/-!
# Removed words leave the alert box

In every state the texts of the deck, the live region's among them, have only messages that their
events have. A redaction then leaves none of its words, unless the live region outlives its burst.
-/
namespace Braidcast.Overlay

open Lib AlertCard

namespace AlertView

variable {v v' : AlertView} {f : DrawFields} {b b' : Burst} {now : Int} {e : AlertEvent} {id : String} {place : Nat} {key : CardKey}
  {said text : Option (String × String)} {message message' : String → Option String} {events events' : List AlertEvent}
  {redacts : String → Bool}

/-- No text on the deck has a message that its event has not. -/
structure Drawn (v : AlertView) : Prop where
  sound : v.box.Sound
  one : One v.cards
  idle : v.box.current = none → v.cards = []
  cards : ∀ b ∈ v.box.current, ∀ c ∈ v.cards, Shows v.message b.events c.key c.said
  live : ∀ b ∈ v.box.current, Shows v.message b.events (cardKey b b.front) v.live

/-- A text stays right while its event stays in its place and has its message. -/
theorem Shows.keeps (shows : Shows message events key said) (longer : events <+: events')
    (same : ∀ e ∈ events, message' e.rest = message e.rest) : Shows message' events' key said := by
  intro s there
  obtain ⟨k, e, place, found, own, has⟩ := shows s there
  obtain ⟨more, rfl⟩ := longer
  refine ⟨k, e, place, (List.getElem?_append_left (List.getElem?_eq_some_iff.mp found).1).trans found, own, ?_⟩
  rw [← own, same e (List.mem_of_getElem? found), own, has]

theorem one_nil : One [] := fun _ => Nat.zero_le 1

/-- Another layout, with the same front card. -/
theorem drawn_layout (sound : v.box.Sound) (deck : v.box.current = some b) (one : One v.cards)
    (pending : ∀ c ∈ v.cards, v.Pending b [] c) (live : Shows v.message b.events (cardKey b b.front) v.live) :
    Drawn (v.layout f b) := by
  have formed := sound.books.formed b (by simp [deck])
  obtain ⟨one', shows⟩ := layout_shows (f := f) formed one pending
  refine ⟨sound, one', fun idle => ?_, fun b' here => ?_, fun b' here => ?_⟩
  · cases deck.symm.trans idle
  · cases deck.symm.trans here
    exact shows
  · cases deck.symm.trans here
    exact live

/-- A layout and what is announced after it. -/
theorem drawn_announced (sound : v.box.Sound) (deck : v.box.current = some b) (one : One v.cards)
    (pending : ∀ c ∈ v.cards, v.Pending b [] c) : Drawn ((v.layout f b).announce b) := by
  have formed := sound.books.formed b (by simp [deck])
  have live := announce_shows (f := f) formed (sound.onDeck b deck).front one pending
  obtain ⟨one', shows⟩ := layout_shows (f := f) formed one pending
  obtain ⟨box, cards, message, -⟩ := (v.layout f b).announce_rest b
  refine ⟨box ▸ sound, cards ▸ one', fun idle => ?_, fun b' here => ?_, fun b' here => ?_⟩
  · cases (deck.symm.trans (box ▸ idle :))
  · cases (deck.symm.trans (box ▸ here :))
    rw [cards, message]
    exact shows
  · cases (deck.symm.trans (box ▸ here :))
    rw [message]
    exact live

theorem come_drawn (sound : v.box.Sound) (idle : v.box.current = none → v.cards = []) : Drawn (v.come f) := by
  unfold come
  split
  next b deck => exact drawn_announced (v := { v with cards := [] }) sound deck one_nil fun c none => (nomatch none)
  next empty =>
    refine ⟨sound, idle empty ▸ one_nil, idle, fun b here => ?_, fun b here => ?_⟩
    · cases empty.symm.trans here
    · cases empty.symm.trans here

/-- Planning cuts a burst behind its front card. -/
theorem planned_front (b : Burst) (fields : AlertFields) :
    cardKey (b.holdTime fields).1.layout (b.holdTime fields).1.layout.front = cardKey b b.front := by
  have laid : cardKey (b.holdTime fields).1.layout (b.holdTime fields).1.layout.front =
      cardKey (b.holdTime fields).1 (b.holdTime fields).1.front := by
    unfold Burst.layout
    split <;> rfl
  rw [laid]
  rcases b.holdTime_cases fields with same | ⟨uncut, s, same, behind, -⟩
  · rw [same]
  · rw [same]
    have whole : b.isSummary b.front = false := by
      simp [Burst.isSummary, uncut]
    have whole' : ({ b with summaryFrom := s } : Burst).isSummary b.front = false := by
      simp only [Burst.isSummary, Bool.and_eq_false_iff, decide_eq_false_iff_not]
      omega
    unfold cardKey
    dsimp only
    rw [whole, whole']

theorem planned_events (b : Burst) (fields : AlertFields) : (b.holdTime fields).1.layout.events = b.events := by
  rw [(Burst.layout_planned _).events]
  rcases b.holdTime_cases fields with same | ⟨-, s, same, -⟩
  · rw [same]
  · rw [same]

/-- The events on the deck came before. -/
theorem arrived_of_deck (sound : v.box.Sound) (deck : v.box.current = some b) (member : e ∈ b.events) : e ∈ v.box.arrived := by
  refine sound.books.events.subset (List.mem_flatMap.mpr ⟨b, ?_, member⟩)
  simp [deck]

/-- A new event's words are in no text. -/
theorem hold_shows (sound : v.box.Sound) (deck : v.box.current = some b) (fresh : ∀ old ∈ v.box.arrived, old.rest ≠ e.rest)
    (id : String) (own : Option String) (longer : b.events <+: events') (shows : Shows v.message b.events key said) :
    Shows (v.hold e id own).message events' key said :=
  shows.keeps longer fun old member => Function.update_of_ne (fresh old (arrived_of_deck sound deck member)) ..

/-- An event that is drawn nowhere. -/
theorem Drawn.hold (drawn : v.Drawn) (fresh : ∀ old ∈ v.box.arrived, old.rest ≠ e.rest) (id : String) (own : Option String)
    {box : AlertBox} (sound : box.Sound) (same : box.current = v.box.current) : Drawn { v.hold e id own with box := box } where
  sound := sound
  one := drawn.one
  idle empty := drawn.idle (same ▸ empty)
  cards b here c member :=
    have deck : v.box.current = some b := same ▸ here
    hold_shows drawn.sound deck fresh id own (List.prefix_refl _) (drawn.cards b deck c member)
  live b here :=
    have deck : v.box.current = some b := same ▸ here
    hold_shows drawn.sound deck fresh id own (List.prefix_refl _) (drawn.live b deck)

/-- An event that does not join the deck leaves it alone, or comes to an empty one. -/
theorem current_of_event {d : AlertBox} {fields : AlertFields}
    (alone : { d with arrived := d.arrived ++ [e] }.joinDeck fields now e = none)
    (waits : (d.joinTail fields now e).or ((d.joinGroup now e).or (d.joinOverflow now e)) = none → d.current.isNone = false) :
    (d.onEvent fields now e).current = d.current := by
  unfold AlertBox.onEvent
  dsimp only
  rw [alone]
  dsimp only
  split
  next => rfl
  next left =>
    unfold AlertBox.enqueue
    dsimp only
    rw [waits left]
    rfl

theorem onEvent_drawn (drawn : v.Drawn) (fresh : ∀ old ∈ v.box.arrived, old.rest ≠ e.rest) (own : Option String) :
    Drawn (v.onEvent f now e id own) := by
  have sound : (v.box.onEvent f.queue now e).Sound := AlertBox.onEvent_sound drawn.sound
  unfold onEvent
  dsimp only
  split
  next d' joined =>
    -- the burst on the deck takes the event and is laid out again
    obtain ⟨-, b, -, deck, -, rfl⟩ := AlertBox.joinDeck_cases joined
    have deck : v.box.current = some b := deck
    let b' := ((b.push e now).holdTime f.queue).1.layout
    have deck' : (v.box.onEvent f.queue now e).current = some b' := by
      unfold AlertBox.onEvent
      dsimp only
      rw [joined]
      rfl
    have longer : b.events <+: b'.events := ⟨[e], (planned_events (b.push e now) f.queue).symm⟩
    have front : cardKey b' b'.front = cardKey b b.front := planned_front (b.push e now) f.queue
    split
    next b'' here =>
      cases deck'.symm.trans here
      refine drawn_layout (v := { v.hold e id own with box := v.box.onEvent f.queue now e }) sound deck' drawn.one
        (fun c member => .inl ?_) ?_
      · exact hold_shows drawn.sound deck fresh id own longer (drawn.cards b deck c member)
      · rw [front]
        exact hold_shows drawn.sound deck fresh id own longer (drawn.live b deck)
    next empty => cases deck'.symm.trans empty
  next alone =>
    split
    next queue joined =>
      exact drawn.hold fresh id own sound (current_of_event alone fun left => nomatch joined.symm.trans left)
    next left =>
      split
      next idle =>
        exact come_drawn (v := { v.hold e id own with box := v.box.onEvent f.queue now e }) sound
          fun _ => drawn.idle (Option.isNone_iff_eq_none.mp idle)
      next busy =>
        exact drawn.hold fresh id own sound (current_of_event alone fun _ => Bool.eq_false_iff.mpr busy)

/-- The front card goes, with its text. -/
theorem exitFront_cards (one : One v.cards) (b : Burst) : One (v.exitFront b).cards ∧
    ∀ c ∈ (v.exitFront b).cards, ∃ c' ∈ v.cards, c.key = c'.key ∧ c.said = c'.said := by
  unfold exitFront
  dsimp only
  rw [modifyFirst_eq_map _ (one _)]
  constructor
  · intro key
    rw [List.countP_map]
    refine (List.countP_mono_left fun c _ stands => ?_).trans (one key)
    dsimp only [Function.comp_apply] at stands
    split at stands
    next => cases (standing_iff.mp stands).1
    next => exact stands
  · intro c member
    obtain ⟨c', there, rfl⟩ := List.mem_map.mp member
    refine ⟨c', there, ?_⟩
    split <;> exact ⟨rfl, rfl⟩

/-- The deck's timer did one of its steps. -/
theorem fire_drawn (drawn : v.Drawn) (fired : v.fire f now = some v') : v'.Drawn := by
  obtain ⟨box, step, rfl⟩ := Option.map_eq_some_iff.mp fired
  have sound := AlertBox.fire_sound drawn.sound step
  obtain ⟨b, deck, ⟨timer, moved⟩ | ⟨timer, moved⟩ | ⟨timer, moved⟩⟩ := AlertBox.fire_cases step
  · -- the front card leaves, and the next one is announced
    obtain ⟨b', deck', same⟩ : ∃ b', box.current = some b' ∧ b'.events = b.events := by
      rw [moved]
      exact ⟨_, rfl, planned_events { b with front := b.front + 1, frontAt := now } f.queue⟩
    rw [timer, deck, deck']
    obtain ⟨one, cards⟩ := exitFront_cards drawn.one b
    refine drawn_announced (v := { v.exitFront b with box := box }) sound deck' one fun c member => .inl ?_
    obtain ⟨c', there, place, text⟩ := cards c member
    rw [same, place, text]
    exact drawn.cards b deck c' there
  · -- the deck leaves with its cards on it
    have deck' : box.current = some { b with leaving := true } := by
      rw [moved]
      rfl
    rw [timer, deck, deck']
    refine ⟨sound, drawn.one, fun empty => ?_, fun b' here => ?_, fun b' here => ?_⟩
    · cases deck'.symm.trans empty
    · cases deck'.symm.trans here
      exact drawn.cards b deck
    · cases deck'.symm.trans here
      exact drawn.live b deck
  · rw [timer]
    exact come_drawn (v := { v with box := box, cards := [] }) sound fun _ => rfl

theorem exited_drawn (drawn : v.Drawn) (exits : v.exited place = some v') : v'.Drawn := by
  unfold exited at exits
  split at exits
  next =>
    cases exits
    have fewer := List.eraseIdx_sublist v.cards place
    refine ⟨drawn.sound, fun key => fewer.countP_le.trans (drawn.one key), fun empty => ?_, fun b deck c member => ?_, drawn.live⟩
    · exact List.sublist_nil.mp (drawn.idle empty ▸ fewer)
    · exact drawn.cards b deck c (fewer.subset member)
  next => cases exits

/-- What is removed depends on the object alone. -/
theorem delete_message (kept : v.loses redacts e = false) : (v.delete redacts).message e.rest = v.message e.rest := by
  unfold delete
  dsimp only
  rw [if_neg]
  intro removed
  obtain ⟨b, -, removed⟩ := List.any_eq_true.mp removed
  obtain ⟨e', -, removed⟩ := List.any_eq_true.mp removed
  obtain ⟨same, loses⟩ := Bool.and_eq_true_iff.mp removed
  have same : e'.rest = e.rest := of_decide_eq_true same
  unfold AlertView.loses at loses kept
  rw [same, kept] at loses
  cases loses

/-- A text that showed none of the words is as right as it was. -/
theorem delete_shows (shows : Shows v.message b.events key said) (kept : v.hit b redacts key = false) :
    Shows (v.delete redacts).message b.events key said := by
  intro s there
  obtain ⟨k, e, rfl, found, own, has⟩ := shows s there
  refine ⟨k, e, rfl, found, own, ?_⟩
  have stays : v.loses redacts e = false := by
    simpa only [hit, found, Option.any_some] using kept
  rw [← own, delete_message stays, own, has]

theorem hit_of_none (clean : b.events.any (v.loses redacts) = false) (key : CardKey) : v.hit b redacts key = false := by
  cases key with
  | summary => rfl
  | event k =>
    simp only [hit]
    cases found : b.events[k]? with
    | none => rfl
    | some e => exact Bool.eq_false_iff.mpr (List.any_eq_false.mp clean e (List.mem_of_getElem? found))

/-- The cards that showed the words go with them, or are drawn again. -/
theorem redacted_pending (drawn : v.Drawn) (deck : v.box.current = some b) (redacts : String → Bool) {c : AlertCard}
    (member : c ∈ (v.cards.filter fun c => !(c.exiting && v.hit b redacts c.key)).map fun c =>
      if v.hit b redacts c.key then { c with filled := false } else c) : (v.delete redacts).Pending b [] c := by
  obtain ⟨c', there, rfl⟩ := List.mem_map.mp member
  obtain ⟨there, stays⟩ := List.mem_filter.mp there
  cases hits : v.hit b redacts c'.key with
  | true =>
    rw [hits, Bool.and_true, Bool.not_eq_true'] at stays
    exact .inr ⟨⟨stays, .inr rfl⟩, List.not_mem_nil⟩
  | false => exact .inl (delete_shows (drawn.cards b deck c' there) hits)

theorem redacted_one (one : One v.cards) (b : Burst) (redacts : String → Bool) :
    One ((v.cards.filter fun c => !(c.exiting && v.hit b redacts c.key)).map fun c =>
      if v.hit b redacts c.key then { c with filled := false } else c) := by
  intro key
  rw [List.countP_map]
  have same : (standing key ∘ fun c => if v.hit b redacts c.key then { c with filled := false } else c) = standing key := by
    funext c
    dsimp only [Function.comp_apply]
    split <;> rfl
  rw [same]
  exact List.filter_sublist.countP_le.trans (one key)

theorem onEventRedaction_drawn (drawn : v.Drawn) (redacts : String → Bool) : Drawn (v.onEventRedaction f redacts) := by
  unfold onEventRedaction
  dsimp only
  split
  next empty =>
    refine ⟨drawn.sound, drawn.one, drawn.idle, fun b here => ?_, fun b here => ?_⟩
    · cases empty.symm.trans here
    · cases empty.symm.trans here
  next b deck =>
    have alone {b' : Burst} (here : b' ∈ v.box.current) : b' = b := Option.some.inj (here.symm.trans deck)
    split
    next clean =>
      have kept := hit_of_none (Bool.eq_false_iff.mpr fun some => (by simp [some] at clean) : b.events.any (v.loses redacts) = false)
      refine ⟨drawn.sound, drawn.one, drawn.idle, fun b' here c member => ?_, fun b' here => ?_⟩
      · exact delete_shows (drawn.cards b' here c member) (alone here ▸ kept _)
      · exact delete_shows (drawn.live b' here) (alone here ▸ kept _)
    split
    next => exact ⟨drawn.sound, one_nil, fun _ => rfl, fun b' here c none => (nomatch none), fun b' here => shows_none⟩
    have pending (c) := redacted_pending drawn deck redacts (c := c)
    have one := redacted_one drawn.one b redacts
    split
    next => exact drawn_announced (v := { v.delete redacts with cards := _ }) drawn.sound deck one pending
    next kept =>
      exact drawn_layout (v := { v.delete redacts with cards := _ }) drawn.sound deck one pending
        (delete_shows (drawn.live b deck) (Bool.eq_false_iff.mpr kept))

/-- The words that a redaction names are nowhere: in no event that is held, on no card and not in the
live region. -/
structure Redacted (v : AlertView) (redacts : String → Bool) : Prop where
  held : ∀ b ∈ v.bursts, ∀ e ∈ b.events, (v.message e.rest).isSome = true → redacts (v.id e.rest) = false
  cards : ∀ c ∈ v.cards, ∀ s ∈ c.said, redacts (v.id s.1) = false
  live : ∀ s ∈ v.live, redacts (v.id s.1) = false

theorem onEventRedaction_rest (v : AlertView) (f : DrawFields) (redacts : String → Bool) : (v.onEventRedaction f redacts).box = v.box ∧
    (v.onEventRedaction f redacts).id = v.id ∧ (v.onEventRedaction f redacts).message = (v.delete redacts).message ∧
    (v.box.current = none → (v.onEventRedaction f redacts).live = v.live) := by
  unfold onEventRedaction
  dsimp only
  split
  next => exact ⟨rfl, rfl, rfl, fun _ => rfl⟩
  next b deck =>
    have busy : v.box.current ≠ none := fun empty => nomatch deck.symm.trans empty
    split
    next => exact ⟨rfl, rfl, rfl, fun _ => rfl⟩
    split
    next => exact ⟨rfl, rfl, rfl, fun empty => absurd empty busy⟩
    split
    next =>
      obtain ⟨box, -, message, id⟩ := announce_rest (({ v.delete redacts with cards := _ } : AlertView).layout f b) b
      exact ⟨box, id, message, fun empty => absurd empty busy⟩
    next => exact ⟨rfl, rfl, rfl, fun empty => absurd empty busy⟩

/-- The events that are held lose the words. -/
theorem delete_held (redacts : String → Bool) (here : b ∈ v.bursts) (member : e ∈ b.events)
    (stays : ((v.delete redacts).message e.rest).isSome = true) : redacts (v.id e.rest) = false := by
  unfold delete at stays
  dsimp only at stays
  split at stays
  next => cases stays
  next kept =>
    refine Bool.eq_false_iff.mpr fun named => kept ?_
    refine List.any_eq_true.mpr ⟨b, here, List.any_eq_true.mpr ⟨e, member, ?_⟩⟩
    simp [loses, stays, named]

/-- Where every text is right, the words are gone with those of the events. -/
theorem Drawn.gone_iff (drawn : v.Drawn)
    (held : ∀ b ∈ v.bursts, ∀ e ∈ b.events, (v.message e.rest).isSome = true → redacts (v.id e.rest) = false) :
    v.Redacted redacts ↔ (v.box.current = none → ∀ s ∈ v.live, redacts (v.id s.1) = false) := by
  have gone {b : Burst} {key : CardKey} {said : Option (String × String)} (deck : v.box.current = some b) (shows : Shows v.message b.events key said) :
      ∀ s ∈ said, redacts (v.id s.1) = false := by
    intro s there
    obtain ⟨k, e, -, found, own, has⟩ := shows s there
    rw [← own]
    refine held b (by simp [bursts, deck]) e (List.mem_of_getElem? found) ?_
    rw [own, has]
    rfl
  constructor
  · exact fun redacted _ => redacted.live
  · intro outlives
    cases deck : v.box.current with
    | none =>
      refine ⟨held, fun c member => ?_, outlives deck⟩
      rw [drawn.idle deck] at member
      cases member
    | some b => exact ⟨held, fun c member => gone deck (drawn.cards b deck c member), gone deck (drawn.live b deck)⟩

theorem react_drawn {i : Input} (step : v.react i = some v') (drawn : v.Drawn) : v'.Drawn := by
  cases i with
  | event f now e id own =>
    unfold react at step
    dsimp only at step
    split at step
    next fresh =>
      cases step
      exact onEvent_drawn drawn (fun old member => of_decide_eq_true (List.all_eq_true.mp fresh old member)) own
    next => cases step
  | fire f now => exact fire_drawn drawn step
  | exited place => exact exited_drawn drawn step
  | redaction f redacts =>
    cases step
    exact onEventRedaction_drawn drawn redacts

theorem initial_drawn : initial.Drawn where
  sound := AlertBox.initial_sound
  one := one_nil
  idle _ := rfl
  cards _ none := by cases none
  live _ none := by cases none

/-- After any events, steps of the timer, ends of exits and redactions: another redaction leaves none
of its words, if and only if they are not in a live region whose burst has left the deck. -/
theorem redacted_iff {ms : List (Moment AlertView Input)} (run : Run (fun v i v' => v.react i = some v') initial ms v)
    (f : DrawFields) (redacts : String → Bool) :
    (v.onEventRedaction f redacts).Redacted redacts ↔ (v.box.current = none → ∀ s ∈ v.live, redacts (v.id s.1) = false) := by
  have drawn : v.Drawn := run.always (P := Drawn) (fun _ _ _ step drawn => react_drawn step drawn) initial_drawn
  obtain ⟨box, id, message, live⟩ := v.onEventRedaction_rest f redacts
  have held (b) (here : b ∈ (v.onEventRedaction f redacts).bursts) (e) (member : e ∈ b.events)
      (stays : ((v.onEventRedaction f redacts).message e.rest).isSome = true) : redacts ((v.onEventRedaction f redacts).id e.rest) = false := by
    unfold bursts at here
    rw [box] at here
    rw [message] at stays
    rw [id]
    exact delete_held redacts here member stays
  rw [(onEventRedaction_drawn drawn redacts).gone_iff held, box, id]
  exact forall_congr' fun empty => by rw [live empty]

/-- A box that was never set up, whose templates all have the message. -/
def spokenFields : DrawFields := ⟨AlertBox.unsetFields, fun _ => true⟩

/-- Two cheers, the second of which waits. -/
def cheers : List Input :=
  [.event spokenFields 0 ⟨"cheer", "a"⟩ "1" (some "hello"), .event spokenFields 1000 ⟨"cheer", "b"⟩ "2" (some "words")]

/-- The words of the first are on its card and in the live region, and both lose theirs. -/
theorem redacted_iff_cheers : ∃ ms v, Run (fun v i v' => react v i = some v') initial ms v ∧
    v.live = some ("a", "hello") ∧ v.cards.map AlertCard.said = [some ("a", "hello")] ∧ v.message "b" = some "words" ∧
    (v.onEventRedaction spokenFields fun _ => true).Redacted fun _ => true := by
  obtain ⟨ms, v, run, shows⟩ := exists_run_of_follow react initial cheers (fun _ v => v.live = some ("a", "hello") &&
    v.cards.map AlertCard.said = [some ("a", "hello")] && v.message "b" = some "words" && v.box.current.isSome) (by decide)
  simp only [Bool.and_eq_true, decide_eq_true_eq] at shows
  obtain ⟨⟨⟨live, cards⟩, waits⟩, deck⟩ := shows
  refine ⟨ms, v, run, live, cards, waits, (redacted_iff run spokenFields fun _ => true).mpr fun empty => ?_⟩
  rw [empty] at deck
  cases deck

/-- A cheer that is over: the live region is the last to have its words, and a redaction leaves them. -/
theorem not_redacted : ∃ ms v, Run (fun v i v' => react v i = some v') initial ms v ∧
    ¬ (v.onEventRedaction spokenFields fun id => id = "1").Redacted fun id => id = "1" := by
  obtain ⟨ms, v, run, shows⟩ := exists_run_of_follow react initial
    [.event spokenFields 0 ⟨"cheer", "a"⟩ "1" (some "hello"), .fire spokenFields 5000000, .fire spokenFields 5360000]
    (fun _ v => (v.onEventRedaction spokenFields fun id => id = "1").live = some ("a", "hello") &&
      (v.onEventRedaction spokenFields fun id => id = "1").id "a" = "1") (by decide)
  rw [Bool.and_eq_true, decide_eq_true_eq, decide_eq_true_eq] at shows
  refine ⟨ms, v, run, fun redacted => ?_⟩
  have gone := redacted.live ("a", "hello") shows.1
  rw [shows.2] at gone
  exact absurd gone (by decide)

end AlertView

end Braidcast.Overlay
