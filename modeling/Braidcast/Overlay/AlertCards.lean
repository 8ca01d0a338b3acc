import Braidcast.Overlay.AlertWords

/-!
# The cards of a burst

A layout draws every card that is to be drawn again, and leaves no card whose text has the message
of an event that has none. It does so because no two cards stand for one place.
-/
namespace Braidcast.Overlay

open Lib AlertCard

namespace AlertView

variable {v : AlertView} {f : DrawFields} {b : Burst} {k : Nat} {c : AlertCard} {cards : List AlertCard} {key : CardKey}
  {said : Option (String × String)} {message : String → Option String} {events : List AlertEvent} {done : List CardKey}

/-- A text has no message, or that of the event at its place, which has it still. -/
def Shows (message : String → Option String) (events : List AlertEvent) (key : CardKey) (said : Option (String × String)) : Prop :=
  ∀ s ∈ said, ∃ k e, key = .event k ∧ events[k]? = some e ∧ e.rest = s.1 ∧ message s.1 = some s.2

theorem shows_none : Shows message events key none := fun _ nothing => (nomatch nothing)

/-- At most one card stands for a place. -/
def One (cards : List AlertCard) : Prop := ∀ key, cards.countP (standing key) ≤ 1

/-- A card that the next layout draws again. -/
structure Redraws (c : AlertCard) : Prop where
  stays : c.exiting = false
  stale : c.key = .summary ∨ c.filled = false

theorem Redraws.standing (redraws : Redraws c) : standing c.key c = true := by
  simp [AlertCard.standing, redraws.stays]

/-- The text is right, or it is still to be drawn. -/
def Pending (v : AlertView) (b : Burst) (done : List CardKey) (c : AlertCard) : Prop :=
  Shows v.message b.events c.key c.said ∨ Redraws c ∧ c.key ∉ done

/-- The burst has an event for every card that is not its "+N more" card. -/
theorem event_of_want (formed : b.Formed) (wanted : k ∈ want b) (whole : cardKey b k ≠ .summary) : ∃ e, b.events[k]? = some e := by
  have inside : k < b.cardCount := by simpa using (List.mem_filter.mp wanted).2
  have place : b.isSummary k = false := by
    cases summary : b.isSummary k with
    | true => exact absurd (if_pos summary) whole
    | false => rfl
  have few : k < b.events.length := by
    unfold Burst.cardCount at inside
    unfold Burst.isSummary at place
    have summary := formed.summary
    split at inside
    next cut =>
      simp only [cut, decide_true, Bool.true_and, decide_eq_false_iff_not] at place
      omega
    next => exact inside
  exact ⟨_, List.getElem?_eq_getElem few⟩

theorem fill_key (v : AlertView) (f : DrawFields) (b : Burst) (k : Nat) (c : AlertCard) :
    (v.fill f b k c).key = c.key ∧ (v.fill f b k c).exiting = c.exiting := by
  unfold fill
  split
  · exact ⟨rfl, rfl⟩
  split
  · exact ⟨rfl, rfl⟩
  split <;> exact ⟨rfl, rfl⟩

/-- A filled card has the right text. -/
theorem fill_shows (formed : b.Formed) (wanted : k ∈ want b) (here : c.key = cardKey b k) (pending : c.filled = true → v.Pending b done c) :
    Shows v.message b.events (cardKey b k) (v.fill f b k c).said := by
  unfold fill
  by_cases summary : cardKey b k = .summary
  · rw [if_pos summary]
    exact shows_none
  rw [if_neg summary]
  have place : cardKey b k = .event k := by
    unfold cardKey at summary ⊢
    split at summary
    · exact absurd rfl summary
    next => rw [if_neg (by assumption)]
  by_cases filled : c.filled = true
  · rw [if_pos filled, ← here]
    rcases pending filled with shows | ⟨redraws, -⟩
    · exact shows
    · rcases redraws.stale with stale | stale
      · exact absurd (here.symm.trans stale) summary
      · exact absurd (filled.symm.trans stale) (by decide)
  · obtain ⟨e, found⟩ := event_of_want formed wanted summary
    rw [if_neg filled, found]
    dsimp only [fillCard]
    split
    · intro s said
      obtain ⟨m, there, rfl⟩ := Option.map_eq_some_iff.mp said
      exact ⟨k, e, place, found, rfl, there⟩
    · exact shows_none

theorem standing_iff : standing key c = true ↔ c.exiting = false ∧ c.key = key := by
  simp [AlertCard.standing]

/-- A card is there for the place, and it is the only one. -/
theorem one_added (one : One cards) (key : CardKey) :
    One (if cards.any (standing key) then cards else cards ++ [⟨key, false, false, none⟩]) := by
  split
  next => exact one
  next absent =>
    intro key'
    rw [List.countP_append, List.countP_singleton]
    by_cases same : key' = key
    · subst same
      have none : cards.countP (standing key') = 0 := by
        rw [List.countP_eq_zero]
        exact fun c member stands => absent (List.any_eq_true.mpr ⟨c, member, stands⟩)
      rw [none]
      split <;> decide
    · have other : standing key' ⟨key, false, false, none⟩ = false := by
        simp [AlertCard.standing, Ne.symm same]
      rw [other]
      exact one key'

theorem one_fill (one : One cards) (key : CardKey) (g : AlertCard → AlertCard) (same : ∀ c, (g c).key = c.key ∧ (g c).exiting = c.exiting) :
    One (modifyFirst (standing key) g cards) := by
  intro key'
  rw [modifyFirst_eq_map g (one key), List.countP_map]
  have kept : (standing key' ∘ fun c => if standing key c then g c else c) = standing key' := by
    funext c
    unfold AlertCard.standing
    dsimp only [Function.comp_apply]
    split
    · rw [(same c).1, (same c).2]
    · rfl
  rw [kept]
  exact one key'

/-- One turn of the loop: the card of the place is right after it. -/
theorem draw_pending (formed : b.Formed) (wanted : k ∈ want b) (one : One cards) (pending : ∀ c ∈ cards, v.Pending b done c) :
    One (v.draw f b cards k) ∧ ∀ c ∈ v.draw f b cards k, v.Pending b (cardKey b k :: done) c := by
  have added := one_added one (cardKey b k)
  refine ⟨one_fill added _ _ (v.fill_key f b k), fun c member => ?_⟩
  unfold draw at member
  dsimp only at member
  rw [modifyFirst_eq_map _ (added (cardKey b k))] at member
  obtain ⟨c', there, rfl⟩ := List.mem_map.mp member
  have before : c' ∈ cards ∨ c' = ⟨cardKey b k, false, false, none⟩ := by
    split at there
    · exact .inl there
    · exact (List.mem_append.mp there).imp_right List.mem_singleton.mp
  by_cases here : standing (cardKey b k) c' = true
  · rw [if_pos here]
    obtain ⟨-, place⟩ := standing_iff.mp here
    have kept (filled : c'.filled = true) : v.Pending b done c' := by
      rcases before with old | new
      · exact pending c' old
      · rw [new] at filled
        cases filled
    left
    rw [(v.fill_key f b k c').1, place]
    exact fill_shows formed wanted place kept
  · rw [if_neg here]
    rcases before with old | new
    · rcases pending c' old with shows | ⟨redraws, todo⟩
      · exact .inl shows
      · refine .inr ⟨redraws, fun member => ?_⟩
        rcases List.mem_cons.mp member with same | later
        · exact here (same ▸ redraws.standing)
        · exact todo later
    · rw [new] at here
      exact absurd (standing_iff.mpr ⟨rfl, rfl⟩) here

variable {places : List Nat}

/-- The whole loop: the cards of all the places are right after it. -/
theorem draws_pending (formed : b.Formed) (wanted : ∀ k ∈ places, k ∈ want b) (one : One cards)
    (pending : ∀ c ∈ cards, v.Pending b done c) :
    One (places.foldl (v.draw f b) cards) ∧
      ∀ c ∈ places.foldl (v.draw f b) cards, v.Pending b ((places.map (cardKey b)).reverse ++ done) c := by
  induction places generalizing cards done with
  | nil => exact ⟨one, pending⟩
  | cons k places ih =>
    obtain ⟨one', pending'⟩ : One (v.draw f b cards k) ∧ ∀ c ∈ v.draw f b cards k, v.Pending b (cardKey b k :: done) c :=
      draw_pending formed (wanted k List.mem_cons_self) one pending
    have rest := ih (fun k' member => wanted k' (List.mem_cons_of_mem _ member)) one' pending'
    rwa [List.map_cons, List.reverse_cons, List.append_assoc]

/-- Whatever stands is for one of the places drawn. -/
def Wanted (b : Burst) (c : AlertCard) : Prop := c.exiting = true ∨ ∃ k ∈ want b, cardKey b k = c.key

theorem draw_wanted (one : One cards) (k : Nat) (wanted : k ∈ want b) (all : ∀ c ∈ cards, Wanted b c) : ∀ c ∈ v.draw f b cards k, Wanted b c := by
  intro c member
  unfold draw at member
  dsimp only at member
  rw [modifyFirst_eq_map _ (one_added one _ _)] at member
  obtain ⟨c', there, rfl⟩ := List.mem_map.mp member
  have before : Wanted b c' := by
    split at there
    · exact all c' there
    · rcases List.mem_append.mp there with old | new
      · exact all c' old
      · rw [List.mem_singleton.mp new]
        exact .inr ⟨k, wanted, rfl⟩
  split
  · unfold Wanted
    rw [(v.fill_key f b k c').1, (v.fill_key f b k c').2]
    exact before
  · exact before

theorem draws_wanted (v : AlertView) (f : DrawFields) (wanted : ∀ k ∈ places, k ∈ want b) (one : One cards)
    (all : ∀ c ∈ cards, Wanted b c) : ∀ c ∈ places.foldl (v.draw f b) cards, Wanted b c := by
  induction places generalizing cards with
  | nil => exact all
  | cons k places ih =>
    have added := one_added one (cardKey b k)
    exact ih (fun k' member => wanted k' (List.mem_cons_of_mem _ member)) (one_fill added _ _ (v.fill_key f b k))
      (draw_wanted one k (wanted k List.mem_cons_self) all)

/-- Taking a card over makes no second card for a place. -/
theorem one_takeOver (one : One cards) : One (takeOver b cards) := by
  unfold takeOver
  split
  next takes =>
    obtain ⟨-, absent⟩ := Bool.and_eq_true_iff.mp takes
    have none : cards.countP (standing .summary) = 0 := by
      rw [List.countP_eq_zero]
      intro c member stands
      rw [List.any_eq_true.mpr ⟨c, member, stands⟩] at absent
      cases absent
    intro key
    rw [modifyFirst_eq_map _ (one _), List.countP_map]
    by_cases summary : key = .summary
    · -- the one card that peeked in the place, and none there was
      refine (List.countP_mono_left fun c member stands => ?_).trans (one (.event b.summaryFrom.toNat))
      dsimp only [Function.comp_apply] at stands
      split at stands
      next here => exact here
      next => exact absurd (summary ▸ stands) (List.countP_eq_zero.mp none c member)
    · refine (List.countP_mono_left fun c _ stands => ?_).trans (one key)
      dsimp only [Function.comp_apply] at stands
      split at stands
      next => exact absurd (standing_iff.mp stands).2 (Ne.symm summary)
      next => exact stands
  next => exact one

/-- A card that was taken over is drawn again. -/
theorem takeOver_pending (one : One cards) (pending : ∀ c ∈ cards, v.Pending b [] c) : ∀ c ∈ takeOver b cards, v.Pending b [] c := by
  unfold takeOver
  split
  next =>
    intro c member
    rw [modifyFirst_eq_map _ (one _)] at member
    obtain ⟨c', there, rfl⟩ := List.mem_map.mp member
    split
    next here => exact .inr ⟨⟨(standing_iff.mp here).1, .inl rfl⟩, List.not_mem_nil⟩
    next => exact pending c' there
  next => exact pending

/-- After a layout every text is right. -/
theorem layout_shows (formed : b.Formed) (one : One v.cards) (pending : ∀ c ∈ v.cards, v.Pending b [] c) :
    One (v.layout f b).cards ∧ ∀ c ∈ (v.layout f b).cards, Shows v.message b.events c.key c.said := by
  let left := (takeOver b v.cards).filter fun c => c.exiting || (want b).any fun k => cardKey b k = c.key
  have kept : left.Sublist (takeOver b v.cards) := List.filter_sublist
  have one' : One left := fun key => kept.countP_le.trans (one_takeOver one key)
  have before (c) (member : c ∈ left) : v.Pending b [] c := takeOver_pending one pending c (kept.subset member)
  have all (c) (member : c ∈ left) : Wanted b c := by
    have stays := (List.mem_filter.mp member).2
    simp only [Bool.or_eq_true, List.any_eq_true, decide_eq_true_eq] at stays
    exact stays
  obtain ⟨one'', pending'⟩ : One ((want b).foldl (v.draw f b) left) ∧
      ∀ c ∈ (want b).foldl (v.draw f b) left, v.Pending b (((want b).map (cardKey b)).reverse ++ []) c :=
    draws_pending formed (fun _ member => member) one' before
  have wanted := draws_wanted v f (fun _ member => member) one' all
  refine ⟨one'', fun c member => ?_⟩
  rcases pending' c member with shows | ⟨redraws, todo⟩
  · exact shows
  · rcases wanted c member with gone | ⟨k, wanted, place⟩
    · exact absurd (redraws.stays.symm.trans gone) (by decide)
    · refine absurd (List.mem_append_left _ (List.mem_reverse.mpr ?_)) todo
      exact List.mem_map.mpr ⟨k, wanted, place⟩

/-- A card that stands for a place still does after another is drawn. -/
theorem draw_any (one : One cards) (k : Nat) (key : CardKey) :
    (v.draw f b cards k).any (standing key) = (decide (key = cardKey b k) || cards.any (standing key)) := by
  unfold draw
  dsimp only
  rw [modifyFirst_eq_map _ (one_added one _ _), List.any_map]
  have kept : (standing key ∘ fun c => if standing (cardKey b k) c then v.fill f b k c else c) = standing key := by
    funext c
    unfold AlertCard.standing
    dsimp only [Function.comp_apply]
    split
    · rw [(v.fill_key f b k c).1, (v.fill_key f b k c).2]
    · rfl
  rw [kept]
  by_cases same : key = cardKey b k
  · subst same
    split
    next there => simp [there]
    next => simp [AlertCard.standing]
  · split
    next => simp [same]
    next => simp [AlertCard.standing, same, Ne.symm same]

theorem draws_any (v : AlertView) (f : DrawFields) (one : One cards)
    (there : k ∈ places ∨ cards.any (standing (cardKey b k)) = true) :
    (places.foldl (v.draw f b) cards).any (standing (cardKey b k)) = true := by
  induction places generalizing cards with
  | nil => exact there.resolve_left List.not_mem_nil
  | cons k' places ih =>
    have added := one_added one (cardKey b k')
    refine ih (one_fill added _ _ (v.fill_key f b k')) ?_
    rw [draw_any one]
    rcases there with listed | stands
    · rcases List.mem_cons.mp listed with rfl | later
      · simp
      · exact .inl later
    · simp [stands]

theorem front_wanted (inside : b.front < b.cardCount) : b.front ∈ want b := by
  unfold want
  rw [List.mem_filter, List.mem_map]
  exact ⟨⟨0, by decide, rfl⟩, by simpa using inside⟩

/-- What is announced after a layout is the text of the front card. -/
theorem announce_shows (formed : b.Formed) (inside : b.front < b.cardCount) (one : One v.cards) (pending : ∀ c ∈ v.cards, v.Pending b [] c) :
    Shows v.message b.events (cardKey b b.front) ((v.layout f b).announce b).live := by
  let left := (takeOver b v.cards).filter fun c => c.exiting || (want b).any fun k => cardKey b k = c.key
  have kept : left.Sublist (takeOver b v.cards) := List.filter_sublist
  have one' : One left := fun key => kept.countP_le.trans (one_takeOver one key)
  have there : (v.layout f b).cards.any (standing (cardKey b b.front)) = true := draws_any v f one' (.inl (front_wanted inside))
  obtain ⟨c, found⟩ := Option.isSome_iff_exists.mp (List.find?_isSome.trans (List.any_eq_true (l := (v.layout f b).cards)).symm |>.mpr there)
  have stands := List.find?_some found
  have shows := (layout_shows (f := f) formed one pending).2 c (List.mem_of_find?_eq_some found)
  unfold announce
  rw [found]
  rw [(standing_iff.mp stands).2] at shows
  exact shows

theorem announce_rest (v : AlertView) (b : Burst) : (v.announce b).box = v.box ∧ (v.announce b).cards = v.cards ∧
    (v.announce b).message = v.message ∧ (v.announce b).id = v.id := by
  unfold announce
  split <;> exact ⟨rfl, rfl, rfl, rfl⟩

end AlertView

end Braidcast.Overlay
