import Braidcast.Overlay.AlertBox
import Mathlib.Algebra.Order.BigOperators.Group.Finset

/-!
# Bursts on their way to the deck

What holds of a burst while it waits, on the deck and after it, and how many can wait.
-/
namespace Braidcast.Overlay

open Lib

namespace Burst

variable {b : Burst} {e : AlertEvent} {now : Int} {fields : AlertFields}

/-- What holds of a burst from its first event on. -/
structure Formed (b : Burst) : Prop where
  some : b.events ≠ []
  grouped : ∀ e ∈ b.events, groupOf e.type = b.group
  summary : b.summaryFrom = -1 ∨ 0 ≤ b.summaryFrom ∧ b.summaryFrom ≤ b.events.length - 2

/-- Only an overflow burst is cut before it comes to the deck. -/
structure Waits (b : Burst) : Prop where
  front : b.front = 0
  shown : b.shown = []
  staying : b.leaving = false
  summary : b.summaryFrom = -1 ∨ b.overflow = true ∧ b.summaryFrom = 0

/-- Every card before the front one was shown; an event that was shown is not counted. -/
structure Ready (b : Burst) : Prop where
  front : b.front < b.cardCount
  shown : ∀ k < b.front, b.summaryFrom < 0 ∨ (k : Int) < b.summaryFrom → k ∈ b.shown
  apart : ∀ k ∈ b.shown, k ≤ b.front ∧ (0 ≤ b.summaryFrom → (k : Int) < b.summaryFrom)

/-- The front card is drawn as well, and only a burst at its last card leaves. -/
structure OnDeck (b : Burst) : Prop extends Ready b where
  drawn : b.summaryFrom < 0 ∨ (b.front : Int) < b.summaryFrom → b.front ∈ b.shown
  leaving : b.leaving = true → b.atLast = true

/-- Each event was in front or is counted, by the card that was in front last. -/
structure Settled (b : Burst) : Prop where
  each : ∀ k < b.events.length, k ∈ b.shown ∨ 0 ≤ b.summaryFrom ∧ b.summaryFrom ≤ k
  counted : 0 ≤ b.summaryFrom → (b.front : Int) = b.summaryFrom

/-- What a place in the queue is counted by. -/
def kind (b : Burst) : Option String × Bool × Option String :=
  (b.group, b.overflow, b.events.head?.map AlertEvent.type)

theorem cardCount_pos (some : b.events ≠ []) : 0 < b.cardCount := by
  unfold cardCount
  split
  · exact Nat.succ_pos _
  · exact List.length_pos_iff.mpr some

theorem OnDeck.settled (onDeck : b.OnDeck) (last : b.atLast = true) : b.Settled := by
  have front := onDeck.front
  unfold atLast cardCount at last
  unfold cardCount at front
  constructor
  · intro k inside
    by_cases cut : 0 ≤ b.summaryFrom
    · by_cases counted : b.summaryFrom ≤ k
      · exact .inr ⟨cut, counted⟩
      · rw [if_pos cut, decide_eq_true_eq] at last
        exact .inl (onDeck.shown k (by omega) (.inr (by omega)))
    · rw [if_neg cut, decide_eq_true_eq] at last
      rw [if_neg cut] at front
      rcases Nat.lt_or_ge k b.front with before | here
      · exact .inl (onDeck.shown k before (.inl (by omega)))
      · have same : k = b.front := by omega
        exact .inl (same ▸ onDeck.drawn (.inl (by omega)))
  · intro cut
    rw [if_pos cut, decide_eq_true_eq] at last
    rw [if_pos cut] at front
    omega

/-- A burst is cut behind its front card, and only where the last card counts two events or more. -/
theorem holdTime_cases (b : Burst) (fields : AlertFields) :
    (b.holdTime fields).1 = b ∨ b.summaryFrom < 0 ∧ ∃ s : Int, (b.holdTime fields).1 = { b with summaryFrom := s } ∧
      b.front < s ∧ s ≤ b.events.length - 2 := by
  unfold holdTime
  dsimp only
  split
  next => exact .inl rfl
  next =>
    split
    next => exact .inl rfl
    next =>
      split
      next cut =>
        obtain ⟨uncut, enough⟩ := cut
        unfold MIN_SUMMARIZED at enough
        exact .inr ⟨uncut, _, rfl, by omega, by omega⟩
      next => exact .inl rfl

/-- What planning leaves of a burst: the same events, in the same place. -/
structure Planned (b b' : Burst) : Prop where
  events : b'.events = b.events
  entry : b'.entry = b.entry
  kind : b'.kind = b.kind
  leaving : b'.leaving = b.leaving

theorem layout_planned (b : Burst) : Planned b b.layout := by
  unfold layout
  split <;> exact ⟨rfl, rfl, rfl, rfl⟩

theorem Ready.layout (ready : b.Ready) (staying : b.leaving = false) : b.layout.OnDeck := by
  unfold Burst.layout
  by_cases summary : b.isSummary b.front = true
  · rw [if_pos summary]
    refine ⟨ready, fun below => ?_, fun leaving => absurd (staying.symm.trans leaving) (by decide)⟩
    simp only [isSummary, Bool.and_eq_true, decide_eq_true_eq] at summary
    omega
  · rw [if_neg summary]
    refine ⟨⟨ready.front, fun k before below => List.mem_cons_of_mem _ (ready.shown k before below), fun k member => ?_⟩,
      fun _ => List.mem_cons_self, fun leaving => absurd (staying.symm.trans leaving) (by decide)⟩
    rcases List.mem_cons.mp member with rfl | old
    · refine ⟨le_refl _, fun cut => ?_⟩
      have front := ready.front
      simp only [isSummary, Bool.and_eq_true, decide_eq_true_eq, not_and] at summary
      dsimp only at cut ⊢
      rw [cardCount, if_pos cut] at front
      omega
    · exact ready.apart k old

/-- A burst is planned: cut where it has to be, and with its front card drawn. -/
theorem Ready.plan (ready : b.Ready) (fields : AlertFields) (formed : b.Formed) (staying : b.leaving = false) :
    (b.holdTime fields).1.layout.OnDeck ∧ (b.holdTime fields).1.layout.Formed ∧
      Planned b (b.holdTime fields).1.layout := by
  have kept : (b.holdTime fields).1.Ready ∧ (b.holdTime fields).1.Formed ∧ Planned b (b.holdTime fields).1 := by
    rcases b.holdTime_cases fields with same | ⟨uncut, s, same, behind, counted⟩
    · rw [same]
      exact ⟨ready, formed, rfl, rfl, rfl, rfl⟩
    · rw [same]
      refine ⟨⟨?_, fun k before _ => ready.shown k before (.inl uncut), fun k member => ⟨(ready.apart k member).1, fun _ => ?_⟩⟩,
        ⟨formed.some, formed.grouped, .inr ⟨?_, counted⟩⟩, rfl, rfl, rfl, rfl⟩
      · rw [cardCount, if_pos (show (0 : Int) ≤ s by omega)]
        dsimp only
        omega
      · have first := (ready.apart k member).1
        dsimp only
        omega
      · dsimp only
        omega
  obtain ⟨ready', formed', events, entry, kind, leaving⟩ := kept
  obtain ⟨events', entry', kind', leaving'⟩ := layout_planned (b.holdTime fields).1
  refine ⟨ready'.layout (leaving.trans staying), ?_, events'.trans events, entry'.trans entry, kind'.trans kind,
    leaving'.trans leaving⟩
  unfold Burst.layout
  split
  · exact formed'
  · exact ⟨formed'.some, formed'.grouped, formed'.summary⟩

theorem Formed.push (formed : b.Formed) (own : groupOf e.type = b.group) : (b.push e now).Formed where
  some := by simp [Burst.push]
  grouped e' member := by
    rcases List.mem_append.mp member with old | new
    · exact formed.grouped e' old
    · exact List.mem_singleton.mp new ▸ own
  summary := by
    simp only [Burst.push, List.length_append, List.length_singleton]
    have summary := formed.summary
    omega

theorem push_kind (formed : b.Formed) : (b.push e now).kind = b.kind := by
  unfold Burst.push kind
  cases here : b.events with
  | nil => exact absurd here formed.some
  | cons e' rest => rfl

/-- An event joins the burst on the deck, whose last card may not be the last any more. -/
theorem OnDeck.push (onDeck : b.OnDeck) : (b.push e now).Ready where
  front := by
    refine Nat.lt_of_lt_of_le onDeck.front ?_
    unfold cardCount Burst.push
    split <;> simp
  shown k before := onDeck.shown k before
  apart := onDeck.apart

theorem Waits.ready (waits : b.Waits) (formed : b.Formed) : ({ b with startAt := now, frontAt := now } : Burst).Ready where
  front := by
    dsimp only
    rw [waits.front]
    exact cardCount_pos formed.some
  shown k before := by
    dsimp only at before
    rw [waits.front] at before
    exact absurd before (Nat.not_lt_zero k)
  apart k member := by
    dsimp only at member
    rw [waits.shown] at member
    cases member

theorem OnDeck.advance (onDeck : b.OnDeck) (more : b.atLast = false) :
    ({ b with front := b.front + 1, frontAt := now } : Burst).Ready where
  front := by
    simp only [atLast, decide_eq_false_iff_not] at more
    unfold cardCount at more ⊢
    dsimp only
    split at more <;> split <;> omega
  shown k before below := by
    dsimp only at before
    rcases Nat.lt_or_ge k b.front with earlier | here
    · exact onDeck.shown k earlier below
    · have same : k = b.front := by omega
      exact same ▸ onDeck.drawn (same ▸ below)
  apart k member := ⟨Nat.le_succ_of_le (onDeck.apart k member).1, (onDeck.apart k member).2⟩

end Burst

end Braidcast.Overlay

/-!
## How many bursts wait

The bound on the queue, of which each place is counted by the group of its burst or, where that
plays alone, by the type of its first event and by whether it is the overflow burst.
-/
namespace Braidcast.Overlay

/-- A group, whether it is an overflow burst, and the type of the first event. -/
abbrev Kind := Option String × Bool × Option String

variable {k : Kind} {ks : List Kind} {type : String}

def groupsOf (ks : List Kind) : List String := ks.filterMap fun k => k.1

def aloneTypesOf (ks : List Kind) : List String := ks.filterMap fun k => if k.1.isNone then k.2.2 else none

/-- The whole cards of a type that wait. -/
def wholeOf (type : String) (ks : List Kind) : Nat := ks.countP fun k => k.1.isNone && k.2.2 = some type && !k.2.1

def overflowOf (type : String) (ks : List Kind) : Nat := ks.countP fun k => k.1.isNone && k.2.2 = some type && k.2.1

structure Bounded (ks : List Kind) : Prop where
  groups : (groupsOf ks).length ≤ MAX_WAITING + (groupsOf ks).toFinset.card
  whole : ∀ type, wholeOf type ks ≤ MAX_ALONE_WAITING
  overflow : ∀ type, overflowOf type ks ≤ 1
  typed : ∀ k ∈ ks, k.1 = none → k.2.2 ≠ none

theorem Bounded.nil : Bounded [] := ⟨Nat.zero_le _, fun _ => Nat.zero_le _, fun _ => Nat.zero_le _, fun _ none => by cases none⟩

@[simp] theorem groupsOf_some (group : String) (rest : Bool × Option String) (ks : List Kind) :
    groupsOf ((some group, rest) :: ks) = group :: groupsOf ks := rfl

@[simp] theorem groupsOf_none (rest : Bool × Option String) (ks : List Kind) :
    groupsOf ((none, rest) :: ks) = groupsOf ks := rfl

@[simp] theorem aloneTypesOf_group (group : String) (rest : Bool × Option String) (ks : List Kind) :
    aloneTypesOf ((some group, rest) :: ks) = aloneTypesOf ks := rfl

@[simp] theorem aloneTypesOf_untyped (overflow : Bool) (ks : List Kind) :
    aloneTypesOf ((none, overflow, none) :: ks) = aloneTypesOf ks := rfl

@[simp] theorem aloneTypesOf_type (overflow : Bool) (type : String) (ks : List Kind) :
    aloneTypesOf ((none, overflow, some type) :: ks) = type :: aloneTypesOf ks := rfl

/-- The first burst goes to the deck. -/
theorem Bounded.tail (bounded : Bounded (k :: ks)) : Bounded ks where
  groups := by
    have groups := bounded.groups
    obtain ⟨group, rest⟩ := k
    cases group with
    | none => rwa [groupsOf_none] at groups
    | some group =>
      rw [groupsOf_some, List.length_cons, List.toFinset_cons] at groups
      have more := Finset.card_insert_le group (groupsOf ks).toFinset
      omega
  whole type := le_trans (List.Sublist.countP_le (List.sublist_cons_self k ks)) (bounded.whole type)
  overflow type := le_trans (List.Sublist.countP_le (List.sublist_cons_self k ks)) (bounded.overflow type)
  typed k member := bounded.typed k (List.mem_cons_of_mem _ member)

/-- A burst of a group is added while few wait, or where none of its group does. -/
theorem Bounded.concat_group (bounded : Bounded ks) (group : String) (here : k.1 = some group)
    (room : ks.length < MAX_WAITING ∨ group ∉ groupsOf ks) : Bounded (ks ++ [k]) where
  groups := by
    have groups := bounded.groups
    have all : groupsOf (ks ++ [k]) = groupsOf ks ++ [group] := by
      rw [groupsOf, List.filterMap_append, List.filterMap_cons_some here]
      rfl
    rw [all, List.length_append, List.length_singleton, List.toFinset_append]
    rcases room with few | new
    · have fewer : (groupsOf ks).length ≤ ks.length := List.length_filterMap_le _ _
      omega
    · have more : (groupsOf ks).toFinset.card + 1 ≤ ((groupsOf ks).toFinset ∪ [group].toFinset).card := by
        have disjoint : Disjoint (groupsOf ks).toFinset [group].toFinset := by simpa using new
        rw [Finset.card_union_of_disjoint disjoint]
        simp
      omega
  whole type := by
    have whole := bounded.whole type
    unfold wholeOf at whole ⊢
    rw [List.countP_append]
    simpa [here] using whole
  overflow type := by
    have overflow := bounded.overflow type
    unfold overflowOf at overflow ⊢
    rw [List.countP_append]
    simpa [here] using overflow
  typed k' member := by
    rcases List.mem_append.mp member with old | new
    · exact bounded.typed k' old
    · rcases List.mem_singleton.mp new with rfl
      rw [here]
      exact fun none => by cases none

/-- A burst that plays alone is added whole while there is room for its type, else as the one that overflows. -/
theorem Bounded.concat_alone (bounded : Bounded ks) (type : String) (none : k.1 = none) (typed : k.2.2 = some type)
    (single : overflowOf type ks = 0) (full : k.2.1 = decide (MAX_ALONE_WAITING ≤ wholeOf type ks)) : Bounded (ks ++ [k]) where
  groups := by
    have same : groupsOf (ks ++ [k]) = groupsOf ks := by
      rw [groupsOf, List.filterMap_append, List.filterMap_cons_none none]
      exact List.append_nil _
    rw [same]
    exact bounded.groups
  whole t := by
    have whole := bounded.whole t
    unfold wholeOf at whole ⊢
    rw [List.countP_append, List.countP_singleton]
    split
    next counted =>
      simp only [none, typed, Bool.and_eq_true, decide_eq_true_eq, Option.some.injEq, Bool.not_eq_true'] at counted
      obtain ⟨⟨_, rfl⟩, room⟩ := counted
      rw [full, decide_eq_false_iff_not] at room
      unfold wholeOf at room
      omega
    next => exact whole
  overflow t := by
    have overflow := bounded.overflow t
    unfold overflowOf at overflow single ⊢
    rw [List.countP_append, List.countP_singleton]
    split
    next counted =>
      simp only [none, typed, Bool.and_eq_true, decide_eq_true_eq, Option.some.injEq] at counted
      obtain ⟨⟨_, rfl⟩, _⟩ := counted
      omega
    next => exact overflow
  typed k' member := by
    rcases List.mem_append.mp member with old | new
    · exact bounded.typed k' old
    · rcases List.mem_singleton.mp new with rfl
      intro _ untyped
      rw [typed] at untyped
      cases untyped

/-- A type's bursts are its whole cards and its overflow burst. -/
theorem count_aloneTypesOf (type : String) (ks : List Kind) :
    (aloneTypesOf ks).count type = wholeOf type ks + overflowOf type ks := by
  induction ks with
  | nil => rfl
  | cons k ks ih =>
    unfold wholeOf overflowOf at *
    rw [List.countP_cons, List.countP_cons]
    obtain ⟨group, overflow, first⟩ := k
    cases group with
    | some group =>
      rw [aloneTypesOf_group, ih]
      simp
    | none =>
      cases first with
      | none =>
        rw [aloneTypesOf_untyped, ih]
        simp
      | some t =>
        rw [aloneTypesOf_type, List.count_cons, ih]
        by_cases same : t = type
        · cases overflow <;> simp [same] <;> omega
        · simp [same]

/-- Every burst is counted by its group or by its type. -/
theorem Bounded.length (bounded : Bounded ks) : ks.length = (groupsOf ks).length + (aloneTypesOf ks).length := by
  induction ks with
  | nil => rfl
  | cons k ks ih =>
    have rest := ih bounded.tail
    obtain ⟨group, overflow, first⟩ := k
    cases group with
    | some group =>
      rw [groupsOf_some, aloneTypesOf_group, List.length_cons, List.length_cons, rest]
      omega
    | none =>
      cases first with
      | none => exact absurd rfl (bounded.typed _ List.mem_cons_self rfl)
      | some t =>
        rw [groupsOf_none, aloneTypesOf_type, List.length_cons, List.length_cons, rest]
        omega

/-- The bursts that wait, by how many groups and types there are among them. -/
theorem Bounded.bound (bounded : Bounded ks) : ks.length ≤ MAX_WAITING + (groupsOf ks).toFinset.card +
    (MAX_ALONE_WAITING + 1) * (aloneTypesOf ks).toFinset.card := by
  have alone : (aloneTypesOf ks).length ≤ (MAX_ALONE_WAITING + 1) * (aloneTypesOf ks).toFinset.card := by
    have each (type) (_ : type ∈ (aloneTypesOf ks).toFinset) : (aloneTypesOf ks).count type ≤ MAX_ALONE_WAITING + 1 := by
      rw [count_aloneTypesOf]
      exact Nat.add_le_add (bounded.whole type) (bounded.overflow type)
    calc (aloneTypesOf ks).length = ∑ type ∈ (aloneTypesOf ks).toFinset, (aloneTypesOf ks).count type :=
        (List.sum_toFinset_count_eq_length _).symm
      _ ≤ (aloneTypesOf ks).toFinset.card • (MAX_ALONE_WAITING + 1) := Finset.sum_le_card_nsmul _ _ _ each
      _ = (MAX_ALONE_WAITING + 1) * (aloneTypesOf ks).toFinset.card := Nat.mul_comm ..
  have groups := bounded.groups
  rw [bounded.length]
  omega

end Braidcast.Overlay
