import Braidcast.Docking.Cutouts
import Braidcast.Lib.Lists

/-!
# A release closes its hole

The last send carries the set's own state, whatever became of it, and a delivery that did not
land settles as a later one. So what a release waits for is an answer to a state without its
layer, or the end of the attempts.
-/
namespace Braidcast.Docking

open Lib

variable {α : Type}

/-! ### Deliveries -/

/-- What holds of the sends made so far. -/
structure Deliveries (sends : List (Delivery α)) (lastSend : Promise) (sentKey : Option (CutoutState α)) : Prop where
  last : sends ≠ [] → lastSend = .of (sends.length - 1)
  key : ∀ k, sentKey = some k → ∃ d, sends.getLast? = some d ∧ d.state = k
  stands : ∀ (i : Nat) (d : Delivery α) (p : Promise), sends[i]? = some d → d.phase = .stands p → ∃ j, p = .of j ∧ i ≤ j ∧ j < sends.length
  applied : ∀ (i : Nat) (d : Delivery α), sends[i]? = some d → d.phase = .landed → d.applied = true
  gaveUp : ∀ (i : Nat) (d : Delivery α), sends[i]? = some d → d.phase = .gaveUp → d.attempt = SEND_ATTEMPTS
  few : ∀ (i : Nat) (d : Delivery α), sends[i]? = some d → d.attempt ≤ SEND_ATTEMPTS
  waiting : ∀ (i : Nat) (d : Delivery α), sends[i]? = some d → d.phase = .waiting → d.attempt < SEND_ATTEMPTS

/-- An attempt after the first was made when the one before it had failed. -/
def Chained (sends : List (Delivery α)) : Prop :=
  ∀ (i : Nat) (d : Delivery α), sends[i]? = some d → d.attempt = 1 ∨ ∃ (j : Nat) (before : Delivery α), j < i ∧
    sends[j]? = some before ∧ before.attempt + 1 = d.attempt ∧ before.phase = .stands (.of i)

variable {sends : List (Delivery α)} {lastSend : Promise} {sentKey : Option (CutoutState α)}

variable {d : Delivery α}

theorem Deliveries.last_of_mem (deliveries : Deliveries sends lastSend sentKey) (member : d ∈ sends) :
    lastSend = .of (sends.length - 1) :=
  deliveries.last (List.ne_nil_of_mem member)

theorem Deliveries.sent (inv : Deliveries sends lastSend sentKey) (state : CutoutState α) (cutters : List Nat)
    {attempt : Nat} (few : attempt ≤ SEND_ATTEMPTS) :
    Deliveries (sends ++ [⟨state, cutters, attempt, .sent, false⟩]) (.of sends.length) (some state) := by
  have old {i : Nat} {d : Delivery α} (here : (sends ++ [⟨state, cutters, attempt, .sent, false⟩])[i]? = some d) :=
    getElem?_append_new here
  constructor
  · intro _
    simp
  · rintro k ⟨⟩
    exact ⟨_, List.getLast?_concat .., rfl⟩
  · intro i d p here phase
    rcases old here with before | ⟨rfl, rfl⟩
    · obtain ⟨j, same, le, inside⟩ := inv.stands i d p before phase
      exact ⟨j, same, le, by simp; omega⟩
    · cases phase
  all_goals
    intro i d here
    rcases old here with before | ⟨rfl, rfl⟩
  · exact inv.applied i d before
  · simp
  · exact inv.gaveUp i d before
  · simp
  · exact inv.few i d before
  · exact few
  · exact inv.waiting i d before
  · simp

/-- What is so of the new delivery, and was of all, is so once it is set. -/
theorem forall_set {P : Nat → Delivery α → Prop} {i : Nat} {after : Delivery α} (new : P i after)
    (old : ∀ j e, sends[j]? = some e → P j e) : ∀ j e, (sends.set i after)[j]? = some e → P j e := by
  intro j e here
  rcases getElem?_set_cases here with ⟨rfl, rfl⟩ | ⟨-, before⟩
  · exact new
  · exact old j e before

/-- What a delivery becomes once it is answered: nothing but where it stands, and whether the
host has applied it. -/
structure Becomes (sends : List (Delivery α)) (i : Nat) (d after : Delivery α) : Prop where
  here : sends[i]? = some d
  open_ : d.phase = .sent ∨ d.phase = .waiting
  state : after.state = d.state
  cutters : after.cutters = d.cutters
  attempt : after.attempt = d.attempt
  stands : ∀ p, after.phase = .stands p → p = .of (sends.length - 1)
  applied : after.phase = .landed → after.applied = true
  gaveUp : after.phase = .gaveUp → after.attempt = SEND_ATTEMPTS
  waiting : after.phase = .waiting → after.attempt < SEND_ATTEMPTS

variable {after : Delivery α}

theorem Becomes.getLast? {i : Nat} (becomes : Becomes sends i d after) {last : Delivery α}
    (end_ : (sends.set i after).getLast? = some last) :
    ∃ before, sends.getLast? = some before ∧ last.state = before.state ∧ last.cutters = before.cutters ∧
      (last = before ∨ last = after) := by
  rw [List.getLast?_eq_getElem?, List.length_set] at end_
  rw [List.getLast?_eq_getElem?]
  rcases getElem?_set_cases end_ with ⟨same, rfl⟩ | ⟨-, same⟩
  · rw [same]
    exact ⟨d, becomes.here, becomes.state, becomes.cutters, .inr rfl⟩
  · exact ⟨last, same, rfl, rfl, .inl rfl⟩

theorem Deliveries.answered (inv : Deliveries sends lastSend sentKey) {i : Nat}
    (becomes : Becomes sends i d after) {sentKey' : Option (CutoutState α)}
    (key : sentKey' = sentKey ∨ sentKey' = none) : Deliveries (sends.set i after) lastSend sentKey' := by
  have inside := (List.getElem?_eq_some_iff.mp becomes.here).1
  constructor
  · intro _
    rw [List.length_set]
    exact inv.last (by rintro rfl; simp at inside)
  · rintro k same
    rcases key with kept | forgotten
    · obtain ⟨last, end_, state⟩ := inv.key k (kept ▸ same)
      cases shape : (sends.set i after).getLast? with
      | none =>
        rw [List.getLast?_eq_none_iff, List.set_eq_nil_iff] at shape
        simp [shape] at inside
      | some last' =>
        obtain ⟨before, end', state', -, -⟩ := becomes.getLast? shape
        rw [end_] at end'
        cases end'
        exact ⟨last', rfl, state'.trans state⟩
    · rw [forgotten] at same
      cases same
  · intro j e p here phase
    rw [List.length_set]
    rcases getElem?_set_cases here with ⟨rfl, rfl⟩ | ⟨-, old⟩
    · exact ⟨_, becomes.stands p phase, by omega, by omega⟩
    · exact inv.stands j e p old phase
  · exact forall_set becomes.applied inv.applied
  · exact forall_set becomes.gaveUp inv.gaveUp
  · exact forall_set (becomes.attempt ▸ inv.few i d becomes.here) inv.few
  · exact forall_set becomes.waiting inv.waiting

theorem Chained.sent (inv : Chained sends) (state : CutoutState α) (cutters : List Nat) :
    Chained (sends ++ [⟨state, cutters, 1, .sent, false⟩]) := by
  intro i d here
  rcases getElem?_append_new here with before | ⟨rfl, rfl⟩
  · refine (inv i d before).imp_right ?_
    rintro ⟨j, d', less, there, attempt, phase⟩
    exact ⟨j, d', less, getElem?_append_old there, attempt, phase⟩
  · exact .inl rfl

theorem Chained.answered (inv : Chained sends) {i : Nat} (there : sends[i]? = some d)
    (open_ : d.phase = .sent ∨ d.phase = .waiting) (attempt : after.attempt = d.attempt) :
    Chained (sends.set i after) := by
  intro j e here
  -- a delivery that others were made after is answered already
  have kept (n : Nat) (f : Delivery α) (at_ : sends[n]? = some f) (phase : f.phase = .stands (.of j)) :
      (sends.set i after)[n]? = some f := by
    rw [List.getElem?_set_ne]
    · exact at_
    · rintro rfl
      rw [there] at at_
      cases at_
      rcases open_ with open_ | open_ <;> simp [open_] at phase
  have chain : e.attempt = 1 ∨ ∃ (n : Nat) (f : Delivery α), n < j ∧ sends[n]? = some f ∧ f.attempt + 1 = e.attempt ∧
      f.phase = .stands (.of j) := by
    rcases getElem?_set_cases here with ⟨rfl, rfl⟩ | ⟨-, old⟩
    · rw [attempt]
      exact inv j d there
    · exact inv j e old
  refine chain.imp_right ?_
  rintro ⟨n, f, less, at_, attempt, phase⟩
  exact ⟨n, f, less, kept n f at_ phase, attempt, phase⟩

/-- A retry: the new attempt's predecessor is the delivery that waited for it. -/
theorem Chained.retried (inv : Chained sends) {i : Nat} (here : sends[i]? = some d)
    (waits : d.phase = .waiting) (state : CutoutState α) (cutters : List Nat) :
    Chained (sends.set i { d with phase := .stands (.of sends.length) } ++
      [⟨state, cutters, d.attempt + 1, .sent, false⟩]) := by
  have inside := (List.getElem?_eq_some_iff.mp here).1
  have old : Chained (sends.set i { d with phase := .stands (.of sends.length) }) :=
    inv.answered here (.inr waits) rfl
  intro j e there
  rcases getElem?_append_new there with before | ⟨rfl, rfl⟩
  · refine (old j e before).imp_right ?_
    rintro ⟨n, f, less, at_, attempt, phase⟩
    exact ⟨n, f, less, getElem?_append_old at_, attempt, phase⟩
  · refine .inr ⟨i, { d with phase := .stands (.of sends.length) }, by simpa using inside, ?_, rfl, by simp⟩
    exact getElem?_append_old (by simp [inside])

/-- The attempts behind a failed one have failed in a row. -/
theorem Chained.failedInARow {s : CutoutSet α} (inv : Chained s.sends) {n i : Nat}
    (here : s.sends[i]? = some d) (attempt : d.attempt = n + 1) (failed : d.phase ≠ .sent ∧ d.phase ≠ .landed) :
    FailedInARow s (n + 1) i := by
  induction n generalizing i d with
  | zero => exact .first here failed.1 failed.2
  | succ n ih =>
    rcases inv i d here with first | ⟨j, before, less, there, count, stands⟩
    · omega
    · have earlier := ih there (by omega) (by simp [stands])
      exact .next earlier there stands less here failed.1 failed.2

/-- A delivery that resolved did so through one that landed, or that was the last attempt. -/
theorem Resolved.answered {s : CutoutSet α} (inv : Deliveries s.sends s.lastSend s.sentKey) {n : Nat}
    (settled : Resolved s (.of n)) :
    ∃ i d, n ≤ i ∧ s.sends[i]? = some d ∧ (d.phase = .landed ∨ d.phase = .gaveUp) := by
  -- on how it resolved: each delivery that stands for this one was made later
  generalize promise : Promise.of n = p at settled
  induction settled generalizing n with
  | resolved => cases promise
  | landed here phase =>
    cases promise
    exact ⟨_, _, Nat.le_refl _, here, .inl phase⟩
  | gaveUp here phase =>
    cases promise
    exact ⟨_, _, Nat.le_refl _, here, .inr phase⟩
  | stands here phase _ ih =>
    cases promise
    obtain ⟨j, rfl, later, -⟩ := inv.stands _ _ _ here phase
    obtain ⟨i, d, le, rest⟩ := ih rfl
    exact ⟨i, d, Nat.le_trans later le, rest⟩

/-! ### Layers -/

/-- What of a layer decides what is sent. -/
def CutoutLayer.view (layer : CutoutLayer α) : Option (CutRect α) × Option Promise × Nat :=
  (layer.cut, layer.released, layer.releasedAt)

namespace CutoutSet

variable {s t : CutoutSet α} {l : Nat}

def view (s : CutoutSet α) (l : Nat) : Option (Option (CutRect α) × Option Promise × Nat) :=
  s.layers[l]?.map CutoutLayer.view

theorem cutOf_eq (s : CutoutSet α) (l : Nat) : s.cutOf l = (s.view l).bind (·.1) := by
  simp only [cutOf, view]
  cases s.layers[l]? <;> rfl

/-- The cut depends on the open layers and their rects only. -/
theorem state_congr (opened : t.opened = s.opened) (view : ∀ l ∈ s.opened, t.view l = s.view l) :
    t.state = s.state ∧ t.cutters = s.cutters := by
  have cuts : ∀ l ∈ s.opened, t.cutOf l = s.cutOf l := fun l member => by rw [cutOf_eq, cutOf_eq, view l member]
  simp only [state, cutters]
  rw [opened]
  refine ⟨?_, List.filter_congr fun l member => by rw [cuts l member]⟩
  rw [List.filterMap_congr cuts]

theorem view_setLayer (s : CutoutSet α) (l : Nat) (f : CutoutLayer α → CutoutLayer α) (l' : Nat) :
    (s.setLayer l f).view l' = if l' = l then s.layers[l]?.map fun layer => (f layer).view else s.view l' := by
  simp only [setLayer, view]
  rw [List.getElem?_modify]
  split
  next same =>
    subst same
    cases s.layers[l]? <;> simp
  next other => simp [Ne.symm other]

theorem view_setLayer_of_keeps {f : CutoutLayer α → CutoutLayer α} (keeps : ∀ layer, (f layer).view = layer.view) :
    (s.setLayer l f).view = s.view := by
  funext l'
  rw [view_setLayer]
  split
  next same =>
    subst same
    simp only [keeps]
    rfl
  · rfl

theorem view_reshaped (s : CutoutSet α) (l shape : Nat) : (s.setLayer l ({ · with shape })).view = s.view :=
  view_setLayer_of_keeps fun _ => rfl

/-- The layer's rect stands at its place among the others. -/
theorem rects_split (nodup : s.opened.Nodup) (member : l ∈ s.opened) :
    ∃ before after, s.opened = before ++ l :: after ∧ l ∉ before ∧ l ∉ after := by
  obtain ⟨before, after, shape⟩ := List.append_of_mem member
  rw [shape, List.nodup_append] at nodup
  refine ⟨before, after, shape, fun here => ?_, (List.nodup_cons.mp nodup.2.1).1⟩
  exact nodup.2.2 l here l (by simp) rfl

/-- Another rect for an open layer is another state. -/
theorem cutOf_of_same_rects (nodup : s.opened.Nodup) (member : l ∈ s.opened) (opened : t.opened = s.opened)
    (others : ∀ l', l' ≠ l → t.view l' = s.view l') (same : t.state = s.state) : t.cutOf l = s.cutOf l := by
  -- the rects around the layer's own are the same, so its own is
  obtain ⟨before, after, shape, notBefore, notAfter⟩ := rects_split nodup member
  have rects := congrArg CutoutState.rects same
  simp only [state, opened, shape, List.filterMap_append, List.filterMap_cons] at rects
  have left : before.filterMap t.cutOf = before.filterMap s.cutOf := List.filterMap_congr fun l' here => by
    rw [cutOf_eq, cutOf_eq, others l' fun same => notBefore (same ▸ here)]
  have right : after.filterMap t.cutOf = after.filterMap s.cutOf := List.filterMap_congr fun l' here => by
    rw [cutOf_eq, cutOf_eq, others l' fun same => notAfter (same ▸ here)]
  rw [left, right, List.append_cancel_left_eq] at rects
  cases mine : t.cutOf l with
  | none =>
    cases theirs : s.cutOf l with
    | none => rfl
    | some rect =>
      simp only [mine, theirs] at rects
      exact absurd (congrArg List.length rects) (by simp)
  | some rect =>
    cases theirs : s.cutOf l with
    | none =>
      simp only [mine, theirs] at rects
      exact absurd (congrArg List.length rects) (by simp)
    | some other =>
      simp only [mine, theirs] at rects
      rw [(List.cons.inj rects).1]

/-- A send the release of a layer may wait for: one made at the release or later, or, where
the layer had no rect, the last before it. -/
def Answers (cut : Option (CutRect α)) (releasedAt i : Nat) : Prop := releasedAt ≤ i ∨ cut = none ∧ releasedAt ≤ i + 1

structure Layers (s : CutoutSet α) : Prop where
  nodup : s.opened.Nodup
  opened : ∀ l ∈ s.opened, ∃ cut releasedAt, s.view l = some (cut, none, releasedAt)
  promised : ∀ l cut p releasedAt, s.view l = some (cut, some p, releasedAt) → ∃ n, p = .of n ∧ Answers cut releasedAt n
  without : ∀ l cut p releasedAt, s.view l = some (cut, some p, releasedAt) → ∀ (i : Nat) (d : Delivery α),
    s.sends[i]? = some d → Answers cut releasedAt i → l ∉ d.cutters

structure Sound (s : CutoutSet α) : Prop extends s.Layers where
  deliveries : Deliveries s.sends s.lastSend s.sentKey
  chained : Chained s.sends
  current : ∀ d, s.sends.getLast? = some d → d.state = s.state ∧ d.cutters = s.cutters

/-- Every layer that is not released is open. -/
def Every (s : CutoutSet α) : Prop := ∀ l cut releasedAt, s.view l = some (cut, none, releasedAt) → l ∈ s.opened

theorem mem_cutters (s : CutoutSet α) (l : Nat) : l ∈ s.cutters ↔ l ∈ s.opened ∧ (s.cutOf l).isSome = true := by
  simp [cutters]

/-- A released layer is behind no rect. -/
theorem Layers.not_mem_cutters (layers : s.Layers) {cut : Option (CutRect α)} {p : Promise} {releasedAt : Nat}
    (released : s.view l = some (cut, some p, releasedAt)) : l ∉ s.cutters := by
  intro member
  obtain ⟨_, _, unreleased⟩ := layers.opened l ((mem_cutters s l).mp member).1
  simp [unreleased] at released

/-- A change that nothing of what is sent depends on. -/
theorem Sound.of_view (sound : s.Sound) (sends : t.sends = s.sends) (lastSend : t.lastSend = s.lastSend)
    (sentKey : t.sentKey = s.sentKey) (opened : t.opened = s.opened) (view : t.view = s.view) : t.Sound := by
  obtain ⟨state, cutters⟩ := state_congr opened fun l _ => congrFun view l
  refine ⟨⟨?_, ?_, ?_, ?_⟩, ?_, ?_, ?_⟩
  · rw [opened]
    exact sound.nodup
  · rw [opened, view]
    exact sound.opened
  · rw [view]
    exact sound.promised
  · rw [view, sends]
    exact sound.without
  · rw [sends, lastSend, sentKey]
    exact sound.deliveries
  · rw [sends]
    exact sound.chained
  · rw [sends, state, cutters]
    exact sound.current

section

variable [LinearOrder α]

theorem view_deliver (s : CutoutSet α) (attempt : Nat) : (s.deliver attempt).view = s.view := by
  funext l
  simp only [view, deliver, List.getElem?_mapIdx, Option.map_map]
  congr 1
  funext layer
  simp only [Function.comp_apply]
  split <;> rfl

theorem deliver_state (s : CutoutSet α) (attempt : Nat) :
    (s.deliver attempt).state = s.state ∧ (s.deliver attempt).cutters = s.cutters :=
  state_congr rfl fun l _ => by rw [view_deliver]

/-- The state goes out as a first attempt, or it is the one the last send carries. -/
theorem Layers.send (layers : s.Layers) (deliveries : Deliveries s.sends s.lastSend s.sentKey) (chained : Chained s.sends)
    (same : s.sentKey = some s.state → ∀ d, s.sends.getLast? = some d → d.cutters = s.cutters) : s.send.Sound := by
  simp only [CutoutSet.send]
  split
  next sent =>
    -- nothing is sent: the last send carries this state already
    refine ⟨layers, deliveries, chained, fun d last => ⟨?_, same sent d last⟩⟩
    obtain ⟨d', last', state⟩ := deliveries.key _ sent
    rw [last'] at last
    cases last
    exact state
  · obtain ⟨state, cutters⟩ := s.deliver_state 1
    refine ⟨⟨layers.nodup, ?_, ?_, ?_⟩, deliveries.sent s.state s.cutters (by decide), chained.sent s.state s.cutters, ?_⟩
    · rw [view_deliver]
      exact layers.opened
    · rw [view_deliver]
      exact layers.promised
    · simp only [view_deliver]
      intro l cut p releasedAt released i d here answers
      rcases getElem?_append_new here with old | ⟨rfl, rfl⟩
      · exact layers.without l cut p releasedAt released i d old answers
      · exact layers.not_mem_cutters released
    · intro d last
      rw [state, cutters]
      obtain rfl : _ = d := Option.some.inj ((List.getLast?_concat ..).symm.trans last)
      exact ⟨rfl, rfl⟩

/-! ### Calls -/

/-- A change of the open layers and their rects, with the send that follows it. -/
theorem Sound.changed (sound : s.Sound) (sends : t.sends = s.sends) (lastSend : t.lastSend = s.lastSend)
    (sentKey : t.sentKey = s.sentKey) (nodup : t.opened.Nodup)
    (opened : ∀ l ∈ t.opened, ∃ cut releasedAt, t.view l = some (cut, none, releasedAt))
    (released : ∀ l cut p releasedAt, t.view l = some (cut, some p, releasedAt) →
      s.view l = some (cut, some p, releasedAt))
    (cutters : t.state = s.state → t.cutters = s.cutters) : t.send.Sound := by
  have layers : t.Layers := by
    refine ⟨nodup, opened, ?_, ?_⟩
    · intro l cut p releasedAt here
      exact sound.promised l cut p releasedAt (released l cut p releasedAt here)
    · rw [sends]
      intro l cut p releasedAt here
      exact sound.without l cut p releasedAt (released l cut p releasedAt here)
  refine layers.send ?_ (sends ▸ sound.chained) ?_
  · rw [sends, lastSend, sentKey]
    exact sound.deliveries
  · intro sent d last
    rw [sentKey] at sent
    rw [sends] at last
    -- the key is the last send's state, and that was the set's before the change
    obtain ⟨carried, last', state⟩ := sound.deliveries.key _ sent
    obtain rfl : carried = d := Option.some.inj (last'.symm.trans last)
    obtain ⟨current, mine⟩ := sound.current carried last
    rw [mine, cutters (state.symm.trans current)]

theorem Sound.add (sound : s.Sound) : s.add.Sound := by
  have old (l : Nat) (member : l ∈ s.opened) : l < s.layers.length := by
    obtain ⟨_, _, here⟩ := sound.opened l member
    obtain ⟨layer, at_, -⟩ := Option.map_eq_some_iff.mp here
    exact (List.getElem?_eq_some_iff.mp at_).1
  simp only [CutoutSet.add]
  generalize grown : ({ s with layers := s.layers ++ [CutoutLayer.new], opened := s.opened ++ [s.layers.length] } :
    CutoutSet α) = t
  have opened : t.opened = s.opened ++ [s.layers.length] := by rw [← grown]
  -- a layer that was there keeps what it had; the new one has no rect and no release
  have kept (l : Nat) (inside : l < s.layers.length) : t.view l = s.view l := by
    rw [← grown, view, List.getElem?_append_left inside]
    rfl
  have new : t.view s.layers.length = some (none, none, 0) := by
    rw [← grown, view]
    simp [CutoutLayer.new, CutoutLayer.view]
  have uncut : t.cutOf s.layers.length = none := by rw [cutOf_eq, new]; rfl
  apply sound.changed (by rw [← grown]) (by rw [← grown]) (by rw [← grown])
  · rw [opened, List.nodup_append]
    refine ⟨sound.nodup, List.nodup_singleton _, fun l member l' same => ?_⟩
    rw [List.mem_singleton.mp same]
    exact Nat.ne_of_lt (old l member)
  · intro l member
    rw [opened, List.mem_append, List.mem_singleton] at member
    rcases member with before | rfl
    · rw [kept l (old l before)]
      exact sound.opened l before
    · exact ⟨none, 0, new⟩
  · intro l cut p releasedAt here
    rcases Nat.lt_trichotomy l s.layers.length with inside | rfl | beyond
    · rwa [← kept l inside]
    · rw [new] at here
      cases here
    · rw [← grown, view, List.getElem?_eq_none (by simp; omega)] at here
      cases here
  · intro _
    simp only [cutters]
    rw [opened, List.filter_append]
    simp only [List.filter_cons, uncut, Option.isSome_none, Bool.false_eq_true, if_false, List.filter_nil, List.append_nil]
    refine List.filter_congr fun l member => ?_
    rw [cutOf_eq, cutOf_eq, kept l (old l member)]

/-- A layer that is not released takes another rect. -/
theorem Sound.setCut (sound : s.Sound) {cut : Option (CutRect α)} {releasedAt : Nat}
    (unreleased : s.view l = some (cut, none, releasedAt)) (next : Option (CutRect α)) : (s.setCut l next).send.Sound := by
  have there : (s.setCut l next).view l = some (next, none, releasedAt) := by
    rw [CutoutSet.setCut, view_setLayer, if_pos rfl]
    obtain ⟨layer, here, same⟩ := Option.map_eq_some_iff.mp unreleased
    rw [here]
    simp only [CutoutLayer.view, Prod.mk.injEq] at same
    simp [CutoutLayer.view, same.2.1, same.2.2]
  have others (l' : Nat) (other : l' ≠ l) : (s.setCut l next).view l' = s.view l' := by
    rw [CutoutSet.setCut, view_setLayer, if_neg other]
  apply sound.changed (t := s.setCut l next) rfl rfl rfl sound.nodup
  · intro l' member
    by_cases same : l' = l
    · subst same
      exact ⟨next, releasedAt, there⟩
    · rw [others l' same]
      exact sound.opened l' member
  · intro l' cut' p at_ here
    by_cases same : l' = l
    · subst same
      rw [there] at here
      cases here
    · rwa [← others l' same]
  · intro same
    by_cases member : l ∈ s.opened
    · -- the rects are the same, so the layer's is
      have mine := cutOf_of_same_rects (t := s.setCut l next) sound.nodup member rfl others same
      refine List.filter_congr fun l' _ => ?_
      by_cases here : l' = l
      · rw [here, mine]
      · rw [cutOf_eq, cutOf_eq, others l' here]
    · refine List.filter_congr fun l' inside => ?_
      rw [cutOf_eq, cutOf_eq, others l' fun here => member (here ▸ inside)]

theorem view_send (s : CutoutSet α) : s.send.view = s.view := by
  simp only [CutoutSet.send]
  split
  · rfl
  · exact view_deliver s 1

theorem send_opened (s : CutoutSet α) : s.send.opened = s.opened := by
  simp only [CutoutSet.send]
  split <;> rfl

theorem Sound.reshape [Add α] [Sub α] (sound : s.Sound) {next : Option (CutRect α)} (step : s.reshape l next = some t) : t.Sound := by
  obtain ⟨layer, here, rfl⟩ := Option.map_eq_some_iff.mp step
  split
  · exact sound
  next unreleased =>
    have keeps := s.view_reshaped l (layer.shape + 1)
    have shaped : (s.setLayer l ({ · with shape := layer.shape + 1 })).Sound := sound.of_view rfl rfl rfl rfl keeps
    generalize s.setLayer l ({ · with shape := layer.shape + 1 }) = u at keeps shaped ⊢
    have view : u.view l = some (layer.cut, none, layer.releasedAt) := by
      rw [keeps, CutoutSet.view, here]
      simp only [Bool.not_eq_true, Option.isSome_eq_false_iff, Option.isNone_iff_eq_none] at unreleased
      simp [CutoutLayer.view, unreleased]
    have kept : (if keptCut layer.cut next = layer.cut then u else (u.setCut l (keptCut layer.cut next)).send).Sound := by
      split
      · exact shaped
      · exact shaped.setCut view _
    dsimp only
    split
    · exact kept
    · split
      · exact kept
      · exact kept.of_view rfl rfl rfl rfl rfl

theorem Sound.presented (sound : s.Sound) {k : Nat} (step : s.presented k = some t) : t.Sound := by
  obtain ⟨p, -, rest⟩ := Option.bind_eq_some_iff.mp step
  obtain ⟨layer, here, rfl⟩ := Option.map_eq_some_iff.mp rest
  have erased : Sound { s with presentations := s.presentations.eraseIdx k } := sound.of_view rfl rfl rfl rfl rfl
  split
  next current =>
    apply erased.setCut
    show s.view p.layer = some (layer.cut, none, layer.releasedAt)
    rw [CutoutSet.view, here]
    simp [CutoutLayer.view, current.2]
  · exact erased

theorem Sound.resend (sound : s.Sound) : s.resend.Sound := by
  have forgotten : Deliveries s.sends s.lastSend none :=
    { sound.deliveries with key := fun _ same => by cases same }
  apply Layers.send (s := { s with sentKey := none }) ⟨sound.nodup, sound.opened, sound.promised, sound.without⟩ forgotten
    sound.chained
  intro sent
  cases sent

/-! ### Release -/

omit [LinearOrder α] in
/-- A layer whose leaving changes no rect had none. -/
theorem uncut_of_erased (nodup : s.opened.Nodup) (member : l ∈ s.opened) (opened : t.opened = s.opened.erase l)
    (view : t.view = s.view) (same : t.state = s.state) : s.cutOf l = none := by
  obtain ⟨before, after, shape, notBefore, -⟩ := rects_split nodup member
  have rects := congrArg CutoutState.rects same
  have cuts : t.cutOf = s.cutOf := by
    funext l'
    rw [cutOf_eq, cutOf_eq, view]
  rw [shape, List.erase_append_right _ notBefore, List.erase_cons_head] at opened
  simp only [state, opened, shape, cuts, List.filterMap_append, List.append_cancel_left_eq] at rects
  cases cut : s.cutOf l with
  | none => rfl
  | some rect => exact absurd (congrArg List.length rects) (by simp [cut])

omit [LinearOrder α] in
theorem cutters_erase (nodup : s.opened.Nodup) (opened : t.opened = s.opened.erase l) (view : t.view = s.view)
    (uncut : s.cutOf l = none) : t.cutters = s.cutters := by
  have cuts : t.cutOf = s.cutOf := by
    funext l'
    rw [cutOf_eq, cutOf_eq, view]
  simp only [cutters]
  rw [opened, cuts, List.Nodup.erase_eq_filter nodup, List.filter_filter]
  refine List.filter_congr fun l' _ => ?_
  by_cases same : l' = l
  · simp [same, uncut]
  · simp [same]

variable {i : Nat}

omit [LinearOrder α] in
/-- The last send before a release carried the rects of the layers then open. -/
theorem Sound.not_cutter (sound : s.Sound) {d : Delivery α} (there : s.sends[i]? = some d)
    (answers : Answers (s.cutOf l) s.sends.length i) : l ∉ d.cutters := by
  have inside := (List.getElem?_eq_some_iff.mp there).1
  rcases answers with late | ⟨none, late⟩
  · omega
  · have last : s.sends.getLast? = some d := by
      rw [List.getLast?_eq_getElem?, ← there]
      congr 1
      omega
    rw [(sound.current d last).2, mem_cutters, none]
    simp

omit [LinearOrder α] in
/-- A promise goes into the released layer alone, so the others and what is sent stay as they were. -/
theorem Sound.setReleased (sound : s.Sound) (gone : l ∉ s.opened) {cut : Option (CutRect α)} {was : Option Promise} {since at_ : Nat}
    (seen : s.view l = some (cut, was, since))
    (promised : (∃ n, s.lastSend = .of n ∧ Answers cut at_ n) ∧
      ∀ (i : Nat) (d : Delivery α), s.sends[i]? = some d → Answers cut at_ i → l ∉ d.cutters) :
    (s.setLayer l ({ · with released := some s.lastSend, releasedAt := at_ })).Sound := by
  generalize after : s.setLayer l ({ · with released := some s.lastSend, releasedAt := at_ }) = t
  have mine : t.view l = some (cut, some s.lastSend, at_) := by
    obtain ⟨layer, here, same⟩ := Option.map_eq_some_iff.mp seen
    rw [← after, view_setLayer, if_pos rfl, here]
    simp only [CutoutLayer.view, Prod.mk.injEq] at same
    simp [CutoutLayer.view, same.1]
  have others (l' : Nat) (other : l' ≠ l) : t.view l' = s.view l' := by rw [← after, view_setLayer, if_neg other]
  have apart (l' : Nat) (inside : l' ∈ s.opened) : l' ≠ l := fun same => gone (same ▸ inside)
  have opened : t.opened = s.opened := after ▸ rfl
  obtain ⟨state, cutters⟩ := state_congr opened fun l' inside => others l' (apart l' inside)
  subst after
  refine ⟨⟨sound.nodup, ?_, ?_, ?_⟩, sound.deliveries, sound.chained, ?_⟩
  · intro l' inside
    rw [others l' (apart l' inside)]
    exact sound.opened l' inside
  · intro l' cut' p releasedAt there
    by_cases same : l' = l
    · subst same
      rw [mine] at there
      cases there
      exact promised.1
    · rw [others l' same] at there
      exact sound.promised l' cut' p releasedAt there
  · intro l' cut' p releasedAt there
    by_cases same : l' = l
    · subst same
      rw [mine] at there
      cases there
      exact promised.2
    · rw [others l' same] at there
      exact sound.without l' cut' p releasedAt there
  · rw [state, cutters]
    exact sound.current

theorem Sound.release (sound : s.Sound) (every : s.Every) (step : s.release l = some t) : t.Sound := by
  obtain ⟨layer, here, rfl⟩ := Option.map_eq_some_iff.mp step
  split
  · exact sound
  next held =>
  have unreleased : layer.released = none := by simpa using held
  have seen : s.view l = some (layer.cut, none, layer.releasedAt) := by
    simp [CutoutSet.view, here, CutoutLayer.view, unreleased]
  have member := every l _ _ seen
  dsimp only
  generalize left : ({ s.setLayer l ({ · with shape := layer.shape + 1 }) with opened := s.opened.erase l } :
    CutoutSet α) = t
  have opened : t.opened = s.opened.erase l := by rw [← left]
  have sends : t.sends = s.sends := by rw [← left]; rfl
  have lastSend : t.lastSend = s.lastSend := by rw [← left]; rfl
  have sentKey : t.sentKey = s.sentKey := by rw [← left]; rfl
  have view : t.view = s.view := by
    rw [← s.view_reshaped l (layer.shape + 1), ← left]
    rfl
  -- should the state stay the same, the layer had no rect
  have uncut := uncut_of_erased sound.nodup member opened view
  have gone : l ∉ t.opened := by
    rw [opened]
    exact List.Nodup.not_mem_erase sound.nodup
  have cutOf : s.cutOf l = layer.cut := by simp [CutoutSet.cutOf, here]
  have after : t.send.Sound := by
    apply sound.changed sends lastSend sentKey (opened ▸ sound.nodup.erase l)
    · rw [opened, view]
      exact fun l' inside => sound.opened l' (List.mem_of_mem_erase inside)
    · rw [view]
      exact fun _ _ _ _ same => same
    · exact fun same => cutters_erase sound.nodup opened view (uncut same)
  have before (i : Nat) (d : Delivery α) (there : s.sends[i]? = some d) (answers : Answers layer.cut s.sends.length i) :
      l ∉ d.cutters := sound.not_cutter there (cutOf ▸ answers)
  -- what the layer waits for: the send of its release, or the one before it where nothing is sent
  have promised : (∃ n, t.send.lastSend = .of n ∧ Answers layer.cut s.sends.length n) ∧
      ∀ (i : Nat) (d : Delivery α), t.send.sends[i]? = some d → Answers layer.cut s.sends.length i → l ∉ d.cutters := by
    simp only [CutoutSet.send]
    split
    next sent =>
      rw [sentKey] at sent
      obtain ⟨d, last, state⟩ := sound.deliveries.key _ sent
      have none : layer.cut = none := cutOf ▸ uncut (state.symm.trans (sound.current d last).1)
      have some_ : s.sends ≠ [] := by
        rintro empty
        simp [empty] at last
      refine ⟨⟨s.sends.length - 1, lastSend.trans (sound.deliveries.last some_), .inr ⟨none, by omega⟩⟩, ?_⟩
      rw [sends]
      exact before
    · refine ⟨⟨s.sends.length, by simp [deliver, sends], .inl (Nat.le_refl _)⟩, fun i d there answers => ?_⟩
      rcases getElem?_append_new there with old | ⟨rfl, rfl⟩
      · exact before i d (sends ▸ old) answers
      · rw [mem_cutters]
        exact fun inside => gone inside.1
  have view' : t.send.view = s.view := (view_send t).trans view
  have opened' : t.send.opened = t.opened := send_opened t
  exact after.setReleased (opened' ▸ gone) ((congrFun view' l).trans seen) promised

/-! ### Answers -/

omit [LinearOrder α] in
/-- A delivery is answered; what is open stays as it is. -/
theorem Sound.answered (sound : s.Sound) {d after : Delivery α} (becomes : Becomes s.sends i d after)
    (sends : t.sends = s.sends.set i after) (lastSend : t.lastSend = s.lastSend)
    (key : t.sentKey = s.sentKey ∨ t.sentKey = none) (opened : t.opened = s.opened) (view : t.view = s.view) :
    t.Sound := by
  obtain ⟨state, cutters⟩ := state_congr opened fun l _ => congrFun view l
  refine ⟨⟨opened ▸ sound.nodup, ?_, ?_, ?_⟩, ?_, ?_, ?_⟩
  · rw [opened, view]
    exact sound.opened
  · rw [view]
    exact sound.promised
  · rw [view, sends]
    intro l cut p releasedAt released j e here answers
    rcases getElem?_set_cases here with ⟨rfl, rfl⟩ | ⟨-, old⟩
    · rw [becomes.cutters]
      exact sound.without l cut p releasedAt released j d becomes.here answers
    · exact sound.without l cut p releasedAt released j e old answers
  · rw [sends, lastSend]
    exact sound.deliveries.answered becomes key
  · rw [sends]
    exact sound.chained.answered becomes.here becomes.open_ becomes.attempt
  · rw [sends, state, cutters]
    intro last end_
    obtain ⟨before, end', stateSame, cuttersSame, -⟩ := becomes.getLast? end_
    rw [stateSame, cuttersSame]
    exact sound.current before end'

omit [LinearOrder α] in
/-- An answer touches nothing that is sent. -/
theorem view_answered (layers : List (CutoutLayer α)) (i : Nat) (d : Delivery α) (hits : List Bool) (l : Nat) :
    (CutoutSet.answered layers i d hits)[l]?.map CutoutLayer.view = layers[l]?.map CutoutLayer.view := by
  simp only [CutoutSet.answered, List.getElem?_mapIdx, Option.map_map]
  congr 1
  funext layer
  simp only [Function.comp_apply]
  split <;> rfl

omit [LinearOrder α] in
theorem Sound.land (sound : s.Sound) {hits : List Bool} (step : s.land i hits = some t) : t.Sound := by
  obtain ⟨d, here, rest⟩ := Option.bind_eq_some_iff.mp step
  split at rest
  next sent =>
    obtain rfl := Option.some.inj rest
    have becomes : Becomes s.sends i d { d with phase := .landed, applied := true } :=
      ⟨here, .inl sent, rfl, rfl, rfl, by simp, by simp, by simp, by simp⟩
    exact sound.answered becomes rfl rfl (.inl rfl) rfl (funext (view_answered s.layers i d hits))
  · cases rest

omit [LinearOrder α] in
theorem sends_setPhase {d : Delivery α} (here : s.sends[i]? = some d) (phase : Phase) :
    (s.setPhase i phase).sends = s.sends.set i { d with phase } := by
  simp [setPhase, List.modify_eq_set_getElem?, here]

theorem Sound.fail (sound : s.Sound) {applied : Bool} (step : s.fail i applied = some t) : t.Sound := by
  obtain ⟨d, here, rest⟩ := Option.bind_eq_some_iff.mp step
  have inside := (List.getElem?_eq_some_iff.mp here).1
  have last := sound.deliveries.last_of_mem (List.mem_of_getElem? here)
  have few := sound.deliveries.few i d here
  split at rest
  next sent =>
    obtain rfl := Option.some.inj rest
    -- the host may have applied it all the same
    have there : ({ s with sends := s.sends.set i { d with applied } } : CutoutSet α).sends[i]? =
        some { d with applied } := by
      simp [inside]
    have sends (phase : Phase) : (s.sends.set i { d with applied }).set i { d with applied, phase } =
        s.sends.set i { d with applied, phase } := List.set_set ..
    split
    · -- overtaken: the last send stands for it
      have becomes : Becomes s.sends i d { d with applied, phase := .stands s.lastSend } :=
        ⟨here, .inl sent, rfl, rfl, rfl, by simp [last], by simp, by simp, by simp⟩
      exact sound.answered becomes ((sends_setPhase there _).trans (sends _)) rfl (.inl rfl) rfl rfl
    · split
      next spent =>
        have becomes : Becomes s.sends i d { d with applied, phase := .gaveUp } :=
          ⟨here, .inl sent, rfl, rfl, rfl, by simp, by simp, fun _ => by simp; omega, by simp⟩
        exact sound.answered becomes ((sends_setPhase there _).trans (sends _)) rfl (.inr rfl) rfl rfl
      next left =>
        have becomes : Becomes s.sends i d { d with applied, phase := .waiting } :=
          ⟨here, .inl sent, rfl, rfl, rfl, by simp, by simp, by simp, fun _ => by simp; omega⟩
        exact sound.answered becomes ((sends_setPhase there _).trans (sends _)) rfl (.inr rfl) rfl rfl
  · cases rest

theorem Sound.retry (sound : s.Sound) (step : s.retry i = some t) : t.Sound := by
  obtain ⟨d, here, rest⟩ := Option.bind_eq_some_iff.mp step
  have inside := (List.getElem?_eq_some_iff.mp here).1
  have last := sound.deliveries.last_of_mem (List.mem_of_getElem? here)
  split at rest
  next waits =>
    obtain rfl := Option.some.inj rest
    split
    · have becomes : Becomes s.sends i d { d with phase := .stands s.lastSend } :=
        ⟨here, .inr waits, rfl, rfl, rfl, by simp [last], by simp, by simp, by simp⟩
      exact sound.answered becomes (sends_setPhase here _) rfl (.inl rfl) rfl rfl
    · have fewer := sound.deliveries.waiting i d here waits
      -- not overtaken: the state of now goes out as the next attempt, and stands for this one
      have sends : ((s.deliver (d.attempt + 1)).setPhase i (.stands (.of s.sends.length))).sends =
          s.sends.set i { d with phase := .stands (.of s.sends.length) } ++
            [⟨s.state, s.cutters, d.attempt + 1, .sent, false⟩] := by
        rw [sends_setPhase (getElem?_append_old here)]
        exact List.set_append_left _ _ inside
      have becomes : Becomes (s.deliver (d.attempt + 1)).sends i d { d with phase := .stands (.of s.sends.length) } :=
        ⟨getElem?_append_old here, .inr waits, rfl, rfl, rfl, by simp [deliver], by simp, by simp, by simp⟩
      obtain ⟨state, cutters⟩ := s.deliver_state (d.attempt + 1)
      have deliveries := (sound.deliveries.sent s.state s.cutters fewer).answered becomes (.inl rfl)
      have view : ((s.deliver (d.attempt + 1)).setPhase i (.stands (.of s.sends.length))).view = s.view :=
        view_deliver s (d.attempt + 1)
      refine ⟨⟨sound.nodup, ?_, ?_, ?_⟩, ?_, ?_, ?_⟩
      · rw [view]
        exact sound.opened
      · rw [view]
        exact sound.promised
      · rw [view, sends]
        intro l cut p releasedAt released j e there answers
        rcases getElem?_append_new there with old | ⟨-, rfl⟩
        · rcases getElem?_set_cases old with ⟨rfl, rfl⟩ | ⟨-, kept⟩
          · exact sound.without l cut p releasedAt released j d here answers
          · exact sound.without l cut p releasedAt released j e kept answers
        · exact sound.not_mem_cutters released
      · rw [sends_setPhase (getElem?_append_old here)]
        exact deliveries
      · rw [sends]
        exact sound.chained.retried here waits s.state s.cutters
      · rw [sends]
        intro e end_
        obtain rfl : _ = e := Option.some.inj ((List.getLast?_concat ..).symm.trans end_)
        exact ⟨state.symm, cutters.symm⟩
  · cases rest

/-! ### Runs -/

theorem Every.send (every : s.Every) : s.send.Every := by
  simp only [Every]
  rw [view_send, send_opened]
  exact every

omit [LinearOrder α] in
theorem Every.of_view (every : s.Every) (view : t.view = s.view) (opened : t.opened = s.opened) : t.Every := by
  simp only [Every]
  rw [view, opened]
  exact every

omit [LinearOrder α] in
theorem Every.setCut (every : s.Every) (next : Option (CutRect α)) : (s.setCut l next).Every := by
  intro l' cut releasedAt here
  rw [CutoutSet.setCut, view_setLayer] at here
  split at here
  next same =>
    subst same
    obtain ⟨layer, at_, view⟩ := Option.map_eq_some_iff.mp here
    simp only [CutoutLayer.view, Prod.mk.injEq] at view
    exact every l' layer.cut releasedAt (by simp [CutoutSet.view, at_, CutoutLayer.view, view.2.1, view.2.2])
  · exact every l' cut releasedAt here

theorem Every.step [Add α] [Sub α] {event : CutoutEvent α} (every : s.Every) (step : CutoutStep s event t) :
    t.Every := by
  cases event with
  | add =>
    obtain rfl := Option.some.inj step
    apply Every.send
    intro l cut releasedAt here
    obtain ⟨layer, at_, view⟩ := Option.map_eq_some_iff.mp here
    rw [List.mem_append]
    -- a layer of before, the new one, or none
    rcases Nat.lt_trichotomy l s.layers.length with inside | rfl | beyond
    · rw [List.getElem?_append_left inside] at at_
      exact .inl (every l cut releasedAt (by simp [CutoutSet.view, at_, view]))
    · exact .inr (List.mem_singleton_self _)
    · rw [List.getElem?_eq_none (by simp; omega)] at at_
      cases at_
  | reshape l next =>
    obtain ⟨layer, here, rfl⟩ := Option.map_eq_some_iff.mp step
    split
    · exact every
    · have shaped : (s.setLayer l ({ · with shape := layer.shape + 1 })).Every := every.of_view (s.view_reshaped l _) rfl
      generalize s.setLayer l ({ · with shape := layer.shape + 1 }) = u at shaped ⊢
      have kept : (if keptCut layer.cut next = layer.cut then u else (u.setCut l (keptCut layer.cut next)).send).Every := by
        split
        · exact shaped
        · exact (shaped.setCut _).send
      dsimp only
      split
      · exact kept
      · split
        · exact kept
        · exact kept.of_view rfl rfl
  | presented k =>
    obtain ⟨p, -, rest⟩ := Option.bind_eq_some_iff.mp step
    obtain ⟨layer, here, rfl⟩ := Option.map_eq_some_iff.mp rest
    have erased : Every { s with presentations := s.presentations.eraseIdx k } := every
    split
    · exact (erased.setCut _).send
    · exact erased
  | release l =>
    obtain ⟨layer, here, rfl⟩ := Option.map_eq_some_iff.mp step
    split
    · exact every
    · intro l' cut releasedAt there
      rw [view_setLayer] at there
      split at there
      · obtain ⟨_, -, view⟩ := Option.map_eq_some_iff.mp there
        simp [CutoutLayer.view] at view
      next other =>
        rw [view_send] at there
        have old : s.view l' = some (cut, none, releasedAt) := by
          rw [← s.view_reshaped l (layer.shape + 1)]
          exact there
        show l' ∈ CutoutSet.opened (CutoutSet.send _)
        rw [send_opened]
        exact (List.mem_erase_of_ne other).mpr (every l' cut releasedAt old)
  | resend =>
    obtain rfl := Option.some.inj step
    exact Every.send every
  | land i hits =>
    obtain ⟨d, here, rest⟩ := Option.bind_eq_some_iff.mp step
    split at rest
    · obtain rfl := Option.some.inj rest
      exact every.of_view (funext (view_answered s.layers i d hits)) rfl
    · cases rest
  | fail i applied =>
    obtain ⟨d, here, rest⟩ := Option.bind_eq_some_iff.mp step
    split at rest
    · obtain rfl := Option.some.inj rest
      split
      · exact every.of_view rfl rfl
      · exact every.of_view rfl rfl
    · cases rest
  | retry i =>
    obtain ⟨d, here, rest⟩ := Option.bind_eq_some_iff.mp step
    split at rest
    · obtain rfl := Option.some.inj rest
      split
      · exact every.of_view rfl rfl
      · exact every.of_view (view_deliver s (d.attempt + 1)) rfl
    · cases rest

theorem Sound.step [Add α] [Sub α] {event : CutoutEvent α} (sound : s.Sound) (every : s.Every)
    (step : CutoutStep s event t) : t.Sound := by
  cases event with
  | add => exact Option.some.inj step ▸ sound.add
  | reshape l next => exact sound.reshape step
  | presented k => exact sound.presented step
  | release l => exact sound.release every step
  | resend => exact Option.some.inj step ▸ sound.resend
  | land i hits => exact sound.land step
  | fail i applied => exact sound.fail step
  | retry i => exact sound.retry step

omit [LinearOrder α] in
theorem sound_fresh : (fresh : CutoutSet α).Sound := by
  refine ⟨⟨List.nodup_nil, ?_, ?_, ?_⟩, ?_, ?_, ?_⟩
  all_goals simp [fresh, view, Chained]
  constructor <;> simp

omit [LinearOrder α] in
theorem every_fresh : (fresh : CutoutSet α).Every := by
  intro l cut releasedAt here
  simp [fresh, view] at here

end

end CutoutSet

/-- A release resolves only after the host answered a state without its layer, sent at the
release or later (or the last before it, where the layer had no rect to give back), or after
the attempts have all failed; and where the last send landed, the host holds the set's state. -/
theorem cutouts_close [LinearOrder α] [Add α] [Sub α] {ms : List (Moment (CutoutSet α) (CutoutEvent α))}
    {s : CutoutSet α} (run : Run CutoutStep .fresh ms s) :
    (∀ (l : Nat) (layer : CutoutLayer α) (p : Promise), s.layers[l]? = some layer → layer.released = some p →
      Resolved s p →
      (∃ (i : Nat) (d : Delivery α), s.sends[i]? = some d ∧ d.phase = .landed ∧ l ∉ d.cutters ∧
        CutoutSet.Answers layer.cut layer.releasedAt i) ∨
      ∃ i, CutoutSet.Answers layer.cut layer.releasedAt i ∧ FailedInARow s SEND_ATTEMPTS i) ∧
    ∀ d, s.sends.getLast? = some d → d.phase = .landed → s.hostState = some s.state := by
  obtain ⟨sound, every⟩ : s.Sound ∧ s.Every :=
    run.always (P := fun s : CutoutSet α => s.Sound ∧ s.Every)
      (fun _ _ _ step inv => ⟨inv.1.step inv.2 step, inv.2.step step⟩) ⟨CutoutSet.sound_fresh, CutoutSet.every_fresh⟩
  constructor
  · intro l layer p here released settled
    have view : s.view l = some (layer.cut, some p, layer.releasedAt) := by
      simp [CutoutSet.view, here, CutoutLayer.view, released]
    obtain ⟨n, rfl, answers⟩ := sound.promised l _ _ _ view
    obtain ⟨i, d, later, there, landed | gaveUp⟩ := settled.answered sound.deliveries
    all_goals
      have answers' : CutoutSet.Answers layer.cut layer.releasedAt i := by
        rcases answers with after | ⟨none, before⟩
        · exact .inl (Nat.le_trans after later)
        · exact .inr ⟨none, by omega⟩
    · exact .inl ⟨i, d, there, landed, sound.without l _ _ _ view i d there answers', answers'⟩
    · have attempt := sound.deliveries.gaveUp i d there gaveUp
      exact .inr ⟨i, answers', sound.chained.failedInARow there attempt (by simp [gaveUp])⟩
  · intro d last landed
    have place := List.getLast?_eq_getElem?.symm.trans last
    have applied := sound.deliveries.applied _ d place landed
    have first : s.sends.reverse.find? (·.applied) = some d := by
      obtain ⟨older, shape⟩ := List.getLast?_eq_some_iff.mp last
      simp [shape, applied]
    rw [CutoutSet.hostState, first, Option.map_some, (sound.current d last).1]

/-- A layer is cut and closed again; the send of its release fails, and its retry lands. -/
theorem cutouts_close_retried :
    ∃ (ms : List (Moment (CutoutSet Int) (CutoutEvent Int))) (s : CutoutSet Int), Run CutoutStep .fresh ms s ∧
      s.layers.map (·.released) = [some (.of 2)] ∧ s.sends.map (·.phase) = [.landed, .landed, .stands (.of 3), .landed] ∧
      s.hostState = some ⟨[], false⟩ ∧ s.hostState = some s.state := by
  obtain ⟨ms, s, run, shown⟩ := exists_run_of_follow CutoutSet.step (.fresh : CutoutSet Int)
    [.add, .land 0 [], .reshape 0 (some ⟨0, 0, 40, 20⟩), .presented 0, .land 1 [true], .release 0, .fail 2 false,
      .retry 2, .land 3 []]
    (fun _ s => decide (s.layers.map (·.released) = [some (.of 2)] ∧
      s.sends.map (·.phase) = [.landed, .landed, .stands (.of 3), .landed] ∧ s.hostState = some ⟨[], false⟩ ∧
      s.sends.getLast?.any (fun d => d.phase = .landed) = true))
    (by decide)
  obtain ⟨released, phases, host, last⟩ := of_decide_eq_true shown
  obtain ⟨d, there, landed⟩ := (Option.any_eq_true _ _).mp last
  exact ⟨ms, s, run, released, phases, host, (cutouts_close run).2 d there (of_decide_eq_true landed)⟩

/-- A second layer that never showed is closed: nothing is sent for it, and its release has
resolved through the send that opened the first. -/
theorem release_waits_for_nothing :
    ∃ (ms : List (Moment (CutoutSet Int) (CutoutEvent Int))) (s : CutoutSet Int) (layer : CutoutLayer Int),
      Run CutoutStep .fresh ms s ∧ s.layers[1]? = some layer ∧ layer.released = some (.of 0) ∧ Resolved s (.of 0) ∧
      ∀ (i : Nat) (d : Delivery Int), s.sends[i]? = some d → i < layer.releasedAt ∧ d.phase = .landed := by
  obtain ⟨ms, s, run, shown⟩ := exists_run_of_follow CutoutSet.step (.fresh : CutoutSet Int)
    [.add, .add, .land 0 [], .release 1]
    (fun _ s => decide (s.layers[1]?.map (fun layer : CutoutLayer Int => (layer.released, layer.releasedAt)) =
      some (some (Promise.of 0), 1) ∧ s.sends.map (·.phase) = [.landed]))
    (by decide)
  obtain ⟨released, phases⟩ := of_decide_eq_true shown
  obtain ⟨layer, here, promise⟩ := Option.map_eq_some_iff.mp released
  obtain ⟨d, alone, landed⟩ := List.map_eq_singleton_iff.mp phases
  rw [Prod.mk.injEq] at promise
  refine ⟨ms, s, layer, run, here, promise.1, .landed (i := 0) (d := d) (by simp [alone]) landed, ?_⟩
  intro i e there
  rw [alone, List.getElem?_singleton] at there
  split at there
  next first =>
    cases there
    exact ⟨by omega, landed⟩
  · cases there

end Braidcast.Docking
