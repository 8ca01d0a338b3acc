import Braidcast.Overlay.Leaderboard

/-!
# Lines, their order and their chains

Every operation keeps the number of live lines and, for each message id, the chain of the live
lines with that id, the newest first.
-/
namespace Braidcast.Overlay

open Lib

namespace LineStore

variable {s : LineStore} {line l : Nat} {identity : ChatIdentity} {chatter : Nat} {id : String}

/-- The live lines of a message id, the newest first. -/
def chain (s : LineStore) (id : String) : List Nat := (s.live.filter fun line => (s.identity line).id = id).reverse

structure Sound (s : LineStore) : Prop where
  nodup : s.order.Nodup
  bounded : ∀ line ∈ s.order, line < s.made
  within : s.orderHead ≤ s.order.length
  count : s.liveLines = s.live.length
  first : ∀ id, s.linesById id = if id = "" then none else (s.chain id).head?
  linked : ∀ id, id ≠ "" → Linked s.sameId (s.chain id)

theorem mem_live : line ∈ s.live ↔ line ∈ s.order.drop s.orderHead ∧ (s.lines line).gone = false := by
  simp [live]

theorem mem_chain : line ∈ s.chain id ↔ line ∈ s.live ∧ (s.identity line).id = id := by
  simp [chain]

theorem Sound.live_nodup (sound : s.Sound) : s.live.Nodup :=
  (sound.nodup.sublist (List.drop_sublist _ _)).filter _

theorem Sound.lt_made (sound : s.Sound) (member : line ∈ s.live) : line < s.made :=
  sound.bounded line (List.mem_of_mem_drop (mem_live.mp member).1)

theorem Sound.chain_nodup (sound : s.Sound) (id : String) : (s.chain id).Nodup :=
  List.nodup_reverse.mpr (sound.live_nodup.filter _)

theorem chain_length (s : LineStore) (id : String) : (s.chain id).length ≤ s.order.length := by
  unfold chain live
  rw [List.length_reverse]
  have few := List.length_filter_le (fun line => decide ((s.identity line).id = id))
    ((s.order.drop s.orderHead).filter fun line => !(s.lines line).gone)
  have fewer := List.length_filter_le (fun line => !(s.lines line).gone) (s.order.drop s.orderHead)
  rw [List.length_drop] at fewer
  omega

/-- The new line is live. -/
theorem add_live (sound : s.Sound) : (s.add identity chatter).live = s.live ++ [s.made] := by
  unfold live add
  dsimp only
  rw [List.drop_append_of_le_length sound.within, List.filter_append]
  congr 1
  · refine List.filter_congr fun l member => ?_
    have old := Nat.ne_of_lt (sound.bounded l (List.mem_of_mem_drop member))
    rw [Function.update_of_ne old]
  · simp

theorem add_identity_of_ne (old : l ≠ s.made) : (s.add identity chatter).identity l = s.identity l := by
  simp [LineStore.identity, add, Function.update_of_ne old]

@[simp] theorem add_identity_new : (s.add identity chatter).identity s.made = identity := by
  simp [LineStore.identity, add]

theorem add_chatter_of_ne (old : l ≠ s.made) : ((s.add identity chatter).lines l).chatter = (s.lines l).chatter := by
  simp [add, Function.update_of_ne old]

@[simp] theorem add_chatter_new : ((s.add identity chatter).lines s.made).chatter = chatter := by
  simp [add]

/-- The new line is the first of its id. -/
theorem add_chain (sound : s.Sound) (id : String) :
    (s.add identity chatter).chain id = if id = identity.id then s.made :: s.chain id else s.chain id := by
  unfold chain
  rw [add_live sound, List.filter_append]
  have same : s.live.filter (fun l => ((s.add identity chatter).identity l).id = id) =
      s.live.filter (fun l => (s.identity l).id = id) :=
    List.filter_congr fun l member => by rw [add_identity_of_ne (Nat.ne_of_lt (sound.lt_made member))]
  rw [same]
  by_cases own : id = identity.id
  · subst own
    simp
  · rw [if_neg own]
    simp [Ne.symm own]

theorem add_sound (sound : s.Sound) : (s.add identity chatter).Sound where
  nodup := by
    refine List.nodup_append.mpr ⟨sound.nodup, by simp, fun l member new here => ?_⟩
    rcases List.mem_singleton.mp here with rfl
    rintro rfl
    exact absurd (sound.bounded _ member) (Nat.lt_irrefl _)
  bounded l member := by
    rcases List.mem_append.mp member with old | new
    · exact Nat.lt_succ_of_lt (sound.bounded l old)
    · rcases List.mem_singleton.mp new with rfl
      exact Nat.lt_succ_self _
  within := by
    have within := sound.within
    simp only [add, List.length_append]
    omega
  count := by
    rw [add_live sound, List.length_append]
    have count := sound.count
    simp only [add, List.length_singleton]
    omega
  first id := by
    rw [add_chain sound]
    have first := sound.first id
    simp only [add]
    by_cases blank : identity.id = ""
    · rw [if_pos blank, first]
      by_cases none : id = ""
      · rw [if_pos none, if_pos none]
      · rw [if_neg none, if_neg none, if_neg (fun own => none (own.trans blank))]
    · rw [if_neg blank]
      by_cases own : id = identity.id
      · subst own
        rw [Function.update_self, if_neg blank, if_pos rfl]
        rfl
      · rw [Function.update_of_ne own, first, if_neg own]
  linked id some := by
    rw [add_chain sound]
    have kept : Linked (s.add identity chatter).sameId (s.chain id) := by
      refine (sound.linked id some).congr fun l member => ?_
      have old := Nat.ne_of_lt (sound.lt_made (mem_chain.mp member).1)
      simp [sameId, add, Function.update_of_ne old]
    by_cases own : id = identity.id
    · subst own
      rw [if_pos rfl]
      refine ⟨?_, kept⟩
      have first := sound.first identity.id
      rw [if_neg some] at first
      simp [sameId, add, some, first]
    · rw [if_neg own]
      exact kept

/-- Taking a line out of its chain touches nothing but the chain. -/
structure Keeps (s t : LineStore) : Prop where
  identity : ∀ l, t.identity l = s.identity l
  chatter : ∀ l, (t.lines l).chatter = (s.lines l).chatter
  gone : ∀ l, (t.lines l).gone = (s.lines l).gone
  order : t.order = s.order
  orderHead : t.orderHead = s.orderHead
  made : t.made = s.made
  liveLines : t.liveLines = s.liveLines

theorem unchain_keeps (s : LineStore) (line : Nat) : Keeps s (s.unchain line) := by
  unfold unchain
  split
  · exact ⟨fun _ => rfl, fun _ => rfl, fun _ => rfl, rfl, rfl, rfl, rfl⟩
  split
  · exact ⟨fun _ => rfl, fun _ => rfl, fun _ => rfl, rfl, rfl, rfl, rfl⟩
  split
  next before _ =>
    refine ⟨fun l => ?_, fun l => ?_, fun l => ?_, rfl, rfl, rfl, rfl⟩ <;>
    · by_cases same : l = before
      · subst same
        simp [LineStore.identity]
      · simp [LineStore.identity, Function.update_of_ne same]
  next => exact ⟨fun _ => rfl, fun _ => rfl, fun _ => rfl, rfl, rfl, rfl, rfl⟩

/-- What `retire` marks before it takes the line out of its chain. -/
def marked (s : LineStore) (line : Nat) : LineStore :=
  { s with
    lines := Function.update s.lines line { s.lines line with gone := true }
    liveLines := s.liveLines - 1 }

section

variable (s)

theorem marked_lines (line l : Nat) :
    (s.marked line).identity l = s.identity l ∧ ((s.marked line).lines l).chatter = (s.lines l).chatter ∧
      (s.marked line).sameId l = s.sameId l ∧ ((s.marked line).lines l).gone = (decide (l = line) || (s.lines l).gone) := by
  by_cases same : l = line
  · subst same
    simp [marked, LineStore.identity, sameId]
  · simp [marked, LineStore.identity, sameId, same]

theorem retire_identity (line l : Nat) : (s.retire line).identity l = s.identity l :=
  ((unchain_keeps (s.marked line) line).identity l).trans (s.marked_lines line l).1

theorem retire_chatter (line l : Nat) : ((s.retire line).lines l).chatter = (s.lines l).chatter :=
  ((unchain_keeps (s.marked line) line).chatter l).trans (s.marked_lines line l).2.1

theorem retire_gone (line l : Nat) :
    ((s.retire line).lines l).gone = (decide (l = line) || (s.lines l).gone) :=
  ((unchain_keeps (s.marked line) line).gone l).trans (s.marked_lines line l).2.2.2

theorem retire_order (line : Nat) : (s.retire line).order = s.order :=
  (unchain_keeps (s.marked line) line).order

theorem retire_orderHead (line : Nat) : (s.retire line).orderHead = s.orderHead :=
  (unchain_keeps (s.marked line) line).orderHead

theorem retire_made (line : Nat) : (s.retire line).made = s.made :=
  (unchain_keeps (s.marked line) line).made

/-- The line is not live any more, the others are as they were. -/
theorem retire_live (line : Nat) : (s.retire line).live = s.live.filter fun l => l ≠ line := by
  unfold live
  rw [retire_order, retire_orderHead, List.filter_filter]
  refine List.filter_congr fun l _ => ?_
  rw [retire_gone]
  by_cases same : l = line <;> simp [same]

theorem retire_chain (line : Nat) (id : String) :
    (s.retire line).chain id = (s.chain id).filter fun l => l ≠ line := by
  unfold chain
  rw [retire_live, List.filter_reverse, List.filter_filter, List.filter_filter]
  congr 1
  refine List.filter_congr fun l _ => ?_
  rw [retire_identity, Bool.and_comm]

end

/-- Filtering a line out of its chain leaves what is in front of it and behind it. -/
theorem filter_split {pre post : List Nat} (nodup : (pre ++ line :: post).Nodup) :
    (pre ++ line :: post).filter (fun l => l ≠ line) = pre ++ post := by
  obtain ⟨_, back, apart⟩ := List.nodup_append.mp nodup
  have front (l) (member : l ∈ pre) : l ≠ line := apart l member line List.mem_cons_self
  have behind (l) (member : l ∈ post) : l ≠ line := by
    rintro rfl
    exact (List.nodup_cons.mp back).1 member
  rw [List.filter_append, List.filter_cons_of_neg (by simp)]
  congr 1
  · exact List.filter_eq_self.mpr fun l member => decide_eq_true (front l member)
  · exact List.filter_eq_self.mpr fun l member => decide_eq_true (behind l member)

/-- Where a chain is read up to a line: that line is live, the one behind it is next, and the chain
loses it alone when it is retired. -/
theorem Sound.at_split (sound : s.Sound) {pre post : List Nat} (some : id ≠ "") (split : s.chain id = pre ++ line :: post) :
    line ∈ s.live ∧ s.sameId line = post.head? ∧ (s.retire line).chain id = pre ++ post ∧ s.chain id = (pre ++ [line]) ++ post := by
  have linked := sound.linked id some
  have nodup := sound.chain_nodup id
  have chained : line ∈ s.chain id := by simp [split]
  rw [retire_chain]
  rw [split] at linked nodup ⊢
  exact ⟨(mem_chain.mp chained).1, linked.next_of_append, filter_split nodup, by simp⟩

/-- The chain of another id is not touched. -/
theorem filter_other (member : line ∈ s.live) (other : id ≠ (s.identity line).id) :
    (s.chain id).filter (fun l => l ≠ line) = s.chain id := by
  refine List.filter_eq_self.mpr fun l listed => decide_eq_true ?_
  rintro rfl
  exact other (mem_chain.mp listed).2.symm

/-- The pointer to the line, wherever it stood, is now the line's own pointer. -/
theorem retire_cases (sound : s.Sound) (member : line ∈ s.live) (some : (s.identity line).id ≠ "") :
    ∃ pre post, s.chain (s.identity line).id = pre ++ line :: post ∧
      ((pre = [] ∧ (s.retire line).linesById = Function.update s.linesById (s.identity line).id post.head? ∧
          (s.retire line).sameId = s.sameId) ∨
        ∃ before front, pre = front ++ [before] ∧ (s.retire line).linesById = s.linesById ∧
          (s.retire line).sameId = Function.update s.sameId before post.head?) := by
  obtain ⟨pre, post, split⟩ := List.append_of_mem (mem_chain.mpr ⟨member, rfl⟩ : line ∈ s.chain (s.identity line).id)
  have linked := sound.linked _ some
  have nodup := sound.chain_nodup (s.identity line).id
  have first := sound.first (s.identity line).id
  rw [if_neg some] at first
  rw [split] at linked nodup first
  have next : s.sameId line = post.head? := linked.next_of_append
  have sames : (s.marked line).sameId = s.sameId := funext fun l => (s.marked_lines line l).2.2.1
  have ident := (s.marked_lines line line).1
  have retire : s.retire line = (s.marked line).unchain line := rfl
  refine ⟨pre, post, split, ?_⟩
  rcases List.eq_nil_or_concat pre with rfl | ⟨front, before, concat⟩
  · left
    have here : (s.marked line).linesById (s.identity line).id = Option.some line := first
    rw [retire, unchain, ident, if_neg some, if_pos here, sames, next]
    exact ⟨rfl, rfl, sames⟩
  · right
    rw [List.concat_eq_append] at concat
    subst concat
    refine ⟨before, front, rfl, ?_⟩
    simp only [List.append_assoc, List.singleton_append] at linked nodup first split
    have later : (s.marked line).linesById (s.identity line).id ≠ Option.some line := by
      intro here
      have head : (front ++ before :: line :: post).head? = Option.some line := first.symm.trans here
      cases front with
      | nil =>
        cases head
        exact absurd List.mem_cons_self (List.nodup_cons.mp nodup).1
      | cons l front =>
        cases head
        exact absurd (by simp) (List.nodup_cons.mp nodup).1
    have few : front.length < s.order.length := by
      have length := s.chain_length (s.identity line).id
      rw [split] at length
      simp only [List.length_append, List.length_cons] at length
      omega
    have found : predecessor (s.marked line).sameId line (s.marked line).order.length
        ((s.marked line).linesById (s.identity line).id) = Option.some before := by
      rw [sames]
      exact (congrArg _ first).trans (predecessor_eq linked nodup few)
    rw [retire, unchain, ident, if_neg some, if_neg later, found, sames, next]
    refine ⟨rfl, funext fun l => ?_⟩
    by_cases same : l = before
    · subst same
      simp [sameId]
    · have kept := congrFun sames l
      simp only [sameId] at kept
      simp [sameId, same, kept]

theorem retire_blank (blank : (s.identity line).id = "") : s.retire line = s.marked line := by
  have retire : s.retire line = (s.marked line).unchain line := rfl
  rw [retire, unchain, (s.marked_lines line line).1, if_pos blank]

theorem retire_sound (sound : s.Sound) (member : line ∈ s.live) : (s.retire line).Sound where
  nodup := by
    rw [retire_order]
    exact sound.nodup
  bounded := by
    rw [retire_order, retire_made]
    exact sound.bounded
  within := by
    rw [retire_order, retire_orderHead]
    exact sound.within
  count := by
    have kept : (s.retire line).liveLines = s.liveLines - 1 := (unchain_keeps (s.marked line) line).liveLines
    rw [kept, retire_live]
    have fewer : (s.live.filter fun l => l ≠ line).length + 1 = s.live.length := by
      obtain ⟨pre, post, split⟩ := List.append_of_mem member
      have nodup := sound.live_nodup
      rw [split] at nodup ⊢
      rw [filter_split nodup]
      simp only [List.length_append, List.length_cons]
      omega
    have count := sound.count
    omega
  first id := by
    rw [retire_chain]
    by_cases blank : (s.identity line).id = ""
    · rw [retire_blank blank]
      have first := sound.first id
      by_cases none : id = ""
      · rw [if_pos none] at first ⊢
        exact first
      · rw [filter_other member fun own => none (own.trans blank)]
        exact first
    · obtain ⟨pre, post, split, cases⟩ := retire_cases sound member blank
      have nodup := sound.chain_nodup (s.identity line).id
      rw [split] at nodup
      by_cases own : id = (s.identity line).id
      · subst own
        rw [if_neg blank, split, filter_split nodup]
        rcases cases with ⟨rfl, linesById, _⟩ | ⟨before, front, rfl, linesById, _⟩
        · rw [linesById, Function.update_self]
          rfl
        · have first := sound.first (s.identity line).id
          rw [if_neg blank, split] at first
          rw [linesById, first]
          cases front <;> rfl
      · rw [filter_other member own, ← sound.first id]
        rcases cases with ⟨_, linesById, _⟩ | ⟨_, _, _, linesById, _⟩
        · rw [linesById, Function.update_of_ne own]
        · rw [linesById]
  linked id some := by
    rw [retire_chain]
    by_cases blank : (s.identity line).id = ""
    · rw [retire_blank blank, filter_other member fun own => some (own.trans blank)]
      exact (sound.linked id some).congr fun l _ => (s.marked_lines line l).2.2.1
    · obtain ⟨pre, post, split, cases⟩ := retire_cases sound member blank
      have nodup := sound.chain_nodup (s.identity line).id
      have linked := sound.linked (s.identity line).id blank
      rw [split] at nodup linked
      by_cases own : id = (s.identity line).id
      · subst own
        rw [split, filter_split nodup]
        rcases cases with ⟨rfl, _, sameId⟩ | ⟨before, front, rfl, _, sameId⟩
        · rw [sameId]
          exact linked.2
        · simp only [List.append_assoc, List.singleton_append] at linked nodup ⊢
          rw [sameId, ← (linked.suffix).2.1]
          exact linked.unlink nodup
      · rw [filter_other member own]
        rcases cases with ⟨_, _, sameId⟩ | ⟨before, front, rfl, _, sameId⟩
        · rw [sameId]
          exact sound.linked id some
        · rw [sameId]
          refine (sound.linked id some).congr fun l listed => Function.update_of_ne ?_ ..
          rintro rfl
          have mine : l ∈ s.chain (s.identity line).id := by
            rw [split]
            simp
          exact own ((mem_chain.mp listed).2.symm.trans (mem_chain.mp mine).2)

/-- Where the order starts does not matter to a chain. -/
theorem unchain_from (s : LineStore) (line n : Nat) :
    ({ s with orderHead := n } : LineStore).unchain line = { s.unchain line with orderHead := n } := by
  unfold unchain
  by_cases blank : (s.identity line).id = ""
  · rw [if_pos blank]
    exact if_pos blank
  · rw [if_neg blank]
    refine (if_neg blank).trans ?_
    by_cases here : s.linesById (s.identity line).id = some line
    · rw [if_pos here]
      exact if_pos here
    · rw [if_neg here]
      refine (if_neg here).trans ?_
      rcases found : predecessor s.sameId line s.order.length (s.linesById (s.identity line).id) with _ | before
      · have moved : predecessor ({ s with orderHead := n } : LineStore).sameId line ({ s with orderHead := n } : LineStore).order.length
            (({ s with orderHead := n } : LineStore).linesById (({ s with orderHead := n } : LineStore).identity line).id) = none := found
        rw [moved]
      · have moved : predecessor ({ s with orderHead := n } : LineStore).sameId line ({ s with orderHead := n } : LineStore).order.length
            (({ s with orderHead := n } : LineStore).linesById (({ s with orderHead := n } : LineStore).identity line).id) =
              some before := found
        rw [moved]
        rfl

theorem retire_from (s : LineStore) (line n : Nat) :
    ({ s with orderHead := n } : LineStore).retire line = { s.retire line with orderHead := n } :=
  unchain_from (s.marked line) line n

/-- All lines of a list, none twice. -/
theorem retire_all {ls : List Nat} (sound : s.Sound) (nodup : ls.Nodup) (live : ∀ l ∈ ls, l ∈ s.live) :
    (ls.foldl retire s).Sound ∧ (ls.foldl retire s).live = s.live.filter (fun l => l ∉ ls) ∧
      (∀ l, ((ls.foldl retire s).lines l).chatter = (s.lines l).chatter) ∧
      ∀ l, (ls.foldl retire s).identity l = s.identity l := by
  induction ls generalizing s with
  | nil => exact ⟨sound, by simp, fun _ => rfl, fun _ => rfl⟩
  | cons line ls ih =>
    obtain ⟨apart, rest⟩ := List.nodup_cons.mp nodup
    have there : line ∈ s.live := live line List.mem_cons_self
    obtain ⟨sound', live', chatter, same⟩ := ih (retire_sound sound there) rest fun l member => by
      rw [retire_live]
      refine List.mem_filter.mpr ⟨live l (List.mem_cons_of_mem _ member), decide_eq_true ?_⟩
      rintro rfl
      exact apart member
    refine ⟨sound', ?_, fun l => (chatter l).trans (retire_chatter ..), fun l => (same l).trans (retire_identity ..)⟩
    rw [List.foldl_cons, live', retire_live, List.filter_filter]
    refine List.filter_congr fun l _ => ?_
    simp only [List.mem_cons, not_or, Bool.decide_and, Bool.and_comm]

/-- Passing a line that is gone. -/
theorem pass_live {rest : List Nat} (there : s.order.drop s.orderHead = line :: rest) (gone : (s.lines line).gone = true) :
    ({ s with orderHead := s.orderHead + 1 } : LineStore).live = s.live := by
  unfold live
  dsimp only
  rw [← List.drop_drop, there, List.drop_one, List.tail_cons, List.filter_cons_of_neg (by simp [gone])]

theorem pass_sound {rest : List Nat} (sound : s.Sound) (there : s.order.drop s.orderHead = line :: rest)
    (gone : (s.lines line).gone = true) : ({ s with orderHead := s.orderHead + 1 } : LineStore).Sound := by
  have live := pass_live there gone
  have chain (id : String) : ({ s with orderHead := s.orderHead + 1 } : LineStore).chain id = s.chain id := by
    unfold LineStore.chain
    rw [live]
    rfl
  have more : s.orderHead < s.order.length := by
    by_contra none
    rw [List.drop_eq_nil_of_le (Nat.le_of_not_lt none)] at there
    cases there
  refine ⟨sound.nodup, sound.bounded, more, ?_, fun id => ?_, fun id some => ?_⟩
  · rw [live]
    exact sound.count
  · rw [chain]
    exact sound.first id
  · rw [chain]
    exact sound.linked id some

theorem compactOrder_keeps (sound : s.Sound) : s.compactOrder.live = s.live ∧ s.compactOrder.lines = s.lines ∧
    s.compactOrder.made = s.made ∧ s.compactOrder.Sound := by
  unfold compactOrder
  split
  next => exact ⟨rfl, rfl, rfl, sound⟩
  next =>
    have live : ({ s with order := s.live, orderHead := 0 } : LineStore).live = s.live := by
      unfold LineStore.live
      dsimp only
      rw [List.drop_zero, List.filter_filter]
      simp
    have chain (id : String) : ({ s with order := s.live, orderHead := 0 } : LineStore).chain id = s.chain id := by
      unfold LineStore.chain
      rw [live]
      rfl
    refine ⟨live, rfl, rfl, sound.live_nodup, fun l member => sound.lt_made member, Nat.zero_le _, ?_, fun id => ?_, fun id some => ?_⟩
    · rw [live]
      exact sound.count
    · rw [chain]
      exact sound.first id
    · rw [chain]
      exact sound.linked id some

end LineStore

end Braidcast.Overlay
