import Braidcast.Overlay.LeaderboardNotes

/-!
# Taking messages back

A delete walks the chain of its message id while the lines it takes leave that chain; a ban goes
through the list of one chatter.
-/
namespace Braidcast.Overlay

open Lib

namespace Leaderboard

variable {b b' b'' : Leaderboard} {i line n : Nat} {key id : String} {entry : String × Nat} {gone gone' : Nat → Bool}
  {removes : ChatIdentity → Bool} {toLowerCase : String → String} {op : ModerationOp}

/-- Lines stopped counting; tallies stay, and a chatter leaves once nothing of it counts. -/
structure Delisted (b : Leaderboard) (gone : Nat → Bool) (b' : Leaderboard) : Prop where
  live : b'.store.live = b.store.live.filter fun l => !gone l
  identity : ∀ l, b'.store.identity l = b.store.identity l
  chatter : ∀ l, (b'.store.lines l).chatter = (b.store.lines l).chatter
  evicted : ∀ j, (b'.made j).evicted = (b.made j).evicted
  key : ∀ j, (b'.made j).key = (b.made j).key
  balance : ∀ j, (b'.made j).count - (b'.linesOf j).length = (b.made j).count - (b.linesOf j).length
  chatters : ∀ entry, entry ∈ b'.chatters ↔ entry ∈ b.chatters ∧ 0 < (b'.made entry.2).count

theorem Delisted.less (delisted : b.Delisted gone b') (j : Nat) : (b'.made j).count ≤ (b.made j).count := by
  have balance := delisted.balance j
  have fewer : (b'.linesOf j).length ≤ (b.linesOf j).length := by
    rw [linesOf_filter delisted.live delisted.chatter]
    exact List.length_filter_le ..
  omega

theorem Rows.same (rows : b.Rows []) : b.Delisted (fun _ => false) b where
  live := by simp
  identity _ := rfl
  chatter _ := rfl
  evicted _ := rfl
  key _ := rfl
  balance _ := rfl
  chatters entry := ⟨fun member => ⟨member, rows.positive entry member List.not_mem_nil⟩, And.left⟩

theorem Delisted.trans (first : b.Delisted gone b') (second : b'.Delisted gone' b'') :
    b.Delisted (fun l => gone l || gone' l) b'' where
  live := by
    rw [second.live, first.live, List.filter_filter]
    refine List.filter_congr fun l _ => ?_
    rw [Bool.not_or, Bool.and_comm]
  identity l := (second.identity l).trans (first.identity l)
  chatter l := (second.chatter l).trans (first.chatter l)
  evicted j := (second.evicted j).trans (first.evicted j)
  key j := (second.key j).trans (first.key j)
  balance j := (second.balance j).trans (first.balance j)
  chatters entry := by
    rw [second.chatters, first.chatters, and_assoc]
    refine and_congr_right fun _ => ⟨And.right, fun counts => ⟨?_, counts⟩⟩
    exact Int.lt_of_lt_of_le counts (second.less entry.2)

theorem Delisted.congr (delisted : b.Delisted gone b') (same : ∀ l ∈ b.store.live, gone l = gone' l) : b.Delisted gone' b' :=
  { delisted with
    live := delisted.live.trans (List.filter_congr fun l live => by rw [same l live]) }

theorem Delisted.compact (delisted : b.Delisted gone b') (rows : b'.Rows []) (listed : b'.Listed) :
    b.Delisted gone b'.compact ∧ b'.compact.Rows [] ∧ b'.compact.Listed := by
  obtain ⟨live, lines, _, _⟩ := LineStore.compactOrder_keeps rows.store
  obtain ⟨packed, linesOf⟩ := rows.compact
  refine ⟨?_, packed, fun entry member => (listed entry member).trans (linesOf _).symm⟩
  exact { delisted with
    live := live.trans delisted.live
    identity := fun l => (congrArg (fun lines => (lines l).identity) lines).trans (delisted.identity l)
    chatter := fun l => (congrArg (fun lines => (lines l).chatter) lines).trans (delisted.chatter l)
    balance := fun j => by
      rw [linesOf]
      exact delisted.balance j }

theorem TakenBack.rest (taken : b.TakenBack i line b') (j : Nat) : (b'.made j).key = (b.made j).key ∧
    (b'.made j).evicted = (b.made j).evicted ∧ (b'.made j).lines = (b.made j).lines := by
  rw [taken.made]
  split
  next same =>
    rw [same]
    exact ⟨rfl, rfl, rfl⟩
  next => exact ⟨rfl, rfl, rfl⟩

theorem TakenBack.delisted (taken : b.TakenBack i line b') (rows : b.Rows []) (mine : line ∈ b.linesOf i) :
    b.Delisted (fun l => l = line) b' where
  live := by
    rw [taken.store, LineStore.retire_live]
    simp
  identity l := by
    rw [taken.store]
    exact LineStore.retire_identity ..
  chatter l := by
    rw [taken.store]
    exact LineStore.retire_chatter ..
  evicted j := (taken.rest j).2.1
  key j := (taken.rest j).1
  balance j := by
    rw [taken.made, taken.linesOf]
    split
    next same =>
      subst same
      have fewer := rows.filter_length mine
      dsimp only
      omega
    next other => rw [filter_other mine other]
  chatters := taken.chatters

/-- A line out of its chatter's list, still live. -/
theorem Rows.erased (rows : b.Rows []) (i line : Nat) :
    (b.setChatter i fun c => { c with lines := c.lines.erase line }).Rows [] ∧
      ∀ j, ((b.setChatter i fun c => { c with lines := c.lines.erase line }).made j).key = (b.made j).key ∧
        ((b.setChatter i fun c => { c with lines := c.lines.erase line }).made j).count = (b.made j).count ∧
        ((b.setChatter i fun c => { c with lines := c.lines.erase line }).made j).evicted = (b.made j).evicted := by
  let erased := b.setChatter i fun c => { c with lines := c.lines.erase line }
  have rest (j : Nat) : (erased.made j).key = (b.made j).key ∧ (erased.made j).count = (b.made j).count ∧
      (erased.made j).evicted = (b.made j).evicted := by
    change ((b.setChatter i _).made j).key = _ ∧ ((b.setChatter i _).made j).count = _ ∧ ((b.setChatter i _).made j).evicted = _
    rw [setChatter_made]
    split
    next same =>
      rw [same]
      exact ⟨rfl, rfl, rfl⟩
    next => exact ⟨rfl, rfl, rfl⟩
  have kept : erased.Rows [] :=
    rows.congr rows.store rfl (fun _ => rfl) rfl rfl (fun j => (rest j).1) (fun j => (rest j).2.1) fun j => (rest j).2.2
  exact ⟨kept, rest⟩

/-- One turn of the delete: the line leaves its chatter's list and stops counting. -/
theorem Rows.deleted (rows : b.Rows []) (listed : b.Listed) (live : line ∈ b.store.live) :
    let erased := b.setChatter (b.store.lines line).chatter fun c => { c with lines := c.lines.erase line }
    (erased.takeBack (b.store.lines line).chatter line).Rows [] ∧ (erased.takeBack (b.store.lines line).chatter line).Listed ∧
      (erased.takeBack (b.store.lines line).chatter line).store = b.store.retire line ∧
      b.Delisted (fun l => l = line) (erased.takeBack (b.store.lines line).chatter line) := by
  intro erased
  obtain ⟨i, owner⟩ : ∃ i, (b.store.lines line).chatter = i := ⟨_, rfl⟩
  have made (j : Nat) : erased.made j = if j = i then { b.made i with lines := (b.made i).lines.erase line } else b.made j := by
    rw [← owner]
    exact setChatter_made ..
  obtain ⟨kept, rest⟩ : erased.Rows [] ∧ ∀ j, (erased.made j).key = (b.made j).key ∧ (erased.made j).count = (b.made j).count ∧
      (erased.made j).evicted = (b.made j).evicted := rows.erased ..
  have mine : line ∈ erased.linesOf i := mem_linesOf.mpr ⟨live, owner⟩
  rw [owner]
  have taken := kept.takeBack mine
  have delisted := taken.delisted kept mine
  refine ⟨taken.rows, fun entry member => ?_, taken.store, ?_⟩
  · obtain ⟨member', _⟩ := (taken.chatters entry).mp member
    have before : (b.made entry.2).lines = b.linesOf entry.2 := listed entry member'
    rw [taken.linesOf, taken.made]
    change _ = (b.linesOf entry.2).filter fun l => l ≠ line
    by_cases same : entry.2 = i
    · rw [if_pos same, made, if_pos rfl, ← same, before, (rows.linesOf_nodup _).erase_eq_filter]
      exact List.filter_congr fun l _ => by by_cases here : l = line <;> simp [here]
    · rw [if_neg same, made, if_neg same, before]
      exact (filter_other (mem_linesOf.mpr ⟨live, owner⟩) same).symm
  · exact { delisted with
      evicted := fun j => (delisted.evicted j).trans (rest j).2.2
      key := fun j => (delisted.key j).trans (rest j).1
      balance := fun j => (rest j).2.1 ▸ delisted.balance j }

/-- What a line adds to the lines taken from the rest. -/
theorem gone_cons {ls : List Nat} {l : Nat} (removed : Bool) (own : l = line → removes (b.store.identity l) = removed) :
    ((removed && decide (l = line)) || (ls.contains l && removes (b.store.identity l))) =
      ((line :: ls).contains l && removes (b.store.identity l)) := by
  by_cases same : l = line
  · rw [own same]
    cases removed <;> simp [same]
  · simp [same]

/-- `rest` is what is left of the chain behind the lines the loop went past. -/
theorem deleteLoop_keeps (removes : ChatIdentity → Bool) {kept rest : List Nat} (rows : b.Rows []) (listed : b.Listed) (blank : id ≠ "")
    (split : b.store.chain id = kept ++ rest) (enough : rest.length ≤ n) (changed : Bool) :
    (deleteLoop removes n rest.head? (b, changed)).1.Rows [] ∧ (deleteLoop removes n rest.head? (b, changed)).1.Listed ∧
      b.Delisted (fun l => rest.contains l && removes (b.store.identity l)) (deleteLoop removes n rest.head? (b, changed)).1 := by
  induction rest generalizing n b kept changed with
  | nil =>
    have stops : deleteLoop removes n none (b, changed) = (b, changed) := by cases n <;> rfl
    rw [List.head?_nil, stops]
    exact ⟨rows, listed, rows.same.congr fun l _ => by simp⟩
  | cons line rest ih =>
    rw [List.length_cons] at enough
    obtain ⟨n, rfl⟩ : ∃ m, n = m + 1 := ⟨n - 1, by omega⟩
    obtain ⟨live, next, shorter, passed⟩ := rows.store.at_split blank split
    rw [List.head?_cons, deleteLoop, next]
    split
    next removed =>
      obtain ⟨rows', listed', store, first⟩ := rows.deleted listed live
      rw [← store] at shorter
      obtain ⟨rows'', listed'', later⟩ := ih rows' listed' shorter (Nat.le_of_succ_le_succ enough) true
      refine ⟨rows'', listed'', (first.trans later).congr fun l _ => ?_⟩
      rw [first.identity]
      exact gone_cons true fun same => same ▸ removed
    next stays =>
      obtain ⟨rows', listed', later⟩ := ih rows listed passed (Nat.le_of_succ_le_succ enough) changed
      refine ⟨rows', listed', later.congr fun l _ => ?_⟩
      exact gone_cons false fun same => same ▸ eq_false_of_ne_true stays

theorem banLoop_keeps (removes : ChatIdentity → Bool) {ls : List Nat} (rows : b.Rows []) (mine : ∀ l ∈ ls, l ∈ b.linesOf i) (nodup : ls.Nodup) :
    (banLoop removes i b ls).1 = ls.filter (fun l => !removes (b.store.identity l)) ∧ (banLoop removes i b ls).2.Rows [] ∧
      (∀ j, ((banLoop removes i b ls).2.made j).lines = (b.made j).lines) ∧
      b.Delisted (fun l => ls.contains l && removes (b.store.identity l)) (banLoop removes i b ls).2 := by
  induction ls generalizing b with
  | nil => exact ⟨rfl, rows, fun _ => rfl, rows.same.congr fun l _ => by simp⟩
  | cons line ls ih =>
    obtain ⟨apart, rest⟩ := List.nodup_cons.mp nodup
    rw [banLoop]
    split
    next removed =>
      have taken := rows.takeBack (mine line List.mem_cons_self)
      have first := taken.delisted rows (mine line List.mem_cons_self)
      have left (l) (member : l ∈ ls) : l ∈ (b.takeBack i line).linesOf i := by
        rw [taken.linesOf]
        refine List.mem_filter.mpr ⟨mine l (List.mem_cons_of_mem _ member), decide_eq_true ?_⟩
        rintro rfl
        exact apart member
      obtain ⟨kept, rows', lines, later⟩ := ih taken.rows left rest
      refine ⟨?_, rows', fun j => (lines j).trans (taken.rest j).2.2, (first.trans later).congr fun l _ => ?_⟩
      · rw [kept, List.filter_cons_of_neg (by simp [removed])]
        exact List.filter_congr fun l _ => by rw [first.identity]
      · rw [first.identity]
        exact gone_cons true fun same => same ▸ removed
    next stays =>
      obtain ⟨kept, rows', lines, later⟩ := ih rows (fun l member => mine l (List.mem_cons_of_mem _ member)) rest
      refine ⟨?_, rows', lines, later.congr fun l _ => ?_⟩
      · dsimp only
        rw [kept, List.filter_cons_of_pos (by simpa using stays)]
      · exact gone_cons false fun same => same ▸ eq_false_of_ne_true stays

theorem removes_message {m : ChatIdentity} (message : op.action = .message) (named : op.removes m = true) :
    op.msgId = some m.id ∧ m.id ≠ "" := by
  simp only [ModerationOp.removes, message, Bool.and_eq_true, Option.any_eq_true_iff_get] at named
  obtain ⟨_, there, some, named⟩ := named
  have same : m.id = op.msgId.get there := of_decide_eq_true named
  refine ⟨?_, ?_⟩
  · rw [same, Option.some_get]
  · rw [same]
    exact of_decide_eq_true some

/-- A delete without an id finds no line, one with an id finds the newest line of its chain. -/
theorem Rows.newest (rows : b.Rows []) (msgId : Option String) :
    (msgId.bind b.store.linesById = none ∧ ∀ id, msgId = some id → id = "") ∨
      ∃ id, msgId = some id ∧ id ≠ "" ∧ msgId.bind b.store.linesById = (b.store.chain id).head? := by
  cases msgId with
  | none => exact .inl ⟨rfl, fun _ some => nomatch some⟩
  | some id =>
    have first := rows.store.first id
    by_cases blank : id = ""
    · rw [if_pos blank] at first
      exact .inl ⟨first, fun _ same => (Option.some.inj same).symm.trans blank⟩
    · rw [if_neg blank] at first
      exact .inr ⟨id, rfl, blank, first⟩

/-- The loop of a delete takes off exactly the lines it names. -/
theorem Rows.deleteLoop_message (rows : b.Rows []) (listed : b.Listed) (message : op.action = .message) :
    let r := deleteLoop op.removes b.store.order.length (op.msgId.bind b.store.linesById) (b, false)
    r.1.Rows [] ∧ r.1.Listed ∧ b.Delisted (fun l => op.removes (b.store.identity l)) r.1 := by
  intro r
  rcases rows.newest op.msgId with ⟨none, unnamed⟩ | ⟨id, msgId, blank, first⟩
  · have stops : r = (b, false) := by
      change deleteLoop op.removes b.store.order.length (op.msgId.bind b.store.linesById) (b, false) = _
      rw [none]
      cases b.store.order.length <;> rfl
    rw [stops]
    refine ⟨rows, listed, rows.same.congr fun l _ => (eq_false_of_ne_true fun named => ?_).symm⟩
    obtain ⟨same, some⟩ := removes_message message named
    exact some (unnamed _ same)
  · have walks : r = deleteLoop op.removes b.store.order.length (b.store.chain id).head? (b, false) := by
      change deleteLoop op.removes b.store.order.length (op.msgId.bind b.store.linesById) (b, false) = _
      rw [first]
    have whole : b.store.chain id = [] ++ b.store.chain id := rfl
    obtain ⟨rows', listed', delisted⟩ := deleteLoop_keeps op.removes rows listed blank whole (b.store.chain_length id) false
    rw [walks]
    refine ⟨rows', listed', delisted.congr fun l live => ?_⟩
    cases named : op.removes (b.store.identity l) with
    | false => rw [Bool.and_false]
    | true =>
      have same := (removes_message message named).1
      rw [msgId] at same
      have chained : l ∈ b.store.chain id := LineStore.mem_chain.mpr ⟨live, (Option.some.inj same).symm⟩
      rw [Bool.and_true, List.contains_iff_mem]
      exact chained

/-- A delete takes off exactly the lines it names. -/
theorem Rows.uncount_message (rows : b.Rows []) (listed : b.Listed) (message : op.action = .message) :
    (b.uncount toLowerCase op).Rows [] ∧ (b.uncount toLowerCase op).Listed ∧
      b.Delisted (fun l => op.removes (b.store.identity l)) (b.uncount toLowerCase op) := by
  let r := deleteLoop op.removes b.store.order.length (op.msgId.bind b.store.linesById) (b, false)
  have unfolds : b.uncount toLowerCase op = if r.2 then r.1.compact else r.1 := by
    unfold uncount
    rw [message]
  have loop : r.1.Rows [] ∧ r.1.Listed ∧ b.Delisted (fun l => op.removes (b.store.identity l)) r.1 :=
    rows.deleteLoop_message listed message
  rw [unfolds]
  split
  next =>
    obtain ⟨delisted, packed, listed'⟩ := loop.2.2.compact loop.1 loop.2.1
    exact ⟨packed, listed', delisted⟩
  next => exact loop

/-- What a ban leaves of the chatter it finds; the others are not touched. -/
structure Banned (b : Leaderboard) (i : Nat) (op : ModerationOp) (b' : Leaderboard) : Prop where
  live : b'.store.live = b.store.live.filter fun l => !(decide ((b.store.lines l).chatter = i) && op.removes (b.store.identity l))
  identity : ∀ l, b'.store.identity l = b.store.identity l
  chatter : ∀ l, (b'.store.lines l).chatter = (b.store.lines l).chatter
  evicted : ∀ j, (b'.made j).evicted =
    if j = i then (b.made i).evicted.filter fun entry => !op.removes entry.2.identity else (b.made j).evicted
  count : ∀ entry ∈ b.chatters, (b'.made entry.2).count = (b'.linesOf entry.2).length + (b'.made entry.2).tallied
  chatters : ∀ entry, entry ∈ b'.chatters ↔ entry ∈ b.chatters ∧ 0 < (b'.made entry.2).count

/-- A compacted order takes nothing from what a ban has done. -/
theorem Banned.compact {b' : Leaderboard} (banned : b.Banned i op b') (rows : b'.Rows []) (listed : b'.Listed) :
    b'.compact.Rows [] ∧ b'.compact.Listed ∧ b.Banned i op b'.compact := by
  obtain ⟨live, lines, _, _⟩ := LineStore.compactOrder_keeps rows.store
  obtain ⟨packed, linesOf⟩ := rows.compact
  refine ⟨packed, fun entry held => (listed entry held).trans (linesOf _).symm, ?_⟩
  exact { banned with
    live := live.trans banned.live
    identity := fun l => (congrArg (fun lines => (lines l).identity) lines).trans (banned.identity l)
    chatter := fun l => (congrArg (fun lines => (lines l).chatter) lines).trans (banned.chatter l)
    count := fun entry held => by
      rw [linesOf]
      exact banned.count entry held }

/-- The tallies a ban names leave the count. -/
theorem tallied_filter (p : String × Tally → Bool) (evicted : List (String × Tally)) :
    ((evicted.filter p).map fun entry => entry.2.count).sum + ((evicted.filter fun entry => !p entry).map fun entry => entry.2.count).sum =
      (evicted.map fun entry => entry.2.count).sum := by
  rw [← List.sum_append, ← List.map_append]
  exact ((List.filter_append_perm p evicted).map _).sum_nat

/-- The row an op is for. -/
def opKey (toLowerCase : String → String) (op : ModerationOp) : String :=
  keyFor (platformOf toLowerCase op.platform) (groupId op.authorId) ""

/-- A clear of the whole chat leaves the standings alone. -/
theorem uncount_all (all : op.action = .all) : b.uncount toLowerCase op = b := by
  unfold uncount
  rw [all]

theorem uncount_none (user : op.action = .user) (absent : b.find (opKey toLowerCase op) = none) : b.uncount toLowerCase op = b := by
  unfold opKey at absent
  unfold uncount
  rw [user]
  dsimp only
  rw [absent]

/-- The tallies named leave the chatter with their counts. -/
theorem Rows.untallied (rows : b.Rows []) (kept : List Nat) (p : String × Tally → Bool) :
    (b.setChatter i fun c =>
      { c with
        lines := kept
        evicted := c.evicted.filter fun entry => !p entry
        count := c.count - ((((b.made i).evicted.filter p).map fun entry => entry.2.count).sum : Nat) }).Rows [i] := by
  let f (c : Chatter) : Chatter :=
    { c with
      lines := kept
      evicted := c.evicted.filter fun entry => !p entry
      count := c.count - ((((b.made i).evicted.filter p).map fun entry => entry.2.count).sum : Nat) }
  change (b.setChatter i f).Rows [i]
  have made (j : Nat) : (b.setChatter i f).made j = if j = i then f (b.made i) else b.made j := setChatter_made ..
  refine ⟨rows.store, rows.keys, rows.ids, rows.old, fun entry member => ?_, fun entry member => ?_, fun entry member => ?_,
    fun entry member late => ?_, rows.owned⟩
  · have before := rows.key entry member
    rw [made]
    split
    next same =>
      rw [same] at before
      exact before
    next => exact before
  · have before := rows.fair entry member
    rw [made]
    split
    next same =>
      rw [same] at before
      exact fun tally kept => before tally (List.mem_filter.mp kept).1
    next => exact before
  · have before := rows.count entry member
    rw [made]
    change _ = ((b.linesOf entry.2).length : Int) + _
    split
    next same =>
      rw [same] at before ⊢
      have parts := tallied_filter p (b.made i).evicted
      change (b.made i).count - ((((b.made i).evicted.filter p).map fun entry => entry.2.count).sum : Nat) =
        ((b.linesOf i).length : Int) + ((((b.made i).evicted.filter fun entry => !p entry).map fun entry => entry.2.count).sum : Nat)
      unfold Chatter.tallied at before
      omega
    next => exact before
  · have other : entry.2 ≠ i := fun same => late (List.mem_singleton.mpr same)
    rw [made, if_neg other]
    exact rows.positive entry member List.not_mem_nil

theorem Rows.uncount_user (rows : b.Rows []) (listed : b.Listed) (user : op.action = .user)
    (found : b.find (opKey toLowerCase op) = some i) :
    (b.uncount toLowerCase op).Rows [] ∧ (b.uncount toLowerCase op).Listed ∧ b.Banned i op (b.uncount toLowerCase op) := by
  have member := rows.find_eq.mp found
  have whole : (b.made i).lines = b.linesOf i := listed _ member
  let named := (b.made i).evicted.filter fun entry => op.removes entry.2.identity
  let r := b.banLoop op.removes i (b.made i).lines
  let f (c : Chatter) : Chatter :=
    { c with
      lines := r.1
      evicted := c.evicted.filter fun entry => !op.removes entry.2.identity
      count := c.count - ((named.map fun entry => entry.2.count).sum : Nat) }
  let b₂ := r.2.setChatter i f
  let b₃ := if (b₂.made i).count ≤ 0 then b₂.forget (b₂.made i).key else b₂
  have unfolds : b.uncount toLowerCase op =
      if (b.made i).lines.any (fun line => op.removes (b.store.identity line)) || !named.isEmpty then b₃.compact else b₃ := by
    unfold opKey at found
    unfold uncount
    rw [user]
    dsimp only
    rw [found]
  obtain ⟨kept, rows₁, lines, delisted⟩ : r.1 = (b.linesOf i).filter (fun l => !op.removes (b.store.identity l)) ∧ r.2.Rows [] ∧
      (∀ j, (r.2.made j).lines = (b.made j).lines) ∧
      b.Delisted (fun l => (b.linesOf i).contains l && op.removes (b.store.identity l)) r.2 := by
    have walked := banLoop_keeps op.removes rows (fun l mine => mine) (rows.linesOf_nodup i)
    rw [← whole] at walked ⊢
    exact walked
  have made (j : Nat) : b₂.made j = if j = i then f (r.2.made i) else r.2.made j := setChatter_made ..
  have rows₂ : b₂.Rows [i] := by
    have untallied := rows₁.untallied (i := i) r.1 fun entry => op.removes entry.2.identity
    rw [delisted.evicted] at untallied
    exact untallied
  have own (e) (held : e ∈ b₂.chatters) (keyed : e.1 = (b₂.made i).key) : e.2 = i := by
    rw [made, if_pos rfl] at keyed
    have before : e ∈ b.chatters := ((delisted.chatters e).mp held).1
    rw [rows.key_inj before member (keyed.trans ((delisted.key i).trans (rows.key _ member)))]
  obtain ⟨rows₃, chatters⟩ := rows₂.leave own
  have unmoved : b₃.made = b₂.made ∧ b₃.store = r.2.store := by
    change (if (b₂.made i).count ≤ 0 then b₂.forget (b₂.made i).key else b₂).made = b₂.made ∧
      (if (b₂.made i).count ≤ 0 then b₂.forget (b₂.made i).key else b₂).store = r.2.store
    split <;> exact ⟨rfl, rfl⟩
  have less (j : Nat) : (b₂.made j).count ≤ (r.2.made j).count := by
    rw [made]
    split
    next same =>
      rw [same]
      exact Int.sub_le_self _ (Int.natCast_nonneg _)
    next => exact Int.le_refl _
  have live : b₃.store.live =
      b.store.live.filter fun l => !(decide ((b.store.lines l).chatter = i) && op.removes (b.store.identity l)) := by
    rw [unmoved.2, delisted.live]
    refine List.filter_congr fun l held => ?_
    have mine : (b.linesOf i).contains l = decide ((b.store.lines l).chatter = i) := by
      simp [mem_linesOf, held]
    rw [mine]
  have banned : b.Banned i op b₃ := by
    refine ⟨live, fun l => ?_, fun l => ?_, fun j => ?_, fun entry held => ?_, fun entry => ?_⟩
    · rw [unmoved.2]
      exact delisted.identity l
    · rw [unmoved.2]
      exact delisted.chatter l
    · rw [unmoved.1, made]
      split
      next => exact congrArg _ (delisted.evicted i)
      next => exact delisted.evicted j
    · have before := rows.count entry held
      have balance := delisted.balance entry.2
      have evicted := delisted.evicted entry.2
      have same : b₃.linesOf entry.2 = r.2.linesOf entry.2 := by
        unfold linesOf
        rw [unmoved.2]
      rw [same, unmoved.1, made]
      split
      next own =>
        rw [own] at before balance evicted ⊢
        have parts := tallied_filter (fun entry => op.removes entry.2.identity) (b.made i).evicted
        change (r.2.made i).count - ((((b.made i).evicted.filter fun entry => op.removes entry.2.identity).map
            fun entry => entry.2.count).sum : Nat) = ((r.2.linesOf i).length : Int) +
          ((((r.2.made i).evicted.filter fun entry => !op.removes entry.2.identity).map fun entry => entry.2.count).sum : Nat)
        unfold Chatter.tallied at before
        rw [evicted]
        omega
      next =>
        unfold Chatter.tallied at before ⊢
        rw [evicted]
        omega
    · rw [unmoved.1, chatters]
      refine and_congr_left fun counts => ⟨fun held => ((delisted.chatters entry).mp held).1, fun held => ?_⟩
      exact (delisted.chatters entry).mpr ⟨held, Int.lt_of_lt_of_le counts (less entry.2)⟩
  have listed₃ : b₃.Listed := by
    intro entry held
    have before : entry ∈ b.chatters := ((banned.chatters entry).mp held).1
    have left := linesOf_filter live banned.chatter entry.2
    rw [left, unmoved.1, made]
    split
    next same =>
      change r.1 = _
      rw [kept, same]
      exact List.filter_congr fun l mine => by simp [(mem_linesOf.mp mine).2]
    next other =>
      rw [lines, listed entry before]
      symm
      refine List.filter_eq_self.mpr fun l mine => ?_
      simp [(mem_linesOf.mp mine).2, other]
  rw [unfolds]
  split
  next => exact banned.compact rows₃ listed₃
  next => exact ⟨rows₃, listed₃, banned⟩

end Leaderboard

end Braidcast.Overlay
