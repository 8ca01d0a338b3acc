import Braidcast.Overlay.LeaderboardRows

/-!
# Counting a message

A message makes a line and perhaps a chatter. Past the caps the oldest lines go into their chatters'
tallies, and the chatters with the fewest messages go with their lines.
-/
namespace Braidcast.Overlay

open Lib

namespace Leaderboard

variable {b b' : Leaderboard} {i line : Nat} {key platform name : String} {entry : String × Nat} {spare : List Nat}
  {identity : ChatIdentity} {c : Chatter} {evictedFrom : Nat → Nat} {rest : List Nat}

theorem fold_rest (identity : ChatIdentity) (c : Chatter) :
    (fold identity c).key = c.key ∧ (fold identity c).count = c.count ∧ (fold identity c).lines = c.lines := by
  unfold fold
  dsimp only
  split <;> exact ⟨rfl, rfl, rfl⟩

theorem fold_tallied (identity : ChatIdentity) (c : Chatter) : (fold identity c).tallied = c.tallied + 1 := by
  unfold fold Chatter.tallied
  dsimp only
  split
  next there => exact sum_modifyFirst (fun _ => rfl) there
  next =>
    rw [List.map_append, List.sum_append]
    simp

theorem fold_fair (identity : ChatIdentity) (fair : c.Fair) : (fold identity c).Fair := by
  unfold fold
  dsimp only
  split
  next =>
    intro entry member
    rcases mem_modifyFirst member with old | ⟨before, old, _, rfl⟩
    · exact fair entry old
    · dsimp only
      rw [fair before old, List.length_append, List.length_singleton]
  next =>
    intro entry member
    rcases List.mem_append.mp member with old | new
    · exact fair entry old
    · rcases List.mem_singleton.mp new with rfl
      rfl

/-- The message's chatter is on the board, perhaps with nothing yet. -/
theorem Rows.chatterOf (rows : b.Rows []) (listed : b.Listed) :
    (b.chatterOf key platform name).1.Rows [(b.chatterOf key platform name).2] ∧
      (b.chatterOf key platform name).1.Listed ∧
      ∃ entry ∈ (b.chatterOf key platform name).1.chatters, entry.2 = (b.chatterOf key platform name).2 := by
  unfold Leaderboard.chatterOf
  cases found : b.find key with
  | some i =>
    exact ⟨{ rows with positive := fun entry member _ => rows.positive entry member List.not_mem_nil }, listed, _,
      rows.find_eq.mp found, rfl⟩
  | none =>
    dsimp only
    let b' : Leaderboard :=
      { b with
        made := Function.update b.made b.seq ⟨key, platform, name, 0, b.seq, [], []⟩
        chatters := b.chatters ++ [(key, b.seq)]
        seq := b.seq + 1 }
    have old (entry) (member : entry ∈ b.chatters) : b'.made entry.2 = b.made entry.2 :=
      Function.update_of_ne (Nat.ne_of_lt (rows.old entry member)) ..
    have new : b'.made b.seq = ⟨key, platform, name, 0, b.seq, [], []⟩ := Function.update_self ..
    have bare : b'.linesOf b.seq = [] := by
      refine List.filter_eq_nil_iff.mpr fun l live owner => ?_
      obtain ⟨entry, member, same⟩ := rows.owned l live
      have late := rows.old entry member
      rw [same, of_decide_eq_true owner] at late
      exact Nat.lt_irrefl _ late
    have cases (entry) (member : entry ∈ b'.chatters) : entry ∈ b.chatters ∨ entry = (key, b.seq) :=
      (List.mem_append.mp member).imp_right List.mem_singleton.mp
    refine ⟨⟨rows.store, ?_, ?_, fun entry member => ?_, fun entry member => ?_, fun entry member => ?_, fun entry member => ?_,
      fun entry member late => ?_, fun l live => ?_⟩, fun entry member => ?_, (key, b.seq), by simp, rfl⟩
    · refine nodup_map_concat rows.keys fun member => ?_
      obtain ⟨entry, member, same⟩ := List.mem_map.mp member
      exact find_eq_none.mp found entry member same
    · refine nodup_map_concat rows.ids fun member => ?_
      obtain ⟨entry, member, same⟩ := List.mem_map.mp member
      exact Nat.ne_of_lt (rows.old entry member) same
    · rcases cases entry member with before | rfl
      · exact Nat.lt_succ_of_lt (rows.old entry before)
      · exact Nat.lt_succ_self _
    · rcases cases entry member with before | rfl
      · exact (congrArg Chatter.key (old entry before)).trans (rows.key entry before)
      · exact congrArg Chatter.key new
    · rcases cases entry member with before | rfl
      · exact (old entry before).symm ▸ rows.fair entry before
      · intro entry member
        rw [new] at member
        cases member
    · rcases cases entry member with before | rfl
      · change (b'.made entry.2).count = (b.linesOf entry.2).length + ((b'.made entry.2).tallied : Int)
        rw [old entry before]
        exact rows.count entry before
      · change (b'.made b.seq).count = (b'.linesOf b.seq).length + ((b'.made b.seq).tallied : Int)
        rw [new, bare]
        rfl
    · rcases cases entry member with before | rfl
      · exact (congrArg Chatter.count (old entry before)).symm ▸ rows.positive entry before List.not_mem_nil
      · exact absurd (List.mem_singleton.mpr rfl) late
    · obtain ⟨entry, member, same⟩ := rows.owned l live
      exact ⟨entry, List.mem_append_left _ member, same⟩
    · rcases cases entry member with before | rfl
      · exact (congrArg Chatter.lines (old entry before)).trans (listed entry before)
      · exact (congrArg Chatter.lines new).trans bare.symm

/-- The part of `note` that counts the message for its chatter. -/
def counted (b : Leaderboard) (i : Nat) (name : String) (identity : ChatIdentity) : Leaderboard :=
  let b := b.setChatter i fun c => { c with name := name, count := c.count + 1, lines := c.lines ++ [b.store.made] }
  { b with store := b.store.add identity i }

theorem counted_linesOf (rows : b.Rows spare) (i : Nat) (name : String) (identity : ChatIdentity) (j : Nat) :
    (b.counted i name identity).linesOf j = if j = i then b.linesOf j ++ [b.store.made] else b.linesOf j := by
  change (b.store.add identity i).live.filter _ = _
  rw [LineStore.add_live rows.store, List.filter_append]
  have same : b.store.live.filter (fun l => decide (((b.store.add identity i).lines l).chatter = j)) = b.linesOf j :=
    List.filter_congr fun l member => by rw [LineStore.add_chatter_of_ne (Nat.ne_of_lt (rows.store.lt_made member))]
  change b.store.live.filter (fun l => decide (((b.store.add identity i).lines l).chatter = j)) ++
    [b.store.made].filter (fun l => decide (((b.store.add identity i).lines l).chatter = j)) = _
  rw [same]
  by_cases own : j = i
  · subst own
    simp
  · simp [own, Ne.symm own]

theorem Rows.counted (rows : b.Rows [i]) (listed : b.Listed) (there : ∃ entry ∈ b.chatters, entry.2 = i) (name : String)
    (identity : ChatIdentity) :
    (b.counted i name identity).Rows [] ∧ (b.counted i name identity).Listed := by
  have made (j : Nat) : (b.counted i name identity).made j = if j = i then { b.made i with
      name := name, count := (b.made i).count + 1, lines := (b.made i).lines ++ [b.store.made] } else b.made j :=
    setChatter_made b i (fun c => { c with name := name, count := c.count + 1, lines := c.lines ++ [b.store.made] }) j
  have lines := counted_linesOf rows i name identity
  have count (entry) (member : entry ∈ b.chatters) : ((b.counted i name identity).made entry.2).count =
      ((b.counted i name identity).linesOf entry.2).length + ((b.counted i name identity).made entry.2).tallied := by
    have before := rows.count entry member
    rw [made, lines]
    by_cases own : entry.2 = i
    · rw [own] at before
      rw [if_pos own, if_pos own, own, List.length_append, List.length_singleton]
      change (b.made i).count + 1 = (((b.linesOf i).length + 1 : Nat) : Int) + ((b.made i).tallied : Int)
      omega
    · rw [if_neg own, if_neg own]
      exact before
  refine ⟨⟨LineStore.add_sound rows.store, rows.keys, rows.ids, rows.old, fun entry member => ?_, fun entry member => ?_, count,
    fun entry member _ => ?_, fun l live => ?_⟩, fun entry member => ?_⟩
  · have before := rows.key entry member
    rw [made]
    split
    next own => rw [← before, own]
    next => exact before
  · have before := rows.fair entry member
    rw [made]
    split
    next own => exact (own ▸ before : (b.made i).Fair)
    next => exact before
  · by_cases own : entry.2 = i
    · rw [count entry member, lines, if_pos own, List.length_append, List.length_singleton]
      omega
    · rw [made, if_neg own]
      exact rows.positive entry member fun same => own (List.mem_singleton.mp same)
  · change l ∈ (b.store.add identity i).live at live
    rw [LineStore.add_live rows.store] at live
    rcases List.mem_append.mp live with before | new
    · obtain ⟨entry, member, same⟩ := rows.owned l before
      refine ⟨entry, member, same.trans ?_⟩
      exact (LineStore.add_chatter_of_ne (Nat.ne_of_lt (rows.store.lt_made before))).symm
    · rcases List.mem_singleton.mp new with rfl
      obtain ⟨entry, member, same⟩ := there
      exact ⟨entry, member, same.trans LineStore.add_chatter_new.symm⟩
  · rw [made, lines]
    split
    next own => rw [← listed entry member, own]
    next => exact listed entry member

/-- Between two turns of the eviction each chatter's list still begins with what it lost. -/
def Behind (b : Leaderboard) (evictedFrom : Nat → Nat) : Prop :=
  ∀ entry ∈ b.chatters, (b.made entry.2).lines.drop (evictedFrom entry.2) = b.linesOf entry.2

/-- The oldest live line goes into its chatter's tally. -/
def evicted (b : Leaderboard) (line : Nat) : Leaderboard :=
  { b with store := ({ b.store with orderHead := b.store.orderHead + 1 } : LineStore).retire line }.setChatter
    (b.store.lines line).chatter (fold ((({ b.store with orderHead := b.store.orderHead + 1 } : LineStore).retire line).identity line))

theorem evictLoop_cons (b : Leaderboard) (evictedFrom : Nat → Nat) (line : Nat) (rest : List Nat) :
    b.evictLoop evictedFrom (line :: rest) =
      if MAX_LINES < b.store.liveLines then
        if (b.store.lines line).gone then
          ({ b with store := { b.store with orderHead := b.store.orderHead + 1 } } : Leaderboard).evictLoop evictedFrom rest
        else
          (b.evicted line).evictLoop
            (Function.update evictedFrom (b.store.lines line).chatter (evictedFrom (b.store.lines line).chatter + 1)) rest
      else (b, evictedFrom) := rfl

theorem Rows.evicted (rows : b.Rows []) (behind : b.Behind evictedFrom) (there : b.store.order.drop b.store.orderHead = line :: rest)
    (live : (b.store.lines line).gone = false) :
    (b.evicted line).Rows [] ∧ (b.evicted line).store.order.drop (b.evicted line).store.orderHead = rest ∧
      (b.evicted line).Behind
        (Function.update evictedFrom (b.store.lines line).chatter (evictedFrom (b.store.lines line).chatter + 1)) := by
  obtain ⟨i, owner⟩ : ∃ i, (b.store.lines line).chatter = i := ⟨_, rfl⟩
  have oldest : b.store.live = line :: rest.filter fun l => !(b.store.lines l).gone := by
    unfold LineStore.live
    rw [there, List.filter_cons_of_pos (by simp [live])]
  have member : line ∈ b.store.live := oldest ▸ List.mem_cons_self
  have mine : line ∈ b.linesOf i := mem_linesOf.mpr ⟨member, owner⟩
  have store : (b.evicted line).store = { b.store.retire line with orderHead := (b.store.retire line).orderHead + 1 } := by
    refine (LineStore.retire_from ..).trans ?_
    rw [LineStore.retire_orderHead]
  have ahead : (b.store.retire line).order.drop (b.store.retire line).orderHead = line :: rest := by
    rw [LineStore.retire_order, LineStore.retire_orderHead, there]
  have gone : ((b.store.retire line).lines line).gone = true := by simp [LineStore.retire_gone]
  have sound : (b.evicted line).store.Sound := by
    rw [store]
    exact LineStore.pass_sound (LineStore.retire_sound rows.store member) ahead gone
  have left : (b.evicted line).store.live = b.store.live.filter fun l => l ≠ line := by
    rw [store, LineStore.pass_live ahead gone, LineStore.retire_live]
  have chatter (l : Nat) : ((b.evicted line).store.lines l).chatter = (b.store.lines l).chatter := by
    rw [store]
    exact LineStore.retire_chatter ..
  obtain ⟨identity, made⟩ : ∃ identity, ∀ j, (b.evicted line).made j = if j = i then fold identity (b.made i) else b.made j :=
    ⟨_, fun j => by
      rw [← owner]
      exact setChatter_made ..⟩
  have here : (b.evicted line).made i = fold identity (b.made i) := (made i).trans (if_pos rfl)
  obtain ⟨key, count, lines⟩ := fold_rest identity (b.made i)
  have lost : (b.evicted line).Rows [i] := by
    refine rows.lose mine sound left chatter rfl rfl (fun j other => (made j).trans (if_neg other)) ?_ ?_ ?_
    · rw [here, key]
    · rw [here]
      exact fold_fair identity
    · rw [here, count, fold_tallied]
      omega
  have linesOf := linesOf_filter left chatter
  have first : b.linesOf i = line :: (b.linesOf i).tail := by
    unfold Leaderboard.linesOf
    rw [oldest, List.filter_cons_of_pos (by simp [owner]), List.tail_cons]
  have rest' : (b.evicted line).linesOf i = (b.linesOf i).tail := by
    have nodup := rows.linesOf_nodup i
    rw [linesOf, first] at *
    exact @LineStore.filter_split line [] _ nodup
  refine ⟨{ lost with positive := fun entry listed _ => ?_ }, ?_, fun entry listed => ?_⟩
  · rw [made]
    split
    next same =>
      rw [count, ← same]
      exact rows.positive entry listed List.not_mem_nil
    next => exact rows.positive entry listed List.not_mem_nil
  · rw [store]
    dsimp only
    rw [← List.drop_drop, ahead, List.drop_one, List.tail_cons]
  · have before := behind entry listed
    rw [owner]
    by_cases same : entry.2 = i
    · rw [same] at before ⊢
      rw [here, lines, Function.update_self, rest', ← before, List.tail_drop]
    · rw [made, if_neg same, Function.update_of_ne same, linesOf, before]
      exact (filter_other mine same).symm

theorem evictLoop_keeps (rows : b.Rows []) (behind : b.Behind evictedFrom)
    (there : b.store.order.drop b.store.orderHead = rest) :
    (b.evictLoop evictedFrom rest).1.Rows [] ∧ (b.evictLoop evictedFrom rest).1.Behind (b.evictLoop evictedFrom rest).2 := by
  induction rest generalizing b evictedFrom with
  | nil => exact ⟨rows, behind⟩
  | cons line rest ih =>
    rw [evictLoop_cons]
    split
    next =>
      split
      next gone =>
        let passed : Leaderboard := { b with store := { b.store with orderHead := b.store.orderHead + 1 } }
        have live : passed.store.live = b.store.live := LineStore.pass_live there gone
        have kept : passed.Rows [] := rows.congr (LineStore.pass_sound rows.store there gone) live (fun _ => rfl) rfl rfl
          (fun _ => rfl) (fun _ => rfl) fun _ => rfl
        have linesOf (j : Nat) : passed.linesOf j = b.linesOf j := linesOf_congr live (fun _ => rfl) j
        refine ih kept (fun entry listed => (behind entry listed).trans (linesOf _).symm) ?_
        change b.store.order.drop (b.store.orderHead + 1) = rest
        rw [← List.drop_drop, there, List.drop_one, List.tail_cons]
      next live =>
        obtain ⟨rows', ahead, behind'⟩ := rows.evicted behind there (by simpa using live)
        exact ih rows' behind' ahead
    next => exact ⟨rows, behind⟩

theorem Rows.compact (rows : b.Rows spare) : b.compact.Rows spare ∧ ∀ j, b.compact.linesOf j = b.linesOf j := by
  obtain ⟨live, lines, _, sound⟩ := LineStore.compactOrder_keeps rows.store
  have chatter (l : Nat) : (b.compact.store.lines l).chatter = (b.store.lines l).chatter :=
    congrArg (fun lines => (lines l).chatter) lines
  exact ⟨rows.congr sound live chatter rfl rfl (fun _ => rfl) (fun _ => rfl) fun _ => rfl, linesOf_congr live chatter⟩

theorem Rows.evictOldest (rows : b.Rows []) (listed : b.Listed) : b.evictOldest.Rows [] ∧ b.evictOldest.Listed := by
  have first : b.Behind fun _ => 0 := listed
  obtain ⟨rows', behind⟩ := evictLoop_keeps rows first rfl
  let r := b.evictLoop (fun _ => 0) (b.store.order.drop b.store.orderHead)
  let b₁ : Leaderboard := { r.1 with made := fun i => { r.1.made i with lines := (r.1.made i).lines.drop (r.2 i) } }
  have cut : b₁.Rows [] := rows'.congr rows'.store rfl (fun _ => rfl) rfl rfl (fun _ => rfl) (fun _ => rfl) fun _ => rfl
  obtain ⟨packed, linesOf⟩ := cut.compact
  exact ⟨packed, fun entry member => (behind entry member).trans (linesOf _).symm⟩

/-- A chatter leaves with all its lines. -/
theorem Rows.drop (rows : b.Rows []) (listed : b.Listed) (there : entry ∈ b.chatters) :
    (b.drop entry).Rows [] ∧ (b.drop entry).Listed ∧ ∀ e, e ∈ (b.drop entry).chatters ↔ e ∈ b.chatters ∧ e.1 ≠ entry.1 := by
  have all := LineStore.retire_all rows.store (rows.linesOf_nodup entry.2) fun l mine => (mem_linesOf.mp mine).1
  rw [← listed entry there] at all
  obtain ⟨sound, live, chatter, _⟩ := all
  let b₁ : Leaderboard := { b with store := (b.made entry.2).lines.foldl LineStore.retire b.store }
  have left (j : Nat) : b₁.linesOf j = (b.linesOf j).filter fun l => l ∉ (b.made entry.2).lines := linesOf_filter live chatter j
  have bare : b₁.linesOf entry.2 = [] := by
    rw [left, List.filter_eq_nil_iff, listed entry there]
    simp
  have apart (e) (member : e ∈ b.chatters) (other : e.1 ≠ entry.1) : b₁.linesOf e.2 = b.linesOf e.2 := by
    rw [left, List.filter_eq_self, listed entry there]
    refine fun l mine => decide_eq_true fun theirs => other ?_
    rw [rows.entry_eq member there ((mem_linesOf.mp mine).2.symm.trans (mem_linesOf.mp theirs).2)]
  have mem (e : String × Nat) : e ∈ (b.drop entry).chatters ↔ e ∈ b.chatters ∧ e.1 ≠ entry.1 := rows.mem_forget
  refine ⟨⟨sound, rows.keys.sublist (List.Sublist.map _ List.eraseP_sublist), rows.ids.sublist (List.Sublist.map _ List.eraseP_sublist),
    fun e member => rows.old e ((mem e).mp member).1, fun e member => rows.key e ((mem e).mp member).1,
    fun e member => rows.fair e ((mem e).mp member).1, fun e member => ?_,
    fun e member => rows.positive e ((mem e).mp member).1, fun l held => ?_⟩, fun e member => ?_, mem⟩
  · obtain ⟨member, other⟩ := (mem e).mp member
    exact (rows.count e member).trans (congrArg (fun ls => (ls.length : Int) + _) (apart e member other).symm)
  · have before : l ∈ b.store.live := (List.mem_filter.mp (live ▸ held : l ∈ b.store.live.filter _)).1
    obtain ⟨e, member, same⟩ := rows.owned l before
    refine ⟨e, (mem e).mpr ⟨member, fun keyed => ?_⟩, same.trans (chatter l).symm⟩
    have mine : l ∈ b₁.linesOf entry.2 := mem_linesOf.mpr ⟨held, (chatter l).trans (rows.key_inj member there keyed ▸ same.symm)⟩
    rw [bare] at mine
    cases mine
  · obtain ⟨member, other⟩ := (mem e).mp member
    exact (listed e member).trans (apart e member other).symm

theorem Rows.drop_all {entries : List (String × Nat)} (rows : b.Rows []) (listed : b.Listed) (there : ∀ e ∈ entries, e ∈ b.chatters)
    (apart : (entries.map Prod.fst).Nodup) : (entries.foldl Leaderboard.drop b).Rows [] ∧ (entries.foldl Leaderboard.drop b).Listed := by
  induction entries generalizing b with
  | nil => exact ⟨rows, listed⟩
  | cons entry entries ih =>
    obtain ⟨fresh, rest⟩ := List.nodup_cons.mp apart
    obtain ⟨rows', listed', mem⟩ := rows.drop listed (there entry List.mem_cons_self)
    refine ih rows' listed' (fun e member => (mem e).mpr ⟨there e (List.mem_cons_of_mem _ member), fun same => ?_⟩) rest
    exact fresh (same ▸ List.mem_map_of_mem member)

theorem Rows.pruneChatters (rows : b.Rows []) (listed : b.Listed) : b.pruneChatters.Rows [] ∧ b.pruneChatters.Listed := by
  let sorted := b.chatters.mergeSort fun x y => compare (b.made x.2) (b.made y.2)
  have perm : sorted.Perm b.chatters := List.mergeSort_perm ..
  have last : (sorted.drop MAX_CHATTERS).Sublist sorted := List.drop_sublist ..
  have there (e) (member : e ∈ sorted.drop MAX_CHATTERS) : e ∈ b.chatters := perm.mem_iff.mp (last.subset member)
  obtain ⟨rows', listed'⟩ := rows.drop_all listed there (((perm.map Prod.fst).nodup_iff.mpr rows.keys).sublist (last.map _))
  obtain ⟨packed, linesOf⟩ := rows'.compact
  exact ⟨packed, fun entry member => (listed' entry member).trans (linesOf _).symm⟩

theorem Rows.note (rows : b.Rows []) (listed : b.Listed) (toLowerCase : String → String) (m : ChatFrame) :
    (b.note toLowerCase m).Rows [] ∧ (b.note toLowerCase m).Listed := by
  unfold Leaderboard.note
  dsimp only
  split
  next => exact ⟨rows, listed⟩
  next =>
    obtain ⟨found, listed', there⟩ := rows.chatterOf listed
    have counted := found.counted listed' there (trim m.authorName) m.identity
    split
    next =>
      have evicted := counted.1.evictOldest counted.2
      split
      next => exact evicted.1.pruneChatters evicted.2
      next => exact evicted
    next =>
      split
      next => exact counted.1.pruneChatters counted.2
      next => exact counted

end Leaderboard

end Braidcast.Overlay
