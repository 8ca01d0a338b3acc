import Braidcast.Overlay.LeaderboardLines

/-!
# Chatters and their counts

A chatter's count is the number of its live lines and of the lines in its tallies. That stays so at
every point of every loop; a chatter's own list of lines is only right between them.
-/
namespace Braidcast.Overlay

open Lib

/-- The evicted lines of a chatter. -/
def Chatter.tallied (c : Chatter) : Nat := (c.evicted.map fun entry => entry.2.count).sum

/-- A tally counts its lines. -/
def Chatter.Fair (c : Chatter) : Prop := ∀ entry ∈ c.evicted, entry.2.count = entry.2.folded.length

namespace Leaderboard

variable {b b' : Leaderboard} {i line : Nat} {key : String} {entry : String × Nat} {spare : List Nat}

/-- The live lines of a chatter, in order. -/
def linesOf (b : Leaderboard) (i : Nat) : List Nat := b.store.live.filter fun line => (b.store.lines line).chatter = i

/-- `spare` may be on the board without a line. -/
structure Rows (b : Leaderboard) (spare : List Nat) : Prop where
  store : b.store.Sound
  keys : (b.chatters.map Prod.fst).Nodup
  ids : (b.chatters.map Prod.snd).Nodup
  old : ∀ entry ∈ b.chatters, entry.2 < b.seq
  key : ∀ entry ∈ b.chatters, (b.made entry.2).key = entry.1
  fair : ∀ entry ∈ b.chatters, (b.made entry.2).Fair
  count : ∀ entry ∈ b.chatters, (b.made entry.2).count = (b.linesOf entry.2).length + (b.made entry.2).tallied
  positive : ∀ entry ∈ b.chatters, entry.2 ∉ spare → 0 < (b.made entry.2).count
  owned : ∀ line ∈ b.store.live, ∃ entry ∈ b.chatters, entry.2 = (b.store.lines line).chatter

/-- Each chatter's list holds its live lines. -/
def Listed (b : Leaderboard) : Prop := ∀ entry ∈ b.chatters, (b.made entry.2).lines = b.linesOf entry.2

theorem mem_linesOf : line ∈ b.linesOf i ↔ line ∈ b.store.live ∧ (b.store.lines line).chatter = i := by
  simp [linesOf]

theorem linesOf_filter {p : Nat → Bool} (live : b'.store.live = b.store.live.filter p)
    (chatter : ∀ l, (b'.store.lines l).chatter = (b.store.lines l).chatter) (j : Nat) :
    b'.linesOf j = (b.linesOf j).filter p := by
  unfold linesOf
  rw [live, List.filter_filter, List.filter_filter]
  refine List.filter_congr fun l _ => ?_
  rw [chatter, Bool.and_comm]

theorem linesOf_congr (live : b'.store.live = b.store.live)
    (chatter : ∀ l, (b'.store.lines l).chatter = (b.store.lines l).chatter) (j : Nat) : b'.linesOf j = b.linesOf j := by
  unfold linesOf
  rw [live]
  exact List.filter_congr fun l _ => by rw [chatter]

theorem Rows.linesOf_nodup (rows : b.Rows spare) (j : Nat) : (b.linesOf j).Nodup := rows.store.live_nodup.filter _

/-- Chatters are told apart by their numbers. -/
theorem Rows.entry_eq (rows : b.Rows spare) {entry' : String × Nat} (member : entry ∈ b.chatters) (member' : entry' ∈ b.chatters)
    (same : entry.2 = entry'.2) : entry = entry' :=
  List.inj_on_of_nodup_map rows.ids member member' same

theorem Rows.key_inj (rows : b.Rows spare) {entry' : String × Nat} (member : entry ∈ b.chatters) (member' : entry' ∈ b.chatters)
    (same : entry.1 = entry'.1) : entry = entry' :=
  List.inj_on_of_nodup_map rows.keys member member' same

theorem find_eq_none : b.find key = none ↔ ∀ entry ∈ b.chatters, entry.1 ≠ key := by
  simp [find]

theorem Rows.find_eq (rows : b.Rows spare) : b.find key = some i ↔ (key, i) ∈ b.chatters := by
  constructor
  · intro found
    obtain ⟨entry, first, rfl⟩ := Option.map_eq_some_iff.mp found
    have same : entry.1 = key := by simpa using List.find?_some first
    exact same ▸ List.mem_of_find?_eq_some first
  · intro member
    cases found : b.find key with
    | none => exact absurd rfl (find_eq_none.mp found _ member)
    | some j =>
      obtain ⟨entry, first, rfl⟩ := Option.map_eq_some_iff.mp found
      have same : entry.1 = key := by simpa using List.find?_some first
      rw [rows.key_inj (List.mem_of_find?_eq_some first) member same]

theorem Rows.mem_forget (rows : b.Rows spare) : entry ∈ (b.forget key).chatters ↔ entry ∈ b.chatters ∧ entry.1 ≠ key := by
  unfold forget
  rw [eraseP_key_eq_filter rows.keys]
  simp

/-- A chatter without lines leaves the board. -/
theorem Rows.forget (rows : b.Rows spare) (empty : ∀ entry ∈ b.chatters, entry.1 = key → b.linesOf entry.2 = []) :
    (b.forget key).Rows spare where
  store := rows.store
  keys := rows.keys.sublist (List.Sublist.map _ List.eraseP_sublist)
  ids := rows.ids.sublist (List.Sublist.map _ List.eraseP_sublist)
  old entry listed := rows.old entry (rows.mem_forget.mp listed).1
  key entry listed := rows.key entry (rows.mem_forget.mp listed).1
  fair entry listed := rows.fair entry (rows.mem_forget.mp listed).1
  count entry listed := rows.count entry (rows.mem_forget.mp listed).1
  positive entry listed := rows.positive entry (rows.mem_forget.mp listed).1
  owned line live := by
    obtain ⟨entry, listed, same⟩ := rows.owned line live
    refine ⟨entry, rows.mem_forget.mpr ⟨listed, fun keyed => ?_⟩, same⟩
    have mine : line ∈ b.linesOf entry.2 := mem_linesOf.mpr ⟨live, same.symm⟩
    rw [empty entry listed keyed] at mine
    cases mine

/-- Changing a chatter without moving it. -/
theorem setChatter_made (b : Leaderboard) (i : Nat) (f : Chatter → Chatter) (j : Nat) :
    (b.setChatter i f).made j = if j = i then f (b.made i) else b.made j := by
  by_cases same : j = i
  · subst same
    simp [setChatter]
  · simp [setChatter, same]

/-- The order may be compacted, and what a chatter's list and name are does not matter. -/
theorem Rows.congr (rows : b.Rows spare) (store : b'.store.Sound) (live : b'.store.live = b.store.live)
    (chatter : ∀ l, (b'.store.lines l).chatter = (b.store.lines l).chatter) (chatters : b'.chatters = b.chatters)
    (seq : b'.seq = b.seq) (key : ∀ j, (b'.made j).key = (b.made j).key) (count : ∀ j, (b'.made j).count = (b.made j).count)
    (evicted : ∀ j, (b'.made j).evicted = (b.made j).evicted) : b'.Rows spare where
  store := store
  keys := by
    rw [chatters]
    exact rows.keys
  ids := by
    rw [chatters]
    exact rows.ids
  old := by
    rw [chatters, seq]
    exact rows.old
  key entry listed := by
    rw [chatters] at listed
    rw [key, rows.key entry listed]
  fair entry listed := by
    rw [chatters] at listed
    unfold Chatter.Fair
    rw [evicted]
    exact rows.fair entry listed
  count entry listed := by
    rw [chatters] at listed
    unfold Chatter.tallied
    rw [linesOf_congr live chatter, count, evicted]
    exact rows.count entry listed
  positive entry listed late := by
    rw [chatters] at listed
    rw [count]
    exact rows.positive entry listed late
  owned line member := by
    rw [live] at member
    rw [chatters, chatter]
    exact rows.owned line member

/-- A line of one chatter is one line less for it, and none for the others. -/
theorem Rows.filter_length (rows : b.Rows spare) (mine : line ∈ b.linesOf i) :
    ((b.linesOf i).filter fun l => l ≠ line).length + 1 = (b.linesOf i).length := by
  obtain ⟨pre, post, split⟩ := List.append_of_mem mine
  have nodup := rows.linesOf_nodup i
  rw [split] at nodup ⊢
  rw [LineStore.filter_split nodup]
  simp only [List.length_append, List.length_cons]
  omega

theorem filter_other (mine : line ∈ b.linesOf i) {j : Nat} (other : j ≠ i) :
    (b.linesOf j).filter (fun l => l ≠ line) = b.linesOf j := by
  refine List.filter_eq_self.mpr fun l theirs => decide_eq_true ?_
  rintro rfl
  exact other ((mem_linesOf.mp theirs).2.symm.trans (mem_linesOf.mp mine).2)

/-- One chatter loses a live line, from its count or into a tally. -/
theorem Rows.lose (rows : b.Rows []) (mine : line ∈ b.linesOf i) (store : b'.store.Sound)
    (live : b'.store.live = b.store.live.filter fun l => l ≠ line)
    (chatter : ∀ l, (b'.store.lines l).chatter = (b.store.lines l).chatter) (chatters : b'.chatters = b.chatters)
    (seq : b'.seq = b.seq) (others : ∀ j, j ≠ i → b'.made j = b.made j) (key : (b'.made i).key = (b.made i).key)
    (fair : (b.made i).Fair → (b'.made i).Fair)
    (less : (b'.made i).count - (b'.made i).tallied = (b.made i).count - (b.made i).tallied - 1) : b'.Rows [i] := by
  have left (j : Nat) := linesOf_filter live chatter j
  have fewer : ((b'.linesOf i).length : Int) = (b.linesOf i).length - 1 := by
    have fewer := rows.filter_length mine
    rw [left]
    omega
  have apart (j : Nat) (other : j ≠ i) : b'.linesOf j = b.linesOf j := (left j).trans (filter_other mine other)
  refine ⟨store, chatters ▸ rows.keys, chatters ▸ rows.ids, ?_, fun entry listed => ?_, fun entry listed => ?_,
    fun entry listed => ?_, fun entry listed late => ?_, fun l member => ?_⟩
  · rw [chatters, seq]
    exact rows.old
  all_goals try rw [chatters] at listed
  · by_cases same : entry.2 = i
    · rw [← rows.key entry listed, same, key]
    · rw [others _ same, rows.key entry listed]
  · by_cases same : entry.2 = i
    · rw [same]
      exact fair (same ▸ rows.fair entry listed)
    · rw [others _ same]
      exact rows.fair entry listed
  · have before := rows.count entry listed
    by_cases same : entry.2 = i
    · rw [same] at before ⊢
      omega
    · rw [others _ same, apart _ same]
      exact before
  · have other : entry.2 ≠ i := fun same => late (List.mem_singleton.mpr same)
    rw [others _ other]
    exact rows.positive entry listed List.not_mem_nil
  · rw [live] at member
    rw [chatters, chatter]
    exact rows.owned l (List.mem_filter.mp member).1

/-- A chatter whose count is spent has nothing left and leaves. -/
theorem Rows.leave (rows : b.Rows [i]) (own : ∀ entry ∈ b.chatters, entry.1 = (b.made i).key → entry.2 = i) :
    (if (b.made i).count ≤ 0 then b.forget (b.made i).key else b).Rows [] ∧
      ∀ entry, entry ∈ (if (b.made i).count ≤ 0 then b.forget (b.made i).key else b).chatters ↔
        entry ∈ b.chatters ∧ 0 < (b.made entry.2).count := by
  have others (entry : String × Nat) (listed : entry ∈ b.chatters) (other : entry.2 ≠ i) : 0 < (b.made entry.2).count :=
    rows.positive entry listed fun same => other (List.mem_singleton.mp same)
  split
  next spent =>
    have empty (entry) (listed : entry ∈ b.chatters) (keyed : entry.1 = (b.made i).key) : b.linesOf entry.2 = [] := by
      have count := rows.count entry listed
      rw [own entry listed keyed] at count ⊢
      exact List.eq_nil_of_length_eq_zero (by omega)
    have mem (entry : String × Nat) : entry ∈ (b.forget (b.made i).key).chatters ↔ entry ∈ b.chatters ∧ 0 < (b.made entry.2).count := by
      rw [rows.mem_forget]
      refine and_congr_right fun listed => ?_
      constructor
      · intro keyed
        refine others entry listed fun same => keyed ?_
        rw [← rows.key entry listed, same]
      · intro counts keyed
        rw [own entry listed keyed] at counts
        exact Int.not_lt.mpr spent counts
    have left := rows.forget empty
    exact ⟨{ left with positive := fun entry listed _ => ((mem entry).mp listed).2 }, mem⟩
  next counts =>
    have all (entry) (listed : entry ∈ b.chatters) : 0 < (b.made entry.2).count := by
      by_cases same : entry.2 = i
      · rw [same]
        exact Int.not_le.mp counts
      · exact others entry listed same
    exact ⟨{ rows with positive := fun entry listed _ => all entry listed }, fun entry => ⟨fun listed => ⟨listed, all entry listed⟩, And.left⟩⟩

/-- What taking a line back from its chatter leaves; its list may still hold the line. -/
structure TakenBack (b : Leaderboard) (i line : Nat) (b' : Leaderboard) : Prop where
  rows : b'.Rows []
  store : b'.store = b.store.retire line
  made : ∀ j, b'.made j = if j = i then { b.made i with count := (b.made i).count - 1 } else b.made j
  linesOf : ∀ j, b'.linesOf j = (b.linesOf j).filter fun l => l ≠ line
  chatters : ∀ entry, entry ∈ b'.chatters ↔ entry ∈ b.chatters ∧ 0 < (b'.made entry.2).count

theorem Rows.takeBack (rows : b.Rows []) (mine : line ∈ b.linesOf i) : b.TakenBack i line (b.takeBack i line) := by
  obtain ⟨live, owner⟩ := mem_linesOf.mp mine
  obtain ⟨entry, listed, same⟩ := rows.owned line live
  have home : entry.2 = i := same.trans owner
  let b₁ : Leaderboard := { b with store := b.store.retire line }.setChatter i fun c => { c with count := c.count - 1 }
  have made (j : Nat) : b₁.made j = if j = i then { b.made i with count := (b.made i).count - 1 } else b.made j :=
    setChatter_made ..
  have here : b₁.made i = { b.made i with count := (b.made i).count - 1 } := (made i).trans (if_pos rfl)
  have lost : b₁.Rows [i] := by
    refine rows.lose mine (LineStore.retire_sound rows.store live) (LineStore.retire_live ..)
      (fun l => LineStore.retire_chatter ..) rfl rfl (fun j other => (made j).trans (if_neg other)) ?_ ?_ ?_
    · rw [here]
    · rw [here]
      exact id
    · rw [here]
      change (b.made i).count - 1 - ((b.made i).tallied : Int) = _
      omega
  have own (e) (member : e ∈ b₁.chatters) (keyed : e.1 = (b₁.made i).key) : e.2 = i := by
    rw [here, ← home, rows.key entry listed] at keyed
    rw [rows.key_inj member listed keyed, home]
  obtain ⟨left, mem⟩ := lost.leave own
  have unmoved : (b.takeBack i line).made = b₁.made ∧ (b.takeBack i line).store = b₁.store := by
    change (if (b₁.made i).count ≤ 0 then b₁.forget (b₁.made i).key else b₁).made = b₁.made ∧
      (if (b₁.made i).count ≤ 0 then b₁.forget (b₁.made i).key else b₁).store = b₁.store
    split <;> exact ⟨rfl, rfl⟩
  refine ⟨left, unmoved.2, fun j => ?_, fun j => ?_, fun e => ?_⟩
  · rw [unmoved.1]
    exact made j
  · refine linesOf_filter ?_ (fun l => ?_) j
    · rw [unmoved.2]
      exact LineStore.retire_live ..
    · rw [unmoved.2]
      exact LineStore.retire_chatter ..
  · rw [unmoved.1]
    exact mem e

end Leaderboard

end Braidcast.Overlay
