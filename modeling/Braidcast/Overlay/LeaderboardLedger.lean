import Braidcast.Overlay.LeaderboardWindow

/-!
# What was said and not taken back

The messages of a stream as a ledger kept from the events alone: each message with the row it is
for and its time, less what deletes and bans took back. While nothing is evicted the live lines are
the ledger, in its order.
-/
namespace Braidcast.Overlay

open Lib

structure Said where
  key : String
  identity : ChatIdentity
  stamp : ℚ

/-- The ledger after an event. A delete takes back what it names, a ban what it names in its row. -/
def WindowEvent.hear (toLowerCase : String → String) (said : List Said) : WindowEvent → List Said
  | .chat m ts now =>
    if trim m.authorName = "" then said else said ++ [⟨m.key toLowerCase, m.identity, ts.getD now⟩]
  | .moderation op =>
    match op.action with
    | .all => said
    | .message => said.filter fun s => !op.removes s.identity
    | .user => said.filter fun s => !(decide (s.key = Leaderboard.opKey toLowerCase op) && op.removes s.identity)
  | .streamEnded => []
  | .render _ => said

def said (toLowerCase : String → String) (events : List WindowEvent) : List Said := events.foldl (WindowEvent.hear toLowerCase) []

/-- How many messages of a row are in the window. -/
def since (cutoff : ℚ) (key : String) (said : List Said) : Nat := said.countP fun s => s.key = key && cutoff ≤ s.stamp

/-- The times of a row's messages in the order they came, taken back or not. -/
def stampsFrom (toLowerCase : String → String) (key : String) (events : List WindowEvent) : List ℚ :=
  events.filterMap fun
    | .chat m ts now => if trim m.authorName ≠ "" ∧ m.key toLowerCase = key then some (ts.getD now) else none
    | _ => none

/-- The clock reading of a render. -/
def WindowEvent.clock : WindowEvent → Option ℚ
  | .render now => some now
  | _ => none

namespace Leaderboard

variable {toLowerCase : String → String} {b b' : Leaderboard} {key platform name : String} {m : ChatFrame} {i l : Nat}

/-- The board once a message is counted, whatever the caps say. -/
def counts (toLowerCase : String → String) (b : Leaderboard) (m : ChatFrame) : Leaderboard :=
  let r := b.chatterOf (m.key toLowerCase) (platformOf toLowerCase m.platform) (trim m.authorName)
  r.1.counted r.2 (trim m.authorName) m.identity

/-- Nothing is evicted for the message, neither lines nor chatters. -/
structure Roomy (toLowerCase : String → String) (b : Leaderboard) (m : ChatFrame) : Prop where
  lines : (b.counts toLowerCase m).store.liveLines ≤ MAX_LINES + LineStore.EVICT_SLACK
  chatters : (b.counts toLowerCase m).chatters.length ≤ PRUNE_AT

instance : Decidable (b.Roomy toLowerCase m) :=
  decidable_of_iff ((b.counts toLowerCase m).store.liveLines ≤ MAX_LINES + LineStore.EVICT_SLACK ∧
    (b.counts toLowerCase m).chatters.length ≤ PRUNE_AT) ⟨fun room => ⟨room.1, room.2⟩, fun roomy => ⟨roomy.lines, roomy.chatters⟩⟩

/-- The caps see to the board once the message is counted. -/
theorem note_eq (named : trim m.authorName ≠ "") : b.note toLowerCase m =
    let counted := b.counts toLowerCase m
    let evicted := if MAX_LINES + LineStore.EVICT_SLACK < counted.store.liveLines then counted.evictOldest else counted
    if PRUNE_AT < evicted.chatters.length then evicted.pruneChatters else evicted := by
  unfold note
  exact if_neg named

theorem Roomy.note (roomy : b.Roomy toLowerCase m) (named : trim m.authorName ≠ "") :
    b.note toLowerCase m = b.counts toLowerCase m := by
  rw [note_eq named]
  dsimp only
  rw [if_neg (not_lt.mpr roomy.lines), if_neg (not_lt.mpr roomy.chatters)]

/-- Where a message's chatter stands once it is on the board. -/
structure Placed (b : Leaderboard) (key : String) (i : Nat) (b' : Leaderboard) : Prop where
  store : b'.store = b.store
  here : (key, i) ∈ b'.chatters
  old : ∀ entry ∈ b'.chatters, entry.2 ≠ i → entry ∈ b.chatters
  keyed : (b'.made i).key = key
  made : ∀ l ∈ b.store.live, b'.made (b.store.lines l).chatter = b.made (b.store.lines l).chatter
  bare : b.find key = some i ∨ b.find key = none ∧ b.linesOf i = []

theorem Rows.placed (rows : b.Rows []) (key platform name : String) :
    b.Placed key (b.chatterOf key platform name).2 (b.chatterOf key platform name).1 := by
  unfold Leaderboard.chatterOf
  cases found : b.find key with
  | some i =>
    have listed := rows.find_eq.mp found
    exact ⟨rfl, listed, fun entry member _ => member, rows.key _ listed, fun _ _ => rfl, .inl found⟩
  | none =>
    dsimp only
    -- the number of a chatter with a line is not new
    have apart (l) (live : l ∈ b.store.live) : (b.store.lines l).chatter ≠ b.seq := by
      obtain ⟨entry, member, same⟩ := rows.owned l live
      exact same ▸ Nat.ne_of_lt (rows.old entry member)
    refine ⟨rfl, by simp, fun entry member other => ?_, by simp, fun l live => Function.update_of_ne (apart l live) .., .inr ⟨found, ?_⟩⟩
    · rcases List.mem_append.mp member with old | new
      · exact old
      · rw [List.mem_singleton.mp new] at other
        exact absurd rfl other
    · exact List.filter_eq_nil_iff.mpr fun l live owner => apart l live (of_decide_eq_true owner)

/-- A line's chatter goes by the key of its row. -/
theorem Rows.key_eq_iff (rows : b.Rows []) (live : l ∈ b.store.live) {entry : String × Nat} (member : entry ∈ b.chatters) :
    (b.made (b.store.lines l).chatter).key = entry.1 ↔ (b.store.lines l).chatter = entry.2 := by
  obtain ⟨owner, listed, same⟩ := rows.owned l live
  rw [← same, rows.key owner listed]
  exact ⟨fun keyed => congrArg Prod.snd (rows.key_inj listed member keyed), fun there => congrArg Prod.fst (rows.entry_eq listed member there)⟩

end Leaderboard

namespace WindowBoard

variable {toLowerCase : String → String} {b : WindowBoard} {m : ChatFrame} {ts : Option ℚ} {now : ℚ} {op : ModerationOp} {i l : Nat}

/-- A line as what was said. -/
def saidBy (b : WindowBoard) (l : Nat) : Said :=
  ⟨(b.board.made (b.board.store.lines l).chatter).key, b.board.store.identity l, b.stampOf l⟩

def heard (b : WindowBoard) : List Said := b.board.store.live.map b.saidBy

theorem hear_chat (named : trim m.authorName ≠ "") (said : List Said) :
    (WindowEvent.chat m ts now).hear toLowerCase said = said ++ [⟨m.key toLowerCase, m.identity, ts.getD now⟩] := if_neg named

theorem hear_nameless (nameless : trim m.authorName = "") (said : List Said) :
    (WindowEvent.chat m ts now).hear toLowerCase said = said := if_pos nameless

theorem heard_note (rows : b.board.Rows []) (roomy : b.board.Roomy toLowerCase m) (named : trim m.authorName ≠ "") :
    (b.note toLowerCase m ts now).heard = b.heard ++ [⟨m.key toLowerCase, m.identity, ts.getD now⟩] := by
  let r := b.board.chatterOf (m.key toLowerCase) (Leaderboard.platformOf toLowerCase m.platform) (trim m.authorName)
  have placed : b.board.Placed (m.key toLowerCase) r.2 r.1 := rows.placed ..
  have board : (b.note toLowerCase m ts now).board = r.1.counted r.2 (trim m.authorName) m.identity := by
    have noted := roomy.note named
    unfold note
    dsimp only
    rw [if_neg named, noted]
    rfl
  have stampOf : (b.note toLowerCase m ts now).stampOf = Function.update b.stampOf b.board.store.made (ts.getD now) := by
    unfold note
    dsimp only
    rw [if_neg named]
  have store : (r.1.counted r.2 (trim m.authorName) m.identity).store = b.board.store.add m.identity r.2 := by
    change r.1.store.add m.identity r.2 = _
    rw [placed.store]
  have keys (j : Nat) : ((r.1.counted r.2 (trim m.authorName) m.identity).made j).key = (r.1.made j).key := by
    have made := Leaderboard.setChatter_made r.1 r.2
      (fun c => { c with name := trim m.authorName, count := c.count + 1, lines := c.lines ++ [r.1.store.made] }) j
    refine (congrArg Chatter.key made).trans ?_
    split
    next same => rw [same]
    next => rfl
  unfold heard saidBy
  rw [board, stampOf, store, LineStore.add_live rows.store, List.map_append, List.map_singleton]
  refine congrArg₂ HAppend.hAppend (List.map_congr_left fun l live => ?_) ?_
  · have old : l ≠ b.board.store.made := Nat.ne_of_lt (rows.store.lt_made live)
    rw [LineStore.add_chatter_of_ne old, LineStore.add_identity_of_ne old, Function.update_of_ne old, keys, placed.made l live]
  · rw [LineStore.add_chatter_new, LineStore.add_identity_new, Function.update_self, keys, placed.keyed]

theorem heard_uncount (rows : b.board.Rows []) (listed : b.board.Listed) :
    (b.uncount toLowerCase op).heard = (WindowEvent.moderation op).hear toLowerCase b.heard := by
  have stampOf : (b.uncount toLowerCase op).stampOf = b.stampOf := uncount_thins.stampOf
  unfold heard saidBy
  rw [uncount_board, stampOf]
  cases action : op.action with
  | all =>
    simp only [WindowEvent.hear, action, Leaderboard.uncount_all action]
  | message =>
    simp only [WindowEvent.hear, action]
    have off : b.board.Delisted _ (b.board.uncount toLowerCase op) := (rows.uncount_message listed action).2.2
    rw [off.live, List.filter_map]
    exact List.map_congr_left fun l _ => by rw [off.chatter, off.key, off.identity]
  | user =>
    simp only [WindowEvent.hear, action]
    cases found : b.board.find (Leaderboard.opKey toLowerCase op) with
    | none =>
      rw [Leaderboard.uncount_none action found]
      symm
      refine List.filter_eq_self.mpr fun s member => ?_
      obtain ⟨l, live, rfl⟩ := List.mem_map.mp member
      -- the row of a live line is on the board, and the one asked for is not
      obtain ⟨entry, held, same⟩ := rows.owned l live
      have other : (b.board.made (b.board.store.lines l).chatter).key ≠ Leaderboard.opKey toLowerCase op := by
        rw [← same, rows.key entry held]
        exact Leaderboard.find_eq_none.mp found entry held
      simp [other]
    | some i =>
      have row := rows.find_eq.mp found
      obtain ⟨rows', -, banned⟩ := rows.uncount_user listed action found
      have keys (l) (live : l ∈ (b.board.uncount toLowerCase op).store.live) :
          ((b.board.uncount toLowerCase op).made ((b.board.uncount toLowerCase op).store.lines l).chatter).key =
            (b.board.made (b.board.store.lines l).chatter).key := by
        obtain ⟨entry, held, same⟩ := rows'.owned l live
        rw [← banned.chatter, ← same, rows'.key entry held, rows.key entry ((banned.chatters entry).mp held).1]
      rw [List.filter_map, List.map_congr_left fun l live => by rw [keys l live, banned.identity], banned.live]
      refine congrArg (List.map _) (List.filter_congr fun l live => ?_)
      have asked := rows.key_eq_iff live row
      simp only [Function.comp_apply, asked]

end WindowBoard

end Braidcast.Overlay
