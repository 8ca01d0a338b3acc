import Mathlib.Algebra.Order.Ring.Rat
import Mathlib.Data.List.Sort
import Braidcast.Lib.Expiring
import Braidcast.Overlay.LeaderboardTallies

/-!
# The leaderboard's rolling window

The stamps of `default-chatleaderboard/template.js`, over the board they have no part in: each
chatter's `stamps`, and the `stamp` each line remembers. A render prunes the stamps and draws the
chatters with enough of them.
-/
namespace Braidcast.Overlay

open Lib

/-- What the fields say of a render, as `windowMs` and `numberField` read them. -/
structure BoardFields where
  windowMinutes : ℚ
  minMessages : Int
  topN : Nat
  one_le_minMessages : 1 ≤ minMessages
  one_le_topN : 1 ≤ topN
  topN_le : topN ≤ 10

namespace BoardFields

variable (f : BoardFields)

/-- 0 is the whole session. -/
def windowMs : ℚ := if 0 < f.windowMinutes then f.windowMinutes * 60000 else 0

def cutoff (now : ℚ) : ℚ := if 0 < f.windowMs then now - f.windowMs else 0

end BoardFields

structure WindowBoard where
  board : Leaderboard
  /-- The `stamp` of each line. -/
  stampOf : Nat → ℚ
  /-- The `stamps` of each chatter. -/
  stamps : Nat → List ℚ

inductive WindowEvent
  /-- `ts` is the frame's time where that is a finite number. -/
  | chat (m : ChatFrame) (ts : Option ℚ) (now : ℚ)
  | moderation (op : ModerationOp)
  | streamEnded
  | render (now : ℚ)

def MAX_STAMPS : Nat := 600

/-- The row a message is for. -/
def ChatFrame.key (toLowerCase : String → String) (m : ChatFrame) : String :=
  Leaderboard.keyFor (Leaderboard.platformOf toLowerCase m.platform) (Leaderboard.groupId m.identity.authorId) (trim m.authorName)

namespace WindowBoard

def initial : WindowBoard := ⟨.initial, fun _ => 0, fun _ => []⟩

variable (toLowerCase : String → String) (b : WindowBoard)

/-- The stamps of the chatter with the key; a chatter not on the board yet has none. -/
def stampsOf (key : String) : List ℚ :=
  match b.board.find key with
  | some i => b.stamps i
  | none => []

def note (m : ChatFrame) (ts : Option ℚ) (now : ℚ) : WindowBoard :=
  let name := trim m.authorName
  if name = "" then b
  else
    let ts := ts.getD now
    let key := m.key toLowerCase
    let i := (b.board.chatterOf key (Leaderboard.platformOf toLowerCase m.platform) name).2
    let stamps := b.stampsOf key ++ [ts]
    { board := b.board.note toLowerCase m
      stampOf := Function.update b.stampOf b.board.store.made ts
      stamps := Function.update b.stamps i
        (if MAX_STAMPS < stamps.length then stamps.drop (stamps.length - MAX_STAMPS) else stamps) }

/-- `takeBack`: one stamp of the line's time goes, where there is one left. -/
def takeBack (i line : Nat) : WindowBoard :=
  { b with
    board := b.board.takeBack i line
    stamps := Function.update b.stamps i (eraseLast (b.stampOf line) (b.stamps i)) }

/-- The line leaves its chatter's list and is taken back. -/
def delete (line : Nat) : WindowBoard :=
  let i := (b.board.store.lines line).chatter
  { b with board := b.board.setChatter i fun c => { c with lines := c.lines.erase line } }.takeBack i line

/-- The loop over a chain; did it take a line back? -/
def deleteLoop (removes : ChatIdentity → Bool) : Nat → Option Nat → WindowBoard × Bool → WindowBoard × Bool
  | 0, _, b => b
  | _, none, b => b
  | n + 1, some line, (b, changed) =>
    let next := b.board.store.sameId line
    if removes (b.board.store.identity line) then deleteLoop removes n next (b.delete line, true)
    else deleteLoop removes n next (b, changed)

/-- The loop over the lines of a banned chatter; the ones it keeps. -/
def banLoop (removes : ChatIdentity → Bool) (i : Nat) (b : WindowBoard) : List Nat → List Nat × WindowBoard
  | [] => ([], b)
  | line :: rest =>
    if removes (b.board.store.identity line) then banLoop removes i (b.takeBack i line) rest
    else
      let (kept, b) := banLoop removes i b rest
      (line :: kept, b)

/-- The loops take the stamps back; the rest of `uncount` has no part in them. -/
def uncount (op : ModerationOp) : WindowBoard :=
  match op.action with
  | .all => b
  | .message =>
    { (deleteLoop op.removes b.board.store.order.length (op.msgId.bind b.board.store.linesById) (b, false)).1 with
      board := b.board.uncount toLowerCase op }
  | .user =>
    match b.board.find (Leaderboard.opKey toLowerCase op) with
    | none => b
    | some i => { (b.banLoop op.removes i (b.board.made i).lines).2 with board := b.board.uncount toLowerCase op }

/-- `pruneStamps` for every chatter on the board. -/
def pruneStamps (cutoff : ℚ) : WindowBoard :=
  { b with stamps := fun i => if b.board.chatters.any fun entry => entry.2 = i then prune cutoff (b.stamps i) else b.stamps i }

/-- `METRICS.messages` -/
def messages (windowed : Bool) (i : Nat) : Int := if windowed then (b.stamps i).length else (b.board.made i).count

/-- A chatter as an entry of a render: with the count it shows. -/
def entry (windowed : Bool) (i : Nat) : Chatter := { b.board.made i with count := b.messages windowed i }

/-- The board after a render, and the rows drawn. -/
def render (f : BoardFields) (now : ℚ) : WindowBoard × List Chatter :=
  let windowed := decide (0 < f.cutoff now)
  let b := if windowed then b.pruneStamps (f.cutoff now) else b
  let entries := (b.board.chatters.map fun entry => b.entry windowed entry.2).filter fun entry => f.minMessages ≤ entry.count
  (b, (entries.insertionSort fun x y => Leaderboard.compare x y).take f.topN)

def react (f : BoardFields) (b : WindowBoard) : WindowEvent → WindowBoard
  | .chat m ts now => b.note toLowerCase m ts now
  | .moderation op => b.uncount toLowerCase op
  | .streamEnded => { b with board := b.board.clear }
  | .render now => (b.render f now).1

end WindowBoard

end Braidcast.Overlay

/-!
## Stamps and live lines

However the timestamps come, from any level on that no prune has reached yet a chatter's stamps are
those of its live lines. Taking a line back takes one stamp of its time, and equal stamps are as
good as each other.
-/
namespace Braidcast.Overlay

open Lib

namespace WindowBoard

variable {b b' b'' : WindowBoard} {i j line n : Nat} {level : ℚ} {removes : ChatIdentity → Bool} {id : String}
  {toLowerCase : String → String} {op : ModerationOp}

/-- The loops go through the board as they did without stamps. -/
theorem deleteLoop_board (removes : ChatIdentity → Bool) (n : Nat) (next : Option Nat) (b : WindowBoard) (changed : Bool) :
    (deleteLoop removes n next (b, changed)).1.board = (Leaderboard.deleteLoop removes n next (b.board, changed)).1 := by
  induction n generalizing next b changed with
  | zero => rfl
  | succ n ih =>
    cases next with
    | none => rfl
    | some line =>
      simp only [deleteLoop, Leaderboard.deleteLoop]
      split
      · exact ih ..
      · exact ih ..

theorem banLoop_board (removes : ChatIdentity → Bool) (i : Nat) (lines : List Nat) (b : WindowBoard) :
    (banLoop removes i b lines).1 = (Leaderboard.banLoop removes i b.board lines).1 ∧
      (banLoop removes i b lines).2.board = (Leaderboard.banLoop removes i b.board lines).2 := by
  induction lines generalizing b with
  | nil => exact ⟨rfl, rfl⟩
  | cons line rest ih =>
    simp only [banLoop, Leaderboard.banLoop]
    split
    · exact ih ..
    · obtain ⟨kept, board⟩ := ih b
      exact ⟨congrArg _ kept, board⟩

theorem uncount_board : (b.uncount toLowerCase op).board = b.board.uncount toLowerCase op := by
  unfold uncount
  split
  next all => exact (Leaderboard.uncount_all all).symm
  next => rfl
  next user =>
    split
    next absent => exact (Leaderboard.uncount_none user absent).symm
    next => rfl

/-- Stamps only go, and lines keep theirs. -/
structure Thins (b b' : WindowBoard) : Prop where
  stampOf : b'.stampOf = b.stampOf
  stamps : ∀ i, (b'.stamps i).Sublist (b.stamps i)

theorem Thins.refl (b : WindowBoard) : b.Thins b := ⟨rfl, fun _ => .refl _⟩

theorem Thins.trans (first : b.Thins b') (second : b'.Thins b'') : b.Thins b'' :=
  ⟨second.stampOf.trans first.stampOf, fun i => (second.stamps i).trans (first.stamps i)⟩

theorem takeBack_thins (b : WindowBoard) (i line : Nat) : b.Thins (b.takeBack i line) where
  stampOf := rfl
  stamps j := by
    by_cases same : j = i
    · subst same
      simpa [takeBack] using eraseLast_sublist
    · simp [takeBack, Function.update_of_ne same]

theorem delete_thins (b : WindowBoard) (line : Nat) : b.Thins (b.delete line) :=
  ⟨rfl, (takeBack_thins { b with board := _ } _ line).stamps⟩

theorem deleteLoop_thins (removes : ChatIdentity → Bool) (n : Nat) (next : Option Nat) (b : WindowBoard) (changed : Bool) :
    b.Thins (deleteLoop removes n next (b, changed)).1 := by
  induction n generalizing next b changed with
  | zero => exact .refl b
  | succ n ih =>
    cases next with
    | none => exact .refl b
    | some line =>
      simp only [deleteLoop]
      split
      · exact (delete_thins b line).trans (ih ..)
      · exact ih ..

theorem banLoop_thins (removes : ChatIdentity → Bool) (i : Nat) (lines : List Nat) (b : WindowBoard) :
    b.Thins (banLoop removes i b lines).2 := by
  induction lines generalizing b with
  | nil => exact .refl b
  | cons line rest ih =>
    simp only [banLoop]
    split
    · exact (takeBack_thins b i line).trans (ih _)
    · exact ih b

theorem uncount_thins : b.Thins (b.uncount toLowerCase op) := by
  unfold uncount
  split
  next => exact .refl b
  next =>
    have loop := deleteLoop_thins op.removes b.board.store.order.length (op.msgId.bind b.board.store.linesById) b false
    exact ⟨loop.stampOf, loop.stamps⟩
  next =>
    split
    next => exact .refl b
    next i _ =>
      have loop := banLoop_thins op.removes i (b.board.made i).lines b
      exact ⟨loop.stampOf, loop.stamps⟩

/-- From the level on, a chatter's stamps are those of its live lines. -/
def Agrees (b : WindowBoard) (level : ℚ) (i : Nat) : Prop := Agree level (b.stamps i) ((b.board.linesOf i).map b.stampOf)

theorem Agrees.congr (agrees : b.Agrees level i) (stamps : b'.stamps i = b.stamps i) (stampOf : b'.stampOf = b.stampOf)
    (linesOf : b'.board.linesOf i = b.board.linesOf i) : b'.Agrees level i := by
  unfold Agrees
  rw [stamps, stampOf, linesOf]
  exact agrees

section

variable (rows : b.board.Rows [])
include rows

theorem takeBack_agrees (mine : line ∈ b.board.linesOf i) (agrees : b.Agrees level j) :
    (b.takeBack i line).Agrees level j := by
  have taken := rows.takeBack mine
  unfold Agrees
  change Agree level (Function.update b.stamps i (eraseLast (b.stampOf line) (b.stamps i)) j)
    (((b.board.takeBack i line).linesOf j).map b.stampOf)
  rw [taken.linesOf]
  by_cases same : j = i
  · subst same
    rw [Function.update_self]
    -- the lines are the one taken back and the rest, in some order
    have split : (b.board.linesOf j).Perm (line :: (b.board.linesOf j).filter fun l => l ≠ line) := by
      have apart := (rows.linesOf_nodup j).erase_eq_filter line
      rw [show (b.board.linesOf j).filter (fun l => l ≠ line) = (b.board.linesOf j).erase line by
        rw [apart]
        exact List.filter_congr fun l _ => by by_cases here : l = line <;> simp [here]]
      exact List.perm_cons_erase mine
    exact (agrees.perm (split.map b.stampOf)).takeBack
  · rw [Function.update_of_ne same, Leaderboard.filter_other mine same]
    exact agrees

theorem delete_agrees (live : line ∈ b.board.store.live) (agrees : b.Agrees level j) :
    (b.delete line).Agrees level j := by
  let erased : WindowBoard :=
    { b with board := b.board.setChatter (b.board.store.lines line).chatter fun c => { c with lines := c.lines.erase line } }
  have kept : erased.board.Rows [] := (rows.erased _ line).1
  have mine : line ∈ erased.board.linesOf (b.board.store.lines line).chatter := Leaderboard.mem_linesOf.mpr ⟨live, rfl⟩
  have same : erased.Agrees level j := agrees
  exact takeBack_agrees kept mine same

/-- `rest` is what is left of the chain behind the lines the loop went past. -/
theorem deleteLoop_agrees {kept rest : List Nat} (listed : b.board.Listed) (blank : id ≠ "")
    (split : b.board.store.chain id = kept ++ rest) (enough : rest.length ≤ n) (changed : Bool) (agrees : b.Agrees level j) :
    (deleteLoop removes n rest.head? (b, changed)).1.Agrees level j := by
  induction rest generalizing n b kept changed with
  | nil =>
    have stops : deleteLoop removes n none (b, changed) = (b, changed) := by cases n <;> rfl
    rw [List.head?_nil, stops]
    exact agrees
  | cons line rest ih =>
    rw [List.length_cons] at enough
    obtain ⟨n, rfl⟩ : ∃ m, n = m + 1 := ⟨n - 1, by omega⟩
    obtain ⟨live, next, shorter, passed⟩ := rows.store.at_split blank split
    rw [List.head?_cons, deleteLoop, next]
    split
    next =>
      obtain ⟨rows', listed', store, -⟩ := rows.deleted listed live
      rw [← store] at shorter
      exact ih rows' listed' shorter (Nat.le_of_succ_le_succ enough) true (delete_agrees rows live agrees)
    next =>
      exact ih rows listed passed (Nat.le_of_succ_le_succ enough) changed agrees

theorem banLoop_agrees {lines : List Nat} (mine : ∀ l ∈ lines, l ∈ b.board.linesOf i) (nodup : lines.Nodup)
    (agrees : b.Agrees level j) : (banLoop removes i b lines).2.Agrees level j := by
  induction lines generalizing b with
  | nil => exact agrees
  | cons line lines ih =>
    obtain ⟨apart, rest⟩ := List.nodup_cons.mp nodup
    have here := mine line List.mem_cons_self
    simp only [banLoop]
    split
    next =>
      have taken := rows.takeBack here
      refine ih taken.rows (fun l member => ?_) rest (takeBack_agrees rows here agrees)
      change l ∈ (b.board.takeBack i line).linesOf i
      rw [taken.linesOf]
      refine List.mem_filter.mpr ⟨mine l (List.mem_cons_of_mem _ member), decide_eq_true ?_⟩
      rintro rfl
      exact apart member
    next => exact ih rows (fun l member => mine l (List.mem_cons_of_mem _ member)) rest agrees

theorem uncount_agrees (listed : b.board.Listed) (agrees : b.Agrees level j) :
    (b.uncount toLowerCase op).Agrees level j := by
    cases action : op.action with
  | all =>
    unfold uncount
    rw [action]
    exact agrees
  | message =>
    let r := deleteLoop op.removes b.board.store.order.length (op.msgId.bind b.board.store.linesById) (b, false)
    have loop : r.1.Agrees level j := by
      change (deleteLoop op.removes b.board.store.order.length (op.msgId.bind b.board.store.linesById) (b, false)).1.Agrees level j
      rcases rows.newest op.msgId with ⟨none, -⟩ | ⟨id, -, blank, first⟩
      · rw [none]
        cases b.board.store.order.length <;> exact agrees
      · rw [first]
        have all : b.board.store.chain id = [] ++ b.board.store.chain id := rfl
        exact deleteLoop_agrees rows listed blank all (b.board.store.chain_length id) false agrees
    obtain ⟨-, -, taken⟩ := rows.deleteLoop_message listed action
    rw [← deleteLoop_board op.removes _ _ b false] at taken
    have off : b.board.Delisted _ (b.board.uncount toLowerCase op) := (rows.uncount_message listed action).2.2
    unfold uncount
    rw [action]
    refine loop.congr rfl rfl ?_
    rw [Leaderboard.linesOf_filter taken.live taken.chatter]
    exact Leaderboard.linesOf_filter off.live off.chatter j
  | user =>
    cases found : b.board.find (Leaderboard.opKey toLowerCase op) with
    | none =>
      unfold uncount
      rw [action]
      dsimp only
      rw [found]
      exact agrees
    | some i =>
      have mine : (b.board.made i).lines = b.board.linesOf i := listed _ (rows.find_eq.mp found)
      obtain ⟨-, -, banned⟩ := rows.uncount_user listed action found
      obtain ⟨-, -, -, taken⟩ := Leaderboard.banLoop_keeps op.removes rows (fun l held => held) (rows.linesOf_nodup i)
      rw [← (banLoop_board op.removes i _ b).2] at taken
      have loop : (banLoop op.removes i b (b.board.linesOf i)).2.Agrees level j :=
        banLoop_agrees rows (fun l held => held) (rows.linesOf_nodup i) agrees
      unfold uncount
      rw [action]
      dsimp only
      rw [found]
      dsimp only
      rw [mine]
      refine loop.congr rfl rfl ?_
      rw [Leaderboard.linesOf_filter taken.live taken.chatter]
      refine (Leaderboard.linesOf_filter banned.live banned.chatter j).trans (List.filter_congr fun l held => ?_)
      have owner : (b.board.linesOf i).contains l = decide ((b.board.store.lines l).chatter = i) := by
        simp [Leaderboard.mem_linesOf, (Leaderboard.mem_linesOf.mp held).1]
      rw [owner]

end

end WindowBoard

end Braidcast.Overlay
