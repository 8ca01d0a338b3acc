import Braidcast.Overlay.LeaderboardLedger

/-!
# The windowed counts

A render counts the stamps it leaves, so a row is right exactly where no stamp out of the window
stood behind one in it. Messages that come in the order of their times leave no such stamp;
nothing in the code brings them into that order.
-/
namespace Braidcast.Overlay

open Lib

namespace WindowBoard

variable {toLowerCase : String → String} {f : BoardFields} {b b' : WindowBoard} {m : ChatFrame} {ts : Option ℚ} {now level cutoff stamp : ℚ}
  {op : ModerationOp} {events : List WindowEvent} {event : WindowEvent} {key : String} {entry : String × Nat} {row : Chatter} {i : Nat}

theorem stampsOf_some (found : b.board.find key = some i) : b.stampsOf key = b.stamps i := by
  unfold stampsOf
  rw [found]

theorem stampsOf_none (absent : b.board.find key = none) : b.stampsOf key = [] := by
  unfold stampsOf
  rw [absent]

theorem stampsFrom_append (key : String) (events later : List WindowEvent) :
    stampsFrom toLowerCase key (events ++ later) = stampsFrom toLowerCase key events ++ stampsFrom toLowerCase key later :=
  List.filterMap_append

/-- What a counted message leaves: one line and one stamp more for its chatter. -/
structure Noted (b : WindowBoard) (key : String) (stamp : ℚ) (i : Nat) (b' : WindowBoard) : Prop where
  rows : b'.board.Rows []
  here : (key, i) ∈ b'.board.chatters
  old : ∀ entry ∈ b'.board.chatters, entry.2 ≠ i → entry ∈ b.board.chatters
  bare : b.board.find key = some i ∨ b.board.find key = none ∧ b.board.linesOf i = []
  stampOf : b'.stampOf = Function.update b.stampOf b.board.store.made stamp
  stamps : b'.stamps = Function.update b.stamps i (b.stampsOf key ++ [stamp])
  linesOf : ∀ j, b'.board.linesOf j = if j = i then b.board.linesOf j ++ [b.board.store.made] else b.board.linesOf j

theorem noted (rows : b.board.Rows []) (listed : b.board.Listed) (roomy : b.board.Roomy toLowerCase m)
    (named : trim m.authorName ≠ "") (few : (b.stampsOf (m.key toLowerCase)).length < MAX_STAMPS) :
    ∃ i, b.Noted (m.key toLowerCase) (ts.getD now) i (b.note toLowerCase m ts now) := by
  let r := b.board.chatterOf (m.key toLowerCase) (Leaderboard.platformOf toLowerCase m.platform) (trim m.authorName)
  have placed : b.board.Placed (m.key toLowerCase) r.2 r.1 := rows.placed ..
  have found : r.1.Rows [r.2] := (rows.chatterOf listed).1
  have short : ¬ MAX_STAMPS < (b.stampsOf (m.key toLowerCase) ++ [ts.getD now]).length := by
    rw [List.length_append, List.length_singleton]
    omega
  have note : b.note toLowerCase m ts now =
      { board := r.1.counted r.2 (trim m.authorName) m.identity
        stampOf := Function.update b.stampOf b.board.store.made (ts.getD now)
        stamps := Function.update b.stamps r.2 (b.stampsOf (m.key toLowerCase) ++ [ts.getD now]) } := by
    unfold WindowBoard.note
    dsimp only
    rw [if_neg named, if_neg short, roomy.note named]
    rfl
  rw [note]
  refine ⟨r.2, ?_, placed.here, placed.old, placed.bare, rfl, rfl, fun j => ?_⟩
  · have rows' := (rows.note listed toLowerCase m).1
    rwa [roomy.note named] at rows'
  · have same : r.1.linesOf j = b.board.linesOf j := by
      unfold Leaderboard.linesOf
      rw [placed.store]
    dsimp only
    rw [Leaderboard.counted_linesOf found, same, placed.store]

theorem Noted.agrees (noted : b.Noted key stamp i b') (rows : b.board.Rows []) (agrees : ∀ entry ∈ b.board.chatters, b.Agrees level entry.2)
    (member : entry ∈ b'.board.chatters) : b'.Agrees level entry.2 := by
  -- the lines there were keep their stamps
  have kept (j : Nat) : (b.board.linesOf j).map b'.stampOf = (b.board.linesOf j).map b.stampOf := by
    refine List.map_congr_left fun l mine => ?_
    rw [noted.stampOf, Function.update_of_ne (Nat.ne_of_lt (rows.store.lt_made (Leaderboard.mem_linesOf.mp mine).1))]
  unfold WindowBoard.Agrees
  rw [noted.linesOf, noted.stamps]
  by_cases own : entry.2 = i
  · rw [if_pos own, own, Function.update_self, List.map_append, kept, List.map_singleton, noted.stampOf, Function.update_self]
    refine Agree.push ?_ stamp
    rcases noted.bare with found | ⟨absent, bare⟩
    · rw [stampsOf_some found]
      exact agrees (key, i) (rows.find_eq.mp found)
    · rw [stampsOf_none absent, bare]
      exact fun _ _ => rfl
  · rw [if_neg own, Function.update_of_ne own, kept]
    exact agrees entry (noted.old entry member own)

theorem stampsOf_times (rows : b.board.Rows [])
    (times : ∀ entry ∈ b.board.chatters, (b.stamps entry.2).Sublist (stampsFrom toLowerCase entry.1 events)) (key : String) :
    (b.stampsOf key).Sublist (stampsFrom toLowerCase key events) := by
  cases found : b.board.find key with
  | some i =>
    rw [stampsOf_some found]
    exact times (key, i) (rows.find_eq.mp found)
  | none =>
    rw [stampsOf_none found]
    exact List.nil_sublist _

/-- A chatter's stamps are times of its row's messages, in the order these came. -/
theorem Noted.times (noted : b.Noted (m.key toLowerCase) (ts.getD now) i b') (rows : b.board.Rows []) (named : trim m.authorName ≠ "")
    (times : ∀ entry ∈ b.board.chatters, (b.stamps entry.2).Sublist (stampsFrom toLowerCase entry.1 events))
    (member : entry ∈ b'.board.chatters) :
    (b'.stamps entry.2).Sublist (stampsFrom toLowerCase entry.1 (events ++ [.chat m ts now])) := by
  rw [stampsFrom_append, noted.stamps]
  by_cases own : entry.2 = i
  · have keyed : entry.1 = m.key toLowerCase := by rw [noted.rows.entry_eq member noted.here own]
    have here : stampsFrom toLowerCase entry.1 [.chat m ts now] = [ts.getD now] := by
      simp [stampsFrom, named, keyed]
    rw [own, Function.update_self]
    rw [here]
    rw [keyed]
    exact (stampsOf_times rows times _).append (.refl _)
  · rw [Function.update_of_ne own]
    exact (times entry (noted.old entry member own)).trans (List.sublist_append_left ..)

/-- What holds after the events, at a level no prune has gone past. -/
structure Kept (toLowerCase : String → String) (level : ℚ) (events : List WindowEvent) (b : WindowBoard) : Prop where
  rows : b.board.Rows []
  listed : b.board.Listed
  heard : b.heard = said toLowerCase events
  agrees : ∀ entry ∈ b.board.chatters, b.Agrees level entry.2
  times : ∀ entry ∈ b.board.chatters, (b.stamps entry.2).Sublist (stampsFrom toLowerCase entry.1 events)

theorem said_concat (events : List WindowEvent) (event : WindowEvent) :
    said toLowerCase (events ++ [event]) = event.hear toLowerCase (said toLowerCase events) := List.foldl_concat ..

/-- Times of earlier events stay times. -/
theorem Kept.later (kept : b.Kept toLowerCase level events) (event : WindowEvent) (member : entry ∈ b.board.chatters) :
    (b.stamps entry.2).Sublist (stampsFrom toLowerCase entry.1 (events ++ [event])) := by
  rw [stampsFrom_append]
  exact (kept.times entry member).trans (List.sublist_append_left ..)

theorem Kept.few (kept : b.Kept toLowerCase level events) (few : ∀ key, (stampsFrom toLowerCase key events).length < MAX_STAMPS)
    (key : String) : (b.stampsOf key).length < MAX_STAMPS :=
  (stampsOf_times kept.rows kept.times key).length_le.trans_lt (few key)

/-- Moderation brings no chatter onto the board. -/
theorem uncount_chatters (rows : b.board.Rows []) (listed : b.board.Listed)
    (member : entry ∈ (b.board.uncount toLowerCase op).chatters) : entry ∈ b.board.chatters := by
  cases action : op.action with
  | all =>
    rw [Leaderboard.uncount_all action] at member
    exact member
  | message =>
    have off : b.board.Delisted _ (b.board.uncount toLowerCase op) := (rows.uncount_message listed action).2.2
    exact ((off.chatters entry).mp member).1
  | user =>
    cases found : b.board.find (Leaderboard.opKey toLowerCase op) with
    | none =>
      rw [Leaderboard.uncount_none action found] at member
      exact member
    | some i =>
      obtain ⟨-, -, banned⟩ := rows.uncount_user listed action found
      exact ((banned.chatters entry).mp member).1

theorem render_board (f : BoardFields) (b : WindowBoard) (now : ℚ) :
    (b.render f now).1.board = b.board ∧ (b.render f now).1.stampOf = b.stampOf := by
  unfold render
  dsimp only
  split <;> exact ⟨rfl, rfl⟩

theorem pruneStamps_stamps (cutoff : ℚ) (member : entry ∈ b.board.chatters) :
    (b.pruneStamps cutoff).stamps entry.2 = prune cutoff (b.stamps entry.2) := by
  have there : b.board.chatters.any (fun e => e.2 = entry.2) = true :=
    List.any_eq_true.mpr ⟨entry, member, decide_eq_true rfl⟩
  unfold pruneStamps
  exact if_pos there

/-- A render with a window leaves each chatter on the board what a prune of its stamps leaves. -/
theorem render_stamps (windowed : 0 < f.cutoff now) (member : entry ∈ b.board.chatters) :
    (b.render f now).1.stamps entry.2 = prune (f.cutoff now) (b.stamps entry.2) := by
  rw [← pruneStamps_stamps (f.cutoff now) member]
  unfold render
  dsimp only
  rw [decide_eq_true windowed, if_pos rfl]

/-- Without one it leaves the stamps alone. -/
theorem render_whole (whole : ¬ 0 < f.cutoff now) (b : WindowBoard) : (b.render f now).1 = b := by
  unfold render
  dsimp only
  rw [decide_eq_false whole]
  exact if_neg Bool.false_ne_true

/-- No line and no chatter is evicted on the event. -/
def Unevicted (toLowerCase : String → String) (b : WindowBoard) : WindowEvent → Prop
  | .chat m _ _ => trim m.authorName ≠ "" → b.board.Roomy toLowerCase m
  | _ => True

instance (toLowerCase : String → String) (b : WindowBoard) : (event : WindowEvent) → Decidable (b.Unevicted toLowerCase event)
  | .chat m _ _ => inferInstanceAs (Decidable (trim m.authorName ≠ "" → b.board.Roomy toLowerCase m))
  | .moderation _ | .streamEnded | .render _ => isTrue trivial

theorem Kept.react (kept : b.Kept toLowerCase level events) (unevicted : b.Unevicted toLowerCase event)
    (few : ∀ key, (stampsFrom toLowerCase key events).length < MAX_STAMPS)
    (clock : ∀ now, event = .render now → 0 < f.cutoff now → f.cutoff now ≤ level) :
    (b.react toLowerCase f event).Kept toLowerCase level (events ++ [event]) := by
  cases event with
  | chat m ts now =>
    change (b.note toLowerCase m ts now).Kept toLowerCase level (events ++ [.chat m ts now])
    by_cases named : trim m.authorName = ""
    · have same : b.note toLowerCase m ts now = b := by
        unfold note
        exact if_pos named
      rw [same]
      refine ⟨kept.rows, kept.listed, ?_, kept.agrees, fun entry member => kept.later _ member⟩
      rw [said_concat, hear_nameless named]
      exact kept.heard
    · have roomy : b.board.Roomy toLowerCase m := unevicted named
      have few := kept.few few (m.key toLowerCase)
      obtain ⟨i, noted⟩ : ∃ i, b.Noted (m.key toLowerCase) (ts.getD now) i (b.note toLowerCase m ts now) :=
        noted kept.rows kept.listed roomy named few
      refine ⟨noted.rows, ?_, ?_, fun entry member => noted.agrees kept.rows kept.agrees member,
        fun entry member => noted.times kept.rows named kept.times member⟩
      · have listed := (kept.rows.note kept.listed toLowerCase m).2
        unfold note
        dsimp only
        rw [if_neg named]
        exact listed
      · rw [said_concat, hear_chat named, ← kept.heard]
        exact heard_note kept.rows roomy named
  | moderation op =>
    obtain ⟨rows, listed⟩ : (b.board.react toLowerCase (.moderation op)).Rows [] ∧ (b.board.react toLowerCase (.moderation op)).Listed :=
      kept.rows.react kept.listed _
    have board : (b.uncount toLowerCase op).board = b.board.uncount toLowerCase op := uncount_board
    have before (entry) (member : entry ∈ (b.uncount toLowerCase op).board.chatters) : entry ∈ b.board.chatters := by
      rw [board] at member
      exact uncount_chatters kept.rows kept.listed member
    change (b.uncount toLowerCase op).Kept toLowerCase level (events ++ [.moderation op])
    refine ⟨?_, ?_, ?_, fun entry member => uncount_agrees kept.rows kept.listed (kept.agrees entry (before entry member)),
      fun entry member => (uncount_thins.stamps entry.2).trans (kept.later _ (before entry member))⟩
    · rw [board]
      exact rows
    · rw [board]
      exact listed
    · rw [said_concat, ← kept.heard]
      exact heard_uncount kept.rows kept.listed
  | streamEnded =>
    obtain ⟨rows, listed⟩ : (b.board.react toLowerCase .streamEnded).Rows [] ∧ (b.board.react toLowerCase .streamEnded).Listed :=
      kept.rows.react kept.listed _
    refine ⟨rows, listed, ?_, fun entry member => (nomatch member), fun entry member => (nomatch member)⟩
    rw [said_concat]
    rfl
  | render now =>
    obtain ⟨board, stampOf⟩ := render_board f b now
    change (b.render f now).1.Kept toLowerCase level (events ++ [.render now])
    by_cases windowed : 0 < f.cutoff now
    · refine ⟨?_, ?_, ?_, fun entry member => ?_, fun entry member => ?_⟩
      · rw [board]
        exact kept.rows
      · rw [board]
        exact kept.listed
      · rw [said_concat, ← kept.heard]
        unfold WindowBoard.heard saidBy
        rw [board, stampOf]
        rfl
      all_goals rw [board] at member
      · unfold Agrees
        rw [board, stampOf, render_stamps windowed member]
        exact (kept.agrees entry member).prune (clock now rfl windowed)
      · rw [render_stamps windowed member]
        exact prune_sublist.trans (kept.later _ member)
    · rw [render_whole windowed]
      refine ⟨kept.rows, kept.listed, ?_, kept.agrees, fun entry member => kept.later _ member⟩
      rw [said_concat]
      exact kept.heard

theorem kept_run {moments : List (Moment WindowBoard WindowEvent)}
    (run : Run (fun b event b' => b.react toLowerCase f event = b') initial moments b)
    (few : ∀ key, (stampsFrom toLowerCase key (moments.map Moment.input)).length < MAX_STAMPS)
    (unevicted : ∀ m ∈ moments, m.before.Unevicted toLowerCase m.input)
    (clock : ∀ m ∈ moments, ∀ now, m.input = .render now → 0 < f.cutoff now → f.cutoff now ≤ level) :
    b.Kept toLowerCase level (moments.map Moment.input) := by
  induction moments using List.reverseRecOn generalizing b with
  | nil =>
    cases run
    exact ⟨(Leaderboard.bare_rows ..).1, (Leaderboard.bare_rows ..).2, rfl, fun _ member => (nomatch member), fun _ member => (nomatch member)⟩
  | append_singleton earlier m ih =>
    obtain ⟨_, first, last⟩ := Run.append_iff.mp run
    obtain ⟨rfl, step, done⟩ := Run.cons_iff.mp last
    cases done
    rw [List.map_append, List.map_singleton] at few ⊢
    -- what has come so far is no more than what comes in all
    have fewer (key : String) : (stampsFrom toLowerCase key (earlier.map Moment.input)).length < MAX_STAMPS := by
      have all := few key
      rw [stampsFrom_append, List.length_append] at all
      exact Nat.lt_of_le_of_lt (Nat.le_add_right ..) all
    have kept := ih first fewer (fun m' member => unevicted m' (List.mem_append_left _ member))
      fun m' member => clock m' (List.mem_append_left _ member)
    have here : m ∈ earlier ++ [m] := by simp
    rw [← step]
    exact kept.react (unevicted m here) fewer (clock m here)

/-- The ledger of a row in the window is counted by its chatter's live lines. -/
theorem since_heard (rows : b.board.Rows []) (member : entry ∈ b.board.chatters) :
    since cutoff entry.1 b.heard = ((b.board.linesOf entry.2).map b.stampOf).countP (cutoff ≤ ·) := by
  unfold since heard Leaderboard.linesOf
  rw [List.countP_map, List.countP_map, List.countP_filter]
  refine List.countP_congr fun l live => ?_
  have same := rows.key_eq_iff live member
  simp only [Function.comp_apply, saidBy, Bool.and_eq_true, decide_eq_true_eq, same, and_comm]
  exact and_congr_right fun _ => decide_eq_true_iff

/-- A row drawn is a chatter of the board with what a prune leaves of its stamps. -/
theorem drawn_row (rows : b.board.Rows []) (windowed : 0 < f.cutoff now) (drawn : row ∈ (b.render f now).2) :
    ∃ entry ∈ b.board.chatters, row.key = entry.1 ∧ row.count = (prune (f.cutoff now) (b.stamps entry.2)).length := by
  unfold render at drawn
  dsimp only at drawn
  rw [decide_eq_true windowed, if_pos rfl] at drawn
  have listed := (List.perm_insertionSort ..).mem_iff.mp (List.mem_of_mem_take drawn)
  obtain ⟨entry, member, rfl⟩ := List.mem_map.mp (List.mem_filter.mp listed).1
  refine ⟨entry, member, rows.key entry member, ?_⟩
  have left : (b.pruneStamps (f.cutoff now)).stamps entry.2 = prune (f.cutoff now) (b.stamps entry.2) :=
    pruneStamps_stamps (f.cutoff now) member
  rw [← left]
  rfl

/-- A row is right just where nothing out of the window stood behind something in it. -/
theorem Kept.row_iff (kept : b.Kept toLowerCase (f.cutoff now) events) (windowed : 0 < f.cutoff now) (drawn : row ∈ (b.render f now).2) :
    row.count = since (f.cutoff now) row.key (said toLowerCase events) ↔ Straight (f.cutoff now) (b.stampsOf row.key) := by
  obtain ⟨entry, member, keyed, count⟩ := drawn_row kept.rows windowed drawn
  have found : b.board.find entry.1 = some entry.2 := kept.rows.find_eq.mpr member
  have window : since (f.cutoff now) entry.1 (said toLowerCase events) = (b.stamps entry.2).countP (f.cutoff now ≤ ·) := by
    rw [← kept.heard, since_heard kept.rows member]
    exact (kept.agrees entry member).countP_eq.symm
  rw [keyed, stampsOf_some found, count, window, Int.natCast_inj]
  exact length_prune_iff

/-- A row whose messages came in the order of their times has its stamps straight. -/
theorem Kept.straight (kept : b.Kept toLowerCase level events)
    (sorted : (stampsFrom toLowerCase key events).Pairwise (· ≤ ·)) (cutoff : ℚ) : Straight cutoff (b.stampsOf key) :=
  (straight_of_sorted sorted cutoff).sublist (stampsOf_times kept.rows kept.times key)

/-- Cutoffs move with the clock. -/
theorem cutoff_le {now' : ℚ} (later : now' ≤ now) : f.cutoff now' ≤ f.cutoff now := by
  unfold BoardFields.cutoff
  split
  · exact sub_le_sub_right later _
  · exact le_refl _

theorem few_of_length (short : events.length < MAX_STAMPS) (key : String) : (stampsFrom toLowerCase key events).length < MAX_STAMPS :=
  Nat.lt_of_le_of_lt (List.length_filterMap_le ..) short

/-- A render's count of a row is the number of its messages in the window that were not taken back
exactly where none of the stamps still kept for it is out of the window behind one that is in it;
that is so whenever the row's messages came in the order of their times. -/
theorem windowed_iff {moments earlier later : List (Moment WindowBoard WindowEvent)} {m : Moment WindowBoard WindowEvent}
    (run : Run (fun b event b' => b.react toLowerCase f event = b') initial moments b)
    (few : ∀ key, (stampsFrom toLowerCase key (moments.map Moment.input)).length < MAX_STAMPS)
    (unevicted : ∀ m ∈ moments, m.before.Unevicted toLowerCase m.input)
    (clock : (moments.filterMap fun m => m.input.clock).Pairwise (· ≤ ·))
    (split : moments = earlier ++ m :: later) (input : m.input = .render now) (windowed : 0 < f.cutoff now)
    (drawn : row ∈ (m.before.render f now).2) :
    (row.count = since (f.cutoff now) row.key (said toLowerCase (earlier.map Moment.input)) ↔
        Straight (f.cutoff now) (m.before.stampsOf row.key)) ∧
      ((stampsFrom toLowerCase row.key (earlier.map Moment.input)).Pairwise (· ≤ ·) →
        Straight (f.cutoff now) (m.before.stampsOf row.key)) := by
  subst split
  obtain ⟨_, first, rest⟩ := Run.append_iff.mp run
  obtain ⟨rfl, -, -⟩ := Run.cons_iff.mp rest
  have fewer (key : String) : (stampsFrom toLowerCase key (earlier.map Moment.input)).length < MAX_STAMPS := by
    have all := few key
    rw [List.map_append, stampsFrom_append, List.length_append] at all
    exact Nat.lt_of_le_of_lt (Nat.le_add_right ..) all
  have clocks (m') (member : m' ∈ earlier) (now') (rendered : m'.input = .render now') : f.cutoff now' ≤ f.cutoff now := by
    rw [List.filterMap_append, List.pairwise_append] at clock
    refine cutoff_le (clock.2.2 now' (List.mem_filterMap.mpr ⟨m', member, ?_⟩) now (List.mem_filterMap.mpr ⟨m, List.mem_cons_self, ?_⟩))
    · rw [rendered]
      rfl
    · rw [input]
      rfl
  have kept : m.before.Kept toLowerCase (f.cutoff now) (earlier.map Moment.input) :=
    kept_run first fewer (fun m' member => unevicted m' (List.mem_append_left _ member))
      fun m' member now' rendered _ => clocks m' member now' rendered
  exact ⟨kept.row_iff windowed drawn, fun sorted => kept.straight sorted _⟩

/-- A render at 60005 sees what was said from 5 on. -/
def lastMinute : BoardFields := ⟨1, 1, 5, by decide, by decide, by decide⟩

/-- Two messages of one chatter. -/
def twoSaid (first second : ℚ) : List WindowEvent :=
  [.chat (Leaderboard.helloFrom "7") (some first) 0, .chat (Leaderboard.helloFrom "7") (some second) 0]

theorem twoSaid_split (first second : ℚ) : ∃ m : Moment WindowBoard WindowEvent,
    trace (WindowBoard.react String.toLower lastMinute) initial (twoSaid first second ++ [.render 60005]) =
        trace (WindowBoard.react String.toLower lastMinute) initial (twoSaid first second) ++ m :: [] ∧
      m.before = (twoSaid first second).foldl (WindowBoard.react String.toLower lastMinute) initial ∧ m.input = .render 60005 :=
  ⟨⟨_, _, _⟩, rfl, rfl, rfl⟩

theorem windowed_iff_inOrder :
    ∃ row ∈ (((twoSaid 3 10).foldl (WindowBoard.react String.toLower lastMinute) initial).render lastMinute 60005).2,
      row.count = 1 ∧ row.count = since (lastMinute.cutoff 60005) row.key (said String.toLower (twoSaid 3 10)) := by
  obtain ⟨m, split, before, input⟩ := twoSaid_split 3 10
  have shown : (((twoSaid 3 10).foldl (WindowBoard.react String.toLower lastMinute) initial).render lastMinute 60005).2.any
      (fun row => row.count = 1 ∧ (stampsFrom String.toLower row.key (twoSaid 3 10)).Pairwise (· ≤ ·)) = true := by
    decide +kernel
  obtain ⟨row, drawn, facts⟩ := List.any_eq_true.mp shown
  obtain ⟨count, sorted⟩ := of_decide_eq_true facts
  obtain ⟨right, straight⟩ := windowed_iff (run_trace _ initial (twoSaid 3 10 ++ [.render 60005])) (few_of_length (by decide))
    (by decide +kernel) (by decide +kernel) split input (by decide +kernel) (before ▸ drawn)
  exact ⟨row, drawn, count, right.mpr (straight sorted)⟩

/-- The message that came second is older than the window, and stands behind one that is not. -/
theorem not_windowed : ∃ (moments earlier later : List (Moment WindowBoard WindowEvent)) (m : Moment WindowBoard WindowEvent)
    (b : WindowBoard), Run (fun b event b' => b.react String.toLower lastMinute event = b') initial moments b ∧
      (∀ key, (stampsFrom String.toLower key (moments.map Moment.input)).length < MAX_STAMPS) ∧
      (∀ m ∈ moments, m.before.Unevicted String.toLower m.input) ∧
      (moments.filterMap fun m => m.input.clock).Pairwise (· ≤ ·) ∧
      moments = earlier ++ m :: later ∧ m.input = .render 60005 ∧ 0 < lastMinute.cutoff 60005 ∧
      ∃ row ∈ (m.before.render lastMinute 60005).2,
        row.count = 2 ∧ since (lastMinute.cutoff 60005) row.key (said String.toLower (earlier.map Moment.input)) = 1 := by
  obtain ⟨m, split, before, input⟩ := twoSaid_split 10 3
  have shown : (((twoSaid 10 3).foldl (WindowBoard.react String.toLower lastMinute) initial).render lastMinute 60005).2.any
      (fun row => row.count = 2 ∧ since (lastMinute.cutoff 60005) row.key (said String.toLower (twoSaid 10 3)) = 1) = true := by
    decide +kernel
  obtain ⟨row, drawn, facts⟩ := List.any_eq_true.mp shown
  refine ⟨_, trace (WindowBoard.react String.toLower lastMinute) initial (twoSaid 10 3), [], m, _,
    run_trace _ initial (twoSaid 10 3 ++ [.render 60005]), few_of_length (by decide), by decide +kernel, by decide +kernel,
    split, input, by decide +kernel, row, before ▸ drawn, of_decide_eq_true facts⟩

end WindowBoard

end Braidcast.Overlay
