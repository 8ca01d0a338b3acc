import Mathlib.Algebra.Order.BigOperators.Group.List
import Mathlib.Algebra.Order.Group.Nat
import Braidcast.Lib.Run
import Braidcast.Overlay.LeaderboardBans

/-!
# The tallies over a whole stream

The board's counts agree with its lines and tallies after any events. A delete takes off exactly
what it names. A ban goes through one row only, the one its platform and author id lead to.
-/
namespace Braidcast.Overlay

open Lib

inductive BoardEvent
  | chat (m : ChatFrame)
  | moderation (op : ModerationOp)
  | streamEnded

namespace Leaderboard

variable {toLowerCase : String → String} {b b' : Leaderboard} {i : Nat} {op : ModerationOp}

def react (toLowerCase : String → String) (b : Leaderboard) : BoardEvent → Leaderboard
  | .chat m => b.note toLowerCase m
  | .moderation op => b.uncount toLowerCase op
  | .streamEnded => b.clear

/-- One message in five structures: the counts, the chatters' lists, the order, the chains of the
message ids and the tallies. -/
structure Exact (b : Leaderboard) : Prop where
  count : ∀ entry ∈ b.chatters, (b.made entry.2).count = (b.made entry.2).lines.length + (b.made entry.2).tallied
  positive : ∀ entry ∈ b.chatters, 0 < (b.made entry.2).count
  fair : ∀ entry ∈ b.chatters, (b.made entry.2).Fair
  liveLines : b.store.liveLines = b.store.live.length
  nodup : b.store.live.Nodup
  held : ∀ line, line ∈ b.store.live ↔ ∃ entry ∈ b.chatters, line ∈ (b.made entry.2).lines
  inOrder : ∀ entry ∈ b.chatters, (b.made entry.2).lines = b.store.live.filter fun line => (b.store.lines line).chatter = entry.2
  blank : b.store.linesById "" = none
  first : ∀ id, id ≠ "" → b.store.linesById id = (b.store.chain id).head?
  linked : ∀ id, id ≠ "" → Linked b.store.sameId (b.store.chain id)

theorem Rows.exact (rows : b.Rows []) (listed : b.Listed) : b.Exact where
  count entry member := by
    rw [listed entry member]
    exact rows.count entry member
  positive entry member := rows.positive entry member List.not_mem_nil
  fair := rows.fair
  liveLines := rows.store.count
  nodup := rows.store.live_nodup
  held line := by
    constructor
    · intro live
      obtain ⟨entry, member, same⟩ := rows.owned line live
      refine ⟨entry, member, ?_⟩
      rw [listed entry member]
      exact mem_linesOf.mpr ⟨live, same.symm⟩
    · rintro ⟨entry, member, mine⟩
      rw [listed entry member] at mine
      exact (mem_linesOf.mp mine).1
  inOrder := listed
  blank := (rows.store.first "").trans (if_pos rfl)
  first id some := (rows.store.first id).trans (if_neg some)
  linked := rows.store.linked

/-- A board without chatters, whatever was made before. -/
theorem bare_rows (lines : Nat → BoardLine) (count seq : Nat) (made : Nat → Chatter) :
    (⟨⟨lines, count, [], 0, 0, fun _ => none⟩, made, [], seq⟩ : Leaderboard).Rows [] ∧
      (⟨⟨lines, count, [], 0, 0, fun _ => none⟩, made, [], seq⟩ : Leaderboard).Listed := by
  refine ⟨⟨⟨List.nodup_nil, ?_, Nat.le_refl _, rfl, fun id => ?_, fun id _ => trivial⟩, List.nodup_nil, List.nodup_nil, ?_, ?_, ?_, ?_,
    ?_, ?_⟩, ?_⟩
  · exact fun line member => nomatch member
  · split <;> rfl
  all_goals exact fun entry member => nomatch member

theorem Rows.react (rows : b.Rows []) (listed : b.Listed) (event : BoardEvent) :
    (b.react toLowerCase event).Rows [] ∧ (b.react toLowerCase event).Listed := by
  cases event with
  | chat m => exact rows.note listed toLowerCase m
  | streamEnded => exact bare_rows ..
  | moderation op =>
    change (b.uncount toLowerCase op).Rows [] ∧ (b.uncount toLowerCase op).Listed
    cases action : op.action with
    | all =>
      rw [uncount_all action]
      exact ⟨rows, listed⟩
    | message =>
      obtain ⟨rows', listed', _⟩ := rows.uncount_message listed action
      exact ⟨rows', listed'⟩
    | user =>
      cases found : b.find (opKey toLowerCase op) with
      | none =>
        rw [uncount_none action found]
        exact ⟨rows, listed⟩
      | some i =>
        obtain ⟨rows', listed', _⟩ := rows.uncount_user listed action found
        exact ⟨rows', listed'⟩

/-- A line or tally that the op names is on the board, evicted or not. -/
def StillCounts (b : Leaderboard) (op : ModerationOp) : Prop :=
  (∃ line ∈ b.store.live, op.removes (b.store.identity line) = true) ∨
    ∃ entry ∈ b.chatters, ∃ tally ∈ (b.made entry.2).evicted,
      op.removes tally.2.identity = true ∨ ∃ identity ∈ tally.2.folded, op.removes identity = true

/-- Whatever the op names is in the row it is looked for in, and a tally with a line it names is
one it names. -/
structure Reached (toLowerCase : String → String) (b : Leaderboard) (op : ModerationOp) : Prop where
  lines : ∀ entry ∈ b.chatters, ∀ line ∈ (b.made entry.2).lines, op.removes (b.store.identity line) = true → entry.1 = opKey toLowerCase op
  tallies : ∀ entry ∈ b.chatters, ∀ tally ∈ (b.made entry.2).evicted, op.removes tally.2.identity = true → entry.1 = opKey toLowerCase op
  folded : ∀ entry ∈ b.chatters, ∀ tally ∈ (b.made entry.2).evicted, ∀ identity ∈ tally.2.folded, op.removes identity = true →
    entry.1 = opKey toLowerCase op ∧ op.removes tally.2.identity = true

/-- A chatter that is not the one found keeps what it has. -/
theorem Banned.others (banned : b.Banned i op b') (rows : b.Rows []) {entry : String × Nat} (member : entry ∈ b.chatters)
    (other : entry.2 ≠ i) : entry ∈ b'.chatters ∧ (b'.made entry.2).evicted = (b.made entry.2).evicted ∧
      b'.linesOf entry.2 = b.linesOf entry.2 := by
  have evicted : (b'.made entry.2).evicted = (b.made entry.2).evicted := (banned.evicted entry.2).trans (if_neg other)
  have lines : b'.linesOf entry.2 = b.linesOf entry.2 := by
    rw [linesOf_filter banned.live banned.chatter]
    refine List.filter_eq_self.mpr fun l mine => ?_
    simp [(mem_linesOf.mp mine).2, other]
  refine ⟨(banned.chatters entry).mpr ⟨member, ?_⟩, evicted, lines⟩
  have before := rows.count entry member
  have positive := rows.positive entry member List.not_mem_nil
  rw [banned.count entry member, lines]
  unfold Chatter.tallied at before ⊢
  rw [evicted]
  omega

theorem Banned.reached (banned : b.Banned i op b') (rows : b.Rows []) (listed : b.Listed)
    (found : b.find (opKey toLowerCase op) = some i) (gone : ¬ b'.StillCounts op) : b.Reached toLowerCase op := by
  have row := rows.find_eq.mp found
  have keyed {entry : String × Nat} (member : entry ∈ b.chatters) (same : entry.2 = i) : entry.1 = opKey toLowerCase op := by
    rw [rows.entry_eq member row same]
  refine ⟨fun entry member line mine named => ?_, fun entry member tally held named => ?_,
    fun entry member tally held identity folded named => ?_⟩
  · by_contra apart
    have other : entry.2 ≠ i := fun same => apart (keyed member same)
    rw [listed entry member, ← (banned.others rows member other).2.2] at mine
    refine gone (.inl ⟨line, (mem_linesOf.mp mine).1, ?_⟩)
    rw [banned.identity]
    exact named
  · by_contra apart
    obtain ⟨stays, evicted, _⟩ := banned.others rows member fun same => apart (keyed member same)
    exact gone (.inr ⟨entry, stays, tally, evicted ▸ held, .inl named⟩)
  · by_contra missed
    by_cases same : entry.2 = i
    · have unnamed : op.removes tally.2.identity = false := eq_false_of_ne_true fun whole => missed ⟨keyed member same, whole⟩
      have left : tally ∈ (b'.made entry.2).evicted := by
        rw [banned.evicted, if_pos same, ← same]
        exact List.mem_filter.mpr ⟨held, by rw [unnamed]; rfl⟩
      -- a tally that is left has the line named in its count
      have counts : 0 < (b'.made entry.2).tallied := by
        have own : tally.2.count ∈ (b'.made entry.2).evicted.map fun entry => entry.2.count := List.mem_map_of_mem left
        have more := List.le_sum_of_mem own
        rw [rows.fair entry member tally held] at more
        exact Nat.lt_of_lt_of_le (List.length_pos_of_mem folded) more
      have stays : entry ∈ b'.chatters := by
        rw [banned.chatters, banned.count entry member]
        exact ⟨member, by omega⟩
      exact gone (.inr ⟨entry, stays, tally, left, .inr ⟨identity, folded, named⟩⟩)
    · obtain ⟨stays, evicted, _⟩ := banned.others rows member same
      exact gone (.inr ⟨entry, stays, tally, evicted ▸ held, .inr ⟨identity, folded, named⟩⟩)

theorem Banned.gone (banned : b.Banned i op b') (rows : b.Rows []) (listed : b.Listed)
    (found : b.find (opKey toLowerCase op) = some i) (reached : b.Reached toLowerCase op) : ¬ b'.StillCounts op := by
  have row := rows.find_eq.mp found
  have home {entry : String × Nat} (member : entry ∈ b.chatters) (same : entry.1 = opKey toLowerCase op) : entry.2 = i := by
    rw [rows.key_inj member row same]
  rintro (⟨line, live, named⟩ | ⟨entry, member, tally, held, named⟩)
  · rw [banned.identity] at named
    rw [banned.live, List.mem_filter, named] at live
    obtain ⟨before, stays⟩ := live
    obtain ⟨entry, member, same⟩ := rows.owned line before
    have mine : line ∈ (b.made entry.2).lines := by
      rw [listed entry member]
      exact mem_linesOf.mpr ⟨before, same.symm⟩
    have here := home member (reached.lines entry member line mine named)
    simp [← same, here] at stays
  · have before := ((banned.chatters entry).mp member).1
    rw [banned.evicted] at held
    split at held
    next same =>
      obtain ⟨old, unnamed⟩ := List.mem_filter.mp held
      rw [← same] at old
      have whole : op.removes tally.2.identity = true := by
        rcases named with whole | ⟨identity, folded, named⟩
        · exact whole
        · exact (reached.folded entry before tally old identity folded named).2
      rw [whole] at unnamed
      cases unnamed
    next other =>
      rcases named with whole | ⟨identity, folded, named⟩
      · exact other (home before (reached.tallies entry before tally held whole))
      · exact other (home before (reached.folded entry before tally held identity folded named).1)

/-- A ban leaves nothing it names exactly where it reaches all of it. -/
theorem Rows.ban_iff (rows : b.Rows []) (listed : b.Listed) (user : op.action = .user) :
    ¬ (b.uncount toLowerCase op).StillCounts op ↔ b.Reached toLowerCase op := by
  cases found : b.find (opKey toLowerCase op) with
  | some i =>
    obtain ⟨_, _, banned⟩ := rows.uncount_user listed user found
    exact ⟨banned.reached rows listed found, banned.gone rows listed found⟩
  | none =>
    rw [uncount_none user found]
    have nowhere (entry) (member : entry ∈ b.chatters) : entry.1 ≠ opKey toLowerCase op := find_eq_none.mp found entry member
    constructor
    · intro gone
      refine ⟨fun entry member line mine named => ?_, fun entry member tally held named => ?_,
        fun entry member tally held identity folded named => ?_⟩
      · rw [listed entry member] at mine
        exact absurd (.inl ⟨line, (mem_linesOf.mp mine).1, named⟩) gone
      · exact absurd (.inr ⟨entry, member, tally, held, .inl named⟩) gone
      · exact absurd (.inr ⟨entry, member, tally, held, .inr ⟨identity, folded, named⟩⟩) gone
    · rintro reached (⟨line, live, named⟩ | ⟨entry, member, tally, held, whole | ⟨identity, folded, named⟩⟩)
      · obtain ⟨entry, member, same⟩ := rows.owned line live
        refine nowhere entry member (reached.lines entry member line ?_ named)
        rw [listed entry member]
        exact mem_linesOf.mpr ⟨live, same.symm⟩
      · exact nowhere entry member (reached.tallies entry member tally held whole)
      · exact nowhere entry member (reached.folded entry member tally held identity folded named).1

/-- The tallies are exact in every state. A delete takes off exactly the lines it names, and a ban
leaves nothing it names on the board just where all of that was in the row it looks in. -/
theorem tallies_exact {moments : List (Moment Leaderboard BoardEvent)}
    (run : Run (fun b event b' => b.react toLowerCase event = b') initial moments b) :
    b.Exact ∧ ∀ m ∈ moments, m.before.Exact ∧ m.after.Exact ∧
      ∀ op, m.input = .moderation op →
        (op.action = .message → m.before.Delisted (fun line => op.removes (m.before.store.identity line)) m.after) ∧
        (op.action = .user → (¬ m.after.StillCounts op ↔ m.before.Reached toLowerCase op)) := by
  obtain ⟨last, each⟩ := run.invariant (P := fun b => b.Rows [] ∧ b.Listed) (Q := fun _ => True)
    (fun m _ step before => step ▸ before.1.react before.2 m.input) (fun _ _ => trivial) (bare_rows ..)
  refine ⟨last.1.exact last.2, fun m member => ?_⟩
  obtain ⟨⟨rows, listed⟩, rows', listed'⟩ := each m member
  have step : m.before.react toLowerCase m.input = m.after := run.step_of_mem member
  refine ⟨rows.exact listed, rows'.exact listed', fun op input => ?_⟩
  rw [input] at step
  change m.before.uncount toLowerCase op = m.after at step
  rw [← step]
  exact ⟨fun message => (rows.uncount_message listed message).2.2, rows.ban_iff listed⟩

def helloFrom (authorId : String) : ChatFrame := ⟨"twitch", "Bob", ⟨"main", none, "m1", 1, 10, some authorId⟩⟩

def banOf (authorId : String) : ModerationOp := ⟨"twitch", "main", none, .user, none, some authorId, 2, none⟩

theorem tallies_exact_banned :
    ([.chat (helloFrom "7"), .moderation (banOf "7")].foldl (react String.toLower) initial).Exact ∧
      ¬ ([.chat (helloFrom "7"), .moderation (banOf "7")].foldl (react String.toLower) initial).StillCounts (banOf "7") := by
  obtain ⟨last, each⟩ := tallies_exact (run_trace (react String.toLower) initial [.chat (helloFrom "7"), .moderation (banOf "7")])
  obtain ⟨_, _, ops⟩ := each _ (last_mem_trace (react String.toLower) initial [.chat (helloFrom "7")] (.moderation (banOf "7")))
  refine ⟨last, ((ops (banOf "7") rfl).2 rfl).mpr ?_⟩
  have board : (initial.note String.toLower (helloFrom "7")).chatters = [(opKey String.toLower (banOf "7"), 0)] := by
    decide +kernel
  have none : ((initial.note String.toLower (helloFrom "7")).made 0).evicted = [] := List.isEmpty_iff.mp (by decide +kernel)
  change (initial.note String.toLower (helloFrom "7")).Reached String.toLower (banOf "7")
  refine ⟨fun entry member => ?_, fun entry member tally held => ?_, fun entry member tally held => ?_⟩
  all_goals rw [board, List.mem_singleton] at member
  · exact fun _ _ _ => congrArg Prod.fst member
  all_goals
    rw [member, none] at held
    cases held

/-- An author id of blanks: the row is keyed by the name, and the ban looks under no name. -/
theorem not_tallies_exact : ∃ moments b, Run (fun b event b' => b.react String.toLower event = b') initial moments b ∧
    ∃ m ∈ moments, ∃ op, m.input = .moderation op ∧ op.action = .user ∧ op.beforeTs = none ∧ m.after.StillCounts op := by
  refine ⟨_, _, run_trace (react String.toLower) initial [.chat (helloFrom " "), .moderation (banOf " ")], _,
    last_mem_trace (react String.toLower) initial [.chat (helloFrom " ")] (.moderation (banOf " ")), banOf " ", rfl, rfl, rfl, ?_⟩
  change ((initial.note String.toLower (helloFrom " ")).uncount String.toLower (banOf " ")).StillCounts (banOf " ")
  exact .inl ⟨0, by decide +kernel, by decide +kernel⟩

end Leaderboard

end Braidcast.Overlay
