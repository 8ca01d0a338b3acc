import Mathlib.Data.List.Basic

/-!
# Paging by a cursor

Items in strictly descending key are handed out page by page: each request names the oldest
key received so far, and the answer says whether there are older ones. A walk that asks until
there are none has received every item once.
-/
namespace Braidcast.Lib

variable {α : Type} {key : α → Nat} {all : List α} {limit : Nat}

/-- What is left behind the cursor. -/
def behind (key : α → Nat) (all : List α) (before : Option Nat) : List α :=
  all.filter fun x => before.all fun bound => decide (key x < bound)

/-- The answers `ask` gives are the pages of `all`, newest first. -/
structure Pages (key : α → Nat) (all : List α) (limit : Nat) (ask : Option Nat → List α × Bool) : Prop where
  items : ∀ before, (ask before).1 = (behind key all before).take limit
  more : ∀ before, (ask before).2 = true ↔ limit < (behind key all before).length

/-- Ask until there is no more, from the oldest key received. -/
def walk (key : α → Nat) (ask : Option Nat → List α × Bool) : Nat → Option Nat → Option (List α)
  | 0, _ => none
  | fuel + 1, before =>
    if (ask before).2 then
      (walk key ask fuel ((ask before).1.getLast?.map key <|> before)).map ((ask before).1 ++ ·)
    else some (ask before).1

@[simp] theorem behind_none : behind key all none = all := by simp [behind]

/-- Past the first `limit` of a descending list are the items below the last of them. -/
theorem filter_lt_eq_drop (descending : all.Pairwise fun x y => key y < key x) {last : α}
    (here : all[limit]? = some last) : all.filter (fun x => decide (key x < key last)) = all.drop (limit + 1) := by
  induction all generalizing limit with
  | nil => simp at here
  | cons x rest ih =>
    obtain ⟨older, descending⟩ := List.pairwise_cons.mp descending
    cases limit with
    | zero =>
      obtain rfl : x = last := by simpa using here
      simpa [List.filter_eq_self] using older
    | succ limit =>
      have below := ih descending (by simpa using here)
      have newer := older last (List.mem_of_getElem? (by simpa using here))
      rw [List.filter_cons_of_neg (by simpa using Nat.le_of_lt newer), below]
      simp

theorem behind_oldest (descending : all.Pairwise fun x y => key y < key x) {before : Option Nat} {last : α}
    (here : (behind key all before)[limit]? = some last) :
    behind key all (some (key last)) = (behind key all before).drop (limit + 1) := by
  have shorter : (behind key all before).Pairwise fun x y => key y < key x := descending.filter _
  rw [← filter_lt_eq_drop shorter here, behind, behind, List.filter_filter]
  refine List.filter_congr fun x _ => ?_
  have found := (List.mem_filter.mp (List.mem_of_getElem? here)).2
  cases before with
  | none => simp
  | some bound =>
    simp only [Option.all_some, decide_eq_true_eq] at found ⊢
    rw [Bool.eq_iff_iff]
    simp only [Bool.and_eq_true, decide_eq_true_eq]
    omega

/-- There is more exactly when something is older than the whole page. -/
theorem Pages.more_iff {ask : Option Nat → List α × Bool} (pages : Pages key all limit ask)
    (descending : all.Pairwise fun x y => key y < key x) (before : Option Nat) :
    (ask before).2 = true ↔ ∃ x ∈ behind key all before, ∀ got ∈ (ask before).1, key x < key got := by
  have shorter : (behind key all before).Pairwise fun x y => key y < key x := descending.filter _
  rw [pages.more, pages.items]
  constructor
  · intro more
    refine ⟨(behind key all before)[limit], List.getElem_mem _, fun got member => ?_⟩
    rw [← List.take_append_drop limit (behind key all before), List.pairwise_append] at shorter
    exact shorter.2.2 got member _ (List.mem_drop_iff_getElem.mpr ⟨0, by simpa using more, by simp⟩)
  · rintro ⟨x, member, older⟩
    by_contra few
    rw [List.take_of_length_le (Nat.le_of_not_lt few)] at older
    exact absurd (older x member) (Nat.lt_irrefl _)

/-- With enough requests a walk returns all there is behind its cursor, in order. -/
theorem walk_eq (descending : all.Pairwise fun x y => key y < key x) {ask : Option Nat → List α × Bool}
    (pages : Pages key all limit ask) (positive : 0 < limit) {fuel : Nat} {before : Option Nat}
    (enough : (behind key all before).length < fuel) : walk key ask fuel before = some (behind key all before) := by
  induction fuel generalizing before with
  | zero => omega
  | succ fuel ih =>
    rw [walk, pages.items]
    by_cases more : limit < (behind key all before).length
    · -- the last item of the page is the next cursor
      rw [if_pos ((pages.more before).mpr more)]
      obtain ⟨n, rfl⟩ : ∃ n, limit = n + 1 := ⟨limit - 1, by omega⟩
      obtain ⟨last, here⟩ : ∃ last, (behind key all before)[n]? = some last :=
        ⟨_, List.getElem?_eq_getElem (by omega)⟩
      have oldest : ((behind key all before).take (n + 1)).getLast? = some last := by
        rw [List.getLast?_eq_getElem?, List.length_take, Nat.min_eq_left (Nat.le_of_lt more), List.getElem?_take]
        simpa using here
      have rest := behind_oldest descending here
      rw [oldest, Option.map_some, Option.orElse_eq_orElse, Option.orElse_some, ih, rest]
      · simp
      · rw [rest, List.length_drop]
        omega
    · rw [if_neg (by rw [pages.more before]; exact more), List.take_of_length_le (by omega)]

end Braidcast.Lib
