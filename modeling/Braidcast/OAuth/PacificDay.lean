import Mathlib.Tactic.Linarith

/-!
# The Pacific day

The civil-date arithmetic of `youtube_provider.cpp` that places the next midnight in Pacific
Time. A reading of the clock lies in one day only: the midnight that ends it is the same for
every later reading before it.
-/
namespace Braidcast.OAuth

/-- `DaysFromCivil`; the division of the year by 400 rounds down there too. -/
def daysFromCivil (y m d : Int) : Int :=
  let y := if m ≤ 2 then y - 1 else y
  let era := y / 400
  let yoe := y - era * 400
  let mp := m + if m > 2 then -3 else 9
  let doy := (153 * mp + 2) / 5 + d - 1
  let doe := yoe * 365 + yoe / 4 - yoe / 100 + doy
  era * 146097 + doe - 719468

/-- The year of the era that holds the day `doe` of it, counted from March. -/
def yearOfEra (doe : Int) : Int :=
  (doe - doe / 1460 + doe / 36524 - doe / 146096) / 365

/-- `YearFromDays`. -/
def yearFromDays (z : Int) : Int :=
  let z := z + 719468
  let era := z / 146097
  let doe := z - era * 146097
  let yoe := yearOfEra doe
  let y := yoe + era * 400
  let doy := doe - (365 * yoe + yoe / 4 - yoe / 100)
  let mp := (5 * doy + 2) / 153
  let m := if mp < 10 then mp + 3 else mp - 9
  if m ≤ 2 then y + 1 else y

/-- `NthSundayUtc`. -/
def nthSundayUtc (year month nth utcHour : Int) : Int :=
  let first := daysFromCivil year month 1
  let dow := (first + 4) % 7
  let day := first + (7 - dow) % 7 + 7 * (nth - 1)
  day * 86400 + utcHour * 3600

/-- `PacificOffsetSec`. -/
def pacificOffsetSec (utcEpoch : Int) : Int :=
  let year := yearFromDays (utcEpoch / 86400)
  let dstStart := nthSundayUtc year 3 2 10
  let dstEnd := nthSundayUtc year 11 1 9
  if utcEpoch ≥ dstStart ∧ utcEpoch < dstEnd then -7 * 3600 else -8 * 3600

/-- `NextPacificMidnightUtc`; the division is the code's, which rounds towards zero. -/
def nextPacificMidnightUtc (nowUtc : Int) : Int :=
  let offsetNow := pacificOffsetSec nowUtc
  let nextLocalMidnight := ((nowUtc + offsetNow).tdiv 86400 + 1) * 86400
  nextLocalMidnight - pacificOffsetSec (nextLocalMidnight - offsetNow)

/-- A day of an era by its century, its group of four years, the year in it and the day of the year. -/
theorem yearOfEra_split (doe : Int) (low : 0 ≤ doe) (high : doe < 146097) :
    ∃ b c d j : Int, doe = 36524 * b + 1461 * c + 365 * d + j ∧ 0 ≤ b ∧ b ≤ 3 ∧ 0 ≤ c ∧ c ≤ 24 ∧ 0 ≤ d ∧ d ≤ 3 ∧
      0 ≤ j ∧ j ≤ 365 ∧ (j = 365 → d = 3 ∧ (c = 24 → b = 3)) := by
  obtain ⟨b, hb⟩ : ∃ b, b = min 3 (doe / 36524) := ⟨_, rfl⟩
  obtain ⟨c, hc⟩ : ∃ c, c = (doe - 36524 * b) / 1461 := ⟨_, rfl⟩
  obtain ⟨d, hd⟩ : ∃ d, d = min 3 ((doe - 36524 * b - 1461 * c) / 365) := ⟨_, rfl⟩
  exact ⟨b, c, d, doe - 36524 * b - 1461 * c - 365 * d, by omega, by omega, by omega, by omega, by omega, by omega,
    by omega, by omega, by omega, by omega⟩

theorem yearOfEra_eq {b c d j : Int} (hb : 0 ≤ b) (hb' : b ≤ 3) (hc : 0 ≤ c) (hc' : c ≤ 24) (hd : 0 ≤ d) (hd' : d ≤ 3)
    (hj : 0 ≤ j) (hj' : j ≤ 365) (leap : j = 365 → d = 3 ∧ (c = 24 → b = 3)) :
    yearOfEra (36524 * b + 1461 * c + 365 * d + j) = 100 * b + 4 * c + d := by
  unfold yearOfEra
  generalize same : 36524 * b + 1461 * c + 365 * d + j = doe
  -- a day off in every four years, one back in a century, and one off in an era
  have centuries : doe / 36524 = b + if j = 365 ∧ c = 24 then 1 else 0 := by
    split <;> omega
  have last : doe / 146096 = if j = 365 ∧ c = 24 then 1 else 0 := by
    split <;> omega
  rw [centuries, last]
  split <;> omega

/-- The first of March of a year, in days. -/
def marchFirst (y : Int) : Int := 365 * y + y / 4 - y / 100 + y / 400 - 719468

theorem daysFromCivil_march (y : Int) : daysFromCivil y 3 1 = marchFirst y := by
  unfold daysFromCivil marchFirst
  norm_num
  omega

theorem daysFromCivil_november (y : Int) : daysFromCivil y 11 1 = marchFirst y + 245 := by
  unfold daysFromCivil marchFirst
  norm_num
  omega

theorem marchFirst_lt {y y' : Int} (later : y < y') : marchFirst y + 365 ≤ marchFirst y' := by
  unfold marchFirst
  omega

theorem marchFirst_succ (y : Int) : marchFirst (y + 1) ≤ marchFirst y + 366 := by
  unfold marchFirst
  omega

/-- A day lies in its year, which begins 306 days after the first of March before. -/
theorem yearFromDays_within (z : Int) :
    marchFirst (yearFromDays z - 1) + 306 ≤ z ∧ z ≤ marchFirst (yearFromDays z) + 305 := by
  unfold yearFromDays
  dsimp only
  generalize hera : (z + 719468) / 146097 = era
  obtain ⟨b, c, d, j, split, hb, hb', hc, hc', hd, hd', hj, hj', leap⟩ :=
    yearOfEra_split (z + 719468 - era * 146097) (by omega) (by omega)
  rw [split, yearOfEra_eq hb hb' hc hc' hd hd' hj hj' leap]
  generalize hy : 100 * b + 4 * c + d = yoe
  have fours : yoe / 4 = 25 * b + c := by omega
  have day : 36524 * b + 1461 * c + 365 * d + j - (365 * yoe + yoe / 4 - yoe / 100) = j := by omega
  have first : marchFirst (yoe + era * 400) = z - j := by
    unfold marchFirst
    have fours' : (yoe + era * 400) / 4 = yoe / 4 + era * 100 := by omega
    have hundreds' : (yoe + era * 400) / 100 = yoe / 100 + era * 4 := by omega
    omega
  rw [day]
  have before := marchFirst_lt (sub_one_lt (yoe + era * 400))
  have above := marchFirst_lt (lt_add_one (yoe + era * 400))
  by_cases early : (5 * j + 2) / 153 < 10
  · rw [if_pos early, if_neg (by omega)]
    omega
  · rw [if_neg early, if_pos (by omega), add_sub_cancel_right]
    omega

/-- A day lies in its year: from sixty days before its first of March to 305 days after. -/
theorem yearFromDays_bounds (z : Int) :
    marchFirst (yearFromDays z) - 60 ≤ z ∧ z ≤ marchFirst (yearFromDays z) + 305 := by
  obtain ⟨low, high⟩ := yearFromDays_within z
  have next := marchFirst_succ (yearFromDays z - 1)
  rw [sub_add_cancel] at next
  exact ⟨by omega, high⟩

/-- The Sundays the clocks change on, as a day of the year and an hour of it. -/
theorem dstStart_day (y : Int) : ∃ k, nthSundayUtc y 3 2 10 = (marchFirst y + k) * 86400 + 36000 ∧ 0 ≤ k ∧ k ≤ 13 := by
  unfold nthSundayUtc
  rw [daysFromCivil_march]
  exact ⟨(7 - (marchFirst y + 4) % 7) % 7 + 7 * (2 - 1), by dsimp only; omega, by omega, by omega⟩

theorem dstEnd_day (y : Int) : ∃ k, nthSundayUtc y 11 1 9 = (marchFirst y + k) * 86400 + 32400 ∧ 245 ≤ k ∧ k ≤ 251 := by
  unfold nthSundayUtc
  rw [daysFromCivil_november]
  exact ⟨245 + (7 - (marchFirst y + 245 + 4) % 7) % 7 + 7 * (1 - 1), by dsimp only; omega, by omega, by omega⟩

theorem pacificOffsetSec_cases (t : Int) : pacificOffsetSec t = -25200 ∨ pacificOffsetSec t = -28800 := by
  unfold pacificOffsetSec
  dsimp only
  split
  · exact .inl rfl
  · exact .inr rfl

/-- The offset changes only at nine or ten o'clock UTC, never near midnight. -/
theorem offset_change {s t : Int} (later : s ≤ t) (differ : pacificOffsetSec s ≠ pacificOffsetSec t) :
    ∃ e, s < e ∧ e ≤ t ∧ (e % 86400 = 32400 ∨ e % 86400 = 36000) := by
  obtain ⟨i, start, i0, i1⟩ := dstStart_day (yearFromDays (s / 86400))
  obtain ⟨j, stop, j0, j1⟩ := dstEnd_day (yearFromDays (s / 86400))
  obtain ⟨i', start', i0', i1'⟩ := dstStart_day (yearFromDays (t / 86400))
  obtain ⟨j', stop', j0', j1'⟩ := dstEnd_day (yearFromDays (t / 86400))
  have bounds := yearFromDays_bounds (s / 86400)
  have bounds' := yearFromDays_bounds (t / 86400)
  unfold pacificOffsetSec at differ
  dsimp only at differ
  rw [start, stop, start', stop'] at differ
  -- in different years: daylight time ended after `s`, or has begun before `t`
  rcases lt_trichotomy (yearFromDays (s / 86400)) (yearFromDays (t / 86400)) with before | same | after
  · have apart := marchFirst_lt before
    generalize marchFirst (yearFromDays (s / 86400)) = a at *
    generalize marchFirst (yearFromDays (t / 86400)) = a' at *
    by_cases summer : s ≥ (a + i) * 86400 + 36000 ∧ s < (a + j) * 86400 + 32400
    · exact ⟨(a + j) * 86400 + 32400, by omega, by omega, by omega⟩
    · rw [if_neg summer] at differ
      by_cases summer' : t ≥ (a' + i') * 86400 + 36000 ∧ t < (a' + j') * 86400 + 32400
      · exact ⟨(a' + i') * 86400 + 36000, by omega, by omega, by omega⟩
      · rw [if_neg summer'] at differ
        exact absurd rfl differ
  · rw [← same] at start' stop' differ
    obtain rfl : i = i' := by omega
    obtain rfl : j = j' := by omega
    generalize marchFirst (yearFromDays (s / 86400)) = a at *
    -- in one year: one of its two changes is between them
    by_cases turned : s < (a + i) * 86400 + 36000 ∧ (a + i) * 86400 + 36000 ≤ t
    · exact ⟨(a + i) * 86400 + 36000, turned.1, turned.2, by omega⟩
    · by_cases back : s < (a + j) * 86400 + 32400 ∧ (a + j) * 86400 + 32400 ≤ t
      · exact ⟨(a + j) * 86400 + 32400, back.1, back.2, by omega⟩
      · refine absurd ?_ differ
        congr 1
        rw [eq_iff_iff]
        omega
  · have apart := marchFirst_lt after
    have day : s / 86400 = t / 86400 := by omega
    rw [day] at after
    exact absurd after (lt_irrefl _)

/-- The rounding towards zero only matters in the first hours of 1970. -/
theorem tdiv_day {x : Int} (low : -86400 < x) : x.tdiv 86400 = max 0 (x / 86400) := by
  rcases lt_or_ge x 0 with neg | pos
  · have zero : (-x).tdiv 86400 = 0 := by
      rw [Int.tdiv_eq_ediv_of_nonneg (by omega)]
      omega
    rw [Int.neg_tdiv] at zero
    omega
  · rw [Int.tdiv_eq_ediv_of_nonneg pos]
    omega

/-- The local day only goes up. -/
theorem localDay_mono {s t : Int} (later : s ≤ t) :
    (s + pacificOffsetSec s) / 86400 ≤ (t + pacificOffsetSec t) / 86400 := by
  by_cases same : pacificOffsetSec s = pacificOffsetSec t
  · omega
  · obtain ⟨e, after, upto, hour⟩ := offset_change later same
    have cases := pacificOffsetSec_cases s
    have cases' := pacificOffsetSec_cases t
    omega

/-- The next midnight, by the local day it begins. -/
theorem nextPacificMidnightUtc_day {now : Int} (pos : 0 ≤ now) :
    ∃ day, day = max 0 ((now + pacificOffsetSec now) / 86400) ∧
      ∀ t, (t + pacificOffsetSec t) / 86400 ≤ day ↔ t < nextPacificMidnightUtc now := by
  have offset := pacificOffsetSec_cases now
  refine ⟨_, rfl, fun t => ?_⟩
  unfold nextPacificMidnightUtc
  dsimp only
  rw [tdiv_day (by omega)]
  generalize max 0 ((now + pacificOffsetSec now) / 86400) = day
  -- the guess and the midnight lie between seven and eight o'clock UTC, where no change falls
  have settled : ∀ u v, (day + 1) * 86400 + 25200 ≤ u → u ≤ v → v ≤ (day + 1) * 86400 + 28800 →
      pacificOffsetSec u = pacificOffsetSec v := by
    intro u v low between high
    by_contra differ
    obtain ⟨e, after, upto, hour⟩ := offset_change between differ
    omega
  have cases := pacificOffsetSec_cases ((day + 1) * 86400 - pacificOffsetSec now)
  have cases' := pacificOffsetSec_cases t
  generalize guess : pacificOffsetSec ((day + 1) * 86400 - pacificOffsetSec now) = o at *
  have there : pacificOffsetSec ((day + 1) * 86400 - o) = o := by
    rcases le_total ((day + 1) * 86400 - pacificOffsetSec now) ((day + 1) * 86400 - o) with up | down
    · rw [← settled _ _ (by omega) up (by omega), guess]
    · rw [settled _ _ (by omega) down (by omega), guess]
  constructor
  · intro within
    by_contra beyond
    have mono := localDay_mono (not_lt.mp beyond)
    rw [there] at mono
    omega
  · intro before
    by_contra beyond
    by_cases same : pacificOffsetSec t = pacificOffsetSec ((day + 1) * 86400 - o)
    · rw [there] at same
      omega
    · obtain ⟨e, after, upto, hour⟩ := offset_change before.le same
      omega

theorem lt_nextPacificMidnightUtc {now : Int} (pos : 0 ≤ now) : now < nextPacificMidnightUtc now := by
  obtain ⟨day, same, within⟩ := nextPacificMidnightUtc_day pos
  exact (within now).mp (by omega)

/-- Every later reading before the midnight has the same midnight ahead. -/
theorem nextPacificMidnightUtc_stable {now t : Int} (pos : 0 ≤ now) (later : now ≤ t) (before : t < nextPacificMidnightUtc now) :
    nextPacificMidnightUtc t = nextPacificMidnightUtc now := by
  obtain ⟨day, same, within⟩ := nextPacificMidnightUtc_day pos
  obtain ⟨day', same', within'⟩ := nextPacificMidnightUtc_day (pos.trans later)
  have mono := localDay_mono later
  have held := (within t).mpr before
  obtain rfl : day = day' := by omega
  have agree : ∀ u, u < nextPacificMidnightUtc now ↔ u < nextPacificMidnightUtc t := fun u => (within u).symm.trans (within' u)
  have above := agree (nextPacificMidnightUtc t - 1)
  have below := agree (nextPacificMidnightUtc now - 1)
  omega

/-- Noon UTC of 1 November 2026, the day the clocks went back at nine: midnight is eight hours off. -/
example : nextPacificMidnightUtc 1793534400 = 1793606400 := by decide

end Braidcast.OAuth
