import Braidcast.Lib.Calendar
import Braidcast.Lib.Checked
import Braidcast.OAuth.PacificDay

/-!
# The day the quota resets

The civil-date arithmetic of `youtube_provider.cpp` against the calendar: the number of a day, the year it is
in, and the Sundays the clocks change on.
-/
namespace Braidcast.OAuth

open Lib

/-! ### The number of a day -/

/-- Months are counted from March, with the days of those before. -/
theorem daysFromCivil_eq (y m d : Int) :
    daysFromCivil y m d =
      marchFirst (if m ≤ 2 then y - 1 else y) + (153 * (m + if m > 2 then -3 else 9) + 2) / 5 + (d - 1) := by
  unfold daysFromCivil marchFirst
  dsimp only
  split
  · omega
  · omega

theorem marchFirst_leap {y : Int} (leap : Date.Leap y) : marchFirst y = marchFirst (y - 1) + 366 := by
  unfold marchFirst
  obtain ⟨fours, hundreds | eras⟩ := leap
  · omega
  · omega

theorem marchFirst_common {y : Int} (common : ¬ Date.Leap y) : marchFirst y = marchFirst (y - 1) + 365 := by
  unfold marchFirst
  unfold Date.Leap at common
  omega

theorem daysFromCivil_day (y m d : Int) : daysFromCivil y m (d + 1) = daysFromCivil y m d + 1 := by
  rw [daysFromCivil_eq, daysFromCivil_eq]
  omega

theorem daysFromCivil_month (y : Int) {m : Int} (low : 1 ≤ m) (high : m < 12) :
    daysFromCivil y (m + 1) 1 = daysFromCivil y m (Date.monthLength y m) + 1 := by
  rw [daysFromCivil_eq, daysFromCivil_eq]
  unfold Date.monthLength
  -- February is the last month of a year that begins in March: its length is the leap day
  by_cases february : m = 2
  · subst february
    by_cases leap : Date.Leap y
    · have year := marchFirst_leap leap
      simp [leap]
      omega
    · have year := marchFirst_common leap
      simp [leap]
      omega
  · rw [if_neg february]
    have other : m = 1 ∨ m = 3 ∨ m = 4 ∨ m = 5 ∨ m = 6 ∨ m = 7 ∨ m = 8 ∨ m = 9 ∨ m = 10 ∨ m = 11 := by omega
    rcases other with rfl | rfl | rfl | rfl | rfl | rfl | rfl | rfl | rfl | rfl <;> norm_num <;> omega

theorem daysFromCivil_year (y : Int) : daysFromCivil (y + 1) 1 1 = daysFromCivil y 12 31 + 1 := by
  rw [daysFromCivil_eq, daysFromCivil_eq]
  norm_num
  omega

/-- The day after a date has the next number. -/
theorem daysFromCivil_next {d : Date} (valid : d.Valid) :
    daysFromCivil d.next.year d.next.month d.next.day = daysFromCivil d.year d.month d.day + 1 := by
  obtain ⟨month_pos, month_le, day_pos, day_le⟩ := valid
  unfold Date.next
  split
  · exact daysFromCivil_day d.year d.month d.day
  next ended =>
    have last : d.day = Date.monthLength d.year d.month := by omega
    split
    next before =>
      rw [last]
      exact daysFromCivil_month d.year month_pos before
    next december =>
      have twelve : d.month = 12 := by omega
      rw [last, twelve]
      exact daysFromCivil_year d.year

/-- `DaysFromCivil` numbers the dates as they follow one another. -/
theorem daysFromCivil_after (n : Nat) :
    daysFromCivil (Date.after n).year (Date.after n).month (Date.after n).day = n := by
  induction n with
  | zero => decide
  | succ n ih =>
    rw [Date.after_succ, daysFromCivil_next (Date.after_valid n), ih]
    exact (Int.natCast_succ n).symm

/-! ### The year of a day -/

theorem daysFromCivil_january (y : Int) : daysFromCivil y 1 1 = marchFirst (y - 1) + 306 := by
  rw [daysFromCivil_eq]
  norm_num

theorem januaryFirst_mono {y y' : Int} (later : y ≤ y') : daysFromCivil y 1 1 ≤ daysFromCivil y' 1 1 := by
  rw [daysFromCivil_january, daysFromCivil_january]
  rcases later.lt_or_eq with before | rfl
  · have apart := marchFirst_lt (sub_lt_sub_right before 1)
    omega
  · exact le_refl _

/-- A date is in its year. -/
theorem daysFromCivil_in_year {d : Date} (valid : d.Valid) :
    daysFromCivil d.year 1 1 ≤ daysFromCivil d.year d.month d.day ∧
      daysFromCivil d.year d.month d.day < daysFromCivil (d.year + 1) 1 1 := by
  obtain ⟨month_pos, month_le, day_pos, day_le⟩ := valid
  have short : Date.monthLength d.year d.month ≤ 31 ∧ (d.month = 2 → Date.monthLength d.year d.month ≤ 29) := by
    unfold Date.monthLength
    split
    · split <;> omega
    · split <;> omega
  have above := marchFirst_lt (sub_one_lt d.year)
  rw [daysFromCivil_january, daysFromCivil_january, daysFromCivil_eq, add_sub_cancel_right]
  by_cases early : d.month ≤ 2
  · rw [if_pos early, if_neg (by omega)]
    omega
  · rw [if_neg early, if_pos (by omega)]
    omega

/-- `YearFromDays` of a date's number is its year. -/
theorem yearFromDays_after (n : Nat) : yearFromDays n = (Date.after n).year := by
  obtain ⟨low, high⟩ := yearFromDays_within n
  obtain ⟨from_january, to_december⟩ := daysFromCivil_in_year (Date.after_valid n)
  rw [daysFromCivil_after] at from_january to_december
  -- both years hold the day, and the years do not overlap
  rcases lt_trichotomy (yearFromDays n) (Date.after n).year with before | same | behind
  · have mono := januaryFirst_mono (Int.add_one_le_iff.mpr before)
    rw [daysFromCivil_january, add_sub_cancel_right] at mono
    omega
  · exact same
  · have mono := januaryFirst_mono (Int.add_one_le_iff.mpr behind)
    rw [daysFromCivil_january (yearFromDays n)] at mono
    omega

/-! ### The date of a number -/

theorem daysFromCivil_first (y m d : Int) : daysFromCivil y m d = daysFromCivil y m 1 + (d - 1) := by
  rw [daysFromCivil_eq, daysFromCivil_eq]
  omega

theorem monthFirst_mono {y m m' : Int} (low : 1 ≤ m) (later : m ≤ m') (high : m' ≤ 12) :
    daysFromCivil y m 1 ≤ daysFromCivil y m' 1 := by
  induction m', later using Int.leInduction with
  | base => exact le_refl _
  | succ m' after_m ih =>
    have length := Date.monthLength_pos y m'
    have first := daysFromCivil_first y m' (Date.monthLength y m')
    rw [daysFromCivil_month y (by omega) (by omega), first]
    omega

theorem daysFromCivil_lt_of_month {d d' : Date} (valid : d.Valid) (valid' : d'.Valid) (same : d.year = d'.year)
    (before : d.month < d'.month) : daysFromCivil d.year d.month d.day < daysFromCivil d'.year d'.month d'.day := by
  have next := monthFirst_mono (y := d'.year) (by have low := valid.month_pos; omega) (Int.add_one_le_iff.mpr before)
    valid'.month_le
  have beyond := valid'.month_le
  rw [daysFromCivil_month _ valid.month_pos (by omega), ← same, daysFromCivil_first _ _ (Date.monthLength _ _)] at next
  rw [daysFromCivil_first _ _ d.day, daysFromCivil_first _ _ d'.day, ← same]
  have upto := valid.day_le
  have from_first := valid'.day_pos
  omega

theorem year_eq_of_daysFromCivil_eq {d d' : Date} (valid : d.Valid) (valid' : d'.Valid)
    (same : daysFromCivil d.year d.month d.day = daysFromCivil d'.year d'.month d'.day) : ¬ d.year < d'.year := by
  intro before
  have within := daysFromCivil_in_year valid
  have within' := daysFromCivil_in_year valid'
  have mono := januaryFirst_mono (Int.add_one_le_iff.mpr before)
  omega

theorem daysFromCivil_injective {d d' : Date} (valid : d.Valid) (valid' : d'.Valid)
    (same : daysFromCivil d.year d.month d.day = daysFromCivil d'.year d'.month d'.day) : d = d' := by
  have year : d.year = d'.year := le_antisymm (not_lt.mp (year_eq_of_daysFromCivil_eq valid' valid same.symm))
    (not_lt.mp (year_eq_of_daysFromCivil_eq valid valid' same))
  have month : d.month = d'.month := by
    rcases lt_trichotomy d.month d'.month with before | same_month | behind
    · have apart := daysFromCivil_lt_of_month valid valid' year before
      omega
    · exact same_month
    · have apart := daysFromCivil_lt_of_month valid' valid year.symm behind
      omega
  have day : d.day = d'.day := by
    rw [daysFromCivil_first _ _ d.day, daysFromCivil_first _ _ d'.day, year, month] at same
    omega
  obtain ⟨y, m, k⟩ := d
  obtain ⟨y', m', k'⟩ := d'
  dsimp only at year month day
  rw [year, month, day]

theorem daysFromCivil_nonneg {d : Date} (valid : d.Valid) (recent : 1970 ≤ d.year) : 0 ≤ daysFromCivil d.year d.month d.day := by
  have first : daysFromCivil 1970 1 1 = 0 := by decide
  have mono := januaryFirst_mono recent
  have within := daysFromCivil_in_year valid
  omega

/-- Every date from 1970 on is the one of its number, and no other number has it. -/
theorem after_eq_iff {d : Date} (valid : d.Valid) (n : Nat) :
    Date.after n = d ↔ daysFromCivil d.year d.month d.day = n := by
  constructor
  · rintro rfl
    exact daysFromCivil_after n
  · intro number
    exact daysFromCivil_injective (Date.after_valid n) valid ((daysFromCivil_after n).trans number.symm)

/-! ### Sundays -/

/-- `NthSundayUtc` is the Sunday that the calendar has. -/
theorem nthSundayUtc_eq {year month nth : Int} {n : Nat} (sunday : Date.NthSunday year month nth n) (utcHour : Int) :
    nthSundayUtc year month nth utcHour = n * 86400 + utcHour * 3600 := by
  obtain ⟨rfl, rfl, zero, first, last⟩ := sunday
  have number := daysFromCivil_after n
  rw [daysFromCivil_first] at number
  unfold Date.weekday at zero
  unfold nthSundayUtc
  dsimp only
  omega

theorem exists_nthSunday {year month nth : Int} (recent : 1970 ≤ year) (low : 1 ≤ month) (high : month ≤ 12) (pos : 1 ≤ nth)
    (four : nth ≤ 4) : ∃ n, Date.NthSunday year month nth n := by
  obtain ⟨day, same⟩ : ∃ day, day = 1 + (7 - (daysFromCivil year month 1 + 4) % 7) % 7 + 7 * (nth - 1) := ⟨_, rfl⟩
  have valid : Date.Valid ⟨year, month, day⟩ := by
    refine ⟨low, high, by dsimp only; omega, ?_⟩
    have short : 28 ≤ Date.monthLength year month := by
      unfold Date.monthLength
      split
      · split <;> omega
      · split <;> omega
    dsimp only
    omega
  have number := daysFromCivil_nonneg valid recent
  have date := (after_eq_iff valid (daysFromCivil year month day).toNat).mpr (Int.toNat_of_nonneg number).symm
  refine ⟨(daysFromCivil year month day).toNat, ?_, ?_, ?_, ?_, ?_⟩
  · rw [date]
  · rw [date]
  · unfold Date.weekday
    have first := daysFromCivil_first year month day
    dsimp only at number ⊢
    omega
  · rw [date]
    dsimp only
    omega
  · rw [date]
    dsimp only
    omega

/-! ### Pacific time -/

def utcYear (t : Int) : Int := (Date.after (t / 86400).toNat).year

/-- From the second Sunday of March at ten o'clock to the first Sunday of November at nine. -/
def Daylight (t : Int) : Prop :=
  ∃ s e : Nat, Date.NthSunday (utcYear t) 3 2 s ∧ Date.NthSunday (utcYear t) 11 1 e ∧
    s * 86400 + 36000 ≤ t ∧ t < e * 86400 + 32400

open Classical in
/-- The Pacific clock, in seconds. -/
noncomputable def pacificLocal (t : Int) : Int := if Daylight t then t - 25200 else t - 28800

theorem utcYear_recent (t : Int) : 1970 ≤ utcYear t := Date.year_after_mono (Nat.zero_le _)

theorem yearFromDays_utcYear {t : Int} (pos : 0 ≤ t) : yearFromDays (t / 86400) = utcYear t := by
  rw [utcYear, ← yearFromDays_after, Int.toNat_of_nonneg (by omega)]

/-- `PacificOffsetSec` is the offset of the Pacific clock. -/
theorem pacificLocal_eq {t : Int} (pos : 0 ≤ t) : pacificLocal t = t + pacificOffsetSec t := by
  obtain ⟨s, march⟩ := exists_nthSunday (utcYear_recent t) (show (1 : Int) ≤ 3 by decide) (by decide) (show (1 : Int) ≤ 2 by decide) (by decide)
  obtain ⟨e, november⟩ := exists_nthSunday (utcYear_recent t) (show (1 : Int) ≤ 11 by decide) (by decide) (show (1 : Int) ≤ 1 by decide)
    (by decide)
  have start := nthSundayUtc_eq march 10
  have stop := nthSundayUtc_eq november 9
  unfold pacificLocal pacificOffsetSec
  dsimp only
  rw [yearFromDays_utcYear pos, start, stop]
  -- the Sundays are unique, so the window of the calendar is the one the code computes
  have window : Daylight t ↔ t ≥ s * 86400 + 10 * 3600 ∧ t < e * 86400 + 9 * 3600 := by
    constructor
    · rintro ⟨s', e', march', november', from_start, to_end⟩
      have start' := nthSundayUtc_eq march' 10
      have stop' := nthSundayUtc_eq november' 9
      omega
    · rintro ⟨from_start, to_end⟩
      exact ⟨s, e, march, november, by omega, by omega⟩
  by_cases daylight : Daylight t
  · rw [if_pos daylight, if_pos (window.mp daylight)]
    omega
  · rw [if_neg daylight, if_neg (mt window.mpr daylight)]
    omega

end Braidcast.OAuth

/-!
## The next Pacific midnight

`NextPacificMidnightUtc` in the integers of the code. A year is an `int`: where it would not fit, the
arithmetic overflows and there is no result.
-/
namespace Braidcast.OAuth

open Lib

/-! ### The code's integers -/

/-- `DaysFromCivil`. -/
def daysFromCivil? (y m d : Int) : Option Int := do
  let y ← signed 32 (if m ≤ 2 then y - 1 else y)
  let low ← if y ≥ 0 then some y else signed 32 (y - 399)
  let era := low.tdiv 400
  let yoe := y - era * 400
  let mp := m + if m > 2 then -3 else 9
  let doy := (153 * mp + 2) / 5 + d - 1
  let doe := yoe * 365 + yoe / 4 - yoe / 100 + doy
  return era * 146097 + doe - 719468

/-- `YearFromDays`. -/
def yearFromDays? (z : Int) : Option Int := do
  let z ← signed 64 (z + 719468)
  let low ← if z ≥ 0 then some z else signed 64 (z - 146096)
  let era := low.tdiv 146097
  let doe := z - era * 146097
  let yoe := yearOfEra doe
  let base ← signed 32 (truncated 32 era * 400)
  let y ← signed 32 (yoe + base)
  let doy := doe - (365 * yoe + yoe / 4 - yoe / 100)
  let mp := (5 * doy + 2) / 153
  let m := if mp < 10 then mp + 3 else mp - 9
  signed 32 (if m ≤ 2 then y + 1 else y)

/-- `NthSundayUtc`. -/
def nthSundayUtc? (year month nth utcHour : Int) : Option Int := do
  let first ← daysFromCivil? year month 1
  let dow := (first + 4).tmod 7
  let day := first + (7 - dow).tmod 7 + 7 * (nth - 1)
  signed 64 (day * 86400 + utcHour * 3600)

/-- `PacificOffsetSec`. -/
def pacificOffsetSec? (utcEpoch : Int) : Option Int := do
  let year ← yearFromDays? (utcEpoch.tdiv 86400)
  let dstStart ← nthSundayUtc? year 3 2 10
  let dstEnd ← nthSundayUtc? year 11 1 9
  return if utcEpoch ≥ dstStart ∧ utcEpoch < dstEnd then -7 * 3600 else -8 * 3600

/-- `NextPacificMidnightUtc`. -/
def nextPacificMidnightUtc? (nowUtc : Int) : Option Int := do
  let offsetNow ← pacificOffsetSec? nowUtc
  let localNow ← signed 64 (nowUtc + offsetNow)
  let nextLocalMidnight ← signed 64 ((localNow.tdiv 86400 + 1) * 86400)
  let guess ← signed 64 (nextLocalMidnight - offsetNow)
  let offset ← pacificOffsetSec? guess
  signed 64 (nextLocalMidnight - offset)

/-- The last midnight of the last year that an `int` holds. -/
def lastMidnight : Int := daysFromCivil 2147483647 12 31 * 86400 + 28800

/-! ### Years that fit -/

theorem daysFromCivil?_eq {y m d : Int} (recent : 1970 ≤ y) (fits : y < 2 ^ 31) : daysFromCivil? y m d = some (daysFromCivil y m d) := by
  unfold daysFromCivil? daysFromCivil
  dsimp only
  obtain ⟨shifted, same⟩ : ∃ shifted, shifted = if m ≤ 2 then y - 1 else y := ⟨_, rfl⟩
  have pos : 0 ≤ shifted ∧ shifted < 2 ^ 31 := by
    split at same <;> omega
  rw [← same, signed_of_fits (by omega) pos.2, Option.bind_eq_bind, Option.bind_some, if_pos pos.1]
  simp only [Option.bind_some, Int.tdiv_eq_ediv_of_nonneg pos.1]
  rfl

/-- The year fits: so does all that it is made of. -/
theorem yearFromDays?_eq {z : Int} (low : 0 ≤ z) (high : z < 2 ^ 48) (fits : yearFromDays z < 2 ^ 31) :
    yearFromDays? z = some (yearFromDays z) := by
  unfold yearFromDays at fits
  unfold yearFromDays? yearFromDays
  dsimp only at fits ⊢
  rw [signed_of_fits (by omega) (by omega), Option.bind_eq_bind, Option.bind_some, if_pos (show z + 719468 ≥ 0 by omega)]
  simp only [Option.bind_some, Int.tdiv_eq_ediv_of_nonneg (show 0 ≤ z + 719468 by omega)]
  generalize hera : (z + 719468) / 146097 = era at fits ⊢
  -- the era is small, so the cast to an int keeps it
  have kept : truncated 32 era = era := Int.bmod_eq_of_le (by omega) (by omega)
  have pos : 0 ≤ yearOfEra (z + 719468 - era * 146097) := by
    unfold yearOfEra
    omega
  rw [kept]
  generalize yearOfEra (z + 719468 - era * 146097) = yoe at fits pos ⊢
  generalize hm : (if (5 * (z + 719468 - era * 146097 - (365 * yoe + yoe / 4 - yoe / 100)) + 2) / 153 < 10 then _ else _ : Int) = m
    at fits ⊢
  rw [signed_of_fits (by omega) (by omega), Option.bind_some, signed_of_fits (by omega) (by omega), Option.bind_some,
    signed_of_fits (by omega) (by omega)]

theorem marchFirst_bounds {y : Int} (recent : 1970 ≤ y) (fits : y < 2 ^ 31) : 0 ≤ marchFirst y ∧ marchFirst y < 2 ^ 40 := by
  unfold marchFirst
  omega

theorem nthSundayUtc?_march {y : Int} (recent : 1970 ≤ y) (fits : y < 2 ^ 31) :
    nthSundayUtc? y 3 2 10 = some (nthSundayUtc y 3 2 10) := by
  have bounds := marchFirst_bounds recent fits
  unfold nthSundayUtc? nthSundayUtc
  rw [daysFromCivil?_eq recent fits, daysFromCivil_march, Option.bind_eq_bind, Option.bind_some]
  simp only [Int.tmod_eq_emod_of_nonneg (show 0 ≤ marchFirst y + 4 by omega),
    Int.tmod_eq_emod_of_nonneg (show 0 ≤ 7 - (marchFirst y + 4) % 7 by omega)]
  exact signed_of_fits (by omega) (by omega)

theorem nthSundayUtc?_november {y : Int} (recent : 1970 ≤ y) (fits : y < 2 ^ 31) :
    nthSundayUtc? y 11 1 9 = some (nthSundayUtc y 11 1 9) := by
  have bounds := marchFirst_bounds recent fits
  unfold nthSundayUtc? nthSundayUtc
  rw [daysFromCivil?_eq recent fits, daysFromCivil_november, Option.bind_eq_bind, Option.bind_some]
  simp only [Int.tmod_eq_emod_of_nonneg (show 0 ≤ marchFirst y + 245 + 4 by omega),
    Int.tmod_eq_emod_of_nonneg (show 0 ≤ 7 - (marchFirst y + 245 + 4) % 7 by omega)]
  exact signed_of_fits (by omega) (by omega)

/-- The first day that is in no year of an `int`. -/
def firstUnheldDay : Int := daysFromCivil 2147483648 1 1

theorem yearFromDays_fits {z : Int} (before : z < firstUnheldDay) : yearFromDays z < 2 ^ 31 := by
  by_contra beyond
  have mono := januaryFirst_mono (show 2147483648 ≤ yearFromDays z by omega)
  have within := yearFromDays_within z
  rw [← firstUnheldDay, daysFromCivil_january (yearFromDays z)] at mono
  omega

theorem pacificOffsetSec?_eq {t : Int} (pos : 0 ≤ t) (before : t / 86400 < firstUnheldDay) :
    pacificOffsetSec? t = some (pacificOffsetSec t) := by
  have unheld : firstUnheldDay < 2 ^ 48 := by decide
  have fits := yearFromDays_fits before
  have recent : 1970 ≤ yearFromDays (t / 86400) := by
    rw [yearFromDays_utcYear pos]
    exact utcYear_recent t
  unfold pacificOffsetSec? pacificOffsetSec
  rw [Int.tdiv_eq_ediv_of_nonneg pos, yearFromDays?_eq (by omega) (by omega) fits, Option.bind_eq_bind, Option.bind_some,
    nthSundayUtc?_march recent fits, Option.bind_some, nthSundayUtc?_november recent fits, Option.bind_some]
  rfl

/-- The last day of the last year is in winter. -/
theorem pacificOffsetSec_lastDay {t : Int} (day : t / 86400 = firstUnheldDay - 1) : pacificOffsetSec t = -28800 := by
  have december : yearFromDays (firstUnheldDay - 1) = 2147483647 := by decide
  have sunday : nthSundayUtc 2147483647 11 1 9 ≤ (firstUnheldDay - 1) * 86400 := by decide
  unfold pacificOffsetSec
  dsimp only
  rw [day, december, if_neg (by omega)]
  rfl

variable {now : Int}

/-- The day that the next midnight begins. -/
theorem localDay_lt_unheld (before : now < lastMidnight) : (now + pacificOffsetSec now) / 86400 + 1 < firstUnheldDay := by
  have last : lastMidnight = (firstUnheldDay - 1) * 86400 + 28800 := by decide
  rcases pacificOffsetSec_cases now with summer | winter
  · have day : now / 86400 ≠ firstUnheldDay - 1 := by
      intro here
      have winter := pacificOffsetSec_lastDay here
      omega
    omega
  · omega

theorem nextPacificMidnightUtc?_eq (day : 86400 ≤ now) (before : now < lastMidnight) :
    nextPacificMidnightUtc? now = some (nextPacificMidnightUtc now) := by
  have unheld : firstUnheldDay < 2 ^ 45 := by decide
  have localDay := localDay_lt_unheld before
  have offset := pacificOffsetSec_cases now
  unfold nextPacificMidnightUtc? nextPacificMidnightUtc
  rw [pacificOffsetSec?_eq (by omega) (by omega), Option.bind_eq_bind, Option.bind_some]
  generalize pacificOffsetSec now = o at localDay offset ⊢
  have tdiv := Int.tdiv_eq_ediv_of_nonneg (show 0 ≤ now + o by omega) (b := 86400)
  rw [signed_of_fits (by omega) (by omega), Option.bind_some, tdiv, signed_of_fits (by omega) (by omega), Option.bind_some,
    signed_of_fits (by omega) (by omega), Option.bind_some, pacificOffsetSec?_eq (by omega) (by omega), Option.bind_some]
  dsimp only
  have there := pacificOffsetSec_cases (((now + o) / 86400 + 1) * 86400 - o)
  rw [tdiv]
  exact signed_of_fits (by omega) (by omega)

/-! ### The reset -/

/-- The next instant at which the Pacific clock shows midnight. -/
structure NextMidnight (now r : Int) : Prop where
  least : IsLeast {t | now < t ∧ pacificLocal t % 86400 = 0} r
  ahead : 0 < r - now
  within : r - now ≤ 25 * 3600

theorem nextPacificMidnightUtc_mono {now later : Int} (pos : 0 ≤ now) (after_now : now ≤ later) :
    nextPacificMidnightUtc now ≤ nextPacificMidnightUtc later := by
  obtain ⟨day, same, within⟩ := nextPacificMidnightUtc_day pos
  obtain ⟨day', same', within'⟩ := nextPacificMidnightUtc_day (pos.trans after_now)
  have mono := localDay_mono after_now
  by_contra sooner
  -- the instant before the later midnight would be before and behind it
  have before := (within (nextPacificMidnightUtc now - 1)).mpr (by omega)
  have beyond := (within' (nextPacificMidnightUtc now - 1)).mp (by omega)
  omega

/-- At the midnight the local day begins. -/
theorem pacificLocal_nextMidnight (day : 86400 ≤ now) :
    nextPacificMidnightUtc now + pacificOffsetSec (nextPacificMidnightUtc now) = ((now + pacificOffsetSec now) / 86400 + 1) * 86400 := by
  obtain ⟨begun, same, within⟩ := nextPacificMidnightUtc_day (show 0 ≤ now by omega)
  have offset := pacificOffsetSec_cases now
  have here := mt (within (nextPacificMidnightUtc now)).mp (lt_irrefl _)
  have before := (within (nextPacificMidnightUtc now - 1)).mpr (by omega)
  have cases := pacificOffsetSec_cases (nextPacificMidnightUtc now)
  have cases' := pacificOffsetSec_cases (nextPacificMidnightUtc now - 1)
  by_cases steady : pacificOffsetSec (nextPacificMidnightUtc now - 1) = pacificOffsetSec (nextPacificMidnightUtc now)
  · omega
  · -- a change at nine or ten o'clock UTC is not at the end of a local day
    obtain ⟨e, after, upto, hour⟩ := offset_change (show nextPacificMidnightUtc now - 1 ≤ nextPacificMidnightUtc now by omega) steady
    omega

theorem nextMidnight (day : 86400 ≤ now) : NextMidnight now (nextPacificMidnightUtc now) := by
  have ahead := lt_nextPacificMidnightUtc (show 0 ≤ now by omega)
  have begins := pacificLocal_nextMidnight day
  have offset := pacificOffsetSec_cases now
  have offset' := pacificOffsetSec_cases (nextPacificMidnightUtc now)
  constructor
  case ahead => omega
  case within => omega
  case least =>
    refine ⟨⟨ahead, ?_⟩, ?_⟩
    · rw [pacificLocal_eq (by omega), begins]
      exact Int.mul_emod_left _ _
    · rintro t ⟨later, midnight⟩
      rw [pacificLocal_eq (by omega)] at midnight
      obtain ⟨begun, same, within⟩ := nextPacificMidnightUtc_day (show 0 ≤ now by omega)
      by_contra sooner
      have held := (within t).mpr (not_le.mp sooner)
      have offset_t := pacificOffsetSec_cases t
      by_cases steady : pacificOffsetSec now = pacificOffsetSec t
      · omega
      · -- the clock went back between the two, and not near midnight
        obtain ⟨e, after, upto, hour⟩ := offset_change later.le steady
        omega

/-- The quota resets at the next Pacific midnight, as long as the year fits an `int`. -/
theorem quota_resets_at_midnight :
    (∀ now, 86400 ≤ now → now < lastMidnight → ∃ r, nextPacificMidnightUtc? now = some r ∧ NextMidnight now r) ∧
      (∀ now later r r', 86400 ≤ now → now ≤ later → later < lastMidnight → nextPacificMidnightUtc? now = some r →
        nextPacificMidnightUtc? later = some r' → r ≤ r') ∧
      (∀ d : Date, d.Valid → 1970 ≤ d.year → d.year < 2 ^ 31 →
        ∃ n : Nat, Date.after n = d ∧ daysFromCivil? d.year d.month d.day = some (n : Int) ∧ yearFromDays? n = some d.year) := by
  refine ⟨?_, ?_, ?_⟩
  · intro now day before
    exact ⟨_, nextPacificMidnightUtc?_eq day before, nextMidnight day⟩
  · intro now later r r' day after_now before found found'
    rw [nextPacificMidnightUtc?_eq day (by omega)] at found
    rw [nextPacificMidnightUtc?_eq (by omega) before] at found'
    cases found
    cases found'
    exact nextPacificMidnightUtc_mono (by omega) after_now
  · intro d valid recent fits
    have number := (Int.toNat_of_nonneg (daysFromCivil_nonneg valid recent)).symm
    have date := (after_eq_iff valid _).mpr number
    have year := yearFromDays_after (daysFromCivil d.year d.month d.day).toNat
    rw [date] at year
    have in_year := daysFromCivil_in_year valid
    have upto := januaryFirst_mono (show d.year + 1 ≤ 2147483648 by omega)
    have unheld : firstUnheldDay < 2 ^ 48 := by decide
    rw [← firstUnheldDay] at upto
    refine ⟨_, date, ?_, ?_⟩
    · rw [daysFromCivil?_eq recent fits]
      exact congrArg some number
    · rw [yearFromDays?_eq (Int.natCast_nonneg _) (by omega) (by omega), year]

/-- From the last midnight on the year overflows. -/
theorem not_always_reset : ¬ ∀ now : Int, 86400 ≤ now → now < 2 ^ 63 → ∃ r, nextPacificMidnightUtc? now = some r ∧ NextMidnight now r := by
  intro always
  obtain ⟨r, found, -⟩ := always lastMidnight (by decide) (by decide)
  have overflow : nextPacificMidnightUtc? lastMidnight = none := by decide
  rw [overflow] at found
  cases found

/-- Noon UTC of 1 November 2026: the clocks went back at nine. -/
example : nextPacificMidnightUtc? 1793534400 = some 1793606400 := by decide

end Braidcast.OAuth
