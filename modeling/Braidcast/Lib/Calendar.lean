import Mathlib.Tactic.IntervalCases

/-!
# The Gregorian calendar

Dates follow one another from 1 January 1970, a Thursday.
-/
namespace Braidcast.Lib

structure Date where
  year : Int
  month : Int
  day : Int

namespace Date

def Leap (year : Int) : Prop := year % 4 = 0 ∧ (year % 100 ≠ 0 ∨ year % 400 = 0)

instance (year : Int) : Decidable (Leap year) := inferInstanceAs (Decidable (_ ∧ _))

def monthLength (year month : Int) : Int :=
  if month = 2 then if Leap year then 29 else 28
  else if month = 4 ∨ month = 6 ∨ month = 9 ∨ month = 11 then 30
  else 31

def next (d : Date) : Date :=
  if d.day < monthLength d.year d.month then { d with day := d.day + 1 }
  else if d.month < 12 then ⟨d.year, d.month + 1, 1⟩
  else ⟨d.year + 1, 1, 1⟩

structure Valid (d : Date) : Prop where
  month_pos : 1 ≤ d.month
  month_le : d.month ≤ 12
  day_pos : 1 ≤ d.day
  day_le : d.day ≤ monthLength d.year d.month

theorem monthLength_pos (year month : Int) : 1 ≤ monthLength year month := by
  unfold monthLength
  split
  · split <;> omega
  · split <;> omega

theorem Valid.next {d : Date} (valid : d.Valid) : d.next.Valid := by
  obtain ⟨month_pos, month_le, day_pos, day_le⟩ := valid
  unfold Date.next
  split
  next more => exact ⟨month_pos, month_le, by dsimp only; omega, by dsimp only; omega⟩
  · split
    next before => exact ⟨by dsimp only; omega, by dsimp only; omega, le_refl _, monthLength_pos _ _⟩
    · exact ⟨le_refl _, by dsimp only; omega, le_refl _, monthLength_pos _ _⟩

/-- The date that many days after 1 January 1970. -/
def after (n : Nat) : Date := next^[n] ⟨1970, 1, 1⟩

theorem after_succ (n : Nat) : after (n + 1) = (after n).next := Function.iterate_succ_apply' next n _

theorem after_valid (n : Nat) : (after n).Valid := by
  induction n with
  | zero => exact ⟨by decide, by decide, by decide, by decide⟩
  | succ n ih =>
    rw [after_succ]
    exact ih.next

theorem year_next (d : Date) : d.year ≤ d.next.year := by
  unfold next
  split
  · exact le_refl _
  · split
    · exact le_refl _
    · exact Int.le_add_one (le_refl _)

theorem year_after_mono {m n : Nat} (later : m ≤ n) : (after m).year ≤ (after n).year := by
  induction n, later using Nat.le_induction with
  | base => exact le_refl _
  | succ n _ ih =>
    rw [after_succ]
    exact ih.trans (year_next _)

/-- The days of the week from Sunday on. -/
def weekday (n : Nat) : Nat := (n + 4) % 7

/-- The day is the Sunday of that number of the month. -/
structure NthSunday (year month nth : Int) (n : Nat) : Prop where
  year : (after n).year = year
  month : (after n).month = month
  sunday : weekday n = 0
  first : 7 * (nth - 1) < (after n).day
  last : (after n).day ≤ 7 * nth

end Date

end Braidcast.Lib
