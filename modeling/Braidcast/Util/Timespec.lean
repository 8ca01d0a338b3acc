import Braidcast.Lib.Checked

/-!
# Wall-clock times of monotonic timestamps

What libobs makes of a monotonic timestamp through the one pair of readings it took of both clocks.
-/
namespace Braidcast.Util

open Braidcast.Lib

structure Timespec where
  tv_sec : Int
  tv_nsec : Int
deriving DecidableEq

abbrev nsecsPerSec : Nat := 1000000000

/-- The time it denotes, in nanoseconds. -/
def Timespec.nanos (t : Timespec) : Int := t.tv_sec * nsecsPerSec + t.tv_nsec

def Timespec.Normalised (t : Timespec) : Prop := 0 ≤ t.tv_nsec ∧ t.tv_nsec < nsecsPerSec

/-- A reading of the wall clock, in seconds of 64 bits. -/
structure WallReading extends Timespec where
  sec_fits : -2 ^ 63 ≤ tv_sec ∧ tv_sec < 2 ^ 63
  normalised : toTimespec.Normalised

structure TimespecOffset where
  ts : Timespec
  ts_valid : Bool
  timestamp : UInt64

/-- Takes both readings, once. The wall clock may not be read. -/
def initTimespecOffset (wall : Option WallReading) (monotonic : UInt64) : TimespecOffset :=
  match wall with
  | some reading => ⟨reading.toTimespec, true, monotonic⟩
  | none => ⟨⟨0, 0⟩, false, monotonic⟩

/-- The seconds and nanoseconds of a timestamp `offset` after the readings. The sums are unsigned, and converted back. -/
def secondsAfter (ts : Timespec) (offset : Nat) : Int × Int :=
  (truncated 64 (ts.tv_sec + (offset / nsecsPerSec : Nat)), truncated 64 (ts.tv_nsec + (offset % nsecsPerSec : Nat)))

/-- The seconds and nanoseconds of a timestamp `offset` before the readings, with a second borrowed where it is needed. -/
def secondsBefore (ts : Timespec) (offset : Nat) : Option (Int × Int) :=
  let nsec_offset : Int := (offset % nsecsPerSec : Nat)
  let sec_offset : Int := (offset / nsecsPerSec : Nat)
  if ts.tv_nsec < nsec_offset then
    (signed 64 (ts.tv_sec - 1)).bind fun tv_sec =>
      (signed 64 (tv_sec - sec_offset)).map fun secs => (secs, ts.tv_nsec + nsecsPerSec - nsec_offset)
  else (signed 64 (ts.tv_sec - sec_offset)).map fun secs => (secs, ts.tv_nsec - nsec_offset)

/-- The carry: taken where the nanoseconds are *more* than a second. -/
def carried (p : Int × Int) : Option Timespec :=
  if p.2 > nsecsPerSec then (signed 64 (p.1 + 1)).map fun secs => ⟨secs, p.2 - nsecsPerSec⟩ else some ⟨p.1, p.2⟩

/-- `none` where an operation overflows, `some none` for a null pointer. -/
def osNstimeToTimespec (kept : TimespecOffset) (timestamp : UInt64) : Option (Option Timespec) :=
  if kept.ts_valid = false then some none
  else
    let split := if kept.timestamp.toNat ≤ timestamp.toNat then some (secondsAfter kept.ts (timestamp.toNat - kept.timestamp.toNat))
      else secondsBefore kept.ts (kept.timestamp.toNat - timestamp.toNat)
    (split.bind carried).map some

section
variable (wall : WallReading) (monotonic timestamp : UInt64)

/-- The wall-clock time of the timestamp: the reading and the signed difference. -/
def meant : Int := wall.nanos + ((timestamp.toNat : Int) - monotonic.toNat)

/-- The time the timestamp means is given, normalised. -/
def Exact : Prop :=
  ∃ t, osNstimeToTimespec (initTimespecOffset (some wall) monotonic) timestamp = some (some t) ∧ t.Normalised ∧
    t.nanos = meant wall monotonic timestamp

/-- The nanoseconds of the reading and those of the difference make one second to the nanosecond. -/
def WholeSecond : Prop :=
  monotonic.toNat ≤ timestamp.toNat ∧ wall.tv_nsec + ((timestamp.toNat - monotonic.toNat) % nsecsPerSec : Nat) = nsecsPerSec

/-- The seconds of the time are a number of 64 bits. -/
def Representable : Prop :=
  -2 ^ 63 * nsecsPerSec ≤ meant wall monotonic timestamp ∧ meant wall monotonic timestamp < 2 ^ 63 * nsecsPerSec

end

theorem map_some_some {x : Option Timespec} {t : Timespec} : x.map some = some (some t) ↔ x = some t := by
  cases x <;> simp

theorem truncated_of_fits {x : Int} (low : -2 ^ 63 ≤ x) (high : x < 2 ^ 63) : truncated 64 x = x := by
  unfold truncated
  rw [Int.bmod_def]
  split <;> omega

theorem truncated_ne {x : Int} (low : 2 ^ 63 ≤ x) (high : x < 2 ^ 64) : truncated 64 x ≠ x := by
  unfold truncated
  rw [Int.bmod_def]
  split <;> omega

theorem truncated_range (x : Int) : -2 ^ 63 ≤ truncated 64 x ∧ truncated 64 x < 2 ^ 63 := by
  unfold truncated
  rw [Int.bmod_def]
  split <;> omega

/-- A sum in seconds and nanoseconds below two seconds is normalised, unless the nanoseconds are one second exactly. -/
theorem carried_iff {p : Int × Int} (fits : -2 ^ 63 ≤ p.1 ∧ p.1 < 2 ^ 63) (low : 0 ≤ p.2) (high : p.2 < 2 * nsecsPerSec) (n : Int) :
    (∃ t, carried p = some t ∧ t.Normalised ∧ t.nanos = n) ↔
      p.1 * nsecsPerSec + p.2 = n ∧ p.2 ≠ nsecsPerSec ∧ n < 2 ^ 63 * nsecsPerSec := by
  obtain ⟨secs, nsecs⟩ := p
  simp only [nsecsPerSec] at *
  by_cases more : nsecs > 1000000000
  · by_cases room : secs + 1 < 2 ^ 63
    · have added : signed 64 (secs + 1) = some (secs + 1) := signed_of_fits (by omega) (by omega)
      simp only [carried, nsecsPerSec, Nat.cast_ofNat, if_pos more, added, Option.map_some, Option.some.injEq, exists_eq_left',
        Timespec.Normalised, Timespec.nanos]
      omega
    · have none' : signed 64 (secs + 1) = none := signed_eq_none (by omega)
      simp only [carried, nsecsPerSec, Nat.cast_ofNat, if_pos more, none', Option.map_none, reduceCtorEq, false_and, exists_false,
        false_iff]
      omega
  · have kept : carried (secs, nsecs) = some ⟨secs, nsecs⟩ := if_neg more
    simp only [kept, nsecsPerSec, Nat.cast_ofNat, Option.some.injEq, exists_eq_left', Timespec.Normalised, Timespec.nanos]
    omega

theorem secondsAfter_iff (wall : WallReading) (offset : Nat) (small : offset < 2 ^ 64) :
    (∃ t, carried (secondsAfter wall.toTimespec offset) = some t ∧ t.Normalised ∧ t.nanos = wall.nanos + offset) ↔
      wall.tv_nsec + (offset % nsecsPerSec : Nat) ≠ nsecsPerSec ∧ wall.nanos + offset < 2 ^ 63 * nsecsPerSec := by
  obtain ⟨atLeast, below⟩ := wall.sec_fits
  obtain ⟨low, high⟩ := wall.normalised
  simp only [nsecsPerSec, Nat.cast_ofNat] at high
  have nsecs : truncated 64 (wall.tv_nsec + (offset % 1000000000 : Nat)) = wall.tv_nsec + (offset % 1000000000 : Nat) :=
    truncated_of_fits (by omega) (by omega)
  have shown : secondsAfter wall.toTimespec offset =
      (truncated 64 (wall.tv_sec + (offset / 1000000000 : Nat)), wall.tv_nsec + (offset % 1000000000 : Nat)) :=
    congrArg (Prod.mk _) nsecs
  have within := truncated_range (wall.tv_sec + (offset / 1000000000 : Nat))
  rw [shown, carried_iff within (by simp only; omega) (by simp only [nsecsPerSec]; omega)]
  simp only [Timespec.nanos, nsecsPerSec, Nat.cast_ofNat]
  -- The unsigned sum of the seconds is theirs exactly where it stays below the sign bit.
  by_cases room : wall.tv_sec + (offset / 1000000000 : Nat) < 2 ^ 63
  · rw [truncated_of_fits (by omega) room]
    omega
  · have other : truncated 64 (wall.tv_sec + (offset / 1000000000 : Nat)) ≠ wall.tv_sec + (offset / 1000000000 : Nat) :=
      truncated_ne (by omega) (by omega)
    omega

theorem signed_iff {x y : Int} : signed 64 x = some y ↔ y = x ∧ -2 ^ 63 ≤ x ∧ x < 2 ^ 63 := by
  unfold signed
  simp only [Option.ite_none_right_eq_some, Option.some.injEq]
  constructor
  · rintro ⟨fits, rfl⟩
    exact ⟨rfl, fits⟩
  · rintro ⟨rfl, fits⟩
    exact ⟨fits, rfl⟩

theorem secondsBefore_iff (wall : WallReading) (offset : Nat) :
    (∃ t, (secondsBefore wall.toTimespec offset).bind carried = some t ∧ t.Normalised ∧ t.nanos = wall.nanos - offset) ↔
      -2 ^ 63 * nsecsPerSec ≤ wall.nanos - offset := by
  obtain ⟨atLeast, below⟩ := wall.sec_fits
  obtain ⟨low, high⟩ := wall.normalised
  simp only [nsecsPerSec, Nat.cast_ofNat] at high
  have parts : ∀ p, secondsBefore wall.toTimespec offset = some p ↔
      -2 ^ 63 ≤ p.1 ∧ 0 ≤ p.2 ∧ p.2 < 1000000000 ∧ p.1 * 1000000000 + p.2 = wall.nanos - offset := by
    intro ⟨secs, nsecs⟩
    simp only [secondsBefore, nsecsPerSec, Timespec.nanos, Nat.cast_ofNat]
    by_cases borrow : wall.tv_nsec < (offset % 1000000000 : Nat)
    · rw [if_pos borrow]
      simp only [Option.bind_eq_some_iff, Option.map_eq_some_iff, signed_iff, Prod.mk.injEq]
      constructor
      · rintro ⟨_, ⟨rfl, _⟩, _, ⟨rfl, _⟩, rfl, rfl⟩
        omega
      · intro exact'
        exact ⟨_, ⟨rfl, by omega⟩, _, ⟨rfl, by omega⟩, by omega, by omega⟩
    · simp only [if_neg borrow, Option.map_eq_some_iff, signed_iff, Prod.mk.injEq]
      constructor
      · rintro ⟨_, ⟨rfl, _⟩, rfl, rfl⟩
        omega
      · intro exact'
        exact ⟨_, ⟨rfl, by omega⟩, by omega, by omega⟩
  simp only [Option.bind_eq_some_iff, parts]
  constructor
  · rintro ⟨t, ⟨p, ⟨fits, least, most, same⟩, carry⟩, normal, _⟩
    rw [← same]
    simp only [nsecsPerSec]
    omega
  · intro fits
    simp only [nsecsPerSec, Nat.cast_ofNat, Timespec.nanos] at fits ⊢
    refine ⟨⟨(wall.nanos - offset) / 1000000000, (wall.nanos - offset) % 1000000000⟩, ⟨⟨_, _⟩, ⟨?_, ?_, ?_, ?_⟩, if_neg ?_⟩, ⟨?_, ?_⟩, ?_⟩ <;>
      simp only [nsecsPerSec, Nat.cast_ofNat, Timespec.nanos] <;> omega

/-- The time is exact, unless the nanoseconds add up to one second or the seconds outgrow their type. -/
theorem nstime_exact_iff (wall : WallReading) (monotonic timestamp : UInt64) :
    Exact wall monotonic timestamp ↔ ¬ WholeSecond wall monotonic timestamp ∧ Representable wall monotonic timestamp := by
  have split : Exact wall monotonic timestamp ↔
      ∃ t, (if monotonic.toNat ≤ timestamp.toNat then some (secondsAfter wall.toTimespec (timestamp.toNat - monotonic.toNat))
        else secondsBefore wall.toTimespec (monotonic.toNat - timestamp.toNat)).bind carried = some t ∧ t.Normalised ∧
          t.nanos = meant wall monotonic timestamp := by
    simp only [Exact, osNstimeToTimespec, initTimespecOffset, Bool.true_eq_false, if_false, map_some_some]
    rfl
  obtain ⟨atLeast, below⟩ := wall.sec_fits
  obtain ⟨low, high⟩ := wall.normalised
  rw [split]
  by_cases after : monotonic.toNat ≤ timestamp.toNat
  · have offset : ((timestamp.toNat - monotonic.toNat : Nat) : Int) = timestamp.toNat - monotonic.toNat := by omega
    have step := secondsAfter_iff wall (timestamp.toNat - monotonic.toNat) (by have := timestamp.toNat_lt; omega)
    simp only [if_pos after, Option.bind_some, meant, offset] at step ⊢
    rw [step]
    simp only [WholeSecond, Representable, meant, after, true_and, ne_eq, and_congr_right_iff]
    simp only [Timespec.nanos, nsecsPerSec, Nat.cast_ofNat]
    omega
  · have offset : ((monotonic.toNat - timestamp.toNat : Nat) : Int) = monotonic.toNat - timestamp.toNat := by omega
    have step := secondsBefore_iff wall (monotonic.toNat - timestamp.toNat)
    have same : meant wall monotonic timestamp = wall.nanos - ((monotonic.toNat - timestamp.toNat : Nat) : Int) := by
      unfold meant
      omega
    simp only [if_neg after, same]
    rw [step]
    simp only [WholeSecond, Representable, after, false_and, not_false_eq_true, true_and, same]
    simp only [Timespec.nanos, nsecsPerSec, Nat.cast_ofNat] at high ⊢
    omega

/-- One nanosecond past the second, and a timestamp of one nanosecond less than a second later: a billion nanoseconds. -/
theorem not_always_nstime_exact : ∃ (wall : WallReading) (monotonic timestamp : UInt64), ¬ Exact wall monotonic timestamp := by
  refine ⟨⟨⟨1700000000, 1⟩, by decide, by decide, by decide⟩, 0, 999999999, ?_⟩
  rintro ⟨t, given, ⟨_, high⟩, _⟩
  have result : osNstimeToTimespec (initTimespecOffset (some ⟨⟨1700000000, 1⟩, by decide, by decide, by decide⟩) 0) 999999999 =
      some (some ⟨1700000000, 1000000000⟩) := by decide
  obtain rfl := Option.some.inj (Option.some.inj (given.symm.trans result))
  exact absurd high (by decide)

end Braidcast.Util
