import Braidcast.Rtmp.Encoders
import Mathlib.Algebra.Order.Ring.Abs
import Mathlib.Data.List.GetD
import Mathlib.Tactic.Linarith

/-!
# The bitrates of a table

What `dbr_set_bitrate` gives the encoders between them, next to the bitrate that was decided.
-/
namespace Braidcast.Rtmp

/-! ### Shares -/

section Shares

variable {o r : Int} {δ : Nat → Int} {indices : List Nat}

/-- A share that is cut to a whole number lies between nothing and the whole. -/
theorem tdiv_between (positive : 0 < o) (low : 0 ≤ r) (high : r ≤ o) (d : Int) :
    min 0 d ≤ (d * r).tdiv o ∧ (d * r).tdiv o ≤ max 0 d := by
  have whole := Int.mul_tdiv_add_tmod (d * r) o
  have above := Int.lt_tmod_of_pos (d * r) positive
  rcases Int.le_total 0 d with up | down
  · have least : 0 ≤ d * r := Int.mul_nonneg up low
    have most : d * r ≤ d * o := Int.mul_le_mul_of_nonneg_left high up
    have rest := Int.tmod_nonneg o least
    rw [min_eq_left up, max_eq_right up]
    constructor
    · exact Int.tdiv_nonneg least positive.le
    · exact Int.le_of_mul_le_mul_left (by linarith) positive
  · have most : d * r ≤ 0 := Int.mul_nonpos_of_nonpos_of_nonneg down low
    have least : d * o ≤ d * r := mul_le_mul_of_nonpos_left high down
    have rest : (d * r).tmod o ≤ 0 := by
      have flipped := Int.tmod_nonneg o (Int.neg_nonneg.mpr most)
      rw [Int.neg_tmod] at flipped
      exact Int.neg_nonneg.mp flipped
    rw [min_eq_right down, max_eq_left down]
    constructor
    · exact Int.le_of_mul_le_mul_left (by linarith) positive
    · exact Int.le_of_lt_add_one (Int.lt_of_mul_lt_mul_left (by linarith) positive.le)

/-- Each share is off by less than one, and one of nothing is not off. -/
theorem shares_off (positive : 0 < o) (present : Nat → Bool) (absent : ∀ i ∈ indices, present i = false → δ i = 0) :
    |o * (indices.map fun i => (δ i * r).tdiv o).sum - r * (indices.map δ).sum| ≤ (o - 1) * (indices.countP present : Nat) := by
  induction indices with
  | nil => simp
  | cons i rest ih =>
    have others := ih fun j member => absent j (List.mem_cons_of_mem _ member)
    have whole := Int.mul_tdiv_add_tmod (δ i * r) o
    have above := Int.lt_tmod_of_pos (δ i * r) positive
    have below := Int.tmod_lt_of_pos (δ i * r) positive
    simp only [List.map_cons, List.sum_cons, List.countP_cons]
    rw [abs_le] at others ⊢
    cases here : present i with
    | true =>
      simp only [if_true, Nat.cast_add, Nat.cast_one]
      constructor <;> linarith
    | false =>
      simp only [absent i List.mem_cons_self here, Int.zero_mul, Int.zero_tdiv, Bool.false_eq_true, if_false, Nat.add_zero, Int.zero_add]
      exact others

/-- The shares of a whole that add up to it come to less than their number beside the part. -/
theorem shares_sum (positive : 0 < o) (present : Nat → Bool) (absent : ∀ i ∈ indices, present i = false → δ i = 0)
    (all : (indices.map δ).sum = o) (some : 0 < indices.countP present) :
    |(indices.map fun i => (δ i * r).tdiv o).sum - r| < (indices.countP present : Nat) := by
  have off := shares_off positive (r := r) present absent
  rw [all, Int.mul_comm r o, ← Int.mul_sub, abs_mul, abs_of_pos positive] at off
  have less : (o - 1) * (indices.countP present : Nat) < o * (indices.countP present : Nat) :=
    Int.mul_lt_mul_of_pos_right (by omega) (by omega)
  exact Int.lt_of_mul_lt_mul_left (Int.lt_of_le_of_lt off less) positive.le

end Shares

/-! ### Levels -/

/-- A table of levels that rise, for the encoders the output has. Its sums are numbers that a `long` holds. -/
structure Levels (bits : Nat) (encoders : Nat → Option VideoEncoder) (table : List InterpolationPoint) : Prop where
  some : table ≠ []
  nonneg : ∀ point ∈ table, ∀ i ∈ encoderIndices, 0 ≤ point i
  rising : table.Pairwise fun a b => a.total ≤ b.total
  present : ∀ point ∈ table, ∀ i ∈ encoderIndices, encoders i = none → point i = 0
  wide : 0 < bits
  fits : ∀ point ∈ table, point.total < 2 ^ (bits - 1)

def lowest (table : List InterpolationPoint) : Int := (column table 0).total

def highest (table : List InterpolationPoint) : Int := (column table (table.length - 1)).total

def encoderCount (encoders : Nat → Option VideoEncoder) : Nat := encoderIndices.countP fun i => (encoders i).isSome

/-- The encoders at a bitrate that has been decided. -/
def appliedAt (bits : Nat) (table : List InterpolationPoint) (encoders : Nat → Option VideoEncoder) (bitrate : Int) :
    Nat → Option VideoEncoder :=
  RtmpStream.dbrSetBitrate bits Session.wholeScale { dbrInterpolationTable := table, dbrCurBitrate := bitrate } encoders

/-- What the encoders are given between them. -/
def given (bits : Nat) (table : List InterpolationPoint) (encoders : Nat → Option VideoEncoder) (bitrate : Int) : Int :=
  (encoderIndices.map (bitrateOf (appliedAt bits table encoders bitrate))).sum

/-- The bitrate is applied: to within one for each encoder, and none below zero. -/
structure Applied (bits : Nat) (table : List InterpolationPoint) (encoders : Nat → Option VideoEncoder) (bitrate : Int) : Prop where
  near : |given bits table encoders bitrate - max (lowest table) (min bitrate (highest table))| < encoderCount encoders
  nonneg : ∀ i ∈ encoderIndices, 0 ≤ bitrateOf (appliedAt bits table encoders bitrate) i

/-- There is an encoder, and the bitrate reaches the lowest level or the levels are no further apart than the encoders round. -/
def Reaches (table : List InterpolationPoint) (encoders : Nat → Option VideoEncoder) (bitrate : Int) : Prop :=
  0 < encoderCount encoders ∧ (lowest table ≤ bitrate ∨ highest table - lowest table < encoderCount encoders)

variable {bits : Nat} {table : List InterpolationPoint} {encoders : Nat → Option VideoEncoder} {bitrate : Int}

theorem long_of_fits {x : Int} (low : -2 ^ (bits - 1) < x) (high : x < 2 ^ (bits - 1)) (wide : 0 < bits) : long bits x = x := by
  have split : (2 : Int) ^ bits = 2 * 2 ^ (bits - 1) := by
    obtain ⟨k, rfl⟩ : ∃ k, bits = k + 1 := ⟨bits - 1, by omega⟩
    rw [Nat.add_sub_cancel, Int.pow_succ, Int.mul_comm]
  refine Int.bmod_eq_of_le ?_ ?_ <;> push_cast <;> omega

theorem sum_sub (f g : Nat → Int) : (encoderIndices.map fun i => f i - g i).sum = (encoderIndices.map f).sum - (encoderIndices.map g).sum := by
  induction encoderIndices with
  | nil => rfl
  | cons i rest ih =>
    simp only [List.map_cons, List.sum_cons, ih]
    omega

namespace Levels

variable (levels : Levels bits encoders table)
include levels

omit levels in
theorem column_mem (i : Nat) (inside : i < table.length) : column table i ∈ table := by
  rw [column, List.getD_eq_getElem _ _ inside]
  exact List.getElem_mem inside

theorem total_le {i j : Nat} (le : i ≤ j) (inside : j < table.length) : (column table i).total ≤ (column table j).total := by
  rcases Nat.eq_or_lt_of_le le with rfl | less
  · exact le_rfl
  · rw [column, column, List.getD_eq_getElem _ _ (less.trans inside), List.getD_eq_getElem _ _ inside]
    exact List.pairwise_iff_getElem.mp levels.rising i j (less.trans inside) inside less

variable {point : InterpolationPoint}

theorem entry_le (member : point ∈ table) {i : Nat} (index : i ∈ encoderIndices) :
    point i ≤ point.total :=
  List.single_le_sum (by simpa using levels.nonneg point member) _ (List.mem_map_of_mem index)

theorem total_nonneg (member : point ∈ table) : 0 ≤ point.total :=
  List.sum_nonneg (by simpa using levels.nonneg point member)

theorem long_total (member : point ∈ table) : long bits point.total = point.total := by
  have low := levels.total_nonneg member
  have positive : (0 : Int) < 2 ^ (bits - 1) := Int.pow_pos (by decide)
  exact long_of_fits (by omega) (levels.fits point member) levels.wide

/-- The base column: the last one for a bitrate below every level, else the one below the bitrate. -/
theorem baseColumn_cases (bitrate : Int) :
    (bitrate < lowest table ∧ baseColumn bits table bitrate = table.length - 1) ∨
      (highest table ≤ bitrate ∧ baseColumn bits table bitrate = table.length - 1) ∨
      (baseColumn bits table bitrate + 1 < table.length ∧ (column table (baseColumn bits table bitrate)).total ≤ bitrate ∧
        bitrate < (column table (baseColumn bits table bitrate + 1)).total) := by
  obtain ⟨k, first⟩ : ∃ k, k = table.findIdx fun point => !decide (long bits point.total ≤ bitrate) := ⟨_, rfl⟩
  have most : k ≤ table.length := first ▸ List.findIdx_le_length
  have count : (table.takeWhile fun point => decide (long bits point.total ≤ bitrate)).length = k := by
    rw [List.takeWhile_eq_take_findIdx_not, List.length_take, ← first, min_eq_left most]
  have filled : 0 < table.length := List.length_pos_iff.mpr levels.some
  have base : baseColumn bits table bitrate = (if k = 0 then table.length else k) - 1 := by rw [← count]; rfl
  have exact_ (j : Nat) (inside : j < table.length) : long bits (table[j]).total = (column table j).total := by
    rw [levels.long_total (List.getElem_mem inside), column, List.getD_eq_getElem _ _ inside]
  have within (j : Nat) (less : j < k) : (column table j).total ≤ bitrate := by
    have passed := List.not_of_lt_findIdx (first ▸ less)
    rw [Bool.not_eq_false', decide_eq_true_eq, exact_ j (by omega)] at passed
    exact passed
  have beyond (inside : k < table.length) : bitrate < (column table k).total := by
    have stopped := List.findIdx_getElem (w := first ▸ inside)
    simp only [← first, Bool.not_eq_true', decide_eq_false_iff_not, exact_ k inside] at stopped
    exact Int.lt_of_not_ge stopped
  rw [base]
  split
  next none =>
    have below := beyond (by omega)
    rw [none] at below
    exact .inl ⟨below, rfl⟩
  next some =>
    rcases Nat.eq_or_lt_of_le most with all | less
    · refine .inr (.inl ⟨?_, by rw [all]⟩)
      rw [highest, ← all]
      exact within _ (by omega)
    · refine .inr (.inr ⟨by omega, within _ (by omega), ?_⟩)
      rw [Nat.sub_add_cancel (by omega)]
      exact beyond less

/-- Between two levels each encoder has its share of the difference. `part` is how far the bitrate is above the lower one. -/
theorem bitrateOf_appliedAt {base upper : InterpolationPoint} {overall part : Int} (low : base ∈ table) (high : upper ∈ table)
    (first : column table (baseColumn bits table bitrate) = base)
    (next : column table (min (baseColumn bits table bitrate + 1) (table.length - 1)) = upper)
    (whole : max 1 (upper.total - base.total) = overall) (within : long bits (bitrate - base.total) = part)
    (shares : base = upper ∨ 0 ≤ part ∧ part ≤ overall) {i : Nat} (index : i ∈ encoderIndices) :
    let share := ((upper i - base i) * min part overall).tdiv overall
    bitrateOf (appliedAt bits table encoders bitrate) i = base i + share ∧ 0 ≤ base i + share := by
  have leastB := levels.nonneg base low
  have leastU := levels.nonneg upper high
  have fitsB := levels.fits base low
  have fitsU := levels.fits upper high
  have entryB (j : Nat) (there : j ∈ encoderIndices) := levels.entry_le low there
  have entryU (j : Nat) (there : j ∈ encoderIndices) := levels.entry_le high there
  have delta : ∀ j ∈ encoderIndices, long bits (upper j - base j) = upper j - base j := fun j there => by
    have := leastB j there
    have := leastU j there
    have := entryB j there
    have := entryU j there
    exact long_of_fits (by omega) (by omega) levels.wide
  have sum : long bits (encoderIndices.map fun j => long bits (upper j - base j)).sum = upper.total - base.total := by
    have same : (encoderIndices.map fun j => long bits (upper j - base j)).sum = upper.total - base.total := by
      rw [Session.sum_indices_congr delta]
      simp only [InterpolationPoint.total, sum_sub]
    have := levels.total_nonneg low
    have := levels.total_nonneg high
    rw [same]
    exact long_of_fits (by omega) (by omega) levels.wide
  have between : min 0 (upper i - base i) ≤ ((upper i - base i) * min part overall).tdiv overall ∧
      ((upper i - base i) * min part overall).tdiv overall ≤ max 0 (upper i - base i) := by
    rcases shares with rfl | ⟨least, most⟩
    · simp
    · rw [min_eq_left most]
      exact tdiv_between (by omega) least most _
  have := leastB i index
  have := leastU i index
  have := entryB i index
  have := entryU i index
  refine ⟨?_, by omega⟩
  have here : appliedAt bits table encoders bitrate i = (encoders i).map fun enc =>
      { enc with bitrate := long bits (base i + ((upper i - base i) * min part overall).tdiv overall) } := by
    unfold appliedAt RtmpStream.dbrSetBitrate
    simp only [List.isEmpty_iff, levels.some, if_false, first, next, sum, whole, within, delta i index, Session.wholeScale]
  rw [bitrateOf, here]
  cases there : encoders i with
  | none => simp [levels.present base low i index there, levels.present upper high i index there]
  | some enc => exact long_of_fits (by omega) (by omega) levels.wide

/-- Starting from the last column each encoder has the highest level. -/
theorem appliedAt_last (last : baseColumn bits table bitrate = table.length - 1) {i : Nat} (index : i ∈ encoderIndices) :
    bitrateOf (appliedAt bits table encoders bitrate) i = column table (table.length - 1) i := by
  have filled : 0 < table.length := List.length_pos_iff.mpr levels.some
  have member := column_mem (table.length - 1) (by omega : table.length - 1 < table.length)
  have next : min (baseColumn bits table bitrate + 1) (table.length - 1) = table.length - 1 := by omega
  obtain ⟨here, -⟩ := levels.bitrateOf_appliedAt member member (by rw [last]) (by rw [next]) rfl rfl (.inl rfl) index
  simpa using here

/-- With room above, the bitrate is that of the encoders to within one for each. -/
theorem given_near (some : 0 < encoderCount encoders) (nonneg : 0 ≤ bitrate) (fits : bitrate < 2 ^ (bits - 1))
    (room : baseColumn bits table bitrate + 1 < table.length)
    (low : (column table (baseColumn bits table bitrate)).total ≤ bitrate)
    (high : bitrate < (column table (baseColumn bits table bitrate + 1)).total) :
    |given bits table encoders bitrate - bitrate| < encoderCount encoders ∧
      ∀ i ∈ encoderIndices, 0 ≤ bitrateOf (appliedAt bits table encoders bitrate) i := by
  obtain ⟨base, first⟩ : ∃ base, column table (baseColumn bits table bitrate) = base := ⟨_, rfl⟩
  obtain ⟨upper, next⟩ : ∃ upper, column table (baseColumn bits table bitrate + 1) = upper := ⟨_, rfl⟩
  have memberB : base ∈ table := first ▸ column_mem _ (by omega)
  have memberU : upper ∈ table := next ▸ column_mem _ room
  rw [first] at low
  rw [next] at high
  have leastB := levels.total_nonneg memberB
  have within : long bits (bitrate - base.total) = bitrate - base.total := long_of_fits (by omega) (by omega) levels.wide
  have shares {i : Nat} (index : i ∈ encoderIndices) := levels.bitrateOf_appliedAt memberB memberU first
    (by rw [min_eq_left (by omega), next]) (max_eq_right (by omega) : _ = upper.total - base.total) within (.inr ⟨by omega, by omega⟩) index
  refine ⟨?_, fun i index => by rw [(shares index).1]; exact (shares index).2⟩
  have absent : ∀ i ∈ encoderIndices, (encoders i).isSome = false → upper i - base i = 0 := fun i index none => by
    rw [Option.isSome_eq_false_iff, Option.isNone_iff_eq_none] at none
    rw [levels.present upper memberU i index none, levels.present base memberB i index none, Int.sub_zero]
  have whole : (encoderIndices.map fun i => upper i - base i).sum = upper.total - base.total := sum_sub upper base
  have sum := shares_sum (o := upper.total - base.total) (r := bitrate - base.total) (by omega) (fun i => (encoders i).isSome)
    absent whole some
  have added : given bits table encoders bitrate =
      base.total + (encoderIndices.map fun i => ((upper i - base i) * (bitrate - base.total)).tdiv (upper.total - base.total)).sum := by
    rw [given, Session.sum_indices_congr fun i index => (shares index).1, min_eq_left (by omega)]
    simp only [InterpolationPoint.total, List.sum_map_add]
  have less (shares : Int) : base.total + shares - bitrate = shares - (bitrate - base.total) := by omega
  rw [added, less]
  exact sum

/-- The bitrate is applied where it reaches the lowest level, and else where the levels are next to one another. -/
theorem applied_iff (nonneg : 0 ≤ bitrate) (fits : bitrate < 2 ^ (bits - 1)) :
    Applied bits table encoders bitrate ↔ Reaches table encoders bitrate := by
  have filled : 0 < table.length := List.length_pos_iff.mpr levels.some
  have member := column_mem (table.length - 1) (by omega : table.length - 1 < table.length)
  have order : lowest table ≤ highest table := levels.total_le (Nat.zero_le _) (by omega)
  have last (at_ : baseColumn bits table bitrate = table.length - 1) : given bits table encoders bitrate = highest table ∧
      ∀ i ∈ encoderIndices, 0 ≤ bitrateOf (appliedAt bits table encoders bitrate) i :=
    ⟨Session.sum_indices_congr fun i index => levels.appliedAt_last at_ index,
      fun i index => levels.appliedAt_last at_ index ▸ levels.nonneg _ member i index⟩
  have some_ (near : Applied bits table encoders bitrate) : 0 < encoderCount encoders := by
    have off := near.near
    have least := abs_nonneg (given bits table encoders bitrate - max (lowest table) (min bitrate (highest table)))
    omega
  unfold Reaches
  rcases levels.baseColumn_cases bitrate with ⟨below, at_⟩ | ⟨above, at_⟩ | ⟨room, low, high⟩
  · obtain ⟨all, each⟩ := last at_
    have clamp : max (lowest table) (min bitrate (highest table)) = lowest table := by omega
    have off : |highest table - lowest table| = highest table - lowest table := abs_of_nonneg (by omega)
    refine ⟨fun near => ⟨some_ near, .inr ?_⟩, fun ⟨_, reach⟩ => ⟨?_, each⟩⟩
    · have near := near.near
      rwa [all, clamp, off] at near
    · rw [all, clamp, off]
      exact reach.resolve_left (by omega)
  · obtain ⟨all, each⟩ := last at_
    have clamp : max (lowest table) (min bitrate (highest table)) = highest table := by omega
    refine ⟨fun near => ⟨some_ near, .inl (by omega)⟩, fun ⟨some, _⟩ => ⟨?_, each⟩⟩
    rw [all, clamp]
    simpa using some
  · have least := levels.total_le (Nat.zero_le (baseColumn bits table bitrate)) (by omega)
    have most := levels.total_le (show baseColumn bits table bitrate + 1 ≤ table.length - 1 by omega) (by omega)
    have clamp : max (lowest table) (min bitrate (highest table)) = bitrate := by
      unfold lowest highest
      omega
    refine ⟨fun near => ⟨some_ near, .inl (by unfold lowest; omega)⟩, fun ⟨some, _⟩ => ?_⟩
    obtain ⟨near, each⟩ := levels.given_near some nonneg fits room low high
    exact ⟨by rwa [clamp], each⟩

end Levels

/-- Two bitrates are applied, and so in their order but for the rounding of each. -/
theorem bitrates_applied_iff (levels : Levels bits encoders table) {lower higher : Int} (nonneg : 0 ≤ lower) (le : lower ≤ higher)
    (fits : higher < 2 ^ (bits - 1)) :
    (Applied bits table encoders lower ∧ Applied bits table encoders higher ∧
        given bits table encoders lower < given bits table encoders higher + 2 * encoderCount encoders) ↔
      Reaches table encoders lower ∧ Reaches table encoders higher := by
  rw [← levels.applied_iff nonneg (Int.lt_of_le_of_lt le fits), ← levels.applied_iff (Int.le_trans nonneg le) fits]
  refine ⟨fun ⟨first, second, _⟩ => ⟨first, second⟩, fun ⟨first, second⟩ => ⟨first, second, ?_⟩⟩
  obtain ⟨_, above⟩ := abs_lt.mp first.near
  obtain ⟨below, _⟩ := abs_lt.mp second.near
  omega

/-- The user's table of one encoder, `[[2000, 3000, 6000]]`. -/
def userTable : List InterpolationPoint := (List.range 3).map (OutputInfo.entry 64 (.array [.array [.integer 2000, .integer 3000, .integer 6000]]))

theorem userTable_levels : Levels 64 Session.encoder userTable where
  some := by decide
  nonneg := by decide
  rising := by decide
  present := by decide
  wide := by decide
  fits := by decide

theorem bitrates_applied_user : (Applied 64 userTable Session.encoder 2500 ∧ Applied 64 userTable Session.encoder 7000 ∧
    given 64 userTable Session.encoder 2500 < given 64 userTable Session.encoder 7000 + 2 * encoderCount Session.encoder) ∧
      given 64 userTable Session.encoder 2500 = 2500 := by
  have reaches : Reaches userTable Session.encoder 2500 ∧ Reaches userTable Session.encoder 7000 := by
    unfold Reaches
    decide
  exact ⟨(bitrates_applied_iff userTable_levels (by decide) (by decide) (by decide)).mpr reaches, by decide⟩

/-- A bitrate below the user's levels is given the highest of them. -/
theorem not_always_applied : ∃ root, OutputInfo.buildDbrInterpolationTable 64 Session.dynamic (some root) = some userTable ∧
    Levels 64 Session.encoder userTable ∧ given 64 userTable Session.encoder 1000 = 6000 ∧
      ¬ Applied 64 userTable Session.encoder 1000 := by
  refine ⟨.array [.array [.integer 2000, .integer 3000, .integer 6000]], rfl, userTable_levels, by decide, fun applied => ?_⟩
  have near := applied.near
  revert near
  decide

end Braidcast.Rtmp
