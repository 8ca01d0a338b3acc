import Mathlib.Algebra.Order.BigOperators.Group.List
import Mathlib.Data.UInt
import Braidcast.Rtmp.Connect

/-!
# The bounds of the bitrate

From one `init_connect` to the next the bitrate stays between its floor and its target, unless it goes
back to a `dbr_prev_bitrate` that an earlier connection left: `init_connect` resets everything but that.
-/
namespace Braidcast.Rtmp

open Lib

/-- A step that moves the bitrate, or the queue that it goes by. -/
inductive DbrEvent where
  | connect (o : OutputInfo)
  | queue (packets : List Packet) (lastDtsUsec : Int)
  | addFrame (back : DbrFrame)
  | check (r : Readings) (pframes : Bool)
  | sendThreadEnds

namespace RtmpStream

def dbrStep (bits : Nat) (s : RtmpStream) : DbrEvent → RtmpStream
  | .connect o => (s.initConnect bits o).1
  | .queue packets lastDtsUsec => { s with packets := packets, lastDtsUsec := lastDtsUsec }
  | .addFrame back => s.dbrAddFrame bits back
  | .check r pframes => s.checkToDropFrames bits r pframes
  | .sendThreadEnds => s.resetBitrate.1

/-- The clock does not wrap, and no encoder has a negative bitrate. -/
def Allowed : DbrEvent → Prop
  | .connect o => ∀ i ∈ encoderIndices, 0 ≤ o.bitrate i
  | .check r _ => r.atRaise.toNat + DBR_INC_TIMER.toNat < 2 ^ 64 ∧ r.atLower.toNat + DBR_INC_TIMER.toNat < 2 ^ 64
  | _ => True

/-- What is promised of the bitrate. -/
structure Within (s : RtmpStream) : Prop where
  floor_le : s.dbrFloorBitrate ≤ s.dbrCurBitrate
  le_orig : s.dbrCurBitrate ≤ s.dbrOrigBitrate
  size : s.dbrDataSize = (s.dbrFrames.map DbrFrame.size).sum
  due : s.dbrCurBitrate < s.dbrOrigBitrate → s.dbrIncTimeout ≠ 0

/-- Where `dbr_bitrate_lowered` says so, the bitrate is lower. -/
def Lowers (bits : Nat) (s : RtmpStream) : DbrEvent → Prop
  | .check r pframes =>
    let raised := (s.raiseIfDue bits r pframes).1
    (raised.relieve r pframes).2 = true → (raised.relieve r pframes).1.dbrCurBitrate < raised.dbrCurBitrate
  | _ => True

/-- `check_to_drop_frames` asks `dbr_bitrate_lowered`. -/
def Asks (s : RtmpStream) (pframes : Bool) : Prop :=
  pframes = false ∧ s.dbrEnabled = true ∧ s.bufferDuration.any (fun duration => DBR_TRIGGER_USEC ≤ duration % 2 ^ 64) = true

instance (s : RtmpStream) (pframes : Bool) : Decidable (s.Asks pframes) := inferInstanceAs (Decidable (_ ∧ _ ∧ _))

/-- A bitrate that is gone back to is no higher than the target, and the sums and products that
`init_connect` and `dbr_inc_bitrate` make of the target fit a `long`. -/
def Ok (bits : Nat) (s : RtmpStream) : DbrEvent → Prop
  | .connect o =>
    let orig := o.videoBitrate
    long bits orig = orig ∧ long bits (orig + orig.tdiv 10) = orig + orig.tdiv 10 ∧
      long bits (orig * o.floorPct bits) = orig * o.floorPct bits
  | .check r pframes =>
    let raised := (s.raiseIfDue bits r pframes).1
    raised.Asks pframes → raised.estimate = 0 → raised.dbrPrevBitrate ≤ raised.dbrOrigBitrate
  | _ => True

instance (e : DbrEvent) : Decidable (Allowed e) :=
  match e with
  | .connect o => inferInstanceAs (Decidable (∀ i ∈ encoderIndices, 0 ≤ o.bitrate i))
  | .check _ _ => inferInstanceAs (Decidable (_ ∧ _))
  | .queue _ _ | .addFrame _ | .sendThreadEnds => isTrue trivial

instance (bits : Nat) (s : RtmpStream) (e : DbrEvent) : Decidable (s.Ok bits e) :=
  match e with
  | .connect _ => inferInstanceAs (Decidable (_ ∧ _ ∧ _))
  | .check _ _ => inferInstanceAs (Decidable (_ → _ → _))
  | .queue _ _ | .addFrame _ | .sendThreadEnds => isTrue trivial

/-! ### The invariant -/

structure Inv (bits : Nat) (s : RtmpStream) : Prop extends Within s where
  floor_nonneg : 0 ≤ s.dbrFloorBitrate
  inc_nonneg : 0 ≤ s.dbrIncBitrate
  fits : long bits (s.dbrOrigBitrate + s.dbrIncBitrate) = s.dbrOrigBitrate + s.dbrIncBitrate
  est : s.dbrEstBitrate = 0 ∨ 50 ≤ s.dbrEstBitrate
  prev_nonneg : 0 ≤ s.dbrPrevBitrate
  -- the second case is what an earlier connection left
  prev : s.dbrPrevBitrate ≤ s.dbrCurBitrate ∨
    s.dbrOrigBitrate < s.dbrPrevBitrate ∧ s.dbrCurBitrate = s.dbrOrigBitrate

variable {bits : Nat} {s t : RtmpStream} {now : UInt64} {r : Readings} {pframes : Bool} {e : DbrEvent}

theorem long_of_le {x y : Int} (fits : long bits y = y) (low : 0 ≤ x) (high : x ≤ y) : long bits x = x := by
  have positive : 0 < 2 ^ bits := Nat.two_pow_pos bits
  have bound : long bits y < ((2 ^ bits : Nat) + 1) / 2 := Int.bmod_lt positive
  rw [fits] at bound
  exact Int.bmod_eq_of_le (by omega) (by omega)

theorem timeout_ne_zero (clock : now.toNat + DBR_INC_TIMER.toNat < 2 ^ 64) : now + DBR_INC_TIMER ≠ 0 := by
  intro zero
  have sum := UInt64.toNat_add now DBR_INC_TIMER
  rw [zero, Nat.mod_eq_of_lt clock] at sum
  have positive : 0 < DBR_INC_TIMER.toNat := by decide
  rw [UInt64.toNat_zero] at sum
  omega

theorem inv_zero : Inv bits {} where
  floor_le := le_rfl
  le_orig := le_rfl
  size := rfl
  due := fun below => absurd below (lt_irrefl _)
  floor_nonneg := le_rfl
  inc_nonneg := le_rfl
  fits := by simp [long]
  est := .inl rfl
  prev_nonneg := le_rfl
  prev := .inl le_rfl

/-! ### Frames -/

section

variable (inv : s.Inv bits)
include inv

theorem Inv.addFrame (back : DbrFrame) : (s.dbrAddFrame bits back).Inv bits where
  floor_le := inv.floor_le
  le_orig := inv.le_orig
  due := inv.due
  floor_nonneg := inv.floor_nonneg
  inc_nonneg := inv.inc_nonneg
  fits := inv.fits
  prev_nonneg := inv.prev_nonneg
  prev := inv.prev
  est := estBitrate_cases ..
  size := by
    have total : ((s.dbrFrames ++ [back]).map DbrFrame.size).sum = s.dbrDataSize + back.size := by
      rw [inv.size]
      simp
    simp only [dbrAddFrame]
    split
    · cases frames : s.dbrFrames ++ [back] with
      | nil => simp at frames
      | cons front rest =>
        rw [frames] at total
        simp only [List.map_cons, List.sum_cons] at total
        rw [List.headD_cons, List.tail_cons, ← total, UInt64.add_comm, UInt64.add_sub_cancel]
    · exact total.symm

/-! ### Raising -/

theorem Inv.cur_nonneg : 0 ≤ s.dbrCurBitrate := le_trans inv.floor_nonneg inv.floor_le

theorem Inv.long_raised :
    long bits (s.dbrCurBitrate + s.dbrIncBitrate) = s.dbrCurBitrate + s.dbrIncBitrate :=
  long_of_le inv.fits (Int.add_nonneg inv.cur_nonneg inv.inc_nonneg) (Int.add_le_add_right inv.le_orig _)

theorem Inv.incBitrate (clock : now.toNat + DBR_INC_TIMER.toNat < 2 ^ 64) :
    ({ s with dbrIncTimeout := 0 }.dbrIncBitrate_ bits now).Inv bits := by
  have rises : s.dbrCurBitrate ≤ s.dbrCurBitrate + s.dbrIncBitrate := Int.le_add_of_nonneg_right inv.inc_nonneg
  simp only [dbrIncBitrate_, inv.long_raised]
  split
  case isTrue reaches =>
    constructor
    case toWithin => exact ⟨le_trans inv.floor_le inv.le_orig, le_rfl, inv.size, fun below => absurd below (lt_irrefl _)⟩
    case prev => exact .inl inv.le_orig
    case prev_nonneg => exact inv.cur_nonneg
    case floor_nonneg => exact inv.floor_nonneg
    case inc_nonneg => exact inv.inc_nonneg
    case fits => exact inv.fits
    case est => exact inv.est
  case isFalse short =>
    constructor
    case toWithin => exact ⟨le_trans inv.floor_le rises, le_of_lt (not_le.mp short), inv.size, fun _ => timeout_ne_zero clock⟩
    case prev => exact .inl rises
    case prev_nonneg => exact inv.cur_nonneg
    case floor_nonneg => exact inv.floor_nonneg
    case inc_nonneg => exact inv.inc_nonneg
    case fits => exact inv.fits
    case est => exact inv.est

theorem Inv.raise (clock : r.atRaise.toNat + DBR_INC_TIMER.toNat < 2 ^ 64) :
    (s.raiseIfDue bits r pframes).1.Inv bits := by
  unfold raiseIfDue
  split
  · exact inv.incBitrate clock
  · exact inv

/-! ### Lowering -/

/-- The estimate is used where it is below the bitrate, and cut to hundreds it is still positive. -/
theorem Inv.estimate_cases :
    s.estimate = 0 ∨ 0 < s.estimate ∧ s.estimate < s.dbrCurBitrate := by
  unfold estimate
  split
  case isTrue used =>
    right
    obtain ⟨some, below⟩ := used
    have least : 50 ≤ s.dbrEstBitrate := inv.est.resolve_left some
    have cut : s.dbrEstBitrate.tdiv 100 * 100 ≤ s.dbrEstBitrate := by
      rw [Int.tdiv_eq_ediv_of_nonneg (by omega)]
      omega
    exact ⟨lt_of_lt_of_le (by decide) (le_max_left _ _), lt_of_le_of_lt (max_le least cut) below⟩
  · exact .inl rfl

/-- What it would go down to is between the floor and the bitrate. -/
theorem Inv.lowerTo_bounds (back : s.estimate = 0 → s.dbrPrevBitrate ≤ s.dbrOrigBitrate) :
    s.dbrFloorBitrate ≤ s.lowerTo ∧ s.lowerTo ≤ s.dbrCurBitrate := by
  have goal : ∀ new : Int, 0 ≤ new → new ≤ s.dbrCurBitrate →
      s.dbrFloorBitrate ≤ (if s.dbrFloorBitrate ≠ 0 ∧ new < s.dbrFloorBitrate then s.dbrFloorBitrate else new) ∧
        (if s.dbrFloorBitrate ≠ 0 ∧ new < s.dbrFloorBitrate then s.dbrFloorBitrate else new) ≤ s.dbrCurBitrate := by
    intro new low high
    have floor := inv.floor_le
    split
    · exact ⟨le_rfl, floor⟩
    · exact ⟨by omega, high⟩
  unfold lowerTo
  rcases inv.estimate_cases with none | ⟨positive, below⟩
  · have prev : s.dbrPrevBitrate ≤ s.dbrCurBitrate := by
      rcases inv.prev with prev | ⟨above, -⟩
      · exact prev
      · exact absurd (back none) (not_le.mpr above)
    simpa only [none, ne_eq, not_true_eq_false, if_false] using goal _ inv.prev_nonneg prev
  · simpa only [ne_eq, positive.ne', not_false_eq_true, if_true] using goal _ positive.le below.le

theorem Inv.forget : s.forgetFrames.Inv bits := by
  unfold forgetFrames
  split
  · exact ⟨⟨inv.floor_le, inv.le_orig, rfl, inv.due⟩, inv.floor_nonneg, inv.inc_nonneg, inv.fits, inv.est,
      inv.prev_nonneg, inv.prev⟩
  · exact inv

end

/-- Letting the frames go leaves the bounds alone. -/
theorem forgetFrames_same (s : RtmpStream) :
    s.forgetFrames.dbrFloorBitrate = s.dbrFloorBitrate ∧ s.forgetFrames.dbrOrigBitrate = s.dbrOrigBitrate := by
  unfold forgetFrames
  split <;> exact ⟨rfl, rfl⟩

theorem Inv.decreased (inv : s.Inv bits) {bitrate : Int} {timeout : UInt64} (above : s.dbrFloorBitrate ≤ bitrate)
    (atMost : bitrate ≤ s.dbrOrigBitrate) (due : timeout ≠ 0) : (s.decreased bitrate timeout).Inv bits where
  floor_le := above
  le_orig := atMost
  size := inv.size
  due := fun _ => due
  floor_nonneg := inv.floor_nonneg
  inc_nonneg := inv.inc_nonneg
  fits := inv.fits
  est := inv.est
  prev_nonneg := le_rfl
  prev := .inl (le_trans inv.floor_nonneg above)

theorem dbrBitrateLowered_cases (now : UInt64) (s : RtmpStream) :
    s.dbrBitrateLowered now = (s.forgetFrames, false) ∨ s.lowerTo ≠ s.dbrCurBitrate ∧
      s.dbrBitrateLowered now = (s.forgetFrames.decreased s.lowerTo (now + DBR_INC_TIMER), true) := by
  unfold dbrBitrateLowered
  split
  · exact .inl rfl
  · split
    case isTrue => exact .inl rfl
    case isFalse other => exact .inr ⟨other, rfl⟩

theorem Inv.lower (inv : s.Inv bits) (clock : now.toNat + DBR_INC_TIMER.toNat < 2 ^ 64)
    (back : s.estimate = 0 → s.dbrPrevBitrate ≤ s.dbrOrigBitrate) :
    (s.dbrBitrateLowered now).1.Inv bits ∧
      ((s.dbrBitrateLowered now).2 = true → (s.dbrBitrateLowered now).1.dbrCurBitrate < s.dbrCurBitrate) := by
  obtain ⟨above, atMost⟩ := inv.lowerTo_bounds back
  obtain ⟨floor, orig⟩ := forgetFrames_same s
  rcases dbrBitrateLowered_cases now s with still | ⟨other, lowers⟩
  · rw [still]
    exact ⟨inv.forget, fun lowered => by cases lowered⟩
  · rw [lowers]
    have within := le_trans atMost inv.le_orig
    exact ⟨inv.forget.decreased (floor.trans_le above) (within.trans orig.ge) (timeout_ne_zero clock),
      fun _ => lt_of_le_of_ne atMost other⟩

/-- Dropping frames is no matter of the bitrate. -/
theorem Inv.drop (inv : s.Inv bits) (h : Int) : (s.dropFrames h).Inv bits :=
  ⟨⟨inv.floor_le, inv.le_orig, inv.size, inv.due⟩, inv.floor_nonneg, inv.inc_nonneg, inv.fits, inv.est,
    inv.prev_nonneg, inv.prev⟩

theorem Inv.relieve (inv : s.Inv bits) (clock : r.atLower.toNat + DBR_INC_TIMER.toNat < 2 ^ 64)
    (back : s.Asks pframes → s.estimate = 0 → s.dbrPrevBitrate ≤ s.dbrOrigBitrate) :
    (s.relieve r pframes).1.Inv bits ∧
      ((s.relieve r pframes).2 = true → (s.relieve r pframes).1.dbrCurBitrate < s.dbrCurBitrate) := by
  have nothing : s.Inv bits ∧ (false = true → s.dbrCurBitrate < s.dbrCurBitrate) := ⟨inv, fun no => by cases no⟩
  unfold RtmpStream.relieve
  cases buffered : s.bufferDuration with
  | none => exact nothing
  | some duration =>
    dsimp only
    split
    case isTrue enabled =>
      split
      case isTrue triggers =>
        have asks : s.Asks pframes := ⟨triggers.1, enabled, by simpa [buffered] using triggers.2⟩
        exact inv.lower clock (back asks)
      case isFalse => exact nothing
    case isFalse =>
      generalize (if pframes then s.pframeDropThresholdUsec else s.dropThresholdUsec) = threshold
      split
      · exact ⟨inv.drop _, fun no => by cases no⟩
      · exact nothing

/-! ### Connecting -/

variable {o : OutputInfo}

theorem videoBitrate_nonneg (bitrates : ∀ i ∈ encoderIndices, 0 ≤ o.bitrate i) :
    0 ≤ o.videoBitrate := by
  apply List.sum_nonneg
  intro x member
  obtain ⟨i, index, rfl⟩ := List.mem_map.mp member
  exact bitrates i index

theorem floorBitrate_bounds (orig : o.origBitrate bits = o.videoBitrate) (low : 0 ≤ o.videoBitrate)
    (fits : long bits (o.videoBitrate * o.floorPct bits) = o.videoBitrate * o.floorPct bits) :
    0 ≤ o.floorBitrate bits ∧ o.floorBitrate bits ≤ o.videoBitrate := by
  unfold OutputInfo.floorBitrate
  split
  case isTrue positive =>
    have atMost : o.floorPct bits ≤ 100 := min_le_left _ _
    have part : o.videoBitrate * o.floorPct bits ≤ o.videoBitrate * 100 := Int.mul_le_mul_of_nonneg_left atMost low
    have nonneg : 0 ≤ o.videoBitrate * o.floorPct bits := Int.mul_nonneg low positive.le
    rw [orig, fits, Int.tdiv_eq_ediv_of_nonneg nonneg]
    exact ⟨by omega, by omega⟩
  · exact ⟨le_rfl, low⟩

theorem Inv.connect (inv : s.Inv bits) (bitrates : ∀ i ∈ encoderIndices, 0 ≤ o.bitrate i) (ok : s.Ok bits (.connect o)) :
    (s.initConnect bits o).1.Inv bits := by
  obtain ⟨orig, raise, part⟩ := ok
  have target : o.origBitrate bits = o.videoBitrate := orig
  have low := videoBitrate_nonneg bitrates
  obtain ⟨floor_nonneg, floor_le⟩ := floorBitrate_bounds target low part
  unfold initConnect
  dsimp only
  split
  · constructor
    case toWithin => exact ⟨floor_le.trans target.ge, le_rfl, rfl, fun below => absurd below (lt_irrefl _)⟩
    case floor_nonneg => exact floor_nonneg
    case inc_nonneg => exact Int.tdiv_nonneg (low.trans target.ge) (by decide)
    case fits =>
      rw [← target] at raise
      exact raise
    case est => exact .inl rfl
    case prev_nonneg => exact inv.prev_nonneg
    case prev =>
      rcases le_or_gt s.dbrPrevBitrate (o.origBitrate bits) with within | stale
      · exact .inl within
      · exact .inr ⟨stale, rfl⟩
  · exact ⟨⟨inv.floor_le, inv.le_orig, inv.size, inv.due⟩, inv.floor_nonneg, inv.inc_nonneg, inv.fits, inv.est,
      inv.prev_nonneg, inv.prev⟩

/-! ### Runs -/

theorem Inv.reset (inv : s.Inv bits) : s.resetBitrate.1.Inv bits := by
  unfold resetBitrate
  split
  · have high := le_trans inv.floor_le inv.le_orig
    refine ⟨⟨high, le_rfl, inv.size, fun below => absurd below (lt_irrefl _)⟩, inv.floor_nonneg, inv.inc_nonneg,
      inv.fits, inv.est, inv.prev_nonneg, ?_⟩
    rcases inv.prev with within | ⟨above, -⟩
    · exact .inl (le_trans within inv.le_orig)
    · exact .inr ⟨above, rfl⟩
  · exact inv

theorem Inv.step (inv : s.Inv bits) (allowed : Allowed e) (ok : s.Ok bits e) :
    (s.dbrStep bits e).Inv bits ∧ s.Lowers bits e := by
  cases e with
  | connect o => exact ⟨inv.connect allowed ok, trivial⟩
  | queue packets lastDtsUsec =>
    exact ⟨⟨⟨inv.floor_le, inv.le_orig, inv.size, inv.due⟩, inv.floor_nonneg, inv.inc_nonneg, inv.fits, inv.est,
      inv.prev_nonneg, inv.prev⟩, trivial⟩
  | addFrame back => exact ⟨inv.addFrame back, trivial⟩
  | check r pframes => exact (inv.raise allowed.1).relieve allowed.2 ok
  | sendThreadEnds => exact ⟨inv.reset, trivial⟩

/-- Going back to a bitrate above the target takes the bitrate above it. -/
theorem above_of_back (inv : s.Inv bits) (asks : s.Asks pframes) (none : s.estimate = 0)
    (above : s.dbrOrigBitrate < s.dbrPrevBitrate) :
    (s.relieve r pframes).2 = true ∧ s.dbrOrigBitrate < (s.relieve r pframes).1.dbrCurBitrate := by
  obtain ⟨first, enabled, waits⟩ := asks
  obtain ⟨duration, buffered, triggers⟩ := (Option.any_eq_true _ _).mp waits
  have target := le_trans inv.floor_le inv.le_orig
  have some : s.dbrPrevBitrate ≠ 0 := by
    have low := le_trans inv.floor_nonneg target
    omega
  have goes : s.lowerTo = s.dbrPrevBitrate := by
    unfold lowerTo
    simp only [none, ne_eq, not_true_eq_false, if_false]
    exact if_neg (by omega)
  have lowered : s.relieve r pframes = s.dbrBitrateLowered r.atLower := by
    unfold RtmpStream.relieve
    rw [buffered]
    simp only [enabled, if_true, first, true_and, of_decide_eq_true triggers]
  have cur := inv.le_orig
  rw [lowered, dbrBitrateLowered, if_neg (fun both => some both.2), if_neg (by omega), goes]
  exact ⟨rfl, above⟩

/-- Where no bitrate above the target is gone back to, the bitrate stays between its floor and its
target, and what is called lowered is lower. -/
theorem bitrate_within {bits : Nat} {ms : List (Moment RtmpStream DbrEvent)} {s : RtmpStream}
    (run : Run (fun s e t => Allowed e ∧ dbrStep bits s e = t) {} ms s) (ok : ∀ m ∈ ms, Ok bits m.before m.input) :
    s.Within ∧ ∀ m ∈ ms, m.before.Within ∧ m.after.Within ∧ m.before.Lowers bits m.input := by
  have keeps : ∀ m : Moment RtmpStream DbrEvent, Ok bits m.before m.input →
      Allowed m.input ∧ dbrStep bits m.before m.input = m.after → m.before.Inv bits → m.after.Inv bits := by
    rintro m ok ⟨allowed, same⟩ inv
    rw [← same]
    exact (inv.step allowed ok).1
  obtain ⟨last, each⟩ := run.invariant keeps ok inv_zero
  refine ⟨last.toWithin, fun m member => ?_⟩
  obtain ⟨before, after⟩ := each m member
  have lowers := (before.step (run.step_of_mem member).1 (ok m member)).2
  exact ⟨before.toWithin, after.toWithin, lowers⟩

/-- One encoder whose bitrate may be changed on the fly. -/
def oneEncoder (bitrate : Int) : OutputInfo where
  dynBitrate := true
  videoEncoders := fun i => if i = 0 then some ⟨.h264, true, false, bitrate⟩ else none

/-- Five packets that wait for as long as it takes to lower the bitrate. -/
def backlog : DbrEvent := .queue (List.replicate 5 ⟨0, .video, 0, 2, false, 0⟩) 200000

/-- The first connection sends 3200 kbit/s of 6000, lowers the bitrate and raises it once, and the second
is congested before it has an estimate. -/
def reconnected (bitrate : Int) : List DbrEvent :=
  [.connect (oneEncoder 6000), .addFrame ⟨0, 1000000000, 400000⟩, backlog, .check {} false, .queue [] 200000,
    .check { atCheck := 4000000000 } false, .sendThreadEnds, .connect (oneEncoder bitrate), backlog, .check {} false]

theorem run_reconnected (bitrate : Int) (allowed : ∀ e ∈ reconnected bitrate, Allowed e) :
    Run (fun s e t => Allowed e ∧ dbrStep 64 s e = t) {} (trace (dbrStep 64) {} (reconnected bitrate))
      ((reconnected bitrate).foldl (dbrStep 64) {}) :=
  (run_trace (dbrStep 64) {} (reconnected bitrate)).also fun _ member => allowed _ (input_of_mem_trace member)

/-- The second connection asks for as much as the first: it goes back to 3200. -/
theorem bitrate_within_back :
    let last := (reconnected 6000).foldl (dbrStep 64) {}
    last.dbrCurBitrate = 3200 ∧ last.Within ∧
      ∀ m ∈ trace (dbrStep 64) {} (reconnected 6000), m.before.Within ∧ m.after.Within ∧ m.before.Lowers 64 m.input :=
  ⟨by decide, bitrate_within (run_reconnected 6000 (by decide)) (by decide)⟩

/-- It asks for 1000 and is told to lower that to 3200. -/
theorem not_bitrate_within : ¬∀ (bits : Nat) (ms : List (Moment RtmpStream DbrEvent)) (s : RtmpStream),
    Run (fun s e t => Allowed e ∧ dbrStep bits s e = t) {} ms s → s.Within := by
  intro law
  have within := (law 64 _ _ (run_reconnected 1000 (by decide))).le_orig
  exact absurd within (by decide)

end RtmpStream

end Braidcast.Rtmp
