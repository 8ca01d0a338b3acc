import Braidcast.Output.Interleaver

/-!
# An RTMP stream

The packet queue and the dynamic bitrate of `rtmp-stream.c`. A `long` has `bits` bits and keeps a
value modulo `2 ^ bits`; a `size_t`, a `uint64_t` and a clock reading are `UInt64`. What a call reads
of the clock is in `Readings`, in the order it is read.
-/
namespace Braidcast.Rtmp

open Output (EncoderType MAX_OUTPUT_VIDEO_ENCODERS)

def DBR_INC_TIMER : UInt64 := 4000000000
def DBR_TRIGGER_USEC : Int := 200000
def MIN_ESTIMATE_DURATION_MS : UInt64 := 1000
def MAX_ESTIMATE_DURATION_MS : UInt64 := 2000

def OBS_NAL_PRIORITY_HIGH : Int := 2
def OBS_NAL_PRIORITY_HIGHEST : Int := 3

/-- What a `long` keeps of a value. -/
def long (bits : Nat) (x : Int) : Int := x.bmod (2 ^ bits)

/-- What an `int` keeps of a value. -/
def int (x : Int) : Int := x.bmod (2 ^ 32)

theorem int_add_int (x y : Int) : int (int x + y) = int (x + y) := Int.bmod_add_bmod

theorem int_of_lt {x : Int} (low : 0 ≤ x) (few : x < 2 ^ 31) : int x = x := by
  unfold int
  apply Int.bmod_eq_of_le <;> omega

inductive VideoId where
  | none
  | h264
  | av1
  | hevc
  deriving DecidableEq

/-- `struct encoder_packet`, as the codec's parser leaves it. `serial` is the packet's place in the
order of arrival; nothing reads it. -/
structure Packet where
  serial : Nat
  type : EncoderType
  trackIdx : Nat
  dropPriority : Int
  keyframe : Bool
  dtsUsec : Int
  deriving DecidableEq

structure DbrFrame where
  sendBeg : UInt64
  sendEnd : UInt64
  size : UInt64

/-- `struct dbr_interpolation_point`: a bitrate for each video encoder. -/
abbrev InterpolationPoint := Nat → Int

/-- The fields of `struct rtmp_stream` that the queue and the bitrate use, zero to begin with. -/
structure RtmpStream where
  packets : List Packet := []
  active : Bool := false
  disconnected : Bool := false
  encodeError : Bool := false
  dropThresholdUsec : Int := 0
  pframeDropThresholdUsec : Int := 0
  minPriority : Int := 0
  lastDtsUsec : Int := 0
  droppedFrames : Int := 0
  dbrFrames : List DbrFrame := []
  dbrDataSize : UInt64 := 0
  dbrIncTimeout : UInt64 := 0
  audioBitrate : Int := 0
  dbrEstBitrate : Int := 0
  dbrOrigBitrate : Int := 0
  dbrPrevBitrate : Int := 0
  dbrCurBitrate : Int := 0
  dbrIncBitrate : Int := 0
  dbrFloorBitrate : Int := 0
  dbrEnabled : Bool := false
  dbrInterpolationTable : List InterpolationPoint := []
  videoCodec : Nat → VideoId := fun _ => .none

/-- The clock as `check_to_drop_frames`, `dbr_inc_bitrate` and `dbr_bitrate_lowered` read it. -/
structure Readings where
  atCheck : UInt64 := 0
  atRaise : UInt64 := 0
  atLower : UInt64 := 0

namespace RtmpStream

/-! ### Dropping -/

/-- Audio and what reaches the priority is kept. -/
def keeps (highestPriority : Int) (packet : Packet) : Bool :=
  packet.type == .audio || decide (highestPriority ≤ packet.dropPriority)

/-- `drop_frames`. -/
def dropFrames (s : RtmpStream) (highestPriority : Int) : RtmpStream :=
  let kept := s.packets.filter (keeps highestPriority)
  { s with
    packets := kept
    minPriority := max s.minPriority highestPriority
    droppedFrames := int (s.droppedFrames + (s.packets.length - kept.length : Nat)) }

def findFirstVideoPacket (s : RtmpStream) : Option Packet :=
  s.packets.find? fun packet => packet.type == .video && !packet.keyframe

/-! ### The bitrate -/

/-- `dbr_est_bitrate`, of so many bytes in so many milliseconds. -/
def estBitrate (bits : Nat) (dataSize dur : UInt64) (audioBitrate : Int) : Int :=
  let bytes := if MIN_ESTIMATE_DURATION_MS ≤ dur then long bits (dataSize * 1000 / dur).toNat else 0
  let est := (long bits (bytes * 8)).tdiv 1000
  if est = 0 then 0 else max 50 (long bits (est - audioBitrate))

theorem estBitrate_cases (bits : Nat) (dataSize dur : UInt64) (audioBitrate : Int) :
    estBitrate bits dataSize dur audioBitrate = 0 ∨ 50 ≤ estBitrate bits dataSize dur audioBitrate := by
  unfold estBitrate
  generalize (if MIN_ESTIMATE_DURATION_MS ≤ dur then long bits (dataSize * 1000 / dur).toNat else 0) = bytes
  dsimp only
  split
  · exact .inl rfl
  · exact .inr (Int.le_max_left _ _)

/-- `dbr_add_frame`. -/
def dbrAddFrame (bits : Nat) (s : RtmpStream) (back : DbrFrame) : RtmpStream :=
  let frames := s.dbrFrames ++ [back]
  let front := frames.headD back
  let dur := (back.sendEnd - front.sendBeg) / 1000000
  -- the window slides by one frame once it spans the longest estimate
  let slides := MAX_ESTIMATE_DURATION_MS ≤ dur
  let dataSize := if slides then s.dbrDataSize + back.size - front.size else s.dbrDataSize + back.size
  { s with
    dbrFrames := if slides then frames.tail else frames
    dbrDataSize := dataSize
    dbrEstBitrate := estBitrate bits dataSize dur s.audioBitrate }

/-- The estimate `dbr_bitrate_lowered` goes by, if it goes by one. -/
def estimate (s : RtmpStream) : Int :=
  if s.dbrEstBitrate ≠ 0 ∧ s.dbrEstBitrate < s.dbrCurBitrate then max 50 (s.dbrEstBitrate.tdiv 100 * 100) else 0

/-- The bitrate it would go down to: the estimate, else the one before the last raise, and no less
than the floor. -/
def lowerTo (s : RtmpStream) : Int :=
  let new := if s.estimate ≠ 0 then s.estimate else s.dbrPrevBitrate
  if s.dbrFloorBitrate ≠ 0 ∧ new < s.dbrFloorBitrate then s.dbrFloorBitrate else new

/-- The frames are let go where the estimate is used, whatever comes of it. -/
def forgetFrames (s : RtmpStream) : RtmpStream :=
  if s.dbrEstBitrate ≠ 0 ∧ s.dbrEstBitrate < s.dbrCurBitrate then { s with dbrDataSize := 0, dbrFrames := [] } else s

def decreased (s : RtmpStream) (bitrate : Int) (timeout : UInt64) : RtmpStream :=
  { s with dbrPrevBitrate := 0, dbrCurBitrate := bitrate, dbrIncTimeout := timeout }

/-- `dbr_bitrate_lowered`. -/
def dbrBitrateLowered (now : UInt64) (s : RtmpStream) : RtmpStream × Bool :=
  if s.estimate = 0 ∧ s.dbrPrevBitrate = 0 then (s.forgetFrames, false)
  else if s.lowerTo = s.dbrCurBitrate then (s.forgetFrames, false)
  else (s.forgetFrames.decreased s.lowerTo (now + DBR_INC_TIMER), true)

/-- `dbr_inc_bitrate`. -/
def dbrIncBitrate_ (bits : Nat) (now : UInt64) (s : RtmpStream) : RtmpStream :=
  let raised := long bits (s.dbrCurBitrate + s.dbrIncBitrate)
  let s := { s with dbrPrevBitrate := s.dbrCurBitrate }
  if s.dbrOrigBitrate ≤ raised then { s with dbrCurBitrate := s.dbrOrigBitrate }
  else { s with dbrCurBitrate := raised, dbrIncTimeout := now + DBR_INC_TIMER }

/-- The raise `check_to_drop_frames` begins with, where it is due. -/
def raiseIfDue (bits : Nat) (r : Readings) (pframes : Bool) (s : RtmpStream) : RtmpStream × Bool :=
  if pframes = false ∧ s.dbrEnabled = true ∧ s.dbrIncTimeout ≠ 0 ∧ s.dbrIncTimeout ≤ r.atCheck then
    ({ s with dbrIncTimeout := 0 }.dbrIncBitrate_ bits r.atRaise, true)
  else (s, false)

/-- How long what waits to be sent lasts, where `check_to_drop_frames` asks. -/
def bufferDuration (s : RtmpStream) : Option Int :=
  if s.packets.length < 5 then none
  else s.findFirstVideoPacket.map fun first => (s.lastDtsUsec - first.dtsUsec).bmod (2 ^ 64)

/-- The rest of `check_to_drop_frames`: lower the bitrate, or drop frames. -/
def relieve (r : Readings) (pframes : Bool) (s : RtmpStream) : RtmpStream × Bool :=
  match s.bufferDuration with
  | none => (s, false)
  | some duration =>
    if s.dbrEnabled then
      -- a negative duration is a large one as a `uint64_t`
      if pframes = false ∧ DBR_TRIGGER_USEC ≤ duration % 2 ^ 64 then s.dbrBitrateLowered r.atLower else (s, false)
    else if (if pframes then s.pframeDropThresholdUsec else s.dropThresholdUsec) < duration then
      (s.dropFrames (if pframes then OBS_NAL_PRIORITY_HIGHEST else OBS_NAL_PRIORITY_HIGH), false)
    else (s, false)

/-- `check_to_drop_frames`, less the calls of `dbr_set_bitrate`. -/
def checkToDropFrames (bits : Nat) (r : Readings) (pframes : Bool) (s : RtmpStream) : RtmpStream :=
  ((s.raiseIfDue bits r pframes).1.relieve r pframes).1

/-- What `send_thread` does to the bitrate as it ends, and whether `dbr_set_bitrate` follows. -/
def resetBitrate (s : RtmpStream) : RtmpStream × Bool :=
  if s.dbrEnabled = true ∧ s.dbrCurBitrate ≠ s.dbrOrigBitrate then
    ({ s with dbrCurBitrate := s.dbrOrigBitrate }, true)
  else (s, false)

/-! ### Handing packets over -/

def addPacket (s : RtmpStream) (packet : Packet) : RtmpStream := { s with packets := s.packets ++ [packet] }

/-- The two checks before each video packet. -/
def checks (bits : Nat) (b p : Readings) (s : RtmpStream) : RtmpStream :=
  (s.checkToDropFrames bits b false).checkToDropFrames bits p true

/-- What `add_video_packet` does after the checks. -/
def keepOrDrop (s : RtmpStream) (packet : Packet) : RtmpStream :=
  if packet.dropPriority < s.minPriority then { s with droppedFrames := int (s.droppedFrames + 1) }
  else { s with minPriority := 0, lastDtsUsec := packet.dtsUsec }.addPacket packet

/-- `add_video_packet`. -/
def addVideoPacket (bits : Nat) (b p : Readings) (s : RtmpStream) (packet : Packet) : RtmpStream :=
  (s.checks bits b p).keepOrDrop packet

/-- The checks of `rtmp_stream_data` before it takes the mutex. -/
def passes (s : RtmpStream) (packet : Packet) : Bool :=
  !s.disconnected && s.active && (packet.type == .audio || s.videoCodec packet.trackIdx != .none)

/-- What it does under the mutex. -/
def queuePacket (bits : Nat) (b p : Readings) (s : RtmpStream) (packet : Packet) : RtmpStream :=
  if s.disconnected then s
  else match packet.type with
    | .video => s.addVideoPacket bits b p packet
    | .audio => s.addPacket packet

/-- `rtmp_stream_data`. An encoder that failed hands over no packet. -/
def rtmpStreamData (bits : Nat) (b p : Readings) (s : RtmpStream) (packet : Option Packet) : RtmpStream :=
  match packet with
  | none => if s.disconnected || !s.active then s else { s with encodeError := true }
  | some packet => if s.passes packet then s.queuePacket bits b p packet else s

/-- `get_next_packet`. -/
def getNextPacket (s : RtmpStream) : RtmpStream × Option Packet :=
  match s.packets with
  | [] => (s, none)
  | packet :: rest => ({ s with packets := rest }, some packet)

end RtmpStream

end Braidcast.Rtmp
