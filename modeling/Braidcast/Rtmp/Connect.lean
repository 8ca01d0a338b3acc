import Braidcast.Rtmp.Stream

/-!
# A new connection

`init_connect`, and `dbr_set_bitrate`, which goes through the table that `init_connect` extends. The
text of a table is parsed before it gets here. `scale delta remaining overall` is what a `long` keeps of
`delta * delta_scale`.
-/
namespace Braidcast.Rtmp

open Output (MAX_OUTPUT_VIDEO_ENCODERS)

/-- What is asked of a video encoder. -/
structure VideoEncoder where
  codec : VideoId
  dynBitrate : Bool
  multitrackDynBitrate : Bool
  bitrate : Int

/-- A `json_t`, as far as it is asked. -/
inductive JsonT where
  | integer (value : Int)
  | array (items : List JsonT)
  | other

/-- The output with its settings and its encoders. -/
structure OutputInfo where
  service : Bool := true
  dropThreshold : Int := 700
  pframeDropThreshold : Int := 900
  dynBitrate : Bool := false
  dynBitrateFloorPct : Int := 0
  /-- The user's table, and within it what `json_loads` makes of its text. -/
  interpolationData : Option (Option JsonT) := none
  delay : Nat := 0
  /-- The bitrates of the audio encoders. -/
  audioEncoders : Nat → Option Int := fun _ => none
  videoEncoders : Nat → Option VideoEncoder

namespace JsonT

/-- `json_array_get`. -/
def get (json : JsonT) (i : Nat) : Option JsonT :=
  match json with
  | array items => items[i]?
  | _ => none

/-- `json_array_size`. -/
def size : JsonT → Nat
  | array items => items.length
  | _ => 0

end JsonT

def encoderIndices : List Nat := List.range MAX_OUTPUT_VIDEO_ENCODERS

/-- The sum of a point's bitrates. A `long` that adds them up wraps the same way. -/
def InterpolationPoint.total (point : InterpolationPoint) : Int := (encoderIndices.map point).sum

/-- An encoder's bitrate. One that is not there has none. -/
def bitrateOf (encoders : Nat → Option VideoEncoder) (i : Nat) : Int :=
  match encoders i with
  | some enc => enc.bitrate
  | none => 0

/-- The column that `dbr_set_bitrate` starts from: the last one before the first that is too much, and
the last of all where the first one is. -/
def baseColumn (bits : Nat) (table : List InterpolationPoint) (bitrate : Int) : Nat :=
  let within := (table.takeWhile fun point => long bits point.total ≤ bitrate).length
  (if within = 0 then table.length else within) - 1

def column (table : List InterpolationPoint) (i : Nat) : InterpolationPoint := table.getD i fun _ => 0

namespace OutputInfo

/-- What the first loop of `build_dbr_interpolation_table` knows after an encoder: the size of the
arrays, and whether one is missing or of another size. -/
def arraySize (o : OutputInfo) (root : JsonT) (known : Nat × Bool) (i : Nat) : Nat × Bool :=
  if (o.videoEncoders i).isNone then known
  else match root.get i with
    | none => (known.1, true)
    | some array => if known.1 = 0 then (array.size, known.2) else (known.1, known.2 || array.size != known.1)

/-- An entry of the table. One that is no integer is left at zero. -/
def entry (bits : Nat) (root : JsonT) (column i : Nat) : Int :=
  match (root.get i).bind (·.get column) with
  | some (.integer value) => long bits value
  | _ => 0

/-- `build_dbr_interpolation_table`. -/
def buildDbrInterpolationTable (bits : Nat) (o : OutputInfo) (root : Option JsonT) : Option (List InterpolationPoint) :=
  root.bind fun root =>
    let known := encoderIndices.foldl (o.arraySize root) (0, false)
    if known.2 then none else some ((List.range known.1).map (entry bits root))

def bitrate (o : OutputInfo) : Nat → Int := bitrateOf o.videoEncoders

/-- The point of the bitrates as they are read. -/
def point (bits : Nat) (o : OutputInfo) : InterpolationPoint := fun i => long bits (o.bitrate i)

/-- `overall_video_bitrate`. -/
def videoBitrate (o : OutputInfo) : Int := (encoderIndices.map o.bitrate).sum

/-- `overall_audio_bitrate`. -/
def audioBitrate (o : OutputInfo) : Int :=
  ((List.range Output.MAX_OUTPUT_AUDIO_ENCODERS).map fun i => (o.audioEncoders i).getD 0).sum

def isMultitrack (o : OutputInfo) : Bool := encoderIndices.any fun i => i != 0 && (o.videoEncoders i).isSome

def dbrCapable (o : OutputInfo) : Bool :=
  encoderIndices.all fun i => match o.videoEncoders i with
    | some enc => if o.isMultitrack then enc.multitrackDynBitrate else enc.dynBitrate
    | none => true

/-- `floor_pct`, cut at 100. -/
def floorPct (bits : Nat) (o : OutputInfo) : Int := min 100 (long bits o.dynBitrateFloorPct)

def origBitrate (bits : Nat) (o : OutputInfo) : Int := long bits o.videoBitrate

def floorBitrate (bits : Nat) (o : OutputInfo) : Int :=
  if 0 < o.floorPct bits then (long bits (o.origBitrate bits * o.floorPct bits)).tdiv 100 else 0

/-- The table and whether the bitrate is dynamic, from the table that an earlier connection left. -/
def interpolation (bits : Nat) (o : OutputInfo) (left : List InterpolationPoint) : List InterpolationPoint × Bool :=
  let extended := left ++ [fun _ => 0, o.point bits]
  let enabled := o.dbrCapable && o.dynBitrate && o.delay == 0
  match o.interpolationData with
  | none => (extended, enabled)
  | some data =>
    match o.buildDbrInterpolationTable bits data with
    | none => (extended, false)
    | some table => (table, enabled)

end OutputInfo

namespace RtmpStream

/-- What `init_connect` makes of a stream whose packets are freed. `dbr_prev_bitrate` and the codecs of
encoders that are gone stay as they were. -/
def connected (bits : Nat) (o : OutputInfo) (s : RtmpStream) : RtmpStream :=
  let orig := o.origBitrate bits
  let interpolation := o.interpolation bits s.dbrInterpolationTable
  let dropP := max o.pframeDropThreshold (o.dropThreshold + 200)
  { s with
    disconnected := false
    encodeError := false
    droppedFrames := 0
    minPriority := 0
    videoCodec := fun i => match o.videoEncoders i with
      | some enc => enc.codec
      | none => s.videoCodec i
    dbrFrames := []
    audioBitrate := long bits o.audioBitrate
    dbrDataSize := 0
    dbrOrigBitrate := orig
    dbrCurBitrate := orig
    dbrEstBitrate := 0
    dbrIncBitrate := orig.tdiv 10
    dbrIncTimeout := 0
    dbrEnabled := interpolation.2
    dbrFloorBitrate := o.floorBitrate bits
    dbrInterpolationTable := interpolation.1
    dropThresholdUsec := 1000 * o.dropThreshold
    pframeDropThresholdUsec := 1000 * dropP }

/-- `init_connect`, and whether it goes through. -/
def initConnect (bits : Nat) (o : OutputInfo) (s : RtmpStream) : RtmpStream × Bool :=
  let s := { s with packets := [] }
  if o.service then (s.connected bits o, true) else (s, false)

/-- `dbr_set_bitrate`, as what it makes of the encoders. -/
def dbrSetBitrate (bits : Nat) (scale : Int → Int → Int → Int) (s : RtmpStream) (encoders : Nat → Option VideoEncoder) :
    Nat → Option VideoEncoder :=
  let table := s.dbrInterpolationTable
  let first := baseColumn bits table s.dbrCurBitrate
  let base := column table first
  let upper := column table (min (first + 1) (table.length - 1))
  let delta := fun i => long bits (upper i - base i)
  let overall := max 1 (long bits (encoderIndices.map delta).sum)
  let remaining := long bits (s.dbrCurBitrate - base.total)
  if table.isEmpty then encoders
  else fun i => (encoders i).map fun enc =>
    { enc with bitrate := long bits (base i + scale (delta i) remaining overall) }

end RtmpStream

end Braidcast.Rtmp
