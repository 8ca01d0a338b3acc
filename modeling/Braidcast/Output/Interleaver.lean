import Mathlib.Order.WithBot
import Braidcast.Lib.Run
import Braidcast.Lib.Lists

/-!
# The interleaver

`libobs/obs-output.c`: the packets of an output's encoders go through one queue, sorted by
`dts_usec`, and leave it one at a time. A function that would read past the queue, or through
a packet that is not there, gives `none` here.
-/
namespace Braidcast.Output

open Lib

def MAX_OUTPUT_AUDIO_ENCODERS : Nat := 6
def MAX_OUTPUT_VIDEO_ENCODERS : Nat := 10
def MICROSECOND_DEN : Int := 1000000

/-- `enum obs_encoder_type`. -/
inductive EncoderType
  | audio
  | video
  deriving DecidableEq

/-- The fields of `struct obs_encoder` that the interleaver reads. -/
structure Encoder where
  ptr : Nat
  timebaseNum : Nat
  timebaseDen : Nat
  framesize : Nat
  den_pos : 0 < timebaseDen

/-- `struct encoder_packet`, less its data and priorities. -/
structure EncoderPacket where
  pts : Int
  dts : Int
  timebaseNum : Nat
  timebaseDen : Nat
  type : EncoderType
  keyframe : Bool
  dtsUsec : Int
  trackIdx : Nat
  /-- The pointer to the encoder. -/
  encoder : Nat
  den_pos : 0 < timebaseDen

/-- A timebase in milliseconds. -/
theorem milliseconds_pos : 0 < 1000 := by decide

/-- The fields of `struct obs_output` that stay as they are while it is active. -/
structure OutputEncoders where
  videoEncoders : Nat → Option Encoder
  audioEncoders : Nat → Option Encoder
  interleaverMaxBatchSize : Nat

-- The marks are compared, so their order has to be one that computes.
instance (priority := 2000) markLE : LE (WithBot Int) := WithBot.instLE

instance (priority := 2000) markLT : LT (WithBot Int) := WithBot.instLT

instance (priority := 2000) markDecidableLT : DecidableLT (WithBot Int) := WithBot.decidableLT

/-- The fields of `struct obs_output` that the interleaver works with. -/
structure Interleaver where
  interleavedPackets : List EncoderPacket
  receivedVideo : Nat → Bool
  receivedAudio : Bool
  videoOffsets : Nat → Int
  audioOffsets : Nat → Int
  highestAudioTs : Int
  /-- `⊥` is `INT64_MIN`, which no timestamp is below. -/
  highestVideoTs : Nat → WithBot Int

def INT64_MAX : Int := 2 ^ 63 - 1

/-- What `reset_packet_data` leaves. -/
def resetPacketData : Interleaver where
  interleavedPackets := []
  receivedVideo := fun _ => false
  receivedAudio := false
  videoOffsets := fun _ => 0
  audioOffsets := fun _ => 0
  highestAudioTs := 0
  highestVideoTs := fun _ => ⊥

namespace OutputEncoders

variable (output : OutputEncoders)

/-- The indices that a loop over `video_encoders` does not skip. -/
def videoTracks : List Nat := (List.range MAX_OUTPUT_VIDEO_ENCODERS).filter fun i => (output.videoEncoders i).isSome

def audioTracks : List Nat := (List.range MAX_OUTPUT_AUDIO_ENCODERS).filter fun i => (output.audioEncoders i).isSome

def getFirstAudioEncoderIndex : Option Nat := output.audioTracks.head?

def getFirstVideoEncoderIndex : Option Nat := output.videoTracks.head?

/-- The tracks of one type. -/
def tracks : EncoderType → List Nat
  | .audio => output.audioTracks
  | .video => output.videoTracks

def encoderAt : EncoderType → Nat → Option Encoder
  | .audio => output.audioEncoders
  | .video => output.videoEncoders

/-- The index is 0 where the assertion of the code would fail. -/
def getEncoderIndex (pkt : EncoderPacket) : Nat :=
  ((output.tracks pkt.type).find? fun i => (output.encoderAt pkt.type i).any fun e => e.ptr = pkt.encoder).getD 0

end OutputEncoders

/-- `packet_dts_usec`. -/
def packetDtsUsec (packet : EncoderPacket) : Int := (packet.dts * MICROSECOND_DEN).tdiv packet.timebaseDen

/-- Is it a packet of this track? -/
def EncoderPacket.isOf (packet : EncoderPacket) (type : EncoderType) (idx : Nat) : Bool :=
  packet.type = type && packet.trackIdx = idx

section Queue

variable (packets : List EncoderPacket) (type : EncoderType) (idx : Nat)

/-- `find_first_packet_type_idx`; -1 is `none`. -/
def findFirstPacketTypeIdx : Option Nat := packets.findIdx? fun p => p.isOf type idx

def findFirstPacketType : Option EncoderPacket := packets.find? fun p => p.isOf type idx

def findLastPacketType : Option EncoderPacket := packets.reverse.find? fun p => p.isOf type idx

/-- The loop of `get_interleaved_start_idx` over the audio packets, from index `i` on. -/
def closestAudio (firstVideo : EncoderPacket) : List EncoderPacket → Nat → Int → Nat → Nat
  | [], _, _, idx => idx
  | packet :: rest, i, closestDiff, idx =>
    if packet.type ≠ .audio then closestAudio firstVideo rest (i + 1) closestDiff idx
    else
      let diff : Int := (packet.dtsUsec - firstVideo.dtsUsec).natAbs
      if diff < closestDiff then closestAudio firstVideo rest (i + 1) diff i
      else closestAudio firstVideo rest (i + 1) closestDiff idx

/-- The last loop of `get_interleaved_start_idx`: no audio track's first packet is cut. -/
def firstAudioStart (idx : Nat) : Nat :=
  (List.range MAX_OUTPUT_AUDIO_ENCODERS).foldl (fun idx i =>
    match findFirstPacketTypeIdx packets .audio i with
    | some audioIdx => if audioIdx < idx then audioIdx else idx
    | none => idx) idx

def getInterleavedStartIdx : Option Nat := do
  let firstVideo ← findFirstPacketType packets .video 0
  let videoIdx ← findFirstPacketTypeIdx packets .video 0
  let closest := closestAudio firstVideo packets 0 INT64_MAX 0
  let idx := if videoIdx < closest then videoIdx else closest
  -- the loop to the next audio packet runs past the queue when there is none
  let firstAudio ← (packets.drop idx).find? fun p => p.type = .audio
  return if firstAudio.pts ≤ 0 then firstAudioStart packets idx else idx

/-- `insert_interleaved_packet`. -/
def insertInterleavedPacket (out : EncoderPacket) : List EncoderPacket → List EncoderPacket
  | [] => [out]
  | cur :: rest =>
    if out.dtsUsec = cur.dtsUsec ∧ out.type = .video ∧ cur.type = .video ∧ cur.trackIdx < out.trackIdx then
      cur :: insertInterleavedPacket out rest
    else if out.dtsUsec = cur.dtsUsec ∧ out.type = .video then out :: cur :: rest
    else if out.dtsUsec < cur.dtsUsec then out :: cur :: rest
    else cur :: insertInterleavedPacket out rest

end Queue

/-- The order the queue is kept in. -/
def InOrder (packets : List EncoderPacket) : Prop := packets.Pairwise fun p q => p.dtsUsec ≤ q.dtsUsec

instance (packets : List EncoderPacket) : Decidable (InOrder packets) :=
  inferInstanceAs (Decidable (packets.Pairwise fun p q => p.dtsUsec ≤ q.dtsUsec))

section Insert

variable {out cur : EncoderPacket} {rest packets : List EncoderPacket}

/-- Where the loop of `insert_interleaved_packet` goes on, and where it stops. -/
theorem insert_cons (out cur : EncoderPacket) (rest : List EncoderPacket) :
    (cur.dtsUsec ≤ out.dtsUsec ∧ insertInterleavedPacket out (cur :: rest) = cur :: insertInterleavedPacket out rest) ∨
    (out.dtsUsec ≤ cur.dtsUsec ∧ insertInterleavedPacket out (cur :: rest) = out :: cur :: rest) := by
  rw [insertInterleavedPacket]
  split
  next same => exact .inl ⟨le_of_eq same.1.symm, rfl⟩
  next =>
    split
    next same => exact .inr ⟨le_of_eq same.1, rfl⟩
    next =>
      split
      next before => exact .inr ⟨le_of_lt before, rfl⟩
      next late => exact .inl ⟨not_lt.mp late, rfl⟩

theorem insert_perm (out : EncoderPacket) (packets : List EncoderPacket) :
    (insertInterleavedPacket out packets).Perm (out :: packets) := by
  induction packets with
  | nil => exact .refl _
  | cons cur rest ih =>
    rcases insert_cons out cur rest with ⟨_, later⟩ | ⟨_, here⟩
    · rw [later]
      exact (ih.cons cur).trans (.swap out cur rest)
    · rw [here]

@[simp] theorem mem_insert {p : EncoderPacket} :
    p ∈ insertInterleavedPacket out packets ↔ p = out ∨ p ∈ packets := by
  rw [(insert_perm out packets).mem_iff, List.mem_cons]

theorem InOrder.insert (inOrder : InOrder packets) : InOrder (insertInterleavedPacket out packets) := by
  induction packets with
  | nil => exact List.pairwise_singleton _ _
  | cons cur rest ih =>
    obtain ⟨least, sorted⟩ := List.pairwise_cons.mp inOrder
    rcases insert_cons out cur rest with ⟨before, later⟩ | ⟨before, here⟩
    · rw [later]
      refine List.pairwise_cons.mpr ⟨fun p member => ?_, ih sorted⟩
      rcases mem_insert.mp member with rfl | old
      · exact before
      · exact least p old
    · rw [here]
      refine List.pairwise_cons.mpr ⟨fun p member => ?_, inOrder⟩
      rcases List.mem_cons.mp member with rfl | old
      · exact before
      · exact before.trans (least p old)

end Insert

def getEncoderDuration (encoder : Encoder) : Int :=
  encoder.timebaseNum * 1000000 / encoder.timebaseDen * encoder.framesize

/-- What the loop of `prune_premature_packets` carries; its `max_diff` is never read. -/
structure Premature where
  maxIdx : Nat
  diff : Int
  maxAudioDurationUsec : Int
  audioEncoders : Nat

namespace Interleaver

variable (output : OutputEncoders) (s : Interleaver)

def prematureStep (video : EncoderPacket) (acc : Premature) (i : Nat) : Option Premature := do
  let audioIdx ← findFirstPacketTypeIdx s.interleavedPackets .audio i
  let audio ← findFirstPacketType s.interleavedPackets .audio i
  let duration := ((output.audioEncoders i).map getEncoderDuration).getD 0
  return {
    maxIdx := if audioIdx > acc.maxIdx then audioIdx else acc.maxIdx
    diff := audio.dtsUsec - video.dtsUsec
    maxAudioDurationUsec := if duration > acc.maxAudioDurationUsec then duration else acc.maxAudioDurationUsec
    audioEncoders := acc.audioEncoders + 1 }

/-- `prune_premature_packets`; -1 is `none`. -/
def prunePrematurePackets : Interleaver × Option Nat :=
  match findFirstPacketTypeIdx s.interleavedPackets .video 0, findFirstPacketType s.interleavedPackets .video 0 with
  | some videoIdx, some video =>
    match output.audioTracks.foldlM (s.prematureStep output video) ⟨videoIdx, 0, 0, 0⟩ with
    | none => ({ s with receivedAudio := false }, none)
    | some acc =>
      let frame : Int := video.timebaseNum * 1000000 / video.timebaseDen
      let durationUsec :=
        if acc.audioEncoders > 1 ∧ frame < acc.maxAudioDurationUsec then acc.maxAudioDurationUsec else frame
      (s, some (if acc.diff > durationUsec then acc.maxIdx + 1 else 0))
  | _, _ => (s, none)

def discardToIdx (idx : Nat) : Interleaver := { s with interleavedPackets := s.interleavedPackets.drop idx }

/-- `prune_interleaved_packets`. -/
def pruneInterleavedPackets : Option (Interleaver × Bool) :=
  match s.prunePrematurePackets output with
  | (s, none) => some (s, false)
  | (s, some 0) => (getInterleavedStartIdx s.interleavedPackets).map fun startIdx => (s.discardToIdx startIdx, true)
  | (s, some pruneStart) => some (s.discardToIdx pruneStart, true)

/-- Is the first packet of the track there? -/
def has (type : EncoderType) (i : Nat) : Bool := (findFirstPacketType s.interleavedPackets type i).isSome

/-- `get_audio_and_video_packets`; what it fills in are the first packets of the tracks. -/
def getAudioAndVideoPackets : Interleaver × Bool :=
  match output.videoTracks.find? fun i => !s.has .video i with
  | some i => ({ s with receivedVideo := Function.update s.receivedVideo i false }, false)
  | none =>
    if output.audioTracks.all fun i => s.has .audio i then (s, !output.videoTracks.isEmpty)
    else ({ s with receivedAudio := false }, false)

/-- `apply_interleaved_packet_offset`. -/
def applyInterleavedPacketOffset (out : EncoderPacket) : EncoderPacket :=
  let offset := match out.type with
    | .video => s.videoOffsets out.trackIdx
    | .audio => s.audioOffsets out.trackIdx
  let out := { out with dts := out.dts - offset, pts := out.pts - offset }
  { out with dtsUsec := packetDtsUsec out }

/-- The offsets that `initialize_interleaved_packets` takes from the first packets of the tracks. -/
def newOffsets (firstAudio : EncoderPacket) : Interleaver :=
  let first type i := findFirstPacketType s.interleavedPackets type i
  let videoOffsets i := match output.videoTracks.contains i, first .video i with
    | true, some video => video.pts
    | _, _ => s.videoOffsets i
  let audioOffsets i := match output.audioTracks.contains i, first .audio i with
    | true, some audio => if audio.dts > 0 then audio.dts else s.audioOffsets i
    | _, _ => s.audioOffsets i
  { s with videoOffsets, audioOffsets, highestAudioTs := s.highestAudioTs - firstAudio.dtsUsec }

/-- The end of `initialize_interleaved_packets`, where the packets of every track are known. -/
def applyNewOffsets (firstAudio : EncoderPacket) : Interleaver :=
  let s := s.newOffsets output firstAudio
  { s with interleavedPackets := s.interleavedPackets.map s.applyInterleavedPacketOffset }

/-- `initialize_interleaved_packets` once it has found where the packets begin. -/
def initializeFrom (firstAudioIdx startIdx : Nat) : Option (Interleaver × Bool) :=
  let (s, found) := if startIdx = 0 then (s, true) else (s.discardToIdx startIdx).getAudioAndVideoPackets output
  if !found then some (s, false)
  else if !(output.videoTracks.all (s.has .video) && output.audioTracks.all (s.has .audio)) then none
  else (findFirstPacketType s.interleavedPackets .audio firstAudioIdx).map fun firstAudio =>
    (s.applyNewOffsets output firstAudio, true)

/-- Has every audio track a packet that is not before the first video packet? -/
def audioPast (video : EncoderPacket) : Option Bool :=
  output.audioTracks.foldlM (fun past i =>
    (findLastPacketType s.interleavedPackets .audio i).map fun last => past && video.dtsUsec ≤ last.dtsUsec) true

/-- `initialize_interleaved_packets`. -/
def initializeInterleavedPackets : Option (Interleaver × Bool) :=
  match output.getFirstAudioEncoderIndex, output.getFirstVideoEncoderIndex with
  | some firstAudioIdx, some firstVideoIdx =>
    let (s, found) := s.getAudioAndVideoPackets output
    if !found then some (s, false)
    else do
      let video ← findFirstPacketType s.interleavedPackets .video firstVideoIdx
      let past ← s.audioPast output video
      if !past then some ({ s with receivedAudio := false }, false)
      else
        let startIdx ← getInterleavedStartIdx s.interleavedPackets
        s.initializeFrom output firstAudioIdx startIdx
  | _, _ => some (s, false)

def setHigherTs (packet : EncoderPacket) : Interleaver :=
  match packet.type with
  | .video =>
    if s.highestVideoTs packet.trackIdx < packet.dtsUsec then
      { s with highestVideoTs := Function.update s.highestVideoTs packet.trackIdx packet.dtsUsec }
    else s
  | .audio => if s.highestAudioTs < packet.dtsUsec then { s with highestAudioTs := packet.dtsUsec } else s

def insert (out : EncoderPacket) : Interleaver :=
  { s with interleavedPackets := insertInterleavedPacket out s.interleavedPackets }

/-- `resort_interleaved_packets`. -/
def resortInterleavedPackets : Interleaver :=
  s.interleavedPackets.foldl (fun s packet => (s.setHigherTs packet).insert packet) { s with interleavedPackets := [] }

/-- `discard_unused_audio_packets`. -/
def discardUnusedAudioPackets (dtsUsec : Int) : Interleaver :=
  { s with interleavedPackets := s.interleavedPackets.dropWhile fun p => p.dtsUsec < dtsUsec }

/-- `has_higher_opposing_ts`. -/
def hasHigherOpposingTs (packet : EncoderPacket) : Bool :=
  let hasHigher := output.videoTracks.all fun i =>
    (packet.type = .video && i = packet.trackIdx) || s.highestVideoTs i > packet.dtsUsec
  match packet.type with
  | .audio => hasHigher
  | .video => hasHigher && s.highestAudioTs > packet.dtsUsec

/-- `count_streamable_frames`. -/
def countStreamableFrames : Nat := (s.interleavedPackets.takeWhile (s.hasHigherOpposingTs output)).length

/-- `send_interleaved`: the packet that `encoded_packet` is given. -/
def sendInterleaved : Option (Interleaver × EncoderPacket) :=
  match s.interleavedPackets with
  | [] => none
  | out :: rest => some ({ s with interleavedPackets := rest }, out)

/-- `check_received`. -/
def checkReceived (out : EncoderPacket) : Interleaver :=
  match out.type with
  | .video => { s with receivedVideo := Function.update s.receivedVideo out.trackIdx true }
  | .audio => { s with receivedAudio := true }

/-- `received_audio`, and `received_video` of every encoder there is. -/
def received : Bool := s.receivedAudio && output.videoTracks.all s.receivedVideo

end Interleaver

/-- What a call of `interleave_packets` did besides changing the output. -/
structure Report where
  /-- The packets given to `encoded_packet`. -/
  handed : List EncoderPacket := []
  /-- The packet put into the queue of an output that was started. -/
  accepted : Option EncoderPacket := none
  /-- The queue at the end of a start. -/
  kept : Option (List EncoderPacket) := none

namespace Interleaver

variable (output : OutputEncoders) (s : Interleaver)

/-- `interleave_packets` where the output was started. -/
def interleaveStarted (packet : EncoderPacket) : Option (Interleaver × Report) :=
  let out := s.applyInterleavedPacketOffset packet
  let s := (s.insert out).setHigherTs out
  let streamable := s.countStreamableFrames output
  if streamable = 0 then some (s, { accepted := some out })
  else do
    let (s, first) ← s.sendInterleaved
    if streamable - 1 > output.interleaverMaxBatchSize then
      let (s, second) ← s.sendInterleaved
      return (s, { handed := [first, second], accepted := some out })
    else return (s, { handed := [first], accepted := some out })

/-- The attempt to start, once every encoder has sent something. -/
def tryStart : Option (Interleaver × Report) := do
  let (s, pruned) ← s.pruneInterleavedPackets output
  if !pruned then return (s, {})
  let (s, initialized) ← s.initializeInterleavedPackets output
  if !initialized then return (s, {})
  let s := s.resortInterleavedPackets
  let (t, first) ← s.sendInterleaved
  return (t, { handed := [first], kept := some s.interleavedPackets })

/-- `interleave_packets` where the output was not started. -/
def interleaveStarting (packet : EncoderPacket) : Option (Interleaver × Report) :=
  let s := (s.checkReceived packet).insert packet
  if s.received output then s.tryStart output else some (s, {})

def interleavePackets (packet : EncoderPacket) : Option (Interleaver × Report) :=
  let packet := { packet with trackIdx := output.getEncoderIndex packet }
  if packet.type = .video ∧ s.receivedVideo packet.trackIdx = false ∧ packet.keyframe = false then
    some (s.discardUnusedAudioPackets packet.dtsUsec, {})
  else if s.received output then s.interleaveStarted output packet
  else s.interleaveStarting output packet

section Marks

variable {output s} {packet p : EncoderPacket} {i : Nat}

/-- Both marks are at or above the packet's own track. -/
def BelowMark (s : Interleaver) (p : EncoderPacket) : Prop :=
  match p.type with
  | .audio => p.dtsUsec ≤ s.highestAudioTs
  | .video => (p.dtsUsec : WithBot Int) ≤ s.highestVideoTs p.trackIdx

/-- What changes neither offsets nor flags and lowers no mark. -/
structure Raises (s t : Interleaver) : Prop where
  receivedVideo : t.receivedVideo = s.receivedVideo
  receivedAudio : t.receivedAudio = s.receivedAudio
  videoOffsets : t.videoOffsets = s.videoOffsets
  audioOffsets : t.audioOffsets = s.audioOffsets
  highestAudioTs : s.highestAudioTs ≤ t.highestAudioTs
  highestVideoTs : ∀ i, s.highestVideoTs i ≤ t.highestVideoTs i

theorem Raises.trans {t u : Interleaver} (first : Raises s t) (next : Raises t u) : Raises s u where
  receivedVideo := next.receivedVideo.trans first.receivedVideo
  receivedAudio := next.receivedAudio.trans first.receivedAudio
  videoOffsets := next.videoOffsets.trans first.videoOffsets
  audioOffsets := next.audioOffsets.trans first.audioOffsets
  highestAudioTs := first.highestAudioTs.trans next.highestAudioTs
  highestVideoTs i := (first.highestVideoTs i).trans (next.highestVideoTs i)

theorem BelowMark.raise {t : Interleaver} (below : BelowMark s p) (raises : Raises s t) : BelowMark t p := by
  unfold BelowMark at below ⊢
  cases kind : p.type with
  | audio =>
    rw [kind] at below
    exact below.trans raises.highestAudioTs
  | video =>
    rw [kind] at below
    exact below.trans (raises.highestVideoTs _)

/-- `set_higher_ts` and the insertion of one packet, in whichever order. -/
def place (s : Interleaver) (packet : EncoderPacket) : Interleaver := (s.setHigherTs packet).insert packet

section

variable (s)

section

variable (packet)

theorem setHigherTs_insert :
    (s.insert packet).setHigherTs packet = s.place packet := by
  unfold place setHigherTs insert
  cases packet.type with
  | audio | video => dsimp only; split <;> rfl

theorem place_queue :
    (s.place packet).interleavedPackets = insertInterleavedPacket packet s.interleavedPackets := by
  unfold place setHigherTs insert
  cases packet.type with
  | audio | video => dsimp only; split <;> rfl

theorem place_highestVideoTs (i : Nat) :
    (s.place packet).highestVideoTs i =
      if packet.isOf .video i then max (s.highestVideoTs i) packet.dtsUsec else s.highestVideoTs i := by
  unfold place setHigherTs insert EncoderPacket.isOf
  cases kind : packet.type with
  | audio => dsimp only; split <;> simp
  | video =>
    by_cases track : packet.trackIdx = i
    · subst track
      dsimp only
      split
      next low => simp [max_eq_right low.le]
      next high => simp [max_eq_left (not_lt.mp high)]
    · dsimp only
      split <;> simp [track, Ne.symm track]

theorem place_highestAudioTs :
    (s.place packet).highestAudioTs =
      if packet.type = .audio then max s.highestAudioTs packet.dtsUsec else s.highestAudioTs := by
  unfold place setHigherTs insert
  cases packet.type with
  | audio =>
    dsimp only
    split
    next low => simp [max_eq_right low.le]
    next high => simp [max_eq_left (not_lt.mp high)]
  | video => dsimp only; split <;> simp

theorem place_raises : Raises s (s.place packet) := by
  have audio : s.highestAudioTs ≤ (s.place packet).highestAudioTs := by
    rw [place_highestAudioTs]
    split
    · exact le_max_left _ _
    · exact le_rfl
  have video (i) : s.highestVideoTs i ≤ (s.place packet).highestVideoTs i := by
    rw [place_highestVideoTs]
    split
    · exact le_max_left _ _
    · exact le_rfl
  have same : (s.place packet).receivedVideo = s.receivedVideo ∧ (s.place packet).receivedAudio = s.receivedAudio ∧
      (s.place packet).videoOffsets = s.videoOffsets ∧ (s.place packet).audioOffsets = s.audioOffsets := by
    unfold place setHigherTs insert
    cases packet.type with
    | audio | video => dsimp only; split <;> exact ⟨rfl, rfl, rfl, rfl⟩
  exact ⟨same.1, same.2.1, same.2.2.1, same.2.2.2, audio, video⟩

theorem belowMark_place : BelowMark (s.place packet) packet := by
  unfold BelowMark
  cases kind : packet.type with
  | audio =>
    dsimp only
    rw [place_highestAudioTs, if_pos kind]
    exact le_max_right _ _
  | video =>
    dsimp only
    rw [place_highestVideoTs, if_pos (by simp [EncoderPacket.isOf, kind])]
    exact le_max_right _ _

end

end

/-- A video mark that has been set is some packet's. -/
def Attained (s : Interleaver) (packets : List EncoderPacket) : Prop :=
  ∀ i, s.highestVideoTs i = ⊥ ∨
    ∃ p ∈ packets, p.isOf .video i = true ∧ (p.dtsUsec : WithBot Int) = s.highestVideoTs i

theorem Attained.place {packets : List EncoderPacket} (attained : Attained s packets) (packet : EncoderPacket) :
    Attained (s.place packet) (packet :: packets) := by
  intro i
  rw [place_highestVideoTs]
  split
  next same =>
    rcases le_total (packet.dtsUsec : WithBot Int) (s.highestVideoTs i) with old | new
    · rw [max_eq_left old]
      refine (attained i).imp_right ?_
      rintro ⟨p, member, track, mark⟩
      exact ⟨p, List.mem_cons_of_mem _ member, track, mark⟩
    · rw [max_eq_right new]
      exact .inr ⟨packet, List.mem_cons_self, same, rfl⟩
  next =>
    refine (attained i).imp_right ?_
    rintro ⟨p, member, track, mark⟩
    exact ⟨p, List.mem_cons_of_mem _ member, track, mark⟩

/-- What the new queue of `resort_interleaved_packets` satisfies, each packet once. -/
structure Resorted (before : Interleaver) (done : List EncoderPacket) (s : Interleaver) : Prop where
  perm : s.interleavedPackets.Perm done
  inOrder : InOrder s.interleavedPackets
  raises : Raises before s
  below : ∀ p ∈ done, BelowMark s p
  attained : (∀ i, before.highestVideoTs i = ⊥) → Attained s done

theorem resorted (s : Interleaver) : Resorted s s.interleavedPackets s.resortInterleavedPackets := by
  refine foldl_rule (P := fun done t => Resorted s done t) ?first ?next s.interleavedPackets
  case first => exact ⟨.refl _, .nil, ⟨rfl, rfl, rfl, rfl, le_rfl, fun _ => le_rfl⟩, by simp, fun bot i => .inl (bot i)⟩
  case next =>
    intro done packet t so
    have raises := place_raises t packet
    refine ⟨?_, ?_, so.raises.trans raises, fun p member => ?_, fun bot => ?_⟩
    · show (t.place packet).interleavedPackets.Perm (done ++ [packet])
      rw [place_queue]
      exact (insert_perm _ _).trans ((so.perm.cons packet).trans (List.perm_append_singleton packet done).symm)
    · show InOrder (t.place packet).interleavedPackets
      rw [place_queue]
      exact so.inOrder.insert
    · rcases List.mem_append.mp member with old | new
      · exact (so.below p old).raise raises
      · rw [List.mem_singleton.mp new]
        exact belowMark_place t packet
    · intro i
      rcases (so.attained bot).place packet i with unset | ⟨p, member, found⟩
      · exact .inl unset
      · exact .inr ⟨p, by simpa [or_comm] using member, found⟩

end Marks

end Interleaver

end Braidcast.Output
