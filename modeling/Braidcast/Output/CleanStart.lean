import Braidcast.Output.InOrder

/-!
# How an output starts

Whether the output has started is read off the flags, and what a start begins with is whatever
the discards left in the queue. Both go wrong on inputs that the discards do not expect: the
flags can stay set without a start, and the keyframe of a track can be dropped before its other
packets.
-/
namespace Braidcast.Output.InterleaveWorld

open Lib Interleaver

variable {output : OutputEncoders} {w w' : InterleaveWorld} {packet out : EncoderPacket} {packets : List EncoderPacket}
  {i : Nat}

/-- The packets of a video track, in the order they are queued. -/
def videoTrack (packets : List EncoderPacket) (i : Nat) : List EncoderPacket := packets.filter fun p => p.isOf .video i

@[simp] theorem videoTrack_append (xs ys : List EncoderPacket) (i : Nat) :
    videoTrack (xs ++ ys) i = videoTrack xs i ++ videoTrack ys i := List.filter_append ..

theorem videoTrack_cons (p : EncoderPacket) (packets : List EncoderPacket) (i : Nat) :
    videoTrack (p :: packets) i = if p.isOf .video i then p :: videoTrack packets i else videoTrack packets i :=
  List.filter_cons

theorem mem_videoTrack {p : EncoderPacket} : p ∈ videoTrack packets i ↔ p ∈ packets ∧ p.isOf .video i = true :=
  List.mem_filter

/-- A packet later than all of its track is put behind them. -/
theorem videoTrack_insert (inOrder : InOrder packets)
    (later : out.isOf .video i = true → ∀ p ∈ videoTrack packets i, p.dtsUsec < out.dtsUsec) :
    videoTrack (insertInterleavedPacket out packets) i = videoTrack (packets ++ [out]) i := by
  induction packets with
  | nil => rfl
  | cons cur rest ih =>
    obtain ⟨least, sorted⟩ := List.pairwise_cons.mp inOrder
    have later' (own : out.isOf .video i = true) (p) (member : p ∈ videoTrack rest i) : p.dtsUsec < out.dtsUsec := by
      obtain ⟨member, same⟩ := mem_videoTrack.mp member
      exact later own p (mem_videoTrack.mpr ⟨List.mem_cons_of_mem _ member, same⟩)
    rcases insert_cons out cur rest with ⟨_, behind⟩ | ⟨before, here⟩
    · rw [behind, List.cons_append]
      rw [videoTrack_cons, videoTrack_cons, ih sorted later']
    · rw [here]
      by_cases own : out.isOf .video i = true
      · -- nothing of the track is behind it
        have none : videoTrack (cur :: rest) i = [] := by
          apply List.eq_nil_iff_forall_not_mem.mpr
          intro p member
          have less := later own p member
          rcases List.mem_cons.mp (mem_videoTrack.mp member).1 with rfl | old
          · omega
          · have := least p old
            omega
        rw [videoTrack_append, videoTrack_cons out (cur :: rest), videoTrack_cons out [], none, if_pos own, if_pos own]
        rfl
      · rw [videoTrack_append, videoTrack_cons _ _ i, if_neg own, videoTrack_cons out [] i, if_neg own]
        exact (List.append_nil _).symm

/-- Sorting anew leaves a track whose timestamps rise as it is. -/
theorem videoTrack_resort (s : Interleaver)
    (rises : (videoTrack s.interleavedPackets i).Pairwise fun p q => p.dtsUsec < q.dtsUsec) :
    videoTrack s.resortInterleavedPackets.interleavedPackets i = videoTrack s.interleavedPackets i := by
  have each := foldl_rule (f := fun s packet => (Interleaver.setHigherTs s packet).insert packet)
    (b := { s with interleavedPackets := [] })
    (P := fun done t => InOrder t.interleavedPackets ∧ t.interleavedPackets.Perm done ∧
      ((videoTrack done i).Pairwise (fun p q => p.dtsUsec < q.dtsUsec) →
        videoTrack t.interleavedPackets i = videoTrack done i))
    ⟨.nil, .refl _, fun _ => rfl⟩ ?next s.interleavedPackets
  case next =>
    rintro done packet t ⟨inOrder, perm, same⟩
    rw [show (t.setHigherTs packet).insert packet = t.place packet from rfl, place_queue]
    refine ⟨inOrder.insert, (insert_perm _ _).trans ((perm.cons packet).trans
      (List.perm_append_singleton packet done).symm), fun rises => ?_⟩
    rw [videoTrack_append, List.pairwise_append] at rises
    rw [videoTrack_insert inOrder, videoTrack_append, videoTrack_append, same rises.1]
    intro own p member
    rw [same rises.1] at member
    exact rises.2.2 p member packet (by simp [videoTrack, own])
  exact each.2.2 rises

/-- What there is of each video track begins with a keyframe. -/
def KeyLed (output : OutputEncoders) (packets : List EncoderPacket) : Prop :=
  ∀ i ∈ output.videoTracks, (videoTrack packets i).head?.all (·.keyframe) = true

instance (packets : List EncoderPacket) : Decidable (KeyLed output packets) :=
  inferInstanceAs (Decidable (∀ i ∈ output.videoTracks, _ = true))

/-- No video packet is queued before the first one of track 0. -/
def Aligned (packets : List EncoderPacket) : Prop :=
  packets.any (fun p => p.isOf .video 0) = true → ∀ p ∈ packets.takeWhile (fun p => !p.isOf .video 0), p.type = .audio

instance (packets : List EncoderPacket) : Decidable (Aligned packets) :=
  inferInstanceAs (Decidable (_ = true → ∀ p ∈ packets.takeWhile _, _ = _))

/-- How far the audio may begin behind the first video packet: a frame or, with several audio
tracks, their longest frame. -/
def allowance (output : OutputEncoders) (video : EncoderPacket) : Int :=
  let frame : Int := video.timebaseNum * 1000000 / video.timebaseDen
  if output.audioTracks.length > 1 then
    max frame ((output.audioTracks.map fun i => ((output.audioEncoders i).map getEncoderDuration).getD 0).foldl max 0)
  else frame

/-- The last audio track begins too far behind the video. -/
def StartsApart (output : OutputEncoders) (packets : List EncoderPacket) : Prop :=
  match packets.find? (fun p => p.isOf .video 0),
    output.audioTracks.getLast?.bind fun i => packets.find? fun p => p.isOf .audio i with
  | some video, some audio => allowance output video < audio.dtsUsec - video.dtsUsec
  | _, _ => False

instance (packets : List EncoderPacket) : Decidable (StartsApart output packets) := by
  unfold StartsApart
  split <;> infer_instance

/-- What is queued behind the first packets of video track 0 and of every audio track. -/
def behindFirsts (output : OutputEncoders) (packets : List EncoderPacket) : List EncoderPacket :=
  packets.drop ((output.audioTracks.map fun i => packets.findIdx fun p => p.isOf .audio i).foldl max
    (packets.findIdx fun p => p.isOf .video 0) + 1)

/-- A queue the attempt to start meets with video of track 0 in it, no other video before that, and
the same of what is left where the audio begins too late. -/
def Startable (output : OutputEncoders) (packets : List EncoderPacket) : Prop :=
  packets.any (fun p => p.isOf .video 0) = true ∧
  (StartsApart output packets → KeyLed output (behindFirsts output packets) ∧ Aligned (behindFirsts output packets)) ∧
  (¬ StartsApart output packets → Aligned packets)

instance (packets : List EncoderPacket) : Decidable (Startable output packets) :=
  inferInstanceAs (Decidable (_ = true ∧ (_ → _ ∧ _) ∧ (¬ _ → _)))

variable {s t : Interleaver} {n m : Nat} {video : EncoderPacket}

theorem take_eq_takeWhile {p : EncoderPacket → Bool} (found : packets.findIdx? p = some n) :
    packets.take n = packets.takeWhile fun x => !p x := by
  induction packets generalizing n with
  | nil => cases found
  | cons x rest ih =>
    rw [List.findIdx?_cons] at found
    cases here : p x with
    | true =>
      simp only [here, if_true, Option.some.injEq] at found
      simp [← found, here]
    | false =>
      simp only [here, Bool.false_eq_true, if_false, Option.map_eq_some_iff] at found
      obtain ⟨m, later, rfl⟩ := found
      simp [here, ih later]

theorem findIdx_of_idx {type : EncoderType} (found : findFirstPacketTypeIdx packets type i = some n) :
    packets.findIdx (fun p => p.isOf type i) = n := by
  rw [List.findIdx_eq_getD_findIdx?, show packets.findIdx? (fun p => p.isOf type i) = some n from found, Option.getD_some]

theorem startIdx_le (start : getInterleavedStartIdx packets = some n) :
    ∃ videoIdx, findFirstPacketTypeIdx packets .video 0 = some videoIdx ∧ n ≤ videoIdx := by
  have start' := start
  simp only [getInterleavedStartIdx, Option.bind_eq_bind, Option.bind_eq_some_iff] at start'
  obtain ⟨video, found, _, _, audio, there, _⟩ := start'
  have kind : audio.type = .audio := by simpa using List.find?_some there
  have member := List.mem_of_mem_drop (List.mem_of_find?_eq_some there)
  obtain ⟨n', videoIdx, start', idx, le⟩ := startIdx_spec member kind found
  rw [start, Option.some.injEq] at start'
  exact ⟨videoIdx, idx, start' ▸ le⟩

/-- Discarding up to the start index takes only audio from an aligned queue. -/
theorem Aligned.start (aligned : Aligned packets) (start : getInterleavedStartIdx packets = some n) :
    (∀ i, videoTrack (packets.drop n) i = videoTrack packets i) ∧ Aligned (packets.drop n) := by
  obtain ⟨videoIdx, idx, le⟩ := startIdx_le start
  have cut := take_eq_takeWhile idx
  have there : packets.any (fun p => p.isOf .video 0) = true := by
    rw [← List.findIdx?_isSome]
    exact Option.isSome_iff_exists.mpr ⟨videoIdx, idx⟩
  have audio (p) (member : p ∈ packets.take n) : p.type = .audio := by
    refine aligned there p ?_
    rw [← cut]
    exact (List.take_subset_take_left packets le) member
  refine ⟨fun i => ?_, fun _ p member => ?_⟩
  · have whole : videoTrack (packets.take n ++ packets.drop n) i = videoTrack packets i := by rw [List.take_append_drop]
    have none : videoTrack (packets.take n) i = [] := by
      apply List.eq_nil_iff_forall_not_mem.mpr
      intro p member
      obtain ⟨member, same⟩ := mem_videoTrack.mp member
      simp [EncoderPacket.isOf, audio p member] at same
    rw [← whole, videoTrack_append, none, List.nil_append]
  · refine aligned there p ?_
    -- what is before the first video packet of what is left was before it
    have split : packets.takeWhile (fun p => !p.isOf .video 0) =
        packets.take n ++ (packets.drop n).takeWhile (fun p => !p.isOf .video 0) := by
      conv_lhs => rw [← List.take_append_drop n packets]
      refine List.takeWhile_append_of_pos fun p member => ?_
      simp [EncoderPacket.isOf, audio p member]
    rw [split]
    exact List.mem_append_right _ member

/-- What the loop of `prune_premature_packets` adds up, and the difference of its last round. -/
theorem premature_spec {tracks : List Nat} {acc acc' : Premature}
    (looped : tracks.foldlM (s.prematureStep output video) acc = some acc') :
    acc'.maxIdx = (tracks.map fun i => s.interleavedPackets.findIdx fun p => p.isOf .audio i).foldl max acc.maxIdx ∧
    acc'.maxAudioDurationUsec = (tracks.map fun i => ((output.audioEncoders i).map getEncoderDuration).getD 0).foldl max
      acc.maxAudioDurationUsec ∧
    acc'.audioEncoders = acc.audioEncoders + tracks.length ∧
    ∀ i, tracks.getLast? = some i → ∃ audio, s.interleavedPackets.find? (fun p => p.isOf .audio i) = some audio ∧
      acc'.diff = audio.dtsUsec - video.dtsUsec := by
  induction tracks generalizing acc with
  | nil =>
    cases looped
    exact ⟨rfl, rfl, rfl, fun i last => by cases last⟩
  | cons i tracks ih =>
    rw [List.foldlM_cons] at looped
    obtain ⟨next, first, rest⟩ := Option.bind_eq_some_iff.mp looped
    obtain ⟨maxIdx, longest, count, last⟩ := ih rest
    simp only [prematureStep, Option.bind_eq_bind, Option.bind_eq_some_iff] at first
    obtain ⟨audioIdx, idx, audio, found, same⟩ := first
    cases same
    have place := findIdx_of_idx idx
    refine ⟨?_, ?_, ?_, fun j end_ => ?_⟩
    · rw [maxIdx, List.map_cons, List.foldl_cons, place]
      congr 1
      dsimp only
      split <;> omega
    · rw [longest, List.map_cons, List.foldl_cons]
      congr 1
      dsimp only
      split <;> omega
    · rw [count, List.length_cons]
      dsimp only
      omega
    · cases tracks with
      | nil =>
        cases end_
        cases rest
        exact ⟨audio, found, rfl⟩
      | cons k tracks => exact last j (by rw [← end_, List.getLast?_cons_cons])

/-- A premature cut is made just where the audio starts apart, behind the first packets. -/
theorem premature_cut (audio : output.audioTracks ≠ [])
    (pruned : s.prunePrematurePackets output = (s, some n)) :
    (n ≠ 0 ↔ StartsApart output s.interleavedPackets) ∧
    (n ≠ 0 → s.interleavedPackets.drop n = behindFirsts output s.interleavedPackets) := by
  rcases prunePremature_cases output s with ⟨_, result⟩ | ⟨_, result⟩ | ⟨video, videoIdx, acc, found, idx, looped⟩
  · rw [result] at pruned
    cases congrArg Prod.snd pruned
  · rw [result] at pruned
    cases congrArg Prod.snd pruned
  obtain ⟨maxIdx, longest, count, last⟩ := premature_spec looped
  obtain ⟨i, end_⟩ := Option.isSome_iff_exists.mp (List.getLast?_isSome.mpr audio)
  obtain ⟨a, there, diff⟩ := last i end_
  have place := findIdx_of_idx idx
  have apart : StartsApart output s.interleavedPackets ↔ allowance output video < a.dtsUsec - video.dtsUsec := by
    unfold StartsApart
    rw [end_, Option.bind_some, there, show s.interleavedPackets.find? (fun p => p.isOf .video 0) = some video from found]
  -- the code's limit is the allowance
  have limit : (if acc.audioEncoders > 1 ∧ (video.timebaseNum * 1000000 / video.timebaseDen : Int) < acc.maxAudioDurationUsec
      then acc.maxAudioDurationUsec else (video.timebaseNum * 1000000 / video.timebaseDen : Int)) =
      allowance output video := by
    rw [count, longest, Nat.zero_add]
    unfold allowance
    dsimp only
    split
    next both => rw [if_pos both.1, max_eq_right both.2.le]
    next not =>
      split
      next several => rw [max_eq_left (not_lt.mp fun less => not ⟨several, less⟩)]
      next => rfl
  have same : n = if acc.diff > allowance output video then acc.maxIdx + 1 else 0 := by
    unfold prunePrematurePackets at pruned
    simp only [found, idx, looped, limit, Prod.mk.injEq, Option.some.injEq, true_and] at pruned
    exact pruned.symm
  rw [apart, ← diff]
  by_cases late : acc.diff > allowance output video
  · rw [if_pos late] at same
    refine ⟨⟨fun _ => late, fun _ => by omega⟩, fun _ => ?_⟩
    unfold behindFirsts
    rw [same, maxIdx, place]
  · rw [if_neg late] at same
    exact ⟨⟨fun cut => absurd same cut, fun less => absurd less late⟩, fun cut => absurd same cut⟩

/-- No cut of an attempt on a startable queue leaves a track without its keyframe. -/
theorem Startable.cut (startable : Startable output s.interleavedPackets) (led : KeyLed output s.interleavedPackets)
    (audio : output.audioTracks ≠ []) (prune : PruneCut output s n) (start : StartCut (s.discardToIdx n) m) :
    KeyLed output ((s.discardToIdx n).discardToIdx m).interleavedPackets := by
  obtain ⟨_, apart, near⟩ := startable
  have first : KeyLed output (s.interleavedPackets.drop n) ∧ Aligned (s.interleavedPackets.drop n) := by
    rcases prune with ⟨pruned, cut⟩ | ⟨pruned, startIdx⟩
    · rw [(premature_cut audio pruned).2 cut]
      exact apart ((premature_cut audio pruned).1.mp cut)
    · have aligned := near (fun starts => (premature_cut audio pruned).1.mpr starts rfl)
      refine ⟨fun i track => ?_, (aligned.start startIdx).2⟩
      rw [(aligned.start startIdx).1]
      exact led i track
  rcases start with none | startIdx
  · rw [none]
    exact first.1
  · intro i track
    rw [discardToIdx_queue, discardToIdx_queue, (first.2.start startIdx).1]
    exact first.1 i track

/-- A later packet of the same track, on a clock no finer than a microsecond. -/
def Rises (p q : EncoderPacket) : Prop :=
  p.dts < q.dts ∧ p.timebaseDen = q.timebaseDen ∧ q.timebaseDen ≤ 1000000

theorem tdiv_lt {x y d : Int} (pos : 0 < d) (fine : d ≤ MICROSECOND_DEN) (less : x < y) :
    (x * MICROSECOND_DEN).tdiv d < (y * MICROSECOND_DEN).tdiv d := by
  have floor (a b : Int) (nonneg : 0 ≤ a) (less : a < b) : a * MICROSECOND_DEN / d < b * MICROSECOND_DEN / d := by
    have step : a * MICROSECOND_DEN + d * 1 ≤ b * MICROSECOND_DEN := by
      have : (a + 1) * MICROSECOND_DEN ≤ b * MICROSECOND_DEN := Int.mul_le_mul_of_nonneg_right (by omega) (by decide)
      rw [Int.add_mul] at this
      omega
    have := Int.ediv_le_ediv pos step
    rw [Int.add_mul_ediv_left _ _ pos.ne'] at this
    omega
  have whole (a : Int) (nonneg : 0 ≤ a) : (a * MICROSECOND_DEN).tdiv d = a * MICROSECOND_DEN / d :=
    Int.tdiv_eq_ediv_of_nonneg (Int.mul_nonneg nonneg (by decide))
  have flip (a : Int) : (a * MICROSECOND_DEN).tdiv d = -((-a * MICROSECOND_DEN).tdiv d) := by
    rw [Int.neg_mul, Int.neg_tdiv, Int.neg_neg]
  rcases le_or_gt 0 x with high | low
  · rw [whole x high, whole y (by omega)]
    exact floor x y high less
  · rcases le_or_gt y 0 with below | above
    · rw [flip x, flip y, whole (-x) (by omega), whole (-y) (by omega)]
      have := floor (-y) (-x) (by omega) (by omega)
      omega
    · have negative := floor 0 (-x) (by omega) (by omega)
      have positive := floor 0 y le_rfl above
      rw [flip x, whole (-x) (by omega), whole y (by omega)]
      simp only [Int.zero_mul, Int.zero_ediv] at negative positive
      omega

theorem applyOffset_lt (s : Interleaver) {p q : EncoderPacket} (rises : Rises p q) (own : p.isOf .video i = true)
    (own' : q.isOf .video i = true) :
    (s.applyInterleavedPacketOffset p).dtsUsec < (s.applyInterleavedPacketOffset q).dtsUsec := by
  simp only [EncoderPacket.isOf, Bool.and_eq_true, decide_eq_true_eq] at own own'
  obtain ⟨later, den, fine⟩ := rises
  simp only [applyInterleavedPacketOffset, packetDtsUsec, own.1, own.2, own'.1, own'.2, den]
  have pos : (0 : Int) < q.timebaseDen := by exact_mod_cast q.den_pos
  exact tdiv_lt pos (by simp only [MICROSECOND_DEN]; omega) (by omega)

/-- A queue to start from: nothing without its keyframe, and nothing of a track without its flag. -/
structure Led (output : OutputEncoders) (s : Interleaver) : Prop where
  led : KeyLed output s.interleavedPackets
  flags : ∀ i, s.receivedVideo i = false → videoTrack s.interleavedPackets i = []
  rising : ∀ i, (videoTrack s.interleavedPackets i).Pairwise Rises

/-- What an output that has not started keeps ready. -/
structure Ready (output : OutputEncoders) (w : InterleaveWorld) : Prop where
  received : w.output.received output = false
  waiting : Waiting w
  queue : Led output w.output

/-- A video track as it was handed over and is queued begins with a keyframe at 0. -/
structure Going (output : OutputEncoders) (w : InterleaveWorld) : Prop where
  first : ∀ i ∈ output.videoTracks, ∃ v rest,
    videoTrack (w.handed ++ w.output.interleavedPackets) i = v :: rest ∧ v.keyframe = true ∧ v.pts = 0
  given : ∀ q ∈ w.output.interleavedPackets, ∃ g ∈ w.given, q = w.output.applyInterleavedPacketOffset g

def Clean (output : OutputEncoders) (w : InterleaveWorld) : Prop :=
  match w.kept with
  | none => Ready output w
  | some _ => Going output w

/-- A packet that comes as the interleaver expects it. -/
def Orderly (output : OutputEncoders) (w : InterleaveWorld) (packet : EncoderPacket) : Prop :=
  let p := output.withTrack packet
  (p.type = .video → p.timebaseDen ≤ 1000000 ∧ ∀ q ∈ videoTrack w.given p.trackIdx, q.dts < p.dts ∧ q.dtsUsec < p.dtsUsec) ∧
  (w.output.received output = false →
    if p.type = .video ∧ w.output.receivedVideo p.trackIdx = false ∧ p.keyframe = false then
      KeyLed output (w.output.interleavedPackets.dropWhile fun q => q.dtsUsec < p.dtsUsec)
    else
      (p.type = .video → p.keyframe = false → videoTrack w.output.interleavedPackets p.trackIdx ≠ []) ∧
      (((w.output.checkReceived p).insert p).received output = true →
        Startable output (insertInterleavedPacket p w.output.interleavedPackets)))

instance (packet : EncoderPacket) : Decidable (Orderly output w packet) := by
  unfold Orderly
  infer_instance

/-- A packet put in before the start goes behind those of its track. -/
theorem Ready.behind (ready : Ready output w) (given : w.Given output packet) (orderly : Orderly output w packet) (i : Nat) :
    ((output.withTrack packet).isOf .video i = true →
      ∀ q ∈ videoTrack w.output.interleavedPackets i, q.dtsUsec < (output.withTrack packet).dtsUsec ∧ Rises q (output.withTrack packet)) := by
  intro own q member
  obtain ⟨member, same⟩ := mem_videoTrack.mp member
  have old := ready.waiting.given q member
  simp only [EncoderPacket.isOf, Bool.and_eq_true, decide_eq_true_eq] at own
  have kind : packet.type = .video := own.1
  have track : output.getEncoderIndex packet = i := own.2
  obtain ⟨fine, later⟩ := orderly.1 own.1
  obtain ⟨dts, usec⟩ := later q (mem_videoTrack.mpr ⟨old, by rw [own.2]; exact same⟩)
  obtain ⟨den, _⟩ := given.2 q old (by rw [kind, track]; exact same)
  exact ⟨usec, dts, den, fine⟩

/-- A queue that lost packets from the front, or any, but no keyframe before its other packets. -/
theorem Led.less (so : Led output s) (sub : t.interleavedPackets.Sublist s.interleavedPackets)
    (same : t.receivedVideo = s.receivedVideo) (led : KeyLed output t.interleavedPackets) : Led output t where
  led := led
  flags i flag := by
    rw [same] at flag
    have none := so.flags i flag
    apply List.eq_nil_iff_forall_not_mem.mpr
    intro p member
    obtain ⟨member, own⟩ := mem_videoTrack.mp member
    have old : p ∈ videoTrack s.interleavedPackets i := mem_videoTrack.mpr ⟨sub.subset member, own⟩
    rw [none] at old
    cases old
  rising i := (so.rising i).sublist (sub.filter _)

theorem Led.lowered (so : Led output s) (lowered : Lowered output s t) : Led output t ∧ t.received output = false := by
  cases lowered with
  | audio => exact ⟨⟨so.led, so.flags, so.rising⟩, rfl⟩
  | video i track missing =>
    refine ⟨⟨so.led, fun j flag => ?_, so.rising⟩, ?_⟩
    · by_cases same : j = i
      · rw [same]
        apply List.eq_nil_iff_forall_not_mem.mpr
        intro p member
        have there : s.has .video i = true := has_iff.mpr ⟨p, (mem_videoTrack.mp member).1, (mem_videoTrack.mp member).2⟩
        rw [missing] at there
        cases there
      · dsimp only at flag
        rw [Function.update_of_ne same] at flag
        exact so.flags j flag
    · rw [← Bool.not_eq_true]
      intro received
      have := received_video received track
      simp at this

/-- Putting in a packet that is not dropped: the first of its track is a keyframe. -/
theorem Ready.checked (ready : Ready output w) (sound : Sound output w.output) (given : w.Given output packet)
    (orderly : Orderly output w packet) {p : EncoderPacket} (is : p = output.withTrack packet)
    (first : p.type = .video → w.output.receivedVideo p.trackIdx = false → p.keyframe = true) :
    Led output ((w.output.checkReceived p).insert p) := by
  have taken : ¬(p.type = .video ∧ w.output.receivedVideo p.trackIdx = false ∧ p.keyframe = false) := by
    rintro ⟨kind, flag, key⟩
    rw [first kind flag] at key
    cases key
  have track (i) : videoTrack ((w.output.checkReceived p).insert p).interleavedPackets i =
      videoTrack w.output.interleavedPackets i ++ videoTrack [p] i := by
    show videoTrack (insertInterleavedPacket p (w.output.checkReceived p).interleavedPackets) i = _
    rw [checkReceived_queue, videoTrack_insert sound.inOrder, videoTrack_append]
    intro own q member
    rw [is] at own ⊢
    exact (ready.behind given orderly i own q member).1
  refine ⟨fun i listed => ?_, fun i flag => ?_, fun i => ?_⟩
  · rw [track]
    cases old : videoTrack w.output.interleavedPackets i with
    | cons v rest =>
      have := ready.queue.led i listed
      rw [old] at this
      exact this
    | nil =>
      by_cases own : p.isOf .video i = true
      · have kind : p.type = .video ∧ p.trackIdx = i := by simpa [EncoderPacket.isOf] using own
        have key : p.keyframe = true := by
          by_contra key
          have follows := orderly.2 ready.received
          rw [← is, if_neg taken] at follows
          exact follows.1 kind.1 (Bool.eq_false_iff.mpr key) (by rw [kind.2]; exact old)
        simp [videoTrack, own, key]
      · simp [videoTrack, own]
  · have kept : w.output.receivedVideo i = false ∧ p.isOf .video i = false := by
      simp only [Interleaver.insert, Interleaver.checkReceived] at flag
      cases kind : p.type with
      | audio =>
        rw [kind] at flag
        exact ⟨flag, by simp [EncoderPacket.isOf, kind]⟩
      | video =>
        rw [kind] at flag
        dsimp only at flag
        by_cases same : i = p.trackIdx
        · rw [same, Function.update_self] at flag
          cases flag
        · rw [Function.update_of_ne same] at flag
          exact ⟨flag, by simp [EncoderPacket.isOf, Ne.symm same]⟩
    rw [track, ready.queue.flags i kept.1]
    simp [videoTrack, kept.2]
  · rw [track]
    refine List.pairwise_append.mpr ⟨ready.queue.rising i, (List.pairwise_singleton _ p).filter _, fun q member p' last => ?_⟩
    obtain ⟨last, own⟩ := mem_videoTrack.mp last
    rw [List.mem_singleton.mp last, is] at own ⊢
    exact (ready.behind given orderly i own q member).2

/-- After the start the first packet of each track stands at 0. -/
theorem Led.start {u : Interleaver} {audio first : EncoderPacket} {rest : List EncoderPacket} (accepted : List EncoderPacket)
    (kept : Option (List EncoderPacket)) (so : Led output s) (there : AllThere output s)
    (is : u = (s.applyNewOffsets output audio).resortInterleavedPackets) (queue : u.interleavedPackets = first :: rest)
    (given : ∀ p ∈ s.interleavedPackets, p ∈ w.given) :
    Going output ⟨{ u with interleavedPackets := rest }, w.given, [first], accepted, kept⟩ := by
  have resorted := resorted (s.applyNewOffsets output audio)
  rw [← is] at resorted
  have offsets (p) : u.applyInterleavedPacketOffset p = (s.newOffsets output audio).applyInterleavedPacketOffset p :=
    applyOffset_of_raises resorted.raises p
  have moved (i) : videoTrack (s.applyNewOffsets output audio).interleavedPackets i =
      (videoTrack s.interleavedPackets i).map (s.newOffsets output audio).applyInterleavedPacketOffset :=
    List.filter_map
  constructor
  · intro i track
    obtain ⟨v, rest', own⟩ : ∃ v rest', videoTrack s.interleavedPackets i = v :: rest' := by
      apply List.exists_cons_of_ne_nil
      obtain ⟨p, member, same⟩ := has_iff.mp (there.video i track)
      exact List.ne_nil_of_mem (mem_videoTrack.mpr ⟨member, same⟩)
    have key := so.led i track
    rw [own] at key
    have found : findFirstPacketType s.interleavedPackets .video i = some v := by
      show s.interleavedPackets.find? (fun p => p.isOf .video i) = some v
      rw [← List.head?_filter]
      exact congrArg List.head? own
    have same : v.type = .video ∧ v.trackIdx = i := by
      simpa [EncoderPacket.isOf] using List.find?_some found
    have sorted : videoTrack u.interleavedPackets i = videoTrack (s.applyNewOffsets output audio).interleavedPackets i := by
      rw [is]
      apply videoTrack_resort
      rw [moved, List.pairwise_map]
      refine (so.rising i).imp_of_mem fun {p q} memberp memberq rises => ?_
      exact applyOffset_lt _ rises (mem_videoTrack.mp memberp).2 (mem_videoTrack.mp memberq).2
    refine ⟨(s.newOffsets output audio).applyInterleavedPacketOffset v,
      rest'.map (s.newOffsets output audio).applyInterleavedPacketOffset, ?_, key, ?_⟩
    · show videoTrack (first :: rest) i = _
      rw [← queue, sorted, moved, own, List.map_cons]
    · simp [applyInterleavedPacketOffset, same.1, same.2, newOffsets, track, found]
  · intro q member
    have member : q ∈ u.interleavedPackets := by
      rw [queue]
      exact List.mem_cons_of_mem _ member
    obtain ⟨g, old, rfl⟩ := List.mem_map.mp (resorted.perm.mem_iff.mp member)
    exact ⟨g, given g old, (offsets g).symm⟩

/-- A started output takes a packet in behind its track, and hands over from the front. -/
theorem Going.call (going : Going output w) (inOrder : InOrder w.output.interleavedPackets)
    (given : w.Given output packet) (orderly : Orderly output w packet)
    (is : out = w.output.applyInterleavedPacketOffset (output.withTrack packet)) {handed rest : List EncoderPacket}
    (queue : (w.output.place out).interleavedPackets = handed ++ rest) (accepted : List EncoderPacket)
    (kept : Option (List EncoderPacket)) :
    Going output ⟨{ w.output.place out with interleavedPackets := rest }, w.given ++ [output.withTrack packet],
      w.handed ++ handed, accepted, kept⟩ := by
  constructor
  · intro i listed
    obtain ⟨v, more, front, key, zero⟩ := going.first i listed
    have behind : videoTrack (w.output.place out).interleavedPackets i =
        videoTrack (w.output.interleavedPackets ++ [out]) i := by
      rw [place_queue]
      apply videoTrack_insert inOrder
      intro own q member
      obtain ⟨member, own'⟩ := mem_videoTrack.mp member
      obtain ⟨g, old, rfl⟩ := going.given q member
      rw [is] at own ⊢
      have kind : packet.type = .video ∧ output.getEncoderIndex packet = i := by
        have own := own
        simp only [EncoderPacket.isOf, Bool.and_eq_true, decide_eq_true_eq] at own
        exact own
      obtain ⟨fine, later⟩ := orderly.1 kind.1
      have own' : g.isOf .video i = true := own'
      obtain ⟨den, _⟩ := given.2 g old (by rw [kind.1, kind.2]; exact own')
      obtain ⟨dts, _⟩ := later g (mem_videoTrack.mpr ⟨old, by
        show g.isOf .video (output.getEncoderIndex packet) = true
        rw [kind.2]
        exact own'⟩)
      exact applyOffset_lt w.output ⟨dts, den, fine⟩ own' own
    refine ⟨v, more ++ videoTrack [out] i, ?_, key, zero⟩
    dsimp only
    rw [List.append_assoc, ← queue, videoTrack_append, behind, videoTrack_append, ← List.append_assoc, ← videoTrack_append,
      front, List.cons_append]
  · intro q member
    have queued : q ∈ (w.output.place out).interleavedPackets := by
      rw [queue]
      exact List.mem_append_right _ member
    have offsets := applyOffset_of_raises (place_raises w.output out)
    rw [place_queue, mem_insert] at queued
    rcases queued with rfl | old
    · exact ⟨_, List.mem_append_right _ (List.mem_singleton_self _), is.trans (offsets _).symm⟩
    · obtain ⟨g, member, same⟩ := going.given q old
      exact ⟨g, List.mem_append_left _ member, same.trans (offsets g).symm⟩

theorem step_clean (step : w.step output packet = some w') (sound : Sound output w.output) (books : Books output w)
    (orderly : Orderly output w packet) (clean : Clean output w) : Clean output w' := by
  have books' := step_books step sound books
  obtain ⟨given, t, r, call, rfl⟩ := step_call sound step
  generalize same : output.withTrack packet = p at call
  have track : p.trackIdx ∈ output.tracks p.type := by
    rw [← same]
    exact given.track
  -- a call that finds the flags not all set meets a world that has not started
  have waits (flags : w.output.received output = false) : w.kept = none ∧ Ready output w := by
    unfold Clean at clean
    unfold Books at books
    cases started : w.kept with
    | none =>
      rw [started] at clean
      exact ⟨rfl, clean⟩
    | some kept =>
      rw [started] at books
      rw [books.received] at flags
      cases flags
  -- what does not start is ready again
  have again (unstarted : w.kept = none) {t : Interleaver} (flags : t.received output = false)
      (books' : Books output (w.record output packet t {})) (led : Led output t) :
      Clean output (w.record output packet t {}) := by
    have kept : (w.record output packet t {}).kept = none := by simp [record, unstarted]
    unfold Clean
    unfold Books at books'
    rw [kept] at books' ⊢
    exact ⟨flags, books' flags, led⟩
  cases call with
  | dropped kind flag key flags =>
    obtain ⟨unstarted, ready⟩ := waits flags
    refine again unstarted flags books' (ready.queue.less (List.dropWhile_sublist _) rfl ?_)
    have led := orderly.2 flags
    rw [same, if_pos ⟨kind, flag, key⟩] at led
    exact led
  | @started out handed rest flags is queue higher =>
    have started : w.kept.isSome = true := by
      cases kept : w.kept with
      | some => rfl
      | none =>
        unfold Clean at clean
        rw [kept] at clean
        rw [clean.received] at flags
        cases flags
    obtain ⟨kept, is_kept⟩ := Option.isSome_iff_exists.mp started
    unfold Clean at clean ⊢
    rw [is_kept] at clean
    simp only [record, is_kept, Option.none_or]
    exact Going.call clean sound.inOrder given orderly (is.trans (by rw [same])) queue _ _
  | queued flags first waiting =>
    obtain ⟨unstarted, ready⟩ := waits flags
    exact again unstarted waiting books' (ready.checked sound given orderly same.symm first)
  | attempt flags first full attempt =>
    obtain ⟨unstarted, ready⟩ := waits flags
    have led := ready.checked sound given orderly same.symm first
    have taken : ¬(p.type = .video ∧ w.output.receivedVideo p.trackIdx = false ∧ p.keyframe = false) := by
      rintro ⟨kind, flag, key⟩
      rw [first kind flag] at key
      cases key
    have audios : output.audioTracks ≠ [] := by
      rw [Interleaver.received, Bool.and_eq_true] at full
      exact (sound.checked track).audio full.1
    have startable : Startable output ((w.output.checkReceived p).insert p).interleavedPackets := by
      have follows := orderly.2 flags
      rw [same, if_neg taken] at follows
      show Startable output (insertInterleavedPacket p (w.output.checkReceived p).interleavedPackets)
      rw [checkReceived_queue]
      exact follows.2 full
    -- what the two cuts leave
    have cut {n m : Nat} (prune : PruneCut output ((w.output.checkReceived p).insert p) n)
        (start : StartCut (((w.output.checkReceived p).insert p).discardToIdx n) m) :
        Led output ((((w.output.checkReceived p).insert p).discardToIdx n).discardToIdx m) :=
      led.less ((List.drop_sublist m _).trans (List.drop_sublist n _)) rfl (startable.cut led.led audios prune start)
    cases attempt with
    | nothing missing =>
      obtain ⟨v, member, own⟩ := List.any_eq_true.mp startable.1
      rw [has_iff.mpr ⟨v, member, own⟩] at missing
      cases missing
    | silent => exact again unstarted rfl books' ⟨led.led, led.flags, led.rising⟩
    | tooSoon prune start lowered =>
      obtain ⟨led', flags'⟩ := (cut prune start).lowered lowered
      exact again unstarted flags' books' led'
    | @start n m u audio head rest prune start there is queue =>
      have going := (cut prune start).start (w := w.record output packet u {}) [] (some (head :: rest)) there is queue
        (fun q member => ?_)
      · unfold Clean
        simpa [record, ready.waiting.handed] using going
      · rcases (ready.waiting.checked p).1 q (List.mem_of_mem_drop (List.mem_of_mem_drop member)) with rfl | old
        · exact List.mem_append_right _ (by simp [same])
        · exact List.mem_append_left _ old

/-- What the first packets handed over have to be. -/
def StartsCleanly (output : OutputEncoders) (w : InterleaveWorld) : Prop :=
  (w.handed ≠ [] → w.kept.isSome = true) ∧
  ∀ i ∈ output.videoTracks, ∀ p ∈ w.handed.find? (fun p => p.isOf .video i), p.keyframe = true ∧ p.pts = 0

theorem startsCleanly_of_clean (clean : Clean output w) : StartsCleanly output w := by
  unfold Clean at clean
  cases started : w.kept with
  | none =>
    rw [started] at clean
    have nothing := clean.waiting.handed
    exact ⟨fun some => absurd nothing some, fun i _ p found => by simp [nothing] at found⟩
  | some kept =>
    rw [started] at clean
    refine ⟨fun _ => by rw [started]; rfl, fun i listed p found => ?_⟩
    obtain ⟨v, rest, front, key, zero⟩ := clean.first i listed
    have head : (videoTrack w.handed i).head? = some p := by
      rw [videoTrack, List.head?_filter]
      exact found
    rw [videoTrack_append] at front
    cases track : videoTrack w.handed i with
    | nil =>
      rw [track] at head
      cases head
    | cons first more =>
      rw [track] at head front
      cases head
      cases front
      exact ⟨key, zero⟩

/-- No call of a run reads past the queue or follows a packet that is not there; and where every
packet came as the interleaver expects it, nothing is handed over before the start and each video
track begins with a keyframe at 0. -/
theorem starts_cleanly {ms : List (Moment InterleaveWorld EncoderPacket)}
    (run : Run (fun w packet w' => w.step output packet = some w') initial ms w) :
    (∀ packet, w.Given output packet → (w.next output packet).isSome = true) ∧
    ((∀ m ∈ ms, Orderly output m.before m.input) → StartsCleanly output w) := by
  refine ⟨fun packet given => next_of_run run given, fun orderly => ?_⟩
  have nothing (p) (member : p ∈ initial.output.interleavedPackets) : p ∈ initial.given := (List.not_mem_nil member).elim
  have waiting : Waiting initial := ⟨rfl, fun _ => rfl, nothing⟩
  have whole := run.invariant
    (P := fun w => Sound output w.output ∧ Books output w ∧ Clean output w)
    (Q := fun m => Orderly output m.before m.input)
    (fun m orderly step so => ⟨step_sound step so.1, step_books step so.1 so.2.1,
      step_clean step so.1 so.2.1 orderly so.2.2⟩)
    orderly ⟨initial_sound output, fun _ => waiting, rfl, waiting, fun _ _ => rfl, fun _ _ => rfl, fun _ => .nil⟩
  exact startsCleanly_of_clean whole.1.2.2

/-- One video encoder of 25 frames a second and one audio encoder, counting in milliseconds. -/
def oneTrackEach : OutputEncoders where
  videoEncoders i := if i = 0 then some ⟨1, 40, 1000, 0, milliseconds_pos⟩ else none
  audioEncoders i := if i = 0 then some ⟨2, 1, 1000, 21, milliseconds_pos⟩ else none
  interleaverMaxBatchSize := 4

def frameAt (ms : Int) (keyframe : Bool) : EncoderPacket := ⟨ms, ms, 40, 1000, .video, keyframe, ms * 1000, 0, 1, milliseconds_pos⟩

def soundAt (ms : Int) : EncoderPacket := ⟨ms, ms, 1, 1000, .audio, false, ms * 1000, 0, 2, milliseconds_pos⟩

/-- The audio begins late, and everything before the next keyframe is dropped. -/
theorem starts_cleanly_late : ∃ ms w,
    Run (fun w packet w' => w.step oneTrackEach packet = some w') initial ms w ∧ w.handed.length = 2 ∧
      StartsCleanly oneTrackEach w := by
  obtain ⟨ms, w, run, shown⟩ := exists_run_of_follow (fun (w : InterleaveWorld) packet => w.step oneTrackEach packet)
    initial [frameAt 0 true, frameAt 40 false, soundAt 50, frameAt 80 false, soundAt 92, frameAt 120 true, soundAt 113,
      soundAt 134, frameAt 160 false]
    (fun ms w => ms.all (fun m => decide (Orderly oneTrackEach m.before m.input)) && decide (w.handed.length = 2))
    (by decide)
  simp only [Bool.and_eq_true, List.all_eq_true, decide_eq_true_eq] at shown
  exact ⟨ms, w, run, shown.2, (starts_cleanly run).2 shown.1⟩

/-- The same late audio with one more frame already queued: the keyframe is cut, the frame at 80 ms
stays, and the stream begins with it. -/
theorem not_starts_cleanly : ¬ ∀ (output : OutputEncoders) ms w,
    Run (fun w packet w' => w.step output packet = some w') initial ms w → StartsCleanly output w := by
  intro cleanly
  obtain ⟨ms, w, run, shown⟩ := exists_run_of_follow (fun (w : InterleaveWorld) packet => w.step oneTrackEach packet)
    initial [frameAt 0 true, frameAt 40 false, frameAt 80 false, soundAt 50, soundAt 71, soundAt 92]
    (fun _ w => (w.handed.find? fun p => p.isOf .video 0).any fun p => !p.keyframe) (by decide)
  obtain ⟨p, found, key⟩ := (Option.any_eq_true _ _).mp shown
  have := ((cleanly oneTrackEach ms w run).2 0 (by decide) p found).1
  simp [this] at key

end Braidcast.Output.InterleaveWorld
