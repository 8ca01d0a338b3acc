import Braidcast.Output.Interleaving

/-!
# What is handed over, and in what order

Nothing is lost or doubled between the start and the service, and the queue is sorted, in every
run. The order in which packets are handed over rests on the marks, of which the audio tracks
share one: a packet of one audio track below what another track has already raised it to can
come too late.
-/
namespace Braidcast.Output.InterleaveWorld

open Lib Interleaver

variable {output : OutputEncoders} {w w' : InterleaveWorld} {packet : EncoderPacket}

/-- An output that has not started, with a flag still missing. -/
structure Waiting (w : InterleaveWorld) : Prop where
  handed : w.handed = []
  highestVideoTs : ∀ i, w.output.highestVideoTs i = ⊥
  given : ∀ p ∈ w.output.interleavedPackets, p ∈ w.given

/-- The packets since the start, each once. -/
structure Accounted (output : OutputEncoders) (w : InterleaveWorld) (kept : List EncoderPacket) : Prop where
  received : w.output.received output = true
  perm : (w.handed ++ w.output.interleavedPackets).Perm (kept ++ w.accepted)

/-- The flags were set without a start, or nothing was handed over yet, or all is accounted for. -/
def Books (output : OutputEncoders) (w : InterleaveWorld) : Prop :=
  match w.kept with
  | none => w.output.received output = false → Waiting w
  | some kept => Accounted output w kept

theorem received_of_raises {s t : Interleaver} (raises : Raises s t) : t.received output = s.received output := by
  rw [Interleaver.received, Interleaver.received, raises.receivedAudio, raises.receivedVideo]

/-- The queue of a packet put in before the start is still one of packets given. -/
theorem Waiting.checked (waiting : Waiting w) (p : EncoderPacket) :
    (∀ q ∈ ((w.output.checkReceived p).insert p).interleavedPackets, q = p ∨ q ∈ w.given) ∧
    ∀ i, ((w.output.checkReceived p).insert p).highestVideoTs i = ⊥ := by
  constructor
  · intro q member
    rcases mem_insert.mp member with same | old
    · exact .inl same
    · rw [checkReceived_queue] at old
      exact .inr (waiting.given q old)
  · intro i
    show (w.output.checkReceived p).highestVideoTs i = ⊥
    rw [checkReceived_highestVideoTs]
    exact waiting.highestVideoTs i

theorem step_books (step : w.step output packet = some w') (sound : Sound output w.output) (books : Books output w) :
    Books output w' := by
  obtain ⟨given, t, r, call, rfl⟩ := step_call sound step
  generalize same : output.withTrack packet = p at call
  unfold Books at books ⊢
  cases call with
  | dropped _ _ _ flags =>
    cases started : w.kept with
    | none =>
      rw [started] at books
      have waiting := books flags
      simp only [record, started, Option.or_none]
      refine fun _ => ⟨by simpa using waiting.handed, waiting.highestVideoTs, fun q member => ?_⟩
      exact List.mem_append_left _ (waiting.given q ((List.dropWhile_sublist _).subset member))
    | some kept =>
      rw [started] at books
      rw [books.received] at flags
      cases flags
  | @started out handed rest flags is queue _ =>
    have raises := place_raises w.output out
    cases started : w.kept with
    | none =>
      simp only [record, started, Option.or_none]
      intro missing
      have same : Interleaver.received output _ = _ := received_of_raises raises
      rw [flags] at same
      exact absurd (missing.symm.trans same) (by simp)
    | some kept =>
      rw [started] at books
      simp only [record, started, Option.none_or, Option.isSome_none, Bool.false_eq_true, if_false, Option.toList_some]
      refine ⟨(received_of_raises raises).trans flags, ?_⟩
      calc w.handed ++ handed ++ rest
          = w.handed ++ (w.output.place out).interleavedPackets := by rw [List.append_assoc, queue]
        _ = w.handed ++ insertInterleavedPacket out w.output.interleavedPackets := by rw [place_queue]
        List.Perm _ (w.handed ++ (out :: w.output.interleavedPackets)) := (insert_perm _ _).append_left _
        List.Perm _ (out :: (w.handed ++ w.output.interleavedPackets)) := List.perm_middle
        List.Perm _ (out :: (kept ++ w.accepted)) := books.perm.cons out
        List.Perm _ (kept ++ (w.accepted ++ [out])) := by
          rw [← List.append_assoc]
          exact (List.perm_append_singleton out _).symm
  | queued flags _ _ =>
    cases started : w.kept with
    | none =>
      rw [started] at books
      have waiting := books flags
      simp only [record, started, Option.or_none]
      refine fun _ => ⟨by simpa using waiting.handed, (waiting.checked p).2, fun q member => ?_⟩
      rcases (waiting.checked p).1 q member with rfl | old
      · exact List.mem_append_right _ (by simp [same])
      · exact List.mem_append_left _ old
    | some kept =>
      rw [started] at books
      rw [books.received] at flags
      cases flags
  | attempt flags _ ready attempt =>
    cases started : w.kept with
    | some kept =>
      rw [started] at books
      rw [books.received] at flags
      cases flags
    | none =>
      rw [started] at books
      have waiting := books flags
      rcases attempt.cases with ⟨rfl, ⟨n, queue⟩, marks, _⟩ | ⟨n, u, audio, first, rest, _, is, queue, rfl, rfl⟩
      · simp only [record, started, Option.or_none]
        refine fun _ => ⟨by simpa using waiting.handed, fun i => ?_, fun q member => ?_⟩
        · rw [marks]
          exact (waiting.checked p).2 i
        · rw [queue] at member
          rcases (waiting.checked p).1 q (List.mem_of_mem_drop member) with rfl | old
          · exact List.mem_append_right _ (by simp [same])
          · exact List.mem_append_left _ old
      · simp only [record, Option.some_or, Option.isSome_some, if_true, waiting.handed]
        have raises := (resorted ((((w.output.checkReceived p).insert p).discardToIdx n).applyNewOffsets output audio)).raises
        rw [← is] at raises
        exact ⟨(received_of_raises raises).trans ready, by simp⟩

theorem applyOffset_of_raises {s t : Interleaver} (raises : Raises s t) (p : EncoderPacket) :
    t.applyInterleavedPacketOffset p = s.applyInterleavedPacketOffset p := by
  unfold applyInterleavedPacketOffset
  rw [raises.videoOffsets, raises.audioOffsets]

/-- The timestamps of a track do not go back after its offset either. -/
theorem applyOffset_mono (s : Interleaver) {p q : EncoderPacket} (type : q.type = p.type) (track : q.trackIdx = p.trackIdx)
    (den : q.timebaseDen = p.timebaseDen) (dts : q.dts ≤ p.dts) :
    (s.applyInterleavedPacketOffset q).dtsUsec ≤ (s.applyInterleavedPacketOffset p).dtsUsec := by
  have pos : (0 : Int) < p.timebaseDen := by exact_mod_cast p.den_pos
  simp only [applyInterleavedPacketOffset, packetDtsUsec, type, track, den]
  apply Int.tdiv_le_tdiv pos
  apply Int.mul_le_mul_of_nonneg_right _ (by decide)
  omega

/-- What is handed over stays at or below the queue and the marks. -/
structure Ordered (output : OutputEncoders) (w : InterleaveWorld) : Prop where
  handed : InOrder w.handed
  queue : ∀ h ∈ w.handed, ∀ q ∈ w.output.interleavedPackets, h.dtsUsec ≤ q.dtsUsec
  audio : ∀ h ∈ w.handed, h.dtsUsec ≤ w.output.highestAudioTs
  video : ∀ h ∈ w.handed, ∀ i ∈ output.videoTracks, (h.dtsUsec : WithBot Int) ≤ w.output.highestVideoTs i
  below : ∀ q ∈ w.output.interleavedPackets, BelowMark w.output q
  attained : ∀ i ∈ output.videoTracks, ∃ g ∈ w.given, g.isOf .video i = true ∧
    ((w.output.applyInterleavedPacketOffset g).dtsUsec : WithBot Int) = w.output.highestVideoTs i

/-- An audio packet of a started output that comes below the audio mark, with every video mark past it. -/
def Overtaken (output : OutputEncoders) (w : InterleaveWorld) (packet : EncoderPacket) : Prop :=
  w.kept.isSome = true ∧ packet.type = .audio ∧
  let out := w.output.applyInterleavedPacketOffset (output.withTrack packet)
  out.dtsUsec < w.output.highestAudioTs ∧ ∀ i ∈ output.videoTracks, (out.dtsUsec : WithBot Int) < w.output.highestVideoTs i

instance (packet : EncoderPacket) : Decidable (Overtaken output w packet) :=
  inferInstanceAs (Decidable (_ ∧ _ ∧ _ < _ ∧ ∀ i ∈ output.videoTracks, _ < _))

/-- A packet accepted is at or above all that was handed over. -/
theorem Ordered.accepts (ordered : Ordered output w) (started : w.kept.isSome = true) (given : w.Given output packet)
    (timely : ¬ Overtaken output w packet) :
    ∀ h ∈ w.handed, h.dtsUsec ≤ (w.output.applyInterleavedPacketOffset (output.withTrack packet)).dtsUsec := by
  intro h member
  have track := given.track
  cases kind : packet.type with
  | video =>
    rw [kind] at track
    obtain ⟨g, old, same, mark⟩ := ordered.attained _ track
    obtain ⟨den, dts, _⟩ := given.2 g old (by rw [kind]; exact same)
    simp only [EncoderPacket.isOf, Bool.and_eq_true, decide_eq_true_eq] at same
    have before := ordered.video h member _ track
    rw [← mark, WithBot.coe_le_coe] at before
    refine before.trans (applyOffset_mono _ ?_ ?_ den dts)
    · exact same.1.trans kind.symm
    · exact same.2
  | audio =>
    by_contra late
    rw [not_le] at late
    refine timely ⟨started, kind, late.trans_le (ordered.audio h member), fun i video => ?_⟩
    exact (WithBot.coe_lt_coe.mpr late).trans_le (ordered.video h member i video)

/-- Taking in a packet that is not overtaken. -/
theorem Ordered.place (ordered : Ordered output w) (started : w.kept.isSome = true) (given : w.Given output packet)
    (timely : ¬ Overtaken output w packet) {out : EncoderPacket}
    (is : out = w.output.applyInterleavedPacketOffset (output.withTrack packet)) (accepted : List EncoderPacket) :
    Ordered output { w with output := w.output.place out, given := w.given ++ [output.withTrack packet], accepted } := by
  have raises := place_raises w.output out
  have offsets := applyOffset_of_raises raises
  refine ⟨ordered.handed, fun h member q queued => ?_, fun h member => ?_, fun h member i track => ?_, fun q queued => ?_,
    fun i track => ?_⟩
  · simp only [place_queue, mem_insert] at queued
    rcases queued with rfl | old
    · rw [is]
      exact ordered.accepts started given timely h member
    · exact ordered.queue h member q old
  · exact (ordered.audio h member).trans raises.highestAudioTs
  · exact (ordered.video h member i track).trans (raises.highestVideoTs i)
  · simp only [place_queue, mem_insert] at queued
    rcases queued with rfl | old
    · exact belowMark_place w.output q
    · exact (ordered.below q old).raise raises
  · obtain ⟨g, old, same, mark⟩ := ordered.attained i track
    simp only [offsets, place_highestVideoTs]
    split
    next own =>
      rcases le_total (out.dtsUsec : WithBot Int) (w.output.highestVideoTs i) with low | high
      · rw [max_eq_left low]
        exact ⟨g, List.mem_append_left _ old, same, mark⟩
      · rw [max_eq_right high]
        refine ⟨output.withTrack packet, by simp, ?_, by rw [is]⟩
        rw [is] at own
        exact own
    next => exact ⟨g, List.mem_append_left _ old, same, mark⟩

/-- Handing over from the front what every opposing mark has passed. -/
theorem Ordered.hand (ordered : Ordered output w) (inOrder : InOrder w.output.interleavedPackets)
    {handed rest : List EncoderPacket} (queue : w.output.interleavedPackets = handed ++ rest)
    (higher : ∀ p ∈ handed, w.output.hasHigherOpposingTs output p = true) :
    Ordered output
      { w with output := { w.output with interleavedPackets := rest }, handed := w.handed ++ handed } := by
  have front (p) (member : p ∈ handed) : p ∈ w.output.interleavedPackets := by
    rw [queue]
    exact List.mem_append_left _ member
  have back (p) (member : p ∈ rest) : p ∈ w.output.interleavedPackets := by
    rw [queue]
    exact List.mem_append_right _ member
  rw [InOrder, queue, List.pairwise_append] at inOrder
  refine ⟨?_, fun h member q left => ?_, fun h member => ?_, fun h member i track => ?_, fun q left => ?_, ordered.attained⟩
  · exact List.pairwise_append.mpr ⟨ordered.handed, inOrder.1, fun h old p new => ordered.queue h old p (front p new)⟩
  · rcases List.mem_append.mp member with old | new
    · exact ordered.queue h old q (back q left)
    · exact inOrder.2.2 h new q left
  · rcases List.mem_append.mp member with old | new
    · exact ordered.audio h old
    · have below := ordered.below h (front h new)
      have passed := higher h new
      unfold BelowMark at below
      unfold hasHigherOpposingTs at passed
      cases kind : h.type with
      | audio =>
        rw [kind] at below
        exact below
      | video =>
        simp only [kind, Bool.and_eq_true, decide_eq_true_eq] at passed
        exact passed.2.le
  · rcases List.mem_append.mp member with old | new
    · exact ordered.video h old i track
    · have below := ordered.below h (front h new)
      have passed := higher h new
      unfold BelowMark at below
      unfold hasHigherOpposingTs at passed
      cases kind : h.type with
      | audio =>
        simp only [kind, List.all_eq_true] at passed
        have passed := passed i track
        simp only [reduceCtorEq, decide_false, Bool.false_and, Bool.false_or, decide_eq_true_eq] at passed
        exact passed.le
      | video =>
        simp only [kind, Bool.and_eq_true, List.all_eq_true] at passed
        have passed := passed.1 i track
        simp only [decide_true, Bool.true_and, Bool.or_eq_true, decide_eq_true_eq] at passed
        rcases passed with own | passed
        · rw [kind] at below
          rw [own]
          exact below
        · exact passed.le
  · exact ordered.below q (back q left)

/-- The first packet of the start is the least, and every track has one at its mark. -/
theorem ordered_start {s u : Interleaver} {audio first : EncoderPacket} {rest : List EncoderPacket}
    (some : output.audioTracks ≠ []) (there : AllThere output s) (unset : ∀ i, s.highestVideoTs i = ⊥)
    (is : u = (s.applyNewOffsets output audio).resortInterleavedPackets) (queue : u.interleavedPackets = first :: rest)
    (given : ∀ p ∈ s.interleavedPackets, p ∈ w.given) (accepted : List EncoderPacket)
    (kept : Option (List EncoderPacket)) :
    Ordered output ⟨{ u with interleavedPackets := rest }, w.given, [first], accepted, kept⟩ := by
  have so := resorted (s.applyNewOffsets output audio)
  rw [← is] at so
  have offsets (p) : u.applyInterleavedPacketOffset p =
      (s.applyNewOffsets output audio).applyInterleavedPacketOffset p := applyOffset_of_raises so.raises p
  have moved (p) : p ∈ u.interleavedPackets ↔
      ∃ q ∈ s.interleavedPackets, (s.applyNewOffsets output audio).applyInterleavedPacketOffset q = p := by
    rw [so.perm.mem_iff]
    exact List.mem_map
  have below (p) (member : p ∈ u.interleavedPackets) : BelowMark u p := so.below p (so.perm.mem_iff.mp member)
  have inOrder := so.inOrder
  rw [queue, InOrder, List.pairwise_cons] at inOrder
  have least (p) (member : p ∈ u.interleavedPackets) : first.dtsUsec ≤ p.dtsUsec := by
    rw [queue] at member
    rcases List.mem_cons.mp member with rfl | later
    · exact le_rfl
    · exact inOrder.1 p later
  -- a packet of the track, where it now stands in the queue
  have queued (type : EncoderType) (i : Nat) (has : s.has type i = true) :
      ∃ p ∈ u.interleavedPackets, p.isOf type i = true := by
    obtain ⟨q, member, same⟩ := has_iff.mp has
    exact ⟨_, (moved _).mpr ⟨q, member, rfl⟩, same⟩
  have video (i) (track : i ∈ output.videoTracks) : (first.dtsUsec : WithBot Int) ≤ u.highestVideoTs i := by
    obtain ⟨p, member, same⟩ := queued .video i (there.video i track)
    have mark := below p member
    simp only [EncoderPacket.isOf, Bool.and_eq_true, decide_eq_true_eq] at same
    rw [BelowMark, same.1, same.2] at mark
    exact (WithBot.coe_le_coe.mpr (least p member)).trans mark
  refine ⟨List.pairwise_singleton _ _, fun h member q later => ?_, fun h member => ?_, fun h member i track => ?_,
    fun q later => ?_, fun i track => ?_⟩
  · rw [List.mem_singleton.mp member]
    exact inOrder.1 q later
  · rw [List.mem_singleton.mp member]
    obtain ⟨i, track⟩ := List.exists_mem_of_ne_nil _ some
    obtain ⟨p, member, same⟩ := queued .audio i (there.audio i track)
    have mark := below p member
    simp only [EncoderPacket.isOf, Bool.and_eq_true, decide_eq_true_eq] at same
    rw [BelowMark, same.1] at mark
    exact (least p member).trans mark
  · rw [List.mem_singleton.mp member]
    exact video i track
  · refine below q ?_
    rw [queue]
    exact List.mem_cons_of_mem _ later
  · rcases so.attained unset i with bot | ⟨p, member, same, mark⟩
    · have above := video i track
      rw [bot] at above
      exact absurd above (by simp)
    · obtain ⟨q, old, rfl⟩ := List.mem_map.mp member
      refine ⟨q, given q old, same, ?_⟩
      rw [← mark]
      exact congrArg (fun p : EncoderPacket => (p.dtsUsec : WithBot Int)) (offsets q)

theorem step_ordered (step : w.step output packet = some w') (sound : Sound output w.output) (books : Books output w)
    (timely : ¬ Overtaken output w packet) (ordered : w.kept.isSome = true → Ordered output w) :
    w'.kept.isSome = true → Ordered output w' := by
  obtain ⟨given, t, r, call, rfl⟩ := step_call sound step
  generalize same : output.withTrack packet = p at call
  have track : p.trackIdx ∈ output.tracks p.type := by
    rw [← same]
    exact given.track
  unfold Books at books
  -- a start meets a world that has not started
  have unstarted (flags : w.output.received output = false) : w.kept = none := by
    cases started : w.kept with
    | none => rfl
    | some kept =>
      rw [started] at books
      rw [books.received] at flags
      cases flags
  cases call with
  | dropped _ _ _ flags =>
    intro started
    simp [record, unstarted flags] at started
  | queued flags =>
    intro started
    simp [record, unstarted flags] at started
  | @started out handed rest flags is queue higher =>
    intro started
    have started : w.kept.isSome = true := by simpa [record] using started
    have placed := (ordered started).place started given timely (is.trans (by rw [same])) (w.accepted ++ [out])
    have sorted : InOrder (w.output.place out).interleavedPackets := by
      rw [place_queue]
      exact sound.inOrder.insert
    simpa [record, same] using placed.hand sorted queue higher
  | attempt flags _ ready attempt =>
    intro started
    rw [unstarted flags] at books
    have waiting := books flags
    rcases attempt.cases with ⟨rfl, _⟩ | ⟨n, u, audio, first, rest, there, is, queue, rfl, rfl⟩
    · simp [record, unstarted flags] at started
    · have audios : output.audioTracks ≠ [] := by
        rw [Interleaver.received, Bool.and_eq_true] at ready
        exact (sound.checked track).audio ready.1
      have starts := ordered_start (w := w.record output packet u {}) audios
        there (waiting.checked p).2 is queue (fun q member => ?_) [] (some (first :: rest))
      · simpa [record, waiting.handed] using starts
      · rcases (waiting.checked p).1 q (List.mem_of_mem_drop member) with rfl | old
        · exact List.mem_append_right _ (by simp [same])
        · exact List.mem_append_left _ old

/-- Over every run the queue is sorted and, once the output has started, what was handed over and
what is queued are the packets kept at the start and those accepted since; the packets are handed
over in order as long as no audio packet is overtaken. -/
theorem handed_in_order {ms : List (Moment InterleaveWorld EncoderPacket)}
    (run : Run (fun w packet w' => w.step output packet = some w') initial ms w) :
    InOrder w.output.interleavedPackets ∧
    (∀ kept, w.kept = some kept → (w.handed ++ w.output.interleavedPackets).Perm (kept ++ w.accepted)) ∧
    ((∀ m ∈ ms, ¬ Overtaken output m.before m.input) → w.kept.isSome = true → InOrder w.handed) := by
  have base := run.always (P := fun w => Sound output w.output ∧ Books output w)
    (fun _ _ _ step so => ⟨step_sound step so.1, step_books step so.1 so.2⟩)
    ⟨initial_sound output, fun _ => ⟨rfl, fun _ => rfl, fun p member => (List.not_mem_nil member).elim⟩⟩
  refine ⟨base.1.inOrder, fun kept started => ?_, fun timely started => ?_⟩
  · have books := base.2
    rw [Books, started] at books
    exact books.perm
  · have whole := run.invariant
      (P := fun w => Sound output w.output ∧ Books output w ∧ (w.kept.isSome = true → Ordered output w))
      (Q := fun m => ¬ Overtaken output m.before m.input)
      (fun m timely step so => ⟨step_sound step so.1, step_books step so.1 so.2.1,
        step_ordered step so.1 so.2.1 timely so.2.2⟩)
      timely ⟨initial_sound output, fun _ => ⟨rfl, fun _ => rfl, fun p member => (List.not_mem_nil member).elim⟩,
        fun started => by cases started⟩
    exact (whole.1.2.2 started).handed

/-- One video and two audio encoders, all counting in milliseconds. -/
def twoAudioTracks : OutputEncoders where
  videoEncoders i := if i = 0 then some ⟨1, 1, 1000, 0, milliseconds_pos⟩ else none
  audioEncoders i :=
    if i = 0 then some ⟨2, 1, 1000, 20, milliseconds_pos⟩ else if i = 1 then some ⟨3, 1, 1000, 20, milliseconds_pos⟩ else none
  interleaverMaxBatchSize := 4

def packetAt (type : EncoderType) (encoder : Nat) (ms : Int) (keyframe : Bool) : EncoderPacket :=
  ⟨ms, ms, 1, 1000, type, keyframe, ms * 1000, 0, encoder, milliseconds_pos⟩

/-- A start, and the first audio track going on. -/
def leading : List EncoderPacket :=
  [packetAt .audio 2 0 false, packetAt .audio 3 0 false, packetAt .video 1 0 true, packetAt .video 1 100 false,
    packetAt .audio 2 50 false, packetAt .audio 2 80 false]

theorem handed_in_order_leading : ∃ ms w,
    Run (fun w packet w' => w.step twoAudioTracks packet = some w') initial ms w ∧ w.handed.length = 4 ∧
      InOrder w.handed := by
  obtain ⟨ms, w, run, shown⟩ := exists_run_of_follow (fun (w : InterleaveWorld) packet => w.step twoAudioTracks packet)
    initial leading (fun ms w => ms.all (fun m => !decide (Overtaken twoAudioTracks m.before m.input)) &&
      w.kept.isSome && decide (w.handed.length = 4)) (by decide)
  simp only [Bool.and_eq_true, List.all_eq_true, Bool.not_eq_true', decide_eq_false_iff_not, decide_eq_true_eq] at shown
  exact ⟨ms, w, run, shown.2, (handed_in_order run).2.2 shown.1.1 shown.1.2⟩

/-- The second audio track's packet at 10 ms comes after the first one's at 50 ms was handed over. -/
theorem not_handed_in_order : ¬ ∀ (output : OutputEncoders) ms w,
    Run (fun w packet w' => w.step output packet = some w') initial ms w → ∀ kept, w.kept = some kept →
      InOrder w.handed ∧ (w.handed ++ w.output.interleavedPackets).Perm (kept ++ w.accepted) ∧
      InOrder w.output.interleavedPackets := by
  intro ordered
  obtain ⟨ms, w, run, shown⟩ := exists_run_of_follow (fun (w : InterleaveWorld) packet => w.step twoAudioTracks packet)
    initial (leading ++ [packetAt .audio 3 10 false])
    (fun _ w => w.kept.isSome && !decide (InOrder w.handed)) (by decide)
  rw [Bool.and_eq_true, Bool.not_eq_true', decide_eq_false_iff_not] at shown
  obtain ⟨kept, started⟩ := Option.isSome_iff_exists.mp shown.1
  exact shown.2 (ordered twoAudioTracks ms w run kept started).1

end Braidcast.Output.InterleaveWorld
