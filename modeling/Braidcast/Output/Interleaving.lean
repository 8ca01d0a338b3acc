import Braidcast.Output.Interleaver

/-!
# What a call of the interleaver can do

A started output puts the packet into its queue and hands packets over from the front. One
that has not started only drops packets from the front and takes back flags, until the call
that finds a packet of every track and starts it.
-/
namespace Braidcast.Output

open Lib

namespace Interleaver

variable {output : OutputEncoders} {s t : Interleaver} {packet : EncoderPacket} {r : Report}

variable {type : EncoderType}

theorem has_iff {i : Nat} :
    s.has type i = true ↔ ∃ p ∈ s.interleavedPackets, p.isOf type i = true := by
  simp [has, findFirstPacketType, List.find?_isSome]

/-- The hand-over of a started output, and that it never reads an empty queue. -/
theorem interleaveStarted_spec (output : OutputEncoders) (s : Interleaver) (packet : EncoderPacket) :
    ∃ handed rest, (s.place (s.applyInterleavedPacketOffset packet)).interleavedPackets = handed ++ rest ∧
      (∀ p ∈ handed, (s.place (s.applyInterleavedPacketOffset packet)).hasHigherOpposingTs output p = true) ∧
      s.interleaveStarted output packet =
        some ({ s.place (s.applyInterleavedPacketOffset packet) with interleavedPackets := rest },
          { handed, accepted := some (s.applyInterleavedPacketOffset packet) }) := by
  unfold interleaveStarted
  simp only [setHigherTs_insert]
  generalize s.applyInterleavedPacketOffset packet = out
  generalize s.place out = u
  unfold countStreamableFrames
  have whole := List.takeWhile_append_dropWhile (p := u.hasHigherOpposingTs output) (l := u.interleavedPackets)
  have each : ∀ p ∈ u.interleavedPackets.takeWhile (u.hasHigherOpposingTs output), u.hasHigherOpposingTs output p = true :=
    fun p member => List.all_eq_true.mp List.all_takeWhile p member
  cases eligible : u.interleavedPackets.takeWhile (u.hasHigherOpposingTs output) with
  | nil =>
    refine ⟨[], u.interleavedPackets, rfl, by simp, ?_⟩
    simp
  | cons first more =>
    rw [eligible] at whole each
    obtain ⟨rest, queue⟩ : ∃ rest, u.interleavedPackets = first :: (more ++ rest) := ⟨_, whole.symm⟩
    by_cases overfull : more.length > output.interleaverMaxBatchSize
    · cases more with
      | nil => cases overfull
      | cons second more =>
        refine ⟨[first, second], _, queue, fun p member => each p ?_, ?_⟩
        · rcases List.mem_cons.mp member with rfl | member
          · exact List.mem_cons_self
          · rw [List.mem_singleton.mp member]
            exact List.mem_cons_of_mem _ List.mem_cons_self
        · have overfull' : output.interleaverMaxBatchSize < more.length + 1 := overfull
          simp [sendInterleaved, queue, overfull']
    · refine ⟨[first], _, queue, fun p member => each p ?_, ?_⟩
      · rw [List.mem_singleton.mp member]
        exact List.mem_cons_self
      · simp [sendInterleaved, queue, overfull]

theorem has_eq_false_iff {i : Nat} :
    s.has type i = false ↔ findFirstPacketType s.interleavedPackets type i = none := by
  rw [has, Option.isSome_eq_false_iff, Option.isNone_iff_eq_none]

theorem idx_of_find {packets : List EncoderPacket} {i : Nat} {p : EncoderPacket}
    (found : findFirstPacketType packets type i = some p) : ∃ n, findFirstPacketTypeIdx packets type i = some n := by
  have some : (packets.findIdx? fun p => p.isOf type i).isSome = true := by
    rw [List.findIdx?_isSome, List.any_eq_true]
    exact ⟨p, List.mem_of_find?_eq_some found, by simpa using List.find?_some found⟩
  exact Option.isSome_iff_exists.mp some

/-- The loop of `prune_premature_packets` ends early just where an audio track has nothing queued. -/
theorem premature_none_iff {video : EncoderPacket} {tracks : List Nat} {acc : Premature} :
    tracks.foldlM (s.prematureStep output video) acc = none ↔ ∃ i ∈ tracks, s.has .audio i = false := by
  induction tracks generalizing acc with
  | nil => simp
  | cons i tracks ih =>
    rw [List.foldlM_cons, List.exists_mem_cons_iff]
    cases found : findFirstPacketType s.interleavedPackets .audio i with
    | none =>
      have missing : s.has .audio i = false := has_eq_false_iff.mpr found
      simp [prematureStep, found, missing]
    | some audio =>
      have there : s.has .audio i = true := by simp [has, found]
      obtain ⟨n, idx⟩ := idx_of_find found
      simp [prematureStep, found, idx, there, ih]

/-- The outcome of `prune_premature_packets`; where it is not -1, every track it looks at has a packet. -/
theorem prunePremature_cases (output : OutputEncoders) (s : Interleaver) :
    (s.has .video 0 = false ∧ s.prunePrematurePackets output = (s, none)) ∨
    ((∃ i ∈ output.audioTracks, s.has .audio i = false) ∧
      s.prunePrematurePackets output = ({ s with receivedAudio := false }, none)) ∨
    ∃ video videoIdx acc, findFirstPacketType s.interleavedPackets .video 0 = some video ∧
      findFirstPacketTypeIdx s.interleavedPackets .video 0 = some videoIdx ∧
      output.audioTracks.foldlM (s.prematureStep output video) ⟨videoIdx, 0, 0, 0⟩ = some acc := by
  unfold prunePrematurePackets
  cases found : findFirstPacketType s.interleavedPackets .video 0 with
  | none =>
    refine .inl ⟨has_eq_false_iff.mpr found, ?_⟩
    cases findFirstPacketTypeIdx s.interleavedPackets .video 0 <;> rfl
  | some video =>
    obtain ⟨videoIdx, idx⟩ := idx_of_find found
    rw [idx]
    cases looped : output.audioTracks.foldlM (s.prematureStep output video) ⟨videoIdx, 0, 0, 0⟩ with
    | none => exact .inr (.inl ⟨premature_none_iff.mp looped, by simp [looped]⟩)
    | some acc => exact .inr (.inr ⟨video, videoIdx, acc, rfl, rfl, looped⟩)

/-- The index of the closest audio packet is the first one tried, or an audio packet's. -/
theorem closestAudio_cases (video : EncoderPacket) (packets : List EncoderPacket) (i : Nat) (diff : Int) (idx : Nat) :
    closestAudio video packets i diff idx = idx ∨
      ∃ j p, packets[j]? = some p ∧ p.type = .audio ∧ closestAudio video packets i diff idx = i + j := by
  induction packets generalizing i diff idx with
  | nil => exact .inl rfl
  | cons packet rest ih =>
    have later (diff : Int) (idx : Nat) : closestAudio video rest (i + 1) diff idx = idx ∨
        ∃ j p, (packet :: rest)[j]? = some p ∧ p.type = .audio ∧ closestAudio video rest (i + 1) diff idx = i + j := by
      refine (ih (i + 1) diff idx).imp_right ?_
      rintro ⟨j, p, there, kind, same⟩
      exact ⟨j + 1, p, by simpa using there, kind, by omega⟩
    unfold closestAudio
    split
    next => exact later diff idx
    next kind =>
      dsimp only
      split
      next =>
        rcases later _ i with same | further
        · exact .inr ⟨0, packet, rfl, not_not.mp kind, same⟩
        · exact .inr further
      next => exact later diff idx

theorem firstAudioStart_le (packets : List EncoderPacket) (idx : Nat) : firstAudioStart packets idx ≤ idx := by
  unfold firstAudioStart
  refine foldl_rule (P := fun _ n => n ≤ idx) le_rfl (fun _ i n below => ?_) _
  split
  next audioIdx _ =>
    split
    · omega
    · exact below
  next => exact below

/-- With a first video packet and some audio in the queue the start is found, and no video packet
of track 0 is before it. -/
theorem startIdx_spec {packets : List EncoderPacket} {p video : EncoderPacket} (member : p ∈ packets)
    (audio : p.type = .audio) (found : findFirstPacketType packets .video 0 = some video) :
    ∃ n videoIdx, getInterleavedStartIdx packets = some n ∧
      findFirstPacketTypeIdx packets .video 0 = some videoIdx ∧ n ≤ videoIdx := by
  obtain ⟨videoIdx, idx⟩ := idx_of_find found
  let closest := closestAudio video packets 0 INT64_MAX 0
  let low := if videoIdx < closest then videoIdx else closest
  have toVideo : low ≤ videoIdx := by
    simp only [low]
    split <;> omega
  -- the audio packet at the closest index, or any where that index was never set
  have there : ∃ q ∈ packets.drop low, q.type = .audio := by
    have below : low ≤ closest := by
      simp only [low]
      split <;> omega
    rcases closestAudio_cases video packets 0 INT64_MAX 0 with never | ⟨j, q, at_j, kind, same⟩
    · have zero : low = 0 := by
        simp only [closest] at below
        omega
      rw [zero]
      exact ⟨p, member, audio⟩
    · refine ⟨q, List.mem_of_getElem? (i := j - low) ?_, kind⟩
      rw [List.getElem?_drop, ← at_j]
      congr 1
      simp only [closest] at below
      omega
  obtain ⟨firstAudio, first⟩ : ∃ q, (packets.drop low).find? (fun p => p.type = .audio) = some q := by
    apply Option.isSome_iff_exists.mp
    simpa [List.find?_isSome] using there
  refine ⟨if firstAudio.pts ≤ 0 then firstAudioStart packets low else low, videoIdx, ?_, idx, ?_⟩
  · simp only [getInterleavedStartIdx, found, idx, Option.bind_eq_bind, Option.bind_some]
    change ((packets.drop low).find? _).bind _ = _
    rw [first]
    rfl
  · split
    · exact (firstAudioStart_le packets low).trans toVideo
    · exact toVideo

/-- A flag taken back because its track, or some audio track, has nothing to start with. -/
inductive Lowered (output : OutputEncoders) (s : Interleaver) : Interleaver → Prop
  | video (i : Nat) : i ∈ output.videoTracks → s.has .video i = false →
      Lowered output s { s with receivedVideo := Function.update s.receivedVideo i false }
  | audio : Lowered output s { s with receivedAudio := false }

/-- Every track has a packet. -/
structure AllThere (output : OutputEncoders) (s : Interleaver) : Prop where
  video : ∀ i ∈ output.videoTracks, s.has .video i = true
  audio : ∀ i ∈ output.audioTracks, s.has .audio i = true

theorem getAudioAndVideo_cases (videos : output.videoTracks ≠ []) :
    (∃ t, Lowered output s t ∧ s.getAudioAndVideoPackets output = (t, false)) ∨
    (AllThere output s ∧ s.getAudioAndVideoPackets output = (s, true)) := by
  unfold getAudioAndVideoPackets
  cases missing : output.videoTracks.find? fun i => !s.has .video i with
  | some i =>
    have absent : s.has .video i = false := by simpa using List.find?_some missing
    exact .inl ⟨_, .video i (List.mem_of_find?_eq_some missing) absent, rfl⟩
  | none =>
    dsimp only
    split
    next audio =>
      refine .inr ⟨⟨fun i member => ?_, fun i member => List.all_eq_true.mp audio i member⟩, ?_⟩
      · simpa using List.find?_eq_none.mp missing i member
      · simpa using videos
    next => exact .inl ⟨_, .audio, rfl⟩

theorem audioPast_of_there (video : EncoderPacket) {tracks : List Nat} (there : ∀ i ∈ tracks, s.has .audio i = true)
    (b : Bool) : ∃ past, tracks.foldlM (m := Option) (fun past i =>
      (findLastPacketType s.interleavedPackets .audio i).map fun last => past && video.dtsUsec ≤ last.dtsUsec) b =
      some past := by
  induction tracks generalizing b with
  | nil => exact ⟨b, rfl⟩
  | cons i tracks ih =>
    obtain ⟨last, found⟩ : ∃ last, findLastPacketType s.interleavedPackets .audio i = some last := by
      apply Option.isSome_iff_exists.mp
      simpa [findLastPacketType, List.find?_isSome] using has_iff.mp (there i List.mem_cons_self)
    rw [List.foldlM_cons, found]
    exact ih (fun j member => there j (List.mem_cons_of_mem _ member)) _

/-- An index `initialize_interleaved_packets` may have discarded up to. -/
def StartCut (s : Interleaver) (n : Nat) : Prop := n = 0 ∨ getInterleavedStartIdx s.interleavedPackets = some n

@[simp] theorem discardToIdx_queue (s : Interleaver) (n : Nat) :
    (s.discardToIdx n).interleavedPackets = s.interleavedPackets.drop n := rfl

theorem initializeFrom_cases {firstAudioIdx n : Nat} (videos : output.videoTracks ≠ [])
    (audio : firstAudioIdx ∈ output.audioTracks) (there : AllThere output s) :
    (∃ t, Lowered output (s.discardToIdx n) t ∧ s.initializeFrom output firstAudioIdx n = some (t, false)) ∨
    (∃ firstAudio, AllThere output (s.discardToIdx n) ∧
      s.initializeFrom output firstAudioIdx n = some ((s.discardToIdx n).applyNewOffsets output firstAudio, true)) := by
  have finish (t : Interleaver) (there : AllThere output t) :
      (output.videoTracks.all (t.has .video) && output.audioTracks.all (t.has .audio)) = true ∧
      ∃ firstAudio, findFirstPacketType t.interleavedPackets .audio firstAudioIdx = some firstAudio := by
    rw [Bool.and_eq_true, List.all_eq_true, List.all_eq_true]
    exact ⟨⟨there.video, there.audio⟩, Option.isSome_iff_exists.mp (there.audio firstAudioIdx audio)⟩
  unfold initializeFrom
  by_cases none : n = 0
  · subst none
    obtain ⟨whole, first, found⟩ := finish s there
    refine .inr ⟨first, there, ?_⟩
    simp only [if_true, Bool.not_true, Bool.false_eq_true, if_false, whole, found]
    rfl
  · rcases getAudioAndVideo_cases (s := s.discardToIdx n) videos with ⟨t, lowered, result⟩ | ⟨there, result⟩
    · exact .inl ⟨t, lowered, by simp [none, result]⟩
    · obtain ⟨whole, first, found⟩ := finish _ there
      refine .inr ⟨first, there, ?_⟩
      simp only [none, if_false, result, Bool.not_true, Bool.false_eq_true, whole, found]
      rfl

/-- `initialize_interleaved_packets` takes back a flag, or every track has a packet to begin with. -/
theorem initialize_spec (zero : 0 ∈ output.videoTracks) (audio : output.audioTracks ≠ []) :
    (∃ n t, StartCut s n ∧ Lowered output (s.discardToIdx n) t ∧
      s.initializeInterleavedPackets output = some (t, false)) ∨
    (∃ n firstAudio, StartCut s n ∧ AllThere output (s.discardToIdx n) ∧
      s.initializeInterleavedPackets output = some ((s.discardToIdx n).applyNewOffsets output firstAudio, true)) := by
  have some : output.videoTracks ≠ [] := List.ne_nil_of_mem zero
  obtain ⟨firstVideoIdx, firstVideo⟩ := Option.isSome_iff_exists.mp (List.isSome_head?.mpr some)
  obtain ⟨firstAudioIdx, firstAudio⟩ := Option.isSome_iff_exists.mp (List.isSome_head?.mpr audio)
  unfold initializeInterleavedPackets
  rw [OutputEncoders.getFirstAudioEncoderIndex, OutputEncoders.getFirstVideoEncoderIndex, firstAudio, firstVideo]
  dsimp only
  rcases getAudioAndVideo_cases (s := s) some with ⟨t, lowered, result⟩ | ⟨there, result⟩
  · rw [result]
    exact .inl ⟨0, t, .inl rfl, lowered, rfl⟩
  rw [result]
  obtain ⟨video, found⟩ := Option.isSome_iff_exists.mp (there.video firstVideoIdx (List.mem_of_mem_head? firstVideo))
  obtain ⟨past, looked⟩ := audioPast_of_there video there.audio true
  have looked : s.audioPast output video = .some past := looked
  obtain ⟨p, member, kind⟩ := has_iff.mp (there.audio firstAudioIdx (List.mem_of_mem_head? firstAudio))
  obtain ⟨video0, found0⟩ := Option.isSome_iff_exists.mp (there.video 0 zero)
  obtain ⟨n, _, start, _⟩ := startIdx_spec member (by simp [EncoderPacket.isOf] at kind; exact kind.1) found0
  simp only [found, looked, start, Option.bind_eq_bind, Option.bind_some, Bool.not_true, Bool.false_eq_true, if_false]
  cases past with
  | false => exact .inl ⟨0, _, .inl rfl, .audio, rfl⟩
  | true =>
    rcases initializeFrom_cases (n := n) some (List.mem_of_mem_head? firstAudio) there with
      ⟨t, lowered, result⟩ | ⟨first, there, result⟩
    · exact .inl ⟨n, t, .inr start, lowered, result⟩
    · exact .inr ⟨n, first, .inr start, there, result⟩

/-- An index `prune_interleaved_packets` may discard up to. -/
def PruneCut (output : OutputEncoders) (s : Interleaver) (n : Nat) : Prop :=
  (s.prunePrematurePackets output = (s, some n) ∧ n ≠ 0) ∨
  (s.prunePrematurePackets output = (s, some 0) ∧ getInterleavedStartIdx s.interleavedPackets = some n)

/-- `prune_interleaved_packets` never reads where nothing is. -/
theorem prune_spec (audio : output.audioTracks ≠ []) :
    (s.has .video 0 = false ∧ s.pruneInterleavedPackets output = some (s, false)) ∨
    s.pruneInterleavedPackets output = some ({ s with receivedAudio := false }, false) ∨
    ∃ n, PruneCut output s n ∧ s.has .video 0 = true ∧
      s.pruneInterleavedPackets output = some (s.discardToIdx n, true) := by
  unfold pruneInterleavedPackets
  rcases prunePremature_cases output s with ⟨missing, result⟩ | ⟨_, result⟩ | ⟨video, videoIdx, acc, found, idx, looped⟩
  · rw [result]
    exact .inl ⟨missing, rfl⟩
  · rw [result]
    exact .inr (.inl rfl)
  · obtain ⟨n, result⟩ : ∃ n, s.prunePrematurePackets output = (s, some n) := by
      unfold prunePrematurePackets
      rw [found, idx]
      simp only [looped]
      exact ⟨_, rfl⟩
    have there : s.has .video 0 = true := by simp [has, found]
    rw [result]
    cases n with
    | zero =>
      obtain ⟨i, track⟩ := List.exists_mem_of_ne_nil _ audio
      have has : s.has .audio i = true := by
        by_contra missing
        rw [premature_none_iff.mpr ⟨i, track, Bool.eq_false_iff.mpr missing⟩] at looped
        cases looped
      obtain ⟨p, member, kind⟩ := has_iff.mp has
      obtain ⟨n, _, start, _⟩ := startIdx_spec member (by simp [EncoderPacket.isOf] at kind; exact kind.1) found
      exact .inr (.inr ⟨n, .inr ⟨result, start⟩, there, by simp [start]⟩)
    | succ n => exact .inr (.inr ⟨n + 1, .inl ⟨result, by omega⟩, there, rfl⟩)

/-- Every queued packet is of a track of the output. -/
def Tracked (output : OutputEncoders) (s : Interleaver) : Prop :=
  ∀ p ∈ s.interleavedPackets, p.trackIdx ∈ output.tracks p.type

/-- What an attempt to start does: nothing without a packet of track 0; else it takes back a flag,
or starts and hands over the first packet. -/
inductive Attempt (output : OutputEncoders) (s : Interleaver) : Interleaver → Report → Prop
  | nothing : s.has .video 0 = false → Attempt output s s {}
  | silent : Attempt output s { s with receivedAudio := false } {}
  | tooSoon {n m : Nat} {t : Interleaver} : PruneCut output s n → StartCut (s.discardToIdx n) m →
      Lowered output ((s.discardToIdx n).discardToIdx m) t → Attempt output s t {}
  | start {n m : Nat} {u : Interleaver} {audio first : EncoderPacket} {rest : List EncoderPacket} :
      PruneCut output s n → StartCut (s.discardToIdx n) m →
      AllThere output ((s.discardToIdx n).discardToIdx m) →
      u = (((s.discardToIdx n).discardToIdx m).applyNewOffsets output audio).resortInterleavedPackets →
      u.interleavedPackets = first :: rest →
      Attempt output s { u with interleavedPackets := rest } { handed := [first], kept := some (first :: rest) }

theorem tryStart_spec (tracked : Tracked output s) (audio : output.audioTracks ≠ []) :
    ∃ t r, s.tryStart output = some (t, r) ∧ Attempt output s t r := by
  unfold tryStart
  rcases prune_spec (s := s) audio with ⟨missing, result⟩ | result | ⟨n, cut, there, result⟩
  · exact ⟨s, {}, by simp [result], .nothing missing⟩
  · exact ⟨_, {}, by simp [result], .silent⟩
  obtain ⟨p, member, kind⟩ := has_iff.mp there
  have zero : 0 ∈ output.videoTracks := by
    simp only [EncoderPacket.isOf, Bool.and_eq_true, decide_eq_true_eq] at kind
    have track := tracked p member
    rw [kind.1, kind.2] at track
    exact track
  rcases initialize_spec (s := s.discardToIdx n) zero audio with
    ⟨m, t, start, lowered, result'⟩ | ⟨m, firstAudio, start, there, result'⟩
  · exact ⟨t, {}, by simp [result, result'], .tooSoon cut start lowered⟩
  · obtain ⟨first, rest, queue⟩ : ∃ first rest, (((s.discardToIdx n).discardToIdx m).applyNewOffsets output
        firstAudio).resortInterleavedPackets.interleavedPackets = first :: rest := by
      apply List.exists_cons_of_ne_nil
      intro empty
      have perm := (resorted (((s.discardToIdx n).discardToIdx m).applyNewOffsets output firstAudio)).perm
      rw [empty] at perm
      obtain ⟨p, member, _⟩ := has_iff.mp (there.video 0 zero)
      have none := perm.symm.eq_nil
      simp only [applyNewOffsets, newOffsets, List.map_eq_nil_iff] at none
      rw [none] at member
      cases member
    refine ⟨_, _, ?_, .start cut start there rfl queue⟩
    simp [result, result', sendInterleaved, queue]

/-- An attempt that does not start drops packets from the front and raises no flag. -/
structure Waits (s t : Interleaver) : Prop where
  queue : ∃ n, t.interleavedPackets = s.interleavedPackets.drop n
  highestVideoTs : t.highestVideoTs = s.highestVideoTs
  receivedAudio : t.receivedAudio = true → s.receivedAudio = true

theorem Lowered.waits {n : Nat} (lowered : Lowered output (s.discardToIdx n) t) : Waits s t := by
  cases lowered with
  | video => exact ⟨⟨n, rfl⟩, rfl, id⟩
  | audio => exact ⟨⟨n, rfl⟩, rfl, fun h => by cases h⟩

theorem Attempt.cases (attempt : Attempt output s t r) :
    (r = {} ∧ Waits s t) ∨
    ∃ n u audio first rest, AllThere output (s.discardToIdx n) ∧
      u = ((s.discardToIdx n).applyNewOffsets output audio).resortInterleavedPackets ∧
      u.interleavedPackets = first :: rest ∧ t = { u with interleavedPackets := rest } ∧
      r = { handed := [first], kept := some (first :: rest) } := by
  have drops (n m : Nat) : (s.discardToIdx n).discardToIdx m = s.discardToIdx (n + m) := by
    simp [discardToIdx, List.drop_drop]
  cases attempt with
  | nothing => exact .inl ⟨rfl, ⟨0, rfl⟩, rfl, id⟩
  | silent => exact .inl ⟨rfl, ⟨0, rfl⟩, rfl, fun h => by cases h⟩
  | @tooSoon n m _ cut start lowered =>
    rw [drops] at lowered
    exact .inl ⟨rfl, lowered.waits⟩
  | @start n m u audio first rest cut start there is queue =>
    rw [drops] at there is
    exact .inr ⟨n + m, u, audio, first, rest, there, is, queue, rfl, rfl⟩

end Interleaver

/-- The interleaver with what has gone through it. -/
structure InterleaveWorld where
  output : Interleaver
  /-- Every packet it was given, with its track. -/
  given : List EncoderPacket
  /-- What `encoded_packet` was given, in that order. -/
  handed : List EncoderPacket
  /-- The packets accepted since the start. -/
  accepted : List EncoderPacket
  /-- The queue of the start, once `initialize_interleaved_packets` has succeeded. -/
  kept : Option (List EncoderPacket)

def InterleaveWorld.initial : InterleaveWorld := ⟨resetPacketData, [], [], [], none⟩

def OutputEncoders.withTrack (output : OutputEncoders) (packet : EncoderPacket) : EncoderPacket :=
  { packet with trackIdx := output.getEncoderIndex packet }

namespace InterleaveWorld

variable (output : OutputEncoders) (w : InterleaveWorld)

/-- A packet the interleaver may be given: of one of the output's encoders, whose timestamps do not
go back. The `dts_usec` of a packet given is its `dts` moved by a constant of the encoder. -/
def Given (packet : EncoderPacket) : Prop :=
  (∃ i ∈ output.tracks packet.type, ((output.encoderAt packet.type i).any fun e => e.ptr = packet.encoder) = true) ∧
  ∀ q ∈ w.given, q.isOf packet.type (output.getEncoderIndex packet) = true →
    q.timebaseDen = packet.timebaseDen ∧ q.dts ≤ packet.dts ∧ q.dtsUsec ≤ packet.dtsUsec

instance (packet : EncoderPacket) : Decidable (w.Given output packet) :=
  inferInstanceAs (Decidable ((∃ i ∈ output.tracks packet.type, _ = true) ∧ ∀ q ∈ w.given, _))

def record (packet : EncoderPacket) (s : Interleaver) (r : Report) : InterleaveWorld where
  output := s
  given := w.given ++ [output.withTrack packet]
  handed := w.handed ++ r.handed
  accepted := if r.kept.isSome then [] else w.accepted ++ r.accepted.toList
  kept := r.kept.or w.kept

/-- One call of `interleave_packets`; `none` where it reads what is not there. -/
def next (packet : EncoderPacket) : Option InterleaveWorld :=
  (w.output.interleavePackets output packet).map fun (s, r) => w.record output packet s r

def step (packet : EncoderPacket) : Option InterleaveWorld :=
  if w.Given output packet then w.next output packet else none

variable {output w} {w' : InterleaveWorld} {packet : EncoderPacket}

theorem Given.track (given : w.Given output packet) : output.getEncoderIndex packet ∈ output.tracks packet.type := by
  obtain ⟨⟨i, member, there⟩, _⟩ := given
  unfold OutputEncoders.getEncoderIndex
  cases found : (output.tracks packet.type).find? fun i =>
      (output.encoderAt packet.type i).any fun e => e.ptr = packet.encoder with
  | some j => exact List.mem_of_find?_eq_some found
  | none => exact absurd there (List.find?_eq_none.mp found i member)

/-- What holds of the queue and the flags at any time. -/
structure Sound (output : OutputEncoders) (s : Interleaver) : Prop where
  tracked : s.Tracked output
  inOrder : InOrder s.interleavedPackets
  audio : s.receivedAudio = true → output.audioTracks ≠ []

/-- What a call can do, in a sound state. -/
inductive Call (output : OutputEncoders) (s : Interleaver) (packet : EncoderPacket) : Interleaver → Report → Prop
  | dropped : packet.type = .video → s.receivedVideo packet.trackIdx = false → packet.keyframe = false →
      s.received output = false → Call output s packet (s.discardUnusedAudioPackets packet.dtsUsec) {}
  | started {out : EncoderPacket} {handed rest : List EncoderPacket} : s.received output = true →
      out = s.applyInterleavedPacketOffset packet → (s.place out).interleavedPackets = handed ++ rest →
      (∀ p ∈ handed, (s.place out).hasHigherOpposingTs output p = true) →
      Call output s packet { s.place out with interleavedPackets := rest } { handed, accepted := some out }
  | queued : s.received output = false →
      (packet.type = .video → s.receivedVideo packet.trackIdx = false → packet.keyframe = true) →
      ((s.checkReceived packet).insert packet).received output = false →
      Call output s packet ((s.checkReceived packet).insert packet) {}
  | attempt {t : Interleaver} {r : Report} : s.received output = false →
      (packet.type = .video → s.receivedVideo packet.trackIdx = false → packet.keyframe = true) →
      ((s.checkReceived packet).insert packet).received output = true →
      ((s.checkReceived packet).insert packet).Attempt output t r → Call output s packet t r

variable {s t : Interleaver} {r : Report} {p : EncoderPacket}

theorem received_video (received : s.received output = true) {i : Nat} (track : i ∈ output.videoTracks) :
    s.receivedVideo i = true := by
  rw [Interleaver.received, Bool.and_eq_true, List.all_eq_true] at received
  exact received.2 i track

@[simp] theorem checkReceived_queue (s : Interleaver) (p : EncoderPacket) :
    (s.checkReceived p).interleavedPackets = s.interleavedPackets := by
  unfold Interleaver.checkReceived
  cases p.type <;> rfl

@[simp] theorem checkReceived_highestVideoTs (s : Interleaver) (p : EncoderPacket) :
    (s.checkReceived p).highestVideoTs = s.highestVideoTs := by
  unfold Interleaver.checkReceived
  cases p.type <;> rfl

/-- A packet of a track of the output, put into a sound queue in its place. -/
theorem Sound.checked (sound : Sound output s) (track : p.trackIdx ∈ output.tracks p.type) :
    Sound output ((s.checkReceived p).insert p) where
  tracked q member := by
    rcases mem_insert.mp member with rfl | old
    · exact track
    · rw [checkReceived_queue] at old
      exact sound.tracked q old
  inOrder := by
    show InOrder (insertInterleavedPacket p _)
    rw [checkReceived_queue]
    exact sound.inOrder.insert
  audio := by
    intro received
    cases kind : p.type with
    | audio =>
      rw [kind] at track
      exact List.ne_nil_of_mem track
    | video =>
      simp only [Interleaver.insert, Interleaver.checkReceived, kind] at received
      exact sound.audio received

/-- In a sound state a call returns, and does one of these. -/
theorem call_spec (sound : Sound output s) (track : output.getEncoderIndex packet ∈ output.tracks packet.type) :
    ∃ t r, s.interleavePackets output packet = some (t, r) ∧ Call output s (output.withTrack packet) t r := by
  unfold Interleaver.interleavePackets
  generalize same : output.withTrack packet = p
  have track : p.trackIdx ∈ output.tracks p.type := by
    rw [← same]
    exact track
  simp only [OutputEncoders.withTrack] at same
  rw [same]
  dsimp only
  by_cases dropped : p.type = .video ∧ s.receivedVideo p.trackIdx = false ∧ p.keyframe = false
  · obtain ⟨kind, flag, key⟩ := dropped
    have waiting : s.received output = false := by
      rw [← Bool.not_eq_true]
      intro received
      rw [kind] at track
      rw [received_video received track] at flag
      cases flag
    rw [if_pos ⟨kind, flag, key⟩]
    exact ⟨_, _, rfl, .dropped kind flag key waiting⟩
  · rw [if_neg dropped]
    cases received : s.received output with
    | true =>
      obtain ⟨handed, rest, queue, higher, result⟩ := Interleaver.interleaveStarted_spec output s p
      exact ⟨_, _, by rw [if_pos rfl, result], .started received rfl queue higher⟩
    | false =>
      have first : p.type = .video → s.receivedVideo p.trackIdx = false → p.keyframe = true := by
        intro kind flag
        by_contra key
        exact dropped ⟨kind, flag, Bool.eq_false_iff.mpr key⟩
      simp only [Bool.false_eq_true, if_false, Interleaver.interleaveStarting]
      have sound := sound.checked track
      cases ready : ((s.checkReceived p).insert p).received output with
      | false => exact ⟨_, _, rfl, .queued received first ready⟩
      | true =>
        have audio : output.audioTracks ≠ [] := by
          rw [Interleaver.received, Bool.and_eq_true] at ready
          exact sound.audio ready.1
        obtain ⟨t, r, result, attempt⟩ := Interleaver.tryStart_spec sound.tracked audio
        exact ⟨t, r, by rw [if_pos rfl, result], .attempt received first ready attempt⟩

theorem Sound.drop {n : Nat} (sound : Sound output s) (queue : t.interleavedPackets = s.interleavedPackets.drop n)
    (audio : t.receivedAudio = true → s.receivedAudio = true) : Sound output t where
  tracked p member := by
    rw [queue] at member
    exact sound.tracked p (List.mem_of_mem_drop member)
  inOrder := by
    rw [InOrder, queue]
    exact List.Pairwise.sublist (List.drop_sublist n _) sound.inOrder
  audio received := sound.audio (audio received)

/-- Every call keeps the queue and the flags sound. -/
theorem Call.sound (call : Call output s p t r) (sound : Sound output s) (track : p.trackIdx ∈ output.tracks p.type) :
    Sound output t := by
  cases call with
  | dropped =>
    refine ⟨fun q member => sound.tracked q ?_, ?_, sound.audio⟩
    · exact (List.dropWhile_sublist _).subset member
    · exact List.Pairwise.sublist (List.dropWhile_sublist _) sound.inOrder
  | @started out handed rest _ is queue _ =>
    have placed : Sound output (s.place out) := by
      refine ⟨fun q member => ?_, ?_, fun received => sound.audio ?_⟩
      · rw [Interleaver.place_queue] at member
        rcases mem_insert.mp member with rfl | old
        · rw [is]
          exact track
        · exact sound.tracked q old
      · rw [Interleaver.place_queue]
        exact sound.inOrder.insert
      · rw [← (Interleaver.place_raises s out).receivedAudio]
        exact received
    exact placed.drop (n := handed.length) (by simp [queue]) id
  | queued => exact sound.checked track
  | attempt _ _ _ attempt =>
    have sound := sound.checked track
    rcases attempt.cases with ⟨_, ⟨n, queue⟩, _, audio⟩ | ⟨n, u, audio, first, rest, _, is, queue, rfl, _⟩
    · exact sound.drop queue audio
    · have resorted := Interleaver.resorted ((((s.checkReceived p).insert p).discardToIdx n).applyNewOffsets output audio)
      rw [← is] at resorted
      have whole : Sound output u := by
        refine ⟨fun q member => ?_, resorted.inOrder, fun received => sound.audio ?_⟩
        · obtain ⟨q', old, rfl⟩ := List.mem_map.mp (resorted.perm.mem_iff.mp member)
          exact sound.tracked q' (List.mem_of_mem_drop old)
        · rw [resorted.raises.receivedAudio] at received
          exact received
      exact whole.drop (n := 1) (by simp [queue]) id

theorem initial_sound (output : OutputEncoders) : Sound output initial.output :=
  ⟨fun _ member => (List.not_mem_nil member).elim, List.Pairwise.nil, fun received => by cases received⟩

/-- A step is a call of a packet that may be given. -/
theorem step_call (sound : Sound output w.output) (step : w.step output packet = some w') :
    w.Given output packet ∧ ∃ t r, Call output w.output (output.withTrack packet) t r ∧
      w' = w.record output packet t r := by
  unfold InterleaveWorld.step at step
  split at step
  next given =>
    obtain ⟨t, r, result, call⟩ := call_spec sound given.track
    simp only [next, result, Option.map_some, Option.some.injEq] at step
    exact ⟨given, t, r, call, step.symm⟩
  next => cases step

theorem step_sound (step : w.step output packet = some w') (sound : Sound output w.output) : Sound output w'.output := by
  obtain ⟨given, t, r, call, rfl⟩ := step_call sound step
  exact call.sound sound given.track

/-- In a run of calls, no call reads what is not there. -/
theorem next_of_run {ms : List (Moment InterleaveWorld EncoderPacket)}
    (run : Run (fun w packet w' => w.step output packet = some w') initial ms w) (given : w.Given output packet) :
    (w.next output packet).isSome = true := by
  have sound := run.always (P := fun w => Sound output w.output) (fun _ _ _ => step_sound) (initial_sound output)
  obtain ⟨t, r, result, _⟩ := call_spec sound given.track
  simp [next, result]

end InterleaveWorld

end Braidcast.Output
