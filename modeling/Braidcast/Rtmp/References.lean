import Braidcast.Lib.Shedding
import Braidcast.Rtmp.Connect

/-!
# References

With the dynamic bitrate off, frames are dropped instead. All video tracks share one `min_priority`,
and a packet that reaches it takes it back to zero for every track.
-/
namespace Braidcast.Rtmp

open Lib Output

/-- A stream with the packets it took since `init_connect`, and of these what has left the front of
the queue and what of that was taken by the send thread. -/
structure World where
  stream : RtmpStream := {}
  arrived : List Packet := []
  gone : List Packet := []
  sent : List Packet := []

inductive Event where
  | connect (o : OutputInfo)
  | flags (active disconnected : Bool)
  | data (b p : Readings) (packet : Packet)
  | encoderFailed
  | take
  | free

/-- Packets by their track and their drop priority. -/
def shedding : Shedding Packet (EncoderType × Nat) := ⟨Packet.serial, fun p => (p.type, p.trackIdx), Packet.dropPriority⟩

namespace World

def kept (w : World) : List Packet := w.gone ++ w.stream.packets

def dropped (w : World) : List Packet := w.arrived.filter fun p => p ∉ w.kept

def checked (bits : Nat) (b p : Readings) (w : World) : World := { w with stream := w.stream.checks bits b p }

def data (bits : Nat) (b p : Readings) (w : World) (packet : Packet) : World :=
  { w with
    stream := w.stream.rtmpStreamData bits b p (some packet)
    arrived := if w.stream.passes packet then w.arrived ++ [packet] else w.arrived }

def take (w : World) : World :=
  let (stream, packet) := w.stream.getNextPacket
  { w with stream := stream, gone := w.gone ++ packet.toList, sent := w.sent ++ packet.toList }

/-- `free_packets`. -/
def free (w : World) : World := { w with stream := { w.stream with packets := [] }, gone := w.kept }

/-- A step of a stream whose dynamic bitrate is off. -/
def step (bits : Nat) (w : World) : Event → Option World
  | .connect o =>
    let (stream, connects) := w.stream.initConnect bits o
    if connects && !stream.dbrEnabled then some { stream := stream } else none
  | .flags active disconnected => some { w with stream := { w.stream with active := active, disconnected := disconnected } }
  | .data b p packet => if packet.serial = w.arrived.length then some (w.data bits b p packet) else none
  | .encoderFailed => some { w with stream := w.stream.rtmpStreamData bits {} {} none }
  | .take => some w.take
  | .free => some w.free

/-- What is promised of the packets. -/
structure SendsReferences (w : World) : Prop where
  above : ∀ p ∈ w.arrived, p ∉ w.kept → ∀ q, shedding.Next w.kept p q → p.dropPriority < q.dropPriority
  safe : ∀ p ∈ w.arrived, p ∉ w.kept → p.type = .video ∧ p.dropPriority < OBS_NAL_PRIORITY_HIGHEST
  ordered : w.sent.Sublist w.arrived
  counted : w.stream.droppedFrames = w.dropped.length

/-- A video packet that is kept ends the drop of its own track at most. -/
def EndsOwn (w : World) (packet : Packet) : Prop :=
  packet.type = .video → w.stream.minPriority ≤ packet.dropPriority →
    ∀ p ∈ w.arrived, shedding.Waits w.arrived w.kept p → 0 ≤ p.dropPriority → p.trackIdx = packet.trackIdx

/-- The drop that ends is the packet's own, and the packets still count as an `int`. -/
def Ok (bits : Nat) (w : World) : Event → Prop
  | .data b p packet =>
    w.arrived.length + 1 < 2 ^ 31 ∧ (w.stream.passes packet = true → (w.checked bits b p).EndsOwn packet)
  | _ => True

instance (w : World) (packet : Packet) : Decidable (w.EndsOwn packet) :=
  inferInstanceAs (Decidable (packet.type = .video → w.stream.minPriority ≤ packet.dropPriority →
    ∀ p ∈ w.arrived, shedding.Waits w.arrived w.kept p → 0 ≤ p.dropPriority → p.trackIdx = packet.trackIdx))

instance (bits : Nat) (w : World) (e : Event) : Decidable (Ok bits w e) :=
  match e with
  | .data b p packet => inferInstanceAs (Decidable
      (w.arrived.length + 1 < 2 ^ 31 ∧ (w.stream.passes packet = true → (w.checked bits b p).EndsOwn packet)))
  | .connect _ | .flags _ _ | .encoderFailed | .take | .free => isTrue trivial

/-! ### The invariant -/

structure Inv (w : World) : Prop where
  off : w.stream.dbrEnabled = false
  few : w.arrived.length < 2 ^ 31
  sub : w.kept.Sublist w.arrived
  increasing : w.arrived.Pairwise fun p q => p.serial < q.serial
  serials : ∀ p ∈ w.arrived, p.serial < w.arrived.length
  sent_gone : w.sent.Sublist w.gone
  low : 0 ≤ w.stream.minPriority
  high : w.stream.minPriority ≤ OBS_NAL_PRIORITY_HIGHEST
  refers : shedding.Refers w.arrived w.kept
  below : shedding.Below w.arrived w.kept w.stream.minPriority
  safe : ∀ p ∈ w.arrived, p ∉ w.kept → p.type = .video ∧ p.dropPriority < OBS_NAL_PRIORITY_HIGHEST
  counted : w.stream.droppedFrames = int (w.arrived.length - w.kept.length : Nat)

variable {bits : Nat} {w w' : World} {b p : Readings} {packet q r : Packet} {e : Event} {h : Int}

/-- The dropped packets are those that are not among the kept ones. -/
theorem Inv.length_dropped (inv : w.Inv) : w.dropped.length = w.arrived.length - w.kept.length := by
  have nodup : w.arrived.Nodup := inv.increasing.imp fun less same => by simp [same] at less
  have perm : (w.arrived.filter fun p => p ∈ w.kept).Perm w.kept := by
    rw [List.perm_ext_iff_of_nodup (nodup.filter _) (nodup.sublist inv.sub)]
    intro x
    simp only [List.mem_filter, decide_eq_true_eq]
    exact ⟨And.right, fun there => ⟨inv.sub.subset there, there⟩⟩
  have split := List.length_eq_length_filter_add (l := w.arrived) fun p => decide (p ∈ w.kept)
  have same : (w.arrived.filter fun p => !decide (p ∈ w.kept)) = w.dropped := by
    simp only [dropped, decide_not]
  rw [perm.length_eq, same] at split
  omega

theorem Inv.sendsReferences (inv : w.Inv) : w.SendsReferences := by
  refine ⟨inv.refers, inv.safe, ?_, ?_⟩
  · exact (inv.sent_gone.trans (List.sublist_append_left _ _)).trans inv.sub
  · have bound := inv.few
    rw [inv.counted, inv.length_dropped]
    exact int_of_lt (by omega) (by omega)

/-- What has left the queue came before what is in it. -/
theorem Inv.gone_before (inv : w.Inv) (old : q ∈ w.gone) (new : r ∈ w.stream.packets) : q.serial < r.serial :=
  (List.pairwise_append.mp (inv.increasing.sublist inv.sub)).2.2 q old r new

/-- Nothing changes but what is let go from the front of the queue. -/
theorem Inv.same (inv : w.Inv) (off : w'.stream.dbrEnabled = false) (arrived : w'.arrived = w.arrived)
    (kept : w'.kept = w.kept) (sent : w'.sent.Sublist w'.gone) (mark : w'.stream.minPriority = w.stream.minPriority)
    (count : w'.stream.droppedFrames = w.stream.droppedFrames) : w'.Inv where
  off := off
  few := by rw [arrived]; exact inv.few
  sub := by rw [kept, arrived]; exact inv.sub
  increasing := by rw [arrived]; exact inv.increasing
  serials := by rw [arrived]; exact inv.serials
  sent_gone := sent
  low := by rw [mark]; exact inv.low
  high := by rw [mark]; exact inv.high
  refers := by rw [kept, arrived]; exact inv.refers
  below := by rw [kept, arrived, mark]; exact inv.below
  safe := by rw [kept, arrived]; exact inv.safe
  counted := by rw [count, kept, arrived]; exact inv.counted

/-! ### Dropping -/

theorem zero_le_highest : 0 ≤ OBS_NAL_PRIORITY_HIGHEST := by decide

theorem not_keeps (lost : RtmpStream.keeps h r = false) : r.type = .video ∧ r.dropPriority < h := by
  simp only [RtmpStream.keeps, Bool.or_eq_false_iff, beq_eq_false_iff_ne, decide_eq_false_iff_not, not_le] at lost
  refine ⟨?_, lost.2⟩
  cases kind : r.type with
  | video => rfl
  | audio => exact absurd kind lost.1

/-- `drop_frames` is a cut at its priority. -/
theorem Inv.cut (inv : w.Inv) (h : Int) :
    shedding.Cut w.kept (w.gone ++ w.stream.packets.filter (RtmpStream.keeps h)) h := by
  have lost : ∀ x ∈ w.kept, x ∉ w.gone ++ w.stream.packets.filter (RtmpStream.keeps h) →
      x ∈ w.stream.packets ∧ RtmpStream.keeps h x = false := by
    intro x there dropped
    simp only [kept, List.mem_append, List.mem_filter, not_or, not_and, Bool.not_eq_true] at there dropped
    have queued := there.resolve_left dropped.1
    exact ⟨queued, dropped.2 queued⟩
  refine ⟨?_, ?_, ?_⟩
  · intro x there
    rcases List.mem_append.mp there with gone | queued
    · exact List.mem_append_left _ gone
    · exact List.mem_append_right _ (List.mem_of_mem_filter queued)
  · exact fun x there dropped => (not_keeps (lost x there dropped).2).2
  · intro x there dropped y stays after
    obtain ⟨queued, low⟩ := lost x there dropped
    rcases List.mem_append.mp stays with gone | passed
    · -- what has left the queue did so before `x`
      exact absurd after.2 (Nat.lt_asymm (inv.gone_before gone queued))
    · have video : y.type = .video := (congrArg Prod.fst after.1).trans (not_keeps low).1
      have kept := (List.mem_filter.mp passed).2
      simpa [RtmpStream.keeps, video, shedding] using kept

theorem Inv.dropFrames (inv : w.Inv) (high : h ≤ OBS_NAL_PRIORITY_HIGHEST) :
    Inv { w with stream := w.stream.dropFrames h } where
  off := inv.off
  few := inv.few
  sub := ((List.Sublist.refl _).append List.filter_sublist).trans inv.sub
  increasing := inv.increasing
  serials := inv.serials
  sent_gone := inv.sent_gone
  low := le_max_of_le_left inv.low
  high := max_le inv.high high
  refers := inv.refers.cut (inv.cut h)
  below := inv.below.cut inv.refers (inv.cut h)
  safe := by
    intro x member dropped
    by_cases before : x ∈ w.kept
    · have cut := (inv.cut h).shed_lt x before dropped
      refine ⟨?_, lt_of_lt_of_le cut high⟩
      by_contra other
      have passes : RtmpStream.keeps h x = true := by
        cases kind : x.type with
        | video => exact absurd kind other
        | audio => simp [RtmpStream.keeps, kind]
      rcases List.mem_append.mp before with gone | queued
      · exact dropped (List.mem_append_left _ gone)
      · exact dropped (List.mem_append_right _ (List.mem_filter.mpr ⟨queued, passes⟩))
    · exact inv.safe x member before
  counted := by
    have all := inv.sub.length_le
    have fewer := List.length_filter_le (RtmpStream.keeps h) w.stream.packets
    simp only [kept, List.length_append] at all
    have count := inv.counted
    simp only [kept, List.length_append] at count
    simp only [RtmpStream.dropFrames, kept, List.length_append, count, int_add_int]
    congr 1
    omega

theorem checkToDropFrames_off {s : RtmpStream} (off : s.dbrEnabled = false) (r : Readings) (pframes : Bool) :
    s.checkToDropFrames bits r pframes = s ∨
      s.checkToDropFrames bits r pframes =
        s.dropFrames (if pframes then OBS_NAL_PRIORITY_HIGHEST else OBS_NAL_PRIORITY_HIGH) := by
  have still : s.raiseIfDue bits r pframes = (s, false) := by simp [RtmpStream.raiseIfDue, off]
  unfold RtmpStream.checkToDropFrames RtmpStream.relieve
  rw [still]
  cases s.bufferDuration with
  | none => exact .inl rfl
  | some duration =>
    simp only [off, Bool.false_eq_true, if_false]
    by_cases longer : (if pframes then s.pframeDropThresholdUsec else s.dropThresholdUsec) < duration
    · rw [if_pos longer]
      exact .inr rfl
    · rw [if_neg longer]
      exact .inl rfl

section

variable (inv : w.Inv)
include inv

theorem Inv.check (r : Readings) (pframes : Bool) :
    Inv { w with stream := w.stream.checkToDropFrames bits r pframes } := by
  rcases checkToDropFrames_off inv.off r pframes with same | drops
  · rw [same]
    exact inv
  · rw [drops]
    cases pframes with
    | true => exact inv.dropFrames le_rfl
    | false => exact inv.dropFrames (by decide)

theorem Inv.checked : (w.checked bits b p).Inv := (inv.check b false).check p true

/-! ### A packet -/

section

variable (serial : packet.serial = w.arrived.length)
include serial

theorem Inv.last :
    ∀ x ∈ w.arrived, shedding.place x < shedding.place packet :=
  fun x member => by simpa [shedding, serial] using inv.serials x member

theorem Inv.increasing_concat :
    (w.arrived ++ [packet]).Pairwise fun p q => p.serial < q.serial := by
  rw [List.pairwise_append]
  refine ⟨inv.increasing, List.pairwise_singleton _ _, ?_⟩
  intro x member y last
  rw [List.mem_singleton.mp last, serial]
  exact inv.serials x member

theorem Inv.serials_concat :
    ∀ x ∈ w.arrived ++ [packet], x.serial < (w.arrived ++ [packet]).length := by
  intro x member
  rw [List.length_append, List.length_singleton]
  rcases List.mem_append.mp member with old | new
  · exact Nat.lt_succ_of_lt (inv.serials x old)
  · rw [List.mem_singleton.mp new, serial]
    exact Nat.lt_succ_self _

/-- The packet is queued, and the mark it leaves is above what waits on other tracks. -/
theorem Inv.keep (few : w.arrived.length + 1 < 2 ^ 31)
    (above : ∀ x, shedding.Waits w.arrived w.kept x → shedding.track packet = shedding.track x →
      x.dropPriority < packet.dropPriority)
    {mark lastDts : Int} (low : 0 ≤ mark) (high : mark ≤ OBS_NAL_PRIORITY_HIGHEST)
    (below : ∀ x, shedding.Waits w.arrived w.kept x → shedding.track packet ≠ shedding.track x → x.dropPriority < mark) :
    Inv { w with
      stream := { w.stream with minPriority := mark, lastDtsUsec := lastDts, packets := w.stream.packets ++ [packet] }
      arrived := w.arrived ++ [packet] } := by
  have kept_eq : kept { w with
      stream := { w.stream with minPriority := mark, lastDtsUsec := lastDts, packets := w.stream.packets ++ [packet] }
      arrived := w.arrived ++ [packet] } = w.kept ++ [packet] := (List.append_assoc _ _ _).symm
  constructor
  case off => exact inv.off
  case few => simpa using few
  case sub =>
    rw [kept_eq]
    exact inv.sub.append (List.Sublist.refl _)
  case increasing => exact inv.increasing_concat serial
  case serials => exact inv.serials_concat serial
  case sent_gone => exact inv.sent_gone
  case low => exact low
  case high => exact high
  case refers =>
    rw [kept_eq]
    exact inv.refers.keep (inv.last serial) (fun x there => inv.sub.subset there) above
  case below =>
    rw [kept_eq]
    intro x waits
    obtain ⟨before, other⟩ := waits.of_keep (inv.last serial)
    exact below x before other
  case safe =>
    rw [kept_eq]
    intro x member dropped
    simp only [List.mem_append, List.mem_singleton, not_or] at member dropped
    exact inv.safe x (member.resolve_right dropped.2) dropped.1
  case counted =>
    rw [kept_eq]
    simp only [List.length_append, List.length_singleton, Nat.add_sub_add_right]
    exact inv.counted

/-- The packet is dropped as it comes. -/
theorem Inv.drop (few : w.arrived.length + 1 < 2 ^ 31)
    (video : packet.type = .video) (under : packet.dropPriority < w.stream.minPriority) :
    Inv { w with
      stream := { w.stream with droppedFrames := int (w.stream.droppedFrames + 1) }
      arrived := w.arrived ++ [packet] } where
  off := inv.off
  few := by simpa using few
  sub := inv.sub.trans (List.sublist_append_left _ _)
  increasing := inv.increasing_concat serial
  serials := inv.serials_concat serial
  sent_gone := inv.sent_gone
  low := inv.low
  high := inv.high
  refers := inv.refers.shed (inv.last serial) fun x there => inv.sub.subset there
  below := inv.below.shed under
  safe := by
    intro x member dropped
    rcases List.mem_append.mp member with old | new
    · exact inv.safe x old dropped
    · rw [List.mem_singleton.mp new]
      exact ⟨video, lt_of_lt_of_le under inv.high⟩
  counted := by
    have all := inv.sub.length_le
    have count : ((w.arrived.length - w.kept.length : Nat) : Int) + 1 =
        ((w.arrived.length + 1 - w.kept.length : Nat) : Int) := by omega
    have next : int (w.stream.droppedFrames + 1) = int (w.arrived.length + 1 - w.kept.length : Nat) := by
      rw [inv.counted, int_add_int, count]
    rw [List.length_append, List.length_singleton]
    exact next

theorem Inv.data (ok : w.Ok bits (.data b p packet)) :
    (w.data bits b p packet).Inv := by
  obtain ⟨few, own⟩ := ok
  cases passes : w.stream.passes packet with
  | false => simpa [World.data, RtmpStream.rtmpStreamData, passes] using inv
  | true =>
    have connected : w.stream.disconnected = false := by
      simp only [RtmpStream.passes, Bool.and_eq_true, Bool.not_eq_true'] at passes
      exact passes.1.1
    simp only [World.data, RtmpStream.rtmpStreamData, passes, if_true, RtmpStream.queuePacket, connected,
      Bool.false_eq_true, if_false]
    cases kind : packet.type with
    | audio =>
      -- only video waits, so audio ends no drop
      have other : ∀ x, shedding.Waits w.arrived w.kept x → shedding.track packet ≠ shedding.track x := by
        intro x waits same
        have video := (inv.safe x waits.1 waits.2.1).1
        have audio : x.type = .audio := (congrArg Prod.fst same).symm.trans kind
        rw [video] at audio
        cases audio
      exact inv.keep serial few (fun x waits same => absurd same (other x waits)) inv.low inv.high
        fun x waits _ => inv.below x waits
    | video =>
      have checked : (w.checked bits b p).Inv := inv.checked
      by_cases under : packet.dropPriority < (w.stream.checks bits b p).minPriority
      · simp only [RtmpStream.addVideoPacket, RtmpStream.keepOrDrop, under, if_true]
        exact checked.drop serial few kind under
      · simp only [RtmpStream.addVideoPacket, RtmpStream.keepOrDrop, under, if_false]
        have reaches := not_lt.mp under
        have ended : ∀ x, shedding.Waits w.arrived (w.checked bits b p).kept x →
            shedding.track packet ≠ shedding.track x → x.dropPriority < 0 := by
          intro x waits other
          by_contra priority
          have video := (checked.safe x waits.1 waits.2.1).1
          have same := own passes kind reaches x waits.1 waits (not_lt.mp priority)
          exact other (Prod.ext (kind.trans video.symm) same.symm)
        exact checked.keep serial few (fun x waits _ => lt_of_lt_of_le (checked.below x waits) reaches)
          le_rfl zero_le_highest ended

end

end

/-! ### Runs -/

/-- Nothing has arrived yet. -/
theorem Inv.fresh {s : RtmpStream} (off : s.dbrEnabled = false) (packets : s.packets = []) (mark : s.minPriority = 0)
    (count : s.droppedFrames = 0) : Inv { stream := s } := by
  have none_kept : kept { stream := s } = [] := by simp [kept, packets]
  constructor
  case off => exact off
  case low => exact mark.ge
  case high => exact mark.trans_le zero_le_highest
  case below => exact fun x waits => absurd waits.1 List.not_mem_nil
  case counted => simp [none_kept, count, int]
  all_goals simp [none_kept, Shedding.Refers]

theorem Inv.take (inv : w.Inv) : w.take.Inv := by
  cases queue : w.stream.packets with
  | nil =>
    have same : w.take = w := by simp [World.take, RtmpStream.getNextPacket, queue]
    rw [same]
    exact inv
  | cons first rest =>
    have next : w.take = { w with
        stream := { w.stream with packets := rest }, gone := w.gone ++ [first], sent := w.sent ++ [first] } := by
      simp [World.take, RtmpStream.getNextPacket, queue]
    rw [next]
    have kept_eq : w.kept = w.gone ++ [first] ++ rest := by simp [kept, queue]
    exact inv.same inv.off rfl kept_eq.symm (inv.sent_gone.append (List.Sublist.refl _)) rfl rfl

theorem Inv.step (inv : w.Inv) (ok : w.Ok bits e) (taken : w.step bits e = some w') : w'.Inv := by
  cases e with
  | connect o =>
    simp only [World.step, RtmpStream.initConnect] at taken
    cases service : o.service with
    | false => simp [service] at taken
    | true =>
      simp only [service, if_true, Bool.true_and, Option.ite_none_right_eq_some, Bool.not_eq_true'] at taken
      obtain ⟨off, same⟩ := taken
      cases same
      exact .fresh off rfl rfl rfl
  | flags active disconnected =>
    cases taken
    exact inv.same inv.off rfl rfl inv.sent_gone rfl rfl
  | data b p packet =>
    simp only [World.step, Option.ite_none_right_eq_some] at taken
    obtain ⟨serial, same⟩ := taken
    cases same
    exact inv.data serial ok
  | encoderFailed =>
    cases taken
    by_cases ends : (w.stream.disconnected || !w.stream.active) = true
    · simpa [RtmpStream.rtmpStreamData, ends] using inv
    · simp only [RtmpStream.rtmpStreamData, ends]
      exact inv.same inv.off rfl rfl inv.sent_gone rfl rfl
  | take =>
    cases taken
    exact inv.take
  | free =>
    cases taken
    exact inv.same inv.off rfl (List.append_nil _) (inv.sent_gone.trans (List.sublist_append_left _ _)) rfl rfl

/-- Where each drop that ends is the packet's own, no frame is sent without its reference. -/
theorem sends_references {bits : Nat} {ms : List (Moment World Event)} {w : World}
    (run : Run (fun s e t => step bits s e = some t) {} ms w) (ok : ∀ m ∈ ms, Ok bits m.before m.input) :
    w.SendsReferences ∧ ∀ m ∈ ms, m.before.SendsReferences ∧ m.after.SendsReferences := by
  obtain ⟨last, each⟩ := run.invariant (P := Inv) (Q := fun m => Ok bits m.before m.input)
    (fun m ok taken inv => inv.step ok taken) ok (.fresh rfl rfl rfl rfl)
  exact ⟨last.sendsReferences, fun m member => ⟨(each m member).1.sendsReferences, (each m member).2.sendsReferences⟩⟩

/-- Two H.264 tracks and no dynamic bitrate. -/
def twoTracks : OutputInfo where
  videoEncoders := fun i => if i < 2 then some ⟨.h264, false, false, 3000⟩ else none

def key (serial trackIdx : Nat) (dtsUsec : Int) : Packet := ⟨serial, .video, trackIdx, 3, true, dtsUsec⟩

def delta (serial trackIdx : Nat) (dtsUsec : Int) : Packet := ⟨serial, .video, trackIdx, 2, false, dtsUsec⟩

/-- A keyframe of each track, then frames until two seconds wait to be sent. The fourth packet is of
the given track, and the last two end the drop and go on with the second track. -/
def congested (trackIdx : Nat) : List Event :=
  [.connect twoTracks, .flags true false, .data {} {} (key 0 0 0), .data {} {} (key 1 1 0), .data {} {} (delta 2 0 100),
    .data {} {} (delta 3 trackIdx 100), .data {} {} (delta 4 0 2000000), .data {} {} (key 5 0 2000000),
    .data {} {} (delta 6 1 2000000)]

/-- Nothing of the second track was dropped. -/
theorem sends_references_apart : ∃ (ms : List (Moment World Event)) (w : World),
    Run (fun s e t => step 64 s e = some t) {} ms w ∧ w.dropped ≠ [] ∧ w.SendsReferences ∧ ∀ m ∈ ms, m.before.SendsReferences ∧ m.after.SendsReferences := by
  obtain ⟨ms, w, run, shown⟩ := exists_run_of_follow (step 64) {} (congested 0 ++ [.take, .take])
    (fun ms w => ms.all (fun m => Ok 64 m.before m.input) && decide (w.dropped ≠ [])) (by decide +kernel)
  simp only [Bool.and_eq_true, List.all_eq_true, decide_eq_true_eq] at shown
  exact ⟨ms, w, run, shown.2, sends_references run shown.1⟩

/-- The keyframe of the first track ends the drop of the second. -/
theorem not_sends_references : ¬∀ (bits : Nat) (ms : List (Moment World Event)) (w : World),
    Run (fun s e t => step bits s e = some t) {} ms w → w.SendsReferences := by
  intro law
  obtain ⟨ms, w, run, shown⟩ := exists_run_of_follow (step 64) {} (congested 1)
    (fun _ w => delta 3 1 100 ∈ w.arrived && delta 3 1 100 ∉ w.kept &&
      shedding.Next w.kept (delta 3 1 100) (delta 6 1 2000000)) (by decide +kernel)
  simp only [Bool.and_eq_true, decide_eq_true_eq] at shown
  have above := (law 64 ms w run).above _ shown.1.1 shown.1.2 _ shown.2
  exact absurd above (by decide)

end World

end Braidcast.Rtmp
