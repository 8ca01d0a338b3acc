import Mathlib.Data.List.TakeWhile
import Braidcast.Rtmp.Bitrate

/-!
# The encoders' bitrates

The thread that hands packets over lowers the encoders' own settings, and the send thread puts them
back once, as it ends. The two share no lock there: `packets_mutex` keeps the send thread from the queue
only.
-/
namespace Braidcast.Rtmp

open Lib

/-- Where `rtmp_stream_data` stands with a packet. -/
inductive EncoderThread where
  | idle
  | passed (packet : Packet)
  | raised (packet : Packet)
  | relieving (packet : Packet)
  | lowered (packet : Packet)

/-- Where `send_thread` stands. Before the first connection there is none. -/
inductive SendThread where
  | off
  | connected
  | sending
  | leaving
  | restoring
  | restored
  | captured
  | freed
  | ended
  deriving DecidableEq

namespace EncoderThread

/-- The bitrate has been changed and `dbr_set_bitrate` is still to come. -/
def pending : EncoderThread → Bool
  | raised _ | lowered _ => true
  | _ => false

/-- `packets_mutex` is held. -/
def holds : EncoderThread → Bool
  | raised _ | relieving _ | lowered _ => true
  | _ => false

end EncoderThread

namespace SendThread

/-- The bitrate has been looked at for the last time. -/
def checked : SendThread → Bool
  | restoring | restored | captured | freed | ended => true
  | _ => false

/-- What was to be put back has been put back. -/
def done : SendThread → Bool
  | restored | captured | freed | ended => true
  | _ => false

end SendThread

/-- A stream with its encoders, the two threads, and the bitrates as `init_connect` read them. -/
structure Session where
  stream : RtmpStream := {}
  encoders : Nat → Option VideoEncoder
  enc : EncoderThread := .idle
  send : SendThread := .off
  read : Nat → Int := fun _ => 0

inductive SessionEvent where
  | connect (o : OutputInfo)
  | start
  | arrive (packet : Packet)
  | raise (r : Readings)
  | apply
  | lower (r : Readings)
  | transmit (times : DbrFrame)
  | fail
  | stop
  | restore
  | applyRestored
  | endCapture
  | freePackets
  | clearActive

namespace Session

/-- The output of a connection, whose encoders nobody else reconfigures. -/
def output (w : Session) (o : OutputInfo) : OutputInfo := { o with videoEncoders := w.encoders }

def connect (bits : Nat) (w : Session) (o : OutputInfo) : Session :=
  { w with
    stream := ({ w.stream with packets := [] } : RtmpStream).connected bits (w.output o)
    send := .connected
    read := bitrateOf w.encoders }

/-- One step of either thread. A packet's second check does nothing where the bitrate is dynamic. -/
def step (bits : Nat) (scale : Int → Int → Int → Int) (w : Session) : SessionEvent → Option Session
  | .connect o =>
    if (w.send = .off ∨ w.send = .connected ∨ w.send = .ended) ∧ (w.connect bits o).stream.dbrEnabled = true then
      some (w.connect bits o)
    else none
  | .start => if w.send = .connected then some { w with send := .sending, stream := { w.stream with active := true } } else none
  | .arrive packet =>
    match w.enc with
    | .idle => some { w with enc := if w.stream.passes packet then .passed packet else .idle }
    | _ => none
  | .raise r =>
    match w.enc with
    | .passed packet =>
      if w.stream.disconnected then some { w with enc := .idle }
      else match packet.type with
        | .audio => some { w with enc := .idle, stream := w.stream.addPacket packet }
        | .video =>
          let (stream, changed) := w.stream.raiseIfDue bits r false
          some { w with stream := stream, enc := if changed then .raised packet else .relieving packet }
    | _ => none
  | .lower r =>
    match w.enc with
    | .relieving packet =>
      let (stream, changed) := w.stream.relieve r false
      some (if changed then { w with stream := stream, enc := .lowered packet }
        else { w with stream := stream.keepOrDrop packet, enc := .idle })
    | _ => none
  | .apply =>
    match w.enc with
    | .raised packet => some { w with encoders := w.stream.dbrSetBitrate bits scale w.encoders, enc := .relieving packet }
    | .lowered packet =>
      some { w with
        encoders := w.stream.dbrSetBitrate bits scale w.encoders
        stream := w.stream.keepOrDrop packet
        enc := .idle }
    | _ => none
  | .transmit times =>
    if w.send = .sending ∧ w.enc.holds = false then
      let (stream, packet) := w.stream.getNextPacket
      some { w with stream := if packet.isSome then stream.dbrAddFrame bits times else stream }
    else none
  | .fail =>
    if w.send = .sending ∧ w.enc.holds = false then
      some { w with stream := { w.stream.getNextPacket.1 with disconnected := true }, send := .leaving }
    else none
  | .stop => if w.send = .sending then some { w with send := .leaving } else none
  | .restore =>
    if w.send = .leaving then
      let (stream, changed) := w.stream.resetBitrate
      some { w with stream := stream, send := if changed then .restoring else .restored }
    else none
  | .applyRestored =>
    if w.send = .restoring then
      some { w with encoders := w.stream.dbrSetBitrate bits scale w.encoders, send := .restored }
    else none
  | .endCapture => if w.send = .restored then some { w with send := .captured } else none
  | .freePackets =>
    if w.send = .captured ∧ w.enc.holds = false then
      some { w with stream := { w.stream with packets := [] }, send := .freed }
    else none
  | .clearActive =>
    if w.send = .freed then some { w with stream := { w.stream with active := false }, send := .ended } else none

/-- Each encoder has the bitrate that `init_connect` read. -/
def Restored (w : Session) : Prop := ∀ i ∈ encoderIndices, bitrateOf w.encoders i = w.read i

/-- The target does not move from a connection that has ended to the next. -/
def KeepsTarget (m : Moment Session SessionEvent) : Prop :=
  match m.input with
  | .connect _ => m.before.send = .ended → m.after.stream.dbrOrigBitrate = m.before.stream.dbrOrigBitrate
  | _ => True

/-- The column that the target falls on, where the table has one, is the bitrates as they are. -/
def Exact (bits : Nat) (s : RtmpStream) (read : Nat → Int) : Prop :=
  s.dbrInterpolationTable.isEmpty = false → ∀ i ∈ encoderIndices,
    column s.dbrInterpolationTable (baseColumn bits s.dbrInterpolationTable s.dbrOrigBitrate) i = read i

/-- The sums that `init_connect` and `dbr_inc_bitrate` make of the bitrates fit a `long`. -/
def Fits (bits : Nat) (bitrates : Nat → Int) : Prop :=
  let orig := (encoderIndices.map bitrates).sum
  (∀ i ∈ encoderIndices, long bits (bitrates i) = bitrates i) ∧ 0 ≤ orig ∧
    long bits (orig + orig.tdiv 10) = orig + orig.tdiv 10

/-- A connection's table has the bitrates as they are at its target; the send thread looks at the
bitrate when none is to be applied, or puts it back; and no packet lowers it from then on. -/
def Ok (bits : Nat) (w : Session) : SessionEvent → Prop
  | .connect o =>
    Fits bits (bitrateOf w.encoders) ∧ Exact bits (w.connect bits o).stream (bitrateOf w.encoders)
  | .restore => w.enc.pending = true → w.stream.dbrCurBitrate ≠ w.stream.dbrOrigBitrate
  | .lower r => w.send.checked = true → (w.stream.relieve r false).2 = false
  | _ => True

instance (bits : Nat) (bitrates : Nat → Int) : Decidable (Fits bits bitrates) := inferInstanceAs (Decidable (_ ∧ _ ∧ _))

instance (bits : Nat) (s : RtmpStream) (read : Nat → Int) : Decidable (Exact bits s read) :=
  inferInstanceAs (Decidable (_ → ∀ i ∈ encoderIndices, _ = _))

instance (bits : Nat) (w : Session) (e : SessionEvent) : Decidable (w.Ok bits e) :=
  match e with
  | .connect _ => inferInstanceAs (Decidable (_ ∧ _))
  | .restore => inferInstanceAs (Decidable (_ → _ ≠ _))
  | .lower _ => inferInstanceAs (Decidable (_ → _ = _))
  | .start | .arrive _ | .raise _ | .apply | .transmit _ | .fail | .stop | .applyRestored | .endCapture | .freePackets
  | .clearActive => isTrue trivial

/-! ### The invariant -/

/-- The bitrate may differ from the target only while something is still to be applied or put back. -/
structure Inv (bits : Nat) (w : Session) : Prop where
  exact : Exact bits w.stream w.read
  fits : Fits bits w.read
  orig : w.stream.dbrOrigBitrate = (encoderIndices.map w.read).sum
  inc : w.stream.dbrIncBitrate = w.stream.dbrOrigBitrate.tdiv 10
  enabled : w.stream.dbrEnabled = true
  -- without a column nothing is applied
  empty : w.stream.dbrInterpolationTable.isEmpty = true → w.Restored
  present : ∀ i ∈ encoderIndices, w.encoders i = none → w.read i = 0
  applied : w.stream.dbrCurBitrate = w.stream.dbrOrigBitrate →
    w.enc.pending = true ∨ w.send = .restoring ∨ w.Restored
  target : w.send.checked = true → w.stream.dbrCurBitrate = w.stream.dbrOrigBitrate
  put : w.send.done = true → w.Restored

/-- What stays as it is while the bitrate is moved. -/
structure SameTarget (s t : RtmpStream) : Prop where
  orig : t.dbrOrigBitrate = s.dbrOrigBitrate
  inc : t.dbrIncBitrate = s.dbrIncBitrate
  table : t.dbrInterpolationTable = s.dbrInterpolationTable
  enabled : t.dbrEnabled = s.dbrEnabled

structure SameBitrates (s t : RtmpStream) : Prop extends SameTarget s t where
  cur : t.dbrCurBitrate = s.dbrCurBitrate

variable {bits : Nat} {scale : Int → Int → Int → Int} {w w' : Session} {e : SessionEvent} {s t : RtmpStream}
  {enc : EncoderThread} {send : SendThread} {r : Readings} {packet : Packet} {o : OutputInfo}

theorem SameTarget.trans {u : RtmpStream} (first : SameTarget s t) (second : SameTarget t u) : SameTarget s u :=
  ⟨second.orig.trans first.orig, second.inc.trans first.inc, second.table.trans first.table,
    second.enabled.trans first.enabled⟩

theorem SameBitrates.refl (s : RtmpStream) : SameBitrates s s := ⟨⟨rfl, rfl, rfl, rfl⟩, rfl⟩

theorem SameBitrates.trans {u : RtmpStream} (first : SameBitrates s t) (second : SameBitrates t u) : SameBitrates s u :=
  ⟨first.toSameTarget.trans second.toSameTarget, second.cur.trans first.cur⟩

theorem Exact.of_same (exact : Exact bits s w.read) (same : SameTarget s t) : Exact bits t w.read := by
  unfold Exact
  rw [same.orig, same.table]
  exact exact

/-- The bitrate is moved, and the encoders stay as they are. -/
theorem Inv.move (inv : w.Inv bits) (same : SameTarget w.stream t)
    (applied : t.dbrCurBitrate = t.dbrOrigBitrate → enc.pending = true ∨ send = .restoring ∨ w.Restored)
    (target : send.checked = true → t.dbrCurBitrate = t.dbrOrigBitrate) (put : send.done = true → w.Restored) :
    Inv bits { w with stream := t, enc := enc, send := send } where
  exact := inv.exact.of_same same
  fits := inv.fits
  orig := same.orig.trans inv.orig
  inc := by
    change t.dbrIncBitrate = t.dbrOrigBitrate.tdiv 10
    rw [same.inc, same.orig]
    exact inv.inc
  enabled := same.enabled.trans inv.enabled
  empty := fun none => inv.empty (same.table ▸ none)
  present := inv.present
  applied := applied
  target := target
  put := put

/-- Neither the bitrates nor the encoders change. -/
theorem Inv.still (inv : w.Inv bits) (same : SameBitrates w.stream t) (pends : w.enc.pending = true → enc.pending = true)
    (restores : w.send = .restoring → send = .restoring) (checked : send.checked = true → w.send.checked = true)
    (done : send.done = true → w.send.done = true) : Inv bits { w with stream := t, enc := enc, send := send } := by
  refine inv.move same.toSameTarget ?_ ?_ fun late => inv.put (done late)
  · intro reached
    rw [same.cur, same.orig] at reached
    rcases inv.applied reached with pending | restoring | restored
    · exact .inl (pends pending)
    · exact .inr (.inl (restores restoring))
    · exact .inr (.inr restored)
  · intro late
    rw [same.cur, same.orig]
    exact inv.target (checked late)

/-- `send_thread` goes on, and puts nothing back. -/
theorem Inv.goOn {phase : SendThread} (inv : w.Inv bits) (before : w.send = phase) (same : SameBitrates w.stream t)
    (goes : phase ≠ .restoring ∧ (send.checked = true → phase.checked = true) ∧ (send.done = true → phase.done = true)) :
    Inv bits { w with stream := t, send := send } := by
  subst before
  obtain ⟨apart, checked, done⟩ := goes
  exact inv.still same id (fun restoring => absurd restoring apart) checked done

/-! ### Applying -/

theorem dbrSetBitrate_none {encoders : Nat → Option VideoEncoder} {i : Nat}
    (here : s.dbrSetBitrate bits scale encoders i = none) : encoders i = none := by
  unfold RtmpStream.dbrSetBitrate at here
  dsimp only at here
  split at here
  · exact here
  · exact Option.map_eq_none_iff.mp here

theorem sum_indices_congr {f g : Nat → Int} (same : ∀ i ∈ encoderIndices, f i = g i) :
    (encoderIndices.map f).sum = (encoderIndices.map g).sum :=
  congrArg List.sum (List.map_congr_left same)

/-- At the target what is applied is what was read: nothing remains to be shared out. -/
theorem Inv.apply_exact (inv : w.Inv bits) (scale_zero : ∀ delta overall, 1 ≤ overall → scale delta 0 overall = 0)
    (reached : w.stream.dbrCurBitrate = w.stream.dbrOrigBitrate) :
    ∀ i ∈ encoderIndices, bitrateOf (w.stream.dbrSetBitrate bits scale w.encoders) i = w.read i := by
  intro i index
  cases filled : w.stream.dbrInterpolationTable.isEmpty with
  | true =>
    have unchanged : w.stream.dbrSetBitrate bits scale w.encoders = w.encoders := by
      simp [RtmpStream.dbrSetBitrate, filled]
    rw [unchanged]
    exact inv.empty filled i index
  | false =>
    have base := inv.exact filled
    have total : (column w.stream.dbrInterpolationTable
        (baseColumn bits w.stream.dbrInterpolationTable w.stream.dbrOrigBitrate)).total = w.stream.dbrOrigBitrate :=
      (sum_indices_congr base).trans inv.orig.symm
    have nothing : long bits (0 : Int) = 0 := by simp [long]
    unfold RtmpStream.dbrSetBitrate bitrateOf
    simp only [filled, Bool.false_eq_true, if_false, reached, total, sub_self, nothing,
      scale_zero _ _ (le_max_left 1 _), add_zero]
    cases here : w.encoders i with
    | none => exact (inv.present i index here).symm
    | some found => exact (congrArg (long bits) (base i index)).trans (inv.fits.1 i index)

/-- `dbr_set_bitrate` is called. -/
theorem Inv.apply (inv : w.Inv bits) (scale_zero : ∀ delta overall, 1 ≤ overall → scale delta 0 overall = 0)
    (same : SameBitrates w.stream t) (checked : send.checked = true → w.send.checked = true) :
    Inv bits { w with
      encoders := w.stream.dbrSetBitrate bits scale w.encoders, stream := t, enc := enc, send := send } := by
  have restored := inv.apply_exact scale_zero
  constructor
  case exact => exact inv.exact.of_same same.toSameTarget
  case fits => exact inv.fits
  case orig => exact same.orig.trans inv.orig
  case inc =>
    change t.dbrIncBitrate = t.dbrOrigBitrate.tdiv 10
    rw [same.inc, same.orig]
    exact inv.inc
  case enabled => exact same.enabled.trans inv.enabled
  case empty =>
    intro none
    change t.dbrInterpolationTable.isEmpty = true at none
    rw [same.table] at none
    have unchanged : w.stream.dbrSetBitrate bits scale w.encoders = w.encoders := by
      simp [RtmpStream.dbrSetBitrate, none]
    change ∀ i ∈ encoderIndices, bitrateOf (w.stream.dbrSetBitrate bits scale w.encoders) i = w.read i
    rw [unchanged]
    exact inv.empty none
  case present => exact fun i index absent => inv.present i index (dbrSetBitrate_none absent)
  case applied =>
    intro reached
    change t.dbrCurBitrate = t.dbrOrigBitrate at reached
    rw [same.cur, same.orig] at reached
    exact .inr (.inr (restored reached))
  case target =>
    intro late
    change t.dbrCurBitrate = t.dbrOrigBitrate
    rw [same.cur, same.orig]
    exact inv.target (checked late)
  case put =>
    intro late
    have looked : send.checked = true := by
      cases send <;> first | rfl | cases late
    exact restored (inv.target (checked looked))

/-! ### Steps -/

theorem keepOrDrop_same (s : RtmpStream) (packet : Packet) : SameBitrates s (s.keepOrDrop packet) := by
  unfold RtmpStream.keepOrDrop
  split
  · exact ⟨⟨rfl, rfl, rfl, rfl⟩, rfl⟩
  · exact ⟨⟨rfl, rfl, rfl, rfl⟩, rfl⟩

theorem getNextPacket_same (s : RtmpStream) : SameBitrates s s.getNextPacket.1 := by
  unfold RtmpStream.getNextPacket
  split
  · exact ⟨⟨rfl, rfl, rfl, rfl⟩, rfl⟩
  · exact ⟨⟨rfl, rfl, rfl, rfl⟩, rfl⟩

/-- A raise leads to the target at most, and stays there once there. -/
theorem Inv.raised_target (inv : w.Inv bits) (now : UInt64)
    (reached : w.stream.dbrCurBitrate = w.stream.dbrOrigBitrate) :
    ({ w.stream with dbrIncTimeout := 0 }.dbrIncBitrate_ bits now).dbrCurBitrate = w.stream.dbrOrigBitrate := by
  obtain ⟨-, low, fits⟩ := inv.fits
  have more : long bits (w.stream.dbrOrigBitrate + w.stream.dbrIncBitrate) =
      w.stream.dbrOrigBitrate + w.stream.dbrIncBitrate := by
    rw [inv.inc, inv.orig]
    exact fits
  have nonneg : 0 ≤ w.stream.dbrIncBitrate := by
    rw [inv.inc, inv.orig]
    exact Int.tdiv_nonneg low (by decide)
  unfold RtmpStream.dbrIncBitrate_
  dsimp only
  rw [reached, more, if_pos (by omega)]

theorem incBitrate_same (bits : Nat) (s : RtmpStream) (now : UInt64) :
    SameTarget s ({ s with dbrIncTimeout := 0 }.dbrIncBitrate_ bits now) := by
  unfold RtmpStream.dbrIncBitrate_
  dsimp only
  split
  · exact ⟨rfl, rfl, rfl, rfl⟩
  · exact ⟨rfl, rfl, rfl, rfl⟩

theorem forgetFrames_same (s : RtmpStream) : SameBitrates s s.forgetFrames := by
  unfold RtmpStream.forgetFrames
  split
  · exact ⟨⟨rfl, rfl, rfl, rfl⟩, rfl⟩
  · exact ⟨⟨rfl, rfl, rfl, rfl⟩, rfl⟩

theorem decreased_same (s : RtmpStream) (bitrate : Int) (timeout : UInt64) : SameTarget s (s.decreased bitrate timeout) :=
  ⟨rfl, rfl, rfl, rfl⟩

/-- A packet that finds the bitrate as it should be leaves it so, and another lowers it alone. -/
theorem relieve_same (s : RtmpStream) (r : Readings) (pframes : Bool) :
    SameTarget s (s.relieve r pframes).1 ∧ ((s.relieve r pframes).2 = false → SameBitrates s (s.relieve r pframes).1) := by
  have nothing := SameBitrates.refl s
  unfold RtmpStream.relieve
  cases s.bufferDuration with
  | none => exact ⟨nothing.toSameTarget, fun _ => nothing⟩
  | some duration =>
    dsimp only
    split
    case isTrue =>
      split
      case isFalse => exact ⟨nothing.toSameTarget, fun _ => nothing⟩
      case isTrue =>
        have forgotten := forgetFrames_same s
        rcases RtmpStream.dbrBitrateLowered_cases r.atLower s with same | ⟨-, lowers⟩
        · rw [same]
          exact ⟨forgotten.toSameTarget, fun _ => forgotten⟩
        · rw [lowers]
          have lower := decreased_same s.forgetFrames s.lowerTo (r.atLower + DBR_INC_TIMER)
          exact ⟨forgotten.toSameTarget.trans lower, fun no => by cases no⟩
    case isFalse =>
      generalize (if pframes then s.pframeDropThresholdUsec else s.dropThresholdUsec) = threshold
      split
      · exact ⟨⟨rfl, rfl, rfl, rfl⟩, fun _ => ⟨⟨rfl, rfl, rfl, rfl⟩, rfl⟩⟩
      · exact ⟨nothing.toSameTarget, fun _ => nothing⟩

theorem Inv.connect (ok : w.Ok bits (.connect o)) (enabled : (w.connect bits o).stream.dbrEnabled = true) :
    (w.connect bits o).Inv bits := by
  obtain ⟨fits, exact⟩ := ok
  have orig : long bits (encoderIndices.map (bitrateOf w.encoders)).sum = (encoderIndices.map (bitrateOf w.encoders)).sum := by
    obtain ⟨-, low, more⟩ := fits
    have tenth := Int.tdiv_nonneg low (show (0 : Int) ≤ 10 by decide)
    exact RtmpStream.long_of_le more low (by omega)
  constructor
  case exact => exact exact
  case fits => exact fits
  case orig => exact orig
  case inc => rfl
  case enabled => exact enabled
  case empty => exact fun _ _ _ => rfl
  case present =>
    intro i _ absent
    change w.encoders i = none at absent
    change bitrateOf w.encoders i = 0
    rw [bitrateOf, absent]
  case applied => exact fun _ => .inr (.inr fun _ _ => rfl)
  case target => exact fun late => by cases late
  case put => exact fun late => by cases late

section

variable (inv : w.Inv bits)
include inv

theorem Inv.raise (taken : w.step bits scale (.raise r) = some w') : w'.Inv bits := by
  simp only [step] at taken
  cases stands : w.enc with
  | passed packet =>
    rw [stands] at taken
    dsimp only at taken
    have calm : w.enc.pending = false := by rw [stands]; rfl
    split at taken
    · cases taken
      exact inv.still ⟨⟨rfl, rfl, rfl, rfl⟩, rfl⟩ (fun no => by simp [calm] at no) id id id
    · cases kind : packet.type with
      | audio =>
        rw [kind] at taken
        cases taken
        exact inv.still ⟨⟨rfl, rfl, rfl, rfl⟩, rfl⟩ (fun no => by simp [calm] at no) id id id
      | video =>
        rw [kind] at taken
        unfold RtmpStream.raiseIfDue at taken
        dsimp only at taken
        split at taken
        · cases taken
          have same := incBitrate_same bits w.stream r.atRaise
          refine inv.move same (fun _ => .inl rfl) (fun late => ?_) inv.put
          exact (inv.raised_target r.atRaise (inv.target late)).trans same.orig.symm
        · cases taken
          exact inv.still ⟨⟨rfl, rfl, rfl, rfl⟩, rfl⟩ (fun no => by simp [calm] at no) id id id
  | idle | raised _ | relieving _ | lowered _ =>
    rw [stands] at taken
    cases taken

theorem Inv.lower (ok : w.Ok bits (.lower r)) (taken : w.step bits scale (.lower r) = some w') :
    w'.Inv bits := by
  simp only [step] at taken
  cases stands : w.enc with
  | relieving packet =>
    rw [stands] at taken
    dsimp only at taken
    have calm : w.enc.pending = false := by rw [stands]; rfl
    obtain ⟨same, unchanged⟩ := relieve_same w.stream r false
    cases changed : (w.stream.relieve r false).2 with
    | true =>
      simp only [changed, if_true] at taken
      cases taken
      have early : w.send.checked = false := by
        by_contra late
        have still := ok (Bool.eq_true_of_not_eq_false late)
        rw [changed] at still
        cases still
      exact inv.move same (fun _ => .inl rfl) (fun late => by simp [early] at late) inv.put
    | false =>
      simp only [changed, Bool.false_eq_true, if_false] at taken
      cases taken
      have first := unchanged changed
      have last := keepOrDrop_same (w.stream.relieve r false).1 packet
      exact inv.still (first.trans last) (fun no => by simp [calm] at no) id id id
  | idle | passed _ | raised _ | lowered _ =>
    rw [stands] at taken
    cases taken

theorem Inv.restore (ok : w.Ok bits .restore) (taken : w.step bits scale .restore = some w') :
    w'.Inv bits := by
  simp only [step, Option.ite_none_right_eq_some] at taken
  obtain ⟨leaving, taken⟩ := taken
  unfold RtmpStream.resetBitrate at taken
  simp only [inv.enabled, true_and] at taken
  split at taken
  · cases taken
    exact inv.move ⟨rfl, rfl, rfl, inv.enabled.symm ▸ rfl⟩ (fun _ => .inr (.inl rfl)) (fun _ => rfl) fun late => by cases late
  next same =>
    cases taken
    have reached := not_ne_iff.mp same
    -- nothing is to be put back, so it has all been applied
    have restored : w.Restored := by
      rcases inv.applied reached with pending | restoring | restored
      · exact absurd reached (ok pending)
      · rw [leaving] at restoring
        cases restoring
      · exact restored
    exact inv.move ⟨rfl, rfl, rfl, rfl⟩ (fun _ => .inr (.inr restored)) (fun _ => reached) fun _ => restored

theorem Inv.applies (scale_zero : ∀ delta overall, 1 ≤ overall → scale delta 0 overall = 0)
    (taken : w.step bits scale .apply = some w') : w'.Inv bits := by
  simp only [step] at taken
  cases stands : w.enc with
  | raised packet =>
    rw [stands] at taken
    cases taken
    exact inv.apply scale_zero ⟨⟨rfl, rfl, rfl, rfl⟩, rfl⟩ id
  | lowered packet =>
    rw [stands] at taken
    cases taken
    exact inv.apply scale_zero (keepOrDrop_same w.stream packet) id
  | idle | passed _ | relieving _ =>
    rw [stands] at taken
    cases taken

theorem Inv.transmit {times : DbrFrame} (taken : w.step bits scale (.transmit times) = some w') :
    w'.Inv bits := by
  simp only [step, Option.ite_none_right_eq_some] at taken
  obtain ⟨-, taken⟩ := taken
  have next := getNextPacket_same w.stream
  split at taken
  · cases taken
    exact inv.still ⟨⟨next.orig, next.inc, next.table, next.enabled⟩, next.cur⟩ id id id id
  · cases taken
    exact inv.still next id id id id

theorem Inv.step (scale_zero : ∀ delta overall, 1 ≤ overall → scale delta 0 overall = 0) (ok : w.Ok bits e)
    (taken : w.step bits scale e = some w') : w'.Inv bits := by
  have same := SameBitrates.refl w.stream
  cases e
  case raise r => exact inv.raise taken
  case lower r => exact inv.lower ok taken
  case apply => exact inv.applies scale_zero taken
  case transmit times => exact inv.transmit taken
  case restore => exact inv.restore ok taken
  case arrive packet =>
    cases stands : w.enc with
    | idle =>
      simp only [Session.step, stands] at taken
      cases taken
      exact inv.still same (fun no => by simp [stands, EncoderThread.pending] at no) id id id
    | passed _ | raised _ | relieving _ | lowered _ =>
      simp only [Session.step, stands] at taken
      cases taken
  all_goals
    simp only [Session.step, Option.ite_none_right_eq_some] at taken
    obtain ⟨before, ⟨⟩⟩ := taken
  case connect o => exact .connect ok before.2
  case start => exact inv.goOn before ⟨⟨rfl, rfl, rfl, rfl⟩, rfl⟩ (by decide)
  case clearActive => exact inv.goOn before ⟨⟨rfl, rfl, rfl, rfl⟩, rfl⟩ (by decide)
  case fail =>
    have next := getNextPacket_same w.stream
    exact inv.goOn before.1 ⟨⟨next.orig, next.inc, next.table, next.enabled⟩, next.cur⟩ (by decide)
  case stop => exact inv.goOn before same (by decide)
  case endCapture => exact inv.goOn before same (by decide)
  case applyRestored => exact inv.apply scale_zero same fun _ => by rw [before]; rfl
  case freePackets => exact inv.goOn before.1 ⟨⟨rfl, rfl, rfl, rfl⟩, rfl⟩ (by decide)

end

/-! ### Runs -/

/-- Nothing has been connected yet. -/
structure Fresh (w : Session) : Prop where
  send : w.send = .off
  enc : w.enc = .idle
  active : w.stream.active = false

theorem Fresh.step (fresh : w.Fresh) (ok : w.Ok bits e) (taken : w.step bits scale e = some w') :
    w'.Inv bits ∨ w'.Fresh := by
  cases e with
  | connect o =>
    simp only [Session.step, Option.ite_none_right_eq_some] at taken
    obtain ⟨⟨-, enabled⟩, taken⟩ := taken
    cases taken
    exact .inl (.connect ok enabled)
  | arrive packet =>
    have refused : w.stream.passes packet = false := by simp [RtmpStream.passes, fresh.active]
    simp only [Session.step, fresh.enc, refused] at taken
    cases taken
    exact .inr ⟨fresh.send, rfl, fresh.active⟩
  | raise | lower | apply => simp [Session.step, fresh.enc] at taken
  | start | transmit | fail | stop | restore | applyRestored | endCapture | freePackets | clearActive =>
    simp [Session.step, fresh.send] at taken

/-- A connection after one that has ended reads what the one before it read. -/
theorem Inv.keepsTarget {m : Moment Session SessionEvent} (inv : m.before.Inv bits) (ok : m.before.Ok bits m.input)
    (taken : m.before.step bits scale m.input = some m.after) : KeepsTarget m := by
  obtain ⟨before, input, after⟩ := m
  cases input with
  | connect o =>
    intro ended
    simp only [Session.step, Option.ite_none_right_eq_some] at taken
    obtain ⟨⟨-, enabled⟩, taken⟩ := taken
    cases taken
    have restored : before.Restored := inv.put (by rw [show before.send = .ended from ended]; rfl)
    exact ((Inv.connect ok enabled).orig.trans (sum_indices_congr restored)).trans inv.orig.symm
  | _ => trivial

/-- Without a table of the user's, the column is the bitrates as they are unless an earlier connection
left one of more than they come to. -/
theorem exact_of_default (default : o.interpolationData = none) (fits : Fits bits (bitrateOf w.encoders))
    (earlier : ∀ left ∈ w.stream.dbrInterpolationTable,
      long bits left.total ≤ (encoderIndices.map (bitrateOf w.encoders)).sum) :
    Exact bits (w.connect bits o).stream (bitrateOf w.encoders) := by
  obtain ⟨each, low, more⟩ := fits
  have tenth := Int.tdiv_nonneg low (show (0 : Int) ≤ 10 by decide)
  have orig : long bits (encoderIndices.map (bitrateOf w.encoders)).sum = (encoderIndices.map (bitrateOf w.encoders)).sum :=
    RtmpStream.long_of_le more low (by omega)
  have total : ((w.output o).point bits).total = (encoderIndices.map (bitrateOf w.encoders)).sum := sum_indices_congr each
  have table : (w.connect bits o).stream.dbrInterpolationTable =
      w.stream.dbrInterpolationTable ++ [fun _ => 0, (w.output o).point bits] := by
    simp [Session.connect, RtmpStream.connected, OutputInfo.interpolation, output, default]
  have within : ∀ left ∈ (w.connect bits o).stream.dbrInterpolationTable,
      decide (long bits left.total ≤ (w.connect bits o).stream.dbrOrigBitrate) = true := by
    intro left member
    rw [decide_eq_true_eq, show (w.connect bits o).stream.dbrOrigBitrate = _ from orig]
    rw [table] at member
    rcases List.mem_append.mp member with old | new
    · exact earlier left old
    · rcases List.mem_cons.mp new with rfl | last
      · simpa [InterpolationPoint.total, long, encoderIndices] using low
      · rw [List.mem_singleton.mp last, total]
        exact orig.le
  intro _ i index
  have all : baseColumn bits (w.connect bits o).stream.dbrInterpolationTable (w.connect bits o).stream.dbrOrigBitrate =
      w.stream.dbrInterpolationTable.length + 1 := by
    unfold baseColumn
    rw [List.takeWhile_eq_self_iff.mpr within, table]
    simp
  rw [all, table, column, List.getD_eq_getElem?_getD, List.getElem?_append_right (by omega)]
  have read : (w.output o).point bits i = bitrateOf w.encoders i := each i index
  simpa using read

/-- What `delta * delta_scale` is where no division rounds. -/
def wholeScale (delta remaining overall : Int) : Int := (delta * min remaining overall).tdiv overall

theorem wholeScale_zero (delta overall : Int) (positive : 1 ≤ overall) : wholeScale delta 0 overall = 0 := by
  have least : min 0 overall = 0 := min_eq_left (by omega)
  rw [wholeScale, least, Int.mul_zero, Int.zero_tdiv]

/-- One encoder of 6000 kbit/s. -/
def encoder : Nat → Option VideoEncoder := fun i => if i = 0 then some ⟨.h264, true, false, 6000⟩ else none

def dynamic : OutputInfo := { dynBitrate := true, videoEncoders := encoder }

def frame (serial : Nat) (dtsUsec : Int) : Packet := ⟨serial, .video, 0, 2, false, dtsUsec⟩

def handsOver (packet : Packet) : List SessionEvent := [.arrive packet, .raise {}, .lower {}]

/-- Six frames, of which one is sent at 3200 kbit/s and five wait for 200 ms. -/
def slow : List SessionEvent :=
  [.connect dynamic, .start] ++
    ([frame 0 0, frame 1 0, frame 2 50000, frame 3 100000, frame 4 150000, frame 5 200000].flatMap handsOver) ++
    [.transmit ⟨0, 1000000000, 400000⟩]

end Session

end Braidcast.Rtmp
