import Mathlib.Data.String.Basic
import Braidcast.Lib.Run

/-!
# State channels and the frames a page gets on connecting

`BroadcastStateFrame` keeps a channel's last frame and sends it to the registered sockets;
a connecting page is sent the kept frames before its socket is registered. The copy, the
sends and the registration are separate steps, and so are the keep, the snapshot of the
registry and the sends of a broadcast; the steps of any number of pages and channels
interleave, with one broadcast at a time on each channel.
-/
namespace Braidcast.Overlay

open Lib

/-! ### The frames kept for replay -/

/-- `replayFrames_`, in the map's order. -/
abbrev Frames := List (String × String)

namespace Frames

def keep (name frame : String) : Frames → Frames
  | [] => [(name, frame)]
  | kept :: rest =>
    if name = kept.1 then (name, frame) :: rest
    else if name < kept.1 then (name, frame) :: kept :: rest
    else kept :: keep name frame rest

def get (name : String) : Frames → Option String
  | [] => none
  | kept :: rest => if kept.1 = name then some kept.2 else get name rest

def Sorted (frames : Frames) : Prop :=
  (frames.map Prod.fst).Pairwise (· < ·)

/-- The last frame of a channel among those sent. -/
def last (frames : Frames) (name : String) : Option String :=
  ((frames.filter (·.1 = name)).getLast?).map Prod.snd

theorem get_keep (name frame other : String) (frames : Frames) :
    get other (keep name frame frames) = if name = other then some frame else get other frames := by
  induction frames with
  | nil => rfl
  | cons kept rest ih =>
    simp only [keep]
    split
    next here =>
      simp only [get, ← here]
      by_cases same : name = other <;> simp [same]
    next apart =>
      split
      · rfl
      · simp only [get, ih]
        by_cases same : name = other
        · subst same
          simp [Ne.symm apart]
        · simp [same]

variable {frames : Frames}

theorem mem_keep {name frame other : String} (member : other ∈ (keep name frame frames).map Prod.fst) :
    other = name ∨ other ∈ frames.map Prod.fst := by
  induction frames with
  | nil => exact .inl (List.mem_singleton.mp member)
  | cons kept rest ih =>
    simp only [keep] at member
    split at member
    · rcases List.mem_cons.mp member with same | later
      · exact .inl same
      · exact .inr (List.mem_cons_of_mem _ later)
    · split at member
      · exact List.mem_cons.mp member
      · rcases List.mem_cons.mp member with same | later
        · exact .inr (List.mem_cons.mpr (.inl same))
        · exact (ih later).imp_right (List.mem_cons_of_mem _)

theorem Sorted.keep (sorted : frames.Sorted) (name frame : String) : (keep name frame frames).Sorted := by
  induction frames with
  | nil => exact List.pairwise_singleton _ _
  | cons kept rest ih =>
    obtain ⟨first, later⟩ := List.pairwise_cons.mp sorted
    simp only [Frames.keep]
    split
    next here =>
      rw [Sorted, List.map_cons, here]
      exact List.pairwise_cons.mpr ⟨first, later⟩
    next apart =>
      split
      next before =>
        refine List.pairwise_cons.mpr ⟨?_, sorted⟩
        intro other member
        rcases List.mem_cons.mp member with rfl | deeper
        · exact before
        · exact lt_trans before (first other deeper)
      next notBefore =>
        refine List.pairwise_cons.mpr ⟨?_, ih later⟩
        intro other member
        rcases mem_keep member with rfl | deeper
        · exact lt_of_le_of_ne (not_lt.mp notBefore) (Ne.symm apart)
        · exact first other deeper

theorem last_append_singleton (frames : Frames) (name frame other : String) :
    last (frames ++ [(name, frame)]) other = if name = other then some frame else last frames other := by
  simp only [last]
  rw [List.filter_append]
  by_cases same : name = other
  · subst same
    simp
  · simp [same]

/-- Where every channel is kept once, the last frame is the kept one. -/
theorem Sorted.last (sorted : frames.Sorted) (name : String) : last frames name = get name frames := by
  induction frames with
  | nil => rfl
  | cons kept rest ih =>
    obtain ⟨first, later⟩ := List.pairwise_cons.mp sorted
    simp only [get]
    split
    next here =>
      have none : rest.filter (·.1 = name) = [] := by
        rw [List.filter_eq_nil_iff]
        intro other member same
        have above := first other.1 (List.mem_map_of_mem member)
        rw [of_decide_eq_true same, here] at above
        exact lt_irrefl _ above
      rw [Frames.last, List.filter_cons_of_pos (by simp [here]), none]
      rfl
    next apart =>
      rw [← ih later, Frames.last, Frames.last, List.filter_cons_of_neg (by simp [apart])]

end Frames

/-! ### Pages and broadcasts -/

/-- A page's `RunSse` up to its registration: the frames copied, and those still to send. -/
inductive Handshake
  | none
  | replaying (copy left : Frames)
  | registered
  deriving DecidableEq

/-- A channel's broadcast: its frame kept, then sent to the sockets of the snapshot. -/
inductive Broadcast
  | idle
  | kept (frame : String)
  | sending (frame : String) (left : List Nat)

/-- `sent` is what has been written to each socket, in order. -/
structure Channels where
  replayFrames : Frames := []
  sockets : List Nat := []
  sent : Nat → Frames := fun _ => []
  handshake : Nat → Handshake := fun _ => .none
  broadcast : String → Broadcast := fun _ => .idle

inductive ChannelStep
  | copy (socket : Nat)
  | replay (socket : Nat)
  | register (socket : Nat)
  | keep (name frame : String)
  | snapshot (name : String)
  | send (name : String)
  | finish (name : String)

namespace Channels

def write (c : Channels) (socket : Nat) (name frame : String) : Nat → Frames :=
  Function.update c.sent socket (c.sent socket ++ [(name, frame)])

def step (c : Channels) : ChannelStep → Option Channels
  | .copy socket =>
    match c.handshake socket with
    | .none => some { c with handshake := Function.update c.handshake socket (.replaying c.replayFrames c.replayFrames) }
    | _ => none
  | .replay socket =>
    match c.handshake socket with
    | .replaying copy (next :: left) =>
      some { c with
        sent := c.write socket next.1 next.2
        handshake := Function.update c.handshake socket (.replaying copy left) }
    | _ => none
  | .register socket =>
    match c.handshake socket with
    | .replaying _ [] =>
      some { c with
        sockets := socket :: c.sockets
        handshake := Function.update c.handshake socket .registered }
    | _ => none
  | .keep name frame =>
    match c.broadcast name with
    | .idle =>
      some { c with
        replayFrames := c.replayFrames.keep name frame
        broadcast := Function.update c.broadcast name (.kept frame) }
    | _ => none
  | .snapshot name =>
    match c.broadcast name with
    | .kept frame => some { c with broadcast := Function.update c.broadcast name (.sending frame c.sockets) }
    | _ => none
  | .send name =>
    match c.broadcast name with
    | .sending frame (socket :: left) =>
      some { c with
        sent := c.write socket name frame
        broadcast := Function.update c.broadcast name (.sending frame left) }
    | _ => none
  | .finish name =>
    match c.broadcast name with
    | .sending _ [] => some { c with broadcast := Function.update c.broadcast name .idle }
    | _ => none

/-- No handshake and no broadcast is under way. -/
def Quiet (c : Channels) : Prop :=
  (∀ socket copy left, c.handshake socket ≠ .replaying copy left) ∧ ∀ name, c.broadcast name = .idle

/-- Every registered socket was last told, on every channel, the frame that is kept. -/
def Converged (c : Channels) : Prop :=
  ∀ socket ∈ c.sockets, ∀ name, (c.sent socket).last name = c.replayFrames.get name

/-- A page is registered while, on every channel, the frame it copied is still the kept one,
or the broadcast of a newer one has yet to take its snapshot. -/
def InTime (c : Channels) : ChannelStep → Prop
  | .register socket => ∀ copy left, c.handshake socket = .replaying copy left →
      ∀ name, copy.get name = c.replayFrames.get name ∨ ∃ frame, c.broadcast name = .kept frame
  | _ => True

/-! ### The invariant -/

/-- What a registered socket was last told on one channel. -/
def Told (c : Channels) (socket : Nat) (name : String) : Prop :=
  match c.broadcast name with
  | .idle => (c.sent socket).last name = c.replayFrames.get name
  | .kept _ => True
  | .sending frame left => socket ∈ left ∨ (c.sent socket).last name = some frame

structure Sound (c : Channels) : Prop where
  sorted : c.replayFrames.Sorted
  /-- What was sent to a page and what is still to be sent end with its copy. -/
  copied : ∀ socket copy left, c.handshake socket = .replaying copy left →
    socket ∉ c.sockets ∧ ∀ name, (c.sent socket ++ left : Frames).last name = copy.get name
  new : ∀ socket, c.handshake socket = .none → socket ∉ c.sockets ∧ c.sent socket = []
  told : ∀ socket ∈ c.sockets, ∀ name, c.Told socket name
  kept : ∀ name frame, c.broadcast name = .kept frame → c.replayFrames.get name = some frame
  sending : ∀ name frame left, c.broadcast name = .sending frame left →
    (∀ socket ∈ left, socket ∈ c.sockets) ∧ c.replayFrames.get name = some frame

theorem sound_empty : ({} : Channels).Sound :=
  ⟨List.Pairwise.nil, by simp, by simp, by simp, by simp, by simp⟩

theorem Sound.converged {c : Channels} (sound : c.Sound) (quiet : c.Quiet) : c.Converged := by
  intro socket member name
  have told := sound.told socket member name
  simp only [Told] at told
  rw [quiet.2 name] at told
  exact told

section

variable {c : Channels} (sound : c.Sound)

include sound

/-- A broadcast whose frame is now on its way leaves the frames of the others as they are. -/
theorem Sound.kept_of_update {name other frame : String} {next : Broadcast} (moved : ∀ frame, next ≠ .kept frame)
    (broadcast : Function.update c.broadcast name next other = .kept frame) : c.replayFrames.get other = some frame := by
  simp only [Function.update_apply] at broadcast
  split at broadcast
  · exact absurd broadcast (moved frame)
  · exact sound.kept other frame broadcast

/-- A page whose handshake has not begun is not the one that moves on. -/
theorem Sound.new_of_update {socket k : Nat} {next : Handshake} (moved : next ≠ .none)
    (handshake : Function.update c.handshake socket next k = .none) : k ≠ socket ∧ k ∉ c.sockets ∧ c.sent k = [] := by
  simp only [Function.update_apply] at handshake
  split at handshake
  · exact absurd handshake moved
  next apart => exact ⟨apart, sound.new k handshake⟩

variable {socket : Nat}

theorem Sound.copy (phase : c.handshake socket = .none) :
    Sound { c with handshake := Function.update c.handshake socket (.replaying c.replayFrames c.replayFrames) } := by
  obtain ⟨unregistered, silent⟩ := sound.new socket phase
  refine ⟨sound.sorted, ?_, ?_, sound.told, sound.kept, sound.sending⟩
  · intro k copy left handshake
    simp only [Function.update_apply] at handshake
    split at handshake
    next same =>
      cases handshake
      subst same
      refine ⟨unregistered, fun name => ?_⟩
      -- nothing was sent yet, and the copy is all there is to send
      rw [silent, List.nil_append]
      exact sound.sorted.last name
    · exact sound.copied k copy left handshake
  · intro k handshake
    exact (sound.new_of_update (by simp) handshake).2

theorem Sound.replay {copy left : Frames} {next : String × String} (phase : c.handshake socket = .replaying copy (next :: left)) :
    Sound { c with
      sent := c.write socket next.1 next.2
      handshake := Function.update c.handshake socket (.replaying copy left) } := by
  obtain ⟨unregistered, ends⟩ := sound.copied socket copy (next :: left) phase
  refine ⟨sound.sorted, ?_, ?_, ?_, sound.kept, sound.sending⟩
  · intro k copy' left' handshake
    simp only [Function.update_apply] at handshake
    split at handshake
    next same =>
      cases handshake
      subst same
      refine ⟨unregistered, fun name => ?_⟩
      simp only [write, Function.update_self, List.append_assoc]
      exact ends name
    next apart =>
      obtain ⟨out, theirs⟩ := sound.copied k copy' left' handshake
      refine ⟨out, fun name => ?_⟩
      simp only [write, Function.update_of_ne apart]
      exact theirs name
  · intro k handshake
    obtain ⟨apart, out, silent⟩ := sound.new_of_update (by simp) handshake
    simp only [write, Function.update_of_ne apart]
    exact ⟨out, silent⟩
  · intro k member name
    -- the page replayed to is not registered
    have apart : k ≠ socket := fun same => unregistered (same ▸ member)
    have told := sound.told k member name
    simp only [Told, write, Function.update_of_ne apart] at told ⊢
    exact told

theorem Sound.register {copy : Frames} (phase : c.handshake socket = .replaying copy []) (inTime : c.InTime (.register socket)) :
    Sound { c with
      sockets := socket :: c.sockets
      handshake := Function.update c.handshake socket .registered } := by
  obtain ⟨_, ends⟩ := sound.copied socket copy [] phase
  refine ⟨sound.sorted, ?_, ?_, ?_, sound.kept, ?_⟩
  · intro k copy' left handshake
    simp only [Function.update_apply] at handshake
    split at handshake
    · cases handshake
    next other =>
      obtain ⟨out, theirs⟩ := sound.copied k copy' left handshake
      exact ⟨fun member => (List.mem_cons.mp member).elim other out, theirs⟩
  · intro k handshake
    obtain ⟨other, out, silent⟩ := sound.new_of_update (by simp) handshake
    exact ⟨fun member => (List.mem_cons.mp member).elim other out, silent⟩
  · intro k member name
    rcases List.mem_cons.mp member with rfl | old
    · -- the page's own copy decides, unless a snapshot is still to come
      have told : (c.sent k).last name = copy.get name := by
        rw [← ends name, List.append_nil]
      rcases inTime copy [] phase name with same | ⟨frame, later⟩
      · cases broadcast : c.broadcast name with
        | idle => simp [Told, broadcast, told, same]
        | kept frame => simp [Told, broadcast]
        | sending frame left => simp [Told, broadcast, told, same, (sound.sending name frame left broadcast).2]
      · simp [Told, later]
    · exact sound.told k old name
  · intro name frame left broadcast
    obtain ⟨inside, same⟩ := sound.sending name frame left broadcast
    exact ⟨fun k member => List.mem_cons_of_mem _ (inside k member), same⟩

variable {name frame : String}

theorem Sound.keep :
    Sound { c with
      replayFrames := c.replayFrames.keep name frame
      broadcast := Function.update c.broadcast name (.kept frame) } := by
  refine ⟨sound.sorted.keep name frame, sound.copied, sound.new, ?_, ?_, ?_⟩
  · intro socket member other
    have told := sound.told socket member other
    simp only [Told] at told ⊢
    simp only [Function.update_apply, Frames.get_keep]
    by_cases same : other = name
    · simp [same]
    · simp only [if_neg same, if_neg (Ne.symm same)]
      exact told
  · intro other frame' broadcast
    simp only [Function.update_apply, Frames.get_keep] at broadcast ⊢
    split at broadcast
    next same =>
      cases broadcast
      simp [same]
    next apart =>
      rw [if_neg (Ne.symm apart)]
      exact sound.kept other frame' broadcast
  · intro other frame' left broadcast
    simp only [Function.update_apply, Frames.get_keep] at broadcast ⊢
    split at broadcast
    · cases broadcast
    next apart =>
      rw [if_neg (Ne.symm apart)]
      exact sound.sending other frame' left broadcast

/-- The broadcast on one channel goes on: what it owes is about that channel alone. -/
theorem Sound.broadcasts {next : Broadcast} (notKept : ∀ frame, next ≠ .kept frame)
    (told : ∀ socket ∈ c.sockets, Told { c with broadcast := Function.update c.broadcast name next } socket name)
    (sending : ∀ frame left, next = .sending frame left → (∀ k ∈ left, k ∈ c.sockets) ∧ c.replayFrames.get name = some frame) :
    Sound { c with broadcast := Function.update c.broadcast name next } := by
  refine ⟨sound.sorted, sound.copied, sound.new, ?_, fun other frame broadcast => sound.kept_of_update notKept broadcast, ?_⟩
  · intro socket member other
    by_cases same : other = name
    · exact same ▸ told socket member
    · have told := sound.told socket member other
      simp only [Told, Function.update_of_ne same] at told ⊢
      exact told
  · intro other frame left broadcast
    simp only [Function.update_apply] at broadcast
    split at broadcast
    next same => exact same ▸ sending frame left broadcast
    · exact sound.sending other frame left broadcast

theorem Sound.snapshot (phase : c.broadcast name = .kept frame) :
    Sound { c with broadcast := Function.update c.broadcast name (.sending frame c.sockets) } := by
  refine sound.broadcasts (by simp) (fun socket member => ?_) fun frame' left same => ?_
  · -- the snapshot is of every registered socket
    simp [Told, member]
  · cases same
    exact ⟨fun k member => member, sound.kept name frame phase⟩

theorem Sound.send {left : List Nat} (phase : c.broadcast name = .sending frame (socket :: left)) :
    Sound { c with
      sent := c.write socket name frame
      broadcast := Function.update c.broadcast name (.sending frame left) } := by
  obtain ⟨inside, kept⟩ := sound.sending name frame (socket :: left) phase
  -- a socket still to be sent to has been registered, so it is past its replay
  have registered : socket ∈ c.sockets := inside socket List.mem_cons_self
  refine ⟨sound.sorted, ?_, ?_, ?_, ?_, ?_⟩
  · intro k copy left' handshake
    obtain ⟨out, theirs⟩ := sound.copied k copy left' handshake
    have apart : k ≠ socket := fun same => out (same ▸ registered)
    refine ⟨out, fun name => ?_⟩
    simp only [write, Function.update_of_ne apart]
    exact theirs name
  · intro k handshake
    obtain ⟨out, silent⟩ := sound.new k handshake
    have apart : k ≠ socket := fun same => out (same ▸ registered)
    simp only [write, Function.update_of_ne apart]
    exact ⟨out, silent⟩
  · intro k member other
    have told := sound.told k member other
    simp only [Told] at told ⊢
    by_cases same : other = name
    · subst same
      simp only [phase] at told
      simp only [Function.update_self, write]
      -- the frame reaches this socket; the others of the snapshot still wait or have it
      by_cases here : k = socket
      · subst here
        right
        rw [Function.update_self, Frames.last_append_singleton, if_pos rfl]
      · rw [Function.update_of_ne here]
        exact told.imp_left fun queued => (List.mem_cons.mp queued).resolve_left here
    · simp only [Function.update_of_ne same, write]
      by_cases here : k = socket
      · subst here
        rw [Function.update_self, Frames.last_append_singleton, if_neg (Ne.symm same)]
        exact told
      · rw [Function.update_of_ne here]
        exact told
  · intro other frame' broadcast
    exact sound.kept_of_update (by simp) broadcast
  · intro other frame' left' broadcast
    simp only [Function.update_apply] at broadcast
    split at broadcast
    next same =>
      cases broadcast
      subst same
      exact ⟨fun k member => inside k (List.mem_cons_of_mem _ member), kept⟩
    · exact sound.sending other frame' left' broadcast

theorem Sound.finish (phase : c.broadcast name = .sending frame []) :
    Sound { c with broadcast := Function.update c.broadcast name .idle } := by
  refine sound.broadcasts (by simp) (fun socket member => ?_) (by simp)
  -- nobody is left, so each has been sent the frame that is kept
  have told := sound.told socket member name
  simp only [Told, phase, List.not_mem_nil, false_or] at told
  simp only [Told, Function.update_self]
  rw [told, (sound.sending name frame [] phase).2]

theorem Sound.step {c' : Channels} {i : ChannelStep} (inTime : c.InTime i) (step : c.step i = some c') : c'.Sound := by
  cases i <;> simp only [Channels.step] at step <;> split at step <;> cases step
  next phase => exact sound.copy phase
  next phase => exact sound.replay phase
  next phase => exact sound.register phase inTime
  next => exact sound.keep
  next phase => exact sound.snapshot phase
  next phase => exact sound.send phase
  next phase => exact sound.finish phase

end

/-! ### Whole runs -/

/-- In every run in which each page is registered in time, every state with no handshake and
no broadcast under way has converged. -/
theorem state_channels_converge {ms : List (Moment Channels ChannelStep)} {u : Channels}
    (run : Run (fun c i c' => c.step i = some c') {} ms u) (inTime : ∀ m ∈ ms, m.before.InTime m.input) :
    (u.Quiet → u.Converged) ∧ ∀ m ∈ ms, (m.before.Quiet → m.before.Converged) ∧ (m.after.Quiet → m.after.Converged) := by
  obtain ⟨last, each⟩ := Run.invariant (P := Sound) (Q := fun m => m.before.InTime m.input)
    (fun m inTime step sound => sound.step inTime step) run inTime sound_empty
  exact ⟨last.converged, fun m member => ⟨(each m member).1.converged, (each m member).2.converged⟩⟩

/-- A page registered with the very frames that are kept. -/
def upToDate (c : Channels) : ChannelStep → Bool
  | .register socket => c.handshake socket = .replaying c.replayFrames []
  | _ => true

theorem inTime_of_upToDate {c : Channels} {i : ChannelStep} (current : c.upToDate i = true) : c.InTime i := by
  cases i with
  | register socket =>
    intro copy left handshake name
    have same := of_decide_eq_true current
    rw [handshake] at same
    cases same
    exact .inl rfl
  | _ => trivial

/-- A page connects between two frames of the stream state. -/
theorem state_channels_converge_between_frames : ∃ (ms : List (Moment Channels ChannelStep)) (u : Channels),
    Run (fun c i c' => c.step i = some c') {} ms u ∧ (∀ m ∈ ms, m.before.InTime m.input) ∧
    u.sent 0 = [("stream", "live"), ("stream", "off")] ∧ (u.Quiet → u.Converged) := by
  obtain ⟨ms, u, run, shown⟩ := exists_run_of_follow step {}
    [.keep "stream" "live", .snapshot "stream", .finish "stream", .copy 0, .replay 0, .register 0,
      .keep "stream" "off", .snapshot "stream", .send "stream", .finish "stream"]
    (fun ms u => ms.all (fun m => m.before.upToDate m.input) && u.sent 0 = [("stream", "live"), ("stream", "off")])
    (by decide)
  rw [Bool.and_eq_true, List.all_eq_true] at shown
  have inTime : ∀ m ∈ ms, m.before.InTime m.input := fun m member => inTime_of_upToDate (shown.1 m member)
  exact ⟨ms, u, run, inTime, of_decide_eq_true shown.2, (state_channels_converge run inTime).1⟩

/-- A frame kept, snapshot and done between a page's copy and its registration never reaches
the page: it stays on the frame before. -/
theorem page_misses_frame_in_gap :
    ¬ ∀ (ms : List (Moment Channels ChannelStep)) (u : Channels),
      Run (fun c i c' => c.step i = some c') {} ms u → u.Quiet → u.Converged := by
  intro claimed
  have followed : follow step {}
      [.keep "stream" "live", .snapshot "stream", .finish "stream", .copy 0, .keep "stream" "off", .snapshot "stream",
        .finish "stream", .replay 0, .register 0] = some (_, _) := rfl
  have quiet := claimed _ _ (run_follow followed) ⟨fun socket copy left => ?_, fun name => ?_⟩
  · have stale := quiet 0 List.mem_cons_self "stream"
    revert stale
    decide
  · simp only [Function.update_apply]
    split
    · simp
    · simp
  · simp only [Function.update_apply]
    split <;> rfl

end Channels

end Braidcast.Overlay
