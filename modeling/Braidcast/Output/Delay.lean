import Braidcast.Lib.Run
import Braidcast.Lib.Lists

/-!
# The stream delay

`libobs/obs-output-delay.c`: encoder threads push what they are given into one queue and take
from its front what is old enough. Every thread measures with the reading of the clock it
began its call with, so the entry at the front may carry a later one.
-/
namespace Braidcast.Output

open Lib

variable {α τ : Type}

/-- `enum delay_msg`, with the packet and its timing where there is one. -/
inductive DelayMsg (α τ : Type)
  | packet (packet : α) (packetTime : Option τ)
  | start
  | stop

/-- `struct delay_data`. -/
structure DelayData (α τ : Type) where
  msg : DelayMsg α τ
  ts : UInt64

def DelayData.isPacket (dd : DelayData α τ) : Bool :=
  match dd.msg with
  | .packet .. => true
  | .start | .stop => false

/-- The fields of `struct obs_output` that the delay works with. -/
structure DelayOutput (α τ : Type) where
  delayData : List (DelayData α τ)
  activeDelayNs : UInt64
  delaySec : UInt32
  /-- `delay_cur_flags & OBS_OUTPUT_DELAY_PRESERVE`. -/
  preserve : Bool
  reconnecting : Bool
  delayRestartRefs : Nat
  delayActive : Bool
  delayCapturing : Bool

/-- What becomes of an entry that has left the queue. -/
inductive Handling
  | callback
  | release
  | actualStart
  | actualStop (ts : UInt64)
  /-- `obs_output_cleanup_delay` only drops an entry that is no packet. -/
  | dropped

namespace DelayOutput

variable (out : DelayOutput α τ)

def pushBack (dd : DelayData α τ) : DelayOutput α τ :=
  { out with delayData := out.delayData ++ [dd] }

def processDelayData (dd : DelayData α τ) : Handling :=
  match dd.msg with
  | .packet .. => if !out.delayActive || !out.delayCapturing then .release else .callback
  | .start => .actualStart
  | .stop => .actualStop dd.ts

/-- `pop_packet` up to the entry it goes on to process; the subtraction is the code's, in 64 bits. -/
def popPacket (t : UInt64) : DelayOutput α τ × Option (DelayData α τ) :=
  match out.delayData with
  | [] => (out, none)
  | dd :: rest =>
    let elapsedTime := t - dd.ts
    if out.preserve && out.reconnecting then ({ out with activeDelayNs := elapsedTime }, none)
    else if elapsedTime > out.activeDelayNs then ({ out with delayData := rest }, some dd)
    else (out, none)

def cleanupDelay : DelayOutput α τ :=
  { out with delayData := [], activeDelayNs := 0, delayRestartRefs := 0 }

/-- What `hook_data_capture` sets when the capture begins with a delay. -/
def hookDataCapture : DelayOutput α τ :=
  if out.delaySec = 0 then out
  else { out with activeDelayNs := out.delaySec.toUInt64 * 1000000000, delayActive := true }

variable {out} {t : UInt64} {dd : DelayData α τ}

/-- All that `pop_packet` can do outside a reconnect. -/
theorem popPacket_cases (steady : (out.preserve && out.reconnecting) = false) :
    out.popPacket t = (out, none) ∨
    ∃ dd rest, out.delayData = dd :: rest ∧ out.activeDelayNs < t - dd.ts ∧
      out.popPacket t = ({ out with delayData := rest }, some dd) := by
  unfold popPacket
  cases queue : out.delayData with
  | nil => exact .inl rfl
  | cons dd rest =>
    simp only [steady, Bool.false_eq_true, if_false]
    split
    next old => exact .inr ⟨dd, rest, rfl, old, rfl⟩
    next => exact .inl rfl

/-- In a reconnect too, `pop_packet` takes the front or nothing. -/
theorem popPacket_queue (out : DelayOutput α τ) (t : UInt64) :
    ((out.popPacket t).2 = none ∧ (out.popPacket t).1.delayData = out.delayData) ∨
    ∃ dd, (out.popPacket t).2 = some dd ∧ out.delayData = dd :: (out.popPacket t).1.delayData := by
  unfold popPacket
  cases queue : out.delayData with
  | nil => exact .inl ⟨rfl, queue⟩
  | cons dd rest =>
    dsimp only
    split
    next => exact .inl ⟨rfl, rfl⟩
    next =>
      split
      next => exact .inr ⟨dd, rfl, rfl⟩
      next => exact .inl ⟨rfl, queue⟩

theorem processDelayData_packet (carries : dd.isPacket = true) :
    out.processDelayData dd = .callback ∨ out.processDelayData dd = .release := by
  unfold processDelayData
  cases kind : dd.msg with
  | packet =>
    dsimp only
    split
    · exact .inr rfl
    · exact .inl rfl
  | start | stop => simp [DelayData.isPacket, kind] at carries

end DelayOutput

/-- What `obs_output_cleanup_delay` does with an entry it takes out. -/
def DelayData.sweep (dd : DelayData α τ) : Handling :=
  if dd.isPacket then .release else .dropped

/-- Where a thread stands between two of its calls into the delay, or in one of them. -/
inductive DelayPhase (α τ : Type)
  | idle
  /-- `process_delay` has read the clock and has not pushed yet. -/
  | stamped (packet : α) (packetTime : Option τ) (t : UInt64)
  | popping (t : UInt64)
  | holding (t : UInt64) (dd : DelayData α τ)
  /-- `obs_output_delay_start` has stamped its entry, and then has pushed it. -/
  | starting (ts : UInt64)
  | started
  | stopping (ts : UInt64)

def DelayPhase.held : DelayPhase α τ → List (DelayData α τ)
  | .holding _ dd => [dd]
  | _ => []

/-- An entry that left the queue, with the reading it was measured against; none where a
clean-up emptied the queue. -/
structure Departure (α τ : Type) where
  entry : DelayData α τ
  reading : Option UInt64

/-- The output, its threads and the clock, with the record of what entered the queue, left it
and was handled. -/
structure DelayWorld (α τ : Type) where
  out : DelayOutput α τ
  threads : List (DelayPhase α τ)
  clock : UInt64
  entered : List (DelayData α τ)
  left : List (Departure α τ)
  handled : List (DelayData α τ × Handling)

inductive DelayAct (α τ : Type)
  | tick (t : UInt64)
  | call (i : Nat) (packet : α) (packetTime : Option τ)
  | push (i : Nat)
  | pop (i : Nat)
  | process (i : Nat)
  | callStart (i : Nat)
  | refuse (i : Nat)
  | pushStart (i : Nat)
  | resume (i : Nat)
  | begin (i : Nat) (begun : Bool)
  | callStop (i : Nat)
  | pushStop (i : Nat)
  | cleanup
  | flags (active capturing : Bool)
  | reconnect (on : Bool)

/-- The act empties the queue. -/
def DelayAct.cleansUp : DelayAct α τ → Bool
  | .cleanup | .begin _ false => true
  | _ => false

namespace DelayWorld

variable (w : DelayWorld α τ)

def goto (i : Nat) (phase : DelayPhase α τ) : DelayWorld α τ :=
  { w with threads := w.threads.set i phase }

def enter (dd : DelayData α τ) : DelayWorld α τ :=
  { w with out := w.out.pushBack dd, entered := w.entered ++ [dd] }

def takeFront (i : Nat) (t : UInt64) : DelayWorld α τ :=
  match w.out.popPacket t with
  | (out, some dd) =>
    { w with out, left := w.left ++ [⟨dd, some t⟩], threads := w.threads.set i (.holding t dd) }
  | (out, none) => { w with out, threads := w.threads.set i .idle }

def cleanupDelay : DelayWorld α τ :=
  { w with
    out := w.out.cleanupDelay
    left := w.left ++ w.out.delayData.map (Departure.mk · none)
    handled := w.handled ++ w.out.delayData.map fun dd => (dd, dd.sweep) }

/-- What the threads hold between taking an entry and handling it. -/
def held : List (DelayData α τ) :=
  w.threads.flatMap DelayPhase.held

end DelayWorld

/-- One atomic step. The flags and the reconnecting state are set by the capture code around the
delay, at any time. -/
inductive DelayStep : DelayWorld α τ → DelayAct α τ → DelayWorld α τ → Prop
  | tick {w t} : w.clock ≤ t → DelayStep w (.tick t) { w with clock := t }
  | call {w i packet packetTime} : w.threads[i]? = some .idle →
      DelayStep w (.call i packet packetTime) (w.goto i (.stamped packet packetTime w.clock))
  | push {w i packet packetTime t} : w.threads[i]? = some (.stamped packet packetTime t) →
      DelayStep w (.push i) ((w.enter ⟨.packet packet packetTime, t⟩).goto i (.popping t))
  | pop {w i t} : w.threads[i]? = some (.popping t) → DelayStep w (.pop i) (w.takeFront i t)
  | process {w i t dd} : w.threads[i]? = some (.holding t dd) →
      DelayStep w (.process i)
        ({ w with handled := w.handled ++ [(dd, w.out.processDelayData dd)] }.goto i (.popping t))
  | callStart {w i} : w.threads[i]? = some .idle → DelayStep w (.callStart i) (w.goto i (.starting w.clock))
  -- `obs_output_can_begin_data_capture` or `obs_output_initialize_encoders` failed
  | refuse {w i ts} : w.threads[i]? = some (.starting ts) → w.out.delayActive = false →
      DelayStep w (.refuse i) (w.goto i .idle)
  | pushStart {w i ts} : w.threads[i]? = some (.starting ts) →
      DelayStep w (.pushStart i)
        ({ w.enter ⟨.start, ts⟩ with
            out := { w.out.pushBack ⟨.start, ts⟩ with delayRestartRefs := w.out.delayRestartRefs + 1 } }.goto i .started)
  | resume {w i} : w.threads[i]? = some .started → w.out.delayActive = true → DelayStep w (.resume i) (w.goto i .idle)
  | begin {w i} : w.threads[i]? = some .started → w.out.delayActive = false →
      DelayStep w (.begin i true) ({ w with out := w.out.hookDataCapture }.goto i .idle)
  | fail {w i} : w.threads[i]? = some .started → w.out.delayActive = false →
      DelayStep w (.begin i false) (w.cleanupDelay.goto i .idle)
  | callStop {w i} : w.threads[i]? = some .idle → DelayStep w (.callStop i) (w.goto i (.stopping w.clock))
  | pushStop {w i ts} : w.threads[i]? = some (.stopping ts) →
      DelayStep w (.pushStop i) ((w.enter ⟨.stop, ts⟩).goto i .idle)
  | cleanup {w} : DelayStep w .cleanup w.cleanupDelay
  | flags {w active capturing} : DelayStep w (.flags active capturing)
      { w with out := { w.out with delayActive := active, delayCapturing := capturing } }
  | reconnect {w on} : DelayStep w (.reconnect on) { w with out := { w.out with reconnecting := on } }

namespace DelayWorld

variable {w w' : DelayWorld α τ} {i : Nat} {phase : DelayPhase α τ} {act : DelayAct α τ}

/-- Nothing has entered the queue yet, and no thread is inside a call. -/
structure Fresh (w : DelayWorld α τ) : Prop where
  queue : w.out.delayData = []
  entered : w.entered = []
  left : w.left = []
  handled : w.handled = []
  idle : ∀ phase ∈ w.threads, phase = .idle

/-- The queue is first in first out, and what has left it is handled once or in one thread's hand. -/
structure Kept (w : DelayWorld α τ) : Prop where
  order : w.left.map Departure.entry ++ w.out.delayData = w.entered
  once : (w.left.map Departure.entry).Perm (w.handled.map Prod.fst ++ w.held)
  fates : ∀ h ∈ w.handled, h.1.isPacket = true → h.2 = .callback ∨ h.2 = .release

theorem held_goto (there : w.threads[i]? = some phase) (next : DelayPhase α τ) :
    ((w.goto i next).held ++ phase.held).Perm (w.held ++ next.held) :=
  perm_flatMap_set next there

theorem held_quiet {next : DelayPhase α τ} (there : w.threads[i]? = some phase) (empty : phase.held = [])
    (quiet : next.held = []) : (w.goto i next).held.Perm w.held := by
  have moved := held_goto there next
  rwa [empty, quiet, List.append_nil, List.append_nil] at moved

theorem Fresh.kept (fresh : w.Fresh) : w.Kept := by
  have held : w.held = [] := by
    rw [DelayWorld.held, List.flatMap_eq_nil_iff]
    intro phase member
    rw [fresh.idle phase member]
    rfl
  constructor
  · rw [fresh.left, fresh.queue, fresh.entered]
    rfl
  · rw [fresh.left, fresh.handled, held]
    exact List.Perm.nil
  · rw [fresh.handled]
    exact fun h member => absurd member List.not_mem_nil

namespace Kept

section

variable (kept : w.Kept)
include kept

/-- A thread's move between two phases that hold nothing. -/
theorem goto {next : DelayPhase α τ} (there : w.threads[i]? = some phase) (empty : phase.held = [])
    (quiet : next.held = []) : (w.goto i next).Kept :=
  ⟨kept.order, kept.once.trans ((held_quiet there empty quiet).symm.append_left _), kept.fates⟩

theorem enter (dd : DelayData α τ) : (w.enter dd).Kept := by
  refine ⟨?_, kept.once, kept.fates⟩
  change w.left.map Departure.entry ++ (w.out.delayData ++ [dd]) = w.entered ++ [dd]
  rw [← List.append_assoc, kept.order]

/-- A change of the output that leaves its queue alone. -/
theorem output {out : DelayOutput α τ} (same : out.delayData = w.out.delayData) :
    ({ w with out } : DelayWorld α τ).Kept :=
  ⟨by rw [same]; exact kept.order, kept.once, kept.fates⟩

theorem takeFront {t : UInt64} (there : w.threads[i]? = some (.popping t)) : (w.takeFront i t).Kept := by
  unfold DelayWorld.takeFront
  have taken := w.out.popPacket_queue t
  cases popped : w.out.popPacket t with
  | mk out front =>
    rw [popped] at taken
    cases front with
    | none =>
      obtain ⟨-, same⟩ | ⟨dd, none, -⟩ := taken
      · exact (kept.output same).goto there rfl rfl
      · cases none
    | some dd =>
      obtain ⟨none, -⟩ | ⟨other, same, front⟩ := taken
      · cases none
      · cases same
        dsimp only at front
        have moved := held_goto there (.holding t dd)
        change ((w.goto i (.holding t dd)).held ++ []).Perm (w.held ++ [dd]) at moved
        rw [List.append_nil] at moved
        refine ⟨?_, ?_, kept.fates⟩
        · change (w.left ++ [Departure.mk dd (some t)]).map Departure.entry ++ out.delayData = w.entered
          rw [← kept.order, front]
          simp
        · change ((w.left ++ [Departure.mk dd (some t)]).map Departure.entry).Perm (w.handled.map Prod.fst ++ (w.goto i (.holding t dd)).held)
          rw [List.map_append]
          refine (kept.once.append_right _).trans ?_
          rw [List.append_assoc]
          exact moved.symm.append_left _

theorem process {t : UInt64} {dd : DelayData α τ} (there : w.threads[i]? = some (.holding t dd)) :
    ({ w with handled := w.handled ++ [(dd, w.out.processDelayData dd)] }.goto i (.popping t)).Kept := by
  have moved := held_goto there (.popping t)
  change ((w.goto i (.popping t)).held ++ [dd]).Perm (w.held ++ []) at moved
  rw [List.append_nil] at moved
  refine ⟨kept.order, ?_, ?_⟩
  · change (w.left.map Departure.entry).Perm
      ((w.handled ++ [(dd, w.out.processDelayData dd)]).map Prod.fst ++ (w.goto i (.popping t)).held)
    rw [List.map_append, List.append_assoc]
    exact kept.once.trans ((moved.symm.trans List.perm_append_comm).append_left _)
  · intro h member carries
    rcases List.mem_append.mp member with old | new
    · exact kept.fates h old carries
    · rw [List.mem_singleton.mp new] at carries ⊢
      exact DelayOutput.processDelayData_packet carries

theorem cleanupDelay : w.cleanupDelay.Kept := by
  refine ⟨?_, ?_, ?_⟩
  · change (w.left ++ w.out.delayData.map (Departure.mk · none)).map Departure.entry ++ [] = w.entered
    rw [← kept.order]
    simp [Function.comp_def]
  · change ((w.left ++ w.out.delayData.map (Departure.mk · none)).map Departure.entry).Perm
      ((w.handled ++ w.out.delayData.map fun dd => (dd, dd.sweep)).map Prod.fst ++ w.held)
    simp only [List.map_append, List.map_map, Function.comp_def, List.map_id', List.append_assoc]
    refine (kept.once.append_right _).trans ?_
    rw [List.append_assoc]
    exact List.perm_append_comm.append_left _
  · intro h member carries
    rcases List.mem_append.mp member with old | new
    · exact kept.fates h old carries
    · obtain ⟨dd, -, rfl⟩ := List.mem_map.mp new
      exact .inr (if_pos carries)

theorem step (taken : DelayStep w act w') : w'.Kept := by
  cases taken with
  | tick => exact ⟨kept.order, kept.once, kept.fates⟩
  | call there => exact kept.goto there rfl rfl
  | push there => exact (kept.enter _).goto there rfl rfl
  | pop there => exact kept.takeFront there
  | process there => exact kept.process there
  | callStart there => exact kept.goto there rfl rfl
  | refuse there => exact kept.goto there rfl rfl
  | @pushStart _ ts there =>
    have counted : ({ w.enter ⟨.start, ts⟩ with
        out := { w.out.pushBack ⟨.start, ts⟩ with delayRestartRefs := w.out.delayRestartRefs + 1 } } : DelayWorld α τ).Kept :=
      (kept.enter _).output rfl
    exact counted.goto there rfl rfl
  | resume there => exact kept.goto there rfl rfl
  | begin there =>
    refine (kept.output ?_).goto there rfl rfl
    unfold DelayOutput.hookDataCapture
    split <;> rfl
  | fail there => exact kept.cleanupDelay.goto there rfl rfl
  | callStop there => exact kept.goto there rfl rfl
  | pushStop there => exact (kept.enter _).goto there rfl rfl
  | cleanup => exact kept.cleanupDelay
  | flags | reconnect => exact kept.output rfl

end

end Kept

/-- What left the queue by `pop_packet` was measured old enough. -/
def Timely (delay : UInt64) (w : DelayWorld α τ) : Prop :=
  ∀ d ∈ w.left, ∀ t, d.reading = some t → d.entry.ts.toNat + delay.toNat < t.toNat

/-- What left the queue did so by `pop_packet`. -/
def Popped (w : DelayWorld α τ) : Prop :=
  ∀ d ∈ w.left, d.reading.isSome = true

end DelayWorld

namespace DelayWorld

/-- `active_delay_ns` stands at `delay` where an entry is measured, and no reconnect is on. -/
def Fixed (delay : UInt64) (m : Moment (DelayWorld α τ) (DelayAct α τ)) : Prop :=
  match m.input with
  | .pop _ => m.before.out.activeDelayNs = delay ∧ m.before.out.reconnecting = false
  | _ => True

/-- A thread that pops began its call no earlier than the entry at the front was stamped. -/
def NotBehind (m : Moment (DelayWorld α τ) (DelayAct α τ)) : Prop :=
  match m.input with
  | .pop i => ∀ t, m.before.threads[i]? = some (.popping t) → ∀ dd ∈ m.before.out.delayData.head?, dd.ts ≤ t
  | _ => True

variable {w w' : DelayWorld α τ} {act : DelayAct α τ} {delay : UInt64}

/-- The measured age is the real one when the reading is not behind the stamp. -/
theorem measured {ts t : UInt64} (ahead : ts ≤ t) (old : delay < t - ts) : ts.toNat + delay.toNat < t.toNat := by
  have older : delay.toNat < (t - ts).toNat := UInt64.lt_iff_toNat_lt.mp old
  rw [UInt64.toNat_sub_of_le _ _ ahead] at older
  omega

/-- A reading behind the stamp wraps around, and the entry counts as old whatever its age. -/
theorem measured_behind {ts t : UInt64} (behind : t < ts) (short : ts.toNat - t.toNat + delay.toNat < 2 ^ 64) :
    delay < t - ts := by
  have later : t.toNat < ts.toNat := UInt64.lt_iff_toNat_lt.mp behind
  rw [UInt64.lt_iff_toNat_lt, UInt64.toNat_sub]
  have bound := ts.toNat_lt
  omega

theorem Timely.takeFront {i : Nat} {t : UInt64} (timely : w.Timely delay)
    (fixed : w.out.activeDelayNs = delay ∧ w.out.reconnecting = false)
    (ahead : ∀ dd ∈ w.out.delayData.head?, dd.ts ≤ t) : (w.takeFront i t).Timely delay := by
  have steady : (w.out.preserve && w.out.reconnecting) = false := by simp [fixed.2]
  unfold DelayWorld.takeFront
  obtain none | ⟨dd, rest, front, old, some⟩ := w.out.popPacket_cases (t := t) steady
  · rw [none]
    exact timely
  · rw [some]
    intro d member reading same
    rcases List.mem_append.mp member with before | new
    · exact timely d before reading same
    · rw [List.mem_singleton.mp new] at same ⊢
      cases same
      rw [fixed.1] at old
      exact measured (ahead dd (by rw [front]; rfl)) old

theorem Timely.cleanupDelay (timely : w.Timely delay) : w.cleanupDelay.Timely delay := by
  intro d member reading same
  rcases List.mem_append.mp member with before | swept
  · exact timely d before reading same
  · obtain ⟨dd, -, rfl⟩ := List.mem_map.mp swept
    cases same

theorem Timely.step (timely : w.Timely delay) (fixed : Fixed delay ⟨w, act, w'⟩) (ahead : NotBehind ⟨w, act, w'⟩)
    (taken : DelayStep w act w') : w'.Timely delay := by
  cases taken with
  | pop there => exact timely.takeFront fixed (ahead _ there)
  | fail | cleanup => exact timely.cleanupDelay
  | tick | call | push | process | callStart | refuse | pushStart | resume | begin | callStop | pushStop | flags
  | reconnect => exact timely

/-- Only a clean-up takes an entry out without measuring it. -/
theorem Popped.step (popped : w.Popped) (taken : DelayStep w act w') : w'.Popped ∨ act.cleansUp = true := by
  cases taken with
  | @pop i t there =>
    refine .inl ?_
    unfold DelayWorld.takeFront
    split
    · intro d member
      rcases List.mem_append.mp member with before | new
      · exact popped d before
      · rw [List.mem_singleton.mp new]
        rfl
    · exact popped
  | fail | cleanup => exact .inr rfl
  | tick | call | push | process | callStart | refuse | pushStart | resume | begin | callStop | pushStop | flags
  | reconnect => exact .inl popped

/-- The delay is honoured: the queue is first in first out, an entry leaves it at a reading more
than the delay after its stamp, or by a clean-up, and every packet is processed or released once. -/
structure Honoured (delay : UInt64) (ms : List (Moment (DelayWorld α τ) (DelayAct α τ))) (w : DelayWorld α τ) : Prop where
  kept : w.Kept
  late : ∀ d ∈ w.left, (∃ t, d.reading = some t ∧ d.entry.ts.toNat + delay.toNat < t.toNat) ∨
    d.reading = none ∧ ∃ m ∈ ms, m.input.cleansUp = true

theorem delay_honoured {w₀ : DelayWorld α τ} {ms : List (Moment (DelayWorld α τ) (DelayAct α τ))}
    (run : Run DelayStep w₀ ms w) (fresh : w₀.Fresh) (fixed : ∀ m ∈ ms, Fixed delay m) (ahead : ∀ m ∈ ms, NotBehind m) :
    w.Honoured delay ms := by
  have kept : w.Kept := run.always (fun _ _ _ taken kept => kept.step taken) fresh.kept
  have none : ∀ d, d ∉ w₀.left := by simp [fresh.left]
  have timely : w.Timely delay :=
    (run.invariant (P := Timely delay) (Q := fun m => Fixed delay m ∧ NotBehind m)
      (fun _ ok taken timely => timely.step ok.1 ok.2 taken)
      (fun m member => ⟨fixed m member, ahead m member⟩) fun d member => absurd member (none d)).1
  have popped : w.Popped ∨ ∃ m ∈ ms, m.input.cleansUp = true :=
    run.persists (P := Popped)
      (fun _ (_ : True) taken popped => popped.step taken) (fun _ _ => trivial) fun d member => absurd member (none d)
  refine ⟨kept, fun d member => ?_⟩
  cases reading : d.reading with
  | some t => exact .inl ⟨t, rfl, timely d member t reading⟩
  | none =>
    rcases popped with popped | cleaned
    · have measured := popped d member
      rw [reading] at measured
      cases measured
    · exact .inr ⟨rfl, cleaned⟩

/-- Two threads of one output with a delay of 5 ns. -/
def twoThreads : DelayWorld Nat Unit where
  out := ⟨[], 5, 0, false, false, 0, true, true⟩
  threads := [.idle, .idle]
  clock := 100
  entered := []
  left := []
  handled := []

theorem twoThreads_fresh : twoThreads.Fresh :=
  ⟨rfl, rfl, rfl, rfl, by simp [twoThreads]⟩

/-- The first thread reads the clock at 100, the second pushes an entry stamped 101, and the first
takes it out. -/
theorem not_delay_honoured : ¬ ∀ (w₀ : DelayWorld Nat Unit) ms w delay, Run DelayStep w₀ ms w → w₀.Fresh →
    (∀ m ∈ ms, Fixed delay m) → w.Honoured delay ms := by
  intro always
  have run : Run DelayStep twoThreads _ _ :=
    .cons (.call rfl : DelayStep _ (.call 0 7 none) _) <|
    .cons (.tick (by decide) : DelayStep _ (.tick 101) _) <|
    .cons (.call rfl : DelayStep _ (.call 1 8 none) _) <|
    .cons (.push rfl : DelayStep _ (.push 1) _) <|
    .cons (.push rfl : DelayStep _ (.push 0) _) <|
    .cons (.pop rfl : DelayStep _ (.pop 0) _) <| .nil _
  have honoured := always _ _ _ 5 run twoThreads_fresh (by simp [Fixed, twoThreads, goto, enter, DelayOutput.pushBack])
  rcases honoured.late ⟨⟨.packet 8 none, 101⟩, some 100⟩ (List.mem_singleton.mpr rfl) with ⟨t, reading, late⟩ | ⟨none, -⟩
  · cases reading
    exact absurd late (by decide)
  · cases none

/-- A thread alone: what it took was stamped 100 and measured at 106. -/
theorem delay_honoured_alone : ∃ ms w, Run DelayStep twoThreads ms w ∧ w.Honoured 5 ms ∧ w.left.length = 1 := by
  have run : Run DelayStep twoThreads _ _ :=
    .cons (.call rfl : DelayStep _ (.call 0 7 none) _) <|
    .cons (.push rfl : DelayStep _ (.push 0) _) <|
    .cons (.pop rfl : DelayStep _ (.pop 0) _) <|
    .cons (.tick (by decide) : DelayStep _ (.tick 106) _) <|
    .cons (.call rfl : DelayStep _ (.call 0 8 none) _) <|
    .cons (.push rfl : DelayStep _ (.push 0) _) <|
    .cons (.pop rfl : DelayStep _ (.pop 0) _) <| .nil _
  refine ⟨_, _, run, delay_honoured run twoThreads_fresh ?_ ?_, rfl⟩
  · simp [Fixed, twoThreads, goto, enter, DelayOutput.pushBack, takeFront, DelayOutput.popPacket]
  · simp [NotBehind, twoThreads, goto, enter, DelayOutput.pushBack, takeFront, DelayOutput.popPacket]

end DelayWorld

end Braidcast.Output
