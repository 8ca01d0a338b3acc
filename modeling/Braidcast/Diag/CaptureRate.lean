import Mathlib.Data.Rat.Floor

/-!
# The capture rate tracker

`diag/capture_rate.cpp`: what the counters of each source say, sample after sample, and the lock of
a display capture on a fraction of the canvas rate. Doubles are rationals. `MatchFraction` is a
parameter, and a band is what it gives; the code's own is `matchFraction`. The line a session ends
with is left out.
-/
namespace Braidcast.Diag

inductive Kind
  | none
  | wgc
  | dxgi
  | async
  | browserPaint
  | gameHook
  deriving DecidableEq

structure Counts where
  kind : Kind := .none
  liveTicks : UInt32 := 0
  newFrameTicks : UInt32 := 0
  framesDelivered : UInt32 := 0
  /-- The presents of a game; the frames delivered are copies of them. -/
  framesOffered : UInt32 := 0

/-- One canvas root that reaches a source. -/
structure Reach where
  canvasFps : ℚ
  live : Bool

structure SourceInput where
  uuid : String
  name : String
  /-- Changes whenever the uuid names a different source object. -/
  identity : UInt64
  showing : Bool
  frameSignal : Bool
  unmeasurableNote : Option String
  counts : Counts
  reach : List Reach

structure SampleInput where
  dtSec : ℚ
  mainFps : ℚ
  sources : List SourceInput

inductive Status
  | ok
  | unmeasurable
  | idle
  deriving DecidableEq

/-- The seconds since the last reset. -/
structure Window where
  liveSec : ℚ := 0
  belowSec : ℚ := 0
  lockedSec : ℚ := 0

structure Row (β : Type) where
  uuid : String
  name : String
  kind : Kind
  status : Status
  refFps : Option ℚ
  rate : Option ℚ := none
  fraction : Option ℚ := none
  inputFps : Option ℚ := none
  renderedFps : Option ℚ := none
  copiesFps : Option ℚ := none
  below : Bool := false
  unmeasurableNote : Option String
  lockedFraction : Option β := none
  inGrace : Bool := false
  sinceReset : Window := {}

/-- The seconds spent at each rate, in tenths. -/
abbrev Histogram := Int → ℚ

structure Session (β : Type) where
  measuredAs : Kind := .none
  liveSec : ℚ := 0
  rate : Histogram := 0
  input : Histogram := 0
  copies : Histogram := 0
  ref : Histogram := 0
  lockedSec : β → ℚ := 0
  belowSec : ℚ := 0
  countedAs : Kind := .none
  everShowing : Bool := false
  everUnmeasurable : Bool := false

structure Entry (β : Type) where
  name : String := ""
  kind : Kind := .none
  identity : UInt64 := 0
  baselined : Bool := false
  /-- A live canvas reached it at the last sample. -/
  hadRef : Bool := false
  last : Counts := {}
  sinceBaselineSec : ℚ := 0
  streakFraction : Option β := none
  streakCount : Nat := 0
  lockedFraction : Option β := none
  exitCount : Nat := 0
  session : Session β := {}
  window : Window := {}

def kGraceSec : ℚ := 5
def kEnterSeconds : Nat := 10
def kExitSeconds : Nat := 5
def kMinLiveShare : ℚ := 1 / 2
def kMinLockRatio : ℚ := 1 / 5
def kBelowFactor : ℚ := 9 / 10
def kEpsilon : ℚ := 1 / 1000000000
def kMaxSampleGapSec : ℚ := 5 / 2

def kFractions : List (ℚ × String) := [(1 / 2, "1/2"), (1 / 3, "1/3"), (2 / 3, "2/3"), (1 / 4, "1/4"), (3 / 4, "3/4")]
def kFractionBand : ℚ := 1 / 25

/-- The code's `MatchFraction`: a place in `kFractions`. -/
def matchFraction (fraction : ℚ) : Option Nat := kFractions.findIdx? fun f => |fraction - f.1| ≤ kFractionBand

/-- Halves are rounded away from zero. -/
def lround (x : ℚ) : Int := if 0 ≤ x then ⌊x + 1 / 2⌋ else ⌈x - 1 / 2⌉

def bin (rate : ℚ) : Int := lround (rate * 10)

def Histogram.add (h : Histogram) (bin : Int) (sec : ℚ) : Histogram := Function.update h bin (h bin + sec)

def isDisplayRate (kind : Kind) : Bool := kind = .wgc || kind = .dxgi
def isChangeRate (kind : Kind) : Bool := isDisplayRate kind || kind = .browserPaint
def hasProducerRate (kind : Kind) : Bool := kind = .async || kind = .gameHook
def isMeasured (kind : Kind) : Bool := isChangeRate kind || hasProducerRate kind

def statusOf (src : SourceInput) : Status :=
  if !src.showing then .idle
  else if src.counts.kind = .none then if src.frameSignal then .idle else .unmeasurable
  else if isMeasured src.counts.kind then .ok else .unmeasurable

/-- The best rate among the live canvases that reach a source. -/
def refFps (reach : List Reach) (mainFps : ℚ) : Option ℚ :=
  reach.foldl (fun (ref : Option ℚ) (r : Reach) =>
    if !r.live || r.canvasFps ≤ 0 then ref
    else
      let bounded := min r.canvasFps mainFps
      match ref with
      | some ref => some (max ref bounded)
      | none => some bounded) none

variable {β : Type} [DecidableEq β] (MatchFraction : ℚ → Option β)

/-- What a row says of a source before any delta. -/
def rowOf (src : SourceInput) (mainFps : ℚ) : Row β where
  uuid := src.uuid
  name := src.name
  kind := src.counts.kind
  refFps := refFps src.reach mainFps
  status := statusOf src
  unmeasurableNote := if statusOf src = .unmeasurable then src.unmeasurableNote else none

/-- The deltas of the counters, which wrap, and what they are measured by. -/
structure Second where
  live : Nat
  new : Nat
  delivered : Nat
  offered : Nat
  mostlyLive : Bool
  expected : ℚ
  inGrace : Bool
  hasRef : Bool

namespace Second

variable (s : Second)

/-- Capped at what the canvas could show. -/
def shown : ℚ := min s.delivered s.expected

def fraction : Option ℚ := if s.hasRef && 0 < s.expected then some (s.shown / s.expected) else none

/-- Does it count for the lock? -/
def eligible : Bool := s.hasRef && !s.inGrace && s.mostlyLive && s.fraction.any (kMinLockRatio ≤ ·)

end Second

namespace Entry

variable (e : Entry β)

def clearLock : Entry β := { e with streakFraction := none, streakCount := 0, lockedFraction := none, exitCount := 0 }

def restartGrace : Entry β := { e with sinceBaselineSec := 0 }.clearLock

def rebaseline (src : SourceInput) (mainFps : ℚ) : Entry β :=
  { e with
    identity := src.identity
    kind := src.counts.kind
    last := src.counts
    baselined := true
    hadRef := (refFps src.reach mainFps).isSome }.restartGrace

/-- The first part of `UpdateLock`: how long the last seconds were in one band. -/
def trackStreak (f : Option β) : Entry β :=
  if f.isSome ∧ f = e.streakFraction then { e with streakCount := e.streakCount + 1 }
  else { e with streakFraction := f, streakCount := if f.isSome then 1 else 0 }

/-- The second part: a lock ends. -/
def leaveLock (f : Option β) : Entry β :=
  match e.lockedFraction with
  | some locked =>
    let exitCount := if f = some locked then 0 else e.exitCount + 1
    if kExitSeconds ≤ exitCount then { e with lockedFraction := none, exitCount := 0 } else { e with exitCount := exitCount }
  | none => e

/-- The last part: a lock is taken. -/
def enterLock : Entry β :=
  match e.lockedFraction, e.streakFraction with
  | none, some streak => if kEnterSeconds ≤ e.streakCount then { e with lockedFraction := some streak, exitCount := 0 } else e
  | _, _ => e

def updateLock (fraction : Option ℚ) (eligible : Bool) : Entry β :=
  match eligible, fraction with
  | true, some fraction =>
    let f := MatchFraction fraction
    ((e.trackStreak f).leaveLock f).enterLock
  | _, _ => e

def noteSession (inSession : Bool) (src : SourceInput) (status : Status) : Entry β :=
  if inSession then
    { e with session := { e.session with
      everShowing := e.session.everShowing || src.showing
      everUnmeasurable := e.session.everUnmeasurable || status = .unmeasurable
      countedAs := if status = .ok then src.counts.kind else e.session.countedAs } }
  else e

/-- A live canvas comes to reach the source. -/
def goesLive (ref : Option ℚ) : Bool := ref.isSome && !e.hadRef

/-- The last live canvas that reached it is gone. -/
def goesOffAir (ref : Option ℚ) : Bool := !ref.isSome && e.hadRef

/-- Going live runs the grace period again; going off air only ends the lock. -/
def meetRef (ref : Option ℚ) : Entry β :=
  let e := if e.goesLive ref then e.restartGrace else if e.goesOffAir ref then e.clearLock else e
  { e with hadRef := ref.isSome }

def second (src : SourceInput) (dt mainFps : ℚ) : Second :=
  let ref := refFps src.reach mainFps
  let live := (src.counts.liveTicks - e.last.liveTicks).toNat
  let loops := dt * mainFps
  { live := live
    new := (src.counts.newFrameTicks - e.last.newFrameTicks).toNat
    delivered := (src.counts.framesDelivered - e.last.framesDelivered).toNat
    offered := (src.counts.framesOffered - e.last.framesOffered).toNat
    mostlyLive := 0 < loops && kMinLiveShare * loops ≤ live
    -- without a main rate the quotient is no number, and `std::min` keeps its first argument
    expected := live * match ref with
      | some ref => if mainFps = 0 then 1 else min 1 (ref / mainFps)
      | none => 1
    inGrace := e.sinceBaselineSec + dt ≤ kGraceSec + kEpsilon
    hasRef := ref.isSome }

/-- The second is added to what was counted, of the window and of the session. -/
def tally (inSession : Bool) (r : Row β) (dt : ℚ) : Entry β :=
  let locked := if e.lockedFraction.isSome then dt else 0
  let below := if r.below then dt else 0
  let add (h : Histogram) (rate : Option ℚ) : Histogram := (rate.map fun rate => h.add (bin rate) dt).getD h
  let s := e.session
  { e with
    window := ⟨e.window.liveSec + dt, e.window.belowSec + below, e.window.lockedSec + locked⟩
    session :=
      if inSession then
        { s with
          measuredAs := r.kind
          liveSec := s.liveSec + dt
          rate := add s.rate (r.rate.or r.renderedFps)
          input := add s.input r.inputFps
          copies := add s.copies r.copiesFps
          ref := (r.refFps.map fun ref => s.ref.add (lround ref) dt).getD s.ref
          lockedSec := (e.lockedFraction.map fun f => Function.update s.lockedSec f (s.lockedSec f + dt)).getD s.lockedSec
          belowSec := s.belowSec + below }
      else s }

/-- What a second says, by the kind of the source. -/
def measure (s : Second) (r : Row β) (dt : ℚ) : Entry β × Row β :=
  if r.status = .ok && isChangeRate r.kind then
    let r := { r with rate := some (s.shown / dt) }
    -- the lock note is for display capture only; an overlay reports its rate
    if isDisplayRate r.kind then
      (e.updateLock MatchFraction s.fraction s.eligible, { r with fraction := s.fraction, inGrace := s.inGrace })
    else (e, r)
  else if r.status = .ok && hasProducerRate r.kind then
    let game := r.kind = .gameHook
    let input := if game then s.offered else s.delivered
    (e, { r with
      inputFps := some (input / dt)
      renderedFps := some (s.new / dt)
      copiesFps := if game then some (s.delivered / dt) else none
      below := s.hasRef && 0 < s.live && (s.new : ℚ) < kBelowFactor * min (input : ℚ) s.expected })
  else (e, r)

def evaluate (inSession : Bool) (src : SourceInput) (dt mainFps : ℚ) : Entry β × Row β :=
  let r : Row β := rowOf src mainFps
  let e := e.meetRef r.refFps
  let s := e.second src dt mainFps
  let (e, r) := { e with last := src.counts, sinceBaselineSec := e.sinceBaselineSec + dt }.measure MatchFraction s r dt
  let r := { r with lockedFraction := e.lockedFraction }
  let e := if r.status = .ok && s.mostlyLive then e.tally inSession r dt else e
  let e := e.noteSession inSession src r.status
  (e, { r with sinceReset := e.window })

/-- A new window starts, with no delta across it. -/
def restarts (i : SampleInput) (src : SourceInput) : Bool :=
  let gapOk := 0 < i.dtSec && i.dtSec ≤ kMaxSampleGapSec
  !e.baselined || !gapOk || e.identity ≠ src.identity || e.kind ≠ src.counts.kind

/-- What a sample makes of the source's entry, and its row. -/
def sample (inSession : Bool) (i : SampleInput) (src : SourceInput) : Entry β × Row β :=
  let e := { e with name := src.name }
  if e.restarts i src then
    let e := e.rebaseline src i.mainFps
    let r : Row β := rowOf src i.mainFps
    (e.noteSession inSession src r.status, { r with inGrace := isDisplayRate r.kind, sinceReset := e.window })
  else e.evaluate MatchFraction inSession src i.dtSec i.mainFps

end Entry

structure Tracker (β : Type) where
  entries : String → Option (Entry β)
  rows : List (Row β)
  inSession : Bool

namespace Tracker

def initial : Tracker β := ⟨fun _ => none, [], false⟩

variable (t : Tracker β)

def sampleSource (i : SampleInput) (src : SourceInput) : Tracker β :=
  let (e, r) := ((t.entries src.uuid).getD {}).sample MatchFraction t.inSession i src
  { t with entries := Function.update t.entries src.uuid (some e), rows := t.rows ++ [r] }

/-- The first source of a uuid counts. -/
def sampleSources (i : SampleInput) : List SourceInput → List String → Tracker β → Tracker β × List String
  | [], seen, t => (t, seen)
  | src :: sources, seen, t =>
    if src.uuid ∈ seen then sampleSources i sources seen t
    else sampleSources i sources (src.uuid :: seen) (t.sampleSource MatchFraction i src)

/-- A source that left keeps its entry while a session still needs its sums. -/
def sample (i : SampleInput) : Tracker β :=
  let (t, seen) := sampleSources MatchFraction i i.sources [] { t with rows := [] }
  { t with entries := fun uuid =>
      if uuid ∈ seen then t.entries uuid
      else if t.inSession then (t.entries uuid).map fun e => { e with baselined := false } else none }

def pause : Tracker β := { t with rows := [], entries := fun uuid => (t.entries uuid).map fun e => { e with baselined := false } }

def resetWindows : Tracker β :=
  { t with
    entries := fun uuid => (t.entries uuid).map fun e => { e with window := {} }
    rows := t.rows.map fun r => { r with sinceReset := {} } }

def sessionBegin : Tracker β :=
  if t.inSession then t
  else { t with inSession := true, entries := fun uuid => (t.entries uuid).map fun e => { e with session := {} } }

/-- Entries kept only for their sums are done with. -/
def sessionEnd : Tracker β :=
  if t.inSession then
    { t with
      inSession := false
      entries := fun uuid => ((t.entries uuid).map fun e => { e with session := {} }).filter fun e => e.baselined }
  else t

inductive Input
  | sample (i : SampleInput)
  | pause
  | resetWindows
  | sessionBegin
  | sessionEnd
  | clear

def react : Input → Tracker β
  | .sample i => t.sample MatchFraction i
  | .pause => t.pause
  | .resetWindows => t.resetWindows
  | .sessionBegin => t.sessionBegin
  | .sessionEnd => t.sessionEnd
  | .clear => initial

end Tracker

end Braidcast.Diag
