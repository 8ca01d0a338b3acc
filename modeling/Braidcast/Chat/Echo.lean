import Braidcast.Lib.Lists

/-!
# Local echoes of sent Twitch lines

A send hands its echo to the queue before its `PRIVMSG` is written; the read worker takes
it from there when the `USERSTATE` with its nonce arrives, when it waited too long or when
the socket goes. Every send runs on a worker of its own, so the steps of any number of
sends and of the read worker interleave freely.
-/
namespace Braidcast.Chat

open Lib

/-! ### The queue -/

/-- The frame a send shows, with the message's id where Twitch has told it. -/
structure Echo (φ : Type) where
  frame : φ
  id : Option String := none

namespace TwitchEchoQueue

structure Pending (φ : Type) where
  nonce : String
  echo : Echo φ
  sent : Bool := false
  deadlineMs : Int := 0

def kMaxPending : Nat := 32

end TwitchEchoQueue

structure TwitchEchoQueue (φ : Type) where
  pending : List (TwitchEchoQueue.Pending φ) := []
  nonceMissing : Bool := false

namespace TwitchEchoQueue

variable {φ : Type}

/-- Nothing where the queue leaves the echo with the caller. -/
def stage (q : TwitchEchoQueue φ) (nonce : String) (echo : Echo φ) : Option (TwitchEchoQueue φ) :=
  if q.nonceMissing || kMaxPending ≤ q.pending.length then
    none
  else
    some { q with pending := q.pending ++ [{ nonce, echo }] }

def setSent (nonce : String) (deadlineMs : Int) : List (Pending φ) → List (Pending φ)
  | [] => []
  | p :: ps => if p.nonce = nonce then { p with sent := true, deadlineMs } :: ps else p :: setSent nonce deadlineMs ps

/-- The echo comes back where it must go out now. -/
def markSent (q : TwitchEchoQueue φ) (nonce : String) (deadlineMs : Int) : TwitchEchoQueue φ × Option (Echo φ) :=
  match q.pending.find? (·.nonce = nonce) with
  | none => (q, none)
  | some p =>
    -- this connection sends no nonces back, so nothing would claim the echo
    if q.nonceMissing then
      ({ q with pending := q.pending.eraseP (·.nonce = nonce) }, some p.echo)
    else
      ({ q with pending := setSent nonce deadlineMs q.pending }, none)

def drop (q : TwitchEchoQueue φ) (nonce : String) : TwitchEchoQueue φ :=
  { q with pending := q.pending.filter (·.nonce ≠ nonce) }

def resolve (q : TwitchEchoQueue φ) (nonce id : String) : TwitchEchoQueue φ × Option (Echo φ) :=
  match q.pending.find? (·.nonce = nonce) with
  | none => (q, none)
  | some p =>
    ({ q with pending := q.pending.eraseP (·.nonce = nonce) },
      some (if id = "" then p.echo else { p.echo with id := some id }))

/-- `TakeSentLocked`: the sent entries picked, and the queue without them. -/
def takeSentLocked (q : TwitchEchoQueue φ) (take : Pending φ → Bool) : TwitchEchoQueue φ × List (Pending φ) :=
  ({ q with pending := q.pending.filter fun p => !(p.sent && take p) }, q.pending.filter fun p => p.sent && take p)

def takeNonceMissing (q : TwitchEchoQueue φ) : TwitchEchoQueue φ × List (Pending φ) :=
  takeSentLocked { q with nonceMissing := true } fun _ => true

def newConnection (q : TwitchEchoQueue φ) : TwitchEchoQueue φ :=
  { q with nonceMissing := false }

def takeExpired (q : TwitchEchoQueue φ) (nowMs : Int) : TwitchEchoQueue φ × List (Pending φ) :=
  takeSentLocked q fun p => p.deadlineMs ≤ nowMs

def takeSent (q : TwitchEchoQueue φ) : TwitchEchoQueue φ × List (Pending φ) :=
  takeSentLocked q fun _ => true

def nonces (q : TwitchEchoQueue φ) : List String :=
  q.pending.map (·.nonce)

/-! ### What each call moves -/

variable {nonce : String}

theorem nonces_stage {q q' : TwitchEchoQueue φ} {echo : Echo φ} (staged : q.stage nonce echo = some q') :
    q'.nonces = q.nonces ++ [nonce] := by
  simp only [stage] at staged
  split at staged
  · cases staged
  · cases staged
    simp [nonces]

theorem nonces_setSent (nonce : String) (deadlineMs : Int) (ps : List (Pending φ)) :
    (setSent nonce deadlineMs ps).map (·.nonce) = ps.map (·.nonce) := by
  induction ps with
  | nil => rfl
  | cons p ps ih =>
    simp only [setSent]
    split
    · rfl
    · rw [List.map_cons, ih, List.map_cons]

theorem mem_setSent {deadlineMs : Int} {ps : List (Pending φ)} {p : Pending φ}
    (member : p ∈ setSent nonce deadlineMs ps) : p ∈ ps ∨ p.nonce = nonce := by
  induction ps with
  | nil => cases member
  | cons q ps ih =>
    simp only [setSent] at member
    split at member
    next here =>
      rcases List.mem_cons.mp member with rfl | later
      · exact .inr here
      · exact .inl (List.mem_cons_of_mem _ later)
    · rcases List.mem_cons.mp member with rfl | later
      · exact .inl List.mem_cons_self
      · exact (ih later).imp_left (List.mem_cons_of_mem _)

/-- The first entry under a nonce, taken out. -/
theorem nonces_eraseP {ps : List (Pending φ)} {p : Pending φ} (found : ps.find? (·.nonce = nonce) = some p) :
    (ps.map (·.nonce)).Perm (nonce :: (ps.eraseP (·.nonce = nonce)).map (·.nonce)) := by
  have named : p.nonce = nonce := by simpa using List.find?_some found
  have perm := (perm_cons_eraseP found).map (·.nonce)
  rwa [List.map_cons, named] at perm

theorem nonces_filter (take : Pending φ → Bool) (ps : List (Pending φ)) :
    (ps.map (·.nonce)).Perm ((ps.filter fun p => !take p).map (·.nonce) ++ (ps.filter take).map (·.nonce)) := by
  rw [← List.map_append]
  exact (((List.perm_append_comm).trans (List.filter_append_perm take ps)).map (·.nonce)).symm

end TwitchEchoQueue

/-! ### Sends and the read worker -/

/-- Where a send stands: being written, with its echo staged or left with the hub; written
or not; back with the hub, with or without the echo; done. -/
inductive SendPhase
  | idle
  | writing (staged : Bool)
  | wrote (staged ok : Bool)
  | returned (ok hasEcho : Bool)
  | over
  deriving DecidableEq

/-- Of every echo `hub`, `emitted` and `dropped` record where it went, by its nonce; `shown`
is what the hub has emitted of those it was handed, `resolved` what a `USERSTATE` claimed
and `failed` the sends whose write failed. -/
structure Sends (φ : Type) where
  queue : TwitchEchoQueue φ := {}
  phase : String → SendPhase := fun _ => .idle
  begun : List String := []
  hub : List String := []
  shown : List String := []
  emitted : List (String × Echo φ) := []
  dropped : List String := []
  resolved : List String := []
  failed : List String := []

inductive SendStep (φ : Type)
  | stage (nonce : String) (frame : φ)
  | write (nonce : String) (ok : Bool)
  | markSent (nonce : String) (deadlineMs : Int)
  | drop (nonce : String)
  | hubEnds (nonce : String)
  | resolve (nonce id : String)
  | nonceMissing
  | newConnection
  | takeExpired (nowMs : Int)
  | takeSent

namespace Sends

variable {φ : Type}

/-- The read worker emits what it took. -/
def emit (s : Sends φ) (taken : TwitchEchoQueue φ × List (TwitchEchoQueue.Pending φ)) : Sends φ :=
  { s with queue := taken.1, emitted := s.emitted ++ taken.2.map fun p => (p.nonce, p.echo) }

/-- One step. The first five are `sendEchoed` and what the hub does once it returns. -/
def step (s : Sends φ) : SendStep φ → Option (Sends φ)
  | .stage nonce frame =>
    if s.phase nonce = .idle then
      -- a send without a nonce cannot be told from others when it comes back
      match if nonce = "" then none else s.queue.stage nonce { frame } with
      | some queue =>
        some { s with queue, phase := Function.update s.phase nonce (.writing true), begun := nonce :: s.begun }
      | none =>
        some { s with
          phase := Function.update s.phase nonce (.writing false)
          begun := nonce :: s.begun
          hub := nonce :: s.hub }
    else none
  | .write nonce ok =>
    match s.phase nonce with
    | .writing true =>
      some { s with
        phase := Function.update s.phase nonce (.wrote true ok)
        failed := if ok then s.failed else nonce :: s.failed }
    | .writing false =>
      some { s with
        phase := Function.update s.phase nonce (.returned ok true)
        failed := if ok then s.failed else nonce :: s.failed }
    | _ => none
  | .markSent nonce deadlineMs =>
    if s.phase nonce = .wrote true true then
      match s.queue.markSent nonce deadlineMs with
      | (queue, some _) =>
        some { s with
          queue
          phase := Function.update s.phase nonce (.returned true true)
          hub := nonce :: s.hub }
      | (queue, none) => some { s with queue, phase := Function.update s.phase nonce (.returned true false) }
    else none
  | .drop nonce =>
    if s.phase nonce = .wrote true false then
      some { s with
        queue := s.queue.drop nonce
        phase := Function.update s.phase nonce (.returned false false)
        dropped := s.dropped ++ (s.queue.pending.filter (·.nonce = nonce)).map (·.nonce) }
    else none
  -- the hub emits an echo of a send that went out and drops that of one that did not
  | .hubEnds nonce =>
    match s.phase nonce with
    | .returned true true =>
      some { s with phase := Function.update s.phase nonce .over, shown := nonce :: s.shown }
    | .returned false true =>
      some { s with
        phase := Function.update s.phase nonce .over
        hub := s.hub.erase nonce
        dropped := nonce :: s.dropped }
    | .returned _ false => some { s with phase := Function.update s.phase nonce .over }
    | _ => none
  | .resolve nonce id =>
    match s.queue.resolve nonce id with
    | (queue, some echo) =>
      some { s with queue, emitted := s.emitted ++ [(nonce, echo)], resolved := nonce :: s.resolved }
    | (queue, none) => some { s with queue }
  | .nonceMissing => some (s.emit s.queue.takeNonceMissing)
  | .newConnection => some { s with queue := s.queue.newConnection }
  | .takeExpired nowMs => some (s.emit (s.queue.takeExpired nowMs))
  | .takeSent => some (s.emit s.queue.takeSent)

end Sends

end Braidcast.Chat
