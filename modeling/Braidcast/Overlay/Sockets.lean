import Braidcast.Lib.Lists
import Braidcast.Lib.Run

/-!
# The overlay server's sockets

Every accepted connection runs on a thread of its own; a broadcast runs on whatever thread
calls it. The steps below are the critical sections of `sseMutex_` and `clientsMutex_`, the
sends and the `closesocket` calls, in any order. A handle is a number the operating system
may give out again as soon as it is closed.
-/
namespace Braidcast.Overlay

open Lib

def kMaxSseConnections : Nat := 64

/-- A connection: accepted and not yet listed, routing its request, holding a reserved slot,
registered, about to enter `CloseClient`, past its erase, or done with. -/
inductive ConnPhase
  | accepted
  | routing
  | reserved
  | streaming
  | closing
  | erased (present : Bool)
  | ended
  deriving DecidableEq

structure Conn where
  handle : Nat
  widgetId : String
  phase : ConnPhase

/-- A broadcast: sending, with the sockets left to send to and those whose send failed; then
closing what was parked, one handle at a time. -/
inductive PassPhase
  | sending (left dead : List (String × Nat))
  | draining (toClose : List Nat)
  | closing (handle : Nat) (present : Bool) (toClose : List Nat)
  deriving DecidableEq

/-- `closed` is what was closed since the broadcast's snapshot. -/
structure Pass where
  phase : PassPhase
  closed : List Nat := []

/-- `opened` is the operating system's table: each open handle and the accept it came from.
`closes` lists the accepts whose handle was closed, and `strays` counts the closes of a
handle that was not open. -/
structure OverlayServer where
  listening : Bool := true
  clientSockets : List Nat := []
  sockets : List (String × Nat) := []
  ssePending : Nat := 0
  broadcastDepth : Nat := 0
  deferredCloseSse : List Nat := []
  conns : List Conn := []
  passes : List Pass := []
  opened : List (Nat × Nat) := []
  closes : List Nat := []
  strays : Nat := 0

/-- How one send of a broadcast ends; a widget the filter refuses is passed over. -/
inductive SendOutcome
  | took
  | failed
  | filtered
  deriving DecidableEq

inductive SocketStep
  | accept (handle : Nat) (widgetId : String)
  | spawn (conn : Nat)
  | respond (conn : Nat)
  | reserve (conn : Nat)
  | handshake (conn : Nat) (headOk : Bool)
  | leave (conn : Nat)
  | eraseClient (conn : Nat)
  | closeSocket (conn : Nat)
  | broadcast (onlyWidgetId : Option String)
  | send (pass : Nat) (outcome : SendOutcome)
  | epilogue (pass : Nat)
  | eraseParked (pass : Nat)
  | closeParked (pass : Nat)
  | stop

namespace OverlayServer

def liveSseCount (s : OverlayServer) : Nat :=
  s.sockets.length

/-- `closesocket`. -/
def closeHandle (s : OverlayServer) (handle : Nat) : OverlayServer :=
  match s.opened.find? (·.1 = handle) with
  | some entry =>
    { s with
      opened := s.opened.eraseP (·.1 = handle)
      closes := entry.2 :: s.closes
      passes := s.passes.map fun pass => { pass with closed := handle :: pass.closed } }
  -- a close of a handle that is not open: the number may be another socket's by now
  | none => { s with strays := s.strays + 1 }

def setConn (s : OverlayServer) (k : Nat) (conn : Conn) (phase : ConnPhase) : OverlayServer :=
  { s with conns := s.conns.set k { conn with phase } }

def setPass (s : OverlayServer) (k : Nat) (pass : Pass) (phase : PassPhase) : OverlayServer :=
  { s with passes := s.passes.set k { pass with phase } }

/-- The sockets the end of a broadcast shuts down: the dead ones still registered. -/
def shutdowns (s : OverlayServer) (dead : List (String × Nat)) : List (String × Nat) :=
  dead.filter (· ∈ s.sockets)

/-- One step of connection `k`: of the accept loop, which lists it before its thread starts,
then of that thread. -/
def connStep (s : OverlayServer) (k : Nat) (conn : Conn) : SocketStep → Option OverlayServer
  | .spawn _ =>
    if conn.phase = .accepted then
      some { s.setConn k conn .routing with clientSockets := s.clientSockets.insert conn.handle }
    else none
  | .respond _ =>
    if conn.phase = .routing then some (s.setConn k conn .closing) else none
  | .reserve _ =>
    if conn.phase = .routing then
      -- a place is taken before the head is sent, so two requests cannot both get the last one
      if kMaxSseConnections ≤ s.ssePending + s.liveSseCount then
        some (s.setConn k conn .closing)
      else
        some { s.setConn k conn .reserved with ssePending := s.ssePending + 1 }
    else none
  | .handshake _ headOk =>
    if conn.phase = .reserved then
      if headOk then
        some { s.setConn k conn .streaming with
          ssePending := s.ssePending - 1
          sockets := s.sockets.insert (conn.widgetId, conn.handle) }
      else
        some { s.setConn k conn .closing with ssePending := s.ssePending - 1 }
    else none
  | .leave _ =>
    if conn.phase = .streaming then
      -- a broadcast may still hold the handle it has snapshotted: it closes it when it ends
      if 0 < s.broadcastDepth then
        some { s.setConn k conn .ended with
          sockets := s.sockets.filter (· ≠ (conn.widgetId, conn.handle))
          deferredCloseSse := s.deferredCloseSse.insert conn.handle }
      else
        some { s.setConn k conn .closing with sockets := s.sockets.filter (· ≠ (conn.widgetId, conn.handle)) }
    else none
  | .eraseClient _ =>
    if conn.phase = .closing then
      some { s.setConn k conn (.erased (conn.handle ∈ s.clientSockets)) with
        clientSockets := s.clientSockets.erase conn.handle }
    else none
  | .closeSocket _ =>
    match conn.phase with
    -- whoever took the handle out of the set closes it
    | .erased true => some ((s.setConn k conn .ended).closeHandle conn.handle)
    | .erased false => some (s.setConn k conn .ended)
    | _ => none
  | _ => none

/-- One step of broadcast number `k`. An exception in the filter runs the epilogue early, so
it may come with sockets left. -/
def passStep (s : OverlayServer) (k : Nat) (pass : Pass) : SocketStep → Option OverlayServer
  | .send _ outcome =>
    match pass.phase with
    | .sending (target :: left) dead =>
      match outcome with
      | .failed => some (s.setPass k pass (.sending left (dead ++ [target])))
      | .took | .filtered => some (s.setPass k pass (.sending left dead))
    | _ => none
  | .epilogue _ =>
    match pass.phase with
    | .sending _ dead =>
      -- the last broadcast to end takes the parked handles with it
      if s.broadcastDepth - 1 = 0 then
        some { s.setPass k pass (.draining s.deferredCloseSse) with
          sockets := s.sockets.filter (· ∉ dead)
          broadcastDepth := s.broadcastDepth - 1
          deferredCloseSse := [] }
      else
        some { s.setPass k pass (.draining []) with
          sockets := s.sockets.filter (· ∉ dead)
          broadcastDepth := s.broadcastDepth - 1 }
    | _ => none
  | .eraseParked _ =>
    match pass.phase with
    | .draining (handle :: toClose) =>
      some { s.setPass k pass (.closing handle (handle ∈ s.clientSockets) toClose) with
        clientSockets := s.clientSockets.erase handle }
    | _ => none
  | .closeParked _ =>
    match pass.phase with
    | .closing handle true toClose => some ((s.setPass k pass (.draining toClose)).closeHandle handle)
    | .closing _ false toClose => some (s.setPass k pass (.draining toClose))
    | _ => none
  | _ => none

def step (s : OverlayServer) : SocketStep → Option OverlayServer
  | .accept handle widgetId =>
    -- the system gives a handle again once it has been closed
    if s.listening ∧ handle ∉ s.opened.map Prod.fst then
      some { s with
        conns := s.conns ++ [{ handle, widgetId, phase := .accepted }]
        opened := (handle, s.conns.length) :: s.opened }
    else none
  | .broadcast onlyWidgetId =>
    some { s with
      passes := s.passes ++ [{ phase := .sending (s.sockets.filter fun e => onlyWidgetId.all (e.1 = ·)) [] }]
      broadcastDepth := s.broadcastDepth + 1 }
  | .stop => some { s with listening := false }
  | .send k outcome => s.passes[k]?.bind fun pass => s.passStep k pass (.send k outcome)
  | .epilogue k => s.passes[k]?.bind fun pass => s.passStep k pass (.epilogue k)
  | .eraseParked k => s.passes[k]?.bind fun pass => s.passStep k pass (.eraseParked k)
  | .closeParked k => s.passes[k]?.bind fun pass => s.passStep k pass (.closeParked k)
  | .spawn k => s.conns[k]?.bind fun conn => s.connStep k conn (.spawn k)
  | .respond k => s.conns[k]?.bind fun conn => s.connStep k conn (.respond k)
  | .reserve k => s.conns[k]?.bind fun conn => s.connStep k conn (.reserve k)
  | .handshake k headOk => s.conns[k]?.bind fun conn => s.connStep k conn (.handshake k headOk)
  | .leave k => s.conns[k]?.bind fun conn => s.connStep k conn (.leave k)
  | .eraseClient k => s.conns[k]?.bind fun conn => s.connStep k conn (.eraseClient k)
  | .closeSocket k => s.conns[k]?.bind fun conn => s.connStep k conn (.closeSocket k)

/-- The handles the step makes broadcast `k` send to or shut down. -/
def touches (s : OverlayServer) (k : Nat) : SocketStep → List Nat
  | .send pass outcome =>
    if pass = k ∧ outcome ≠ .filtered then
      match s.passes[k]?.map Pass.phase with
      | some (.sending (target :: _) _) => [target.2]
      | _ => []
    else []
  | .epilogue pass =>
    if pass = k then
      match s.passes[k]?.map Pass.phase with
      | some (.sending _ dead) => (s.shutdowns dead).map Prod.snd
      | _ => []
    else []
  | _ => []

/-- Every thread and every broadcast has ended. -/
def Ended (s : OverlayServer) : Prop :=
  (∀ conn ∈ s.conns, conn.phase = .ended) ∧ ∀ pass ∈ s.passes, pass.phase = .draining []

end OverlayServer

end Braidcast.Overlay
