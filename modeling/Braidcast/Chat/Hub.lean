import Braidcast.Chat.History
import Mathlib.Data.List.TakeWhile

/-!
# The hub of the live chats

`ChatHub` of `chat_hub.cpp`, with the workers it starts and the health rows they report to.
`Start`, `Stop` and `StopDestination` run on the UI thread, one after the other; each locked
section, flag store and report of theirs is a step. A worker's report or emit is two steps:
the check of its two cancel flags, and the write that the check let through. Workers are
never joined, so the write may land at any later step.
-/
namespace Braidcast.Chat

open Lib

/-- A destination whose account id has no `@`, as `DestinationKey` counts on. -/
structure Destination extends DestinationId where
  plain : '@' ∉ accountId.toList
  deriving DecidableEq

def chatTransportId (dest : Destination) : String := "chat:" ++ destinationKey dest.toDestinationId

theorem Destination.plain_ne (dest : Destination) {c : Char} (member : c ∈ dest.accountId.toList) :
    (c != '@') = true := by
  have apart : c ≠ '@' := fun same => dest.plain (same ▸ member)
  simpa using apart

/-- An account id is what stands before the first `@` of its destinations' keys. -/
theorem takeWhile_destinationKey (dest : Destination) :
    (destinationKey dest.toDestinationId).toList.takeWhile (· != '@') = dest.accountId.toList := by
  unfold destinationKey
  split
  · exact List.takeWhile_eq_self_iff.mpr fun c => dest.plain_ne
  · rw [String.toList_append, String.toList_append, List.append_assoc,
      List.takeWhile_append_of_pos fun c => dest.plain_ne]
    simp

theorem dropWhile_destinationKey (dest : Destination) :
    (destinationKey dest.toDestinationId).toList.dropWhile (· != '@') =
      if dest.profileUuid = "" then [] else '@' :: dest.profileUuid.toList := by
  unfold destinationKey
  split
  · exact List.dropWhile_eq_nil_iff.mpr fun c => dest.plain_ne
  · rw [String.toList_append, String.toList_append, List.append_assoc,
      List.dropWhile_append_of_pos fun c => dest.plain_ne]
    simp

/-- Each destination has a health row of its own. -/
theorem chatTransportId_inj {dest dest' : Destination} (same : chatTransportId dest = chatTransportId dest') :
    dest = dest' := by
  have keys : (destinationKey dest.toDestinationId).toList = (destinationKey dest'.toDestinationId).toList := by
    have lists := congrArg String.toList same
    simpa [chatTransportId] using lists
  have accounts : dest.accountId = dest'.accountId := by
    rw [← String.toList_inj, ← takeWhile_destinationKey, ← takeWhile_destinationKey, keys]
  have profiles : dest.profileUuid = dest'.profileUuid := by
    have tails := dropWhile_destinationKey dest
    rw [keys, dropWhile_destinationKey dest'] at tails
    split at tails <;> split at tails <;> simp_all [String.toList_inj]
  obtain ⟨⟨account, profile⟩, plain⟩ := dest
  obtain ⟨⟨account', profile'⟩, plain'⟩ := dest'
  cases accounts
  cases profiles
  rfl

/-! ### Health rows -/

/-- `TransportHealth::State`. -/
inductive TransportState
  | connecting
  | connected
  | reconnecting
  | failed
  | unavailable
  | disconnected
  deriving DecidableEq

structure HealthEntry where
  state : TransportState
  lastError : String
  deriving DecidableEq

/-- `TransportHealth`, by transport id. -/
abbrev HealthRows := String → Option HealthEntry

/-- `TransportHealth::Report`: a report of what the row already says is no write. -/
def HealthRows.report (rows : HealthRows) (id : String) (entry : HealthEntry) : HealthRows :=
  if rows id = some entry then rows else Function.update rows id (some entry)

@[simp] theorem HealthRows.report_self (rows : HealthRows) (id : String) (entry : HealthEntry) :
    rows.report id entry id = some entry := by
  unfold report
  split
  next same => exact same
  next => simp

theorem HealthRows.report_of_ne (rows : HealthRows) {id other : String} (apart : other ≠ id) (entry : HealthEntry) :
    rows.report id entry other = rows other := by
  unfold report
  split
  · rfl
  · simp [Function.update_of_ne apart]

/-! ### Emitted payloads -/

def kChatState : String := "chat.state"
def kChatMessage : String := "chat.message"

/-- The bridge event a payload names, and the body that is left. -/
def splitEvent (payload : Fields) : String × Fields :=
  match payload.get? "event" with
  | some (.str event) => (event, payload.filter fun field => field.1 ≠ "event")
  | _ => (kChatMessage, payload)

/-- The destination identity on a frame. -/
def stampDestination (dest : DestinationId) (body : Fields) : Fields :=
  let named := body.set "accountId" (.str dest.accountId)
  if dest.profileUuid = "" then named else named.set "profileUuid" (.str dest.profileUuid)

/-- `body.value(key, std::string())`, which throws at a value that is no string. -/
def valueStr (body : Fields) (key : String) : Option String :=
  match body.get? key with
  | none => some ""
  | some (.str s) => some s
  | some _ => none

/-- The message under its own id or a synthesized one, with the next sequence number. Nothing where
the platform's lookup throws. -/
def withId (launchId : String) (idSeq : Nat) (body : Fields) : Option (Fields × Nat) :=
  if str body "id" ≠ "" then some (body, idSeq)
  else
    (valueStr body "platform").map fun platform =>
      (body.set "id" (.str (platform ++ ":" ++ launchId ++ ":" ++ toString (frameTs body) ++ ":" ++ toString idSeq)),
        (idSeq + 1) % 2 ^ 64)

/-! ### The hub -/

namespace ChatHub

/-- A row of `active_`. Its `emit` and its transport are those of the worker `arm`. -/
structure Active where
  providerId : String
  dest : Destination
  arm : Nat
  connected : Bool
  error : String

/-- What a worker was started with: its destination and its generation. -/
structure Arm where
  dest : Destination
  generation : Nat

/-- A cancel flag: a generation's, or one worker's own. -/
inductive Flag
  | generation (number : Nat)
  | destination (arm : Nat)
  deriving DecidableEq

/-- Where the UI thread stands in `Start`, `Stop` and `StopDestination`. `restart` says that it is `Start`
that called `Stop`. -/
inductive Ui
  | idle
  /-- Past the locked section, the flag not yet set. -/
  | signalling (flag : Option Flag) (taken : List Active) (restart : Bool)
  /-- The flag is set, and those in `left` are not yet disconnected. -/
  | disconnecting (taken left : List Active) (restart : Bool)
  /-- `Start`, after its `Stop`. -/
  | starting
  | arming (stop : Nat) (enabled : List Destination)

/-- What `reportHealth` and `emit` are called with. -/
inductive Write
  | report (state : TransportState) (error : String)
  | emit (payload : Fields)

/-- The states that set `reportedTerminal`. -/
def Write.isTerminal : Write → Bool
  | .report .failed _ | .report .unavailable _ => true
  | _ => false

/-- Where a worker stands. -/
inductive Stage
  /-- About to report Connecting. -/
  | opening
  /-- In `connect`, which may report and emit anything. -/
  | connecting
  /-- `connect` returned or threw. -/
  | returned (error : String)
  /-- About to report the Failed that the transport did not. -/
  | failing (error : String)
  /-- A send's worker, which may emit its echo. -/
  | sending
  | over

/-- Whether the worker may call with this write here, and where that leaves it. -/
def Stage.after : Stage → Write → Option Stage
  | .opening, .report .connecting "" => some .connecting
  | .connecting, _ => some .connecting
  | .failing error, .report .failed said => if said = error then some .over else none
  | .sending, .emit _ => some .sending
  | _, _ => none

structure Worker where
  /-- Whose flags its calls check. -/
  arm : Nat
  stage : Stage
  reportedTerminal : Bool
  /-- The write that a check let through. -/
  pending : Option Write

end ChatHub

open ChatHub

structure ChatHub where
  -- under `mutex_`
  active : List Active
  stop : Option Nat
  -- what `Start` has made so far
  generations : Nat
  arms : List Arm
  signalled : List Flag
  ui : Ui
  workers : List Worker
  idSeq : Nat
  rows : HealthRows
  history : World

namespace ChatHub

def find (h : ChatHub) (dest : Destination) : Option Active := h.active.find? fun a => a.dest = dest

/-- `canceled`. -/
def canceled (h : ChatHub) (a : Nat) : Bool :=
  match h.arms[a]? with
  | some arm => decide (Flag.generation arm.generation ∈ h.signalled) || decide (Flag.destination a ∈ h.signalled)
  | none => false

/-! ### The UI thread -/

/-- `Stop`, up to the end of its locked section. -/
def takeAll (h : ChatHub) (restart : Bool) : Option ChatHub :=
  match h.ui with
  | .idle => some { h with active := [], stop := none, ui := .signalling (h.stop.map .generation) h.active restart }
  | _ => none

/-- `StopDestination`, up to the end of its locked section. -/
def takeOne (h : ChatHub) (dest : Destination) : Option ChatHub :=
  match h.ui, h.find dest with
  | .idle, some a =>
    some { h with
      active := h.active.filter fun other => other.dest ≠ dest
      ui := .signalling (some (.destination a.arm)) [a] false }
  -- not running
  | .idle, none => some h
  | _, _ => none

def signal (h : ChatHub) : Option ChatHub :=
  match h.ui with
  | .signalling flag taken restart =>
    some { h with signalled := flag.toList ++ h.signalled, ui := .disconnecting taken taken restart }
  | _ => none

/-- Disconnect one transport and report it Disconnected. -/
def disconnect (h : ChatHub) : Option ChatHub :=
  match h.ui with
  | .disconnecting taken (a :: left) restart =>
    some { h with rows := h.rows.report (chatTransportId a.dest) ⟨.disconnected, ""⟩, ui := .disconnecting taken left restart }
  | _ => none

/-- `Stop` or `StopDestination` returns. -/
def returns (h : ChatHub) : Option ChatHub :=
  match h.ui with
  | .disconnecting _ [] restart => some { h with ui := if restart then .starting else .idle }
  | _ => none

/-- `Start` makes its generation's flag. The enabled destinations are a set. -/
def open_ (h : ChatHub) (enabled : List Destination) : Option ChatHub :=
  match h.ui with
  | .starting =>
    if enabled.Nodup then
      some { h with stop := some h.generations, generations := h.generations + 1, ui := .arming h.generations enabled }
    else none
  | _ => none

/-- The next enabled destination, under its provider where it has a chat to connect. -/
def arm (h : ChatHub) (provider : Option String) : Option ChatHub :=
  match h.ui, provider with
  | .arming stop (_ :: enabled), none => some { h with ui := .arming stop enabled }
  | .arming stop (dest :: enabled), some providerId =>
    some { h with
      arms := h.arms ++ [⟨dest, stop⟩]
      active := (h.active.filter fun a => a.dest ≠ dest) ++ [⟨providerId, dest, h.arms.length, false, ""⟩]
      workers := h.workers ++ [⟨h.arms.length, .opening, false, none⟩]
      ui := .arming stop enabled }
  | _, _ => none

def started (h : ChatHub) : Option ChatHub :=
  match h.ui with
  | .arming _ [] => some { h with ui := .idle }
  | _ => none

/-! ### Workers -/

/-- `DispatchSend` on the destination's row. -/
def dispatchSend (h : ChatHub) (dest : Destination) : Option ChatHub :=
  (h.find dest).map fun a => { h with workers := h.workers ++ [⟨a.arm, .sending, false, none⟩] }

/-- A call of `reportHealth` or `emit`, up to its check. -/
def call (h : ChatHub) (i : Nat) (write : Write) : Option ChatHub :=
  match h.workers[i]? with
  | some ⟨a, stage, reportedTerminal, none⟩ =>
    (stage.after write).map fun stage =>
      if h.canceled a then { h with workers := h.workers.set i ⟨a, stage, reportedTerminal, none⟩ }
      else { h with workers := h.workers.set i ⟨a, stage, reportedTerminal || write.isTerminal, some write⟩ }
  | _ => none

/-- `connect` returns or throws, or a send ends. -/
def finish (h : ChatHub) (i : Nat) (error : String) : Option ChatHub :=
  match h.workers[i]? with
  | some ⟨a, .connecting, reportedTerminal, none⟩ =>
    some { h with workers := h.workers.set i ⟨a, .returned error, reportedTerminal, none⟩ }
  | some ⟨a, .sending, reportedTerminal, none⟩ =>
    some { h with workers := h.workers.set i ⟨a, .over, reportedTerminal, none⟩ }
  | _ => none

/-- The worker's last check, for a transport that reported no terminal of its own. -/
def backstop (h : ChatHub) (i : Nat) : Option ChatHub :=
  match h.workers[i]? with
  | some ⟨a, .returned error, reportedTerminal, none⟩ =>
    let stage := if h.canceled a || reportedTerminal then .over else .failing error
    some { h with workers := h.workers.set i ⟨a, stage, reportedTerminal, none⟩ }
  | _ => none

/-- What a `chat.state` frame leaves in a row of `active_`. An `error` that is no string throws, with
`connected` written. -/
def Active.observe (a : Active) (body : Fields) : Active :=
  { a with
    connected := match body.get? "connected" with
      | some (.bool connected) => connected
      | _ => a.connected
    error := (valueStr body "error").getD a.error }

/-- The rest of `emit`. -/
def emit (env : Env) (h : ChatHub) (dest : Destination) (payload : Fields) (now : Int) : Option ChatHub :=
  let (event, frame) := splitEvent payload
  let body := stampDestination dest.toDestinationId frame
  if event = kChatState then
    some { h with active := h.active.map fun a => if a.dest = dest then a.observe body else a }
  else if event = kChatMessage then
    match withId env.options.launchId h.idSeq body with
    | some (message, idSeq) =>
      (h.history.add env dest.toDestinationId message now).map fun history => { h with history, idSeq }
    | none => some h
  else some h

/-- The rest of a call that passed its check. -/
def perform (env : Env) (h : ChatHub) (dest : Destination) (write : Write) (now : Int) : Option ChatHub :=
  match write with
  | .report state error => some { h with rows := h.rows.report (chatTransportId dest) ⟨state, error⟩ }
  | .emit payload => h.emit env dest payload now

def land (env : Env) (h : ChatHub) (i : Nat) (now : Int) : Option ChatHub :=
  match h.workers[i]? with
  | some ⟨a, stage, reportedTerminal, some write⟩ =>
    (h.arms[a]?).bind fun arm =>
      ({ h with workers := h.workers.set i ⟨a, stage, reportedTerminal, none⟩ } : ChatHub).perform env arm.dest write now
  | _ => none

/-- What else moves the ring and its archive. Messages are added by emits only. -/
def elsewhere (env : Env) (h : ChatHub) (event : Event) : Option ChatHub :=
  match event with
  | .add _ _ _ => none
  | event => (h.history.step env event).map fun history => { h with history }

/-! ### Steps -/

inductive Input
  | stop
  | stopDestination (dest : Destination)
  | start
  | signal
  | disconnect
  | returns
  | generation (enabled : List Destination)
  | arm (provider : Option String)
  | started
  | send (dest : Destination)
  | call (i : Nat) (write : Write)
  | land (i : Nat) (now : Int)
  | finish (i : Nat) (error : String)
  | backstop (i : Nat)
  | elsewhere (event : Event)

def step (env : Env) (h : ChatHub) : Input → Option ChatHub
  | .stop => h.takeAll false
  | .stopDestination dest => h.takeOne dest
  | .start => h.takeAll true
  | .signal => h.signal
  | .disconnect => h.disconnect
  | .returns => h.returns
  | .generation enabled => h.open_ enabled
  | .arm provider => h.arm provider
  | .started => h.started
  | .send dest => h.dispatchSend dest
  | .call i write => h.call i write
  | .land i now => h.land env i now
  | .finish i error => h.finish i error
  | .backstop i => h.backstop i
  | .elsewhere event => h.elsewhere env event

def Step (env : Env) (h : ChatHub) (input : Input) (h' : ChatHub) : Prop := h.step env input = some h'

/-- The hub at launch, over a booted ring. -/
def fresh (history : World) : ChatHub :=
  { active := [], stop := none, generations := 0, arms := [], signalled := [], ui := .idle, workers := [], idSeq := 0
    rows := fun _ => none, history }

end ChatHub

end Braidcast.Chat
