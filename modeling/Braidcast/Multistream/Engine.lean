import Braidcast.Lib.Lists
import Braidcast.Lib.Run

/-!
# The multistream engine's live list

`StartOutput`, `StopOutput`, `StartAllEnabled` and `StopAll` run on the UI thread, one at a
time, as the critical sections they are; between two of them the output threads signal. What
libobs answers during a start is an input. Of an output libobs sends no start, reconnect or
reconnect's success after its stop, nor once `obs_output_start` has refused to start it.
-/
namespace Braidcast.Multistream

open Lib

/-! ### Profiles and bindings -/

/-- Of the service settings the entries that a start reads. -/
structure StreamProfile where
  uuid : String
  serviceId : String := "rtmp_common"
  service : String := ""
  key : String := ""
  bearerToken : String := ""
  server : String := ""
  deriving DecidableEq

structure OutputBinding where
  uuid : String
  profileUuid : String := ""
  canvasUuid : String := ""
  enabled : Bool := false

def bindingMatchesProfile (rowBindingUuid rowProfileUuid : String) (rowEnabled : Bool)
    (excludeBindingUuid profileUuid : String) : Bool :=
  rowBindingUuid ≠ excludeBindingUuid && rowEnabled && rowProfileUuid = profileUuid

/-- The part of a service name before the first " - ". -/
def beforeDash : List Char → List Char
  | [] => []
  | c :: rest => if [' ', '-', ' '].isPrefixOf (c :: rest) then [] else c :: beforeDash rest

namespace StreamProfile

def platformName (p : StreamProfile) : String :=
  if p.serviceId = "whip_custom" then "WHIP"
  else if p.serviceId = "rtmp_custom" then "Custom"
  else if p.service ≠ "" then String.ofList (beforeDash p.service.toList)
  else "RTMP"

def credential (p : StreamProfile) : String :=
  if p.serviceId = "whip_custom" then p.bearerToken else p.key

/-- The keyed services need a key, and a server, which is seeded. -/
def seedServer (p : StreamProfile) : Except String StreamProfile :=
  if p.serviceId = "rtmp_common" then
    if p.credential = "" then
      .error (p.platformName ++ " has no stream key yet -- reconnect " ++ p.platformName ++
        " in Settings, or paste a key into its stream profile")
    else .ok (if p.server = "" then { p with server := "auto" } else p)
  else .ok p

end StreamProfile

/-! ### What is checked before a start -/

def outputSchemes : List (String × List String) :=
  [("rtmp_output", ["rtmp://", "rtmps://"]), ("ffmpeg_hls_muxer", ["http://", "https://"]),
    ("ffmpeg_mpegts_muxer", ["srt://", "rist://"])]

def urlSchemeMatchesOutput (outputType url : String) : Bool :=
  if url = "" then true
  else
    match outputSchemes.find? fun entry => entry.1 = outputType with
    | some entry => entry.2.any fun scheme => scheme.toList.isPrefixOf url.toList
    | none => true

/-- The server to take instead of the current one, over the service's list. -/
def reconcileServerToService (outputType currentServer : String) : String → List String → String
  | replacement, [] => replacement
  | replacement, url :: rest =>
    if url = "" then reconcileServerToService outputType currentServer replacement rest
    -- the service lists the current server, so it stays
    else if url = currentServer then ""
    else if replacement = "" ∧ urlSchemeMatchesOutput outputType url then
      reconcileServerToService outputType currentServer url rest
    else reconcileServerToService outputType currentServer replacement rest

def listContains (list item : String) (delimiter : Char) : Bool :=
  item ≠ "" && (list.toList.splitOn delimiter).contains item.toList

/-- What libobs answers while a start is prepared. -/
structure ObsAnswers where
  encoders : Bool := true
  service : Bool := true
  outputType : Option String := none
  codec : Option String := none
  serviceCodecs : Option (List String) := none
  outputCodecs : Option String := none
  servers : List String := []
  output : Bool := true

def joinCodecs (codecs : List String) : String :=
  codecs.foldl (fun accepts c => (if accepts = "" then accepts else accepts ++ ", ") ++ c) ""

/-- The canvas encodes what the service, or else the output, does not take. -/
def codecRefusal (p : StreamProfile) (obs : ObsAnswers) : Option String :=
  match obs.codec with
  | none => none
  | some codec =>
    let accepts := joinCodecs (obs.serviceCodecs.getD [])
    let supported := obs.outputCodecs.getD ""
    if accepts ≠ "" ∧ codec ∉ obs.serviceCodecs.getD [] then
      some ("this canvas encodes " ++ codec ++ ", which " ++ p.platformName ++ " cannot decode (it takes " ++ accepts ++
        ") -- change the canvas encoder")
    else if supported ≠ "" ∧ listContains supported codec ';' = false then
      some ("this canvas encodes " ++ codec ++ ", which " ++ p.platformName ++
        " cannot accept over this protocol (it takes " ++ supported ++
        ") -- change the canvas encoder, or the destination's protocol")
    else none

def reconciled (p : StreamProfile) (obs : ObsAnswers) : StreamProfile :=
  if p.serviceId = "rtmp_common" ∧ p.server ≠ "" then
    let derived := reconcileServerToService (obs.outputType.getD "rtmp_output") p.server "" obs.servers
    if derived ≠ "" then { p with server := derived } else p
  else p

/-- The profiles as the checks leave them, and the refusal, if there is one. -/
def prepareStart (profiles : List StreamProfile) (b : OutputBinding) (obs : ObsAnswers) : List StreamProfile × Option String :=
  match profiles.find? fun p => p.uuid = b.profileUuid with
  | none => (profiles, some "the bound stream profile no longer exists")
  | some p =>
    match p.seedServer with
    | .error reason => (profiles, some reason)
    | .ok p =>
      -- the seeded server is saved even if a later check refuses
      let seeded := modifyFirst (fun q => q.uuid = p.uuid) (fun _ => p) profiles
      if !obs.encoders then (seeded, some "could not build encoders for this canvas")
      else if !obs.service then (seeded, some "could not create the streaming service")
      else
        match codecRefusal p obs with
        | some reason => (seeded, some reason)
        | none =>
          let updated := modifyFirst (fun q => q.uuid = p.uuid) (fun _ => reconciled p obs) profiles
          if !obs.output then (updated, some "could not create the streaming output") else (updated, none)

/-! ### The engine -/

inductive MultistreamEngine.State
  | idle
  | connecting
  | live
  | error
  | reconnecting
  deriving DecidableEq

def MultistreamEngine.State.isActiveState : State → Bool
  | .connecting | .live | .reconnecting => true
  | .idle | .error => false

/-- An output is known by its number among those ever created. -/
structure LiveOutput where
  bindingUuid : String
  profileUuid : String
  canvasUuid : String
  output : Option Nat := none
  state : MultistreamEngine.State := .connecting
  lastError : String := ""

/-- An output that has stopped, or whose start was refused, has ended. -/
inductive ObsOutput
  | created
  | ended
  deriving DecidableEq

/-- What the UI thread does next in the call it is in. -/
inductive UiCall
  | checkProfile (binding : OutputBinding)
  | prepare (binding : OutputBinding)
  | fail (binding : OutputBinding) (reason : String)
  | push (entry : LiveOutput) (output : Nat)
  | starting (output : Nat)
  | refused (output : Nat) (reason : String)
  | stop (bindingUuid : String)
  | stopAll

/-- `pending` is what `StartAllEnabled` has still to start, `answer` what the last
`StartOutput` returned. -/
structure MultistreamEngine where
  bindings : List OutputBinding
  profiles : List StreamProfile
  live : List LiveOutput := []
  wentLive : List String := []
  outputs : List ObsOutput := []
  call : Option UiCall := none
  pending : List String := []
  answer : Except String Unit := .ok ()

inductive Signal
  | start
  | stop (code : Int) (lastError : String)
  | reconnect (lastError : String)
  | reconnectSuccess
  deriving DecidableEq

inductive EngineStep
  | startOutput (bindingUuid : String)
  | stopOutput (bindingUuid : String)
  | startAllEnabled
  | stopAll
  | setBindings (bindings : List OutputBinding)
  | setProfiles (profiles : List StreamProfile)
  | next
  | resume
  | prepared (obs : ObsAnswers)
  | returned (refusal : Option String)
  | signal (output : Nat) (signal : Signal)

namespace MultistreamEngine

def findLive (s : MultistreamEngine) (bindingUuid : String) : Option LiveOutput :=
  s.live.find? fun lo => lo.bindingUuid = bindingUuid

/-- The list without the binding's entry. -/
def takeLive (s : MultistreamEngine) (bindingUuid : String) : List LiveOutput :=
  s.live.eraseP fun lo => lo.bindingUuid = bindingUuid

def anyLiveLocked (s : MultistreamEngine) : Bool :=
  s.live.any (·.state.isActiveState)

def profileLiveElsewhere (s : MultistreamEngine) (bindingUuid profileUuid : String) : Bool :=
  if profileUuid = "" then false
  else s.live.any fun lo => lo.state.isActiveState && bindingMatchesProfile lo.bindingUuid lo.profileUuid true bindingUuid profileUuid

/-! #### Starting -/

/-- `StartOutput` past its first critical section: no entry of the binding is left. -/
def startBinding (s : MultistreamEngine) (bindingUuid : String) : MultistreamEngine :=
  match s.bindings.find? fun b => b.uuid = bindingUuid with
  | none => { s with answer := .error ("no output binding with uuid '" ++ bindingUuid ++ "'") }
  | some b =>
    if b.profileUuid = "" then { s with call := some (.fail b "no stream profile is set for this output") }
    else { s with call := some (.checkProfile b) }

/-- An active entry needs no action, a dead one is reaped. -/
def startOutput (s : MultistreamEngine) (bindingUuid : String) : MultistreamEngine :=
  match s.findLive bindingUuid with
  | none => s.startBinding bindingUuid
  | some existing =>
    -- only a dead entry is started anew
    if existing.state.isActiveState then { s with answer := .ok () }
    else { s with live := s.takeLive bindingUuid }.startBinding bindingUuid

def checkProfile (s : MultistreamEngine) (b : OutputBinding) : MultistreamEngine :=
  if s.profileLiveElsewhere b.uuid b.profileUuid then
    { s with call := some (.fail b "that stream profile is already live on another canvas") }
  else { s with call := some (.prepare b) }

def fail (s : MultistreamEngine) (b : OutputBinding) (reason : String) : MultistreamEngine :=
  { s with
    -- the entry stays for its reason to be shown, until a retry or a stop
    live := s.takeLive b.uuid ++ [⟨b.uuid, b.profileUuid, b.canvasUuid, none, .error, reason⟩]
    call := none
    answer := .error reason }

/-- The checks, and where they pass a new output. -/
def prepare (s : MultistreamEngine) (b : OutputBinding) (obs : ObsAnswers) : MultistreamEngine :=
  let checked := prepareStart s.profiles b obs
  match checked.2 with
  | some reason => { s with profiles := checked.1, call := some (.fail b reason) }
  | none =>
    { s with
      profiles := checked.1
      outputs := s.outputs ++ [.created]
      call := some (.push ⟨b.uuid, b.profileUuid, b.canvasUuid, some s.outputs.length, .connecting, ""⟩ s.outputs.length) }

def returned (s : MultistreamEngine) (output : Nat) : Option String → MultistreamEngine
  | none => { s with call := none, answer := .ok () }
  | some lastError =>
    { s with
      outputs := s.outputs.set output .ended
      call := some (.refused output (if lastError ≠ "" then lastError else "the output failed to start")) }

/-- The entry of the output is written under the lock. -/
def modifyOutput (s : MultistreamEngine) (output : Nat) (f : LiveOutput → LiveOutput) : MultistreamEngine :=
  { s with live := modifyFirst (fun lo => lo.output = some output) f s.live }

def refused (s : MultistreamEngine) (output : Nat) (reason : String) : MultistreamEngine :=
  { s.modifyOutput output fun lo => { lo with state := .error, lastError := reason } with call := none, answer := .error reason }

/-! #### Stopping -/

def stopOutput (s : MultistreamEngine) (bindingUuid : String) : MultistreamEngine :=
  match s.findLive bindingUuid with
  | none => s
  | some _ => { s with call := some (.stop bindingUuid) }

def startAllEnabled (s : MultistreamEngine) : MultistreamEngine :=
  { s with
    -- a session begins where nothing is live
    wentLive := if s.anyLiveLocked then s.wentLive else []
    pending := (s.bindings.filter (·.enabled)).map (·.uuid) }

/-- The call's next critical section, or its next call into libobs. -/
def resume (s : MultistreamEngine) : UiCall → Option MultistreamEngine
  | .checkProfile b => some (s.checkProfile b)
  | .fail b reason => some (s.fail b reason)
  | .push entry output => some { s with live := s.live ++ [entry], call := some (.starting output) }
  | .refused output reason => some (s.refused output reason)
  -- `obs_output_stop` has been called: it can signal before the entry is taken
  | .stop bindingUuid => some { s with live := s.takeLive bindingUuid, call := none }
  | .stopAll => some { s with live := [], wentLive := [], call := none }
  | .prepare _ | .starting _ => none

/-! #### Signals -/

/-- The output's binding is among those that have been live. -/
def noteWentLive (s : MultistreamEngine) (output : Nat) : MultistreamEngine :=
  match s.live.find? fun lo => lo.output = some output with
  | some lo => { s with wentLive := s.wentLive.insert lo.bindingUuid }
  | none => s

def onOutputStart (s : MultistreamEngine) (output : Nat) : MultistreamEngine :=
  (s.noteWentLive output).modifyOutput output fun lo => { lo with state := .live }

def onOutputStop (s : MultistreamEngine) (output : Nat) (code : Int) (lastError : String) : MultistreamEngine :=
  s.modifyOutput output fun lo => if code ≠ 0 then { lo with state := .error, lastError } else { lo with state := .idle }

def onOutputReconnect (s : MultistreamEngine) (output : Nat) (lastError : String) : MultistreamEngine :=
  s.modifyOutput output fun lo => { lo with state := .reconnecting, lastError }

def onOutputReconnectSuccess (s : MultistreamEngine) (output : Nat) : MultistreamEngine :=
  (s.noteWentLive output).modifyOutput output fun lo => { lo with state := .live, lastError := "" }

/-- A signal with its handler, where libobs can send it. -/
def signal (s : MultistreamEngine) (output : Nat) (signal : Signal) : Option MultistreamEngine :=
  match s.outputs[output]?, signal with
  | some .created, .start => some (s.onOutputStart output)
  | some .created, .reconnect lastError => some (s.onOutputReconnect output lastError)
  | some .created, .reconnectSuccess => some (s.onOutputReconnectSuccess output)
  -- an output can stop more than once, and before the UI thread has pushed its entry
  | some _, .stop code lastError =>
    some ({ s with outputs := s.outputs.set output .ended }.onOutputStop output code lastError)
  | _, _ => none

/-! #### Steps -/

/-- The UI thread is in no call. -/
def atRest (s : MultistreamEngine) : Bool :=
  s.call = none && s.pending = []

def step (s : MultistreamEngine) : EngineStep → Option MultistreamEngine
  | .startOutput bindingUuid => if s.atRest then some (s.startOutput bindingUuid) else none
  | .stopOutput bindingUuid => if s.atRest then some (s.stopOutput bindingUuid) else none
  | .startAllEnabled => if s.atRest then some s.startAllEnabled else none
  | .stopAll => if s.atRest then some { s with call := some .stopAll } else none
  | .setBindings bindings => if s.atRest then some { s with bindings } else none
  | .setProfiles profiles => if s.atRest then some { s with profiles } else none
  | .next =>
    match s.call, s.pending with
    | none, bindingUuid :: rest => some ({ s with pending := rest }.startOutput bindingUuid)
    | _, _ => none
  | .resume => s.call.bind s.resume
  | .prepared obs =>
    match s.call with
    | some (.prepare b) => some (s.prepare b obs)
    | _ => none
  | .returned refusal =>
    match s.call with
    | some (.starting output) => some (s.returned output refusal)
    | _ => none
  | .signal output signal => s.signal output signal

end MultistreamEngine

end Braidcast.Multistream
