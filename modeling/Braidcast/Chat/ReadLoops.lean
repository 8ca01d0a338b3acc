import Braidcast.Chat.Health

/-!
# The chat read loops

`YouTubeChat::connect` with its three reads, and `FacebookChat::connect`. A loop runs on the list
of what its cycles meet; where the list ends, the session was canceled at the head of the loop.
-/
namespace Braidcast.Chat

/-- The part of `ChatSession` that its reports depend on. -/
structure ChatSession where
  row : HealthRow
  privacy : String
  note : String

/-- How a cycle of a read loop ends. -/
inductive CycleEnd
  | stop
  | handOver
  /-- `continue`, or the sleep at the end of the body, unless that was canceled. -/
  | again

def afterSleep (canceled : Bool) : CycleEnd :=
  if canceled then .stop else .again

/-- How a cycle leaves the row: ended only where the loop stops. -/
def CycleEnd.Leaves (row : HealthRow) : CycleEnd → Prop
  | .stop => row.Live ∨ row.Ended
  | .handOver | .again => row.Live

theorem leaves_sleep {row : HealthRow} (live : row.Live) (canceled : Bool) : (afterSleep canceled).Leaves row := by
  cases canceled with
  | true => exact .inl live
  | false => exact live

namespace YouTube

def kStreamDeadStrikes : Nat := 2
def kPrivacyPrivate : String := "private"
def kChargedReadNote : String := "chat is on a limited daily allowance and may stop before your broadcast ends"
def kPrivateChatUnavailable : String :=
  "YouTube chat is not available on private broadcasts. Set this destination's privacy to " ++
  "unlisted or public before your next stream to see chat here."

def kRateLimitReasons : List String := ["rateLimitExceeded", "userRateLimitExceeded"]
def kQuotaExhaustedReasons : List String := ["quotaExceeded", "dailyLimitExceeded"]

inductive YouTubeErrorClass
  | quotaExhausted
  | rateLimited
  | other

def classifyYouTubeError (status : Int) (reason : String) : YouTubeErrorClass :=
  if reason ∈ kQuotaExhaustedReasons then .quotaExhausted
  else if status = 429 ∨ reason ∈ kRateLimitReasons then .rateLimited
  else .other

variable (s : ChatSession)

def announceOnce : ChatSession := { s with row := s.row.announceOnce s.note }

def reportDegraded (why : String) (kind : Degradation) : ChatSession :=
  { s with row := s.row.reportDegraded why kind }

def endSession (reason : String) (health : Health) : ChatSession :=
  { s with row := s.row.endSession (if reason = "" then "YouTube chat stopped" else reason) health }

def terminalHttpReason (status : Int) (reason : String) : String :=
  "YouTube chat error: " ++ if reason = "" then "HTTP " ++ toString status else reason

def endOnChatOffline (offlineAt : String) : ChatSession :=
  endSession s ("YouTube live chat ended" ++ if offlineAt = "" then "" else " at " ++ offlineAt) .failed

/-- The gate in front of a charged read: the privacy read again, and the day's budget. -/
structure BilledGate where
  fresh : String
  exhausted : Bool
  message : String

/-- `RefuseIfPrivate`: the session it ended, if it did. -/
def refuseIfPrivate (privacy : String) : Option ChatSession :=
  if privacy = kPrivacyPrivate then some (endSession s kPrivateChatUnavailable .unavailable) else none

/-- `EnterBilledRead`: whether the session may go on, and how it stands then. -/
def enterBilledRead (gate : BilledGate) : ChatSession × Bool :=
  match refuseIfPrivate s (if gate.fresh = "" then s.privacy else gate.fresh) with
  | some ended => (ended, false)
  | none =>
    if gate.exhausted then (endSession s gate.message .failed, false)
    else if s.note = "" then ({ s with note := kChargedReadNote, row := s.row.rearm }, true)
    else (s, true)

/-- A callback of the InnerTube read that reaches the health row. -/
inductive InnerTubeCall
  | announce
  | state (connected : Bool) (err : String)

inductive InnerTubeEnd
  | handOver
  | stop
  | terminal (reason : String)

def onCall : InnerTubeCall → ChatSession
  | .announce | .state true _ => announceOnce s
  | .state false err => reportDegraded s err .transient

/-- `RunInnerTube`, whose read may make any calls and returns false after a terminal one. -/
def runInnerTube (calls : List InnerTubeCall) (ending : InnerTubeEnd) : ChatSession × Bool :=
  let s := calls.foldl onCall s
  match ending with
  | .handOver => (s, true)
  | .stop => (s, false)
  | .terminal reason => (endSession s reason .failed, false)

/-- A closed quota gate met at the head of a cycle: the provider's sentence, and whether the wait
for the reset was canceled. -/
structure QuotaWait where
  message : String
  canceled : Bool

/-- `WaitOutQuotaExhaustion`; true when the wait was canceled. -/
def waitOutQuotaExhaustion : Option QuotaWait → ChatSession × Bool
  | none => (s, false)
  | some wait => (reportDegraded s wait.message .sustained, wait.canceled)

/-- One complete object of the stream. -/
structure StreamFrame where
  isObject : Bool
  offlineAt : String
  /-- The session was found canceled after the frame. -/
  canceled : Bool

structure StreamChunk where
  canceled : Bool
  ready : List StreamFrame

/-- What one connection has delivered so far. -/
structure Delivered where
  frameCount : Nat
  offlineAt : String

/-- The objects of one chunk; false when the transfer is to stop. -/
def onFrames (s : ChatSession) (d : Delivered) : List StreamFrame → ChatSession × Delivered × Bool
  | [] => (s, d, true)
  | frame :: rest =>
    if !frame.isObject then onFrames s d rest
    else
      let d := ⟨d.frameCount + 1, frame.offlineAt⟩
      if frame.offlineAt ≠ "" then (announceOnce s, d, false)
      else if frame.canceled then (announceOnce s, d, false)
      else onFrames (announceOnce s) d rest

def onChunks (s : ChatSession) (d : Delivered) : List StreamChunk → ChatSession × Delivered
  | [] => (s, d)
  | chunk :: rest =>
    if chunk.canceled then (s, d)
    else match onFrames s d chunk.ready with
      | (s, d, true) => onChunks s d rest
      | (s, d, false) => (s, d)

/-- What one cycle of the streamList loop meets. -/
structure StreamCycle where
  quota : Option QuotaWait
  charged : Bool
  budgetMessage : String
  chunks : List StreamChunk
  status : Int
  reqErr : String
  /-- `YouTubeErrorReason` of the body of a 403, empty otherwise. -/
  reason : String
  /-- Found canceled after the request, and in the sleep at the end of the cycle. -/
  canceled : Bool
  sleepCanceled : Bool

/-- The outcomes of one connection, after its frames. -/
def streamOutcome (s : ChatSession) (d : Delivered) (deadStreak : Nat) (cycle : StreamCycle) : ChatSession × Nat × CycleEnd :=
  if cycle.canceled then (s, deadStreak, .stop)
  else if d.offlineAt ≠ "" then (endOnChatOffline s d.offlineAt, deadStreak, .stop)
  else if cycle.status = 0 then
    (reportDegraded s cycle.reqErr .transient, deadStreak, afterSleep cycle.sleepCanceled)
  else if cycle.status = 404 ∨ cycle.status = 400 then (s, deadStreak, .handOver)
  else if cycle.status = 401 then (endSession s cycle.reqErr .failed, deadStreak, .stop)
  else if cycle.status = 403 ∨ cycle.status = 429 then
    match classifyYouTubeError cycle.status cycle.reason with
    | .quotaExhausted => (s, deadStreak, .again)
    | .rateLimited =>
      (reportDegraded s "YouTube chat rate-limited, retrying" .transient, deadStreak, afterSleep cycle.sleepCanceled)
    | .other => (endSession s (terminalHttpReason cycle.status cycle.reason) .failed, deadStreak, .stop)
  else if cycle.status < 200 ∨ cycle.status ≥ 300 then
    (reportDegraded s ("HTTP " ++ toString cycle.status) .transient, deadStreak, afterSleep cycle.sleepCanceled)
  else
    let deadStreak := if d.frameCount > 0 then 0 else deadStreak + 1
    if deadStreak ≥ kStreamDeadStrikes then (s, deadStreak, .handOver)
    else (s, deadStreak, afterSleep cycle.sleepCanceled)

/-- The body of the streamList loop. How long a cycle sleeps is left out. -/
def streamCycle (s : ChatSession) (deadStreak : Nat) (cycle : StreamCycle) : ChatSession × Nat × CycleEnd :=
  match waitOutQuotaExhaustion s cycle.quota with
  | (s, true) => (s, deadStreak, .stop)
  | (s, false) =>
    if !cycle.charged then (endSession s cycle.budgetMessage .failed, deadStreak, .stop)
    else
      let read := onChunks s ⟨0, ""⟩ cycle.chunks
      streamOutcome read.1 read.2 deadStreak cycle

/-- `RunStreamList`; true asks for the list poll. -/
def runStreamList (s : ChatSession) (deadStreak : Nat) : List StreamCycle → ChatSession × Bool
  | [] => (s, false)
  | cycle :: rest =>
    match streamCycle s deadStreak cycle with
    | (s, _, .stop) => (s, false)
    | (s, _, .handOver) => (s, true)
    | (s, deadStreak, .again) => runStreamList s deadStreak rest

/-- What one cycle of the list poll meets. -/
structure ListCycle where
  quota : Option QuotaWait
  charged : Bool
  budgetMessage : String
  /-- What `SendAuthed` returned. -/
  sent : Bool
  status : Int
  reqErr : String
  reason : String
  offlineAt : String
  sleepCanceled : Bool

/-- The outcomes of one poll. -/
def listOutcome (s : ChatSession) (cycle : ListCycle) : ChatSession × CycleEnd :=
  if !cycle.sent then
    if cycle.status = 0 then (reportDegraded s cycle.reqErr .transient, afterSleep cycle.sleepCanceled)
    else (endSession s cycle.reqErr .failed, .stop)
  else if cycle.status = 403 ∨ cycle.status = 429 then
    match classifyYouTubeError cycle.status cycle.reason with
    | .quotaExhausted => (s, .again)
    | .rateLimited => (reportDegraded s "YouTube chat rate-limited, retrying" .transient, afterSleep cycle.sleepCanceled)
    | .other => (endSession s (terminalHttpReason cycle.status cycle.reason) .failed, .stop)
  else if cycle.status = 404 then (endSession s "YouTube broadcast is no longer available" .failed, .stop)
  else if cycle.status < 200 ∨ cycle.status ≥ 300 then
    (reportDegraded s ("HTTP " ++ toString cycle.status) .transient, afterSleep cycle.sleepCanceled)
  else if cycle.offlineAt ≠ "" then (endOnChatOffline (announceOnce s) cycle.offlineAt, .stop)
  else (announceOnce s, afterSleep cycle.sleepCanceled)

/-- The body of the list poll. -/
def listCycle (s : ChatSession) (cycle : ListCycle) : ChatSession × CycleEnd :=
  match waitOutQuotaExhaustion s cycle.quota with
  | (s, true) => (s, .stop)
  | (s, false) =>
    if !cycle.charged then (endSession s cycle.budgetMessage .failed, .stop) else listOutcome s cycle

/-- `RunListPoll`. -/
def runListPoll (s : ChatSession) : List ListCycle → ChatSession
  | [] => s
  | cycle :: rest =>
    match listCycle s cycle with
    | (s, .stop) | (s, .handOver) => s
    | (s, .again) => runListPoll s rest

def runListPollFinal (s : ChatSession) (cycles : List ListCycle) : ChatSession × Bool :=
  (runListPoll s cycles, false)

/-- A row of `kReadPaths`, with what the ladder meets at it. -/
structure ReadPath where
  enabled : Bool
  /-- The session was found canceled before the row. -/
  canceled : Bool
  billed : Bool
  gate : BilledGate
  run : ChatSession → ChatSession × Bool

/-- The ladder of `connect`. -/
def walk (s : ChatSession) : List ReadPath → ChatSession
  | [] => s
  | path :: rest =>
    if !path.enabled then walk s rest
    else if path.canceled then s
    else match if path.billed then enterBilledRead s path.gate else (s, true) with
      | (s, false) => s
      | (s, true) =>
        match path.run s with
        | (s, true) => walk s rest
        | (s, false) => s

/-- Everything one `YouTubeChat::connect` meets. -/
structure ConnectScript where
  channelRef : String
  privacy : String
  canceled : Bool
  innerTubeEnabled : Bool
  innerTubeCanceled : Bool
  calls : List InnerTubeCall
  ending : InnerTubeEnd
  streamEnabled : Bool
  streamCanceled : Bool
  streamGate : BilledGate
  stream : List StreamCycle
  listCanceled : Bool
  listGate : BilledGate
  list : List ListCycle

def kReadPaths (script : ConnectScript) : List ReadPath :=
  [⟨script.innerTubeEnabled, script.innerTubeCanceled, false, ⟨"", false, ""⟩,
      fun s => runInnerTube s script.calls script.ending⟩,
    ⟨script.streamEnabled, script.streamCanceled, true, script.streamGate, fun s => runStreamList s 0 script.stream⟩,
    ⟨true, script.listCanceled, true, script.listGate, fun s => runListPollFinal s script.list⟩]

/-- `YouTubeChat::connect`, as the history of its session. -/
def connect (script : ConnectScript) : List HealthEvent :=
  let session : ChatSession := ⟨.fresh, script.privacy, ""⟩
  if script.channelRef = "" then
    (session.row.endSession "No active YouTube broadcast to read chat from" .unavailable).log
  else
    match script.canceled, refuseIfPrivate session session.privacy with
    | false, some ended => ended.row.log
    | _, _ => (walk session (kReadPaths script)).row.close.log

/-! ### Every exit keeps the row -/

variable {s : ChatSession}

/-- A read's answer: only a session that goes on hands over. -/
def Answered (answer : ChatSession × Bool) : Prop :=
  if answer.2 then answer.1.row.Live else answer.1.row.Live ∨ answer.1.row.Ended

section

variable (live : s.row.Live)
include live

theorem answered_end (reason : String) (health : Health) : Answered (endSession s reason health, false) :=
  .inr (live.endSession _ _)

theorem live_wait (quota : Option QuotaWait) : (waitOutQuotaExhaustion s quota).1.row.Live := by
  cases quota with
  | none => exact live
  | some wait => exact live.reportDegraded wait.message .sustained

theorem live_frames (d : Delivered) (frames : List StreamFrame) : (onFrames s d frames).1.row.Live := by
  induction frames generalizing s d with
  | nil => exact live
  | cons frame rest ih =>
    unfold onFrames
    split
    · exact ih live d
    · dsimp only
      split
      · exact live.announceOnce _
      · split
        · exact live.announceOnce _
        · exact ih (live.announceOnce _) _

theorem live_chunks (d : Delivered) (chunks : List StreamChunk) : (onChunks s d chunks).1.row.Live := by
  induction chunks generalizing s d with
  | nil => exact live
  | cons chunk rest ih =>
    unfold onChunks
    split
    · exact live
    · have framed := live_frames live d chunk.ready
      split
      next s' d' frames =>
        rw [frames] at framed
        exact ih framed d'
      next s' d' frames =>
        rw [frames] at framed
        exact framed

theorem answered_innerTube (calls : List InnerTubeCall) (ending : InnerTubeEnd) :
    Answered (runInnerTube s calls ending) := by
  have called : (calls.foldl onCall s).row.Live := by
    induction calls generalizing s with
    | nil => exact live
    | cons call rest ih =>
      refine ih (s := onCall s call) ?_
      cases call with
      | announce => exact live.announceOnce _
      | state connected err =>
        cases connected with
        | true => exact live.announceOnce _
        | false => exact live.reportDegraded _ _
  unfold runInnerTube
  cases ending with
  | handOver => exact called
  | stop => exact .inl called
  | terminal reason => exact answered_end called reason .failed

theorem leaves_end (reason : String) (health : Health) :
    CycleEnd.stop.Leaves (endSession s reason health).row :=
  .inr (live.endSession _ _)

theorem streamOutcome_leaves (d : Delivered) (deadStreak : Nat) (cycle : StreamCycle) :
    (streamOutcome s d deadStreak cycle).2.2.Leaves (streamOutcome s d deadStreak cycle).1.row := by
  unfold streamOutcome
  split
  · exact .inl live
  split
  · exact leaves_end live _ _
  split
  · exact leaves_sleep (live.reportDegraded _ _) _
  split
  · exact live
  split
  · exact leaves_end live _ _
  split
  · split
    · exact live
    · exact leaves_sleep (live.reportDegraded _ _) _
    · exact leaves_end live _ _
  split
  · exact leaves_sleep (live.reportDegraded _ _) _
  generalize (if d.frameCount > 0 then 0 else deadStreak + 1) = streak
  dsimp only
  split
  · exact live
  · exact leaves_sleep live _

theorem streamCycle_leaves (deadStreak : Nat) (cycle : StreamCycle) :
    (streamCycle s deadStreak cycle).2.2.Leaves (streamCycle s deadStreak cycle).1.row := by
  have waited := live_wait live cycle.quota
  unfold streamCycle
  split
  next s' wait =>
    rw [wait] at waited
    exact .inl waited
  next s' wait =>
    rw [wait] at waited
    split
    · exact leaves_end waited _ _
    · exact streamOutcome_leaves (live_chunks waited _ _) _ _ _

theorem answered_streamList (deadStreak : Nat) (cycles : List StreamCycle) :
    Answered (runStreamList s deadStreak cycles) := by
  induction cycles generalizing s deadStreak with
  | nil => exact .inl live
  | cons cycle rest ih =>
    have left := streamCycle_leaves live deadStreak cycle
    unfold runStreamList
    split
    next ended =>
      rw [ended] at left
      exact left
    next finished =>
      rw [finished] at left
      exact left
    next again =>
      rw [again] at left
      exact ih left _

theorem listOutcome_leaves (cycle : ListCycle) :
    (listOutcome s cycle).2.Leaves (listOutcome s cycle).1.row := by
  unfold listOutcome
  split
  · split
    · exact leaves_sleep (live.reportDegraded _ _) _
    · exact leaves_end live _ _
  split
  · split
    · exact live
    · exact leaves_sleep (live.reportDegraded _ _) _
    · exact leaves_end live _ _
  split
  · exact leaves_end live _ _
  split
  · exact leaves_sleep (live.reportDegraded _ _) _
  split
  · exact leaves_end (s := announceOnce s) (live.announceOnce _) _ _
  · exact leaves_sleep (live.announceOnce _) _

theorem listCycle_leaves (cycle : ListCycle) :
    (listCycle s cycle).2.Leaves (listCycle s cycle).1.row := by
  have waited := live_wait live cycle.quota
  unfold listCycle
  split
  next s' wait =>
    rw [wait] at waited
    exact .inl waited
  next s' wait =>
    rw [wait] at waited
    split
    · exact leaves_end waited _ _
    · exact listOutcome_leaves waited cycle

theorem closed_listPoll (cycles : List ListCycle) :
    (runListPoll s cycles).row.Live ∨ (runListPoll s cycles).row.Ended := by
  induction cycles generalizing s with
  | nil => exact .inl live
  | cons cycle rest ih =>
    have left := listCycle_leaves live cycle
    unfold runListPoll
    split
    next ended =>
      rw [ended] at left
      exact left
    next finished =>
      rw [finished] at left
      exact .inl left
    next again =>
      rw [again] at left
      exact ih left

theorem refuse_ended {ended : ChatSession} {privacy : String}
    (refused : refuseIfPrivate s privacy = some ended) : ended.row.Ended := by
  unfold refuseIfPrivate at refused
  split at refused
  · cases refused
    exact live.endSession _ _
  · cases refused

theorem answered_enterBilledRead (gate : BilledGate) : Answered (enterBilledRead s gate) := by
  unfold enterBilledRead
  split
  next ended refused => exact .inr (refuse_ended live refused)
  next =>
    split
    · exact answered_end live _ _
    · split
      · exact live.rearm
      · exact live

theorem closed_walk (paths : List ReadPath) (reads : ∀ path ∈ paths, ∀ s : ChatSession, s.row.Live → Answered (path.run s)) :
    (walk s paths).row.Live ∨ (walk s paths).row.Ended := by
  induction paths generalizing s with
  | nil => exact .inl live
  | cons path rest ih =>
    have later := fun path member => reads path (List.mem_cons_of_mem _ member)
    have entered : Answered (if path.billed then enterBilledRead s path.gate else (s, true)) := by
      split
      · exact answered_enterBilledRead live path.gate
      · exact live
    unfold walk
    split
    · exact ih live later
    split
    · exact .inl live
    split
    next s' refused =>
      rw [refused] at entered
      exact entered
    next s' opened =>
      rw [opened] at entered
      have read := reads path List.mem_cons_self s' entered
      split
      next s'' finished =>
        rw [finished] at read
        exact ih read later
      next s'' done =>
        rw [done] at read
        exact read

end

theorem connect_truthful (script : ConnectScript) : HealthRow.Truthful (connect script) := by
  have start := HealthRow.fresh_live
  unfold connect
  dsimp only
  split
  · exact (start.endSession _ _).truthful
  split
  next ended _ refused => exact (refuse_ended start refused).truthful
  next =>
    refine HealthRow.close_truthful (closed_walk start _ fun path member s live => ?_)
    simp only [kReadPaths, List.mem_cons, List.not_mem_nil, or_false] at member
    rcases member with rfl | rfl | rfl
    · exact answered_innerTube live _ _
    · exact answered_streamList live _ _
    · exact closed_listPoll live _

end YouTube

namespace Facebook

/-- In milliseconds. -/
def kBadRequestBudget : Int := 90000
def kMinCycleMs : Int := 2000

variable (row : HealthRow)

def announceOnce : HealthRow := row.announceOnce ""

def reportDegraded (why : String) : HealthRow := row.reportDegraded why .transient

def endSession (reason : String) (health : Health) : HealthRow :=
  row.endSession (if reason = "" then "Facebook comments stopped" else reason) health

structure SseFrame where
  isObject : Bool
  /-- The session was found canceled after the frame. -/
  canceled : Bool

/-- One chunk of the push stream. -/
structure SseChunk where
  canceled : Bool
  /-- The frame buffer ran full without an event boundary. -/
  overflow : Bool
  keepalive : Bool
  events : List SseFrame

/-- What one connection has delivered so far. -/
structure Comments where
  frames : Nat
  overflow : Bool

/-- The events of one chunk; false when the transfer is to stop. -/
def onEvents (row : HealthRow) (c : Comments) : List SseFrame → HealthRow × Comments × Bool
  | [] => (row, c, true)
  | frame :: rest =>
    if !frame.isObject then onEvents row c rest
    else if frame.canceled then (announceOnce row, { c with frames := c.frames + 1 }, false)
    else onEvents (announceOnce row) { c with frames := c.frames + 1 } rest

/-- The reads of `RunLiveComments`. -/
def runLiveComments (row : HealthRow) (c : Comments) : List SseChunk → HealthRow × Comments
  | [] => (row, c)
  | chunk :: rest =>
    if chunk.canceled then (row, c)
    else if chunk.overflow then (row, { c with overflow := true })
    else match onEvents (if chunk.keepalive then row.noteHealthy else row) c chunk.events with
      | (row, c, true) => runLiveComments row c rest
      | (row, c, false) => (row, c)

/-- What one cycle of the comment loop meets. -/
structure CommentCycle where
  /-- Found canceled after the gap-fill, after the connection, and in the sleep. -/
  gapCanceled : Bool
  canceled : Bool
  sleepCanceled : Bool
  chunks : List SseChunk
  status : Int
  reqErr : String
  /-- `GraphErrorReason` of the body. -/
  graphReason : String
  /-- The steady clock after the connection. -/
  now : Int
  cycleMs : Int

/-- The loop's own state: whether it has connected yet, and until when a 400 is retried. -/
structure CommentLoop where
  firstConnect : Bool
  badRequestDeadline : Option Int

/-- The outcomes of one connection. -/
def commentOutcome (row : HealthRow) (c : Comments) (loop : CommentLoop) (cycle : CommentCycle) :
    HealthRow × CommentLoop × CycleEnd :=
  let reqErr := if c.overflow then "the live-comment stream sent no event boundary within the frame buffer" else cycle.reqErr
  if cycle.canceled then (row, loop, .stop)
  else if cycle.status = 0 then (reportDegraded row reqErr, loop, afterSleep cycle.sleepCanceled)
  else if cycle.status = 400 then
    let deadline := loop.badRequestDeadline.getD (cycle.now + kBadRequestBudget)
    if cycle.now < deadline then
      (reportDegraded row cycle.graphReason, { loop with badRequestDeadline := some deadline }, afterSleep cycle.sleepCanceled)
    else (endSession row ("Facebook comments stopped: " ++ cycle.graphReason) .failed, loop, .stop)
  else if cycle.status = 401 ∨ cycle.status = 403 ∨ cycle.status = 404 then
    (endSession row ("Facebook comments stopped: " ++ cycle.graphReason) .failed, loop, .stop)
  else if cycle.status < 200 ∨ cycle.status ≥ 300 then
    (reportDegraded row ("HTTP " ++ toString cycle.status), loop, afterSleep cycle.sleepCanceled)
  else if c.frames = 0 ∧ cycle.cycleMs < kMinCycleMs then
    (reportDegraded row "Facebook closed the comment stream without sending anything", loop, afterSleep cycle.sleepCanceled)
  else
    let row := if c.frames = 0 ∧ reqErr ≠ "" then reportDegraded row reqErr else row.noteHealthy
    (row, { loop with badRequestDeadline := none }, afterSleep cycle.sleepCanceled)

/-- The body of the comment loop. -/
def commentCycle (row : HealthRow) (loop : CommentLoop) (cycle : CommentCycle) : HealthRow × CommentLoop × CycleEnd :=
  if !loop.firstConnect && cycle.gapCanceled then (row, loop, .stop)
  else
    let read := runLiveComments row ⟨0, false⟩ cycle.chunks
    commentOutcome read.1 read.2 { loop with firstConnect := false } cycle

def runComments (row : HealthRow) (loop : CommentLoop) : List CommentCycle → HealthRow
  | [] => row
  | cycle :: rest =>
    match commentCycle row loop cycle with
    | (row, _, .stop) | (row, _, .handOver) => row
    | (row, loop, .again) => runComments row loop rest

/-- Everything one `FacebookChat::connect` meets. -/
structure ConnectScript where
  channelRef : String
  pageToken : String
  /-- `BroadcastEnded`, with the status it read. -/
  endedStatus : Option String
  cycles : List CommentCycle

/-- `FacebookChat::connect`, as the history of its session. -/
def connect (script : ConnectScript) : List HealthEvent :=
  if script.channelRef = "" then
    (HealthRow.fresh.endSession "No active Facebook broadcast to read comments from" .unavailable).log
  else if script.pageToken = "" then
    (HealthRow.fresh.endSession "No Facebook Page token for this broadcast, so its comments cannot be read" .failed).log
  else
    let row := match script.endedStatus with
      | some status => endSession .fresh ("Facebook comments unavailable: the broadcast is " ++ status) .unavailable
      | none => runComments .fresh ⟨true, none⟩ script.cycles
    row.close.log

variable {row : HealthRow}

theorem live_events (live : row.Live) (c : Comments) (events : List SseFrame) : (onEvents row c events).1.Live := by
  induction events generalizing row c with
  | nil => exact live
  | cons frame rest ih =>
    unfold onEvents
    split
    · exact ih live c
    · split
      · exact live.announceOnce _
      · exact ih (live.announceOnce _) _

theorem live_comments (live : row.Live) (c : Comments) (chunks : List SseChunk) : (runLiveComments row c chunks).1.Live := by
  induction chunks generalizing row c with
  | nil => exact live
  | cons chunk rest ih =>
    have kept : (if chunk.keepalive then row.noteHealthy else row).Live := by
      split
      · exact live.noteHealthy
      · exact live
    have read := live_events kept c chunk.events
    unfold runLiveComments
    split
    · exact live
    split
    · exact live
    split
    next row' c' done =>
      rw [done] at read
      exact ih read c'
    next row' c' done =>
      rw [done] at read
      exact read

theorem commentOutcome_leaves (live : row.Live) (c : Comments) (loop : CommentLoop) (cycle : CommentCycle) :
    (commentOutcome row c loop cycle).2.2.Leaves (commentOutcome row c loop cycle).1 := by
  unfold commentOutcome
  generalize (if c.overflow then "the live-comment stream sent no event boundary within the frame buffer" else cycle.reqErr) = reqErr
  dsimp only
  split
  · exact .inl live
  split
  · exact leaves_sleep (live.reportDegraded _ _) _
  split
  · split
    · exact leaves_sleep (live.reportDegraded _ _) _
    · exact .inr (live.endSession _ _)
  split
  · exact .inr (live.endSession _ _)
  split
  · exact leaves_sleep (live.reportDegraded _ _) _
  split
  · exact leaves_sleep (live.reportDegraded _ _) _
  refine leaves_sleep ?_ _
  split
  · exact live.reportDegraded _ _
  · exact live.noteHealthy

theorem closed_comments (live : row.Live) (loop : CommentLoop) (cycles : List CommentCycle) :
    (runComments row loop cycles).Live ∨ (runComments row loop cycles).Ended := by
  induction cycles generalizing row loop with
  | nil => exact .inl live
  | cons cycle rest ih =>
    have left : (commentCycle row loop cycle).2.2.Leaves (commentCycle row loop cycle).1 := by
      unfold commentCycle
      split
      · exact .inl live
      · exact commentOutcome_leaves (live_comments live _ _) _ _ _
    unfold runComments
    split
    next ended =>
      rw [ended] at left
      exact left
    next finished =>
      rw [finished] at left
      exact .inl left
    next again =>
      rw [again] at left
      exact ih left _

theorem connect_truthful (script : ConnectScript) : HealthRow.Truthful (connect script) := by
  have start := HealthRow.fresh_live
  unfold connect
  split
  · exact (start.endSession _ _).truthful
  split
  · exact (start.endSession _ _).truthful
  refine HealthRow.close_truthful ?_
  split
  · exact .inr (start.endSession _ _)
  · exact closed_comments start _ _

end Facebook

end Braidcast.Chat
