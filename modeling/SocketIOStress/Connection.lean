import SocketIOStress.Session
import SocketIOStress.Wire

/-!
# websocketpp::connection

The state machine that drives the handler, with the operations its `io_service`
has outstanding: what is posted runs in order, and a read, a write, the steps of
the opening and the waits on the two timers complete whenever the environment
says so.  The io_service runs on one thread, so one callback is one step.  A
completion of something that is not outstanding changes nothing.

Left out are the fields that only reach the log (the close codes and reasons, the
three `by_me` flags), the byte count of the write buffer, and the write state
`INTURRUPT`, which nothing assigns.
-/

namespace SocketIOStress

open SocketIOStress.Json Waits FallibleRun

/-- `session::state::value`. -/
inductive SessionState where
  | connecting
  | opened
  | closing
  | closed
deriving DecidableEq, Repr

/-- The functions posted to the io_service. -/
inductive Task where
  | writeMessage (msg : Message)
  | sendClose (code : Nat) (reason : Text)
  | terminate
  | handleReadFrame
deriving DecidableEq, Repr

/-- The operation of the opening that is outstanding. -/
inductive Opening where
  | connect
  | socketInit
  | writeRequest
  | readResponse
deriving DecidableEq, Repr

structure Connection where
  state : SessionState
  detached : Bool
  handler : Handler
  /-- The value of `Sec-WebSocket-Accept` that answers the handshake key. -/
  serverKey : Text
  timer : DeadlineTimer
  /-- The processor holds a data message that is not complete. -/
  messageBegun : Bool
  writeQueue : List Message
  /-- `m_write_state` is `WRITING`. -/
  writing : Bool
  opening : Option Opening
  /-- An `async_read` is outstanding. -/
  reading : Bool
  /-- An `async_write` of a frame is outstanding. -/
  sending : Bool
  posted : List Task

/-! ### What happens to a connection -/

/-- The errors `handle_connect` distinguishes. -/
inductive ConnectError where
  | connectionRefused
  | operationCanceled
  | connectionReset
  | timedOut
  | brokenPipe
  | unknown
deriving DecidableEq, Repr

/-- What the processor makes of the bytes read. -/
inductive Frame where
  /-- The header of a data frame. -/
  | dataHeader (continuation : Bool)
  /-- The end of the data message that was begun. -/
  | message (payload : Text)
  | ping (payload : Text)
  | pong (payload : Text)
  | close (payload : Text)
  /-- Any other exception of the processor; `more` says whether it needs further bytes. -/
  | violation (error : ProcessorError) (what : Text) (more : Bool)
deriving DecidableEq, Repr

inductive Input where
  | connected (error : Option ConnectError)
  | socketInitialized (error : Bool)
  | requestWritten (error : Bool)
  /-- None when the read fails. -/
  | responseRead (response : Option UpgradeResponse)
  /-- The first of the posted functions runs. -/
  | runPosted
  | frame (f : Frame)
  | readFailed
  | frameWritten (error : ErrorCode)
  | closeTimerExpired (wait : Nat)
  | closeTimerCompleted (wait : Nat)
  | heartbeatExpired (wait : Nat)
  | heartbeatCompleted (wait : Nat)
  /-- An exception of the socket library inside a callback. -/
  | raised (what : String)
deriving DecidableEq, Repr

namespace Connection

/-- A connection on which `async_connect` was called. -/
def initial (h : Handler) (serverKey : Text) : Connection :=
  ⟨.connecting, false, h, serverKey, .idle, false, [], false, some .connect, false, false, []⟩

def post (c : Connection) (task : Task) : Connection := { c with posted := c.posted ++ [task] }

/-! ### What the handler calls -/

/-- `prepare_frame` validates the payload. -/
def send (c : Connection) (payload : Text) : Except Failure Connection :=
  if c.state ≠ .opened then .ok c
  else if validate payload then .ok (c.post (.writeMessage ⟨.text, payload⟩))
  else .error (.runtimeError "Invalid UTF8 data")

def close (c : Connection) (code : Nat) (reason : Text) : Connection :=
  if c.detached then c
  else
    match c.state with
    | .connecting => c.post .terminate
    | .opened => c.post (.sendClose code reason)
    | .closing => c
    | .closed => c

def perform (c : Connection) : Call → Except Failure Connection
  | .send _ payload => c.send payload
  | .close code reason => .ok (c.close code reason)

/-- The calls a method of the handler makes, in their order. -/
def performAll : Connection → List Call → Except Failure Connection
  | c, [] => .ok c
  | c, call :: calls =>
      match c.perform call with
      | .error e => .error e
      | .ok c => performAll c calls

/-! ### Closing -/

/-- A detached connection has no endpoint to take a log of. -/
def endpointLog (c : Connection) (what : String) : Except Failure Unit :=
  if c.detached then .error (.runtimeError what) else .ok ()

def elog (c : Connection) : Except Failure Unit := c.endpointLog "elog(): Endpoint was destroyed"
def alog (c : Connection) : Except Failure Unit := c.endpointLog "alog(): Endpoint was destroyed"

/-- The test on `m_detached` is the wrong way round, here and in `log_close_result`:
    only a detached connection goes on to ask for the log. -/
def logError (c : Connection) : Except Failure Unit :=
  if c.detached = false then .ok () else c.elog

def logCloseResult (c : Connection) : Except Failure Unit :=
  if c.detached = false then .ok () else c.alog

/-- `m_version` is 13, so the branch for plain HTTP is not taken.  `remove_connection`
    detaches the connection. -/
def terminate (c : Connection) : Except Failure Connection :=
  match c.state with
  | .closed => .ok c
  | .connecting => .error Handler.onFail
  | .opened | .closing =>
      match c.handler.onClose with
      | .error e => .error e
      | .ok h =>
          match c.logCloseResult with
          | .error e => .error e
          | .ok _ =>
              .ok { c with
                timer := c.timer.cancel, state := .closed, handler := h, detached := true }

def sendClose (c : Connection) (code : Nat) (reason : Text) : Connection :=
  if c.detached then c
  else if c.state ≠ .opened then c
  else if CloseStatus.invalid code then c
  else if CloseStatus.reserved code then c
  else
    ({ c with state := .closing, timer := c.timer.expiresFromNow.asyncWait }).post
      (.writeMessage (closeFrame code reason))

/-- The code and reason the acknowledgement of a close frame carries. -/
def closeAck (code : Nat) (reason : Text) : Except Failure (Nat × Text) :=
  if code = CloseStatus.noStatus then .ok (CloseStatus.normal, [])
  else if code = CloseStatus.abnormalClose then .error (.uncaught "shouldn't be here")
  else if CloseStatus.invalid code then
    .ok (CloseStatus.protocolError, "Status code is invalid".toList)
  else if CloseStatus.reserved code then
    .ok (CloseStatus.protocolError, "Status code is reserved".toList)
  else .ok (code, reason)

def sendCloseAck (c : Connection) (code : Nat) (reason : Text) : Except Failure Connection :=
  match closeAck code reason with
  | .error e => .error e
  | .ok (code, reason) => .ok (c.post (.writeMessage (closeFrame code reason)))

/-- Only an expiry or an unknown error terminates. -/
def failOnExpire (c : Connection) : ErrorCode → Except Failure Connection
  | .operationAborted => .ok c
  | .success => c.terminate
  | .other _ => c.terminate

/-! ### Writing -/

def write (c : Connection) : Connection :=
  if c.writing then c
  else if c.writeQueue = [] then c
  else { c with writing := true, sending := true }

def writeMessage (c : Connection) (msg : Message) : Connection :=
  if c.state ≠ .opened ∧ c.state ≠ .closing then c
  else ({ c with writeQueue := c.writeQueue ++ [msg] }).write

/-- Behind an aborted write the code goes on as behind a successful one. -/
def frameHandedOver (c : Connection) : Except Failure Connection :=
  match c.writeQueue with
  | [] => .ok c
  | msg :: queue =>
      let c := { c with writeQueue := queue, writing := false }
      if msg.opcode ≠ .close then
        if c.state = .opened ∨ c.state = .closing then .ok c.write else .ok c
      else c.terminate

def handleWrite (c : Connection) : ErrorCode → Except Failure Connection
  | .other _ =>
      match c.logError with
      | .error e => .error e
      | .ok _ => c.terminate
  | .success => c.frameHandedOver
  | .operationAborted => c.frameHandedOver

/-! ### Reading -/

def pong (c : Connection) (payload : Text) : Connection :=
  if c.state ≠ .opened then c
  else if c.detached then c
  else c.post (.writeMessage ⟨.pong, payload⟩)

/-- The `catch` of `handle_read_frame`. -/
def handleViolation (c : Connection) (what : Text) : ProcessorError → Except Failure Connection
  | .protocolViolation => .ok (c.sendClose CloseStatus.protocolError what)
  | .payloadViolation => .ok (c.sendClose CloseStatus.invalidPayload what)
  | .internalEndpointError => .ok (c.sendClose CloseStatus.internalEndpointError what)
  | .softError => .ok c
  | .messageTooBig => .ok (c.sendClose CloseStatus.messageTooBig what)
  | .fatalError => c.terminate

/-- `process_data_header`, with `get_data_message`. -/
def processDataHeader (c : Connection) (continuation : Bool) : Except Failure Connection :=
  if c.messageBegun then
    if continuation then .ok c
    else c.handleViolation
      "Received new message before the completion of the existing one.".toList .protocolViolation
  else if continuation then
    c.handleViolation
      "Received continuation frame without an outstanding message.".toList .protocolViolation
  else if c.detached then .error (.runtimeError "get_data_message: Endpoint was destroyed")
  else if c.state ≠ .opened then
    .error (.runtimeError "get_data_message called from state other than OPEN")
  else .ok { c with messageBegun := true }

/-- The `CLOSE` case of `process_control`. -/
def processClose (c : Connection) (code : Nat) (reason : Text) : Except Failure Connection :=
  match c.state with
  | .opened => c.sendCloseAck code reason
  | .closing => c.terminate
  | .connecting => .ok c
  | .closed => .ok c

/-- `async_read` again, when the processor needs bytes. -/
def readMore (c : Connection) (more : Bool) : Connection :=
  { c with reading := decide (c.state ≠ .closed) && more }

/-- A frame other than the end of a data message. -/
def processFrame (c : Connection) : Frame → Except Failure Connection
  | .dataHeader continuation => (c.processDataHeader continuation).map (readMore · true)
  | .message _ => .ok c
  | .ping payload => .ok ((c.pong payload).readMore true)
  | .pong _ => .ok (c.readMore true)
  | .close payload =>
      match completeClose payload with
      | .ok (code, reason) => (c.processClose code reason).map (readMore · true)
      -- the exception leaves the processor in the payload state with no byte to read
      | .error (error, what) => (c.handleViolation what error).map (readMore · false)
  | .violation error what more => (c.handleViolation what error).map (readMore · more)

/-- The loop of `handle_read_frame` before its first frame. -/
def handleReadFrame (c : Connection) : Connection :=
  match c.state with
  | .connecting => c
  | .closed => c
  | .opened => c.readMore true
  | .closing => c.readMore true

/-- `handle_read_frame` with an error: the branches differ in their logs only. -/
def handleReadError (c : Connection) : Except Failure Connection :=
  match c.state with
  | .connecting => .ok { c with reading := false }
  | .closed => .ok { c with reading := false }
  | .opened => ({ c with reading := false }).terminate
  | .closing => ({ c with reading := false }).terminate

def runTask (c : Connection) : Task → Except Failure Connection
  | .writeMessage msg => .ok (c.writeMessage msg)
  | .sendClose code reason => .ok (c.sendClose code reason)
  | .terminate => c.terminate
  | .handleReadFrame => .ok c.handleReadFrame

/-! ### Opening -/

def handleConnect (c : Connection) : Option ConnectError → Except Failure Connection
  | none => .ok { c with opening := some .socketInit }
  | some .unknown => .error (.uncaught "client error")
  | some _ => .error Handler.onFail

/-- What the callbacks of the opening have in common. -/
def advanceOpening (c : Connection) (next : Opening) (error : Bool) : Except Failure Connection :=
  if error then ({ c with opening := none }).terminate else .ok { c with opening := some next }

def handleSocketInit (c : Connection) (error : Bool) : Except Failure Connection :=
  c.advanceOpening .writeRequest error

def handleWriteRequest (c : Connection) (error : Bool) : Except Failure Connection :=
  c.advanceOpening .readResponse error

/-! ### One step

The calls of the handler are put out with the state the connection is in when
they are made. -/

section Step

variable [CDouble] [BoostFormat]

/-- A callback of the handler: what it does to the handler, then its calls. -/
def handle (c : Connection) (e : Event) :
    Except Failure (Connection × List (SessionState × Call)) :=
  match c.handler.step e with
  | .error e => .error e
  | .ok (h, calls) =>
      match performAll { c with handler := h } calls with
      | .error e => .error e
      | .ok c' => .ok (c', calls.map (fun call => (c.state, call)))

/-- An accepted response: `on_open`, and a read is posted. -/
def enterOpen (c : Connection) : Except Failure (Connection × List (SessionState × Call)) :=
  match c.handler.onOpen with
  | .error e => .error e
  | .ok (h, calls) =>
      match performAll { c with state := .opened, handler := h, opening := none } calls with
      | .error e => .error e
      | .ok c' =>
          .ok (c'.post .handleReadFrame, calls.map (fun call => (SessionState.opened, call)))

def handleReadResponse (c : Connection) :
    Option UpgradeResponse → Except Failure (Connection × List (SessionState × Call))
  | none => (({ c with opening := none }).terminate).map (·, [])
  | some response =>
      if response.accepted c.serverKey then c.enterOpen
      else .ok ({ c with opening := none }, [])

/-- `process_data`. -/
def processData (c : Connection) (payload : Text) :
    Except Failure (Connection × List (SessionState × Call)) :=
  match ({ c with messageBegun := false }).handle (.message payload) with
  | .error e => .error e
  | .ok (c, calls) => .ok (c.readMore true, calls)

/-- `handle_read_frame` with bytes that come to this frame. -/
def readFrame (c : Connection) (f : Frame) :
    Except Failure (Connection × List (SessionState × Call)) :=
  if c.state = .connecting ∨ c.state = .closed then .ok ({ c with reading := false }, [])
  else
    match f with
    | .message payload => if c.messageBegun then c.processData payload else .ok (c, [])
    | f => (c.processFrame f).map (·, [])

def step (c : Connection) : Input → Except Failure (Connection × List (SessionState × Call))
  | .connected error =>
      if c.opening = some .connect then (c.handleConnect error).map (·, []) else .ok (c, [])
  | .socketInitialized error =>
      if c.opening = some .socketInit then (c.handleSocketInit error).map (·, []) else .ok (c, [])
  | .requestWritten error =>
      if c.opening = some .writeRequest then (c.handleWriteRequest error).map (·, [])
      else .ok (c, [])
  | .responseRead response =>
      if c.opening = some .readResponse then c.handleReadResponse response else .ok (c, [])
  | .runPosted =>
      match c.posted with
      | [] => .ok (c, [])
      | task :: posted => (({ c with posted := posted }).runTask task).map (·, [])
  | .frame f => if c.reading then c.readFrame f else .ok (c, [])
  | .readFailed => if c.reading then c.handleReadError.map (·, []) else .ok (c, [])
  | .frameWritten error =>
      if c.sending then (({ c with sending := false }).handleWrite error).map (·, [])
      else .ok (c, [])
  | .closeTimerExpired i =>
      match c.timer.expire i with
      | none => .ok (c, [])
      | some t => .ok ({ c with timer := t }, [])
  | .closeTimerCompleted i =>
      match c.timer.complete i with
      | none => .ok (c, [])
      | some (error, t) => (({ c with timer := t }).failOnExpire error).map (·, [])
  | .heartbeatExpired i => c.handle (.expire i)
  | .heartbeatCompleted i => c.handle (.complete i)
  | .raised what => .error (.runtimeError what)

end Step

/-- `io_service::run` returns when nothing is outstanding. -/
def Finished (c : Connection) : Prop :=
  c.opening = none ∧ c.reading = false ∧ c.sending = false ∧ c.posted = [] ∧
    c.timer.waits = [] ∧ (c.handler.heartbeat.map DeadlineTimer.waits).getD [] = []

instance (c : Connection) : Decidable c.Finished :=
  inferInstanceAs (Decidable (_ ∧ _ ∧ _ ∧ _ ∧ _ ∧ _))

/-! ### What a step can do

As far as the handler is concerned a connection is its phase, and a step does one
of five things to it. -/

structure Phase where
  opening : Option Opening
  state : SessionState
  handler : Handler

def phase (c : Connection) : Phase := ⟨c.opening, c.state, c.handler⟩

/-- A step without a callback of the handler, or with `on_close`. -/
inductive Moves : Phase → Phase → Prop where
  | stays {opening opening' : Option Opening} {state : SessionState} {h : Handler}
      (settled : opening = none → opening' = none) : Moves ⟨opening, state, h⟩ ⟨opening', state, h⟩
  | closes {opening : Option Opening} {h : Handler} :
      Moves ⟨opening, .opened, h⟩ ⟨opening, .closing, h⟩
  | ends {opening opening' : Option Opening} {state : SessionState} {h h' : Handler}
      (settled : opening = none → opening' = none) (before : state = .opened ∨ state = .closing)
      (callback : h.onClose = .ok h') : Moves ⟨opening, state, h⟩ ⟨opening', .closed, h'⟩

theorem Moves.refl (p : Phase) : Moves p p := .stays id

theorem phase_performAll {c c' : Connection} {calls : List Call}
    (h : c.performAll calls = .ok c') : c'.phase = c.phase := by
  induction calls generalizing c with
  | nil =>
    cases h
    rfl
  | cons call calls ih =>
    simp only [performAll] at h
    split at h
    · cases h
    rename_i c₁ hcall
    have hfirst : c₁.phase = c.phase := by
      cases call with
      | send origin payload =>
        simp only [perform, send] at hcall
        split at hcall
        · cases hcall
          rfl
        split at hcall
        · cases hcall
          rfl
        · cases hcall
      | close code reason =>
        simp only [perform, close] at hcall
        cases hcall
        split
        · rfl
        split <;> rfl
    rw [ih h, hfirst]

/-- A failed operation of the opening is forgotten before `terminate` is called. -/
theorem terminate_moves_of {c c' : Connection} {opening : Option Opening}
    (settled : opening = none → c.opening = none) (h : c.terminate = .ok c') :
    Moves ⟨opening, c.state, c.handler⟩ c'.phase := by
  simp only [terminate] at h
  split at h
  · cases h
    exact .stays settled
  · cases h
  · rename_i hstate
    split at h
    · cases h
    rename_i handler hclose
    split at h
    · cases h
    · cases h
      exact .ends settled (Or.inl hstate) hclose
  · rename_i hstate
    split at h
    · cases h
    rename_i handler hclose
    split at h
    · cases h
    · cases h
      exact .ends settled (Or.inr hstate) hclose

theorem terminate_moves {c c' : Connection} (h : c.terminate = .ok c') :
    Moves c.phase c'.phase :=
  terminate_moves_of id h

theorem sendClose_moves (c : Connection) (code : Nat) (reason : Text) :
    Moves c.phase (c.sendClose code reason).phase := by
  simp only [sendClose]
  split
  · exact .refl _
  split
  · exact .refl _
  rename_i hstate
  split
  · exact .refl _
  split
  · exact .refl _
  · have hopened : c.state = .opened := Classical.not_not.mp hstate
    have hphase : c.phase = ⟨c.opening, .opened, c.handler⟩ := by
      rw [phase, hopened]
    rw [hphase]
    exact .closes

theorem phase_write (c : Connection) : c.write.phase = c.phase := by
  simp only [write]
  split
  · rfl
  split <;> rfl

theorem phase_writeMessage (c : Connection) (msg : Message) :
    (c.writeMessage msg).phase = c.phase := by
  simp only [writeMessage]
  split
  · rfl
  · exact phase_write _

theorem handleWrite_moves {c c' : Connection} {error : ErrorCode}
    (h : c.handleWrite error = .ok c') : Moves c.phase c'.phase := by
  have hover : ∀ {c'}, c.frameHandedOver = .ok c' → Moves c.phase c'.phase := by
    intro c' h
    simp only [frameHandedOver] at h
    split at h
    · cases h
      exact .refl _
    split at h
    · split at h
      · cases h
        rw [phase_write]
        exact .refl _
      · cases h
        exact .refl _
    · have hmoves := terminate_moves h
      exact hmoves
  cases error with
  | success => exact hover h
  | operationAborted => exact hover h
  | other value =>
    simp only [handleWrite] at h
    split at h
    · cases h
    · exact terminate_moves h

theorem handleViolation_moves {c c' : Connection} {what : Text} {error : ProcessorError}
    (h : c.handleViolation what error = .ok c') : Moves c.phase c'.phase := by
  cases error with
  | fatalError => exact terminate_moves h
  | softError =>
    cases h
    exact .refl _
  | protocolViolation | payloadViolation | internalEndpointError | messageTooBig =>
    cases h
    exact sendClose_moves _ _ _

theorem processClose_moves {c c' : Connection} {code : Nat} {reason : Text}
    (h : c.processClose code reason = .ok c') : Moves c.phase c'.phase := by
  simp only [processClose] at h
  split at h
  · simp only [sendCloseAck] at h
    split at h
    · cases h
    · cases h
      exact .refl _
  · exact terminate_moves h
  · cases h
    exact .refl _
  · cases h
    exact .refl _

theorem processDataHeader_moves {c c' : Connection} {continuation : Bool}
    (h : c.processDataHeader continuation = .ok c') : Moves c.phase c'.phase := by
  simp only [processDataHeader] at h
  split at h
  · split at h
    · cases h
      exact .refl _
    · exact handleViolation_moves h
  split at h
  · exact handleViolation_moves h
  split at h
  · cases h
  split at h
  · cases h
  · cases h
    exact .refl _

theorem processFrame_moves {c c' : Connection} {f : Frame} (h : c.processFrame f = .ok c') :
    Moves c.phase c'.phase := by
  -- reading on does not show in the phase
  have hmore : ∀ {x : Except Failure Connection} {more : Bool},
      (∀ m, x = .ok m → Moves c.phase m.phase) → x.map (readMore · more) = .ok c' →
      Moves c.phase c'.phase := by
    intro x more hx hmap
    cases x with
    | error e => cases hmap
    | ok m =>
      cases hmap
      exact hx m rfl
  cases f with
  | dataHeader continuation => exact hmore (fun _ => processDataHeader_moves) h
  | message payload =>
    cases h
    exact .refl _
  | ping payload =>
    cases h
    have hpong : (c.pong payload).phase = c.phase := by
      simp only [pong]
      split
      · rfl
      split <;> rfl
    change Moves c.phase (c.pong payload).phase
    rw [hpong]
    exact .refl _
  | pong payload =>
    cases h
    exact .refl _
  | close payload =>
    simp only [processFrame] at h
    split at h
    · exact hmore (fun _ => processClose_moves) h
    · exact hmore (fun _ => handleViolation_moves) h
  | violation error what more => exact hmore (fun _ => handleViolation_moves) h

theorem runTask_moves {c c' : Connection} {task : Task} (h : c.runTask task = .ok c') :
    Moves c.phase c'.phase := by
  cases task with
  | writeMessage msg =>
    cases h
    rw [phase_writeMessage]
    exact .refl _
  | sendClose code reason =>
    cases h
    exact sendClose_moves _ _ _
  | terminate => exact terminate_moves h
  | handleReadFrame =>
    cases h
    have hphase : c.handleReadFrame.phase = c.phase := by
      simp only [handleReadFrame]
      split <;> rfl
    rw [hphase]
    exact .refl _

theorem handleReadError_moves {c c' : Connection} (h : c.handleReadError = .ok c') :
    Moves c.phase c'.phase := by
  simp only [handleReadError] at h
  split at h
  · cases h
    exact .refl _
  · cases h
    exact .refl _
  · have hmoves := terminate_moves h
    exact hmoves
  · have hmoves := terminate_moves h
    exact hmoves

theorem opening_moves {c c' : Connection} (hopening : c.opening ≠ none)
    (hstate : c'.state = c.state) (hhandler : c'.handler = c.handler) :
    Moves c.phase c'.phase := by
  rw [phase, phase, hstate, hhandler]
  exact .stays (fun hnone => absurd hnone hopening)

theorem advanceOpening_moves {c c' : Connection} {next : Opening} {error : Bool}
    (hopening : c.opening ≠ none) (h : c.advanceOpening next error = .ok c') :
    Moves c.phase c'.phase := by
  unfold advanceOpening at h
  split at h
  · have hmoves := @terminate_moves_of _ _ c.opening (fun _ => rfl) h
    exact hmoves
  · cases h
    exact opening_moves hopening rfl rfl

theorem handleConnect_moves {c c' : Connection} {error : Option ConnectError}
    (hopening : c.opening ≠ none) (h : c.handleConnect error = .ok c') :
    Moves c.phase c'.phase := by
  unfold handleConnect at h
  split at h
  · cases h
    exact opening_moves hopening rfl rfl
  · cases h
  · cases h

theorem failOnExpire_moves {c c' : Connection} {error : ErrorCode}
    (h : c.failOnExpire error = .ok c') : Moves c.phase c'.phase := by
  cases error with
  | operationAborted =>
    cases h
    exact .refl _
  | success => exact terminate_moves h
  | other value => exact terminate_moves h

/-- The occasions an input gives the script: the upgrade that is accepted, and a `5::`
    message while the connection is open. -/
def occasions (c : Connection) : Input → Nat
  | .responseRead (some response) =>
      if c.opening = some .readResponse ∧ response.accepted c.serverKey then 1 else 0
  | .frame (.message payload) =>
      if c.reading ∧ c.messageBegun ∧ c.state = .opened ∧ Handler.IsEvent payload then 1 else 0
  | _ => 0

/-- The same for an event of the handler. -/
def eventOccasions (state : SessionState) : Event → Nat
  | .message payload => if state = .opened ∧ Handler.IsEvent payload then 1 else 0
  | _ => 0

theorem eventOccasions_of_not_opened {state : SessionState} (h : state ≠ .opened) (e : Event) :
    eventOccasions state e = 0 := by
  cases e with
  | message payload => exact if_neg (fun hev => h hev.1)
  | expire i => rfl
  | complete i => rfl

theorem eventOccasions_of_quiet (state : SessionState) {e : Event} (h : Handler.Quiet e) :
    eventOccasions state e = 0 := by
  cases e with
  | message payload => exact if_neg (fun hev => h hev.2)
  | expire i => rfl
  | complete i => rfl

/-- The input is the completion of something outstanding, or changes nothing. -/
theorem outstanding_cases {p : Prop} [Decidable p] {c c' : Connection}
    {x : Except Failure (Connection × List (SessionState × Call))}
    {out : List (SessionState × Call)} (h : (if p then x else .ok (c, [])) = .ok (c', out)) :
    (p ∧ x = .ok (c', out)) ∨ (¬ p ∧ c' = c ∧ out = []) := by
  by_cases hp : p
  · rw [if_pos hp] at h
    exact Or.inl ⟨hp, h⟩
  · rw [if_neg hp] at h
    cases h
    exact Or.inr ⟨hp, rfl, rfl⟩

theorem silent_ok_iff {x : Except Failure Connection} {c' : Connection}
    {calls : List (SessionState × Call)} :
    x.map (fun c => (c, ([] : List (SessionState × Call)))) = .ok (c', calls) ↔
      x = .ok c' ∧ calls = [] := by
  cases x with
  | error e =>
    constructor
    · intro h
      cases h
    · rintro ⟨h, -⟩
      cases h
  | ok c =>
    constructor
    · intro h
      cases h
      exact ⟨rfl, rfl⟩
    · rintro ⟨h, rfl⟩
      cases h
      rfl

section Step

variable [CDouble] [BoostFormat]

/-- Everything a step can do to the phase, the calls it puts out, and the occasions. -/
inductive StepEffect (c : Connection) (i : Input) :
    Connection → List (SessionState × Call) → Prop where
  | moves {c' : Connection} (occasion : c.occasions i = 0) (phase : Moves c.phase c'.phase) :
      StepEffect c i c' []
  | handles {c' : Connection} {e : Event} {calls : List Call}
      (handler : c.handler.step e = .ok (c'.handler, calls))
      (state : c'.state = c.state) (opening : c'.opening = c.opening)
      (message : ∀ payload, e = .message payload → c.state = .opened ∨ c.state = .closing)
      (occasion : c.occasions i = eventOccasions c.state e) :
      StepEffect c i c' (calls.map (fun call => (c.state, call)))
  | opens {c' : Connection} {calls : List Call} (before : c.opening = some .readResponse)
      (handler : c.handler.onOpen = .ok (c'.handler, calls))
      (state : c'.state = .opened) (opening : c'.opening = none)
      (occasion : c.occasions i = 1) :
      StepEffect c i c' (calls.map (fun call => (SessionState.opened, call)))

theorem handle_ok {c c' : Connection} {e : Event} {out : List (SessionState × Call)}
    (h : c.handle e = .ok (c', out)) :
    ∃ calls, c.handler.step e = .ok (c'.handler, calls) ∧ c'.state = c.state ∧
      c'.opening = c.opening ∧ out = calls.map (fun call => (c.state, call)) := by
  simp only [handle] at h
  split at h
  · cases h
  rename_i handler calls hstep
  split at h
  · cases h
  rename_i c₁ hperform
  cases h
  have hphase := phase_performAll hperform
  simp only [phase, Phase.mk.injEq] at hphase
  obtain ⟨hopening, hstate, hhandler⟩ := hphase
  exact ⟨calls, by rw [hhandler]; exact hstep, hstate, hopening, rfl⟩

omit [BoostFormat] in
theorem enterOpen_ok {c c' : Connection} {out : List (SessionState × Call)}
    (h : c.enterOpen = .ok (c', out)) :
    ∃ calls, c.handler.onOpen = .ok (c'.handler, calls) ∧ c'.state = .opened ∧
      c'.opening = none ∧ out = calls.map (fun call => (SessionState.opened, call)) := by
  simp only [enterOpen] at h
  split at h
  · cases h
  rename_i handler calls hopen
  split at h
  · cases h
  rename_i c₁ hperform
  cases h
  have hphase := phase_performAll hperform
  simp only [phase, Phase.mk.injEq] at hphase
  obtain ⟨hopening, hstate, hhandler⟩ := hphase
  exact ⟨calls, by rw [show (c₁.post _).handler = c₁.handler from rfl, hhandler]; exact hopen,
    hstate, hopening, rfl⟩

theorem readFrame_effect {c c' : Connection} {f : Frame} {out : List (SessionState × Call)}
    (hreading : c.reading = true) (h : c.readFrame f = .ok (c', out)) :
    StepEffect c (.frame f) c' out := by
  simp only [readFrame] at h
  split at h
  · -- the state changed while the read was outstanding
    rename_i hstate
    cases h
    refine .moves ?_ (.refl _)
    cases f with
    | message payload =>
      apply if_neg
      rintro ⟨-, -, hopened, -⟩
      rw [hopened] at hstate
      exact absurd hstate (by decide)
    | _ => rfl
  rename_i hstate
  have hlive : c.state = .opened ∨ c.state = .closing := by
    cases hs : c.state with
    | opened => exact Or.inl rfl
    | closing => exact Or.inr rfl
    | connecting => exact absurd (Or.inl hs) hstate
    | closed => exact absurd (Or.inr hs) hstate
  split at h
  · rename_i payload
    split at h
    · rename_i hbegun
      simp only [processData] at h
      split at h
      · cases h
      rename_i c₁ calls₁ hhandle
      cases h
      obtain ⟨calls, hstep, hs, hopening, rfl⟩ := handle_ok hhandle
      refine .handles hstep hs hopening (fun _ _ => hlive) ?_
      simp only [occasions, eventOccasions, hreading, hbegun, true_and]
    · rename_i hbegun
      cases h
      refine .moves (if_neg ?_) (.refl _)
      rintro ⟨-, hbegun', -, -⟩
      exact hbegun hbegun'
  · rename_i hmessage
    obtain ⟨hframe, rfl⟩ := silent_ok_iff.mp h
    refine .moves ?_ (processFrame_moves hframe)
    cases f with
    | message payload => exact absurd rfl (hmessage payload)
    | _ => rfl

/-- The answer to the upgrade request opens the connection, or the opening is given up. -/
theorem handleReadResponse_effect {c c' : Connection} {response : Option UpgradeResponse}
    {out : List (SessionState × Call)} (hopening : c.opening = some .readResponse)
    (h : c.handleReadResponse response = .ok (c', out)) :
    StepEffect c (.responseRead response) c' out := by
  cases response with
  | none =>
    obtain ⟨hterminate, rfl⟩ := silent_ok_iff.mp h
    have hmoves := @terminate_moves_of _ _ c.opening (fun _ => rfl) hterminate
    exact .moves rfl hmoves
  | some response =>
    simp only [handleReadResponse] at h
    split at h
    · rename_i haccepted
      obtain ⟨calls, hopen, hstate, hnone, rfl⟩ := enterOpen_ok h
      exact .opens hopening hopen hstate hnone (if_pos ⟨hopening, haccepted⟩)
    · rename_i haccepted
      cases h
      apply StepEffect.moves
      · apply if_neg
        rintro ⟨-, haccepted'⟩
        exact haccepted haccepted'
      · exact opening_moves (by rw [hopening]; exact Option.some_ne_none _) rfl rfl

/-! One lemma for each kind of input: one that finds nothing outstanding, a callback
without calls of the handler, and a callback that is the handler's. -/

theorem StepEffect.idle {c : Connection} {i : Input} (h : c.occasions i = 0) :
    StepEffect c i c [] :=
  .moves h (.refl _)

/-- The state the callback begins in has the phase of the one before. -/
theorem StepEffect.silent {c m c' : Connection} {i : Input} {x : Except Failure Connection}
    {out : List (SessionState × Call)} (hoccasion : c.occasions i = 0)
    (hmoves : ∀ c', x = .ok c' → Moves m.phase c'.phase)
    (h : x.map (fun c => (c, ([] : List (SessionState × Call)))) = .ok (c', out))
    (hphase : m.phase = c.phase) : StepEffect c i c' out := by
  obtain ⟨hx, rfl⟩ := silent_ok_iff.mp h
  exact .moves hoccasion (hphase ▸ hmoves c' hx)

/-- A callback of the opening. -/
theorem StepEffect.opening {c c' : Connection} {i : Input} {expected : Opening}
    {x : Except Failure Connection} {out : List (SessionState × Call)}
    (hoccasion : c.occasions i = 0)
    (hmoves : ∀ c', c.opening ≠ none → x = .ok c' → Moves c.phase c'.phase)
    (h : (if c.opening = some expected then x.map (·, []) else .ok (c, [])) = .ok (c', out)) :
    StepEffect c i c' out := by
  rcases outstanding_cases h with ⟨hopening, h⟩ | ⟨-, rfl, rfl⟩
  · have hne : c.opening ≠ none := by
      rw [hopening]
      exact Option.some_ne_none _
    exact .silent hoccasion (fun c' => hmoves c' hne) h rfl
  · exact .idle hoccasion

theorem StepEffect.heartbeat {c c' : Connection} {i : Input} {e : Event}
    {out : List (SessionState × Call)} (hmessage : ∀ payload, e ≠ .message payload)
    (hoccasion : c.occasions i = eventOccasions c.state e) (h : c.handle e = .ok (c', out)) :
    StepEffect c i c' out := by
  obtain ⟨calls, hstep, hstate, hopening, rfl⟩ := handle_ok h
  exact .handles hstep hstate hopening (fun payload he => absurd he (hmessage payload)) hoccasion

theorem responseRead_effect {c c' : Connection} {response : Option UpgradeResponse}
    {out : List (SessionState × Call)} (h : c.step (.responseRead response) = .ok (c', out)) :
    StepEffect c (.responseRead response) c' out := by
  rcases outstanding_cases h with ⟨hopening, h⟩ | ⟨hopening, rfl, rfl⟩
  · exact handleReadResponse_effect hopening h
  · apply StepEffect.idle
    cases response with
    | none => rfl
    | some response =>
      apply if_neg
      rintro ⟨hopening', -⟩
      exact hopening hopening'

theorem frame_effect {c c' : Connection} {f : Frame} {out : List (SessionState × Call)}
    (h : c.step (.frame f) = .ok (c', out)) : StepEffect c (.frame f) c' out := by
  rcases outstanding_cases h with ⟨hreading, h⟩ | ⟨hreading, rfl, rfl⟩
  · exact readFrame_effect hreading h
  · apply StepEffect.idle
    cases f with
    | message payload =>
      apply if_neg
      rintro ⟨hreading', -⟩
      exact hreading hreading'
    | _ => rfl

/-- **One step of the state machine.** -/
theorem step_effect {c c' : Connection} {i : Input} {out : List (SessionState × Call)}
    (h : c.step i = .ok (c', out)) : StepEffect c i c' out := by
  cases i with
  | connected error => exact .opening rfl (fun c' hne => handleConnect_moves hne) h
  | socketInitialized error => exact .opening rfl (fun c' hne => advanceOpening_moves hne) h
  | requestWritten error => exact .opening rfl (fun c' hne => advanceOpening_moves hne) h
  | responseRead response => exact responseRead_effect h
  | runPosted =>
    simp only [step] at h
    split at h
    · cases h
      exact .idle rfl
    · exact .silent rfl (fun c' => runTask_moves) h rfl
  | frame f => exact frame_effect h
  | readFailed =>
    rcases outstanding_cases h with ⟨-, h⟩ | ⟨-, rfl, rfl⟩
    · exact .silent rfl (fun c' => handleReadError_moves) h rfl
    · exact .idle rfl
  | frameWritten error =>
    rcases outstanding_cases h with ⟨-, h⟩ | ⟨-, rfl, rfl⟩
    · exact .silent rfl (fun c' => handleWrite_moves) h rfl
    · exact .idle rfl
  | closeTimerExpired j =>
    simp only [step] at h
    split at h
    · cases h
      exact .idle rfl
    · cases h
      exact .moves rfl (.refl _)
  | closeTimerCompleted j =>
    simp only [step] at h
    split at h
    · cases h
      exact .idle rfl
    · exact .silent rfl (fun c' => failOnExpire_moves) h rfl
  | heartbeatExpired j =>
    exact .heartbeat (fun payload he => by cases he) rfl h
  | heartbeatCompleted j =>
    exact .heartbeat (fun payload he => by cases he) rfl h
  | raised what => cases h

end Step

end Connection

end SocketIOStress
