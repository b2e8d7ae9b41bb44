import SocketIOStress.ActionSequence
import SocketIOStress.Format
import SocketIOStress.Json.Writer
import SocketIOStress.Lib.Waits

/-!
# socketio::SocketIOHandler

The handler's state and its methods, each a function to the state after the call
and the calls it made on its connection, or to the failure it ended with.  What
is printed is computed where printing runs code of jsoncpp that could fail.
-/

namespace SocketIOStress

open SocketIOStress.Json Waits

/-! ### Calls on the connection -/

/-- Where the text of a frame comes from: `nextAction` called with the cursor at
    `index`, or the constant of a heartbeat. -/
inductive Origin where
  | action (index : Nat)
  | heartbeat
deriving DecidableEq, Repr

inductive Call where
  | send (origin : Origin) (payload : Text)
  | close (code : Nat) (reason : Text)
deriving DecidableEq, Repr

/-- `"2::"`, the text of a heartbeat. -/
def heartbeatText : Text := ['2', ':', ':']

/-- `close::status::NORMAL`. -/
def closeStatusNormal : Nat := 1000

def endOfSequence : Call :=
  .close closeStatusNormal "End of test sequence ++++++++++++++++++++++++++++++++".toList

/-! ### The state -/

structure Handler where
  sessionid : Text
  isSecure : Bool
  host : Text
  websocketToken : Text
  actions : ActionSequence
  heartbeat : Option DeadlineTimer

namespace Handler

/-- A handler with its address known, before its connection opens. -/
def initial (isSecure : Bool) (host websocketToken : Text) (actions : ActionSequence) : Handler :=
  ⟨[], isSecure, host, websocketToken, actions, none⟩

def findFirstOf (chars t : Text) : Option Nat := t.findIdx? (fun c => decide (c ∈ chars))

/-- The constructor.  `protocol_start` is an `int`, in which npos is -1. -/
def construct (uri : Text) (actionSequence : ActionSequence) : Except Failure Handler :=
  let protocolStart : Int := match findFirstOf "://".toList uri with
    | some i => i
    | none => -1
  let hostStart := (protocolStart + 3).toNat
  if uri.length < hostStart then .error .iteratorRange
  else .ok (initial (decide (protocolStart = 5)) (uri.drop hostStart) [] actionSequence)

/-! ### The token request -/

/-- What the HTTP client makes of a request: an exception, or status and body. -/
inductive HttpResponse where
  | raised (what : String)
  | received (status : Nat) (body : Text)

def tokenUrl (h : Handler) (host : Text) (random : Nat) : Text :=
  (if h.isSecure then "https://".toList else "http://".toList) ++ host ++
    "/socket.io/1/?t=".toList ++ Nat.toDigits 10 random

def getToken (h : Handler) (http : Text → HttpResponse) (random : Nat) (host : Text) :
    Except Failure Text :=
  match http (h.tokenUrl host random) with
  | .raised what => .error (.runtimeError what)
  | .received status body =>
      if status = 200 then .ok (body.takeWhile (fun c => c ≠ ':'))
      else .error .exit

def loadToken (h : Handler) (http : Text → HttpResponse) (random : Nat) :
    Except Failure Handler :=
  match h.getToken http random h.host with
  | .error e => .error e
  | .ok token => .ok { h with websocketToken := token }

def websocketUri (h : Handler) : Text :=
  (if h.isSecure then "wss://".toList else "ws://".toList) ++ h.host ++
    "/socket.io/1/websocket/".toList ++ h.websocketToken

/-! ### Messages -/

/-- The body of a message as a document; null when it does not parse. -/
def parseMessage [CDouble] (message : Text) : Except Failure Value :=
  if message.length < 4 then .error .iteratorRange
  else if (parse (message.drop 4)).1 then .ok (parse (message.drop 4)).2.1
  else .ok .nullValue

/-- `root["args"][0]["sessionId"].asString()`. -/
def sessionIdOf [CDouble] (root : Value) : Except Failure Text :=
  match root.resolveReference "args".toList with
  | .error e => .error e
  | .ok (args, _) =>
      match args.operatorIndex 0 with
      | .error e => .error e
      | .ok (first, _) =>
          match first.resolveReference "sessionId".toList with
          | .error e => .error e
          | .ok (id, _) => id.asString

def parseSessionId [CDouble] (message : Text) : Except Failure Text :=
  match parseMessage message with
  | .error e => .error e
  | .ok root => sessionIdOf root

/-- A text as `_log_message` prints it: its body as a document when it has one. -/
def logged [CDouble] (message : Text) : Except Failure Text :=
  if 4 < message.length then
    match parseMessage message with
    | .error e => .error e
    | .ok root => StyledWriter.write root
  else .ok message

def logMessage [CDouble] [BoostFormat] (message : Text) (nextMessage : BoostFormat.Fmt) :
    Except Failure Text :=
  match logged message with
  | .error e => .error e
  | .ok received =>
      match messageText nextMessage with
      | .error e => .error e
      | .ok next =>
          match logged next with
          | .error e => .error e
          | .ok next => .ok ("message received:\n".toList ++ received ++
              "\nnext message:\n".toList ++ next ++ "\n\n".toList)

/-! ### The heartbeat -/

def resetHeartbeat (h : Handler) : Except Failure Handler :=
  match h.heartbeat with
  | none => .error .nullHeartbeat
  | some t => .ok { h with heartbeat := some t.expiresFromNow.asyncWait }

def onHeartbeatTimeout (error : ErrorCode) : Except Failure (List Call) :=
  match error with
  | .success => .ok [.send .heartbeat heartbeatText]
  | .operationAborted => .ok []
  | .other _ => .error .exit

/-! ### Event handlers -/

/-- `payload.substr(0, 3) == "5::"`. -/
def IsEvent (payload : Text) : Prop := payload.take 3 = ['5', ':', ':']

/-- `payload.substr(0, 3) == "2::"`. -/
def IsHeartbeat (payload : Text) : Prop := payload.take 3 = heartbeatText

instance (payload : Text) : Decidable (IsEvent payload) := inferInstanceAs (Decidable (_ = _))
instance (payload : Text) : Decidable (IsHeartbeat payload) := inferInstanceAs (Decidable (_ = _))

/-- `if (sessionid.empty()) sessionid = _parse_session_id(payload);` -/
def captureSessionId [CDouble] (sessionid payload : Text) : Except Failure Text :=
  if sessionid = [] then parseSessionId payload else .ok sessionid

/-- The end of the `5::` branch, from `next_message` on. -/
def answerWith [CDouble] [BoostFormat] (payload sessionid nextMessage : Text) (index : Nat) :
    Except Failure Call :=
  if nextMessage = stop then .ok endOfSequence
  else
    match formattedMessage nextMessage sessionid with
    | .error e => .error e
    | .ok formatted =>
        match logMessage payload formatted with
        | .error e => .error e
        | .ok _ =>
            match messageText formatted with
            | .error e => .error e
            | .ok t => .ok (.send (.action index) t)

/-- The `5::` branch. -/
def onEvent [CDouble] [BoostFormat] (h : Handler) (payload : Text) :
    Except Failure (Handler × List Call) :=
  match captureSessionId h.sessionid payload with
  | .error e => .error e
  | .ok sessionid =>
      match h.actions.nextAction with
      | .error e => .error e
      | .ok (nextMessage, actions) =>
          match answerWith payload sessionid nextMessage h.actions.lastIndex with
          | .error e => .error e
          | .ok call => .ok ({ h with sessionid := sessionid, actions := actions }, [call])

def onMessage [CDouble] [BoostFormat] (h : Handler) (payload : Text) :
    Except Failure (Handler × List Call) :=
  match h.resetHeartbeat with
  | .error e => .error e
  | .ok h =>
      if IsEvent payload then h.onEvent payload
      else if IsHeartbeat payload then .ok (h, [.send .heartbeat heartbeatText])
      else .ok (h, [])

def onClose (h : Handler) : Except Failure Handler :=
  match h.heartbeat with
  | none => .error .nullHeartbeat
  | some t => .ok { h with heartbeat := some t.cancel }

def onOpen [CDouble] (h : Handler) : Except Failure (Handler × List Call) :=
  match { h with heartbeat := some .idle }.resetHeartbeat with
  | .error e => .error e
  | .ok h =>
      match h.actions.nextAction with
      | .error e => .error e
      | .ok (action, actions) =>
          .ok ({ h with actions := actions }, [.send (.action h.actions.lastIndex) action])

def onFail : Failure := .exit

/-! ### What the methods do when they return

One lemma a method; nothing later unfolds them. -/

theorem parseMessage_ok [CDouble] {message : Text} (h : 4 ≤ message.length) :
    ∃ root, parseMessage message = .ok root := by
  rw [parseMessage, if_neg (Nat.not_lt.mpr h)]
  split
  · exact ⟨_, rfl⟩
  · exact ⟨_, rfl⟩

theorem logged_ok [CDouble] (message : Text) : ∃ t, logged message = .ok t := by
  rw [logged]
  by_cases h : 4 < message.length
  · obtain ⟨root, hroot⟩ := parseMessage_ok (Nat.le_of_lt h)
    obtain ⟨t, ht⟩ := StyledWriter.write_ok root
    exact ⟨t, by simp only [if_pos h, hroot, ht]⟩
  · exact ⟨message, if_neg h⟩

/-- Logging fails only with the formatted message itself. -/
theorem logMessage_ok [CDouble] [BoostFormat] (message : Text) {nextMessage : BoostFormat.Fmt}
    {t : Text} (h : messageText nextMessage = .ok t) :
    ∃ log, logMessage message nextMessage = .ok log := by
  obtain ⟨received, hreceived⟩ := logged_ok message
  obtain ⟨next, hnext⟩ := logged_ok t
  simp only [logMessage, hreceived, h, hnext]
  exact ⟨_, rfl⟩

theorem answerWith_stop [CDouble] [BoostFormat] (payload sessionid : Text) (index : Nat) :
    answerWith payload sessionid stop index = .ok endOfSequence := by
  rw [answerWith, if_pos rfl]

/-- The answer to an event is the formatted action, whatever the log makes of it. -/
theorem answerWith_action [CDouble] [BoostFormat] (payload sessionid : Text) {action : Text}
    (index : Nat) (haction : action ≠ stop) :
    answerWith payload sessionid action index =
      (formatAction action sessionid).map (Call.send (.action index)) := by
  rw [answerWith, if_neg haction, formatAction]
  cases hformat : formattedMessage action sessionid with
  | error e => rfl
  | ok formatted =>
    cases htext : messageText formatted with
    | error e =>
      obtain ⟨received, hreceived⟩ := logged_ok payload
      simp only [logMessage, hreceived, htext]
      rfl
    | ok t =>
      obtain ⟨log, hlog⟩ := logMessage_ok payload htext
      simp only [hlog, htext]
      rfl

theorem answerWith_ok_cases [CDouble] [BoostFormat] {payload sessionid action : Text} {index : Nat}
    {call : Call} (h : answerWith payload sessionid action index = .ok call) :
    (action = stop ∧ call = endOfSequence) ∨
      (action ≠ stop ∧
        ∃ t, formatAction action sessionid = .ok t ∧ call = .send (.action index) t) := by
  by_cases hstop : action = stop
  · subst hstop
    rw [answerWith_stop] at h
    cases h
    exact Or.inl ⟨rfl, rfl⟩
  · rw [answerWith_action payload sessionid index hstop] at h
    cases hformat : formatAction action sessionid with
    | error e =>
      rw [hformat] at h
      cases h
    | ok t =>
      rw [hformat] at h
      cases h
      exact Or.inr ⟨hstop, t, rfl, rfl⟩

/-- The handler with its timer armed afresh. -/
def rearmed (h : Handler) (t : DeadlineTimer) : Handler :=
  { h with heartbeat := some t.expiresFromNow.asyncWait }

theorem resetHeartbeat_of_some {h : Handler} {t : DeadlineTimer} (ht : h.heartbeat = some t) :
    h.resetHeartbeat = .ok (h.rearmed t) := by
  simp only [resetHeartbeat, ht, rearmed]

/-- Everything `onMessage` can do on an open connection. -/
theorem onMessage_eq [CDouble] [BoostFormat] {h : Handler} {t : DeadlineTimer}
    (ht : h.heartbeat = some t) (payload : Text) :
    h.onMessage payload =
      if IsEvent payload then (h.rearmed t).onEvent payload
      else if IsHeartbeat payload then
        .ok (h.rearmed t, [.send .heartbeat heartbeatText])
      else .ok (h.rearmed t, []) := by
  simp only [onMessage, resetHeartbeat_of_some ht]

theorem onEvent_ok_iff [CDouble] [BoostFormat] {h h' : Handler} {payload : Text}
    {calls : List Call} :
    h.onEvent payload = .ok (h', calls) ↔
      ∃ sessionid action actions call,
        captureSessionId h.sessionid payload = .ok sessionid ∧
        h.actions.nextAction = .ok (action, actions) ∧
        answerWith payload sessionid action h.actions.lastIndex = .ok call ∧
        h' = { h with sessionid := sessionid, actions := actions } ∧ calls = [call] := by
  constructor
  · intro hev
    unfold onEvent at hev
    split at hev
    · cases hev
    rename_i sessionid hsid
    split at hev
    · cases hev
    rename_i action actions hnext
    split at hev
    · cases hev
    rename_i call hcall
    cases hev
    exact ⟨sessionid, action, actions, call, hsid, hnext, hcall, rfl, rfl⟩
  · rintro ⟨sessionid, action, actions, call, hsid, hnext, hcall, rfl, rfl⟩
    simp only [onEvent, hsid, hnext, hcall]

/-- A message that is no event leaves everything but the timer alone. -/
theorem onMessage_of_not_isEvent [CDouble] [BoostFormat] {h : Handler} {t : DeadlineTimer}
    (ht : h.heartbeat = some t) {payload : Text} (hev : ¬ IsEvent payload) :
    ∃ calls, h.onMessage payload = .ok (h.rearmed t, calls) ∧
      ∀ call ∈ calls, call = .send .heartbeat heartbeatText := by
  rw [onMessage_eq ht, if_neg hev]
  by_cases hbeat : IsHeartbeat payload
  · rw [if_pos hbeat]
    exact ⟨_, rfl, by simp⟩
  · rw [if_neg hbeat]
    exact ⟨_, rfl, by simp⟩

theorem onOpen_ok_iff [CDouble] {h h' : Handler} {calls : List Call} :
    h.onOpen = .ok (h', calls) ↔
      ∃ action actions, h.actions.nextAction = .ok (action, actions) ∧
        h' = { h with heartbeat := some DeadlineTimer.idle.expiresFromNow.asyncWait,
                      actions := actions } ∧
        calls = [.send (.action h.actions.lastIndex) action] := by
  constructor
  · intro hopen
    simp only [onOpen, resetHeartbeat] at hopen
    split at hopen
    · cases hopen
    rename_i action actions hnext
    cases hopen
    exact ⟨action, actions, hnext, rfl, rfl⟩
  · rintro ⟨action, actions, hnext, rfl, rfl⟩
    simp only [onOpen, resetHeartbeat, hnext]

theorem onHeartbeatTimeout_of_complete {t t' : DeadlineTimer} {i : Nat} {error : ErrorCode}
    (h : t.complete i = some (error, t')) :
    ∃ calls, onHeartbeatTimeout error = .ok calls ∧
      ∀ call ∈ calls, call = .send .heartbeat heartbeatText := by
  obtain ⟨-, ⟨-, rfl⟩ | ⟨-, rfl⟩⟩ := DeadlineTimer.complete_cases h
  · exact ⟨_, rfl, by simp⟩
  · exact ⟨_, rfl, by simp⟩

end Handler

end SocketIOStress
