import SocketIOStress.Session

/-!
# What the server can do with a message

Two questions about the payloads of `on_message`: which session id a session ends
up with, and which payloads the handler survives.  Both turn on
`_parse_session_id`, which walks from the root of the body to
`root["args"][0]["sessionId"]` and fails wherever a container is missing but
something else than null is there.
-/

namespace SocketIOStress

open SocketIOStress.Json Waits FallibleRun

namespace Handler

/-! ### The id a session is given -/

section SessionId

variable [CDouble]

/-- The body of a message as a document, if it is one. -/
def bodyOf (payload : Text) : Option Value :=
  if (parse (payload.drop 4)).1 then some (parse (payload.drop 4)).2.1 else none

/-- `args[0].sessionId` in a document, as a string; empty where there is none. -/
def idIn (root : Value) : Text :=
  match root.get? [.name "args".toList, .index 0, .name "sessionId".toList] with
  | none => []
  | some id => id.asString.toOption.getD []

/-- The id a message carries, whatever the handler does to find it. -/
def carriedId (payload : Text) : Text :=
  match bodyOf payload with
  | none => []
  | some root => idIn root

/-- The ids in the `5::` messages, in order. -/
def eventIds (events : List Event) : List Text :=
  events.filterMap (fun e => match e with
    | .message payload => if IsEvent payload then some (carriedId payload) else none
    | _ => none)

/-- The first of them that is not empty; empty when there is none. -/
def firstId (events : List Event) : Text :=
  ((eventIds events).find? (fun id => decide (id ≠ []))).getD []

/-! The handler looks the id up with operators that insert what is missing; where
they return, they return what stands at the path. -/

theorem sessionIdOf_eq_idIn {root : Value} {id : Text} (h : sessionIdOf root = .ok id) :
    id = idIn root := by
  unfold sessionIdOf at h
  split at h
  · cases h
  rename_i args _ hargs
  split at h
  · cases h
  rename_i first _ hfirst
  split at h
  · cases h
  rename_i value _ hvalue
  -- each operator goes one step down the path, or stays at null
  have hpath : value = (root.get? [.name "args".toList, .index 0,
      .name "sessionId".toList]).getD .nullValue := by
    rw [Value.child?_of_resolveReference hvalue, Value.child?_of_operatorIndex hfirst,
      Value.child?_of_resolveReference hargs, Value.child?_getD, Value.child?_getD]
    simp only [Value.get?_cons, Value.get?_nil, Option.bind_fun_some, Option.bind_assoc]
  unfold idIn
  cases hget : root.get? [.name "args".toList, .index 0, .name "sessionId".toList] with
  | none =>
    rw [hpath, hget] at h
    cases h
    rfl
  | some found =>
    rw [hpath, hget, Option.getD_some] at h
    simp only [h, Except.toOption, Option.getD_some]

/-- **What the handler extracts** is the id the message carries. -/
theorem parseSessionId_eq_carriedId {payload id : Text} (h : parseSessionId payload = .ok id) :
    id = carriedId payload := by
  unfold parseSessionId parseMessage at h
  unfold carriedId bodyOf
  by_cases hlen : payload.length < 4
  · rw [if_pos hlen] at h
    cases h
  · rw [if_neg hlen] at h
    by_cases hok : (parse (payload.drop 4)).1 = true
    · rw [if_pos hok] at h ⊢
      exact sessionIdOf_eq_idIn h
    · rw [if_neg hok] at h ⊢
      cases h
      rfl

theorem firstId_nil : firstId [] = [] := rfl

theorem firstId_append (pre suf : List Event) :
    firstId (pre ++ suf) = if firstId pre = [] then firstId suf else firstId pre := by
  have happend : eventIds (pre ++ suf) = eventIds pre ++ eventIds suf := List.filterMap_append
  unfold firstId
  rw [happend, List.find?_append]
  cases hfind : (eventIds pre).find? (fun id => decide (id ≠ [])) with
  | none => rfl
  | some id =>
    have hne : id ≠ [] := by simpa using List.find?_some hfind
    rw [Option.some_or, Option.getD_some, if_neg hne]

/-- What one event adds: the id of a `5::` message, and nothing else. -/
theorem firstId_singleton_of_quiet {e : Event} (hquiet : Quiet e) : firstId [e] = [] := by
  cases e with
  | message payload =>
    have hnot : ¬ IsEvent payload := hquiet
    simp [firstId, eventIds, hnot]
  | expire i => rfl
  | complete i => rfl

theorem firstId_singleton_of_isEvent {payload : Text} (hev : IsEvent payload) :
    firstId [.message payload] = carriedId payload := by
  simp only [firstId, eventIds, List.filterMap_cons, if_pos hev, List.filterMap_nil]
  by_cases hid : carriedId payload = []
  · simp [hid]
  · simp [hid]

/-- Capturing takes the id of the message when there is none yet. -/
theorem captureSessionId_firstId {sessionid payload id : Text} (hev : IsEvent payload)
    (hcapture : captureSessionId sessionid payload = .ok id) :
    id = if sessionid = [] then firstId [.message payload] else sessionid := by
  rw [firstId_singleton_of_isEvent hev]
  unfold captureSessionId at hcapture
  by_cases hempty : sessionid = []
  · rw [if_pos hempty] at hcapture ⊢
    exact parseSessionId_eq_carriedId hcapture
  · rw [if_neg hempty] at hcapture ⊢
    cases hcapture
    rfl

variable [BoostFormat]

theorem step_firstId {h h' : Handler} {e : Event} {calls : List Call}
    (harmed : h.heartbeat.isSome) (hstep : h.step e = .ok (h', calls)) :
    h'.sessionid = if h.sessionid = [] then firstId [e] else h.sessionid := by
  obtain ⟨hquiet, hevent⟩ := step_sessionid harmed hstep
  rcases quiet_or_event e with hq | ⟨payload, rfl, hev⟩
  · rw [hquiet hq, firstId_singleton_of_quiet hq]
    split
    · assumption
    · rfl
  · exact captureSessionId_firstId hev (hevent payload rfl hev)

theorem run_firstId {h h' : Handler} {events : List Event} {trace : List (List Call)}
    (harmed : h.heartbeat.isSome) (hrun : run step h events = .ok (h', trace)) :
    h'.sessionid = if h.sessionid = [] then firstId events else h.sessionid := by
  induction events generalizing h trace with
  | nil =>
    cases hrun
    rw [firstId_nil]
    split
    · assumption
    · rfl
  | cons e events ih =>
    obtain ⟨m, calls, trace', hstep, hrest, -⟩ := run_cons_ok_iff.mp hrun
    have hm := step_firstId harmed hstep
    have hsplit : firstId (e :: events) =
        if firstId [e] = [] then firstId events else firstId [e] := firstId_append [e] events
    rw [ih (step_armed harmed hstep) hrest, hm, hsplit]
    by_cases hempty : h.sessionid = []
    · rw [if_pos hempty, if_pos hempty]
    · rw [if_neg hempty, if_neg hempty, if_neg hempty]

/-- What a `5::` message is answered with when `action` is at the cursor: the close
    request for `stop`, else the one frame the action is formatted to, which for a
    clean action is the action with the id in its marks. -/
structure AnsweredWith (action sessionid : Text) (index : Nat) (calls : List Call) : Prop where
  ends : action = stop → calls = [endOfSequence]
  formatted : action ≠ stop → ∃ t, formatAction action sessionid = .ok t ∧
    calls = [.send (.action index) t]
  substituted : action ≠ stop → Clean action →
    calls = [.send (.action index) (substitute sessionid action)]

theorem answeredWith_of_answerWith {payload sessionid action : Text} {index : Nat} {call : Call}
    (h : answerWith payload sessionid action index = .ok call) :
    AnsweredWith action sessionid index [call] := by
  rcases answerWith_ok_cases h with ⟨hstop, rfl⟩ | ⟨hstop, t, hformat, rfl⟩
  · exact ⟨fun _ => rfl, fun hne => absurd hstop hne, fun hne => absurd hstop hne⟩
  · refine ⟨fun heq => absurd heq hstop, fun _ => ⟨t, hformat, rfl⟩, ?_⟩
    intro _ hclean
    rw [formatAction_of_clean hclean] at hformat
    cases hformat
    rfl

/-- At every point of a session the id is the first one the messages carried. -/
theorem session_firstId {isSecure : Bool} {host token content : Text} {events : List Event}
    {h : Handler} {trace : List (List Call)}
    (hsession : (loaded isSecure host token content).session events = .ok (h, trace)) :
    h.heartbeat.isSome ∧ h.sessionid = firstId events := by
  obtain ⟨m, calls, trace', hopen, hrun, -⟩ := session_ok_iff.mp hsession
  obtain ⟨action, actions, -, hm, -⟩ := onOpen_ok_iff.mp hopen
  have harmed := (armed_of_onOpen hopen).1
  have hempty : m.sessionid = [] := by
    rw [hm]
    rfl
  exact ⟨armed_of_run harmed hrun, by rw [run_firstId harmed hrun, if_pos hempty]⟩

/-- **The session id is captured once.**  At every point of a session the id is the
    first one, not empty, that the `5::` messages up to there carried; and each
    `5::` message is answered, with the id as it is after that very message, by
    the action at the cursor. -/
theorem sessionid_is_firstId {isSecure : Bool} {host token content : Text} {events : List Event}
    {h' : Handler} {trace : List (List Call)}
    (hsession : (loaded isSecure host token content).session events = .ok (h', trace)) :
    h'.sessionid = firstId events ∧
      (∀ pre suf, events = pre ++ suf → ∃ m before,
        (loaded isSecure host token content).session pre = .ok (m, before) ∧
          m.sessionid = firstId pre) ∧
      ∀ pre payload suf, events = pre ++ .message payload :: suf → IsEvent payload →
        ∃ m before m' calls after action actions,
          (loaded isSecure host token content).session pre = .ok (m, before) ∧
          m.step (.message payload) = .ok (m', calls) ∧
          trace = before ++ calls :: after ∧
          m'.sessionid = firstId (pre ++ [.message payload]) ∧
          m.actions.nextAction = .ok (action, actions) ∧
          AnsweredWith action m'.sessionid m.actions.lastIndex calls := by
  refine ⟨(session_firstId hsession).2, ?_, ?_⟩
  · rintro pre suf rfl
    obtain ⟨m, before, after, hpre, -, -⟩ := session_of_append hsession
    exact ⟨m, before, hpre, (session_firstId hpre).2⟩
  · rintro pre payload suf rfl hev
    obtain ⟨m, before, after, hpre, hsuf, htrace⟩ := session_of_append hsession
    obtain ⟨m', calls, after', hstep, -, hafter⟩ := run_cons_ok_iff.mp hsuf
    obtain ⟨harmed, hsid⟩ := session_firstId hpre
    have hsid' : m'.sessionid = firstId (pre ++ [.message payload]) := by
      rw [step_firstId harmed hstep, hsid, firstId_append]
    obtain ⟨timer, htimer⟩ := Option.isSome_iff_exists.mp harmed
    rw [step_of_isEvent htimer hev, onEvent_ok_iff] at hstep
    have hstep' := hstep
    obtain ⟨sessionid, action, actions, call, -, hnext, hanswer, rfl, rfl⟩ := hstep
    refine ⟨m, before, _, [call], after', action, actions, hpre, ?_, ?_, hsid', hnext,
      answeredWith_of_answerWith hanswer⟩
    · rw [step_of_isEvent htimer hev, onEvent_ok_iff]
      exact hstep'
    · rw [htrace, hafter]

end SessionId

section Login

open Plain

/-- An answer without a body, one that carries the id, and one with another. -/
theorem sessionid_is_firstId_login :
    ∃ h' trace, (loaded false [] [] "[\"0\"]".toList).session
        [.message "5:::".toList,
          .message "5:::\x7b\"args\":[\x7b\"sessionId\":\"7\"\x7d]\x7d".toList,
          .message "5:::\x7b\"args\":[\x7b\"sessionId\":\"8\"\x7d]\x7d".toList] = .ok (h', trace) ∧
      h'.sessionid = "7".toList := by
  obtain ⟨⟨h', trace⟩, hsession⟩ := exists_ok_of_isSome (by decide +kernel :
    ((loaded false [] [] "[\"0\"]".toList).session
        [.message "5:::".toList,
          .message "5:::\x7b\"args\":[\x7b\"sessionId\":\"7\"\x7d]\x7d".toList,
          .message "5:::\x7b\"args\":[\x7b\"sessionId\":\"8\"\x7d]\x7d".toList]).toOption.isSome =
      true)
  exact ⟨h', trace, hsession, (sessionid_is_firstId hsession).1.trans (by decide +kernel)⟩

end Login

/-! ### Bodies the id can be read from -/

/-- `root["args"][0]`: null, or an object whose `sessionId` converts to a string. -/
def IdReadable : Value → Prop
  | .nullValue => True
  | .objectValue members => (Value.memberAt members "sessionId".toList).IsScalar
  | _ => False

/-- `root["args"]`: null, or an array whose first element, if any, is as above. -/
def ArgsReadable : Value → Prop
  | .nullValue => True
  | .arrayValue elements => ∀ first, elements[0]? = some first → IdReadable first
  | _ => False

def RootReadable : Value → Prop
  | .nullValue => True
  | .objectValue members => ArgsReadable (Value.memberAt members "args".toList)
  | _ => False

/-- The payload is long enough for its prefix, and its body, if it is JSON, has no
    other shape than the one the id is looked up in. -/
def Readable [CDouble] (payload : Text) : Prop :=
  4 ≤ payload.length ∧
    ((parse (payload.drop 4)).1 = true → RootReadable (parse (payload.drop 4)).2.1)

section Reading

variable [CDouble]

theorem id_ok_iff (first : Value) :
    (∃ t, (match first.resolveReference "sessionId".toList with
      | .error e => Except.error e
      | .ok (id, _) => id.asString) = .ok t) ↔ IdReadable first := by
  cases first with
  | nullValue => exact ⟨fun _ => trivial, fun _ => ⟨[], rfl⟩⟩
  | objectValue members => exact Value.asString_ok_iff_isScalar _
  | _ =>
    constructor
    · rintro ⟨t, ht⟩
      cases ht
    · intro h
      cases h

theorem args_ok_iff (args : Value) :
    (∃ t, (match args.operatorIndex 0 with
      | .error e => Except.error e
      | .ok (first, _) =>
          match first.resolveReference "sessionId".toList with
          | .error e => .error e
          | .ok (id, _) => id.asString) = .ok t) ↔ ArgsReadable args := by
  cases args with
  | nullValue => exact ⟨fun _ => trivial, fun _ => ⟨[], rfl⟩⟩
  | arrayValue elements =>
    simp only [Value.operatorIndex, ArgsReadable]
    cases elements[0]? with
    | none =>
      refine ⟨?_, fun _ => ⟨[], rfl⟩⟩
      intro _ first hfirst
      cases hfirst
    | some first =>
      refine (id_ok_iff first).trans ⟨?_, ?_⟩
      · rintro h _ ⟨⟩
        exact h
      · intro h
        exact h first rfl
  | _ =>
    constructor
    · rintro ⟨t, ht⟩
      cases ht
    · intro h
      cases h

/-- Reading the id fails exactly on the other shapes. -/
theorem sessionIdOf_ok_iff (root : Value) :
    (∃ t, sessionIdOf root = .ok t) ↔ RootReadable root := by
  cases root with
  | nullValue => exact ⟨fun _ => trivial, fun _ => ⟨[], rfl⟩⟩
  | objectValue members => exact args_ok_iff _
  | _ =>
    constructor
    · rintro ⟨t, ht⟩
      cases ht
    · intro h
      cases h

theorem parseSessionId_ok_iff (payload : Text) :
    (∃ t, parseSessionId payload = .ok t) ↔ Readable payload := by
  unfold parseSessionId parseMessage Readable
  by_cases hlen : payload.length < 4
  · rw [if_pos hlen]
    constructor
    · rintro ⟨t, ht⟩
      cases ht
    · rintro ⟨h, -⟩
      omega
  · rw [if_neg hlen]
    by_cases hok : (parse (payload.drop 4)).1 = true
    · rw [if_pos hok]
      refine (sessionIdOf_ok_iff _).trans ⟨?_, ?_⟩
      · intro h
        exact ⟨by omega, fun _ => h⟩
      · rintro ⟨-, h⟩
        exact h hok
    · rw [if_neg hok]
      constructor
      · intro _
        exact ⟨by omega, fun h => absurd h hok⟩
      · intro _
        exact ⟨[], rfl⟩

theorem captureSessionId_returns_iff (sessionid payload : Text) :
    (∃ id, captureSessionId sessionid payload = .ok id) ↔ (sessionid = [] → Readable payload) := by
  unfold captureSessionId
  by_cases hempty : sessionid = []
  · rw [if_pos hempty, parseSessionId_ok_iff]
    simp [hempty]
  · rw [if_neg hempty]
    simp [hempty]

end Reading

/-! ### The cursor of a reachable handler -/

/-- The element at the cursor, if there is one, converts to a string. -/
def CursorScalar (s : ActionSequence) : Prop :=
  ∀ elements element, s.actions = .arrayValue elements → elements[s.lastIndex]? = some element →
    element.IsScalar

/-- No text from the cursor on contains a `%`. -/
def RemainingFree [CDouble] (s : ActionSequence) : Prop :=
  ∀ elements i element t, s.actions = .arrayValue elements → s.lastIndex ≤ i →
    elements[i]? = some element → element.asString = .ok t → '%' ∉ t

/-- Elements are left only where the root is an array. -/
def CursorInArray (s : ActionSequence) : Prop :=
  s.lastIndex < s.actions.size → ∃ elements, s.actions = .arrayValue elements

section Cursor

variable [CDouble]

theorem nextAction_cursorInArray {s s' : ActionSequence} {action : Text}
    (h : s.nextAction = .ok (action, s')) : CursorInArray s' := by
  intro hlt
  unfold ActionSequence.nextAction at h
  split at h
  · rename_i hguard
    split at h
    · cases h
    rename_i element actions hindex
    split at h
    · cases h
    cases h
    cases hactions : s.actions with
    | arrayValue elements =>
      rw [hactions] at hindex hguard
      obtain ⟨e, he⟩ : ∃ e, elements[s.lastIndex]? = some e :=
        ⟨_, List.getElem?_eq_getElem hguard⟩
      simp only [Value.operatorIndex, he, Except.ok.injEq, Prod.mk.injEq] at hindex
      exact ⟨elements, hindex.2.symm⟩
    | objectValue members =>
      rw [hactions] at hindex
      cases hindex
    | _ =>
      rw [hactions] at hguard
      exact absurd hguard (Nat.not_lt_zero _)
  · rename_i hguard
    cases h
    exact absurd hlt hguard

theorem nextAction_returns_iff {s : ActionSequence} (hs : CursorInArray s) :
    (∃ r, s.nextAction = .ok r) ↔ CursorScalar s := by
  by_cases hguard : s.lastIndex < s.actions.size
  · obtain ⟨elements, hactions⟩ := hs hguard
    have hself : s = ActionSequence.ofArray elements s.lastIndex := by
      cases s
      cases hactions
      rfl
    rw [hactions] at hguard
    have hget : elements[s.lastIndex]? = some elements[s.lastIndex] :=
      List.getElem?_eq_getElem hguard
    have hnext := ActionSequence.nextAction_ofArray_of_lt hget
    rw [← hself] at hnext
    rw [hnext]
    have hscalar : CursorScalar s ↔ (elements[s.lastIndex]).IsScalar := by
      constructor
      · intro h
        exact h elements _ hactions hget
      · intro h elements' element heq helement
        rw [hactions, Value.arrayValue.injEq] at heq
        subst heq
        rw [hget, Option.some.injEq] at helement
        rw [← helement]
        exact h
    rw [hscalar, ← Value.asString_ok_iff_isScalar]
    cases (elements[s.lastIndex]).asString with
    | error e => simp
    | ok t => simp
  · refine ⟨?_, ?_⟩
    · intro _ elements element hactions helement
      have hlt : s.lastIndex < elements.length := (List.getElem?_eq_some_iff.mp helement).1
      rw [hactions] at hguard
      exact absurd hlt hguard
    · intro _
      exact ⟨(stop, s), if_neg hguard⟩

/-- What `nextAction` returns is `stop` or the text of the element at the cursor. -/
theorem nextAction_free {s s' : ActionSequence} {action : Text} (hs : CursorInArray s)
    (hfree : RemainingFree s) (h : s.nextAction = .ok (action, s')) :
    action = stop ∨ '%' ∉ action := by
  by_cases hguard : s.lastIndex < s.actions.size
  · obtain ⟨elements, hactions⟩ := hs hguard
    have hself : s = ActionSequence.ofArray elements s.lastIndex := by
      cases s
      cases hactions
      rfl
    rw [hactions] at hguard
    have hget : elements[s.lastIndex]? = some elements[s.lastIndex] :=
      List.getElem?_eq_getElem hguard
    rw [hself, ActionSequence.nextAction_ofArray_of_lt hget] at h
    cases hstring : (elements[s.lastIndex]).asString with
    | error e =>
      rw [hstring] at h
      cases h
    | ok t =>
      rw [hstring] at h
      cases h
      exact Or.inr (hfree elements _ _ _ hactions (Nat.le_refl _) hget hstring)
  · have hstop : s.nextAction = .ok (stop, s) := if_neg hguard
    rw [hstop] at h
    cases h
    exact Or.inl rfl

end Cursor

/-! ### Which messages the handler survives -/

section Survival

variable [CDouble] [BoostFormat]

/-- What holds of the handler from `on_open` on. -/
def Opened (h : Handler) : Prop := h.heartbeat.isSome ∧ CursorInArray h.actions

theorem opened_step {h h' : Handler} {e : Event} {calls : List Call} (hopened : Opened h)
    (hstep : h.step e = .ok (h', calls)) : Opened h' := by
  obtain ⟨harmed, hcursor⟩ := hopened
  refine ⟨step_armed harmed hstep, ?_⟩
  cases event_effect harmed hstep with
  | quiet hquiet hbeats => exact hcursor
  | answers hev hcapture hnext hanswer => exact nextAction_cursorInArray hnext

theorem opened_of_session {h h' : Handler} {events : List Event} {trace : List (List Call)}
    (hsession : h.session events = .ok (h', trace)) : Opened h' := by
  obtain ⟨m, calls, trace', hopen, hrun, -⟩ := session_ok_iff.mp hsession
  obtain ⟨action, actions, hnext, hm, -⟩ := onOpen_ok_iff.mp hopen
  refine run_invariant (fun s a s' b hs hstep => opened_step hs hstep) hrun
    ⟨(armed_of_onOpen hopen).1, ?_⟩
  rw [hm]
  exact nextAction_cursorInArray hnext

theorem answerWith_returns (payload sessionid : Text) {action : Text} (index : Nat)
    (h : action = stop ∨ '%' ∉ action) :
    ∃ call, answerWith payload sessionid action index = .ok call := by
  by_cases hstop : action = stop
  · subst hstop
    exact ⟨_, answerWith_stop payload sessionid index⟩
  · have hfree := h.resolve_left hstop
    rw [answerWith_action payload sessionid index hstop, formatAction_of_not_mem hfree]
    exact ⟨_, rfl⟩

/-- A failure to read the id is a failure of `on_message`. -/
theorem onMessage_of_unreadable {h : Handler} {t : DeadlineTimer} (ht : h.heartbeat = some t)
    (hempty : h.sessionid = []) {payload : Text} (hev : IsEvent payload) {e : Failure}
    (hfail : parseSessionId payload = .error e) : h.onMessage payload = .error e := by
  rw [onMessage_eq ht, if_pos hev]
  have hcapture : captureSessionId h.sessionid payload = .error e := by
    rw [captureSessionId, if_pos hempty, hfail]
  simp only [onEvent, rearmed, hcapture]

omit [CDouble] [BoostFormat] in
/-- Over an array of strings the cursor always stands before a string. -/
theorem cursorScalar_ofScript (script : List Text) (i : Nat) :
    CursorScalar (.ofScript script i) := by
  intro elements element hactions helement
  cases hactions
  rw [List.getElem?_map, Option.map_eq_some_iff] at helement
  obtain ⟨t, -, rfl⟩ := helement
  trivial

omit [BoostFormat] in
theorem remainingFree_ofScript {script : List Text} (hfree : ∀ a ∈ script, '%' ∉ a) (i : Nat) :
    RemainingFree (.ofScript script i) := by
  intro elements j element t hactions _ helement hstring
  cases hactions
  rw [List.getElem?_map, Option.map_eq_some_iff] at helement
  obtain ⟨a, hget, rfl⟩ := helement
  have htext : a = t := Except.ok.inj hstring
  rw [← htext]
  exact hfree a (List.mem_of_getElem? hget)

/-- **Which messages return.**  In every state of a session whose remaining script is
    free of `%`, `on_message` returns on a payload exactly when it is no `5::`
    message, or the id, where it is still missing, can be looked up in its body and
    the element at the cursor converts to a string. -/
theorem onMessage_returns_iff {isSecure : Bool} {host token content : Text} {events : List Event}
    {h : Handler} {trace : List (List Call)}
    (hsession : (loaded isSecure host token content).session events = .ok (h, trace))
    (hfree : RemainingFree h.actions) (payload : Text) :
    (∃ h' calls, h.onMessage payload = .ok (h', calls)) ↔
      (IsEvent payload → (h.sessionid = [] → Readable payload) ∧ CursorScalar h.actions) := by
  obtain ⟨harmed, hcursor⟩ := opened_of_session hsession
  obtain ⟨t, ht⟩ := Option.isSome_iff_exists.mp harmed
  by_cases hev : IsEvent payload
  · rw [onMessage_eq ht, if_pos hev, ← captureSessionId_returns_iff,
      ← nextAction_returns_iff hcursor]
    constructor
    · rintro ⟨h', calls, hreturns⟩ _
      obtain ⟨id, action, actions, _, hcapture, hnext, -, -, -⟩ := onEvent_ok_iff.mp hreturns
      exact ⟨⟨id, hcapture⟩, ⟨_, hnext⟩⟩
    · intro hconditions
      obtain ⟨⟨id, hcapture⟩, ⟨action, actions⟩, hnext⟩ := hconditions hev
      obtain ⟨call, hcall⟩ := answerWith_returns payload id
        h.actions.lastIndex (nextAction_free hcursor hfree hnext)
      exact ⟨_, _, onEvent_ok_iff.mpr ⟨id, action, actions, call, hcapture, hnext, hcall, rfl, rfl⟩⟩
  · obtain ⟨calls, hreturns, -⟩ := onMessage_of_not_isEvent ht hev
    exact ⟨fun _ h => absurd h hev, fun _ => ⟨_, calls, hreturns⟩⟩

end Survival

section Crash

open Plain

/-- A body that is no JSON is survived. -/
theorem onMessage_returns_of_garbage :
    ∃ h trace, (loaded false [] [] "[\"0\", \"1\"]".toList).session [] = .ok (h, trace) ∧
      ∃ h' calls, h.onMessage "5:::x".toList = .ok (h', calls) := by
  obtain ⟨h, trace, hsession, hfollows, -⟩ := session_follows
    (by decide +kernel : Loads "[\"0\", \"1\"]".toList ["0".toList, "1".toList])
    (by decide) false [] [] (show ExtractionReturns [] [] from trivial)
  refine ⟨h, _, hsession, (onMessage_returns_iff hsession ?_ _).mpr ?_⟩
  · rw [hfollows.actions]
    exact remainingFree_ofScript (by decide) _
  · intro _
    refine ⟨?_, ?_⟩
    · intro _
      exact ⟨by decide, fun hparsed => absurd hparsed (by decide +kernel)⟩
    · rw [hfollows.actions]
      exact cursorScalar_ofScript _ _

/-- Three first `5::` payloads that end the process: one too short to have a body, one
    whose body is an array, one whose arguments are a string. -/
theorem onMessage_fails_on_first_event :
    ∃ h trace, (loaded false [] [] "[\"0\", \"1\"]".toList).session [] = .ok (h, trace) ∧
      RemainingFree h.actions ∧
      h.onMessage "5::".toList = .error .iteratorRange ∧
      h.onMessage "5:::[1]".toList = .error .jsonAssert ∧
      h.onMessage "5:::\x7b\"args\":\"7\"\x7d".toList = .error .jsonAssert := by
  obtain ⟨h, trace, hsession, hfollows, -⟩ := session_follows
    (by decide +kernel : Loads "[\"0\", \"1\"]".toList ["0".toList, "1".toList])
    (by decide) false [] [] (show ExtractionReturns [] [] from trivial)
  obtain ⟨t, ht⟩ := hfollows.armed
  refine ⟨h, _, hsession, ?_, ?_, ?_, ?_⟩
  · rw [hfollows.actions]
    exact remainingFree_ofScript (by decide) _
  · exact onMessage_of_unreadable ht hfollows.sessionid (by decide)
      (error_of_failureOf (by decide +kernel))
  · exact onMessage_of_unreadable ht hfollows.sessionid (by decide)
      (error_of_failureOf (by decide +kernel))
  · exact onMessage_of_unreadable ht hfollows.sessionid (by decide)
      (error_of_failureOf (by decide +kernel))

end Crash

end Handler

end SocketIOStress
