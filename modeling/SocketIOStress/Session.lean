import SocketIOStress.Player

/-!
# Sessions: the handler over a run of events

A session begins with `on_open` and goes on with messages and with what happens
to the heartbeat waits, in any order.  A wait that is not outstanding cannot
expire or complete; such an event changes nothing.  On a script of strings a
session is a play of the script's cues.
-/

namespace SocketIOStress

open SocketIOStress.Json Waits FallibleRun

/-! ### Libraries to run sessions with -/

namespace Plain

scoped instance cDouble : CDouble := zeroDouble
scoped instance boostFormat : BoostFormat := plainFormat

end Plain

/-! ### Events -/

inductive Event where
  | message (payload : Text)
  | expire (wait : Nat)
  | complete (wait : Nat)
deriving DecidableEq, Repr

/-- The call is no heartbeat: it sends an action or closes. -/
def Call.IsScript : Call → Bool
  | .send .heartbeat _ => false
  | _ => true

namespace Handler

variable [CDouble] [BoostFormat]

def step (h : Handler) : Event → Except Failure (Handler × List Call)
  | .message payload => h.onMessage payload
  | .expire i =>
      match h.heartbeat.bind (fun t => t.expire i) with
      | none => .ok (h, [])
      | some t => .ok ({ h with heartbeat := some t }, [])
  | .complete i =>
      match h.heartbeat.bind (fun t => t.complete i) with
      | none => .ok (h, [])
      | some (error, t) =>
          match onHeartbeatTimeout error with
          | .error e => .error e
          | .ok calls => .ok ({ h with heartbeat := some t }, calls)

/-- A handler with its script loaded and its address known. -/
def loaded (isSecure : Bool) (host token content : Text) : Handler :=
  initial isSecure host token (.construct content)

/-- `on_open`, then the events; the calls of `on_open` come first. -/
def session (h : Handler) (events : List Event) : Except Failure (Handler × List (List Call)) :=
  match h.onOpen with
  | .error e => .error e
  | .ok (h, calls) =>
      match run step h events with
      | .error e => .error e
      | .ok (h', trace) => .ok (h', calls :: trace)

theorem session_ok_iff {h h' : Handler} {events : List Event} {trace : List (List Call)} :
    h.session events = .ok (h', trace) ↔
      ∃ m calls trace', h.onOpen = .ok (m, calls) ∧ run step m events = .ok (h', trace') ∧
        trace = calls :: trace' := by
  constructor
  · intro hsession
    unfold session at hsession
    split at hsession
    · cases hsession
    rename_i m calls hopen
    split at hsession
    · cases hsession
    rename_i t trace' hrun
    cases hsession
    exact ⟨m, calls, trace', hopen, hrun, rfl⟩
  · rintro ⟨m, calls, trace', hopen, hrun, rfl⟩
    simp only [session, hopen, hrun]

/-! ### Quiet events -/

/-- The event is no `5::` message. -/
def Quiet : Event → Prop
  | .message payload => ¬ IsEvent payload
  | _ => True

omit [CDouble] [BoostFormat] in
theorem quiet_or_event (e : Event) :
    Quiet e ∨ ∃ payload, e = .message payload ∧ IsEvent payload := by
  cases e with
  | message payload =>
    by_cases hev : IsEvent payload
    · exact Or.inr ⟨payload, rfl, hev⟩
    · exact Or.inl hev
  | expire i => exact Or.inl trivial
  | complete i => exact Or.inl trivial

/-- A quiet event moves nothing but the timer and makes heartbeat calls only. -/
theorem step_of_quiet {h : Handler} {t : DeadlineTimer} (ht : h.heartbeat = some t) {e : Event}
    (hquiet : Quiet e) :
    ∃ t' calls, h.step e = .ok ({ h with heartbeat := some t' }, calls) ∧
      ∀ call ∈ calls, call = .send .heartbeat heartbeatText := by
  have hself : h = { h with heartbeat := some t } := by
    rw [← ht]
  cases e with
  | message payload =>
    obtain ⟨calls, hmessage, hcalls⟩ := onMessage_of_not_isEvent ht hquiet
    exact ⟨_, calls, hmessage, hcalls⟩
  | expire i =>
    simp only [step, ht, Option.bind_some]
    cases t.expire i with
    | none => exact ⟨t, [], by rw [← hself], by simp⟩
    | some t' => exact ⟨t', [], rfl, by simp⟩
  | complete i =>
    simp only [step, ht, Option.bind_some]
    cases hcomplete : t.complete i with
    | none => exact ⟨t, [], by rw [← hself], by simp⟩
    | some result =>
      obtain ⟨error, t'⟩ := result
      obtain ⟨calls, hcalls, hbeats⟩ := onHeartbeatTimeout_of_complete hcomplete
      simp only [hcalls]
      exact ⟨t', calls, rfl, hbeats⟩

omit [CDouble] [BoostFormat] in
theorem filter_isScript_of_heartbeats {calls : List Call}
    (h : ∀ call ∈ calls, call = .send .heartbeat heartbeatText) :
    calls.filter Call.IsScript = [] := by
  rw [List.filter_eq_nil_iff]
  intro call hcall
  rw [h call hcall]
  exact Bool.false_ne_true

/-- A `5::` message is its branch of `on_message`, on the re-armed handler. -/
theorem step_of_isEvent {h : Handler} {t : DeadlineTimer} (ht : h.heartbeat = some t)
    {payload : Text} (hev : IsEvent payload) :
    h.step (.message payload) = (h.rearmed t).onEvent payload := by
  simp only [step, onMessage_eq ht, if_pos hev]

theorem step_of_answer {h : Handler} {t : DeadlineTimer} (ht : h.heartbeat = some t)
    {payload sessionid action : Text} {actions : ActionSequence} {call : Call}
    (hev : IsEvent payload) (hcapture : captureSessionId h.sessionid payload = .ok sessionid)
    (hnext : h.actions.nextAction = .ok (action, actions))
    (hanswer : answerWith payload sessionid action h.actions.lastIndex = .ok call) :
    h.step (.message payload) =
      .ok ({ h.rearmed t with sessionid := sessionid, actions := actions }, [call]) := by
  rw [step_of_isEvent ht hev, onEvent_ok_iff]
  exact ⟨sessionid, action, actions, call, hcapture, hnext, hanswer, rfl, rfl⟩

/-- Everything an event can do to an armed handler. -/
inductive EventEffect (h : Handler) : Event → Handler → List Call → Prop where
  | quiet {e : Event} {t : DeadlineTimer} {calls : List Call} (event : Quiet e)
      (beats : ∀ call ∈ calls, call = .send .heartbeat heartbeatText) :
      EventEffect h e { h with heartbeat := some t } calls
  | answers {payload sessionid action : Text} {t : DeadlineTimer} {actions : ActionSequence}
      {call : Call} (event : IsEvent payload)
      (captured : captureSessionId h.sessionid payload = .ok sessionid)
      (next : h.actions.nextAction = .ok (action, actions))
      (answer : answerWith payload sessionid action h.actions.lastIndex = .ok call) :
      EventEffect h (.message payload)
        { h.rearmed t with sessionid := sessionid, actions := actions } [call]

theorem event_effect {h h' : Handler} {e : Event} {calls : List Call}
    (harmed : h.heartbeat.isSome) (hstep : h.step e = .ok (h', calls)) :
    EventEffect h e h' calls := by
  obtain ⟨t, ht⟩ := Option.isSome_iff_exists.mp harmed
  rcases quiet_or_event e with hquiet | ⟨payload, rfl, hev⟩
  · obtain ⟨t', calls', hstep', hbeats⟩ := step_of_quiet ht hquiet
    rw [hstep'] at hstep
    cases hstep
    exact .quiet hquiet hbeats
  · rw [step_of_isEvent ht hev, onEvent_ok_iff] at hstep
    obtain ⟨sessionid, action, actions, call, hcapture, hnext, hanswer, rfl, rfl⟩ := hstep
    exact .answers hev hcapture hnext hanswer

/-- Every step keeps the timer. -/
theorem step_armed {h h' : Handler} {e : Event} {calls : List Call}
    (harmed : h.heartbeat.isSome) (hstep : h.step e = .ok (h', calls)) : h'.heartbeat.isSome := by
  cases event_effect harmed hstep with
  | quiet hquiet hbeats => rfl
  | answers hev hcapture hnext hanswer => rfl

theorem armed_of_run {h h' : Handler} {events : List Event} {trace : List (List Call)}
    (harmed : h.heartbeat.isSome) (hrun : run step h events = .ok (h', trace)) :
    h'.heartbeat.isSome :=
  run_invariant (fun _ _ _ _ hs hstep => step_armed hs hstep) hrun harmed

/-- What goes out as a heartbeat is the text `2::`. -/
theorem heartbeat_of_step {h h' : Handler} {e : Event} {calls : List Call}
    (harmed : h.heartbeat.isSome) (hstep : h.step e = .ok (h', calls)) {payload : Text}
    (hmem : Call.send .heartbeat payload ∈ calls) : payload = heartbeatText := by
  cases event_effect harmed hstep with
  | quiet hquiet hbeats =>
    have hcall := hbeats _ hmem
    rw [Call.send.injEq] at hcall
    exact hcall.2
  | answers hev hcapture hnext hanswer =>
    rcases answerWith_ok_cases hanswer with ⟨-, rfl⟩ | ⟨-, t', -, rfl⟩
    · simp [endOfSequence] at hmem
    · simp at hmem

omit [BoostFormat] in
/-- Opening arms the timer and sends one action. -/
theorem armed_of_onOpen {h h' : Handler} {calls : List Call} (hopen : h.onOpen = .ok (h', calls)) :
    h'.heartbeat.isSome ∧ ∃ t, calls = [.send (.action h.actions.lastIndex) t] := by
  obtain ⟨action, actions, -, rfl, rfl⟩ := onOpen_ok_iff.mp hopen
  exact ⟨rfl, action, rfl⟩

theorem heartbeat_of_session {h h' : Handler} {events : List Event} {trace : List (List Call)}
    (hsession : h.session events = .ok (h', trace)) {payload : Text}
    (hmem : Call.send .heartbeat payload ∈ trace.flatten) : payload = heartbeatText := by
  obtain ⟨m, calls, trace', hopen, hrun, rfl⟩ := session_ok_iff.mp hsession
  obtain ⟨harmed, t, rfl⟩ := armed_of_onOpen hopen
  obtain ⟨calls, hcalls, hin⟩ := List.mem_flatten.mp hmem
  rcases List.mem_cons.mp hcalls with rfl | hcalls
  · simp at hin
  · have hstep : ∀ (s : Handler) (e : Event) (s' : Handler) (b : List Call),
        s.heartbeat.isSome = true → s.step e = .ok (s', b) → s'.heartbeat.isSome = true ∧
          ∀ payload, Call.send .heartbeat payload ∈ b → payload = heartbeatText :=
      fun s e s' b hs h => ⟨step_armed hs h, fun _ => heartbeat_of_step hs h⟩
    exact run_outputs hstep hrun harmed calls hcalls payload hin

/-! ### Sessions as plays -/

/-- The cues of a script: `nextAction` cannot tell the text `stop` from its end. -/
def cues (script : List Text) : List (Option Text) :=
  script.map (fun a => if a = stop then none else some a)

/-- The player once `on_open` has handed out the first cue. -/
def openedPlayer (script : List Text) : Player :=
  ⟨cues script, min 1 script.length, []⟩

def input : Event → Player.Input
  | .message payload =>
      if IsEvent payload then .answer (parseSessionId payload).toOption else .quiet
  | _ => .quiet

/-- Reading the id does not fail where the code reads it. -/
def CanRead (p : Player) : Player.Input → Prop
  | .answer id => p.sessionid = [] → id.isSome = true
  | .quiet => True

/-- On every `5::` payload up to the first id, extraction returns. -/
def ExtractionReturns : Text → List Event → Prop
  | _, [] => True
  | sessionid, .message payload :: events =>
      if IsEvent payload then
        ∃ id, captureSessionId sessionid payload = .ok id ∧ ExtractionReturns id events
      else ExtractionReturns sessionid events
  | sessionid, _ :: events => ExtractionReturns sessionid events

instance decidableExtractionReturns :
    (sessionid : Text) → (events : List Event) → Decidable (ExtractionReturns sessionid events)
  | _, [] => isTrue trivial
  | sessionid, .message payload :: events =>
      if hev : IsEvent payload then
        match hcapture : captureSessionId sessionid payload with
        | .ok id =>
            have := decidableExtractionReturns id events
            decidable_of_iff (ExtractionReturns id events) (by
              simp [ExtractionReturns, hev, hcapture])
        | .error e => isFalse (by simp [ExtractionReturns, hev, hcapture])
      else
        have := decidableExtractionReturns sessionid events
        decidable_of_iff (ExtractionReturns sessionid events) (by
          simp [ExtractionReturns, hev])
  | sessionid, .expire _ :: events => decidableExtractionReturns sessionid events
  | sessionid, .complete _ :: events => decidableExtractionReturns sessionid events

/-- The handler stands where the player does. -/
structure Follows (script : List Text) (h : Handler) (p : Player) : Prop where
  cues : p.cues = cues script
  actions : h.actions = .ofScript script p.position
  sessionid : h.sessionid = p.sessionid
  armed : ∃ t, h.heartbeat = some t
  opened : script ≠ [] → 0 < p.position

omit [BoostFormat] in
theorem captureSessionId_ok_iff {sessionid payload id : Text} :
    captureSessionId sessionid payload = .ok id ↔
      (sessionid = [] → (parseSessionId payload).toOption.isSome = true) ∧
        Player.capture sessionid (parseSessionId payload).toOption = id := by
  unfold captureSessionId Player.capture
  by_cases hempty : sessionid = []
  · rw [if_pos hempty, if_pos hempty]
    cases parseSessionId payload with
    | ok t => simp [Except.toOption]
    | error e => simp [Except.toOption, hempty]
  · rw [if_neg hempty, if_neg hempty]
    simp [hempty]

omit [CDouble] [BoostFormat] in
/-- The elements behind the first are clean, so a cursor that has moved finds one. -/
theorem clean_at {script : List Text} (hclean : ∀ a ∈ script.tail, a ≠ stop → Clean a)
    {i : Nat} {a : Text} (hi : 0 < i) (hget : script[i]? = some a) (hstop : a ≠ stop) :
    Clean a := by
  obtain ⟨j, rfl⟩ := Nat.exists_eq_succ_of_ne_zero (Nat.pos_iff_ne_zero.mp hi)
  refine hclean a ?_ hstop
  rw [List.mem_iff_getElem?]
  exact ⟨j, by rw [List.getElem?_tail]; exact hget⟩

variable {script : List Text} {h : Handler} {p : Player}

theorem follows_quiet (hfollows : Follows script h p) {e : Event} (hquiet : Quiet e) :
    ∃ h' calls, h.step e = .ok (h', calls) ∧ Follows script h' p ∧
      calls.filter Call.IsScript = [] := by
  obtain ⟨hcues, hactions, hsid, ⟨t, ht⟩, hopened⟩ := hfollows
  obtain ⟨t', calls, hstep, hcalls⟩ := step_of_quiet ht hquiet
  exact ⟨_, calls, hstep, ⟨hcues, hactions, hsid, ⟨t', rfl⟩, hopened⟩,
    filter_isScript_of_heartbeats hcalls⟩

theorem follows_answer (hclean : ∀ a ∈ script.tail, a ≠ stop → Clean a)
    (hfollows : Follows script h p) {payload : Text} (hev : IsEvent payload) {id : Option Text}
    (hcapture : captureSessionId h.sessionid payload = .ok (Player.capture p.sessionid id)) :
    ∃ h' call, h.step (.message payload) = .ok (h', [call]) ∧
      Follows script h' (p.next (.answer id)).1 ∧ [call] = (p.next (.answer id)).2 ∧
      call.IsScript = true := by
  obtain ⟨hcues, hactions, hsid, ⟨t, ht⟩, hopened⟩ := hfollows
  have hindex : h.actions.lastIndex = p.position := by
    rw [hactions]
    rfl
  have hcue : p.cues[p.position]? =
      script[p.position]?.map (fun a => if a = stop then none else some a) := by
    rw [hcues]
    exact List.getElem?_map
  simp only [Player.next, hcue]
  cases hget : script[p.position]? with
  | none =>
    -- behind the last element: the text is `stop`, and the cursor stays
    have hnext : h.actions.nextAction = .ok (stop, h.actions) := by
      rw [hactions]
      exact ActionSequence.nextAction_ofScript_of_none hget
    exact ⟨_, _, step_of_answer ht hev hcapture hnext (answerWith_stop _ _ _),
      ⟨hcues, hactions, rfl, ⟨_, rfl⟩, hopened⟩, rfl, rfl⟩
  | some a =>
    have hnext : h.actions.nextAction = .ok (a, .ofScript script (p.position + 1)) := by
      rw [hactions]
      exact ActionSequence.nextAction_ofScript_of_lt hget
    by_cases hstop : a = stop
    · -- an element that reads `stop`
      subst hstop
      exact ⟨_, _, step_of_answer ht hev hcapture hnext (answerWith_stop _ _ _),
        ⟨hcues, rfl, rfl, ⟨_, rfl⟩, fun _ => Nat.succ_pos _⟩, rfl, rfl⟩
    · have hne : script ≠ [] := by
        rintro rfl
        cases hget
      have hanswer := answerWith_action payload (Player.capture p.sessionid id)
        h.actions.lastIndex hstop
      rw [formatAction_of_clean (clean_at hclean (hopened hne) hget hstop)] at hanswer
      rw [Option.map_some, if_neg hstop, ← hindex]
      refine ⟨_, _, step_of_answer ht hev hcapture hnext hanswer,
        ⟨hcues, ?_, rfl, ⟨_, rfl⟩, fun _ => Nat.succ_pos _⟩, rfl, rfl⟩
      rw [hindex]

omit [BoostFormat] in
theorem capture_of_canRead (hfollows : Follows script h p) {payload : Text}
    (hev : IsEvent payload) (hread : CanRead p (input (.message payload))) :
    captureSessionId h.sessionid payload =
      .ok (Player.capture p.sessionid (parseSessionId payload).toOption) := by
  have hinput : input (.message payload) = .answer (parseSessionId payload).toOption :=
    if_pos hev
  rw [hinput] at hread
  rw [hfollows.sessionid, captureSessionId_ok_iff]
  exact ⟨hread, rfl⟩

/-- **One step.**  From related states an event is handled without failure, with
    the script calls of the player, into related states. -/
theorem follows_step (hclean : ∀ a ∈ script.tail, a ≠ stop → Clean a)
    (e : Event) (hfollows : Follows script h p) (hread : CanRead p (input e)) :
    ∃ h' calls, h.step e = .ok (h', calls) ∧ Follows script h' (p.next (input e)).1 ∧
      calls.filter Call.IsScript = (p.next (input e)).2 := by
  rcases quiet_or_event e with hquiet | ⟨payload, rfl, hev⟩
  · have hinput : input e = .quiet := by
      cases e with
      | message payload => exact if_neg hquiet
      | expire i => rfl
      | complete i => rfl
    rw [hinput]
    exact follows_quiet hfollows hquiet
  · have hinput : input (.message payload) = .answer (parseSessionId payload).toOption :=
      if_pos hev
    obtain ⟨h', call, hstep, hfollows', hcall, hscript⟩ :=
      follows_answer hclean hfollows hev (capture_of_canRead hfollows hev hread)
    rw [hinput]
    exact ⟨h', [call], hstep, hfollows', by rw [← hcall]; simp [hscript]⟩

/-! ### Whole sessions -/

omit [BoostFormat] in
theorem canRead_of_extractionReturns {events pre suf : List Event} {e : Event} {p : Player}
    (hreturns : ExtractionReturns p.sessionid events) (hevents : events = pre ++ e :: suf) :
    CanRead (p.play (pre.map input)).1 (input e) := by
  induction pre generalizing events p with
  | nil =>
    subst hevents
    cases e with
    | expire i => trivial
    | complete i => trivial
    | message payload =>
      by_cases hev : IsEvent payload
      · simp only [List.nil_append, ExtractionReturns, if_pos hev] at hreturns
        obtain ⟨id, hcapture, -⟩ := hreturns
        simp only [input, if_pos hev]
        exact (captureSessionId_ok_iff.mp hcapture).1
      · simp only [input, if_neg hev]
        trivial
  | cons first pre ih =>
    subst hevents
    refine ih (p := (p.next (input first)).1) ?_ rfl
    cases first with
    | expire i => exact hreturns
    | complete i => exact hreturns
    | message payload =>
      by_cases hev : IsEvent payload
      · simp only [List.cons_append, ExtractionReturns, if_pos hev] at hreturns
        obtain ⟨id, hcapture, hrest⟩ := hreturns
        have hid : (p.next (input (.message payload))).1.sessionid = id := by
          simp only [input, if_pos hev]
          rw [Player.next_sessionid]
          exact (captureSessionId_ok_iff.mp hcapture).2
        rw [hid]
        exact hrest
      · simp only [List.cons_append, ExtractionReturns, if_neg hev] at hreturns
        simp only [input, if_neg hev]
        exact hreturns

omit [BoostFormat] in
/-- `on_open` sends the first element as it is. -/
theorem onOpen_of_loads {content : Text} (hload : Loads content script) (isSecure : Bool)
    (host token : Text) :
    ∃ h, (loaded isSecure host token content).onOpen =
        .ok (h, [.send (.action 0) (script.headD stop)]) ∧
      Follows script h (openedPlayer script) := by
  have hactions : (loaded isSecure host token content).actions =
      .ofScript script 0 := construct_of_loads hload
  cases script with
  | nil =>
    have hnext : (loaded isSecure host token content).actions.nextAction =
        .ok (stop, .ofScript [] 0) := by
      rw [hactions]
      exact ActionSequence.nextAction_ofScript_of_none rfl
    refine ⟨_, onOpen_ok_iff.mpr ⟨_, _, hnext, rfl, rfl⟩, rfl, rfl, rfl, ⟨_, rfl⟩, ?_⟩
    intro hne
    exact absurd rfl hne
  | cons a rest =>
    have hnext : (loaded isSecure host token content).actions.nextAction =
        .ok (a, .ofScript (a :: rest) 1) := by
      rw [hactions]
      exact ActionSequence.nextAction_ofScript_of_lt rfl
    refine ⟨_, onOpen_ok_iff.mpr ⟨_, _, hnext, rfl, rfl⟩, rfl, ?_, rfl, ⟨_, rfl⟩, ?_⟩
    · simp [openedPlayer]
    · intro _
      simp [openedPlayer]

/-- **Sessions refine plays.**  A session on a script whose later elements are clean
    runs to its end, and its script calls are those of the opened player. -/
theorem session_follows {content : Text} (hload : Loads content script)
    (hclean : ∀ a ∈ script.tail, a ≠ stop → Clean a) (isSecure : Bool) (host token : Text)
    {events : List Event} (hreturns : ExtractionReturns [] events) :
    ∃ h' trace, (loaded isSecure host token content).session events =
        .ok (h', [.send (.action 0) (script.headD stop)] :: trace) ∧
      Follows script h' ((openedPlayer script).play (events.map input)).1 ∧
      trace.map (fun calls => calls.filter Call.IsScript) =
        ((openedPlayer script).play (events.map input)).2 := by
  obtain ⟨m, hopen, hfollows⟩ := onOpen_of_loads hload isSecure host token
  obtain ⟨h', trace, hrun, hfollows', htrace⟩ := run_refines
    (fun _ _ e hfollows hread => follows_step hclean e hfollows hread) events hfollows
    (fun pre e suf hevents => canRead_of_extractionReturns (p := openedPlayer script)
      hreturns hevents)
  exact ⟨h', trace, session_ok_iff.mpr ⟨m, _, trace, hopen, hrun, rfl⟩, hfollows', htrace⟩

/-! ### The session id over a run -/

/-- A quiet event leaves the id; a `5::` message captures. -/
theorem step_sessionid {h h' : Handler} {e : Event} {calls : List Call}
    (harmed : h.heartbeat.isSome) (hstep : h.step e = .ok (h', calls)) :
    (Quiet e → h'.sessionid = h.sessionid) ∧
      ∀ payload, e = .message payload → IsEvent payload →
        captureSessionId h.sessionid payload = .ok h'.sessionid := by
  cases event_effect harmed hstep with
  | quiet hquiet hbeats =>
    refine ⟨fun _ => rfl, ?_⟩
    rintro payload rfl hev
    exact absurd hev hquiet
  | answers hev hcapture hnext hanswer =>
    refine ⟨fun hquiet => absurd hev hquiet, ?_⟩
    intro payload heq _
    cases heq
    exact hcapture

/-- A run that did not fail has read every id it had to. -/
theorem extractionReturns_of_run {h h' : Handler} {events : List Event}
    {trace : List (List Call)} (harmed : h.heartbeat.isSome)
    (hrun : run step h events = .ok (h', trace)) : ExtractionReturns h.sessionid events := by
  induction events generalizing h trace with
  | nil => trivial
  | cons e events ih =>
    obtain ⟨m, calls, trace', hstep, hrest, -⟩ := run_cons_ok_iff.mp hrun
    obtain ⟨hquiet, hevent⟩ := step_sessionid harmed hstep
    have hreturns := ih (step_armed harmed hstep) hrest
    cases e with
    | expire i => rw [hquiet trivial] at hreturns; exact hreturns
    | complete i => rw [hquiet trivial] at hreturns; exact hreturns
    | message payload =>
      by_cases hev : IsEvent payload
      · simp only [ExtractionReturns, if_pos hev]
        exact ⟨m.sessionid, hevent payload rfl hev, hreturns⟩
      · simp only [ExtractionReturns, if_neg hev]
        rw [hquiet hev] at hreturns
        exact hreturns

theorem extractionReturns_of_session {h h' : Handler} {events : List Event}
    {trace : List (List Call)} (hsession : h.session events = .ok (h', trace)) :
    ExtractionReturns h.sessionid events := by
  obtain ⟨m, calls, trace', hopen, hrun, -⟩ := session_ok_iff.mp hsession
  obtain ⟨action, actions, -, hm, -⟩ := onOpen_ok_iff.mp hopen
  have hreturns := extractionReturns_of_run (armed_of_onOpen hopen).1 hrun
  rw [hm] at hreturns
  exact hreturns

/-- A session that runs to its end ran to each point before it. -/
theorem session_of_append {h h' : Handler} {pre suf : List Event} {trace : List (List Call)}
    (hsession : h.session (pre ++ suf) = .ok (h', trace)) :
    ∃ m before after, h.session pre = .ok (m, before) ∧ run step m suf = .ok (h', after) ∧
      trace = before ++ after := by
  obtain ⟨o, calls, trace', hopen, hrun, rfl⟩ := session_ok_iff.mp hsession
  obtain ⟨m, before, after, hpre, hsuf, rfl⟩ := run_append_ok_iff.mp hrun
  exact ⟨m, calls :: before, after, session_ok_iff.mpr ⟨o, calls, before, hopen, hpre, rfl⟩,
    hsuf, rfl⟩

end Handler

end SocketIOStress
