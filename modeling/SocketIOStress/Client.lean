import SocketIOStress.Shutdown
import SocketIOStress.Uri

/-!
# websocketclient and manyclients.sh

One process loads the script, asks for the token, opens the connection and runs
its io_service until nothing is outstanding; the driver script counts the
processes whose exit status is not 0.  What a status of 0 says about the script
is decided by how often the server gave the client an occasion to go on.
-/

namespace SocketIOStress

open SocketIOStress.Json Waits FallibleRun

/-! ### One process -/

/-- The arguments of a process and everything around it. -/
structure Client where
  uri : Text
  /-- What the input file contains. -/
  content : Text
  http : Text → Handler.HttpResponse
  random : Nat
  /-- What resolving the host and the port of an address raises. -/
  resolve : Uri → Option String
  serverKey : Text
  inputs : List Input

namespace Client

/-- The argument without one trailing slash. -/
def strippedUri (p : Client) : Text :=
  if p.uri.getLast? = some '/' then p.uri.dropLast else p.uri

/-- The process runs `connect_and_run<client_tls>`. -/
def isTls (p : Client) : Bool := "https://".toList.isPrefixOf p.strippedUri

/-- The argument is taken for the address of a server. -/
def IsHttp (p : Client) : Prop :=
  p.isTls = true ∨ "http://".toList.isPrefixOf p.strippedUri = true

instance (p : Client) : Decidable p.IsHttp := inferInstanceAs (Decidable (_ ∨ _))

section Run

variable [CDouble] [BoostFormat] [BoostRegex]

omit [BoostFormat] in
/-- `connect_and_run` up to `endpoint.run()`. -/
def start (p : Client) : Except Failure Connection :=
  match Handler.construct p.strippedUri (.construct p.content) with
  | .error e => .error e
  | .ok h =>
      match h.loadToken p.http p.random with
      | .error e => .error e
      | .ok h =>
          match getConnection p.isTls h.websocketUri with
          | .error e => .error (.runtimeError (String.ofList e.what))
          | .ok location =>
              match p.resolve location with
              | some what => .error (.runtimeError what)
              | none => .ok (.initial h p.serverKey)

def connectAndRun (p : Client) :
    Except Failure (Connection × List (List (SessionState × Call))) :=
  match p.start with
  | .error e => .error e
  | .ok c => run Connection.step c p.inputs

/-- The exit status, when the process has ended with its inputs.  Without an address it
    prints its usage. -/
def main (p : Client) : Option Nat :=
  if p.IsHttp then
    match p.connectAndRun with
    | .error e => some e.status
    | .ok (c, _) => if c.Finished then some 0 else none
  else some 0

end Run

end Client

/-! ### The driver script -/

/-- The wait loop: the jobs `wait` reports a failure of. -/
def countFailures (statuses : List Nat) : Nat :=
  statuses.foldl (fun fail status => if status = 0 then fail else fail + 1) 0

def allCompleted : Text := "All clients completed succesfully.".toList

/-- What `manyclients.sh` prints when every job has ended. -/
def manyclients (statuses : List Nat) : Text :=
  if countFailures statuses = 0 then allCompleted
  else "O noes (".toList ++ Nat.toDigits 10 (countFailures statuses) ++ ") clients crashed!".toList

theorem countFailures_eq_zero_iff {statuses : List Nat} :
    countFailures statuses = 0 ↔ ∀ status ∈ statuses, status = 0 := by
  have hfrom : ∀ fail, statuses.foldl (fun fail status => if status = 0 then fail else fail + 1)
      fail = 0 ↔ fail = 0 ∧ ∀ status ∈ statuses, status = 0 := by
    induction statuses with
    | nil =>
      intro fail
      simp
    | cons status statuses ih =>
      intro fail
      rw [List.foldl_cons, ih]
      by_cases hzero : status = 0
      · simp [hzero]
      · simp [hzero]
  rw [countFailures, hfrom]
  simp

theorem manyclients_eq_allCompleted_iff {statuses : List Nat} :
    manyclients statuses = allCompleted ↔ ∀ status ∈ statuses, status = 0 := by
  rw [← countFailures_eq_zero_iff, manyclients]
  constructor
  · intro h
    by_cases hzero : countFailures statuses = 0
    · exact hzero
    · rw [if_neg hzero] at h
      exact absurd (List.cons.inj h).1 (by decide)
  · intro hzero
    rw [if_pos hzero]

/-! ### How far the script gets -/

/-- The elements of a script file's root. -/
def elementsOf : Value → List Value
  | .arrayValue elements => elements
  | _ => []

namespace Connection

section Progress

variable [CDouble] [BoostFormat]

omit [BoostFormat] in
/-- What `nextAction` hands out with the cursor on an element, and behind the last. -/
theorem nextAction_cases {root : Value} {i : Nat} {action : Text} {actions : ActionSequence}
    (hle : i ≤ (elementsOf root).length)
    (hnext : (⟨i, root⟩ : ActionSequence).nextAction = .ok (action, actions)) :
    (∃ element, (elementsOf root)[i]? = some element ∧ element.asString = .ok action ∧
        actions = ⟨i + 1, root⟩) ∨
      (i = (elementsOf root).length ∧ action = stop ∧ actions = ⟨i, root⟩) := by
  cases root with
  | arrayValue elements =>
    simp only [elementsOf] at hle ⊢
    cases hget : elements[i]? with
    | none =>
      have hend : (ActionSequence.ofArray elements i).nextAction =
          .ok (stop, ActionSequence.ofArray elements i) :=
        ActionSequence.nextAction_ofArray_of_none hget
      rw [ActionSequence.ofArray, hnext] at hend
      cases hend
      have hge := List.getElem?_eq_none_iff.mp hget
      exact Or.inr ⟨Nat.le_antisymm hle hge, rfl, rfl⟩
    | some element =>
      have hat := ActionSequence.nextAction_ofArray_of_lt hget
      rw [ActionSequence.ofArray, hnext] at hat
      cases hstring : element.asString with
      | error e =>
        rw [hstring] at hat
        cases hat
      | ok a =>
        rw [hstring] at hat
        cases hat
        exact Or.inl ⟨element, rfl, hstring, rfl⟩
  | objectValue members =>
    simp only [elementsOf, List.length_nil, Nat.le_zero_eq] at hle ⊢
    subst hle
    cases members with
    | nil =>
      cases hnext
      exact Or.inr ⟨rfl, rfl, rfl⟩
    | cons m members => simp [ActionSequence.nextAction, Value.size, Value.operatorIndex] at hnext
  | nullValue | intValue value | uintValue value | realValue lexeme | stringValue value
  | booleanValue value =>
    simp only [elementsOf, List.length_nil, Nat.le_zero_eq] at hle ⊢
    subst hle
    cases hnext
    exact Or.inr ⟨rfl, rfl, rfl⟩

omit [BoostFormat] in
/-- The cursor moves on by one and stays behind the last element. -/
theorem nextAction_moves {root : Value} {n : Nat} {action : Text} {actions : ActionSequence}
    (hnext : (⟨min n (elementsOf root).length, root⟩ : ActionSequence).nextAction =
      .ok (action, actions)) :
    actions = ⟨min (n + 1) (elementsOf root).length, root⟩ := by
  have hindex : actions = ⟨actions.lastIndex, root⟩ ∧
      actions.lastIndex = min (n + 1) (elementsOf root).length := by
    rcases nextAction_cases (Nat.min_le_right _ _) hnext with
      ⟨element, helement, -, rfl⟩ | ⟨hend, -, rfl⟩
    · have hlt := (List.getElem?_eq_some_iff.mp helement).1
      exact ⟨rfl, by simp only; omega⟩
    · exact ⟨rfl, by simp only; omega⟩
  rw [hindex.1, hindex.2]

/-- The text an element is sent as: as it is, or formatted with a session id. -/
def SentAs (element : Value) (t : Text) : Prop :=
  ∃ action, element.asString = .ok action ∧
    (t = action ∨ ∃ sessionid, formatAction action sessionid = .ok t)

/-- Where the script of a connection stands after so many occasions, with these calls
    made so far. -/
structure Progress (root : Value) (c : Connection) (occasions : Nat)
    (calls : List (SessionState × Call)) : Prop where
  ordered : Ordered c.phase
  before : c.state = .connecting → occasions = 0 ∧ c.handler.actions = ⟨0, root⟩
  after : c.state ≠ .connecting → 0 < occasions
  cursor : c.state = .opened →
    c.handler.actions = ⟨min occasions (elementsOf root).length, root⟩
  /-- An element is sent on its occasion, unless it is taken for the end. -/
  sent : ∀ i element, (elementsOf root)[i]? = some element →
    ((∃ t, (SessionState.opened, Call.send (.action i) t) ∈ calls) ↔
      i < occasions ∧ (i = 0 ∨ element.asString ≠ .ok stop))
  texts : ∀ i element t, (elementsOf root)[i]? = some element →
    (SessionState.opened, Call.send (.action i) t) ∈ calls → SentAs element t

variable {root : Value} {c c' : Connection} {occasions : Nat} {calls : List (SessionState × Call)}

/-- A step that is no occasion and makes no call of an action while open. -/
theorem progress_quiet (hprogress : Progress root c occasions calls)
    (hordered : Ordered c'.phase) {out : List (SessionState × Call)}
    (hback : c'.state = .connecting ↔ c.state = .connecting)
    (hopened : c'.state = .opened → c.state = .opened)
    (hactions : c'.state = .connecting ∨ c'.state = .opened →
      c'.handler.actions = c.handler.actions)
    (hout : ∀ i t, (SessionState.opened, Call.send (.action i) t) ∉ out) :
    Progress root c' occasions (calls ++ out) := by
  have hmem : ∀ i t, (SessionState.opened, Call.send (.action i) t) ∈ calls ++ out ↔
      (SessionState.opened, Call.send (.action i) t) ∈ calls := by
    intro i t
    rw [List.mem_append]
    exact or_iff_left (hout i t)
  refine ⟨hordered, ?_, ?_, ?_, ?_, ?_⟩
  · intro hconnecting
    obtain ⟨hzero, hstart⟩ := hprogress.before (hback.mp hconnecting)
    exact ⟨hzero, by rw [hactions (Or.inl hconnecting), hstart]⟩
  · intro hstate
    exact hprogress.after (fun hc => hstate (hback.mpr hc))
  · intro hstate
    rw [hactions (Or.inr hstate)]
    exact hprogress.cursor (hopened hstate)
  · intro i element helement
    simp only [hmem]
    exact hprogress.sent i element helement
  · intro i element t helement hin
    exact hprogress.texts i element t helement ((hmem i t).mp hin)

/-- What the call made on an occasion can be, with the cursor at `j`. -/
def OccasionCall (root : Value) (j : Nat) (call : Call) : Prop :=
  (∃ element t, (elementsOf root)[j]? = some element ∧ call = .send (.action j) t ∧
      SentAs element t ∧ (j = 0 ∨ element.asString ≠ .ok stop)) ∨
    (∃ element, (elementsOf root)[j]? = some element ∧ call = endOfSequence ∧ 0 < j ∧
      element.asString = .ok stop) ∨
    ((elementsOf root).length ≤ j ∧ ∀ i t, call = .send (.action i) t → i = j)

theorem occasionCall_sends_iff {j i : Nat} {call : Call} {element : Value}
    (hcall : OccasionCall root j call) (helement : (elementsOf root)[i]? = some element) :
    (∃ t, call = .send (.action i) t) ↔ i = j ∧ (i = 0 ∨ element.asString ≠ .ok stop) := by
  rcases hcall with ⟨e, t, he, rfl, -, hkeep⟩ | ⟨e, he, rfl, hpos, hstop⟩ | ⟨hend, hindex⟩
  · -- the cursor is on an element, which is sent
    constructor
    · rintro ⟨u, hu⟩
      rw [Call.send.injEq, Origin.action.injEq] at hu
      obtain ⟨rfl, -⟩ := hu
      rw [he, Option.some.injEq] at helement
      rw [← helement]
      exact ⟨rfl, hkeep⟩
    · rintro ⟨rfl, -⟩
      exact ⟨t, rfl⟩
  · -- the cursor is on an element that reads `stop`
    constructor
    · rintro ⟨u, hu⟩
      cases hu
    · rintro ⟨rfl, hzero | hne⟩
      · exact absurd hzero (Nat.ne_of_gt hpos)
      · rw [he, Option.some.injEq] at helement
        rw [← helement] at hne
        exact absurd hstop hne
  · -- the cursor is behind the last element
    have hlt : i < (elementsOf root).length := (List.getElem?_eq_some_iff.mp helement).1
    constructor
    · rintro ⟨u, hu⟩
      have hij := hindex i u hu
      omega
    · rintro ⟨rfl, -⟩
      omega

theorem sentAs_of_occasionCall {j i : Nat} {t : Text} {element : Value}
    (hcall : OccasionCall root j (.send (.action i) t))
    (helement : (elementsOf root)[i]? = some element) : SentAs element t := by
  rcases hcall with ⟨e, u, he, heq, hsent, -⟩ | ⟨e, -, heq, -, -⟩ | ⟨hend, hindex⟩
  · rw [Call.send.injEq, Origin.action.injEq] at heq
    obtain ⟨rfl, rfl⟩ := heq
    rw [helement, Option.some.injEq] at he
    rw [he]
    exact hsent
  · cases heq
  · have hlt : i < (elementsOf root).length := (List.getElem?_eq_some_iff.mp helement).1
    have hij := hindex i t rfl
    omega

/-- A step that is an occasion: one call while open, and the cursor moves on. -/
theorem progress_occasion (hprogress : Progress root c occasions calls)
    (hordered : Ordered c'.phase) (hstate : c'.state = .opened) {call : Call}
    (hcall : OccasionCall root (min occasions (elementsOf root).length) call)
    (hactions : c'.handler.actions = ⟨min (occasions + 1) (elementsOf root).length, root⟩) :
    Progress root c' (occasions + 1) (calls ++ [(SessionState.opened, call)]) := by
  have hmem : ∀ i t, (SessionState.opened, Call.send (.action i) t) ∈
      calls ++ [(SessionState.opened, call)] ↔
        (SessionState.opened, Call.send (.action i) t) ∈ calls ∨ call = .send (.action i) t := by
    intro i t
    rw [List.mem_append, List.mem_singleton, Prod.mk.injEq]
    constructor
    · rintro (hin | ⟨-, heq⟩)
      · exact Or.inl hin
      · exact Or.inr heq.symm
    · rintro (hin | heq)
      · exact Or.inl hin
      · exact Or.inr ⟨rfl, heq.symm⟩
  refine ⟨hordered, ?_, fun _ => Nat.succ_pos _, fun _ => hactions, ?_, ?_⟩
  · intro hconnecting
    rw [hstate] at hconnecting
    cases hconnecting
  · intro i element helement
    have hlt : i < (elementsOf root).length := (List.getElem?_eq_some_iff.mp helement).1
    have hreached : i < occasions ∨ i = min occasions (elementsOf root).length ↔
        i < occasions + 1 := by
      omega
    simp only [hmem, exists_or]
    rw [hprogress.sent i element helement, occasionCall_sends_iff hcall helement, ← or_and_right,
      hreached]
  · intro i element t helement hin
    rcases (hmem i t).mp hin with hin | rfl
    · exact hprogress.texts i element t helement hin
    · exact sentAs_of_occasionCall hcall helement

omit [CDouble] [BoostFormat] in
theorem moves_keeps {p p' : Phase} (hmoves : Moves p p') :
    (p'.state = .connecting ↔ p.state = .connecting) ∧ (p'.state = .opened → p.state = .opened) ∧
      p'.handler.actions = p.handler.actions := by
  cases hmoves with
  | stays settled => exact ⟨Iff.rfl, id, rfl⟩
  | closes => exact ⟨by simp, by simp, rfl⟩
  | @ends _ _ state h h' settled before callback =>
    refine ⟨⟨(fun h => by cases h), ?_⟩, (fun h => by cases h), ?_⟩
    · rintro hconnecting
      have hstate : state = .connecting := hconnecting
      rw [hstate] at before
      exact absurd before (by decide)
    · unfold Handler.onClose at callback
      split at callback
      · cases callback
      · cases callback
        rfl

/-- The cursor and the call behind it, for a `5::` message on an open connection. -/
theorem occasion_of_onEvent {h h' : Handler} {payload : Text} {out : List Call}
    (hpos : 0 < occasions)
    (hactions : h.actions = ⟨min occasions (elementsOf root).length, root⟩)
    (hevent : h.onEvent payload = .ok (h', out)) :
    ∃ call, out = [call] ∧ OccasionCall root (min occasions (elementsOf root).length) call ∧
      h'.actions = ⟨min (occasions + 1) (elementsOf root).length, root⟩ := by
  obtain ⟨sessionid, action, actions, call, -, hnext, hanswer, rfl, rfl⟩ :=
    Handler.onEvent_ok_iff.mp hevent
  have hindex : h.actions.lastIndex = min occasions (elementsOf root).length := by
    rw [hactions]
  rw [hactions] at hnext
  refine ⟨call, rfl, ?_, nextAction_moves hnext⟩
  rcases nextAction_cases (Nat.min_le_right _ _) hnext with
    ⟨element, helement, hstring, -⟩ | ⟨hend, rfl, -⟩
  · have hlt : min occasions (elementsOf root).length < (elementsOf root).length :=
      (List.getElem?_eq_some_iff.mp helement).1
    rcases Handler.answerWith_ok_cases hanswer with ⟨rfl, rfl⟩ | ⟨hne, t, hformat, rfl⟩
    · exact Or.inr (Or.inl ⟨element, helement, rfl, by omega, hstring⟩)
    · refine Or.inl ⟨element, t, helement, by rw [hindex], ⟨action, hstring, Or.inr ⟨_, hformat⟩⟩,
        Or.inr ?_⟩
      rw [hstring]
      intro hstop
      exact hne (Except.ok.inj hstop)
  · rw [Handler.answerWith_stop] at hanswer
    cases hanswer
    exact Or.inr (Or.inr ⟨Nat.le_of_eq hend.symm, by simp [endOfSequence]⟩)

/-- The cursor and the call when the connection opens. -/
theorem occasion_of_onOpen {h h' : Handler} {out : List Call}
    (hactions : h.actions = ⟨0, root⟩) (hopen : h.onOpen = .ok (h', out)) :
    ∃ call, out = [call] ∧ OccasionCall root 0 call ∧
      h'.actions = ⟨min 1 (elementsOf root).length, root⟩ := by
  obtain ⟨action, actions, hnext, rfl, rfl⟩ := Handler.onOpen_ok_iff.mp hopen
  rw [hactions] at hnext ⊢
  have hmoves : actions = ⟨min 1 (elementsOf root).length, root⟩ :=
    nextAction_moves (n := 0) (by rwa [Nat.zero_min])
  refine ⟨_, rfl, ?_, hmoves⟩
  rcases nextAction_cases (Nat.zero_le _) hnext with
    ⟨element, helement, hstring, -⟩ | ⟨hend, rfl, -⟩
  · exact Or.inl ⟨element, action, helement, rfl, ⟨action, hstring, Or.inl rfl⟩, Or.inl rfl⟩
  · refine Or.inr (Or.inr ⟨Nat.le_of_eq hend.symm, ?_⟩)
    intro j u heq
    rw [Call.send.injEq, Origin.action.injEq] at heq
    exact heq.1.symm

/-- An event handed to the handler while the connection is open. -/
theorem progress_event (hprogress : Progress root c occasions calls)
    (hordered : Ordered c'.phase) (hopen : c.state = .opened) (hstate : c'.state = c.state)
    {e : Event} {out : List Call} (hhandler : c.handler.step e = .ok (c'.handler, out)) :
    Progress root c' (occasions + eventOccasions c.state e)
      (calls ++ out.map (fun call => (c.state, call))) := by
  have hlive : c.state ≠ .connecting := by
    rw [hopen]
    decide
  have harmed : c.handler.heartbeat.isSome := hprogress.ordered.armed hlive
  obtain ⟨t, ht⟩ := Option.isSome_iff_exists.mp harmed
  rcases Handler.quiet_or_event e with hquiet | ⟨payload, rfl, hev⟩
  · obtain ⟨t', beats, hstep, hbeats⟩ := Handler.step_of_quiet ht hquiet
    rw [hstep, Except.ok.injEq, Prod.mk.injEq] at hhandler
    obtain ⟨hh, rfl⟩ := hhandler
    rw [eventOccasions_of_quiet c.state hquiet, Nat.add_zero]
    refine progress_quiet hprogress hordered (by rw [hstate]) (fun _ => hopen)
      (fun _ => by rw [← hh]) ?_
    intro i u hin
    obtain ⟨call, hcall, heq⟩ := List.mem_map.mp hin
    rw [hbeats call hcall, Prod.mk.injEq, Call.send.injEq] at heq
    exact absurd heq.2.1 (by simp)
  · rw [Handler.step_of_isEvent ht hev] at hhandler
    have hpos := hprogress.after hlive
    have hcursor : (c.handler.rearmed t).actions =
        ⟨min occasions (elementsOf root).length, root⟩ := hprogress.cursor hopen
    obtain ⟨call, rfl, hcall, hactions⟩ := occasion_of_onEvent hpos hcursor hhandler
    rw [eventOccasions, if_pos ⟨hopen, hev⟩, List.map_cons, List.map_nil, hopen]
    exact progress_occasion hprogress hordered (hstate.trans hopen) hcall hactions

/-- Outside `OPEN` the calls do not count, and `on_message` is not called before it. -/
theorem progress_elsewhere (hprogress : Progress root c occasions calls)
    (hordered : Ordered c'.phase) (hopen : c.state ≠ .opened) (hstate : c'.state = c.state)
    {e : Event} (hmessage : ∀ payload, e = .message payload →
      c.state = .opened ∨ c.state = .closing)
    {out : List Call} (hhandler : c.handler.step e = .ok (c'.handler, out)) :
    Progress root c' occasions (calls ++ out.map (fun call => (c.state, call))) := by
  refine progress_quiet hprogress hordered (by rw [hstate]) (fun h => by rwa [hstate] at h) ?_ ?_
  · rintro (hconnecting | hopen')
    · rw [hstate] at hconnecting
      rw [handler_of_connecting hprogress.ordered hconnecting hmessage hhandler]
    · rw [hstate] at hopen'
      exact absurd hopen' hopen
  · intro i u hin
    obtain ⟨call, -, heq⟩ := List.mem_map.mp hin
    rw [Prod.mk.injEq] at heq
    exact hopen heq.1

/-- **One step moves the script on by its occasions.** -/
theorem progress_step {i : Input} {out : List (SessionState × Call)}
    (hprogress : Progress root c occasions calls) (hstep : c.step i = .ok (c', out)) :
    Progress root c' (occasions + c.occasions i) (calls ++ out) := by
  have hordered := ordered_step hprogress.ordered hstep
  have heffect := step_effect hstep
  cases heffect with
  | moves hnone hmoves =>
    obtain ⟨hback, hopened, hactions⟩ := moves_keeps hmoves
    rw [hnone, Nat.add_zero]
    exact progress_quiet hprogress hordered hback hopened (fun _ => hactions) (by simp)
  | handles hhandler hstate hopening hmessage hoccasion =>
    rw [hoccasion]
    by_cases hopen : c.state = .opened
    · exact progress_event hprogress hordered hopen hstate hhandler
    · rw [eventOccasions_of_not_opened hopen, Nat.add_zero]
      exact progress_elsewhere hprogress hordered hopen hstate hmessage hhandler
  | opens hbefore hhandler hstate hopening hoccasion =>
    have hconnecting := connecting_of_opening hprogress.ordered hbefore
    obtain ⟨hzero, hstart⟩ := hprogress.before hconnecting
    obtain ⟨call, rfl, hcall, hactions⟩ := occasion_of_onOpen hstart hhandler
    rw [hoccasion, List.map_cons, List.map_nil]
    refine progress_occasion hprogress hordered hstate ?_ ?_
    · rw [hzero, Nat.zero_min]
      exact hcall
    · rw [hzero]
      exact hactions

/-- **A run moves the script on by its occasions.** -/
theorem progress_run {inputs : List Input} {trace : List (List (SessionState × Call))}
    (hprogress : Progress root c occasions calls)
    (hrun : run step c inputs = .ok (c', trace)) :
    Progress root c' (occasions + tally step Connection.occasions c inputs)
      (calls ++ trace.flatten) := by
  induction inputs generalizing c occasions calls trace with
  | nil =>
    cases hrun
    rw [tally, Nat.add_zero, List.flatten_nil, List.append_nil]
    exact hprogress
  | cons i inputs ih =>
    obtain ⟨m, out, rest, hstep, hrest, rfl⟩ := run_cons_ok_iff.mp hrun
    rw [tally_cons_of_ok hstep, List.flatten_cons, ← Nat.add_assoc, ← List.append_assoc]
    exact ih (progress_step hprogress hstep) hrest

end Progress

end Connection

namespace Client

section Success

variable [CDouble] [BoostFormat] [BoostRegex]

/-- The root the script file leaves. -/
def root (p : Client) : Value := (parseStream p.content).2.1

/-- The script was played: the file parsed, the connection was opened, and every element
    was handed to `send` while it was open. -/
def Played (p : Client) : Prop :=
  (parseStream p.content).1 = true ∧
    ∃ start c trace, p.start = .ok start ∧
      run Connection.step start p.inputs = .ok (c, trace) ∧
      (∃ pre suf m before, p.inputs = pre ++ suf ∧
        run Connection.step start pre = .ok (m, before) ∧ m.state = .opened) ∧
      ∀ i element, (elementsOf p.root)[i]? = some element →
        ∃ t, Connection.SentAs element t ∧
          (SessionState.opened, Call.send (.action i) t) ∈ trace.flatten

/-- How often the server gives the script an occasion. -/
def occasions (p : Client) : Nat :=
  match p.start with
  | .error _ => 0
  | .ok start => tally Connection.step Connection.occasions start p.inputs

/-- The file parses, no element behind the first reads `stop`, and the server gives an
    occasion for each element, the first being the upgrade it accepts. -/
def Served (p : Client) : Prop :=
  (parseStream p.content).1 = true ∧
    (∀ i element, 0 < i → (elementsOf p.root)[i]? = some element →
      element.asString ≠ .ok stop) ∧
    max 1 (elementsOf p.root).length ≤ p.occasions

omit [BoostFormat] in
theorem start_ok {p : Client} {start : Connection} (h : p.start = .ok start) :
    ∃ isSecure host token, start =
      .initial (.initial isSecure host token (.construct p.content)) p.serverKey := by
  unfold Client.start at h
  split at h
  · cases h
  rename_i handler hconstruct
  split at h
  · cases h
  rename_i handler' hload
  split at h
  · cases h
  split at h
  · cases h
  cases h
  obtain ⟨isSecure, host, rfl⟩ : ∃ isSecure host,
      handler = .initial isSecure host [] (.construct p.content) := by
    simp only [Handler.construct] at hconstruct
    split at hconstruct
    · split at hconstruct
      · cases hconstruct
      · cases hconstruct
        exact ⟨_, _, rfl⟩
    · split at hconstruct
      · cases hconstruct
      · cases hconstruct
        exact ⟨_, _, rfl⟩
  simp only [Handler.loadToken] at hload
  split at hload
  · cases hload
  cases hload
  exact ⟨_, _, _, rfl⟩

theorem progress_start {p : Client} {start : Connection} (h : p.start = .ok start) :
    Connection.Progress p.root start 0 [] := by
  obtain ⟨isSecure, host, token, rfl⟩ := start_ok h
  refine ⟨Connection.ordered_initial rfl _, fun _ => ⟨rfl, rfl⟩, fun hstate => absurd rfl hstate,
    (fun h => by cases h), ?_, by simp⟩
  intro i element _
  constructor
  · rintro ⟨t, hin⟩
    cases hin
  · rintro ⟨hlt, -⟩
    exact absurd hlt (Nat.not_lt_zero i)

omit [BoostRegex] in
/-- A connection is open at some point exactly when it had an occasion. -/
theorem opened_iff {start c : Connection} {root : Value} {inputs : List Input}
    {trace : List (List (SessionState × Call))}
    (hprogress : Connection.Progress root start 0 [])
    (hrun : run Connection.step start inputs = .ok (c, trace)) :
    (∃ pre suf m before, inputs = pre ++ suf ∧
        run Connection.step start pre = .ok (m, before) ∧ m.state = .opened) ↔
      1 ≤ tally Connection.step Connection.occasions start inputs := by
  constructor
  · rintro ⟨pre, suf, m, before, rfl, hpre, hopened⟩
    have hafter := (Connection.progress_run hprogress hpre).after (by rw [hopened]; decide)
    rw [Nat.zero_add] at hafter
    rw [tally_append hpre]
    omega
  · intro hpos
    obtain ⟨pre, i, suf, m, m', before, out, rfl, hpre, hstep, hweight⟩ :=
      exists_of_tally_pos hrun hpos
    have heffect := Connection.step_effect hstep
    cases heffect with
    | moves hnone hmoves =>
      rw [hnone] at hweight
      exact absurd hweight (Nat.lt_irrefl 0)
    | handles hhandler hstate hopening hmessage hoccasion =>
      refine ⟨pre, i :: suf, m, before, rfl, hpre, ?_⟩
      apply Classical.byContradiction
      intro hclosed
      rw [hoccasion, Connection.eventOccasions_of_not_opened hclosed] at hweight
      exact Nat.lt_irrefl 0 hweight
    | opens hbefore hhandler hstate hopening hoccasion =>
      refine ⟨pre ++ [i], suf, m', _, ?_, run_concat_of_ok hpre hstep, hstate⟩
      rw [List.append_assoc, List.singleton_append]

/-- **When the script is played**, for every run that does not fail. -/
theorem played_iff {p : Client} {c : Connection} {trace : List (List (SessionState × Call))}
    (hrun : p.connectAndRun = .ok (c, trace)) : p.Played ↔ p.Served := by
  unfold connectAndRun at hrun
  split at hrun
  · cases hrun
  rename_i start hstart
  have hzero := progress_start hstart
  have hprogress := Connection.progress_run hzero hrun
  rw [Nat.zero_add, List.nil_append] at hprogress
  have hoccasions : p.occasions =
      tally Connection.step Connection.occasions start p.inputs := by
    rw [occasions, hstart]
  have hopened := opened_iff hzero hrun
  rw [← hoccasions] at hopened hprogress
  constructor
  · rintro ⟨hparsed, start', c', trace', hstart', hrun', hopen, hsent⟩
    rw [hstart] at hstart'
    cases hstart'
    rw [hrun] at hrun'
    cases hrun'
    have hall : ∀ i element, (elementsOf p.root)[i]? = some element →
        i < p.occasions ∧ (i = 0 ∨ element.asString ≠ .ok stop) := by
      intro i element helement
      obtain ⟨t, -, hin⟩ := hsent i element helement
      exact (hprogress.sent i element helement).mp ⟨t, hin⟩
    refine ⟨hparsed, ?_, ?_⟩
    · intro i element hpos helement
      rcases (hall i element helement).2 with hfirst | hne
      · omega
      · exact hne
    · have hone := hopened.mp hopen
      cases hlast : (elementsOf p.root)[(elementsOf p.root).length - 1]? with
      | none =>
        have := List.getElem?_eq_none_iff.mp hlast
        omega
      | some element =>
        have := (hall _ element hlast).1
        omega
  · rintro ⟨hparsed, hnostop, henough⟩
    refine ⟨hparsed, start, c, trace, hstart, hrun, hopened.mpr (by omega), ?_⟩
    intro i element helement
    have hlt := (List.getElem?_eq_some_iff.mp helement).1
    have hkeep : i = 0 ∨ element.asString ≠ .ok stop := by
      rcases Nat.eq_zero_or_pos i with hfirst | hpos
      · exact Or.inl hfirst
      · exact Or.inr (hnostop i element hpos helement)
    obtain ⟨t, hin⟩ := (hprogress.sent i element helement).mpr ⟨by omega, hkeep⟩
    exact ⟨t, hprogress.texts i element t helement hin, hin⟩

omit [BoostFormat] [BoostRegex] in
/-- Of an array of strings the texts behind the first decide. -/
theorem noStop_of_strings {root : Value} {script : List Text} (h : root.strings? = some script)
    (hne : ∀ a ∈ script.tail, a ≠ stop) : ∀ i element, 0 < i →
      (elementsOf root)[i]? = some element → element.asString ≠ .ok stop := by
  rw [Value.strings?_eq_some_iff] at h
  subst h
  intro i element hpos helement hstop
  obtain ⟨j, rfl⟩ := Nat.exists_eq_succ_of_ne_zero (Nat.pos_iff_ne_zero.mp hpos)
  rw [elementsOf, List.getElem?_map, Option.map_eq_some_iff] at helement
  obtain ⟨a, ha, rfl⟩ := helement
  refine hne a ?_ (Except.ok.inj hstop)
  rw [List.mem_iff_getElem?]
  exact ⟨j, by rw [List.getElem?_tail]; exact ha⟩

/-- Every failure shows in the exit status. -/
theorem run_of_success {p : Client} (hhttp : p.IsHttp) (hmain : p.main = some 0) :
    ∃ c trace, p.connectAndRun = .ok (c, trace) ∧ c.Finished := by
  rw [main, if_pos hhttp] at hmain
  split at hmain
  · rename_i e _
    exact absurd (Option.some.inj hmain) (Failure.status_ne_zero e)
  · rename_i c trace hrun
    by_cases hfinished : c.Finished
    · exact ⟨c, trace, hrun, hfinished⟩
    · rw [if_neg hfinished] at hmain
      cases hmain

/-- **What success says.**  Of a process that ends with status 0 the script was played
    exactly when it was served; and when `manyclients.sh` prints that all clients
    completed, every script was played exactly when every one was served. -/
theorem success_means_played_iff :
    (∀ p : Client, p.IsHttp → p.main = some 0 → (p.Played ↔ p.Served)) ∧
      ∀ (clients : List Client) (statuses : List Nat), (∀ p ∈ clients, p.IsHttp) →
        clients.map main = statuses.map some → manyclients statuses = allCompleted →
        ((∀ p ∈ clients, p.Played) ↔ ∀ p ∈ clients, p.Served) := by
  have hone : ∀ p : Client, p.IsHttp → p.main = some 0 → (p.Played ↔ p.Served) := by
    intro p hhttp hmain
    obtain ⟨c, trace, hrun, -⟩ := run_of_success hhttp hmain
    exact played_iff hrun
  refine ⟨hone, ?_⟩
  intro clients statuses hhttp hends hprint
  have hzero := manyclients_eq_allCompleted_iff.mp hprint
  have hmain : ∀ p ∈ clients, p.main = some 0 := by
    intro p hp
    have hin : p.main ∈ statuses.map some := by
      rw [← hends]
      exact List.mem_map_of_mem hp
    obtain ⟨status, hstatus, heq⟩ := List.mem_map.mp hin
    rw [← heq, hzero status hstatus]
  constructor
  · intro hplayed p hp
    exact (hone p (hhttp p hp) (hmain p hp)).mp (hplayed p hp)
  · intro hserved p hp
    exact (hone p (hhttp p hp) (hmain p hp)).mpr (hserved p hp)

end Success

section Runs

open Plain

/-- A process whose server hands out the token and is connected to. -/
def processOf (content : Text) (inputs : List Input) : Client where
  uri := "http://localhost/".toList
  content := content
  http _ := .received 200 "1:15:25:websocket".toList
  random := 0
  resolve _ := none
  serverKey := "key".toList
  inputs := [.connected none, .socketInitialized false, .requestWritten false] ++ inputs

def acceptance : Input :=
  .responseRead (some ⟨true, 101, "websocket".toList, "Upgrade".toList, "key".toList⟩)

/-- The first action is written, the server drops the connection, and what is left is
    delivered. -/
def droppedBehind (before : List Input) : List Input :=
  acceptance :: [.runPosted, .runPosted, .frameWritten .success] ++ before ++
    [.readFailed, .heartbeatCompleted 0]

/-- Both actions are asked for before the server goes. -/
theorem served_client_plays :
    (processOf "[\"a\",\"b\"]".toList (droppedBehind
      [.frame (.dataHeader false), .frame (.message "5:::".toList), .runPosted,
        .frameWritten .success, .heartbeatCompleted 0])).Played := by
  refine (success_means_played_iff.1 _ (by decide +kernel) (by decide +kernel)).mpr ?_
  refine ⟨by decide +kernel, @noStop_of_strings _ _ ["a".toList, "b".toList] ?_ ?_,
    by decide +kernel⟩
  · decide +kernel
  · decide

/-- Three processes that end with status 0: the upgrade is refused; the server drops the
    connection behind the first of two actions; the file is truncated. -/
def successes : List Client :=
  [processOf "[\"a\"]".toList [.responseRead (some ⟨true, 404, [], [], []⟩)],
    processOf "[\"a\",\"b\"]".toList (droppedBehind []),
    processOf "[\"a\"".toList (droppedBehind [])]

/-- None of them played its script, and the driver script reports success. -/
theorem success_without_play :
    (∀ p ∈ successes, p.IsHttp ∧ p.main = some 0 ∧ ¬ p.Played) ∧
      manyclients [0, 0, 0] = allCompleted := by
  have hunserved : ∀ p ∈ successes, p.IsHttp ∧ p.main = some 0 ∧
      ((parseStream p.content).1 = false ∨ p.occasions < max 1 (elementsOf p.root).length) := by
    decide +kernel
  refine ⟨?_, by decide⟩
  intro p hp
  obtain ⟨hhttp, hmain, hwhy⟩ := hunserved p hp
  refine ⟨hhttp, hmain, ?_⟩
  intro hplayed
  obtain ⟨c, trace, hrun, -⟩ := run_of_success hhttp hmain
  obtain ⟨hparsed, -, henough⟩ := (played_iff hrun).mp hplayed
  rcases hwhy with hfailed | hfew
  · rw [hparsed] at hfailed
    cases hfailed
  · omega

end Runs

end Client

end SocketIOStress
