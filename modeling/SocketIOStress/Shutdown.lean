import SocketIOStress.Connection
import SocketIOStress.Heartbeat

/-!
# The heartbeat timer under the state machine

The handler calls through the raw pointer `heartbeat`, and its timer outlives
the connection.  What makes that safe is the order in which the connection calls
the handler: `on_open` first, messages while it is open or closing, `on_close`
once, and nothing but completions of waits afterwards.
-/

namespace SocketIOStress

open SocketIOStress.Json Waits FallibleRun

/-! ### Failures that are no null pointer -/

/-- The computation does not call through the null pointer. -/
def Spares {α : Type} (x : Except Failure α) : Prop := ∀ e, x = .error e → e ≠ .nullHeartbeat

theorem spares_ok {α : Type} (a : α) : Spares (Except.ok a : Except Failure α) := by
  intro e h
  cases h

theorem spares_error {α : Type} {e : Failure} (h : e ≠ .nullHeartbeat) :
    Spares (Except.error e : Except Failure α) := by
  intro e' h'
  cases h'
  exact h

theorem spares_map {α β : Type} {x : Except Failure α} (f : α → β) (h : Spares x) :
    Spares (x.map f) := by
  cases x with
  | error e => exact spares_error (h e rfl)
  | ok a => exact spares_ok _

/-- A completion is handled, or changes nothing. -/
theorem spares_outstanding {α : Type} {p : Prop} [Decidable p] {x : Except Failure α} {a : α}
    (h : p → Spares x) : Spares (if p then x else .ok a) := by
  by_cases hp : p
  · rw [if_pos hp]
    exact h hp
  · rw [if_neg hp]
    exact spares_ok a

namespace Handler

section Spares

variable [CDouble] [BoostFormat]

omit [BoostFormat] in
theorem spares_parseSessionId (message : Text) : Spares (parseSessionId message) := by
  unfold parseSessionId
  split
  · rename_i e hparse
    apply spares_error
    unfold parseMessage at hparse
    split at hparse
    · cases hparse
      decide
    · split at hparse <;> cases hparse
  rename_i root _
  unfold sessionIdOf
  split
  · rename_i e hargs
    apply spares_error
    cases root <;> simp only [Value.resolveReference] at hargs <;> cases hargs <;> decide
  rename_i args _ _
  split
  · rename_i e hfirst
    apply spares_error
    unfold Value.operatorIndex at hfirst
    split at hfirst
    · cases hfirst
    · split at hfirst <;> cases hfirst
    · cases hfirst
      decide
  rename_i first _ _
  split
  · rename_i e hid
    apply spares_error
    cases first <;> simp only [Value.resolveReference] at hid <;> cases hid <;> decide
  rename_i id _ _
  intro e hid
  cases id <;> simp only [Value.asString] at hid <;> cases hid <;> decide

omit [BoostFormat] in
theorem spares_nextAction (s : ActionSequence) : Spares s.nextAction := by
  unfold ActionSequence.nextAction
  split
  · split
    · rename_i e hindex
      apply spares_error
      unfold Value.operatorIndex at hindex
      split at hindex
      · cases hindex
      · split at hindex <;> cases hindex
      · cases hindex
        decide
    · rename_i element _ _
      split
      · rename_i e hstring
        apply spares_error
        cases element <;> simp only [Value.asString] at hstring <;> cases hstring <;> decide
      · exact spares_ok _
  · exact spares_ok _

omit [CDouble] in
theorem spares_formatAction (action sessionid : Text) :
    Spares (formatAction action sessionid) := by
  unfold formatAction
  split
  · rename_i e hformat
    apply spares_error
    unfold formattedMessage at hformat
    split at hformat
    · cases hformat
      simp
    split at hformat
    · cases hformat
      simp
    · cases hformat
  · unfold messageText
    split
    · exact spares_error (by simp)
    · exact spares_ok _

theorem spares_answerWith (payload sessionid action : Text) (index : Nat) :
    Spares (answerWith payload sessionid action index) := by
  by_cases hstop : action = stop
  · rw [hstop, answerWith_stop]
    exact spares_ok _
  · rw [answerWith_action payload sessionid index hstop]
    exact spares_map _ (spares_formatAction action sessionid)

theorem spares_onEvent (h : Handler) (payload : Text) : Spares (h.onEvent payload) := by
  unfold onEvent
  split
  · rename_i e hcapture
    apply spares_error
    unfold captureSessionId at hcapture
    split at hcapture
    · exact spares_parseSessionId payload e hcapture
    · cases hcapture
  split
  · rename_i e hnext
    exact spares_error (spares_nextAction h.actions e hnext)
  rename_i action actions _
  split
  · rename_i e hanswer
    exact spares_error (spares_answerWith _ _ _ _ e hanswer)
  · exact spares_ok _

/-- With a timer no event fails on the null pointer. -/
theorem spares_step {h : Handler} (harmed : h.heartbeat.isSome) (e : Event) :
    Spares (h.step e) := by
  obtain ⟨t, ht⟩ := Option.isSome_iff_exists.mp harmed
  rcases quiet_or_event e with hquiet | ⟨payload, rfl, hev⟩
  · obtain ⟨t', calls, hstep, -⟩ := step_of_quiet ht hquiet
    rw [hstep]
    exact spares_ok _
  · rw [step_of_isEvent ht hev]
    exact spares_onEvent _ payload

omit [BoostFormat] in
theorem spares_onOpen (h : Handler) : Spares h.onOpen := by
  simp only [onOpen, resetHeartbeat]
  split
  · rename_i e hnext
    exact spares_error (spares_nextAction h.actions e hnext)
  · exact spares_ok _

/-- Without a timer there is nothing to expire or complete. -/
theorem step_of_unarmed {h : Handler} (hnone : h.heartbeat = none) {e : Event}
    (hmessage : ∀ payload, e ≠ .message payload) : h.step e = .ok (h, []) := by
  cases e with
  | message payload => exact absurd rfl (hmessage payload)
  | expire i => simp only [step, hnone, Option.bind_none]
  | complete i => simp only [step, hnone, Option.bind_none]

end Spares

end Handler

namespace Connection

/-! ### The order of the callbacks -/

/-- What holds between two callbacks: the timer exists from `on_open` on, never with
    more than one unexpired wait, and with none once `on_close` was called. -/
structure Ordered (p : Phase) : Prop where
  settled : p.state ≠ .connecting → p.opening = none
  unarmed : p.state = .connecting → p.handler.heartbeat = none
  armed : p.state ≠ .connecting → p.handler.heartbeat.isSome
  single : ∀ t, p.handler.heartbeat = some t → t.unexpiredCount ≤ 1
  silent : p.state = .closed → ∀ t, p.handler.heartbeat = some t → t.unexpiredCount = 0

theorem ordered_initial {h : Handler} (hnone : h.heartbeat = none) (serverKey : Text) :
    Ordered (initial h serverKey).phase where
  settled hstate := absurd rfl hstate
  unarmed _ := hnone
  armed hstate := absurd rfl hstate
  single t ht := by
    rw [show (initial h serverKey).phase.handler = h from rfl, hnone] at ht
    cases ht
  silent hstate := by cases hstate

theorem ordered_moves {p p' : Phase} (hordered : Ordered p) (hmoves : Moves p p') :
    Ordered p' := by
  cases hmoves with
  | stays settled =>
    exact ⟨fun hstate => settled (hordered.settled hstate), hordered.unarmed, hordered.armed,
      hordered.single, hordered.silent⟩
  | closes =>
    have hlive : SessionState.opened ≠ .connecting := by
      decide
    exact ⟨fun _ => hordered.settled hlive, (fun h => by cases h), fun _ => hordered.armed hlive,
      hordered.single, (fun h => by cases h)⟩
  | @ends opening opening' state h h' settled before callback =>
    have hlive : state ≠ .connecting := by
      rintro rfl
      exact absurd before (by decide)
    obtain ⟨t, ht⟩ := Option.isSome_iff_exists.mp (hordered.armed hlive)
    have hcancel : h'.heartbeat = some t.cancel := by
      have ht' : h.heartbeat = some t := ht
      simp only [Handler.onClose, ht', Except.ok.injEq] at callback
      rw [← callback]
    have hzero : ∀ t', h'.heartbeat = some t' → t'.unexpiredCount = 0 := by
      intro t' ht'
      rw [hcancel, Option.some.injEq] at ht'
      rw [← ht']
      exact DeadlineTimer.unexpiredCount_cancel t
    refine ⟨fun _ => settled (hordered.settled hlive), (fun h => by cases h), fun _ => ?_, ?_,
      fun _ => hzero⟩
    · simp only [hcancel, Option.isSome_some]
    · intro t' ht'
      rw [hzero t' ht']
      exact Nat.zero_le 1

section Ordered

variable [CDouble] [BoostFormat]

/-- An event leaves one unexpired wait when it is a message, and otherwise no more
    than there were. -/
theorem unexpired_of_step {h h' : Handler} {t : DeadlineTimer} {e : Event} {calls : List Call}
    (ht : h.heartbeat = some t) (hstep : h.step e = .ok (h', calls)) :
    ∃ t', h'.heartbeat = some t' ∧
      ((∃ payload, e = .message payload) ∧ t'.unexpiredCount = 1 ∨
        (∀ payload, e ≠ .message payload) ∧ t'.unexpiredCount ≤ t.unexpiredCount) := by
  cases e with
  | message payload =>
    exact ⟨_, Handler.heartbeat_of_onMessage ht hstep,
      Or.inl ⟨⟨payload, rfl⟩, DeadlineTimer.unexpiredCount_rearm t⟩⟩
  | expire i =>
    rcases Handler.heartbeat_of_expire ht hstep with ⟨-, rfl⟩ | ⟨t', hexpire, ht'⟩
    · exact ⟨t, ht, Or.inr ⟨by simp, Nat.le_refl _⟩⟩
    · exact ⟨t', ht', Or.inr ⟨by simp, DeadlineTimer.unexpiredCount_expire_le hexpire⟩⟩
  | complete i =>
    rcases Handler.heartbeat_of_complete ht hstep with ⟨-, rfl⟩ | ⟨error, t', hcomplete, ht'⟩
    · exact ⟨t, ht, Or.inr ⟨by simp, Nat.le_refl _⟩⟩
    · exact ⟨t', ht', Or.inr ⟨by simp, DeadlineTimer.unexpiredCount_complete_le hcomplete⟩⟩

omit [CDouble] [BoostFormat] in
/-- The opening is under way before `on_open` only. -/
theorem connecting_of_opening {c : Connection} {opening : Opening} (hordered : Ordered c.phase)
    (hopening : c.opening = some opening) : c.state = .connecting := by
  apply Classical.byContradiction
  intro hstate
  have hsettled : c.opening = none := hordered.settled hstate
  rw [hsettled] at hopening
  cases hopening

/-- Before `on_open` there is no timer yet, and no message is handed over. -/
theorem handler_of_connecting {c : Connection} {e : Event} {h' : Handler} {calls : List Call}
    (hordered : Ordered c.phase) (hconnecting : c.state = .connecting)
    (hmessage : ∀ payload, e = .message payload → c.state = .opened ∨ c.state = .closing)
    (hhandler : c.handler.step e = .ok (h', calls)) : h' = c.handler := by
  have htimer : ∀ payload, e ≠ .message payload := by
    intro payload he
    rcases hmessage payload he with hlive | hlive <;> rw [hconnecting] at hlive <;> cases hlive
  have hnone : c.handler.heartbeat = none := hordered.unarmed hconnecting
  rw [Handler.step_of_unarmed hnone htimer, Except.ok.injEq, Prod.mk.injEq] at hhandler
  exact hhandler.1.symm

/-- **One step keeps the order.** -/
theorem ordered_step {c c' : Connection} {i : Input} {out : List (SessionState × Call)}
    (hordered : Ordered c.phase) (hstep : c.step i = .ok (c', out)) : Ordered c'.phase := by
  have heffect := step_effect hstep
  cases heffect with
  | moves occasion hmoves => exact ordered_moves hordered hmoves
  | handles hhandler hstate hopening hmessage occasion =>
    rename_i e calls
    rw [phase, hstate, hopening]
    by_cases hconnecting : c.state = .connecting
    · rw [handler_of_connecting hordered hconnecting hmessage hhandler]
      exact hordered
    · obtain ⟨t, ht⟩ := Option.isSome_iff_exists.mp (hordered.armed hconnecting)
      obtain ⟨t', ht', hcount⟩ := unexpired_of_step ht hhandler
      have hthe : ∀ u, c'.handler.heartbeat = some u → u = t' := by
        intro u hu
        rw [ht', Option.some.injEq] at hu
        exact hu.symm
      refine ⟨hordered.settled, fun hc => absurd hc hconnecting, fun _ => ?_, ?_, ?_⟩
      · simp only [ht', Option.isSome_some]
      · intro u hu
        rw [hthe u hu]
        rcases hcount with ⟨-, hone⟩ | ⟨-, hle⟩
        · exact Nat.le_of_eq hone
        · exact Nat.le_trans hle (hordered.single t ht)
      · intro hclosed u hu
        have hstate' : c.state = .closed := hclosed
        rw [hthe u hu]
        rcases hcount with ⟨⟨payload, he⟩, -⟩ | ⟨-, hle⟩
        · -- no message reaches the handler of a closed connection
          rcases hmessage payload he with hlive | hlive <;> rw [hstate'] at hlive <;> cases hlive
        · have hzero := hordered.silent hclosed t ht
          omega
  | opens before hhandler hstate hopening occasion =>
    obtain ⟨action, actions, -, heq, -⟩ := Handler.onOpen_ok_iff.mp hhandler
    have ht : c'.handler.heartbeat = some DeadlineTimer.idle.expiresFromNow.asyncWait := by
      rw [heq]
    rw [phase, hstate, hopening]
    refine ⟨fun _ => rfl, (fun h => by cases h), fun _ => ?_, ?_, (fun h => by cases h)⟩
    · simp only [ht, Option.isSome_some]
    · intro t' ht'
      rw [ht, Option.some.injEq] at ht'
      rw [← ht']
      exact Nat.le_of_eq (DeadlineTimer.unexpiredCount_rearm _)

theorem ordered_run {c c' : Connection} {inputs : List Input}
    {trace : List (List (SessionState × Call))} (hordered : Ordered c.phase)
    (hrun : run step c inputs = .ok (c', trace)) : Ordered c'.phase := by
  have hkeep : ∀ (c : Connection) (i : Input) (c' : Connection)
      (out : List (SessionState × Call)),
      Ordered c.phase → c.step i = .ok (c', out) → Ordered c'.phase :=
    fun _ _ _ _ hs hstep => ordered_step hs hstep
  exact run_invariant hkeep hrun hordered

/-! ### After `on_close` -/

/-- With no wait left to expire an event other than a message only takes waits away. -/
theorem sublist_of_step {h h' : Handler} {t t' : DeadlineTimer} {e : Event} {calls : List Call}
    (ht : h.heartbeat = some t) (hzero : t.unexpiredCount = 0)
    (htimer : ∀ payload, e ≠ .message payload) (hstep : h.step e = .ok (h', calls))
    (ht' : h'.heartbeat = some t') : t'.waits.Sublist t.waits := by
  cases e with
  | message payload => exact absurd rfl (htimer payload)
  | expire i =>
    rcases Handler.heartbeat_of_expire ht hstep with ⟨-, rfl⟩ | ⟨t₁, hexpire, -⟩
    · rw [ht] at ht'
      cases ht'
      exact List.Sublist.refl _
    · rw [DeadlineTimer.expire_eq_none hzero] at hexpire
      cases hexpire
  | complete i =>
    rcases Handler.heartbeat_of_complete ht hstep with ⟨-, rfl⟩ | ⟨error, t₁, hcomplete, ht₁⟩
    · rw [ht] at ht'
      cases ht'
      exact List.Sublist.refl _
    · rw [ht₁, Option.some.injEq] at ht'
      obtain ⟨heq, -⟩ := DeadlineTimer.complete_cases hcomplete
      rw [← ht', heq]
      exact List.eraseIdx_sublist _ _

/-- **A closed connection stays closed**, and its waits only go away. -/
theorem closed_step {c c' : Connection} {i : Input} {out : List (SessionState × Call)}
    (hordered : Ordered c.phase) (hclosed : c.state = .closed)
    (hstep : c.step i = .ok (c', out)) :
    c'.state = .closed ∧
      ∀ t t', c.handler.heartbeat = some t → c'.handler.heartbeat = some t' →
        t'.waits.Sublist t.waits := by
  have hphase : c.phase = ⟨c.opening, .closed, c.handler⟩ := by
    rw [phase, hclosed]
  have heffect := step_effect hstep
  cases heffect with
  | moves occasion hmoves =>
    rw [hphase] at hmoves
    generalize hp : c'.phase = p at hmoves
    cases hmoves with
    | stays settled =>
      simp only [phase, Phase.mk.injEq] at hp
      obtain ⟨-, hstate, hhandler⟩ := hp
      refine ⟨hstate, ?_⟩
      intro t t' ht ht'
      rw [hhandler, ht, Option.some.injEq] at ht'
      subst ht'
      exact List.Sublist.refl _
    | ends settled before callback => exact absurd before (by decide)
  | handles hhandler hstate hopening hmessage occasion =>
    refine ⟨by rw [hstate, hclosed], ?_⟩
    intro t t' ht ht'
    refine sublist_of_step ht (hordered.silent hclosed t ht) ?_ hhandler ht'
    intro payload he
    rcases hmessage payload he with hlive | hlive <;> rw [hclosed] at hlive <;> cases hlive
  | opens before hhandler hstate hopening occasion =>
    have hconnecting := connecting_of_opening hordered before
    rw [hclosed] at hconnecting
    cases hconnecting

theorem closed_run {c c' : Connection} {inputs : List Input}
    {trace : List (List (SessionState × Call))} (hordered : Ordered c.phase)
    (hclosed : c.state = .closed) (hrun : run step c inputs = .ok (c', trace)) :
    c'.state = .closed ∧
      ∀ t t', c.handler.heartbeat = some t → c'.handler.heartbeat = some t' →
        t'.waits.Sublist t.waits := by
  induction inputs generalizing c trace with
  | nil =>
    cases hrun
    refine ⟨hclosed, ?_⟩
    intro t t' ht ht'
    rw [ht, Option.some.injEq] at ht'
    subst ht'
    exact List.Sublist.refl _
  | cons i inputs ih =>
    obtain ⟨m, out, trace', hstep, hrest, -⟩ := run_cons_ok_iff.mp hrun
    have hm := ordered_step hordered hstep
    obtain ⟨hmclosed, hfirst⟩ := closed_step hordered hclosed hstep
    obtain ⟨hend, hsub⟩ := ih hm hmclosed hrest
    refine ⟨hend, ?_⟩
    intro t t' ht ht'
    have hstate : m.state ≠ .connecting := by
      rw [hmclosed]
      decide
    obtain ⟨t₁, ht₁⟩ := Option.isSome_iff_exists.mp (hm.armed hstate)
    exact (hsub t₁ t' ht₁ ht').trans (hfirst t t₁ ht ht₁)

omit [CDouble] [BoostFormat] in
/-- Outside `OPEN` nothing is sent, and a handler that closes is ignored. -/
theorem performAll_of_closed {c : Connection} (hclosed : c.state = .closed) (calls : List Call) :
    c.performAll calls = .ok c := by
  induction calls with
  | nil => rfl
  | cons call calls ih =>
    have hone : c.perform call = .ok c := by
      cases call with
      | send origin payload =>
        simp only [perform, send, hclosed]
        rfl
      | close code reason =>
        simp only [perform, close, hclosed]
        split <;> rfl
    simp only [performAll, hone, ih]

/-- The completion of a wait, on either timer. -/
def IsCompletion : Input → Prop
  | .heartbeatCompleted _ => True
  | .closeTimerCompleted _ => True
  | _ => False

/-- A completion on a closed connection writes nothing and ends nothing. -/
theorem completion_of_closed {c : Connection} (hordered : Ordered c.phase)
    (hclosed : c.state = .closed) {i : Input} (hcompletion : IsCompletion i) :
    ∃ c' out, c.step i = .ok (c', out) ∧ c'.writeQueue = c.writeQueue ∧ c'.posted = c.posted := by
  cases i with
  | heartbeatCompleted j =>
    have hstate : c.state ≠ .connecting := by
      rw [hclosed]
      decide
    have harmed : c.handler.heartbeat.isSome := hordered.armed hstate
    obtain ⟨t, ht⟩ := Option.isSome_iff_exists.mp harmed
    obtain ⟨t', calls, hhandler, -⟩ :=
      Handler.step_of_quiet ht (show Handler.Quiet (.complete j) from trivial)
    have hperform := performAll_of_closed
      (c := { c with handler := { c.handler with heartbeat := some t' } }) hclosed calls
    have hstep : c.step (.heartbeatCompleted j) =
        .ok ({ c with handler := { c.handler with heartbeat := some t' } },
          calls.map (fun call => (c.state, call))) := by
      simp only [step, handle, hhandler, hperform]
    exact ⟨_, _, hstep, rfl, rfl⟩
  | closeTimerCompleted j =>
    simp only [step]
    cases c.timer.complete j with
    | none => exact ⟨c, [], rfl, rfl, rfl⟩
    | some result =>
      obtain ⟨error, t⟩ := result
      have hexpire : ({ c with timer := t } : Connection).failOnExpire error =
          .ok { c with timer := t } := by
        cases error <;> simp only [failOnExpire, terminate, hclosed]
      simp only [hexpire]
      exact ⟨_, [], rfl, rfl, rfl⟩
  | connected error | socketInitialized error | requestWritten error | responseRead response
  | runPosted | frame f | readFailed | frameWritten error | closeTimerExpired j
  | heartbeatExpired j | raised what => exact absurd hcompletion id

end Ordered

/-! ### No callback meets the null pointer -/

section Spares

theorem spares_endpointLog (c : Connection) (what : String) : Spares (c.endpointLog what) := by
  unfold endpointLog
  split
  · exact spares_error (by simp)
  · exact spares_ok _

theorem spares_logError (c : Connection) : Spares c.logError := by
  unfold logError
  split
  · exact spares_ok _
  · exact spares_endpointLog c _

theorem spares_logCloseResult (c : Connection) : Spares c.logCloseResult := by
  unfold logCloseResult
  split
  · exact spares_ok _
  · exact spares_endpointLog c _

theorem spares_terminate {c : Connection}
    (harmed : c.state ≠ .connecting → c.handler.heartbeat.isSome) : Spares c.terminate := by
  have hclose : c.state ≠ .connecting → ∃ h, c.handler.onClose = .ok h := by
    intro hstate
    obtain ⟨t, ht⟩ := Option.isSome_iff_exists.mp (harmed hstate)
    exact ⟨_, by simp only [Handler.onClose, ht]; rfl⟩
  unfold terminate
  cases hstate : c.state with
  | closed => exact spares_ok _
  | connecting => exact spares_error (by simp [Handler.onFail])
  | opened | closing =>
    obtain ⟨h, hok⟩ := hclose (by rw [hstate]; decide)
    simp only [hok]
    split
    · rename_i e hlogged
      exact spares_error (spares_logCloseResult c e hlogged)
    · exact spares_ok _

theorem spares_advanceOpening {c : Connection}
    (harmed : c.state ≠ .connecting → c.handler.heartbeat.isSome) (next : Opening)
    (error : Bool) : Spares (c.advanceOpening next error) := by
  unfold advanceOpening
  split
  · exact spares_terminate harmed
  · exact spares_ok _

theorem spares_handleConnect (c : Connection) (error : Option ConnectError) :
    Spares (c.handleConnect error) := by
  unfold handleConnect
  split
  · exact spares_ok _
  · exact spares_error (by simp)
  · exact spares_error (by simp [Handler.onFail])

theorem spares_handleReadError {c : Connection}
    (harmed : c.state ≠ .connecting → c.handler.heartbeat.isSome) :
    Spares c.handleReadError := by
  unfold handleReadError
  split
  · exact spares_ok _
  · exact spares_ok _
  · exact spares_terminate harmed
  · exact spares_terminate harmed

theorem spares_failOnExpire {c : Connection}
    (harmed : c.state ≠ .connecting → c.handler.heartbeat.isSome) (error : ErrorCode) :
    Spares (c.failOnExpire error) := by
  cases error with
  | operationAborted => exact spares_ok _
  | success => exact spares_terminate harmed
  | other value => exact spares_terminate harmed

theorem spares_runTask {c : Connection}
    (harmed : c.state ≠ .connecting → c.handler.heartbeat.isSome) (task : Task) :
    Spares (c.runTask task) := by
  cases task with
  | terminate => exact spares_terminate harmed
  | writeMessage msg => exact spares_ok _
  | sendClose code reason => exact spares_ok _
  | handleReadFrame => exact spares_ok _

theorem spares_performAll (c : Connection) (calls : List Call) :
    Spares (c.performAll calls) := by
  induction calls generalizing c with
  | nil => exact spares_ok _
  | cons call calls ih =>
    simp only [performAll]
    split
    · rename_i e hcall
      apply spares_error
      cases call with
      | send origin payload =>
        simp only [perform, send] at hcall
        split at hcall
        · cases hcall
        split at hcall
        · cases hcall
        · cases hcall
          simp
      | close code reason => cases hcall
    · exact ih _

/-- The text of a heartbeat passes the validator. -/
theorem performAll_heartbeats (c : Connection) {calls : List Call}
    (h : ∀ call ∈ calls, call = .send .heartbeat heartbeatText) :
    ∃ c', c.performAll calls = .ok c' := by
  induction calls generalizing c with
  | nil => exact ⟨c, rfl⟩
  | cons call calls ih =>
    have hvalid : validate heartbeatText = true := by
      apply validate_of_ascii
      simp [heartbeatText]
    have hone : ∃ c₁, c.perform call = .ok c₁ := by
      rw [h call List.mem_cons_self]
      simp only [perform, send, if_pos hvalid]
      split
      · exact ⟨_, rfl⟩
      · exact ⟨_, rfl⟩
    obtain ⟨c₁, hc₁⟩ := hone
    obtain ⟨c₂, hc₂⟩ := ih c₁ (fun d hd => h d (List.mem_cons_of_mem call hd))
    exact ⟨c₂, by simp only [performAll, hc₁, hc₂]⟩

/-- The `throw` of `send_close_ack` is not reached. -/
theorem closeAck_of_completeClose {payload reason : Text} {code : Nat}
    (h : completeClose payload = .ok (code, reason)) : ∃ ack, closeAck code reason = .ok ack := by
  unfold closeAck
  split
  · exact ⟨_, rfl⟩
  rw [if_neg (completeClose_ne_abnormalClose h)]
  split
  · exact ⟨_, rfl⟩
  split
  · exact ⟨_, rfl⟩
  · exact ⟨_, rfl⟩

theorem spares_handleViolation {c : Connection}
    (harmed : c.state ≠ .connecting → c.handler.heartbeat.isSome) (what : Text)
    (error : ProcessorError) : Spares (c.handleViolation what error) := by
  cases error with
  | fatalError => exact spares_terminate harmed
  | softError | protocolViolation | payloadViolation | internalEndpointError | messageTooBig =>
    exact spares_ok _

theorem spares_processFrame {c : Connection}
    (harmed : c.state ≠ .connecting → c.handler.heartbeat.isSome) (f : Frame) :
    Spares (c.processFrame f) := by
  cases f with
  | dataHeader continuation =>
    apply spares_map
    unfold processDataHeader
    split
    · split
      · exact spares_ok _
      · exact spares_handleViolation harmed _ _
    split
    · exact spares_handleViolation harmed _ _
    split
    · exact spares_error (by simp)
    split
    · exact spares_error (by simp)
    · exact spares_ok _
  | message payload => exact spares_ok _
  | ping payload => exact spares_ok _
  | pong payload => exact spares_ok _
  | close payload =>
    simp only [processFrame]
    split
    · rename_i code reason hcomplete
      apply spares_map
      obtain ⟨ack, hack⟩ := closeAck_of_completeClose hcomplete
      unfold processClose
      split
      · simp only [sendCloseAck, hack]
        exact spares_ok _
      · exact spares_terminate harmed
      · exact spares_ok _
      · exact spares_ok _
    · exact spares_map _ (spares_handleViolation harmed _ _)
  | violation error what more => exact spares_map _ (spares_handleViolation harmed _ _)

theorem spares_handleWrite {c : Connection}
    (harmed : c.state ≠ .connecting → c.handler.heartbeat.isSome) (error : ErrorCode) :
    Spares (c.handleWrite error) := by
  have hover : Spares c.frameHandedOver := by
    unfold frameHandedOver
    split
    · exact spares_ok _
    simp only
    split
    · split <;> exact spares_ok _
    · exact spares_terminate harmed
  cases error with
  | success => exact hover
  | operationAborted => exact hover
  | other value =>
    simp only [handleWrite]
    split
    · rename_i e hlogged
      exact spares_error (spares_logError c e hlogged)
    · exact spares_terminate harmed

variable [CDouble] [BoostFormat]

theorem spares_handle {c : Connection} {e : Event}
    (hstep : Spares (c.handler.step e)) : Spares (c.handle e) := by
  unfold handle
  split
  · rename_i e' herror
    exact spares_error (hstep e' herror)
  split
  · rename_i e' herror
    exact spares_error (spares_performAll _ _ e' herror)
  · exact spares_ok _

/-- **No wait ends the process**, in whatever state its completion is delivered. -/
theorem handle_of_timer {c : Connection} (hordered : Ordered c.phase) {e : Event}
    (htimer : ∀ payload, e ≠ .message payload) : ∃ c' out, c.handle e = .ok (c', out) := by
  have hquiet : Handler.Quiet e := by
    cases e with
    | message payload => exact absurd rfl (htimer payload)
    | expire i => trivial
    | complete i => trivial
  have hstep : ∃ h calls, c.handler.step e = .ok (h, calls) ∧
      ∀ call ∈ calls, call = .send .heartbeat heartbeatText := by
    by_cases hconnecting : c.state = .connecting
    · have hnone : c.handler.heartbeat = none := hordered.unarmed hconnecting
      exact ⟨_, _, Handler.step_of_unarmed hnone htimer, by simp⟩
    · obtain ⟨t, ht⟩ := Option.isSome_iff_exists.mp (hordered.armed hconnecting)
      obtain ⟨t', calls, hstep, hcalls⟩ := Handler.step_of_quiet ht hquiet
      exact ⟨_, calls, hstep, hcalls⟩
  obtain ⟨h, calls, hstep, hcalls⟩ := hstep
  obtain ⟨c', hperform⟩ := performAll_heartbeats { c with handler := h } hcalls
  exact ⟨c', _, by simp only [handle, hstep, hperform]; rfl⟩

omit [BoostFormat] in
theorem spares_handleReadResponse {c : Connection}
    (harmed : c.state ≠ .connecting → c.handler.heartbeat.isSome)
    (response : Option UpgradeResponse) : Spares (c.handleReadResponse response) := by
  unfold handleReadResponse
  split
  · exact spares_map _ (spares_terminate harmed)
  apply spares_outstanding
  intro _
  unfold enterOpen
  split
  · rename_i e herror
    exact spares_error (Handler.spares_onOpen _ e herror)
  split
  · rename_i e herror
    exact spares_error (spares_performAll _ _ e herror)
  · exact spares_ok _

theorem spares_readFrame {c : Connection}
    (harmed : c.state ≠ .connecting → c.handler.heartbeat.isSome) (f : Frame) :
    Spares (c.readFrame f) := by
  unfold readFrame
  split
  · exact spares_ok _
  rename_i hstate
  have hlive : c.state ≠ .connecting := fun hc => hstate (Or.inl hc)
  split
  · rename_i payload
    apply spares_outstanding
    intro _
    unfold processData
    split
    · rename_i e herror
      have hspares := spares_handle (c := { c with messageBegun := false })
        (Handler.spares_step (harmed hlive) (.message payload))
      exact spares_error (hspares e herror)
    · exact spares_ok _
  · exact spares_map _ (spares_processFrame harmed _)

/-- **One step of an ordered connection** never calls through the null pointer. -/
theorem spares_connection_step {c : Connection} (hordered : Ordered c.phase) (i : Input) :
    Spares (c.step i) := by
  have harmed : c.state ≠ .connecting → c.handler.heartbeat.isSome := hordered.armed
  cases i with
  | connected error =>
    apply spares_outstanding
    intro _
    exact spares_map _ (spares_handleConnect c error)
  | socketInitialized error =>
    apply spares_outstanding
    intro _
    exact spares_map _ (spares_advanceOpening harmed _ _)
  | requestWritten error =>
    apply spares_outstanding
    intro _
    exact spares_map _ (spares_advanceOpening harmed _ _)
  | responseRead response =>
    apply spares_outstanding
    intro _
    exact spares_handleReadResponse harmed response
  | runPosted =>
    simp only [step]
    split
    · exact spares_ok _
    · rename_i task posted _
      exact spares_map _ (spares_runTask (c := { c with posted := posted }) harmed task)
  | frame f =>
    apply spares_outstanding
    intro _
    exact spares_readFrame harmed f
  | readFailed =>
    apply spares_outstanding
    intro _
    exact spares_map _ (spares_handleReadError harmed)
  | frameWritten error =>
    apply spares_outstanding
    intro _
    exact spares_map _ (spares_handleWrite (c := { c with sending := false }) harmed error)
  | closeTimerExpired j =>
    simp only [step]
    split
    · exact spares_ok _
    · exact spares_ok _
  | closeTimerCompleted j =>
    simp only [step]
    split
    · exact spares_ok _
    · rename_i error timer _
      exact spares_map _ (spares_failOnExpire (c := { c with timer := timer }) harmed error)
  | heartbeatExpired j =>
    obtain ⟨c', out, hok⟩ := handle_of_timer hordered (e := .expire j) (by simp)
    simp only [step, hok]
    exact spares_ok _
  | heartbeatCompleted j =>
    obtain ⟨c', out, hok⟩ := handle_of_timer hordered (e := .complete j) (by simp)
    simp only [step, hok]
    exact spares_ok _
  | raised what => exact spares_error (by simp)

theorem spares_run {c : Connection} (hordered : Ordered c.phase) (inputs : List Input) :
    Spares (run step c inputs) := by
  induction inputs generalizing c with
  | nil => exact spares_ok _
  | cons i inputs ih =>
    simp only [run]
    split
    · rename_i e herror
      exact spares_error (spares_connection_step hordered i e herror)
    rename_i c' out hstep
    split
    · rename_i e herror
      exact spares_error (ih (ordered_step hordered hstep) e herror)
    · exact spares_ok _

/-- How many heartbeat waits have neither expired nor been aborted. -/
def unexpiredHeartbeats (c : Connection) : Nat :=
  match c.handler.heartbeat with
  | none => 0
  | some t => t.unexpiredCount

/-- **The heartbeat timer is safe under the state machine.**  Over every run from a
    connection that is being opened: no callback meets the null pointer; in every state
    reached the timer exists while messages and `on_close` can come, and at most one of its
    waits is unexpired; and from a state in which `on_close` was called on, the connection
    stays closed, no wait is unexpired and none is added, and the completion of a wait ends
    nothing and writes nothing. -/
theorem heartbeat_contained (isSecure : Bool) (host token : Text) (actions : ActionSequence)
    (serverKey : Text) (inputs : List Input) :
    run step (initial (.initial isSecure host token actions) serverKey) inputs ≠
        .error .nullHeartbeat ∧
      ∀ c trace, run step (initial (.initial isSecure host token actions) serverKey) inputs =
          .ok (c, trace) →
        (c.state = .opened ∨ c.state = .closing → c.handler.heartbeat.isSome) ∧
        c.unexpiredHeartbeats ≤ 1 ∧
        (c.state = .closed →
          (∀ more c' trace', run step c more = .ok (c', trace') →
            c'.state = .closed ∧ c'.unexpiredHeartbeats = 0 ∧
            ∀ t t', c.handler.heartbeat = some t → c'.handler.heartbeat = some t' →
              t'.waits.Sublist t.waits) ∧
          ∀ i, IsCompletion i →
            ∃ c' out, c.step i = .ok (c', out) ∧ c'.writeQueue = c.writeQueue ∧
              c'.posted = c.posted) := by
  have hinitial : Ordered (initial (.initial isSecure host token actions) serverKey).phase :=
    ordered_initial rfl serverKey
  refine ⟨?_, ?_⟩
  · intro hnull
    exact spares_run hinitial inputs _ hnull rfl
  intro c trace hrun
  have hordered := ordered_run hinitial hrun
  refine ⟨?_, ?_, ?_⟩
  · intro hlive
    apply hordered.armed
    rintro hconnecting
    have hstate : c.state = .connecting := hconnecting
    rw [hstate] at hlive
    exact absurd hlive (by decide)
  · unfold unexpiredHeartbeats
    split
    · exact Nat.zero_le 1
    · rename_i t ht
      exact hordered.single t ht
  · intro hclosed
    refine ⟨?_, fun i hcompletion => completion_of_closed hordered hclosed hcompletion⟩
    intro more c' trace' hmore
    obtain ⟨hend, hsub⟩ := closed_run hordered hclosed hmore
    refine ⟨hend, ?_, hsub⟩
    unfold unexpiredHeartbeats
    split
    · rfl
    · rename_i t ht
      exact (ordered_run hordered hmore).silent hend t ht

end Spares

section Late

open Plain

/-- A wait expires, the server goes, and the wait completes on the closed connection: its
    probe is not written. -/
example : ((run step (initial (.initial false [] [] (.construct "[\"a\"]".toList)) "key".toList)
    [.connected none, .socketInitialized false, .requestWritten false,
      .responseRead (some ⟨true, 101, "websocket".toList, "Upgrade".toList, "key".toList⟩),
      .runPosted, .runPosted, .heartbeatExpired 0, .readFailed,
      .heartbeatCompleted 0]).toOption.map
    (fun r => (r.1.state, r.1.posted, r.2.getLast?))) =
      some (.closed, [], some [(.closed, .send .heartbeat heartbeatText)]) := by
  decide +kernel

end Late

end Connection

end SocketIOStress
