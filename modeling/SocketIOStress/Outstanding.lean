import SocketIOStress.Shutdown

/-!
# What a connection has outstanding

Most of what the callbacks of a connection do only adds to what is posted.  The
reads, the writes and the steps of the opening are few, and a step takes or starts
at most one of them.  What a step can do to them is said once, and what holds of
whole runs is read off that: no two reads are outstanding at a time, and none is
before the connection is open; what is sent is written in its order, and nothing is
written behind a close frame.
-/

namespace SocketIOStress

open SocketIOStress.Json Waits FallibleRun

/-- The text a frame carries, if it carries one. -/
def Message.text? (msg : Message) : Option Text :=
  match msg.opcode with
  | .text => some msg.payload
  | .pong => none
  | .close => none

/-- The text a posted function hands to the writer. -/
def Task.text? : Task → Option Text
  | .writeMessage msg => msg.text?
  | .sendClose _ _ => none
  | .terminate => none
  | .handleReadFrame => none

namespace Connection

/-- The text a call of the handler sends, when it is made in this state. -/
def sentIn : SessionState × Call → Option Text
  | (.opened, .send _ payload) => some payload
  | _ => none

/-- The texts of a list of calls. -/
def sentTexts (out : List (SessionState × Call)) : List Text := out.filterMap sentIn

theorem sentTexts_nil : sentTexts [] = [] := rfl

/-- What may become of the state behind the opening. -/
inductive Ends : SessionState → SessionState → Prop
  | stays (state : SessionState) : Ends state state
  | closes : Ends .opened .closing
  | ends (state : SessionState) : Ends state .closed

theorem Ends.trans {s s' s'' : SessionState} (h : Ends s s') (h' : Ends s' s'') : Ends s s'' := by
  cases h' with
  | stays => exact h
  | closes =>
    cases h with
    | stays => exact .closes
  | ends => exact .ends s

theorem Ends.closed {s : SessionState} (h : Ends .closed s) : s = .closed := by
  cases h with
  | stays => rfl
  | ends => rfl

theorem Ends.opened {s : SessionState} (h : Ends s .opened) : s = .opened := by
  cases h with
  | stays => rfl

/-- From `c` to `c'` something was posted that hands these texts to the writer, and no operation
    was started or completed. -/
structure Beside (texts : List Text) (c c' : Connection) : Prop where
  ends : Ends c.state c'.state
  detached : c'.detached = c.detached ∨ c'.state = .closed
  opening : c'.opening = c.opening
  reading : c'.reading = c.reading
  messageBegun : c'.messageBegun = c.messageBegun
  writeQueue : c'.writeQueue = c.writeQueue
  writing : c'.writing = c.writing
  sending : c'.sending = c.sending
  posted : ∃ more, c'.posted = c.posted ++ more ∧ .handleReadFrame ∉ more ∧
    more.filterMap Task.text? = texts

theorem Beside.refl (c : Connection) : Beside [] c c :=
  ⟨.stays _, Or.inl rfl, rfl, rfl, rfl, rfl, rfl, rfl, [], (List.append_nil _).symm,
    List.not_mem_nil, rfl⟩

theorem Beside.trans {texts texts' : List Text} {c c' c'' : Connection} (h : Beside texts c c')
    (h' : Beside texts' c' c'') : Beside (texts ++ texts') c c'' := by
  rcases h.posted with ⟨more, hposted, hread, htexts⟩
  rcases h'.posted with ⟨more', hposted', hread', htexts'⟩
  refine ⟨h.ends.trans h'.ends, ?_, h'.opening.trans h.opening, h'.reading.trans h.reading,
    h'.messageBegun.trans h.messageBegun, h'.writeQueue.trans h.writeQueue,
    h'.writing.trans h.writing, h'.sending.trans h.sending, more ++ more', ?_, ?_, ?_⟩
  · rcases h'.detached with hsame' | hclosed'
    · rcases h.detached with hsame | hclosed
      · exact Or.inl (hsame'.trans hsame)
      · have hends := h'.ends
        rw [hclosed] at hends
        exact Or.inr hends.closed
    · exact Or.inr hclosed'
  · rw [hposted', hposted, List.append_assoc]
  · intro hmem
    rcases List.mem_append.mp hmem with hmem | hmem
    · exact hread hmem
    · exact hread' hmem
  · rw [List.filterMap_append, htexts, htexts']

/-- Neither a timer nor the handler is an operation. -/
theorem Beside.aside {texts : List Text} {c c' : Connection} {timer : DeadlineTimer}
    {handler : Handler} (h : Beside texts { c with timer := timer, handler := handler } c') :
    Beside texts c c' :=
  ⟨h.ends, h.detached, h.opening, h.reading, h.messageBegun, h.writeQueue, h.writing, h.sending,
    h.posted⟩

theorem beside_post (c : Connection) (task : Task) (hread : task ≠ .handleReadFrame) :
    Beside task.text?.toList c (c.post task) := by
  refine ⟨.stays _, Or.inl rfl, rfl, rfl, rfl, rfl, rfl, rfl, [task], rfl, ?_, ?_⟩
  · intro hmem
    exact hread (List.mem_singleton.mp hmem).symm
  · cases h : task.text? with
    | none => rw [List.filterMap_cons_none h]; rfl
    | some text => rw [List.filterMap_cons_some h]; rfl

theorem beside_post_quiet (c : Connection) (task : Task) (hread : task ≠ .handleReadFrame)
    (hquiet : task.text? = none) : Beside [] c (c.post task) := by
  have hpost := beside_post c task hread
  rw [hquiet] at hpost
  exact hpost

theorem beside_terminate {c c' : Connection} (h : c.terminate = .ok c') : Beside [] c c' := by
  unfold terminate at h
  split at h
  · cases h
    exact .refl c
  · cases h
  · split at h
    · cases h
    split at h
    · cases h
    · cases h
      exact ⟨.ends _, Or.inr rfl, rfl, rfl, rfl, rfl, rfl, rfl, [], (List.append_nil _).symm,
        List.not_mem_nil, rfl⟩
  · split at h
    · cases h
    split at h
    · cases h
    · cases h
      exact ⟨.ends _, Or.inr rfl, rfl, rfl, rfl, rfl, rfl, rfl, [], (List.append_nil _).symm,
        List.not_mem_nil, rfl⟩

theorem beside_failOnExpire {c c' : Connection} {error : ErrorCode}
    (h : c.failOnExpire error = .ok c') : Beside [] c c' := by
  cases error with
  | operationAborted =>
    cases h
    exact .refl c
  | success => exact beside_terminate h
  | other value => exact beside_terminate h

theorem beside_sendClose (c : Connection) (code : Nat) (reason : Text) :
    Beside [] c (c.sendClose code reason) := by
  unfold sendClose
  split
  · exact .refl c
  split
  · exact .refl c
  split
  · exact .refl c
  split
  · exact .refl c
  · rename_i hopened _ _
    have hpost := beside_post_quiet
      { c with state := .closing, timer := c.timer.expiresFromNow.asyncWait }
      (.writeMessage (closeFrame code reason)) (by intro h; cases h) rfl
    have hends : Ends c.state .closing := by
      rw [Classical.not_not.mp hopened]
      exact .closes
    exact ⟨hends, hpost.detached, hpost.opening, hpost.reading, hpost.messageBegun,
      hpost.writeQueue, hpost.writing, hpost.sending, hpost.posted⟩

theorem beside_sendCloseAck {c c' : Connection} {code : Nat} {reason : Text}
    (h : c.sendCloseAck code reason = .ok c') : Beside [] c c' := by
  unfold sendCloseAck at h
  split at h
  · cases h
  · cases h
    exact beside_post_quiet c (.writeMessage (closeFrame _ _)) (by intro h; cases h) rfl

theorem beside_handleViolation {c c' : Connection} {what : Text} {error : ProcessorError}
    (h : c.handleViolation what error = .ok c') : Beside [] c c' := by
  cases error with
  | fatalError => exact beside_terminate h
  | softError =>
    cases h
    exact .refl c
  | protocolViolation | payloadViolation | internalEndpointError | messageTooBig =>
    cases h
    exact beside_sendClose c _ _

theorem beside_processClose {c c' : Connection} {code : Nat} {reason : Text}
    (h : c.processClose code reason = .ok c') : Beside [] c c' := by
  unfold processClose at h
  split at h
  · exact beside_sendCloseAck h
  · exact beside_terminate h
  · cases h
    exact .refl c
  · cases h
    exact .refl c

theorem beside_pong (c : Connection) (payload : Text) : Beside [] c (c.pong payload) := by
  unfold pong
  split
  · exact .refl c
  split
  · exact .refl c
  · exact beside_post_quiet c (.writeMessage ⟨.pong, payload⟩) (by intro h; cases h) rfl

theorem beside_close (c : Connection) (code : Nat) (reason : Text) :
    Beside [] c (c.close code reason) := by
  unfold close
  split
  · exact .refl c
  split
  · exact beside_post_quiet c .terminate (by intro h; cases h) rfl
  · exact beside_post_quiet c (.sendClose code reason) (by intro h; cases h) rfl
  · exact .refl c
  · exact .refl c

theorem beside_performAll {c c' : Connection} {calls : List Call}
    (h : c.performAll calls = .ok c') :
    Beside (sentTexts (calls.map (fun call => (c.state, call)))) c c' := by
  induction calls generalizing c with
  | nil =>
    cases h
    exact .refl _
  | cons call calls ih =>
    simp only [performAll] at h
    split at h
    · cases h
    rename_i c₁ hcall
    have hstate : c₁.state = c.state := by
      have hphase := @phase_performAll c c₁ [call] (by simp only [performAll, hcall])
      exact (Phase.mk.inj hphase).2.1
    have hrest := ih h
    rw [hstate] at hrest
    have hfirst : Beside (sentIn (c.state, call)).toList c c₁ := by
      cases call with
      | send origin payload =>
        simp only [perform, send] at hcall
        split at hcall
        · rename_i hclosed
          cases hcall
          have hnone : sentIn (c.state, .send origin payload) = none := by
            unfold sentIn
            split
            · rename_i heq
              exact absurd (Prod.mk.inj heq).1 hclosed
            · rfl
          rw [hnone]
          exact .refl c
        rename_i hopened
        split at hcall
        · cases hcall
          rw [Classical.not_not.mp hopened]
          exact beside_post c (.writeMessage ⟨.text, payload⟩) (by intro h; cases h)
        · cases hcall
      | close code reason =>
        simp only [perform] at hcall
        cases hcall
        have hnone : sentIn (c.state, .close code reason) = none := by
          cases c.state with
          | _ => rfl
        rw [hnone]
        exact beside_close c code reason
    have hboth := hfirst.trans hrest
    rw [List.map_cons, sentTexts]
    cases hsent : sentIn (c.state, call) with
    | none =>
      rw [hsent] at hboth
      rw [List.filterMap_cons_none hsent]
      exact hboth
    | some text =>
      rw [hsent] at hboth
      rw [List.filterMap_cons_some hsent]
      exact hboth

/-- The frame whose write an input completes. -/
def handed (c : Connection) : Input → List Message
  | .frameWritten .success => if c.sending then c.writeQueue.take 1 else []
  | .frameWritten .operationAborted => if c.sending then c.writeQueue.take 1 else []
  | _ => []

theorem handed_of_empty {c : Connection} (hempty : c.writeQueue = []) (error : ErrorCode) :
    c.handed (.frameWritten error) = [] := by
  cases error with
  | success => rw [handed, hempty, List.take_nil, ite_self]
  | operationAborted => rw [handed, hempty, List.take_nil, ite_self]
  | other value => rfl

/-- The states in which frames are written and read. -/
def IsLive (c : Connection) : Prop := c.state = .opened ∨ c.state = .closing

/-- **Everything a step can do to the operations that are outstanding.** -/
inductive Flow (c : Connection) : Input → Connection → List (SessionState × Call) → Prop where
  | posts {i : Input} {c' : Connection} {out : List (SessionState × Call)}
      (nothing : c.handed i = []) (beside : Beside (sentTexts out) c c') : Flow c i c' out
  /-- A step of the opening ends, and the next may begin. -/
  | advances {i : Input} {c' : Connection} {next : Option Opening} (before : c.opening ≠ none)
      (nothing : c.handed i = []) (beside : Beside [] { c with opening := next } c') :
      Flow c i c' []
  | opens {response : Option UpgradeResponse} {c' : Connection} {out : List (SessionState × Call)}
      (before : c.opening ≠ none)
      (beside : Beside (sentTexts out) { c with state := .opened, opening := none } c') :
      Flow c (.responseRead response) (c'.post .handleReadFrame) out
  /-- A posted function that neither reads nor writes. -/
  | runs {task : Task} {posted : List Task} {c' : Connection} (head : c.posted = task :: posted)
      (aside : task ≠ .handleReadFrame) (quiet : task.text? = none)
      (beside : Beside [] { c with posted := posted } c') : Flow c .runPosted c' []
  | queues {msg : Message} {posted : List Task} (head : c.posted = .writeMessage msg :: posted)
      (live : c.IsLive) : Flow c .runPosted
        ({ c with posted := posted, writeQueue := c.writeQueue ++ [msg] }).write []
  | drops {msg : Message} {posted : List Task} (head : c.posted = .writeMessage msg :: posted)
      (dead : ¬ c.IsLive) : Flow c .runPosted { c with posted := posted } []
  | reads {posted : List Task} (head : c.posted = .handleReadFrame :: posted) :
      Flow c .runPosted ({ c with posted := posted }).handleReadFrame []
  | frame {f : Frame} {c' : Connection} {out : List (SessionState × Call)} {begun more : Bool}
      (reading : c.reading = true)
      (beside : Beside (sentTexts out) { c with messageBegun := begun, reading := more } c') :
      Flow c (.frame f) c' out
  | readEnds {c' : Connection} (reading : c.reading = true)
      (beside : Beside [] { c with reading := false } c') : Flow c .readFailed c' []
  | writeFails {value : Nat} {c' : Connection} (sending : c.sending = true)
      (beside : Beside [] { c with sending := false } c') :
      Flow c (.frameWritten (.other value)) c' []
  /-- A write ends, with no frame at the head of the queue. -/
  | idles {error : ErrorCode} (sending : c.sending = true) (empty : c.writeQueue = []) :
      Flow c (.frameWritten error) { c with sending := false } []
  | writes {error : ErrorCode} {msg : Message} {queue : List Message} (sending : c.sending = true)
      (handed : c.handed (.frameWritten error) = [msg]) (head : c.writeQueue = msg :: queue)
      (opcode : msg.opcode ≠ .close) (live : c.IsLive) : Flow c (.frameWritten error)
        ({ c with sending := false, writeQueue := queue, writing := false }).write []
  | stops {error : ErrorCode} {msg : Message} {queue : List Message} (sending : c.sending = true)
      (handed : c.handed (.frameWritten error) = [msg]) (head : c.writeQueue = msg :: queue)
      (dead : ¬ c.IsLive) : Flow c (.frameWritten error)
        { c with sending := false, writeQueue := queue, writing := false } []
  | ends {error : ErrorCode} {msg : Message} {queue : List Message} {c' : Connection}
      (sending : c.sending = true) (handed : c.handed (.frameWritten error) = [msg])
      (head : c.writeQueue = msg :: queue) (opcode : msg.opcode = .close)
      (state : c'.state = .closed)
      (beside : Beside [] { c with sending := false, writeQueue := queue, writing := false } c') :
      Flow c (.frameWritten error) c' []

section Step

variable [CDouble] [BoostFormat]

theorem beside_handle {c c' : Connection} {e : Event} {out : List (SessionState × Call)}
    (h : c.handle e = .ok (c', out)) : Beside (sentTexts out) c c' := by
  unfold handle at h
  split at h
  · cases h
  rename_i handler calls hstep
  split at h
  · cases h
  rename_i c₁ hperform
  cases h
  exact (beside_performAll hperform).aside

omit [CDouble] [BoostFormat] in
theorem beside_readMore {texts : List Text} {c m : Connection} (h : Beside texts c m)
    (more : Bool) :
    Beside texts { c with reading := decide (m.state ≠ .closed) && more } (m.readMore more) :=
  ⟨h.ends, h.detached, h.opening, rfl, h.messageBegun, h.writeQueue, h.writing, h.sending, h.posted⟩

omit [CDouble] [BoostFormat] in
/-- What a frame does behind which the connection reads on. -/
theorem flow_frame (begun : Bool) {c c' : Connection} {f : Frame} {more : Bool}
    {x : Except Failure Connection} (hreading : c.reading = true)
    (hx : ∀ m, x = .ok m → Beside [] { c with messageBegun := begun } m)
    (h : x.map (readMore · more) = .ok c') : Flow c (.frame f) c' [] := by
  cases x with
  | error e => cases h
  | ok m =>
    cases h
    exact .frame hreading (beside_readMore (hx m rfl) more)

omit [CDouble] [BoostFormat] in
theorem flow_processFrame {c c' : Connection} {f : Frame} (hreading : c.reading = true)
    (hf : ∀ payload, f ≠ .message payload) (h : c.processFrame f = .ok c') :
    Flow c (.frame f) c' [] := by
  cases f with
  | message payload => exact absurd rfl (hf payload)
  | dataHeader continuation =>
    by_cases hbegins : c.messageBegun = false ∧ continuation = false
    · apply flow_frame true hreading _ h
      intro m hm
      rcases hbegins with ⟨hbegun, rfl⟩
      simp only [processDataHeader, hbegun, Bool.false_eq_true, if_false] at hm
      split at hm
      · cases hm
      split at hm
      · cases hm
      · cases hm
        exact .refl _
    · apply flow_frame c.messageBegun hreading _ h
      intro m hm
      unfold processDataHeader at hm
      split at hm
      · split at hm
        · cases hm
          exact .refl _
        · exact beside_handleViolation hm
      rename_i hbegun
      split at hm
      · exact beside_handleViolation hm
      · rename_i hcontinuation
        exact absurd ⟨Bool.eq_false_iff.mpr hbegun, Bool.eq_false_iff.mpr hcontinuation⟩ hbegins
  | ping payload =>
    apply flow_frame c.messageBegun (x := .ok (c.pong payload)) hreading _ h
    intro m hm
    cases hm
    exact beside_pong c payload
  | pong payload =>
    apply flow_frame c.messageBegun (x := .ok c) hreading _ h
    intro m hm
    cases hm
    exact .refl _
  | close payload =>
    simp only [processFrame] at h
    split at h
    · exact flow_frame c.messageBegun hreading (fun m hm => beside_processClose hm) h
    · exact flow_frame c.messageBegun hreading (fun m hm => beside_handleViolation hm) h
  | violation error what more =>
    exact flow_frame c.messageBegun hreading (fun m hm => beside_handleViolation hm) h

theorem flow_readFrame {c c' : Connection} {f : Frame} {out : List (SessionState × Call)}
    (hreading : c.reading = true) (h : c.readFrame f = .ok (c', out)) :
    Flow c (.frame f) c' out := by
  unfold readFrame at h
  split at h
  · cases h
    exact .frame hreading (.refl { c with reading := false })
  split at h
  · split at h
    · unfold processData at h
      split at h
      · cases h
      · rename_i c₁ calls hhandle
        cases h
        exact .frame hreading (beside_readMore (beside_handle hhandle) true)
    · cases h
      exact .frame hreading (.refl c)
  · rename_i hmessage
    rcases silent_ok_iff.mp h with ⟨hframe, rfl⟩
    exact flow_processFrame hreading hmessage hframe

omit [CDouble] [BoostFormat] in
theorem flow_runTask {c c' : Connection} {task : Task} {posted : List Task}
    (hposted : c.posted = task :: posted)
    (h : ({ c with posted := posted }).runTask task = .ok c') :
    Flow c .runPosted c' [] := by
  cases task with
  | writeMessage msg =>
    cases h
    unfold writeMessage
    split
    · rename_i hdead
      apply Flow.drops hposted
      rintro (hlive | hlive)
      · exact hdead.1 hlive
      · exact hdead.2 hlive
    · rename_i hlive
      apply Flow.queues hposted
      by_cases hopened : c.state = .opened
      · exact Or.inl hopened
      · exact Or.inr (Classical.not_not.mp (fun hclosing => hlive ⟨hopened, hclosing⟩))
  | sendClose code reason =>
    cases h
    exact .runs hposted (by intro h; cases h) rfl (beside_sendClose _ code reason)
  | terminate => exact .runs hposted (by intro h; cases h) rfl (beside_terminate h)
  | handleReadFrame =>
    cases h
    exact .reads hposted

omit [CDouble] [BoostFormat] in
theorem flow_handleReadError {c c' : Connection} (hreading : c.reading = true)
    (h : c.handleReadError = .ok c') : Flow c .readFailed c' [] := by
  unfold handleReadError at h
  split at h
  · cases h
    exact .readEnds hreading (.refl _)
  · cases h
    exact .readEnds hreading (.refl _)
  · exact .readEnds hreading (beside_terminate h)
  · exact .readEnds hreading (beside_terminate h)

omit [CDouble] [BoostFormat] in
/-- A call of `terminate` that returns leaves a closed connection, unless it was not opened. -/
theorem closed_of_terminate {c c' : Connection} (h : c.terminate = .ok c') :
    c'.state = .closed := by
  unfold terminate at h
  split at h
  · rename_i hclosed
    cases h
    exact hclosed
  · cases h
  · split at h
    · cases h
    split at h
    · cases h
    · cases h
      rfl
  · split at h
    · cases h
    split at h
    · cases h
    · cases h
      rfl

omit [CDouble] [BoostFormat] in
theorem flow_frameHandedOver {c c' : Connection} {error : ErrorCode} (hsending : c.sending = true)
    (hhanded : c.handed (.frameWritten error) = c.writeQueue.take 1)
    (h : ({ c with sending := false }).frameHandedOver = .ok c') :
    Flow c (.frameWritten error) c' [] := by
  simp only [frameHandedOver] at h
  split at h
  · rename_i hqueue
    cases h
    exact .idles hsending hqueue
  rename_i msg queue hqueue
  have hfront : c.handed (.frameWritten error) = [msg] := by
    rw [hhanded, show c.writeQueue = msg :: queue from hqueue]
    rfl
  split at h
  · rename_i hopcode
    split at h
    · rename_i hlive
      cases h
      exact .writes hsending hfront hqueue hopcode hlive
    · rename_i hdead
      cases h
      exact .stops hsending hfront hqueue hdead
  · rename_i hopcode
    exact .ends hsending hfront hqueue (Classical.not_not.mp hopcode) (closed_of_terminate h)
      (beside_terminate h)

omit [CDouble] [BoostFormat] in
theorem flow_handleWrite {c c' : Connection} {error : ErrorCode} (hsending : c.sending = true)
    (h : ({ c with sending := false }).handleWrite error = .ok c') :
    Flow c (.frameWritten error) c' [] := by
  cases error with
  | other value =>
    simp only [handleWrite] at h
    split at h
    · cases h
    · exact .writeFails hsending (beside_terminate h)
  | success =>
    apply flow_frameHandedOver hsending _ h
    rw [handed, if_pos hsending]
  | operationAborted =>
    apply flow_frameHandedOver hsending _ h
    rw [handed, if_pos hsending]

omit [BoostFormat] in
theorem flow_handleReadResponse {c c' : Connection} {response : Option UpgradeResponse}
    {out : List (SessionState × Call)} (hopening : c.opening ≠ none)
    (h : c.handleReadResponse response = .ok (c', out)) :
    Flow c (.responseRead response) c' out := by
  cases response with
  | none =>
    rcases silent_ok_iff.mp h with ⟨hterminate, rfl⟩
    exact .advances hopening rfl (beside_terminate hterminate)
  | some response =>
    simp only [handleReadResponse] at h
    split at h
    · simp only [enterOpen] at h
      split at h
      · cases h
      rename_i handler calls honOpen
      split at h
      · cases h
      rename_i c₁ hperform
      cases h
      exact .opens hopening (beside_performAll hperform).aside
    · cases h
      exact .advances hopening rfl (.refl _)

omit [CDouble] [BoostFormat] in
theorem flow_handleConnect {c c' : Connection} {error : Option ConnectError}
    (hopening : c.opening ≠ none) (h : c.handleConnect error = .ok c') :
    Flow c (.connected error) c' [] := by
  unfold handleConnect at h
  split at h
  · cases h
    exact .advances hopening rfl (.refl _)
  · cases h
  · cases h

omit [CDouble] [BoostFormat] in
theorem flow_advanceOpening {c c' : Connection} {i : Input} {next : Opening} {error : Bool}
    (hopening : c.opening ≠ none) (hnothing : c.handed i = [])
    (h : c.advanceOpening next error = .ok c') : Flow c i c' [] := by
  unfold advanceOpening at h
  split at h
  · exact .advances hopening hnothing (beside_terminate h)
  · cases h
    exact .advances hopening hnothing (.refl _)

omit [CDouble] [BoostFormat] in
/-- An input for which nothing is outstanding. -/
theorem flow_refl {c : Connection} {i : Input} (hnothing : c.handed i = []) : Flow c i c [] :=
  .posts hnothing (.refl c)

omit [CDouble] [BoostFormat] in
theorem handed_of_not_sending {c : Connection} (hsending : ¬ c.sending) (error : ErrorCode) :
    c.handed (.frameWritten error) = [] := by
  cases error with
  | success => exact if_neg hsending
  | operationAborted => exact if_neg hsending
  | other value => rfl

omit [CDouble] [BoostFormat] in
theorem flow_closeTimer {c c' : Connection} {i : Input} {t : DeadlineTimer}
    (hnothing : c.handed i = []) (h : Beside [] { c with timer := t } c') : Flow c i c' [] :=
  .posts hnothing h.aside

/-- What a step does to the operations that are outstanding. -/
theorem flow_step {c c' : Connection} {i : Input} {out : List (SessionState × Call)}
    (h : c.step i = .ok (c', out)) : Flow c i c' out := by
  have hsome : ∀ {opening : Opening}, c.opening = some opening → c.opening ≠ none := by
    intro opening hopening hnone
    rw [hopening] at hnone
    cases hnone
  cases i with
  | connected error =>
    rcases outstanding_cases h with ⟨hopening, h⟩ | ⟨-, rfl, rfl⟩
    · rcases silent_ok_iff.mp h with ⟨hconnect, rfl⟩
      exact flow_handleConnect (hsome hopening) hconnect
    · exact flow_refl rfl
  | socketInitialized error =>
    rcases outstanding_cases h with ⟨hopening, h⟩ | ⟨-, rfl, rfl⟩
    · rcases silent_ok_iff.mp h with ⟨hinit, rfl⟩
      exact flow_advanceOpening (hsome hopening) rfl hinit
    · exact flow_refl rfl
  | requestWritten error =>
    rcases outstanding_cases h with ⟨hopening, h⟩ | ⟨-, rfl, rfl⟩
    · rcases silent_ok_iff.mp h with ⟨hwritten, rfl⟩
      exact flow_advanceOpening (hsome hopening) rfl hwritten
    · exact flow_refl rfl
  | responseRead response =>
    rcases outstanding_cases h with ⟨hopening, h⟩ | ⟨-, rfl, rfl⟩
    · exact flow_handleReadResponse (hsome hopening) h
    · exact flow_refl rfl
  | runPosted =>
    simp only [step] at h
    split at h
    · cases h
      exact flow_refl rfl
    · rename_i task posted hposted
      rcases silent_ok_iff.mp h with ⟨htask, rfl⟩
      exact flow_runTask hposted htask
  | frame f =>
    rcases outstanding_cases h with ⟨hreading, h⟩ | ⟨-, rfl, rfl⟩
    · exact flow_readFrame hreading h
    · exact flow_refl rfl
  | readFailed =>
    rcases outstanding_cases h with ⟨hreading, h⟩ | ⟨-, rfl, rfl⟩
    · rcases silent_ok_iff.mp h with ⟨herror, rfl⟩
      exact flow_handleReadError hreading herror
    · exact flow_refl rfl
  | frameWritten error =>
    rcases outstanding_cases h with ⟨hsending, h⟩ | ⟨hsending, rfl, rfl⟩
    · rcases silent_ok_iff.mp h with ⟨hwrite, rfl⟩
      exact flow_handleWrite hsending hwrite
    · exact flow_refl (handed_of_not_sending hsending error)
  | closeTimerExpired j =>
    simp only [step] at h
    split at h
    · cases h
      exact flow_refl rfl
    · rename_i t _
      cases h
      exact flow_closeTimer rfl (.refl { c with timer := t })
  | closeTimerCompleted j =>
    simp only [step] at h
    split at h
    · cases h
      exact flow_refl rfl
    · rcases silent_ok_iff.mp h with ⟨hexpire, rfl⟩
      exact flow_closeTimer rfl (beside_failOnExpire hexpire)
  | heartbeatExpired j => exact .posts rfl (beside_handle h)
  | heartbeatCompleted j => exact .posts rfl (beside_handle h)
  | raised what => cases h

end Step

/-! ### One read and one write at a time -/

/-- The reads of frame data that are outstanding or still to be begun: one that an
    `async_read` waits for, one that is posted, and the one with which the opening ends. -/
def readers (c : Connection) : Nat :=
  (if c.opening = none then 0 else 1) + c.posted.count .handleReadFrame +
    if c.reading then 1 else 0

theorem readers_of_beside {texts : List Text} {c c' : Connection} (h : Beside texts c c') :
    c'.readers = c.readers := by
  rcases h.posted with ⟨more, hposted, hread, -⟩
  rw [readers, readers, h.opening, h.reading, hposted, List.count_append,
    List.count_eq_zero_of_not_mem hread, Nat.add_zero]

theorem readers_write (c : Connection) : c.write.readers = c.readers := by
  unfold write
  split
  · rfl
  split
  · rfl
  · rfl

theorem count_of_cons {task : Task} {posted all : List Task} (h : all = task :: posted)
    (hread : task ≠ .handleReadFrame) :
    posted.count .handleReadFrame = all.count .handleReadFrame := by
  rw [h, List.count_cons_of_ne hread]

theorem readers_of_tail {c : Connection} {task : Task} {posted : List Task}
    (h : c.posted = task :: posted) (hread : task ≠ .handleReadFrame) :
    ({ c with posted := posted } : Connection).readers = c.readers := by
  rw [readers, readers, count_of_cons h hread]

/-- The read that is posted when the connection is opened takes the place of the opening. -/
theorem readers_post_of_opens {texts : List Text} {c c' : Connection} (hbefore : c.opening ≠ none)
    (h : Beside texts { c with state := .opened, opening := none } c') :
    (c'.post .handleReadFrame).readers = c.readers := by
  rcases h.posted with ⟨more, hposted, hread, -⟩
  have hcount : (c'.post .handleReadFrame).posted.count .handleReadFrame =
      c.posted.count .handleReadFrame + 1 := by
    rw [post, hposted, List.count_append, List.count_append, List.count_eq_zero_of_not_mem hread]
    rfl
  have hopening : (c'.post .handleReadFrame).opening = none := h.opening
  have hreading : (c'.post .handleReadFrame).reading = c.reading := h.reading
  rw [readers, readers, hopening, hreading, hcount, if_pos rfl, if_neg hbefore]
  omega

/-- The read that is begun takes the place of the one that was posted. -/
theorem readers_handleReadFrame {c : Connection} {posted : List Task}
    (hhead : c.posted = .handleReadFrame :: posted) :
    ({ c with posted := posted } : Connection).handleReadFrame.readers ≤ c.readers := by
  have hcount : c.posted.count .handleReadFrame = posted.count .handleReadFrame + 1 := by
    rw [hhead, List.count_cons_self]
  have hsame : ∀ reading, ({ c with posted := posted, reading := reading } : Connection).readers ≤
      c.readers := by
    intro reading
    rw [readers, readers, hcount]
    simp only
    split
    · split
      · omega
      · omega
    · split
      · omega
      · omega
  unfold handleReadFrame
  split
  · exact hsame c.reading
  · exact hsame c.reading
  · exact hsame _
  · exact hsame _

/-- A step starts no read but in place of one that is over. -/
theorem readers_flow {c c' : Connection} {i : Input} {out : List (SessionState × Call)}
    (h : Flow c i c' out) : c'.readers ≤ c.readers := by
  cases h with
  | posts nothing beside => exact Nat.le_of_eq (readers_of_beside beside)
  | advances before nothing beside =>
    rw [readers_of_beside beside, readers, readers, if_neg before]
    simp only
    split
    · omega
    · exact Nat.le_refl _
  | opens before beside => exact Nat.le_of_eq (readers_post_of_opens before beside)
  | runs head aside quiet beside =>
    exact Nat.le_of_eq ((readers_of_beside beside).trans (readers_of_tail head aside))
  | queues head live =>
    rw [readers_write]
    exact Nat.le_of_eq (readers_of_tail head (by intro h; cases h))
  | drops head dead => exact Nat.le_of_eq (readers_of_tail head (by intro h; cases h))
  | reads head => exact readers_handleReadFrame head
  | @frame f c' out begun more reading beside =>
    have hmore : (if more then 1 else 0) ≤ 1 := by
      cases more with
      | false => exact Nat.zero_le 1
      | true => exact Nat.le_refl 1
    rw [readers_of_beside beside, readers, readers, if_pos reading]
    exact Nat.add_le_add_left hmore _
  | readEnds reading beside =>
    rw [readers_of_beside beside, readers, readers, if_neg Bool.false_ne_true]
    exact Nat.le_add_right _ _
  | writeFails sending beside =>
    have hsame := readers_of_beside beside
    exact Nat.le_of_eq hsame
  | idles sending empty => exact Nat.le_refl _
  | @writes error msg queue sending handed head opcode live =>
    have hsame := readers_write { c with sending := false, writeQueue := queue, writing := false }
    exact Nat.le_of_eq hsame
  | stops sending handed head dead => exact Nat.le_refl _
  | ends sending handed head opcode state beside =>
    have hsame := readers_of_beside beside
    exact Nat.le_of_eq hsame

/-- A write that is outstanding shows in the write state. -/
def Exclusive (c : Connection) : Prop := c.sending = true → c.writing = true

theorem exclusive_of_beside {texts : List Text} {c c' : Connection} (h : Beside texts c c')
    (hc : c.Exclusive) : c'.Exclusive := by
  unfold Exclusive
  rw [h.sending, h.writing]
  exact hc

theorem exclusive_write {c : Connection} (hc : c.Exclusive) : c.write.Exclusive := by
  unfold write
  split
  · exact hc
  split
  · exact hc
  · exact fun _ => rfl

theorem exclusive_flow {c c' : Connection} {i : Input} {out : List (SessionState × Call)}
    (hc : c.Exclusive) (h : Flow c i c' out) : c'.Exclusive := by
  have hnone : ∀ {d : Connection}, d.sending = false → d.Exclusive := by
    intro d hd hsending
    rw [hd] at hsending
    cases hsending
  cases h with
  | posts nothing beside => exact exclusive_of_beside beside hc
  | @advances i c' next before nothing beside =>
    exact @exclusive_of_beside _ { c with opening := next } _ beside hc
  | @opens response c' out before beside =>
    have hopened := @exclusive_of_beside _ { c with state := .opened, opening := none } _ beside hc
    exact hopened
  | @runs task posted c' head aside quiet beside =>
    exact @exclusive_of_beside _ { c with posted := posted } _ beside hc
  | @queues msg posted head live =>
    exact @exclusive_write { c with posted := posted, writeQueue := c.writeQueue ++ [msg] } hc
  | drops head dead => exact hc
  | reads head =>
    unfold handleReadFrame
    split
    · exact hc
    · exact hc
    · exact hc
    · exact hc
  | @frame f c' out begun more reading beside =>
    exact @exclusive_of_beside _ { c with messageBegun := begun, reading := more } _ beside hc
  | readEnds reading beside => exact @exclusive_of_beside _ { c with reading := false } _ beside hc
  | writeFails sending beside => exact exclusive_of_beside beside (hnone rfl)
  | idles sending empty => exact hnone rfl
  | writes sending handed head opcode live => exact exclusive_write (hnone rfl)
  | stops sending handed head dead => exact hnone rfl
  | ends sending handed head opcode state beside => exact exclusive_of_beside beside (hnone rfl)

/-! ### The order of what is written -/

/-- The texts that are posted to be written. -/
def postedTexts (c : Connection) : List Text := c.posted.filterMap Task.text?

/-- The texts that are queued to be written. -/
def queuedTexts (c : Connection) : List Text := c.writeQueue.filterMap Message.text?

/-- What becomes of the texts that were sent: the first were written, then come those that are
    queued, then those that are posted; only a connection that is closed loses any. -/
structure Conveys (c : Connection) (sent written : List Text) : Prop where
  kept : ∃ lost, sent = written ++ c.queuedTexts ++ lost ∧
    (c.state ≠ .closed → lost = c.postedTexts)
  silent : c.state = .connecting → c.postedTexts = []

theorem postedTexts_of_beside {texts : List Text} {c c' : Connection} (h : Beside texts c c') :
    c'.postedTexts = c.postedTexts ++ texts := by
  rcases h.posted with ⟨more, hposted, -, htexts⟩
  rw [postedTexts, postedTexts, hposted, List.filterMap_append, htexts]

theorem queuedTexts_of_beside {texts : List Text} {c c' : Connection} (h : Beside texts c c') :
    c'.queuedTexts = c.queuedTexts := by
  rw [queuedTexts, queuedTexts, h.writeQueue]

theorem postedTexts_of_quiet {c : Connection} {task : Task} {posted : List Task}
    (h : c.posted = task :: posted) (hquiet : task.text? = none) :
    ({ c with posted := posted } : Connection).postedTexts = c.postedTexts := by
  rw [postedTexts, postedTexts, h, List.filterMap_cons_none hquiet]

theorem texts_write (c : Connection) :
    c.write.postedTexts = c.postedTexts ∧ c.write.queuedTexts = c.queuedTexts := by
  unfold write
  split
  · exact ⟨rfl, rfl⟩
  split
  · exact ⟨rfl, rfl⟩
  · exact ⟨rfl, rfl⟩

theorem texts_handleReadFrame (c : Connection) :
    c.handleReadFrame.postedTexts = c.postedTexts ∧
      c.handleReadFrame.queuedTexts = c.queuedTexts := by
  unfold handleReadFrame
  split
  · exact ⟨rfl, rfl⟩
  · exact ⟨rfl, rfl⟩
  · exact ⟨rfl, rfl⟩
  · exact ⟨rfl, rfl⟩

/-- How the state of a connection can change in a step. -/
structure Turns (c c' : Connection) (out : List (SessionState × Call)) : Prop where
  closed : c.state = .closed → c'.state = .closed
  connecting : c'.state = .connecting → c.state = .connecting ∧ sentTexts out = []

/-- A step that takes no text from what is queued or posted. -/
theorem Conveys.posts {c c' : Connection} {out : List (SessionState × Call)}
    {sent written : List Text} (h : Conveys c sent written) (hturns : Turns c c' out)
    (hqueued : c'.queuedTexts = c.queuedTexts)
    (hposted : c'.postedTexts = c.postedTexts ++ sentTexts out) :
    Conveys c' (sent ++ sentTexts out) written := by
  rcases h.kept with ⟨lost, hsent, hlost⟩
  constructor
  · refine ⟨lost ++ sentTexts out, ?_, fun hlive => ?_⟩
    · rw [hsent, hqueued, List.append_assoc]
    · rw [hposted, hlost (fun hclosed => hlive (hturns.closed hclosed))]
  · intro hconnecting
    rcases hturns.connecting hconnecting with ⟨hbefore, hnone⟩
    rw [hposted, h.silent hbefore, hnone]
    rfl

/-- A step that takes a text from the head of the queue. -/
theorem Conveys.writes {c c' : Connection} {msg : Message} {sent written : List Text}
    (h : Conveys c sent written) (hturns : Turns c c' [])
    (hqueued : c.queuedTexts = [msg].filterMap Message.text? ++ c'.queuedTexts)
    (hposted : c'.postedTexts = c.postedTexts) :
    Conveys c' sent (written ++ [msg].filterMap Message.text?) := by
  rcases h.kept with ⟨lost, hsent, hlost⟩
  constructor
  · refine ⟨lost, ?_, fun hlive => ?_⟩
    · simp only [hsent, hqueued, List.append_assoc]
    · rw [hposted, hlost (fun hclosed => hlive (hturns.closed hclosed))]
  · intro hconnecting
    rw [hposted, h.silent (hturns.connecting hconnecting).1]

/-- A step that takes a text from what is posted to the end of the queue. -/
theorem Conveys.queues {c c' : Connection} {msg : Message} {sent written : List Text}
    (h : Conveys c sent written) (hlive : c.IsLive) (hstate : c'.state = c.state)
    (hqueued : c'.queuedTexts = c.queuedTexts ++ [msg].filterMap Message.text?)
    (hposted : c.postedTexts = [msg].filterMap Message.text? ++ c'.postedTexts) :
    Conveys c' sent written := by
  have hopen : c.state ≠ .closed ∧ c.state ≠ .connecting := by
    rcases hlive with hopened | hclosing
    · rw [hopened]
      decide
    · rw [hclosing]
      decide
  rcases h.kept with ⟨lost, hsent, hlost⟩
  constructor
  · refine ⟨c'.postedTexts, ?_, fun _ => rfl⟩
    rw [hsent, hlost hopen.1, hposted, hqueued, List.append_assoc, List.append_assoc,
      List.append_assoc]
  · intro hconnecting
    rw [hstate] at hconnecting
    exact absurd hconnecting hopen.2

/-- A step that hands over no frame. -/
theorem Conveys.aside {c m c' : Connection} {i : Input} {out : List (SessionState × Call)}
    {sent written : List Text} (h : Conveys c sent written) (hturns : Turns c c' out)
    (hnothing : c.handed i = []) (hqueued : m.queuedTexts = c.queuedTexts)
    (hposted : m.postedTexts = c.postedTexts) (hbeside : Beside (sentTexts out) m c') :
    Conveys c' (sent ++ sentTexts out) (written ++ (c.handed i).filterMap Message.text?) := by
  rw [hnothing, List.filterMap_nil, List.append_nil]
  apply h.posts hturns
  · rw [queuedTexts_of_beside hbeside, hqueued]
  · rw [postedTexts_of_beside hbeside, hposted]

/-- A step that hands over the head of the queue. -/
theorem Conveys.handsOver {c c' : Connection} {i : Input} {msg : Message} {queue : List Message}
    {sent written : List Text} (h : Conveys c sent written) (hturns : Turns c c' [])
    (hhanded : c.handed i = [msg]) (hhead : c.writeQueue = msg :: queue)
    (hqueued : c'.queuedTexts = queue.filterMap Message.text?)
    (hposted : c'.postedTexts = c.postedTexts) :
    Conveys c' (sent ++ sentTexts []) (written ++ (c.handed i).filterMap Message.text?) := by
  rw [hhanded, sentTexts_nil, List.append_nil]
  refine h.writes hturns ?_ hposted
  rw [hqueued, queuedTexts, hhead, ← List.filterMap_append]
  rfl

theorem conveys_opens {c c' : Connection} {out : List (SessionState × Call)}
    {sent written : List Text} (h : Conveys c sent written)
    (hturns : Turns c (c'.post .handleReadFrame) out)
    (hbeside : Beside (sentTexts out) { c with state := .opened, opening := none } c') :
    Conveys (c'.post .handleReadFrame) (sent ++ sentTexts out) written := by
  have hqueued := queuedTexts_of_beside hbeside
  apply h.posts hturns
  · exact hqueued
  · have hposted : (c'.post .handleReadFrame).postedTexts = c'.postedTexts := by
      rw [postedTexts, post, List.filterMap_append]
      exact List.append_nil _
    rw [hposted, postedTexts_of_beside hbeside]
    rfl

/-- The texts of a queue of posted functions with a message at its head. -/
theorem postedTexts_of_message {c : Connection} {msg : Message} {posted : List Task}
    (hhead : c.posted = .writeMessage msg :: posted) :
    c.postedTexts = [msg].filterMap Message.text? ++ posted.filterMap Task.text? := by
  rw [postedTexts, hhead, ← List.singleton_append, List.filterMap_append]
  rfl

theorem conveys_queues {c : Connection} {msg : Message} {posted : List Task}
    {sent written : List Text} (h : Conveys c sent written) (hlive : c.IsLive)
    (hhead : c.posted = .writeMessage msg :: posted) :
    Conveys ({ c with posted := posted, writeQueue := c.writeQueue ++ [msg] }).write sent
      written := by
  rcases texts_write { c with posted := posted, writeQueue := c.writeQueue ++ [msg] } with
    ⟨hposted, hqueued⟩
  apply h.queues hlive
  · exact (Phase.mk.inj (phase_write _)).2.1
  · rw [hqueued]
    exact List.filterMap_append
  · rw [hposted, postedTexts_of_message hhead]
    rfl

/-- Before the connection is open there is no text to drop, and behind its end any may be. -/
theorem conveys_drops {c : Connection} {msg : Message} {posted : List Task}
    {sent written : List Text} (h : Conveys c sent written) (hdead : ¬ c.IsLive)
    (hhead : c.posted = .writeMessage msg :: posted) :
    Conveys { c with posted := posted } sent written := by
  rcases h.kept with ⟨lost, hsent, hlost⟩
  have hsplit := postedTexts_of_message hhead
  cases hstate : c.state with
  | opened => exact absurd (Or.inl hstate) hdead
  | closing => exact absurd (Or.inr hstate) hdead
  | closed =>
    refine ⟨⟨lost, hsent, fun hlive => absurd rfl hlive⟩, fun hconnecting => ?_⟩
    cases hconnecting
  | connecting =>
    have hsilent := h.silent hstate
    have hlost' := hlost (by rw [hstate]; decide)
    rw [hsplit] at hsilent
    have hrest := (List.append_eq_nil_iff.mp hsilent).2
    refine ⟨⟨lost, hsent, fun _ => ?_⟩, fun _ => hrest⟩
    rw [hlost', hsplit, (List.append_eq_nil_iff.mp hsilent).1, List.nil_append]
    rfl

/-- One step keeps the texts in order. -/
theorem conveys_flow {c c' : Connection} {i : Input} {out : List (SessionState × Call)}
    {sent written : List Text} (hc : Conveys c sent written) (hturns : Turns c c' out)
    (h : Flow c i c' out) :
    Conveys c' (sent ++ sentTexts out) (written ++ (c.handed i).filterMap Message.text?) := by
  cases h with
  | posts nothing beside => exact hc.aside hturns nothing rfl rfl beside
  | @advances i c' next before nothing beside =>
    exact @Conveys.aside _ { c with opening := next } _ _ _ _ _ hc hturns nothing rfl rfl beside
  | @opens response c' out before beside =>
    rw [show c.handed (.responseRead response) = [] from rfl, List.filterMap_nil, List.append_nil]
    exact conveys_opens hc hturns beside
  | @runs task posted c' head aside quiet beside =>
    exact @Conveys.aside _ { c with posted := posted } _ _ _ _ _ hc hturns rfl rfl
      (postedTexts_of_quiet head quiet) beside
  | queues head live =>
    rw [show c.handed .runPosted = [] from rfl, List.filterMap_nil, List.append_nil,
      sentTexts_nil, List.append_nil]
    exact conveys_queues hc live head
  | drops head dead =>
    rw [show c.handed .runPosted = [] from rfl, List.filterMap_nil, List.append_nil,
      sentTexts_nil, List.append_nil]
    exact conveys_drops hc dead head
  | @reads posted head =>
    rcases texts_handleReadFrame { c with posted := posted } with ⟨hposted, hqueued⟩
    rw [show c.handed .runPosted = [] from rfl, List.filterMap_nil, List.append_nil]
    apply hc.posts hturns hqueued
    rw [hposted, postedTexts_of_quiet head rfl]
    exact (List.append_nil _).symm
  | @frame f c' out begun more reading beside =>
    exact @Conveys.aside _ { c with messageBegun := begun, reading := more } _ _ _ _ _ hc hturns
      rfl rfl rfl beside
  | readEnds reading beside =>
    exact @Conveys.aside _ { c with reading := false } _ _ _ _ _ hc hturns rfl rfl rfl beside
  | writeFails sending beside =>
    exact @Conveys.aside _ { c with sending := false } _ _ _ _ _ hc hturns rfl rfl rfl beside
  | @idles error sending empty =>
    exact @Conveys.aside _ { c with sending := false } _ _ _ _ _ hc hturns
      (handed_of_empty empty error) rfl rfl (.refl _)
  | @writes error msg queue sending handed head opcode live =>
    rcases texts_write { c with sending := false, writeQueue := queue, writing := false } with
      ⟨hposted, hqueued⟩
    exact hc.handsOver hturns handed head hqueued hposted
  | stops sending handed head dead => exact hc.handsOver hturns handed head rfl rfl
  | ends sending handed head opcode state beside =>
    apply hc.handsOver hturns handed head
    · rw [queuedTexts_of_beside beside]
      rfl
    · rw [postedTexts_of_beside beside]
      exact List.append_nil _

theorem sentTexts_of_ne {state : SessionState} (hstate : state ≠ .opened) (calls : List Call) :
    sentTexts (calls.map (fun call => (state, call))) = [] := by
  have hnone : ∀ call, sentIn (state, call) = none := by
    intro call
    unfold sentIn
    split
    · rename_i heq
      exact absurd (Prod.mk.inj heq).1 hstate
    · rfl
  induction calls with
  | nil => rfl
  | cons call calls ih =>
    rw [List.map_cons, sentTexts, List.filterMap_cons_none (hnone call)]
    exact ih

/-- Between two callbacks no write is outstanding on a connection that is not open yet. -/
def Unwritten (c : Connection) : Prop := c.state = .connecting → c.sending = false

/-- A closed connection on which no write is outstanding. -/
structure Spent (c : Connection) : Prop where
  closed : c.state = .closed
  sending : c.sending = false

/-- Only a live connection begins to write. -/
theorem sending_of_flow {c c' : Connection} {i : Input} {out : List (SessionState × Call)}
    (hdead : ¬ c.IsLive) (hsending : c.sending = false) (h : Flow c i c' out) :
    c'.sending = false ∧ c.handed i = [] := by
  have hidle : ∀ {p : Prop}, c.sending = true → p := by
    intro p htrue
    rw [hsending] at htrue
    cases htrue
  cases h with
  | posts nothing beside => exact ⟨beside.sending.trans hsending, nothing⟩
  | advances before nothing beside => exact ⟨beside.sending.trans hsending, nothing⟩
  | opens before beside => exact ⟨beside.sending.trans hsending, rfl⟩
  | runs head aside quiet beside => exact ⟨beside.sending.trans hsending, rfl⟩
  | queues head live => exact absurd live hdead
  | drops head dead => exact ⟨hsending, rfl⟩
  | reads head =>
    refine ⟨?_, rfl⟩
    unfold handleReadFrame
    split
    · exact hsending
    · exact hsending
    · exact hsending
    · exact hsending
  | frame reading beside => exact ⟨beside.sending.trans hsending, rfl⟩
  | readEnds reading beside => exact ⟨beside.sending.trans hsending, rfl⟩
  | writeFails sending beside => exact hidle sending
  | idles sending empty => exact hidle sending
  | writes sending handed head opcode live => exact hidle sending
  | stops sending handed head dead => exact hidle sending
  | ends sending handed head opcode state beside => exact hidle sending

/-- Behind a close frame the connection is closed, and nothing is being written. -/
theorem handed_of_flow {c c' : Connection} {i : Input} {out : List (SessionState × Call)}
    (hunwritten : c.Unwritten) (h : Flow c i c' out) :
    c.handed i = [] ∨ ∃ msg, c.handed i = [msg] ∧ (msg.opcode = .close → c'.Spent) := by
  cases h with
  | posts nothing beside => exact Or.inl nothing
  | advances before nothing beside => exact Or.inl nothing
  | opens before beside => exact Or.inl rfl
  | runs head aside quiet beside => exact Or.inl rfl
  | queues head live => exact Or.inl rfl
  | drops head dead => exact Or.inl rfl
  | reads head => exact Or.inl rfl
  | frame reading beside => exact Or.inl rfl
  | readEnds reading beside => exact Or.inl rfl
  | writeFails sending beside => exact Or.inl rfl
  | idles sending empty => exact Or.inl (handed_of_empty empty _)
  | writes sending handed head opcode live =>
    exact Or.inr ⟨_, handed, fun hclose => absurd hclose opcode⟩
  | stops sending handed head dead =>
    refine Or.inr ⟨_, handed, fun _ => ⟨?_, rfl⟩⟩
    cases hstate : c.state with
    | opened => exact absurd (Or.inl hstate) dead
    | closing => exact absurd (Or.inr hstate) dead
    | closed => rfl
    | connecting =>
      have hnone := hunwritten hstate
      rw [sending] at hnone
      cases hnone
  | ends sending handed head opcode state beside =>
    exact Or.inr ⟨_, handed, fun _ => ⟨state, beside.sending⟩⟩

section Order

variable [CDouble] [BoostFormat]

/-- A connection that is not open yet sends nothing, and none comes back to be one. -/
theorem connecting_of_step {c c' : Connection} {i : Input} {out : List (SessionState × Call)}
    (h : c.step i = .ok (c', out)) (hconnecting : c'.state = .connecting) :
    c.state = .connecting ∧ sentTexts out = [] := by
  cases step_effect h with
  | moves occasion hmoves =>
    refine ⟨?_, rfl⟩
    generalize hp : c.phase = p at hmoves
    generalize hp' : c'.phase = p' at hmoves
    have hstate : p.state = c.state := by rw [← hp]; rfl
    have hstate' : p'.state = .connecting := by rw [← hp']; exact hconnecting
    rw [← hstate]
    cases hmoves with
    | stays settled => exact hstate'
    | closes => cases hstate'
    | ends settled before callback => cases hstate'
  | handles hhandler hstate hopening hmessage occasion =>
    have hbefore : c.state = .connecting := hstate.symm.trans hconnecting
    refine ⟨hbefore, ?_⟩
    apply sentTexts_of_ne
    rw [hbefore]
    decide
  | opens before hhandler hstate hopening occasion =>
    rw [hstate] at hconnecting
    cases hconnecting

theorem turns_step {c c' : Connection} {i : Input} {out : List (SessionState × Call)}
    (hordered : Ordered c.phase) (h : c.step i = .ok (c', out)) : Turns c c' out :=
  ⟨fun hclosed => (closed_step hordered hclosed h).1, connecting_of_step h⟩

theorem unwritten_step {c c' : Connection} {i : Input} {out : List (SessionState × Call)}
    (hordered : Ordered c.phase) (hc : c.Unwritten) (h : c.step i = .ok (c', out)) :
    c'.Unwritten := by
  intro hconnecting
  have hbefore := ((turns_step hordered h).connecting hconnecting).1
  have hdead : ¬ c.IsLive := by
    rintro (hlive | hlive)
    · rw [hbefore] at hlive
      cases hlive
    · rw [hbefore] at hlive
      cases hlive
  exact (sending_of_flow hdead (hc hbefore) (flow_step h)).1

/-- Nothing is written any more. -/
theorem collect_of_spent {c c' : Connection} {inputs : List Input}
    {trace : List (List (SessionState × Call))} (hordered : Ordered c.phase) (hspent : c.Spent)
    (hrun : run step c inputs = .ok (c', trace)) : collect step handed c inputs = [] := by
  induction inputs generalizing c trace with
  | nil => rfl
  | cons i inputs ih =>
    rcases run_cons_ok_iff.mp hrun with ⟨m, out, trace', hstep, hrest, -⟩
    have hdead : ¬ c.IsLive := by
      rintro (hlive | hlive)
      · rw [hspent.closed] at hlive
        cases hlive
      · rw [hspent.closed] at hlive
        cases hlive
    rcases sending_of_flow hdead hspent.sending (flow_step hstep) with ⟨hsending, hnothing⟩
    have hm : m.Spent := ⟨(closed_step hordered hspent.closed hstep).1, hsending⟩
    rw [collect_cons_of_ok hstep, hnothing, List.nil_append]
    exact ih (ordered_step hordered hstep) hm hrest

/-- In a run every frame but the last is no close frame. -/
theorem pairwise_collect {c c' : Connection} {inputs : List Input}
    {trace : List (List (SessionState × Call))} (hordered : Ordered c.phase)
    (hunwritten : c.Unwritten) (hrun : run step c inputs = .ok (c', trace)) :
    (collect step handed c inputs).Pairwise (fun msg _ => msg.opcode ≠ .close) := by
  induction inputs generalizing c trace with
  | nil => exact List.Pairwise.nil
  | cons i inputs ih =>
    rcases run_cons_ok_iff.mp hrun with ⟨m, out, trace', hstep, hrest, -⟩
    have hm := ordered_step hordered hstep
    have hlater := ih hm (unwritten_step hordered hunwritten hstep) hrest
    rw [collect_cons_of_ok hstep]
    rcases handed_of_flow hunwritten (flow_step hstep) with hnothing | ⟨msg, hhanded, hclose⟩
    · rw [hnothing]
      exact hlater
    · rw [hhanded]
      apply List.Pairwise.cons _ hlater
      intro later hmem hopcode
      rw [collect_of_spent hm (hclose hopcode) hrest] at hmem
      cases hmem

theorem conveys_run {c c' : Connection} {inputs : List Input}
    {trace : List (List (SessionState × Call))} {sent written : List Text}
    (hordered : Ordered c.phase) (hc : Conveys c sent written)
    (hrun : run step c inputs = .ok (c', trace)) :
    Conveys c' (sent ++ sentTexts trace.flatten)
      (written ++ (collect step handed c inputs).filterMap Message.text?) := by
  induction inputs generalizing c trace sent written with
  | nil =>
    cases hrun
    rw [List.flatten_nil, show sentTexts [] = [] from rfl, List.append_nil, collect,
      List.filterMap_nil, List.append_nil]
    exact hc
  | cons i inputs ih =>
    rcases run_cons_ok_iff.mp hrun with ⟨m, out, trace', hstep, hrest, rfl⟩
    have hm := conveys_flow hc (turns_step hordered hstep) (flow_step hstep)
    have hlater := ih (ordered_step hordered hstep) hm hrest
    rw [collect_cons_of_ok hstep, List.filterMap_append, List.flatten_cons, sentTexts,
      List.filterMap_append, ← List.append_assoc, ← List.append_assoc]
    exact hlater

end Order

end Connection

section Runs

variable [CDouble] [BoostFormat]

open Connection

/-- **One read and one write at a time.**  In every state a run reaches there is at most one of
    these: an outstanding read of frame data, a posted function that begins one, and an opening
    at whose end one is posted; and when a write is outstanding the write state says so, which is
    what keeps `write` from beginning another. -/
theorem one_outstanding (h : Handler) (serverKey : Text) {inputs : List Input} {c : Connection}
    {trace : List (List (SessionState × Call))}
    (hrun : run step (initial h serverKey) inputs = .ok (c, trace)) :
    c.readers ≤ 1 ∧ (c.sending = true → c.writing = true) := by
  constructor
  · have hkeep := @run_invariant _ _ _ _ step (fun c => c.readers ≤ 1)
      (fun c i c' out hc hstep => Nat.le_trans (readers_flow (flow_step hstep)) hc) _ _ _ _ hrun
    exact hkeep (Nat.le_refl 1)
  · have hkeep := @run_invariant _ _ _ _ step Exclusive
      (fun c i c' out hc hstep => exclusive_flow hc (flow_step hstep)) _ _ _ _ hrun
    apply hkeep
    intro hsending
    cases hsending

/-- **What is sent is written in its order.**  Over every run from a connection that is being
    opened, the texts the handler sends while the connection is open are those that were
    written, in the order of the writes, then those that are queued, then those that are posted;
    a connection that is not closed has lost none.  And no frame is written behind a close
    frame. -/
theorem written_in_order (isSecure : Bool) (host token : Text) (actions : ActionSequence)
    (serverKey : Text) {inputs : List Input} {c : Connection}
    {trace : List (List (SessionState × Call))}
    (hrun : run step (initial (.initial isSecure host token actions) serverKey) inputs =
      .ok (c, trace)) :
    (∃ lost, sentTexts trace.flatten =
        (collect step handed (initial (.initial isSecure host token actions) serverKey)
          inputs).filterMap Message.text? ++ c.queuedTexts ++ lost ∧
        (c.state ≠ .closed → lost = c.postedTexts)) ∧
      (collect step handed (initial (.initial isSecure host token actions) serverKey)
        inputs).Pairwise (fun msg _ => msg.opcode ≠ .close) := by
  have hordered : Ordered (initial (.initial isSecure host token actions) serverKey).phase :=
    ordered_initial rfl serverKey
  have hinitial : Conveys (initial (.initial isSecure host token actions) serverKey) [] [] :=
    ⟨⟨[], rfl, fun _ => rfl⟩, fun _ => rfl⟩
  refine ⟨(conveys_run hordered hinitial hrun).kept, ?_⟩
  exact pairwise_collect hordered (fun _ => rfl) hrun

end Runs

section Late

open Plain Connection

/-- A connection that is opened, on which a wait expires before the server goes. -/
def lateInputs : List Input :=
  [.connected none, .socketInitialized false, .requestWritten false,
    .responseRead (some ⟨true, 101, "websocket".toList, "Upgrade".toList, "key".toList⟩),
    .runPosted, .runPosted, .heartbeatExpired 0, .frameWritten .success, .heartbeatCompleted 0,
    .runPosted, .readFailed, .frameWritten .success]

def lateStart : Connection :=
  initial (.initial false [] [] (.construct "[\"a\"]".toList)) "key".toList

theorem one_outstanding_late : ∃ c trace, run step lateStart lateInputs = .ok (c, trace) ∧
    c.readers ≤ 1 ∧ (c.sending = true → c.writing = true) := by
  rcases exists_ok_of_isSome (show (run step lateStart lateInputs).toOption.isSome = true by
    decide +kernel) with ⟨⟨c, trace⟩, hrun⟩
  exact ⟨c, trace, hrun, one_outstanding _ _ hrun⟩

/-- The action and the probe are written, the probe behind the end of the connection. -/
theorem written_in_order_late : ∃ c trace, run step lateStart lateInputs = .ok (c, trace) ∧
    (∃ lost, sentTexts trace.flatten =
        (collect step handed lateStart lateInputs).filterMap Message.text? ++ c.queuedTexts ++
          lost ∧
        (c.state ≠ .closed → lost = c.postedTexts)) ∧
      (collect step handed lateStart lateInputs).Pairwise (fun msg _ => msg.opcode ≠ .close) := by
  rcases exists_ok_of_isSome (show (run step lateStart lateInputs).toOption.isSome = true by
    decide +kernel) with ⟨⟨c, trace⟩, hrun⟩
  exact ⟨c, trace, hrun, written_in_order false [] [] _ _ hrun⟩

end Late

end SocketIOStress
