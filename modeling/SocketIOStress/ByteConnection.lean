import SocketIOStress.Hybi.Guard
import SocketIOStress.Outstanding

/-!
# The connection over bytes

`handle_read_frame` as the socket sees it: the bytes that come are added to a buffer,
the processor is run over the buffer for as long as the connection is not closed, and
every message it comes to is dispatched.  An exception of the processor ends the loop
and leaves the rest of the buffer for the next read.

The state machine of the connection takes frames.  Here it is shown to be what the
loop over bytes does: a callback of the socket is a run of the state machine, over
the frames the processor finds in the bytes.
-/

namespace SocketIOStress

open SocketIOStress.Json Waits FallibleRun

namespace ControlMessage

def getRawCloseCode (m : ControlMessage) : Except Raised Nat :=
  match m.payload with
  | high :: low :: _ => .ok (high.toNat * 256 + low.toNat)
  | _ =>
      .error (.exception .fatalError "get_raw_close_code called with invalid size".toList)

def getCloseCode (m : ControlMessage) : Except Raised Nat :=
  if m.payload = [] then .ok CloseStatus.noStatus else m.getRawCloseCode

def getCloseReason (m : ControlMessage) : Text := textOf (m.payload.drop 2)

end ControlMessage

namespace Connection

/-- What `get_data_message` raises, if anything. -/
def pool (c : Connection) : Option Failure :=
  if c.detached then some (.runtimeError "get_data_message: Endpoint was destroyed")
  else if c.state ≠ .opened then
    some (.runtimeError "get_data_message called from state other than OPEN")
  else none

/-- `process_control`. -/
def processControl (c : Connection) (m : ControlMessage) : Except Raised Connection :=
  match m.opcode with
  | .ping => .ok (c.pong (textOf m.payload))
  | .pong => .ok c
  | .close =>
      match m.getCloseCode with
      | .error e => .error e
      | .ok code => (c.processClose code m.getCloseReason).mapError .failure
  | _ => .error (.exception .protocolViolation "Invalid Opcode".toList)

end Connection

/-- Only a closed connection is detached. -/
def Connection.Attached (c : Connection) : Prop := c.detached = true → c.state = .closed

/-- The frame of the state machine that dispatches a message. -/
def Delivery.frame (d : Delivery) : Frame :=
  match d.opcode with
  | .ping => .ping (textOf d.payload)
  | .pong => .pong (textOf d.payload)
  | .close => .close (textOf d.payload)
  | _ => .message (textOf d.payload)

/-- Whether a message is dispatched. -/
def Frame.dispatched : Frame → Bool
  | .message _ => true
  | .ping _ => true
  | .pong _ => true
  | .close _ => true
  | .dataHeader _ => false
  | .violation _ _ _ => false

/-- A connection with its processor and `m_buf`. -/
structure ByteConnection where
  connection : Connection
  processor : Hybi
  buffer : List UInt8

/-- Whether an input is something else than bytes read from the socket. -/
def Input.offWire : Input → Bool
  | .responseRead _ => false
  | .frame _ => false
  | _ => true

inductive ByteInput where
  /-- The answer to the upgrade request, and what was read with it. -/
  | responseRead (response : Option UpgradeResponse) (behind : List UInt8)
  | received (bytes : List UInt8)
  | aside (i : Input) (h : i.offWire = true)

/-- What an input is to the state machine, apart from the frames in its bytes. -/
def ByteInput.own : ByteInput → List Input
  | .responseRead response _ => [.responseRead response]
  | .received _ => []
  | .aside i _ => [i]

namespace ByteConnection

open Connection

def initial (h : Handler) (serverKey : Text) : ByteConnection :=
  ⟨.initial h serverKey, .initial, []⟩

/-- Behind a call of the processor, which may have begun a data message. -/
def settle (b : ByteConnection) (p : Hybi) (rest : List UInt8) : ByteConnection :=
  ⟨{ b.connection with messageBegun := p.dataMessage.isSome }, p, rest⟩

section Step

variable [CDouble] [BoostFormat]

/-- The message that is ready, dispatched. -/
def process (b : ByteConnection) : Except Raised (Connection × List (SessionState × Call)) :=
  if b.processor.isControl then
    match b.processor.controlMessage with
    | none => .error .nullMessage
    | some m => (b.connection.processControl m).map (·, [])
  else
    match b.processor.dataMessage with
    | none => .error .nullMessage
    | some m =>
        (({ b.connection with messageBegun := false }).handle
          (.message (textOf m.payload))).mapError .failure

/-- The `catch` of the loop; only a soft error lets it go on. -/
def recover (goOn : ByteConnection → Except Raised (ByteConnection × List (SessionState × Call)))
    (b : ByteConnection) : Raised → Except Raised (ByteConnection × List (SessionState × Call))
  | .exception error what =>
      let p := if b.processor.state = .ready then b.processor.reset else b.processor
      match b.connection.handleViolation what error with
      | .error e => .error (.failure e)
      | .ok c => if error = .softError then goOn ⟨c, p, b.buffer⟩ else .ok (⟨c, p, b.buffer⟩, [])
  | .failure e => .error (.failure e)
  | .outOfBounds => .error .outOfBounds
  | .nullMessage => .error .nullMessage

/-- The loop of `handle_read_frame`, so many times at most.  A processor that runs out of
    stream has used up the buffer. -/
def readFramesWithin :
    Nat → ByteConnection → Except Raised (ByteConnection × List (SessionState × Call))
  | 0, b => .ok (b, [])
  | bound + 1, b =>
      if b.connection.state = .closed ∨ b.buffer = [] then .ok (b, [])
      else
        match b.processor.consume b.connection.pool b.buffer with
        | (p, rest, .starved) => .ok (b.settle p rest, [])
        | (p, rest, .raised e) => recover (readFramesWithin bound) (b.settle p rest) e
        | (p, rest, .stopped) =>
            match (b.settle p rest).process with
            | .error e => recover (readFramesWithin bound) (b.settle p.taken rest) e
            | .ok (c, calls) =>
                match readFramesWithin bound ⟨c.readMore true, p.taken, rest⟩ with
                | .error e => .error e
                | .ok (b, more) => .ok (b, calls ++ more)

/-- The loop, and the read that is begun behind it.  As long as the loop goes on, the read
    whose bytes it looks at counts as outstanding. -/
def handleReadFrame (b : ByteConnection) :
    Except Raised (ByteConnection × List (SessionState × Call)) :=
  if b.connection.state = .connecting ∨ b.connection.state = .closed then
    .ok ({ b with connection := { b.connection with reading := false } }, [])
  else
    match readFramesWithin (b.buffer.length + 1)
        { b with connection := b.connection.readMore true } with
    | .error e => .error e
    | .ok (b, calls) =>
        .ok ({ b with
          connection := b.connection.readMore (decide (0 < b.processor.getBytesNeeded)) }, calls)

/-- A step that does not read. -/
def stepAside (b : ByteConnection) (i : Input) :
    Except Raised (ByteConnection × List (SessionState × Call)) :=
  match b.connection.step i with
  | .error e => .error (.failure e)
  | .ok (c, out) => .ok ({ b with connection := c }, out)

def step (b : ByteConnection) :
    ByteInput → Except Raised (ByteConnection × List (SessionState × Call))
  | .responseRead response behind =>
      if b.connection.opening = some .readResponse then
        ({ b with buffer := b.buffer ++ behind }).stepAside (.responseRead response)
      else .ok (b, [])
  | .received bytes =>
      if b.connection.reading then ({ b with buffer := b.buffer ++ bytes }).handleReadFrame
      else .ok (b, [])
  | .aside .runPosted _ =>
      match b.connection.posted with
      | .handleReadFrame :: posted =>
          ({ b with connection := { b.connection with posted := posted } }).handleReadFrame
      | _ => b.stepAside .runPosted
  | .aside i _ => b.stepAside i

end Step

/-! ### What the processor finds -/

theorem completeClose_ok {high low : Char} {back reason : Text} {code : Nat}
    (h : completeClose (high :: low :: back) = .ok (code, reason)) :
    code = high.toNat * 256 + low.toNat ∧ reason = back := by
  simp only [completeClose] at h
  split at h
  · cases h
  split at h
  · cases h
  split at h
  · cases h
    exact ⟨rfl, rfl⟩
  · cases h

/-- A close frame that is complete has a code and a reason. -/
theorem closeCode_of_complete {m : ControlMessage} (hop : m.opcode = .close)
    (hcomplete : m.complete = .ok ()) : ∃ code, m.getCloseCode = .ok code ∧
      completeClose (textOf m.payload) = .ok (code, m.getCloseReason) := by
  unfold ControlMessage.complete at hcomplete
  rw [if_pos hop] at hcomplete
  rcases hclose : completeClose (textOf m.payload) with ⟨error, what⟩ | ⟨code, reason⟩
  · rw [hclose] at hcomplete
    cases hcomplete
  unfold ControlMessage.getCloseCode ControlMessage.getRawCloseCode ControlMessage.getCloseReason
  rcases hpayload : m.payload with _ | ⟨high, _ | ⟨low, back⟩⟩
  · rw [hpayload] at hclose
    cases hclose
    exact ⟨_, rfl, rfl⟩
  · rw [hpayload] at hclose
    cases hclose
  · rw [hpayload] at hclose
    rcases completeClose_ok hclose with ⟨hcode, hreason⟩
    rw [toNat_ofNat_byte, toNat_ofNat_byte] at hcode
    rw [if_neg (List.cons_ne_nil _ _), hcode, hreason]
    exact ⟨_, rfl, rfl⟩

/-- The opcodes of control frames the protocol knows. -/
theorem control_opcode {op : FrameOpcode} (hcontrol : op.isControl = true)
    (hreserved : op.reserved = false) : op = .ping ∨ op = .pong ∨ op = .close := by
  revert hcontrol hreserved
  cases op with
  | _ => decide

/-! ### The loop -/

/-- What holds in the loop of `handle_read_frame`. -/
structure Reading (b : ByteConnection) : Prop where
  begun : b.connection.messageBegun = b.processor.dataMessage.isSome
  attached : b.connection.Attached
  opened : b.connection.state ≠ .connecting
  reading : b.connection.reading = decide (b.connection.state ≠ .closed)
  live : b.connection.state ≠ .closed → b.processor.Live
  sorted : b.processor.Sorted

theorem Reading.readMore {b : ByteConnection} (h : b.Reading) :
    b.connection.readMore true = b.connection := by
  unfold Connection.readMore
  rw [Bool.and_true, ← h.reading]

/-- The processor may be given bytes as long as the connection is not closed. -/
theorem Reading.settle {b : ByteConnection} {p : Hybi} (h : b.Reading) (rest : List UInt8)
    (hp : p.Live) (hsorted : p.Sorted) : (b.settle p rest).Reading :=
  ⟨rfl, h.attached, h.opened, h.reading, fun _ => hp, hsorted⟩

theorem Reading.isLive {b : ByteConnection} (h : b.Reading) (hlive : b.connection.state ≠ .closed) :
    b.connection.reading = true ∧ b.connection.IsLive := by
  refine ⟨h.reading.trans (decide_eq_true hlive), ?_⟩
  cases hstate : b.connection.state with
  | opened => exact Or.inl hstate
  | closing => exact Or.inr hstate
  | connecting => exact absurd hstate h.opened
  | closed => exact absurd hstate hlive

section Loop

variable [CDouble] [BoostFormat]

/-- A frame that is read while the connection is open. -/
theorem step_frame {c : Connection} (hreading : c.reading = true) (hlive : c.IsLive) (f : Frame) :
    c.step (.frame f) =
      match f with
      | .message payload => if c.messageBegun then c.processData payload else .ok (c, [])
      | f => (c.processFrame f).map (·, []) := by
  have hopen : ¬ (c.state = .connecting ∨ c.state = .closed) := by
    rcases hlive with hstate | hstate
    · rw [hstate]
      decide
    · rw [hstate]
      decide
  rw [Connection.step, if_pos hreading]
  cases f with
  | _ => exact if_neg hopen

theorem run_singleton {c c' : Connection} {i : Input} {out : List (SessionState × Call)}
    (h : c.step i = .ok (c', out)) : run Connection.step c [i] = .ok (c', [out]) :=
  run_cons_of_ok h rfl

theorem run_singleton_error {c : Connection} {i : Input} {e : Failure} (h : c.step i = .error e) :
    run Connection.step c [i] = .error e := by
  simp only [run, h]

omit [CDouble] [BoostFormat] in
/-- The header of a message is taken exactly when there is a message to give. -/
theorem processDataHeader_false {c : Connection} (hbegun : c.messageBegun = false) :
    c.processDataHeader false =
      match c.pool with
      | some e => .error e
      | none => .ok { c with messageBegun := true } := by
  unfold processDataHeader Connection.pool
  rw [hbegun]
  simp only [Bool.false_eq_true, if_false]
  split
  · rfl
  split
  · rfl
  · rfl

/-- A call of the processor is a header the state machine takes, or nothing. -/
theorem run_settle {b : ByteConnection} {p : Hybi} (h : b.Reading)
    (hlive : b.connection.state ≠ .closed)
    (hbegins : Hybi.Begins b.connection.pool b.processor p) (rest : List UInt8) :
    ∃ (frames : List Frame) (outs : List (List (SessionState × Call))),
      run Connection.step b.connection (frames.map .frame) =
        .ok ((b.settle p rest).connection, outs) ∧
      outs.flatten = [] ∧ frames.filter Frame.dispatched = [] := by
  rcases hbegins with hsame | ⟨hnone, hsome, hpool⟩
  · refine ⟨[], [], ?_, rfl, rfl⟩
    have hsettle : (b.settle p rest).connection = b.connection := by
      rw [settle, hsame, ← h.begun]
    rw [hsettle]
    rfl
  · refine ⟨[.dataHeader false], [[]], ?_, rfl, rfl⟩
    apply run_singleton
    have hbegun : b.connection.messageBegun = false := by
      rw [h.begun, hnone]
      rfl
    have hmore : ({ b.connection with messageBegun := true } : Connection).readMore true =
        { b.connection with messageBegun := true } := by
      unfold Connection.readMore
      rw [Bool.and_true, ← h.reading]
    rcases h.isLive hlive with ⟨hreading, hopen⟩
    rw [step_frame hreading hopen]
    simp only [processFrame, processDataHeader_false hbegun, hpool, Except.map, hmore, settle,
      hsome]

/-- What the loop has to do with the state machine that goes on from `c`, when these messages are
    heard on an open connection. -/
structure Simulates (c : Connection) (heard : List Delivery × Feed.Outcome Hybi UInt8 Raised)
    (out : Except Raised (ByteConnection × List (SessionState × Call))) : Prop where
  ok : ∀ b' calls, out = .ok (b', calls) →
    ∃ (frames : List Frame) (outs : List (List (SessionState × Call))),
      run Connection.step c (frames.map .frame) =
        .ok (b'.connection.readMore (decide (0 < b'.processor.getBytesNeeded)), outs) ∧
      outs.flatten = calls ∧ b'.connection.messageBegun = b'.processor.dataMessage.isSome ∧
      (0 < b'.processor.getBytesNeeded → b'.connection.state ≠ .closed → b'.processor.Live) ∧
      b'.processor.Sorted ∧
      (b'.connection.state = .opened → frames.filter Frame.dispatched = heard.1.map Delivery.frame ∧
        heard.2 = (b'.processor, b'.buffer, .starved))
  error : ∀ e, out = .error e → e = .outOfBounds ∨ ∃ (f : Failure) (frames : List Frame),
    e = .failure f ∧ run Connection.step c (frames.map .frame) = .error f

omit [CDouble] [BoostFormat] in
theorem attached_of_beside {texts : List Text} {c c' : Connection} (hc : c.Attached)
    (h : Beside texts c c') : c'.Attached := by
  intro hdetached
  rcases h.detached with hsame | hclosed
  · have hends := h.ends
    rw [hc (hsame.symm.trans hdetached)] at hends
    exact hends.closed
  · exact hclosed

/-- A frame does not open a connection. -/
theorem frame_ends {c c' : Connection} {f : Frame} {out : List (SessionState × Call)}
    (h : c.step (.frame f) = .ok (c', out)) :
    Ends c.state c'.state ∧ (c.Attached → c'.Attached) := by
  cases flow_step h with
  | posts nothing beside => exact ⟨beside.ends, fun hc => attached_of_beside hc beside⟩
  | @advances i c' next before nothing beside =>
    exact ⟨beside.ends, fun hc => @attached_of_beside _ { c with opening := next } _ hc beside⟩
  | @frame f c' out begun more reading beside =>
    exact ⟨beside.ends, fun hc => @attached_of_beside _
      { c with messageBegun := begun, reading := more } _ hc beside⟩

theorem ends_of_frames {c c' : Connection} {frames : List Frame}
    {outs : List (List (SessionState × Call))}
    (hrun : run Connection.step c (frames.map .frame) = .ok (c', outs)) :
    Ends c.state c'.state := by
  induction frames generalizing c outs with
  | nil =>
    cases hrun
    exact .stays _
  | cons f frames ih =>
    rcases run_cons_ok_iff.mp hrun with ⟨m, out, outs', hstep, hrest, -⟩
    exact (frame_ends hstep).1.trans (ih hrest)

theorem attached_of_frames {c c' : Connection} {frames : List Frame}
    {outs : List (List (SessionState × Call))} (hc : c.Attached)
    (hrun : run Connection.step c (frames.map .frame) = .ok (c', outs)) : c'.Attached := by
  induction frames generalizing c outs with
  | nil =>
    cases hrun
    exact hc
  | cons f frames ih =>
    rcases run_cons_ok_iff.mp hrun with ⟨m, out, outs', hstep, hrest, -⟩
    exact ih ((frame_ends hstep).2 hc) hrest

/-- What is heard matters only on an open connection. -/
theorem Simulates.of_heard {c : Connection}
    {heard heard' : List Delivery × Feed.Outcome Hybi UInt8 Raised}
    {out : Except Raised (ByteConnection × List (SessionState × Call))}
    (hheard : c.state = .opened → heard' = heard) (h : Simulates c heard out) :
    Simulates c heard' out where
  ok := by
    intro b' calls heq
    rcases h.ok _ _ heq with ⟨frames, outs, hrun, hcalls, hbegun, hlive, hsorted, hopened⟩
    refine ⟨frames, outs, hrun, hcalls, hbegun, hlive, hsorted, fun hstate => ?_⟩
    have hends := ends_of_frames hrun
    rw [show (b'.connection.readMore _).state = .opened from hstate] at hends
    rw [hheard hends.opened]
    exact hopened hstate
  error := h.error

omit [CDouble] [BoostFormat] in
theorem Reading.readMore_needed {b : ByteConnection} (h : b.Reading) :
    b.connection.readMore (decide (0 < b.processor.getBytesNeeded)) = b.connection := by
  by_cases hclosed : b.connection.state = .closed
  · have hreading := h.reading
    unfold Connection.readMore
    rw [hclosed] at hreading ⊢
    simp only [ne_eq, not_true_eq_false, decide_false, Bool.false_and] at hreading ⊢
    rw [← hreading, ← hclosed]
  · rw [decide_eq_true (h.live hclosed).needed, h.readMore]

/-- The loop ends here. -/
theorem simulates_end {b : ByteConnection} (h : b.Reading) :
    Simulates b.connection ([], (b.processor, b.buffer, .starved)) (.ok (b, [])) where
  ok := by
    intro b' calls heq
    cases heq
    refine ⟨[], [], ?_, rfl, h.begun, fun _ hlive => h.live hlive, h.sorted, fun _ => ⟨rfl, rfl⟩⟩
    rw [h.readMore_needed]
    rfl
  error := by
    intro e heq
    cases heq

/-- A part of the loop in front of the rest. -/
theorem Simulates.behind {c c₁ : Connection} {frames : List Frame}
    {outs : List (List (SessionState × Call))} {ds : List Delivery}
    {heard : List Delivery × Feed.Outcome Hybi UInt8 Raised}
    {out : Except Raised (ByteConnection × List (SessionState × Call))}
    (hrun : run Connection.step c (frames.map .frame) = .ok (c₁, outs))
    (hframes : frames.filter Frame.dispatched = ds.map Delivery.frame)
    (h : Simulates c₁ heard out) :
    Simulates c (ds ++ heard.1, heard.2) (out.map (fun r => (r.1, outs.flatten ++ r.2))) where
  ok := by
    intro b' calls heq
    rcases out with e | ⟨b₂, more⟩
    · cases heq
    cases heq
    rcases h.ok _ _ rfl with ⟨frames', outs', hrun', hcalls, hbegun, hlive, hsorted, hopened⟩
    refine ⟨frames ++ frames', outs ++ outs', ?_, ?_, hbegun, hlive, hsorted, fun hstate => ?_⟩
    · rw [List.map_append]
      exact run_append_ok_iff.mpr ⟨c₁, outs, outs', hrun, hrun', rfl⟩
    · rw [List.flatten_append, hcalls]
    · rcases hopened hstate with ⟨hframes', hheard⟩
      refine ⟨?_, hheard⟩
      rw [List.filter_append, hframes, hframes', List.map_append]
  error := by
    intro e heq
    rcases out with e' | ⟨b₂, more⟩
    · cases heq
      rcases h.error _ rfl with hout | ⟨f, frames', he, hrun'⟩
      · exact Or.inl hout
      · refine Or.inr ⟨f, frames ++ frames', he, ?_⟩
        rw [List.map_append]
        exact run_append_of_error hrun hrun'
    · cases heq

/-- The same, when the part in front puts nothing out and dispatches nothing. -/
theorem Simulates.behind_silent {c c₁ : Connection} {frames : List Frame}
    {outs : List (List (SessionState × Call))}
    {heard : List Delivery × Feed.Outcome Hybi UInt8 Raised}
    {out : Except Raised (ByteConnection × List (SessionState × Call))}
    (hrun : run Connection.step c (frames.map .frame) = .ok (c₁, outs)) (houts : outs.flatten = [])
    (hframes : frames.filter Frame.dispatched = []) (h : Simulates c₁ heard out) :
    Simulates c heard out := by
  have hbehind := @Simulates.behind _ _ c c₁ frames outs [] heard out hrun hframes h
  rw [houts] at hbehind
  cases out with
  | error e => exact hbehind
  | ok r => exact hbehind

/-- What dispatching a message comes to, by a frame of the state machine. -/
def Dispatches (c : Connection) (d : Delivery) (taken : Hybi)
    (out : Except Raised (Connection × List (SessionState × Call))) : Prop :=
  match out with
  | .ok (c', calls) => c'.messageBegun = taken.dataMessage.isSome ∧
      ∃ f, [f].filter Frame.dispatched = [d.frame] ∧
        c.step (.frame f) = .ok (c'.readMore true, calls)
  | .error e => ∃ (g : Failure) (f : Frame), e = .failure g ∧ c.step (.frame f) = .error g

/-- A control message that is complete is a frame the state machine takes. -/
theorem dispatches_control {c : Connection} {m : ControlMessage} {taken : Hybi}
    (hreading : c.reading = true) (hlive : c.IsLive)
    (hbegun : c.messageBegun = taken.dataMessage.isSome) (hcomplete : m.complete = .ok ())
    (hopcode : m.opcode = .ping ∨ m.opcode = .pong ∨ m.opcode = .close) :
    Dispatches c ⟨m.opcode, m.payload⟩ taken ((c.processControl m).map (·, [])) := by
  unfold processControl
  rcases hopcode with hping | hpong | hclose
  · rw [hping]
    refine ⟨(beside_pong _ _).messageBegun.trans hbegun, .ping (textOf m.payload), rfl, ?_⟩
    rw [step_frame hreading hlive]
    rfl
  · rw [hpong]
    refine ⟨hbegun, .pong (textOf m.payload), rfl, ?_⟩
    rw [step_frame hreading hlive]
    rfl
  · rcases closeCode_of_complete hclose hcomplete with ⟨code, hcode, hpayload⟩
    have hstep : c.step (.frame (.close (textOf m.payload))) =
        ((c.processClose code m.getCloseReason).map (readMore · true)).map (·, []) := by
      rw [step_frame hreading hlive]
      simp only [processFrame, hpayload]
    rw [hclose]
    simp only [hcode]
    rcases hprocess : c.processClose code m.getCloseReason with g | c'
    · refine ⟨g, .close (textOf m.payload), rfl, ?_⟩
      rw [hstep, hprocess]
      rfl
    · refine ⟨(beside_processClose hprocess).messageBegun.trans hbegun,
        .close (textOf m.payload), rfl, ?_⟩
      rw [hstep, hprocess]
      rfl

omit [CDouble] [BoostFormat] in
theorem frame_of_data {op : FrameOpcode} (hop : op.isControl = false) (payload : List UInt8) :
    Delivery.frame ⟨op, payload⟩ = .message (textOf payload) := by
  cases op with
  | continuation | text | binary => rfl
  | rsv3 | rsv4 | rsv5 | rsv6 | rsv7 => rfl
  | close | ping | pong => cases hop
  | controlRsvb | controlRsvc | controlRsvd | controlRsve | controlRsvf => cases hop

/-- A data message that is complete is a frame the state machine takes. -/
theorem dispatches_data {c : Connection} {m : DataMessage} {taken : Hybi}
    (hreading : c.reading = true) (hlive : c.IsLive) (hbegun : c.messageBegun = true)
    (hopcode : m.opcode.isControl = false) (htaken : taken.dataMessage = none) :
    Dispatches c ⟨m.opcode, m.payload⟩ taken
      ((({ c with messageBegun := false }).handle
        (.message (textOf m.payload))).mapError .failure) := by
  have hstep : c.step (.frame (.message (textOf m.payload))) =
      c.processData (textOf m.payload) := by
    rw [step_frame hreading hlive]
    exact if_pos hbegun
  rcases hhandle : ({ c with messageBegun := false } : Connection).handle
    (.message (textOf m.payload)) with g | ⟨c', calls⟩
  · refine ⟨g, .message (textOf m.payload), rfl, ?_⟩
    rw [hstep, processData, hhandle]
  · refine ⟨?_, .message (textOf m.payload), ?_, ?_⟩
    · rw [(beside_handle hhandle).messageBegun, htaken]
      rfl
    · rw [frame_of_data hopcode]
      rfl
    · rw [hstep, processData, hhandle]

/-- A message that is complete is a frame the state machine takes. -/
theorem dispatches_process {b : ByteConnection} (hreading : b.connection.reading = true)
    (hlive : b.connection.IsLive)
    (hbegun : b.connection.messageBegun = b.processor.dataMessage.isSome)
    (hcomplete : b.processor.Complete) (hvetted : b.processor.header.Vetted)
    (hsorted : b.processor.Sorted) :
    ∃ d, b.processor.delivery = some d ∧ Dispatches b.connection d b.processor.taken b.process := by
  unfold process Hybi.taken Hybi.delivery
  cases hkind : b.processor.isControl with
  | true =>
    rcases hcomplete.control hkind with ⟨m, hm, hop, hmcomplete⟩
    have hvalid := hvetted.valid (by rw [hcomplete.header]; decide)
    have hopcode := control_opcode hkind (HybiHeader.validateBasicHeader_ok hvalid).2.2.2.2
    rw [← hop] at hopcode
    simp only [if_true, hm]
    exact ⟨_, rfl, dispatches_control hreading hlive hbegun hmcomplete hopcode⟩
  | false =>
    rcases Option.isSome_iff_exists.mp (hcomplete.data hkind) with ⟨m, hm⟩
    rw [hm] at hbegun
    simp only [Bool.false_eq_true, if_false, hm]
    exact ⟨_, rfl, dispatches_data hreading hlive hbegun (hsorted m hm) rfl⟩

/-- An error that both come to. -/
theorem simulates_failure {c : Connection} {f : Frame} {g : Failure}
    (heard : List Delivery × Feed.Outcome Hybi UInt8 Raised) (h : c.step (.frame f) = .error g) :
    Simulates c heard (.error (.failure g)) where
  ok := by
    intro b' calls heq
    cases heq
  error := by
    intro e heq
    cases heq
    exact Or.inr ⟨g, [f], rfl, run_singleton_error h⟩

omit [CDouble] [BoostFormat] in
/-- A violation ends an open connection. -/
theorem handleViolation_ne_opened {c c' : Connection} {what : Text} {error : ProcessorError}
    (hattached : c.Attached) (herror : error ≠ .softError)
    (h : c.handleViolation what error = .ok c') : c'.state ≠ .opened := by
  have hclose : ∀ code, CloseStatus.invalid code = false → CloseStatus.reserved code = false →
      (c.sendClose code what).state ≠ .opened := by
    intro code hvalid hfree
    unfold sendClose
    rw [hvalid, hfree]
    split
    · rename_i hdetached
      rw [hattached hdetached]
      decide
    split
    · rename_i hstate
      exact hstate
    · rw [if_neg Bool.false_ne_true, if_neg Bool.false_ne_true]
      intro hopened
      cases hopened
  cases error with
  | fatalError =>
    rw [closed_of_terminate h]
    decide
  | softError => exact absurd rfl herror
  | protocolViolation | payloadViolation | internalEndpointError | messageTooBig =>
    cases h
    exact hclose _ (by decide) (by decide)

/-- An exception of the processor that ends the loop is a violation the state machine takes. -/
theorem simulates_violation {b : ByteConnection} {error : ProcessorError} (what : Text)
    (heard : List Delivery × Feed.Outcome Hybi UInt8 Raised)
    (goOn : ByteConnection → Except Raised (ByteConnection × List (SessionState × Call)))
    (hreading : b.connection.reading = true) (hlive : b.connection.IsLive)
    (hattached : b.connection.Attached)
    (hbegun : b.connection.messageBegun = b.processor.dataMessage.isSome)
    (hready : b.processor.state ≠ .ready) (herror : error ≠ .softError)
    (hneeded : 0 < b.processor.getBytesNeeded → b.processor.Live) (hsorted : b.processor.Sorted) :
    Simulates b.connection heard (recover goOn b (.exception error what)) := by
  have hstep : b.connection.step
      (.frame (.violation error what (decide (0 < b.processor.getBytesNeeded)))) =
      ((b.connection.handleViolation what error).map
        (readMore · (decide (0 < b.processor.getBytesNeeded)))).map (·, []) := by
    rw [step_frame hreading hlive]
    rfl
  simp only [recover, if_neg hready, if_neg herror]
  rcases hviolation : b.connection.handleViolation what error with g | c
  · apply simulates_failure
    rw [hstep, hviolation]
    rfl
  · rw [hviolation] at hstep
    constructor
    · intro b' calls heq
      cases heq
      refine ⟨[_], [[]], run_singleton hstep, rfl, ?_, fun hmore _ => hneeded hmore, hsorted,
        fun hopened => ?_⟩
      · exact (beside_handleViolation hviolation).messageBegun.trans hbegun
      · exact absurd hopened (handleViolation_ne_opened hattached herror hviolation)
    · intro e heq
      cases heq

/-- Anything else the processor raises ends both. -/
theorem simulates_recover {b : ByteConnection} {p : Hybi} {rest : List UInt8} {e : Raised}
    (heard : List Delivery × Feed.Outcome Hybi UInt8 Raised)
    (goOn : ByteConnection → Except Raised (ByteConnection × List (SessionState × Call)))
    (h : b.Reading) (hlive : b.connection.state ≠ .closed) (hsound : p.Sound) (hsorted : p.Sorted)
    (hrecovers : Hybi.Recovers b.connection.pool b.processor p e) :
    Simulates b.connection heard (recover goOn (b.settle p rest) e) := by
  rcases h.isLive hlive with ⟨hreading, hopen⟩
  cases e with
  | outOfBounds =>
    constructor
    · intro b' calls heq
      cases heq
    · intro e heq
      cases heq
      exact Or.inl rfl
  | nullMessage => exact absurd rfl hrecovers.message
  | failure f =>
    rcases hrecovers.failure f rfl with ⟨hpool, hnone⟩
    have hbegun : b.connection.messageBegun = false := by
      rw [h.begun, hnone]
      rfl
    apply @simulates_failure _ _ _ (.dataHeader false)
    rw [step_frame hreading hopen]
    simp only [processFrame, processDataHeader_false hbegun, hpool, Except.map]
  | exception error what =>
    rcases run_settle h hlive hrecovers.begins rest with ⟨frames, outs, hrun, houts, hframes⟩
    apply Simulates.behind_silent hrun houts hframes
    apply @simulates_violation _ _ (b.settle p rest) error what heard goOn hreading hopen
      h.attached rfl hrecovers.state
    · intro hsoft
      exact hrecovers.fatal what (by rw [hsoft])
    · exact hrecovers.live_of_needed hsound
    · exact hsorted

omit [CDouble] [BoostFormat] in
theorem pool_of_opened {c : Connection} (hattached : c.Attached) (hopened : c.state = .opened) :
    c.pool = none := by
  have hdetached : c.detached ≠ true := by
    intro hdetached
    rw [hattached hdetached] at hopened
    cases hopened
  unfold Connection.pool
  rw [if_neg hdetached, if_neg (fun hstate => hstate hopened)]

/-- A message that is ready is dispatched, and the loop goes on behind it. -/
theorem simulates_dispatch {bound : Nat} {b : ByteConnection} {p : Hybi} {rest : List UInt8}
    (h : b.Reading) (hlive : b.connection.state ≠ .closed) (hcomplete : p.Complete)
    (hvetted : p.header.Vetted) (hsorted : p.Sorted)
    (hlater : ∀ c : Connection, Reading ⟨c, p.taken, rest⟩ →
      Simulates c (p.taken.hear none rest) (readFramesWithin bound ⟨c, p.taken, rest⟩)) :
    Simulates (b.settle p rest).connection
      (p.delivery.toList ++ (p.taken.hear none rest).1, (p.taken.hear none rest).2)
      (match (b.settle p rest).process with
        | .error e => recover (readFramesWithin bound) (b.settle p.taken rest) e
        | .ok (c, calls) =>
            match readFramesWithin bound ⟨c.readMore true, p.taken, rest⟩ with
            | .error e => .error e
            | .ok (b, more) => .ok (b, calls ++ more)) := by
  rcases h.isLive hlive with ⟨hreading, hopen⟩
  rcases @dispatches_process _ _ (b.settle p rest) hreading hopen rfl hcomplete hvetted hsorted
    with ⟨d, hd, hdispatches⟩
  have hdelivery : p.delivery = some d := hd
  rcases hprocess : (b.settle p rest).process with e | ⟨c, calls⟩
  · rw [hprocess] at hdispatches
    rcases hdispatches with ⟨g, f, rfl, hstep⟩
    exact simulates_failure _ hstep
  · rw [hprocess] at hdispatches
    rcases hdispatches with ⟨hbegun, f, hf, hstep⟩
    have hnext : Reading ⟨c.readMore true, p.taken, rest⟩ := by
      refine ⟨hbegun, ?_, fun hconnecting => ?_, Bool.and_true _, fun _ => p.live_taken,
        Hybi.sorted_taken hsorted⟩
      · exact (frame_ends hstep).2 h.attached
      · exact h.opened (connecting_of_step hstep hconnecting).1
    have hboth := @Simulates.behind _ _ (b.settle p rest).connection _ [f] _ [d] _ _
      (run_singleton hstep) hf (hlater _ hnext)
    rw [List.flatten_singleton] at hboth
    rw [hdelivery]
    rcases hmore : readFramesWithin bound ⟨c.readMore true, p.taken, rest⟩ with e | ⟨b', more⟩
    · rw [hmore] at hboth
      simp only [hmore]
      exact hboth
    · rw [hmore] at hboth
      simp only [hmore]
      exact hboth

omit [CDouble] [BoostFormat] in
/-- What is heard in the bytes of a connection that is open, by the call of its processor. -/
theorem hear_of_consume {b : ByteConnection} {p : Hybi} {rest : List UInt8}
    {o : Feed.Ending Raised} (h : b.Reading) (hp : b.processor.Live) (hbuffer : b.buffer ≠ [])
    (hconsume : b.processor.consume b.connection.pool b.buffer = (p, rest, o))
    (hopened : b.connection.state = .opened) :
    b.processor.hear none b.buffer =
      match (p, rest, o) with
      | (p', rest, .stopped) =>
          (p'.delivery.toList ++ (p'.taken.hear none rest).1, (p'.taken.hear none rest).2)
      | (p', rest, .starved) => ([], (p', rest, .starved))
      | (p', rest, .raised e) => ([], (p', rest, .raised e)) := by
  rw [pool_of_opened h.attached hopened] at hconsume
  rw [Hybi.hear_eq hp.awaiting, if_neg hbuffer, hconsume]
  cases o with
  | _ => rfl

/-- **The loop is a run of the state machine**, and on an open connection it dispatches what is
    heard in the bytes. -/
theorem simulates_readFrames {bound : Nat} {b : ByteConnection} (h : b.Reading)
    (hbound : b.buffer.length < bound) :
    Simulates b.connection (b.processor.hear none b.buffer) (readFramesWithin bound b) := by
  induction bound generalizing b with
  | zero => exact absurd hbound (Nat.not_lt_zero _)
  | succ bound ih =>
    rw [readFramesWithin]
    by_cases hend : b.connection.state = .closed ∨ b.buffer = []
    · rw [if_pos hend]
      apply Simulates.of_heard _ (simulates_end h)
      intro hopened
      have hlive : b.connection.state ≠ .closed := by
        rw [hopened]
        decide
      have hnil := hend.resolve_left hlive
      rw [Hybi.hear_eq (h.live hlive).awaiting, if_pos hnil, hnil]
    rw [if_neg hend]
    have hlive : b.connection.state ≠ .closed := fun hclosed => hend (Or.inl hclosed)
    have hp := h.live hlive
    rcases hconsume : b.processor.consume b.connection.pool b.buffer with ⟨p, rest, o⟩
    have hsorted := Hybi.sorted_consume hp.awaiting.sound h.sorted hconsume
    apply Simulates.of_heard (hear_of_consume h hp (fun hnil => hend (Or.inr hnil)) hconsume)
    rcases Hybi.keeps_consume hp hconsume with ⟨rfl, hrest, hp', hbegins⟩ |
      ⟨rfl, hrest, hcomplete, hvetted, hbegins⟩ | ⟨e, rfl, hrecovers⟩
    · -- the bytes end within a frame
      rcases run_settle h hlive hbegins rest with ⟨frames, outs, hrun, houts, hframes⟩
      apply Simulates.behind_silent hrun houts hframes
      exact simulates_end (h.settle rest hp' hsorted)
    · -- a message is ready
      rcases run_settle h hlive hbegins rest with ⟨frames, outs, hrun, houts, hframes⟩
      apply Simulates.behind_silent hrun houts hframes
      apply simulates_dispatch h hlive hcomplete hvetted hsorted
      intro c hnext
      exact ih hnext (Nat.lt_of_lt_of_le hrest (Nat.le_of_lt_succ hbound))
    · -- the processor has raised an exception
      have hsound := Hybi.sound_consume hp.awaiting.sound b.connection.pool b.buffer
      rw [hconsume] at hsound
      exact simulates_recover _ (readFramesWithin bound) h hlive hsound hsorted hrecovers

end Loop

end ByteConnection

end SocketIOStress
