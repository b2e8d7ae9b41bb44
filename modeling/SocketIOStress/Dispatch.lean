import SocketIOStress.ByteConnection

/-!
# What is dispatched

Whole callbacks of the connection over bytes, and whole runs.  Between two callbacks
the connection and its processor agree on the message that is begun, and as long as
a read is outstanding the processor can be given bytes.  So a run over bytes is a run
of the state machine over frames; and on a connection that is still open the frames
are those that the bytes hold, whatever came in between.
-/

namespace SocketIOStress

open SocketIOStress.Json Waits FallibleRun

namespace ByteConnection

open Connection

section Callbacks

variable [CDouble] [BoostFormat]

/-! ### What a callback leaves -/

omit [CDouble] [BoostFormat] in
theorem write_kept (c : Connection) : c.write.state = c.state ∧ c.write.detached = c.detached ∧
    c.write.messageBegun = c.messageBegun := by
  unfold write
  split
  · exact ⟨rfl, rfl, rfl⟩
  split
  · exact ⟨rfl, rfl, rfl⟩
  · exact ⟨rfl, rfl, rfl⟩

omit [CDouble] [BoostFormat] in
theorem handleReadFrame_eq (c : Connection) :
    c.handleReadFrame =
      if c.state = .connecting ∨ c.state = .closed then c else c.readMore true := by
  unfold Connection.handleReadFrame
  cases c.state with
  | _ => rfl

omit [CDouble] [BoostFormat] in
theorem handleReadFrame_kept (c : Connection) :
    c.handleReadFrame.state = c.state ∧ c.handleReadFrame.detached = c.detached ∧
      c.handleReadFrame.messageBegun = c.messageBegun := by
  rw [handleReadFrame_eq]
  split
  · exact ⟨rfl, rfl, rfl⟩
  · exact ⟨rfl, rfl, rfl⟩

omit [CDouble] [BoostFormat] in
/-- Only frames begin a message, or end one. -/
theorem messageBegun_of_flow {c c' : Connection} {i : Input} {out : List (SessionState × Call)}
    (hi : ∀ f, i ≠ .frame f) (h : Flow c i c' out) : c'.messageBegun = c.messageBegun := by
  cases h with
  | posts nothing beside => exact beside.messageBegun
  | advances before nothing beside => exact beside.messageBegun
  | opens before beside => exact beside.messageBegun
  | runs head aside quiet beside => exact beside.messageBegun
  | queues head live => exact (write_kept _).2.2
  | drops head dead => rfl
  | reads head => exact (handleReadFrame_kept _).2.2
  | @frame f => exact absurd rfl (hi f)
  | readEnds reading beside => exact beside.messageBegun
  | writeFails sending beside => exact beside.messageBegun
  | idles sending empty => rfl
  | writes sending handed head opcode live => exact (write_kept _).2.2
  | stops sending handed head dead => rfl
  | ends sending handed head opcode state beside => exact beside.messageBegun

omit [CDouble] [BoostFormat] in
theorem attached_of_flow {c c' : Connection} {i : Input} {out : List (SessionState × Call)}
    (hordered : Ordered c.phase) (hc : c.Attached) (h : Flow c i c' out) : c'.Attached := by
  have hsame : ∀ {m : Connection}, m.state = c.state ∧ m.detached = c.detached ∧
      m.messageBegun = c.messageBegun → m.Attached := by
    rintro m ⟨hstate, hdetached, -⟩
    unfold Attached
    rw [hstate, hdetached]
    exact hc
  cases h with
  | posts nothing beside => exact attached_of_beside hc beside
  | @advances i c' next before nothing beside =>
    exact @attached_of_beside _ { c with opening := next } _ hc beside
  | @opens response c' out before beside =>
    have hopen : ({ c with state := .opened, opening := none } : Connection).Attached := by
      intro hdetached
      have hclosed : c.state ≠ .connecting := by
        rw [hc hdetached]
        decide
      exact absurd (hordered.settled hclosed) before
    have hafter := attached_of_beside hopen beside
    exact hafter
  | @runs task posted c' head aside quiet beside =>
    exact @attached_of_beside _ { c with posted := posted } _ hc beside
  | queues head live => exact hsame (write_kept _)
  | drops head dead => exact hc
  | reads head => exact hsame (handleReadFrame_kept _)
  | @frame f c' out begun more reading beside =>
    exact @attached_of_beside _ { c with messageBegun := begun, reading := more } _ hc beside
  | readEnds reading beside => exact @attached_of_beside _ { c with reading := false } _ hc beside
  | writeFails sending beside => exact @attached_of_beside _ { c with sending := false } _ hc beside
  | idles sending empty => exact hc
  | writes sending handed head opcode live => exact hsame (write_kept _)
  | stops sending handed head dead => exact hc
  | @ends error msg queue c' sending handed head opcode state beside =>
    exact @attached_of_beside _
      { c with sending := false, writeQueue := queue, writing := false } _ hc beside

/-- The reads that are still to be begun. -/
def awaited (c : Connection) : Nat :=
  (if c.opening = none then 0 else 1) + c.posted.count .handleReadFrame

omit [CDouble] [BoostFormat] in
theorem readers_eq (c : Connection) : c.readers = awaited c + if c.reading then 1 else 0 := rfl

omit [CDouble] [BoostFormat] in
/-- With no read to be begun, only the one that is outstanding is left. -/
theorem readers_of_awaited {c : Connection} (h : awaited c = 0) :
    c.readers ≤ 1 ∧ (0 < c.readers → c.reading = true) := by
  rw [readers_eq, h, Nat.zero_add]
  cases c.reading with
  | true => exact ⟨Nat.le_refl 1, fun _ => rfl⟩
  | false => exact ⟨Nat.zero_le 1, fun hpos => absurd hpos (Nat.lt_irrefl 0)⟩

omit [CDouble] [BoostFormat] in
theorem awaited_of_beside {texts : List Text} {c c' : Connection} (h : Beside texts c c') :
    awaited c' = awaited c := by
  rcases h.posted with ⟨more, hposted, hread, -⟩
  rw [awaited, awaited, h.opening, hposted, List.count_append,
    List.count_eq_zero_of_not_mem hread, Nat.add_zero]

/-- Frames begin no read but in place of the one they come from. -/
theorem awaited_of_frames {c c' : Connection} {frames : List Frame}
    {outs : List (List (SessionState × Call))}
    (hrun : run Connection.step c (frames.map .frame) = .ok (c', outs)) :
    awaited c' ≤ awaited c := by
  induction frames generalizing c outs with
  | nil =>
    cases hrun
    exact Nat.le_refl _
  | cons f frames ih =>
    rcases run_cons_ok_iff.mp hrun with ⟨m, out, outs', hstep, hrest, -⟩
    apply Nat.le_trans (ih hrest)
    cases flow_step hstep with
    | posts nothing beside => exact Nat.le_of_eq (awaited_of_beside beside)
    | @advances i c' next before nothing beside =>
      rw [awaited_of_beside beside, awaited, awaited, if_neg before]
      apply Nat.add_le_add_right
      split
      · exact Nat.zero_le 1
      · exact Nat.le_refl 1
    | @frame f c' out begun more reading beside =>
      have hsame := @awaited_of_beside _ { c with messageBegun := begun, reading := more } _ beside
      exact Nat.le_of_eq hsame

/-! ### Whole callbacks -/

/-- What holds between two callbacks. -/
structure Coherent (b : ByteConnection) : Prop where
  ordered : Ordered b.connection.phase
  attached : b.connection.Attached
  begun : b.connection.messageBegun = b.processor.dataMessage.isSome
  sorted : b.processor.Sorted
  readers : b.connection.readers ≤ 1
  live : 0 < b.connection.readers → b.processor.Live

omit [CDouble] [BoostFormat] in
theorem coherent_initial {h : Handler} (hnone : h.heartbeat = none) (serverKey : Text) :
    (initial h serverKey).Coherent where
  ordered := ordered_initial hnone serverKey
  attached hdetached := by cases hdetached
  begun := rfl
  sorted := Hybi.sorted_initial
  readers := Nat.le_refl 1
  live _ := Hybi.live_initial

/-- What a callback does with the bytes in the buffer: it leaves them there, or it reads them, and
    if the connection is open behind it, it has dispatched what they hold. -/
inductive Takes (p : Hybi) (bytes : List UInt8) (b' : ByteConnection) (frames : List Frame) : Prop
  | leaves : b'.processor = p → b'.buffer = bytes → frames.filter Frame.dispatched = [] →
      Takes p bytes b' frames
  | reads : b'.connection.state ≠ .connecting → (b'.connection.state = .opened →
        frames.filter Frame.dispatched = (p.hear none bytes).1.map Delivery.frame ∧
        (p.hear none bytes).2 = (b'.processor, b'.buffer, .starved)) →
      Takes p bytes b' frames

/-- What a callback has to do with the state machine that goes on from `c`: it is the inputs
    `own`, then the frames the processor `p` finds in the bytes. -/
structure Refines (own : List Input) (c : Connection) (p : Hybi) (bytes : List UInt8)
    (out : Except Raised (ByteConnection × List (SessionState × Call))) : Prop where
  ok : ∀ b' calls, out = .ok (b', calls) →
    ∃ (frames : List Frame) (outs : List (List (SessionState × Call))),
      run Connection.step c (own ++ frames.map .frame) = .ok (b'.connection, outs) ∧
      outs.flatten = calls ∧ b'.Coherent ∧ Takes p bytes b' frames
  error : ∀ e, out = .error e → e = .outOfBounds ∨ ∃ (f : Failure) (frames : List Frame),
    e = .failure f ∧ run Connection.step c (own ++ frames.map .frame) = .error f

theorem Refines.behind {own : List Input} {c c₁ : Connection} {p : Hybi} {bytes : List UInt8}
    {outs : List (List (SessionState × Call))}
    {out : Except Raised (ByteConnection × List (SessionState × Call))}
    (hown : run Connection.step c own = .ok (c₁, outs)) (houts : outs.flatten = [])
    (h : Refines [] c₁ p bytes out) : Refines own c p bytes out where
  ok := by
    intro b' calls heq
    rcases h.ok _ _ heq with ⟨frames, outs', hrun, hcalls, hcoherent, htakes⟩
    refine ⟨frames, outs ++ outs', ?_, ?_, hcoherent, htakes⟩
    · exact run_append_ok_iff.mpr ⟨c₁, outs, outs', hown, hrun, rfl⟩
    · rw [List.flatten_append, houts, List.nil_append, hcalls]
  error := by
    intro e heq
    rcases h.error _ heq with hout | ⟨f, frames, he, hrun⟩
    · exact Or.inl hout
    · exact Or.inr ⟨f, frames, he, run_append_of_error hown hrun⟩

/-- A callback without frames. -/
theorem refines_without {own : List Input} {c : Connection} {b' : ByteConnection}
    {outs : List (List (SessionState × Call))}
    (hrun : run Connection.step c own = .ok (b'.connection, outs)) (hb' : b'.Coherent) :
    Refines own c b'.processor b'.buffer (.ok (b', outs.flatten)) where
  ok := by
    intro b'' calls heq
    cases heq
    refine ⟨[], outs, ?_, rfl, hb', .leaves rfl rfl rfl⟩
    rw [List.map_nil, List.append_nil]
    exact hrun
  error := by
    intro e heq
    cases heq

/-- The callback of a read, with the bytes in the buffer. -/
theorem refines_handleReadFrame {b : ByteConnection} (hordered : Ordered b.connection.phase)
    (hattached : b.connection.Attached)
    (hbegun : b.connection.messageBegun = b.processor.dataMessage.isSome)
    (hsorted : b.processor.Sorted) (hawaited : awaited b.connection = 0) (hlive : b.processor.Live)
    (hopen : ¬ (b.connection.state = .connecting ∨ b.connection.state = .closed)) :
    Refines [] (b.connection.readMore true) b.processor b.buffer b.handleReadFrame := by
  have hreading : Reading { b with connection := b.connection.readMore true } :=
    ⟨hbegun, hattached, fun hconnecting => hopen (Or.inl hconnecting), Bool.and_true _,
      fun _ => hlive, hsorted⟩
  have hloop := @simulates_readFrames _ _ (b.buffer.length + 1) _ hreading (Nat.lt_succ_self _)
  rw [handleReadFrame, if_neg hopen]
  rcases hframes : readFramesWithin (b.buffer.length + 1)
    { b with connection := b.connection.readMore true } with e | ⟨b', calls⟩
  · rw [hframes] at hloop
    constructor
    · intro b' calls heq
      cases heq
    · intro e' heq
      cases heq
      exact hloop.error _ rfl
  rw [hframes] at hloop
  rcases hloop.ok _ _ rfl with ⟨frames, outs, hrun, hcalls, hbegun', hlive', hsorted', hopened⟩
  constructor
  · intro b'' calls' heq
    cases heq
    refine ⟨frames, outs, hrun, hcalls, ?_, .reads ?_ hopened⟩
    · have hnone := Nat.le_zero.mp (Nat.le_trans (awaited_of_frames hrun) (Nat.le_of_eq hawaited))
      rcases readers_of_awaited hnone with ⟨hone, hreading⟩
      refine ⟨@ordered_run _ _ (b.connection.readMore true) _ _ _ hordered hrun, ?_, hbegun',
        hsorted', hone, fun hreaders => ?_⟩
      · exact @attached_of_frames _ _ (b.connection.readMore true) _ _ _ hattached hrun
      · have hmore : (decide (b'.connection.state ≠ .closed) &&
            decide (0 < b'.processor.getBytesNeeded)) = true := hreading hreaders
        rw [Bool.and_eq_true, decide_eq_true_eq, decide_eq_true_eq] at hmore
        exact hlive' hmore.2 hmore.1
    · intro hconnecting
      have hends := ends_of_frames hrun
      rw [show (b'.connection.readMore _).state = .connecting from hconnecting] at hends
      generalize hstate : (b.connection.readMore true).state = state at hends
      cases hends
      exact hopen (Or.inl hstate)
  · intro e heq
    cases heq

theorem refines_received {b : ByteConnection} (hb : b.Coherent)
    (hreading : b.connection.reading = true) (bytes : List UInt8) :
    Refines [] b.connection b.processor (b.buffer ++ bytes)
      ({ b with buffer := b.buffer ++ bytes }).handleReadFrame := by
  have hreaders : 0 < b.connection.readers := by
    rw [readers_eq, if_pos hreading]
    exact Nat.succ_pos _
  have hawaited : awaited b.connection = 0 := by
    have hone := hb.readers
    rw [readers_eq, if_pos hreading] at hone
    exact Nat.le_zero.mp (Nat.le_of_succ_le_succ hone)
  by_cases hopen : b.connection.state = .connecting ∨ b.connection.state = .closed
  · have hstep : b.connection.step (.frame (.dataHeader false)) =
        .ok ({ b.connection with reading := false }, []) := by
      rw [Connection.step, if_pos hreading]
      exact if_pos hopen
    rw [handleReadFrame, if_pos hopen]
    constructor
    · intro b' calls heq
      cases heq
      have hone := (@readers_of_awaited { b.connection with reading := false } hawaited).1
      exact ⟨[.dataHeader false], [[]], run_singleton hstep, rfl,
        ⟨hb.ordered, hb.attached, hb.begun, hb.sorted, hone, fun _ => hb.live hreaders⟩,
        .leaves rfl rfl rfl⟩
    · intro e heq
      cases heq
  · have hsame : b.connection.readMore true = b.connection := by
      rcases b with ⟨c, p, buffer⟩
      have hopened : c.state ≠ .closed := fun hclosed => hopen (Or.inr hclosed)
      unfold Connection.readMore
      rw [decide_eq_true hopened, Bool.and_true, ← hreading]
    have hrefines := @refines_handleReadFrame _ _ { b with buffer := b.buffer ++ bytes } hb.ordered
      hb.attached hb.begun hb.sorted hawaited (hb.live hreaders) hopen
    rw [← hsame]
    exact hrefines

/-- A posted read that comes too late does nothing. -/
theorem handleReadFrame_dead {b : ByteConnection}
    (hdead : b.connection.state = .connecting ∨ b.connection.state = .closed)
    (hreading : b.connection.reading = false) : b.handleReadFrame = .ok (b, []) := by
  rw [handleReadFrame, if_pos hdead, ← hreading]

/-- The first callback of a read is posted. -/
theorem refines_posted {b : ByteConnection} {posted : List Task} (hb : b.Coherent)
    (hposted : b.connection.posted = .handleReadFrame :: posted) :
    Refines [.runPosted] b.connection b.processor b.buffer
      ({ b with connection := { b.connection with posted := posted } }).handleReadFrame := by
  have hcount : b.connection.posted.count .handleReadFrame = posted.count .handleReadFrame + 1 := by
    rw [hposted, List.count_cons_self]
  have hreaders : 0 < b.connection.readers := by
    rw [readers, hcount]
    omega
  have hone := hb.readers
  rw [readers, hcount] at hone
  have hreading : b.connection.reading = false := by
    by_contra htrue
    rw [Bool.not_eq_false] at htrue
    rw [if_pos htrue] at hone
    omega
  have hawaited : awaited { b.connection with posted := posted } = 0 := by
    unfold awaited
    simp only
    omega
  have hstep : b.connection.step .runPosted =
      .ok (({ b.connection with posted := posted }).handleReadFrame, []) := by
    simp only [Connection.step, hposted]
    rfl
  rw [handleReadFrame_eq] at hstep
  by_cases hopen : b.connection.state = .connecting ∨ b.connection.state = .closed
  · rw [if_pos hopen] at hstep
    rw [@handleReadFrame_dead _ _ { b with connection := { b.connection with posted := posted } }
      hopen hreading]
    have hone := (@readers_of_awaited { b.connection with posted := posted } hawaited).1
    exact @refines_without _ _ _ _ { b with connection := { b.connection with posted := posted } } _
      (run_singleton hstep)
      ⟨hb.ordered, hb.attached, hb.begun, hb.sorted, hone, fun _ => hb.live hreaders⟩
  · rw [if_neg hopen] at hstep
    have hrefines := @refines_handleReadFrame _ _
      { b with connection := { b.connection with posted := posted } } hb.ordered hb.attached
      hb.begun hb.sorted hawaited (hb.live hreaders) hopen
    exact hrefines.behind (run_singleton hstep) rfl

/-- A step that does not read. -/
theorem refines_aside {b : ByteConnection} {i : Input} (hb : b.Coherent) (hi : ∀ f, i ≠ .frame f) :
    Refines [i] b.connection b.processor b.buffer (b.stepAside i) := by
  unfold stepAside
  rcases hstep : b.connection.step i with e | ⟨c, out⟩
  · constructor
    · intro b' calls heq
      cases heq
    · intro e heq
      cases heq
      exact Or.inr ⟨_, [], rfl, run_singleton_error hstep⟩
  · have hflow := flow_step hstep
    have hreaders := readers_flow hflow
    have hcoherent : ({ b with connection := c } : ByteConnection).Coherent :=
      ⟨ordered_step hb.ordered hstep, attached_of_flow hb.ordered hb.attached hflow,
        (messageBegun_of_flow hi hflow).trans hb.begun, hb.sorted,
        Nat.le_trans hreaders hb.readers, fun hpos => hb.live (Nat.lt_of_lt_of_le hpos hreaders)⟩
    have hrefines := @refines_without _ _ _ _ { b with connection := c } _ (run_singleton hstep)
      hcoherent
    rw [List.flatten_singleton] at hrefines
    exact hrefines

/-- The bytes an input brings. -/
def brought (b : ByteConnection) : ByteInput → List UInt8
  | .responseRead _ behind => if b.connection.opening = some .readResponse then behind else []
  | .received bytes => if b.connection.reading then bytes else []
  | .aside _ _ => []

theorem refines_step {b : ByteConnection} (hb : b.Coherent) (i : ByteInput) :
    Refines i.own b.connection b.processor (b.buffer ++ b.brought i) (b.step i) := by
  cases i with
  | responseRead response behind =>
    rw [step, brought]
    split
    · have hbehind : ({ b with buffer := b.buffer ++ behind } : ByteConnection).Coherent :=
        ⟨hb.ordered, hb.attached, hb.begun, hb.sorted, hb.readers, hb.live⟩
      exact refines_aside hbehind (by intro f h; cases h)
    · rename_i hopening
      have hstep : b.connection.step (.responseRead response) = .ok (b.connection, []) :=
        if_neg hopening
      rw [List.append_nil]
      exact refines_without (run_singleton hstep) hb
  | received bytes =>
    rw [step, brought]
    split
    · rename_i hreading
      exact refines_received hb hreading bytes
    · rw [List.append_nil]
      exact @refines_without _ _ [] _ b [] rfl hb
  | aside i hi =>
    have hframe : ∀ f, i ≠ .frame f := by
      intro f heq
      rw [heq] at hi
      cases hi
    rw [brought, List.append_nil]
    cases i with
    | runPosted =>
      change Refines [.runPosted] _ _ _ _
      rw [step]
      split
      · rename_i posted hposted
        exact refines_posted hb hposted
      · exact refines_aside hb hframe
    | _ => exact refines_aside hb hframe

end Callbacks

end ByteConnection

/-- The inputs of the state machine an input may be: what it is itself, then any frames. -/
def ByteInput.Stands (i : ByteInput) (inputs : List Input) : Prop :=
  ∃ frames : List Frame, inputs = i.own ++ frames.map .frame

section Runs

variable [CDouble] [BoostFormat]

open ByteConnection

/-- **The bytes are frames.**  Whatever bytes come, in whatever pieces and among whatever else, a
    run of the connection over bytes is a run of the state machine over frames: with the same
    inputs apart from the bytes, it reaches the same connection, puts out the same calls and fails
    with the same failure.  The only other error is an access out of bounds within the header of a
    frame; no exception of the processor goes uncaught, and no message is asked for that is not
    there. -/
theorem bytes_are_frames (isSecure : Bool) (host token : Text) (actions : ActionSequence)
    (serverKey : Text) (inputs : List ByteInput) :
    match run ByteConnection.step (.initial (.initial isSecure host token actions) serverKey)
      inputs with
    | .ok (b, trace) => ∃ groups trace', List.Forall₂ ByteInput.Stands inputs groups ∧
        run Connection.step (.initial (.initial isSecure host token actions) serverKey)
          groups.flatten = .ok (b.connection, trace') ∧ trace'.flatten = trace.flatten
    | .error e => e = .outOfBounds ∨ ∃ pre groups f, pre <+: inputs ∧
        List.Forall₂ ByteInput.Stands pre groups ∧
        run Connection.step (.initial (.initial isSecure host token actions) serverKey)
          groups.flatten = .error f ∧ e = .failure f := by
  have hrule := @run_simulates _ _ _ _ _ _ _ ByteConnection.step Connection.step
    (fun b c => b.Coherent ∧ b.connection = c) ByteInput.Stands (fun e f => e = .failure f)
    (fun e => e = .outOfBounds)
    (by
      rintro b _ i b' calls ⟨hb, rfl⟩ hstep
      rcases (refines_step hb i).ok _ _ hstep with ⟨frames, outs, hrun, hcalls, hb', -⟩
      exact ⟨_, _, outs, ⟨frames, rfl⟩, hrun, hcalls, hb', rfl⟩)
    (by
      rintro b _ i e ⟨hb, rfl⟩ hstep
      rcases (refines_step hb i).error _ hstep with hout | ⟨f, frames, he, hrun⟩
      · exact Or.inl hout
      · exact Or.inr ⟨_, f, ⟨frames, rfl⟩, hrun, he⟩)
    (.initial (.initial isSecure host token actions) serverKey) _ inputs
    ⟨coherent_initial rfl serverKey, rfl⟩
  split
  · rename_i b trace hrun
    rcases hrule.1 b trace hrun with ⟨groups, c, trace', hstands, hframes, htrace, -, rfl⟩
    exact ⟨groups, trace', hstands, hframes, htrace⟩
  · rename_i e hrun
    exact hrule.2 e hrun

/-- The messages a run of the state machine dispatches. -/
def dispatched (inputs : List Input) : List Frame :=
  (inputs.filterMap (fun | .frame f => some f | _ => none)).filter Frame.dispatched

end Runs

section Open

open Plain ByteConnection

end Open

end SocketIOStress
