import SocketIOStress.Hybi.Memory
import SocketIOStress.Hybi.RoundTrip

/-!
# What the processor can count on

A processor that is asked for bytes is in a state from which no call reaches for a
message that is not there, and from which every control message that comes to its
end is one the protocol knows.  An exception leaves it in such a state, or leaves it
where it asks for nothing more.
-/

namespace SocketIOStress

namespace HybiHeader

/-- What has been checked of a header, as far as it has been read. -/
structure Vetted (h : HybiHeader) : Prop where
  valid : h.state ≠ .basicHeader → h.validateBasicHeader = .ok ()
  size : h.state = .ready → h.getBasicSize ≤ payloadSizeBasic → h.payloadSize = h.getBasicSize

theorem vetted_of_basicHeader {h : HybiHeader} (hstate : h.state = .basicHeader) : h.Vetted := by
  refine ⟨fun hne => absurd hstate hne, fun hready => ?_⟩
  rw [hstate] at hready
  cases hready

theorem vetted_reset (h : HybiHeader) : h.reset.Vetted := vetted_of_basicHeader rfl

/-- A header that is not ready is vetted when its first two bytes are. -/
theorem vetted_of_valid {h : HybiHeader} (hstate : h.state ≠ .ready)
    (hvalid : h.validateBasicHeader = .ok ()) : h.Vetted :=
  ⟨fun _ => hvalid, fun hready => absurd hready hstate⟩

theorem vetted_finish {h : HybiHeader} (hvalid : h.validateBasicHeader = .ok ())
    (hstate : h.state ≠ .ready) : h.finish.1.Vetted := by
  rcases processExtendedHeader_kept h with ⟨size, hsize⟩
  unfold finish
  rcases hprocess : h.processExtendedHeader with ⟨r, e | u⟩
  · rw [hprocess] at hsize
    simp only at hsize ⊢
    rw [hsize]
    exact vetted_of_valid hstate hvalid
  · simp only
    rw [hprocess] at hsize
    simp only at hsize
    refine ⟨fun _ => ?_, fun _ hbasic => ?_⟩
    · rw [hsize]
      exact hvalid
    · have hbasic' : h.getBasicSize ≤ payloadSizeBasic := by
        rw [hsize] at hbasic
        exact hbasic
      rw [processExtendedHeader, if_pos hbasic'] at hprocess
      rw [← (Prod.mk.inj hprocess).1]
      rfl

theorem vetted_advance {h : HybiHeader} (hvetted : h.Vetted) (hstate : h.state ≠ .ready) :
    h.advance.1.Vetted := by
  unfold advance
  cases hh : h.state with
  | basicHeader =>
    simp only [beginExtended]
    rcases hvalid : h.processBasicHeader.validateBasicHeader with e | u
    · exact vetted_of_basicHeader hh
    · simp only
      split
      · apply vetted_of_valid
        · intro hready
          cases hready
        · exact hvalid
      · exact vetted_finish hvalid hstate
  | extendedHeader =>
    apply vetted_finish
    · apply hvetted.valid
      rw [hh]
      decide
    · exact hstate
  | ready => exact absurd hh hstate

/-- The header is vetted behind every call, also one that raises. -/
theorem vetted_consume {h : HybiHeader} (hsound : h.Sound) (hvetted : h.Vetted)
    (input : List UInt8) : (h.consume input).1.Vetted := by
  by_cases hstate : h.state = .ready
  · simp only [consume, hstate]
    exact hvetted
  rw [consume_eq hstate]
  rcases hr : h.readUpTo h.stop input with _ | r
  · exact hvetted
  rcases readUpTo_kept hr with ⟨hsame, hsize, -, hkept⟩
  have hrvetted : r.Vetted := by
    cases hh : h.state with
    | basicHeader => exact vetted_of_basicHeader (hsame.trans hh)
    | extendedHeader =>
      have hneeded := hsound hh
      have hstop : h.stop = h.getHeaderLen := by rw [stop, hh]
      have hfirst := hkept 0 (by omega)
      have hsecond := hkept 1 (by omega)
      apply vetted_of_valid
      · rw [hsame]
        exact hstate
      · rw [validateBasicHeader_congr hfirst hsecond]
        apply hvetted.valid
        rw [hh]
        decide
    | ready => exact absurd hh hstate
  simp only
  split
  · exact vetted_advance hrvetted (hsame ▸ hstate)
  · exact hrvetted

theorem reset_ne_ready (h : HybiHeader) : h.reset.state ≠ .ready := by
  intro hready
  cases hready

/-- A header that has been reset reads as that of a frame of data that is not the last. -/
theorem fields_reset (h : HybiHeader) : h.reset.isControl = false ∧ h.reset.getFin = false := by
  have hinitial : initial.isControl = false ∧ initial.getFin = false := by decide
  exact hinitial

/-- The header of a control frame. -/
theorem control_of_vetted {h : HybiHeader} (hvetted : h.Vetted) (hready : h.state = .ready)
    (hcontrol : h.isControl = true) : h.getFin = true ∧ h.payloadSize ≤ payloadSizeBasic := by
  have hvalid := hvetted.valid (by rw [hready]; decide)
  rcases (validateBasicHeader_ok hvalid).1 hcontrol with ⟨hfin, hsize⟩
  refine ⟨hfin, ?_⟩
  rw [hvetted.size hready hsize]
  exact hsize

end HybiHeader

namespace Hybi

/-- A frame is being read whose header is complete. -/
structure Filling (p : Hybi) : Prop where
  header : p.header.state = .ready
  control : p.isControl = true → ∃ m, p.controlMessage = some m ∧ m.opcode = p.header.getOpcode ∧
    m.payload.length + p.payloadLeft ≤ HybiHeader.payloadSizeBasic
  data : p.isControl = false → p.dataMessage.isSome = true

/-- What an exception in the middle of a data frame leaves: the header has been reset, and the
    rest of the payload goes to the message that was refused. -/
structure Loose (p : Hybi) : Prop where
  header : p.header.state ≠ .ready
  control : p.isControl = false
  fin : p.header.getFin = false
  data : p.dataMessage.isSome = true

/-- The frame that is ready is that of a message. -/
structure Complete (p : Hybi) : Prop where
  header : p.header.state = .ready
  control : p.isControl = true → ∃ m, p.controlMessage = some m ∧ m.opcode = p.header.getOpcode ∧
    m.complete = .ok ()
  data : p.isControl = false → p.dataMessage.isSome = true

/-- What the processor can count on from one round to the next. -/
structure Guarded (p : Hybi) : Prop where
  vetted : p.header.Vetted
  reading : p.state = .readHeader → p.header.state ≠ .ready
  filling : p.state = .readPayload → p.Filling ∨ p.Loose
  complete : p.state = .ready → p.Complete

/-- A processor that can be given bytes. -/
structure Live (p : Hybi) : Prop where
  guarded : p.Guarded
  awaiting : p.Awaiting

/-- A data message is begun only on a connection that has one to give. -/
def Begins (pool : Option Failure) (p q : Hybi) : Prop :=
  q.dataMessage.isSome = p.dataMessage.isSome ∨
    (p.dataMessage = none ∧ q.dataMessage.isSome = true ∧ pool = none)

theorem Begins.refl (pool : Option Failure) (p : Hybi) : Begins pool p p := Or.inl rfl

theorem Begins.trans {pool : Option Failure} {p q r : Hybi} (hpq : Begins pool p q)
    (hqr : Begins pool q r) : Begins pool p r := by
  rcases hpq with hsame | ⟨hnone, hsome, hpool⟩
  · rcases hqr with hsame' | ⟨hnone', hsome', hpool'⟩
    · exact Or.inl (hsame'.trans hsame)
    · refine Or.inr ⟨?_, hsome', hpool'⟩
      rw [hnone'] at hsame
      exact Option.isNone_iff_eq_none.mp (by rw [← Option.not_isSome, ← hsame]; rfl)
  · rcases hqr with hsame' | ⟨hnone', -, -⟩
    · exact Or.inr ⟨hnone, hsame'.trans hsome, hpool⟩
    · rw [hnone'] at hsome
      cases hsome

/-- What an error leaves of the processor. -/
structure Recovers (pool : Option Failure) (p q : Hybi) (e : Raised) : Prop where
  message : e ≠ .nullMessage
  fatal : ∀ what, e ≠ .exception .softError what
  failure : ∀ f, e = .failure f → pool = some f ∧ p.dataMessage = none
  state : q.state ≠ .ready
  begins : Begins pool p q
  live : (∃ error what, e = .exception error what) → 0 < q.getBytesNeeded → q.Guarded

/-- What a function of the processor that goes on from `p` may end with. -/
def Keeps (pool : Option Failure) (p : Hybi) (out : Hybi × Except Raised Unit) : Prop :=
  match out.2 with
  | .ok _ => out.1.Guarded ∧ Begins pool p out.1
  | .error e => Recovers pool p (out.1.caught e) e

theorem Keeps.of_data {pool : Option Failure} {p q : Hybi} {out : Hybi × Except Raised Unit}
    (hdata : p.dataMessage = q.dataMessage) (h : Keeps pool p out) : Keeps pool q out := by
  have hbegins : ∀ {r}, Begins pool p r → Begins pool q r := by
    intro r hr
    unfold Begins at hr ⊢
    rw [← hdata]
    exact hr
  rcases out with ⟨r, e | u⟩
  · exact ⟨h.message, h.fatal, fun f hf => hdata ▸ h.failure f hf, h.state, hbegins h.begins,
      h.live⟩
  · exact ⟨h.1, hbegins h.2⟩

theorem guarded_of_readHeader {p : Hybi} (hstate : p.state = .readHeader)
    (hheader : p.header.state ≠ .ready) (hvetted : p.header.Vetted) : p.Guarded where
  vetted := hvetted
  reading _ := hheader
  filling hpayload := by
    rw [hstate] at hpayload
    cases hpayload
  complete hready := by
    rw [hstate] at hready
    cases hready

theorem guarded_reset (p : Hybi) : p.reset.Guarded :=
  guarded_of_readHeader rfl p.header.reset_ne_ready p.header.vetted_reset

theorem guarded_initial : initial.Guarded :=
  guarded_of_readHeader rfl (by decide) (HybiHeader.vetted_of_basicHeader rfl)

theorem live_initial : initial.Live :=
  ⟨guarded_initial, ⟨sound_initial, by decide, by decide⟩⟩

theorem live_taken (p : Hybi) : p.taken.Live := by
  refine ⟨?_, p.taken_fresh.awaiting⟩
  unfold taken
  split
  · exact guarded_reset _
  · exact guarded_reset _

/-- An exception behind a complete header, in the state of a header to come. -/
theorem recovers_header {pool : Option Failure} {p q : Hybi} (hstate : q.state = .readHeader)
    (hheader : q.header.state = .ready) (hbegins : Begins pool p q) {error : ProcessorError}
    (herror : error ≠ .softError) (what : Text) :
    Recovers pool p (q.caught (.exception error what)) (.exception error what) := by
  have hcaught : q.caught (.exception error what) = { q with header := q.header.reset } := by
    rw [caught, if_pos hheader]
  rw [hcaught]
  constructor
  · intro h
    cases h
  · intro what' h
    cases h
    exact herror rfl
  · intro f h
    cases h
  · rw [hstate]
    decide
  · exact hbegins
  · intro _ _
    exact guarded_of_readHeader hstate q.header.reset_ne_ready q.header.vetted_reset

/-- An exception behind the last byte of a payload. -/
theorem recovers_spent {pool : Option Failure} {p q : Hybi} (hstate : q.state = .readPayload)
    (hleft : q.payloadLeft = 0) (hbegins : Begins pool p q) {error : ProcessorError}
    (herror : error ≠ .softError) (what : Text) :
    Recovers pool p (q.caught (.exception error what)) (.exception error what) := by
  have hcaught : (q.caught (.exception error what)).state = .readPayload ∧
      (q.caught (.exception error what)).payloadLeft = 0 ∧
      (q.caught (.exception error what)).dataMessage = q.dataMessage := by
    unfold caught
    simp only
    split
    · exact ⟨hstate, hleft, rfl⟩
    · exact ⟨hstate, hleft, rfl⟩
  rcases hcaught with ⟨hstate', hleft', hdata⟩
  constructor
  · intro h
    cases h
  · intro what' h
    cases h
    exact herror rfl
  · intro f h
    cases h
  · rw [hstate']
    decide
  · unfold Begins
    rw [hdata]
    exact hbegins
  · intro _ hneeded
    rw [getBytesNeeded, hstate', hleft'] at hneeded
    exact absurd hneeded (Nat.lt_irrefl 0)

/-! ### One round -/

theorem completeClose_ne_softError {payload what : Text} {error : ProcessorError}
    (h : completeClose payload = .error (error, what)) : error ≠ .softError := by
  unfold completeClose at h
  split at h
  · cases h
  · cases h
    decide
  · simp only at h
    split at h
    · cases h
      decide
    split at h
    · cases h
      decide
    split at h
    · cases h
    · cases h
      decide

/-- A message that is there is complete, or refuses to be. -/
theorem completeMessage_cases {p : Hybi}
    (hcontrol : p.isControl = true → ∃ m, p.controlMessage = some m)
    (hdata : p.isControl = false → p.dataMessage.isSome = true) :
    p.completeMessage = .ok () ∨ ∃ error what, error ≠ .softError ∧
      p.completeMessage = .error (.exception error what) := by
  unfold completeMessage
  cases hkind : p.isControl with
  | true =>
    rcases hcontrol hkind with ⟨m, hm⟩
    rw [show p.header.isControl = true from hkind, if_pos rfl, hm]
    simp only [ControlMessage.complete]
    split
    · rcases hclose : completeClose (textOf m.payload) with ⟨error, what⟩ | pair
      · exact Or.inr ⟨error, what, completeClose_ne_softError hclose, rfl⟩
      · exact Or.inl rfl
    · exact Or.inl rfl
  | false =>
    rcases Option.isSome_iff_exists.mp (hdata hkind) with ⟨m, hm⟩
    rw [show p.header.isControl = false from hkind, if_neg Bool.false_ne_true, hm]
    simp only [DataMessage.complete]
    split
    · exact Or.inr ⟨.payloadViolation, _, by decide, rfl⟩
    · exact Or.inl rfl

theorem keeps_processFrame {pool : Option Failure} {p q : Hybi} (hvetted : q.header.Vetted)
    (hheader : q.header.state = .ready)
    (hcontrol : q.isControl = true → ∃ m, q.controlMessage = some m ∧ m.opcode = q.header.getOpcode)
    (hdata : q.isControl = false → q.dataMessage.isSome = true) (hbegins : Begins pool p q)
    (hwhere : q.state = .readHeader ∨ (q.state = .readPayload ∧ q.payloadLeft = 0)) :
    Keeps pool p q.processFrame := by
  have hpresent : q.isControl = true → ∃ m, q.controlMessage = some m := by
    intro hkind
    rcases hcontrol hkind with ⟨m, hm, -⟩
    exact ⟨m, hm⟩
  unfold processFrame
  split
  · rcases completeMessage_cases hpresent hdata with hok | ⟨error, what, herror, hraised⟩
    · rw [hok]
      refine ⟨⟨hvetted, fun h => ?_, fun h => ?_, fun _ => ⟨hheader, ?_, hdata⟩⟩, hbegins⟩
      · cases h
      · cases h
      · intro hkind
        rcases hcontrol hkind with ⟨m, hm, hop⟩
        refine ⟨m, hm, hop, ?_⟩
        rw [completeMessage, show q.header.isControl = true from hkind, if_pos rfl, hm] at hok
        exact hok
    · rw [hraised]
      rcases hwhere with hstate | ⟨hstate, hleft⟩
      · exact recovers_header hstate hheader hbegins herror what
      · exact recovers_spent hstate hleft hbegins herror what
  · exact ⟨q.guarded_reset, hbegins⟩

theorem keeps_processControlHeader {pool : Option Failure} {p : Hybi}
    (hstate : p.state = .readHeader)
    (hheader : p.header.state = .ready) (hvetted : p.header.Vetted) (hkind : p.isControl = true) :
    Keeps pool p p.processControlHeader := by
  rcases HybiHeader.control_of_vetted hvetted hheader hkind with ⟨-, hsize⟩
  have hnotData : p.isControl ≠ false := by
    rw [hkind]
    decide
  unfold processControlHeader
  simp only
  split
  · apply keeps_processFrame (q := { p with
      controlMessage := some (.reset p.header.getOpcode p.header.getMaskingKey),
      payloadLeft := p.header.payloadSize }) hvetted hheader
    · intro _
      exact ⟨_, rfl, rfl⟩
    · intro hdata
      exact absurd hdata hnotData
    · exact Begins.refl pool p
    · exact Or.inl hstate
  · refine ⟨⟨hvetted, fun h => ?_, fun _ => Or.inl ⟨hheader, fun _ => ?_, ?_⟩, fun h => ?_⟩,
      Begins.refl pool p⟩
    · cases h
    · refine ⟨_, rfl, rfl, ?_⟩
      rw [ControlMessage.reset, List.length_nil, Nat.zero_add]
      exact hsize
    · intro hdata
      exact absurd hdata hnotData
    · cases h

theorem keeps_beginPayload {pool : Option Failure} {p : Hybi} (hstate : p.state = .readHeader)
    (hheader : p.header.state = .ready) (hvetted : p.header.Vetted) (hkind : p.isControl = false)
    (m : DataMessage) (hpool : p.dataMessage = none → pool = none) :
    Keeps pool p (p.beginPayload m) := by
  have hnotControl : p.isControl ≠ true := by
    rw [hkind]
    decide
  have hbegins : ∀ q : Hybi, q.dataMessage.isSome = true → Begins pool p q := by
    intro q hq
    cases hdata : p.dataMessage with
    | none => exact Or.inr ⟨hdata, hq, hpool hdata⟩
    | some m' =>
      left
      rw [hq, hdata]
      rfl
  unfold beginPayload
  simp only
  split
  · apply keeps_processFrame (q := { p with
      dataMessage := some m, payloadLeft := p.header.payloadSize }) hvetted hheader
    · intro hcontrol
      exact absurd hcontrol hnotControl
    · intro _
      rfl
    · exact hbegins _ rfl
    · exact Or.inl hstate
  · refine ⟨⟨hvetted, fun h => ?_, fun _ => Or.inl ⟨hheader, ?_, fun _ => rfl⟩, fun h => ?_⟩,
      hbegins _ rfl⟩
    · cases h
    · intro hcontrol
      exact absurd hcontrol hnotControl
    · cases h

theorem keeps_processDataHeader {pool : Option Failure} {p : Hybi} (hstate : p.state = .readHeader)
    (hheader : p.header.state = .ready) (hvetted : p.header.Vetted) (hkind : p.isControl = false) :
    Keeps pool p (p.processDataHeader pool) := by
  have hviolation : ∀ what, Keeps pool p (p, HybiHeader.violation what) := fun what =>
    recovers_header hstate hheader (Begins.refl pool p) (by decide) what
  unfold processDataHeader
  cases hdata : p.dataMessage with
  | none =>
    simp only
    split
    · exact hviolation _
    cases hpool : pool with
    | some f =>
      constructor
      · intro h
        cases h
      · intro what h
        cases h
      · intro f' h
        cases h
        exact ⟨rfl, hdata⟩
      · rw [caught, hstate]
        decide
      · exact Begins.refl _ p
      · rintro ⟨error, what, h⟩
        cases h
    | none =>
      apply keeps_beginPayload hstate hheader hvetted hkind
      intro _
      rfl
  | some m =>
    simp only
    split
    · exact hviolation _
    · apply keeps_beginPayload hstate hheader hvetted hkind
      intro hnone
      rw [hdata] at hnone
      cases hnone

/-- The sizes `process_extended_header` refuses. -/
theorem processExtendedHeader_error {h r : HybiHeader} {e : Raised}
    (hprocess : h.processExtendedHeader = (r, .error e)) :
    ∃ error what, error ≠ .softError ∧ e = .exception error what := by
  unfold HybiHeader.processExtendedHeader at hprocess
  split at hprocess
  · cases hprocess
  split at hprocess
  · have herror := (Prod.mk.inj hprocess).2
    split at herror
    · cases herror
      exact ⟨.protocolViolation, _, by decide, rfl⟩
    · cases herror
  split at hprocess
  · have herror := (Prod.mk.inj hprocess).2
    split at herror
    · cases herror
      exact ⟨.protocolViolation, _, by decide, rfl⟩
    · cases herror
  · cases hprocess
    exact ⟨.fatalError, _, by decide, rfl⟩

/-- A header whose size is refused is not ready. -/
theorem finish_raised {h r : HybiHeader} {e : Raised} (hstate : h.state ≠ .ready)
    (hfinish : h.finish = (r, .error e)) :
    r.state ≠ .ready ∧ ∃ error what, error ≠ .softError ∧ e = .exception error what := by
  rcases HybiHeader.processExtendedHeader_kept h with ⟨size, hsize⟩
  unfold HybiHeader.finish at hfinish
  rcases hprocess : h.processExtendedHeader with ⟨r₁, e₁ | u⟩
  · rw [hprocess] at hfinish hsize
    cases hfinish
    simp only at hsize
    refine ⟨?_, processExtendedHeader_error hprocess⟩
    rw [hsize]
    exact hstate
  · rw [hprocess] at hfinish
    cases hfinish

/-- So is one that is refused when the bytes it asked for are there. -/
theorem advance_raised {h r : HybiHeader} {e : Raised} (hstate : h.state ≠ .ready)
    (hadvance : h.advance = (r, .error e)) :
    r.state ≠ .ready ∧ ∃ error what, error ≠ .softError ∧ e = .exception error what := by
  unfold HybiHeader.advance at hadvance
  cases hh : h.state with
  | basicHeader =>
    simp only [hh, HybiHeader.beginExtended] at hadvance
    rcases hvalid : h.processBasicHeader.validateBasicHeader with e₁ | u
    · rw [hvalid] at hadvance
      cases hadvance
      rcases HybiHeader.validateBasicHeader_error hvalid with ⟨what, rfl⟩
      exact ⟨hstate, .protocolViolation, what, by decide, rfl⟩
    · rw [hvalid] at hadvance
      simp only at hadvance
      split at hadvance
      · cases hadvance
      · exact finish_raised (h := h.processBasicHeader) hstate hadvance
  | extendedHeader =>
    simp only [hh] at hadvance
    exact finish_raised hstate hadvance
  | ready => exact absurd hh hstate

/-- The header raises an exception of its own, or leaves its array. -/
theorem header_raised {h : HybiHeader} {input rest : List UInt8} {r : HybiHeader} {e : Raised}
    (hconsume : h.consume input = (r, rest, .error e)) :
    h.state ≠ .ready ∧ r.state ≠ .ready ∧
      (e = .outOfBounds ∨ ∃ error what, error ≠ .softError ∧ e = .exception error what) := by
  by_cases hstate : h.state = .ready
  · simp only [HybiHeader.consume, hstate] at hconsume
    cases hconsume
  refine ⟨hstate, ?_⟩
  rw [HybiHeader.consume_eq hstate] at hconsume
  rcases hr : h.readUpTo h.stop input with _ | r₁
  · rw [hr] at hconsume
    cases hconsume
    exact ⟨hstate, Or.inl rfl⟩
  rcases HybiHeader.readUpTo_kept hr with ⟨hsame, -, -, -⟩
  have hstate₁ : r₁.state ≠ .ready := hsame ▸ hstate
  rw [hr] at hconsume
  simp only at hconsume
  split at hconsume
  · have hadvance : r₁.advance = (r, .error e) := by
      rw [← (Prod.mk.inj hconsume).1, ← (Prod.mk.inj (Prod.mk.inj hconsume).2).2]
    rcases advance_raised hstate₁ hadvance with ⟨hr', herror⟩
    exact ⟨hr', Or.inr herror⟩
  · cases hconsume

theorem keeps_processHeader {pool : Option Failure} {p : Hybi} (hp : p.Sound) (hguarded : p.Guarded)
    (hstate : p.state = .readHeader) (input : List UInt8) :
    Keeps pool p ((p.processHeader pool input).1, (p.processHeader pool input).2.2) := by
  have hvetted := HybiHeader.vetted_consume hp hguarded.vetted input
  unfold processHeader
  rcases hconsume : p.header.consume input with ⟨header, rest, e | u⟩
  · rw [hconsume] at hvetted
    rcases header_raised hconsume with ⟨-, hheader, hwhat⟩
    have hcaught : ({ p with header := header } : Hybi).caught e = { p with header := header } := by
      unfold caught
      split
      · exact if_neg hheader
      · rfl
      · rfl
      · rfl
    change Recovers pool p (({ p with header := header } : Hybi).caught e) e
    rw [hcaught]
    constructor
    · rintro rfl
      rcases hwhat with h | ⟨_, _, _, h⟩
      · cases h
      · cases h
    · rintro what rfl
      rcases hwhat with h | ⟨error, _, herror, h⟩
      · cases h
      · cases h
        exact herror rfl
    · rintro f rfl
      rcases hwhat with h | ⟨_, _, _, h⟩
      · cases h
      · cases h
    · change p.state ≠ .ready
      rw [hstate]
      decide
    · exact Begins.refl pool p
    · intro _ _
      exact guarded_of_readHeader hstate hheader hvetted
  · rw [hconsume] at hvetted
    simp only
    split
    · rename_i hheader
      exact ⟨guarded_of_readHeader hstate hheader hvetted, Begins.refl pool p⟩
    rename_i hheader
    have hready : header.state = .ready := Classical.not_not.mp hheader
    split
    · rename_i hkind
      have hkeeps := @keeps_processControlHeader pool { p with header := header }
        hstate hready hvetted hkind
      exact Keeps.of_data (p := { p with header := header }) rfl hkeeps
    · rename_i hkind
      have hkeeps := @keeps_processDataHeader pool { p with header := header }
        hstate hready hvetted (Bool.eq_false_iff.mpr hkind)
      exact Keeps.of_data (p := { p with header := header }) rfl hkeeps

theorem fill_control {m m' : ControlMessage} {input rest : List UInt8} {size taken : Nat}
    (h : m.processPayload input size = (m', rest, .ok taken)) :
    m'.opcode = m.opcode ∧ m'.payload.length = m.payload.length + taken := by
  unfold ControlMessage.processPayload fillPayload at h
  split at h
  · cases h
  constructor
  · apply Feed.eat_keeps (P := fun m' : ControlMessage => m'.opcode = m.opcode) _ rfl h
    intro m₁ m₂ c out hop hstep
    unfold ControlMessage.processCharacter at hstep
    split at hstep
    · cases hstep
      exact hop
    · cases hstep
      exact hop
  · exact @Feed.eat_counts _ _ _ _ (fun m : ControlMessage => m.payload.length)
      ControlMessage.length_processCharacter _ _ _ _ _ _ h

/-- A control message takes what the payload of its frame still holds. -/
theorem fill_control_ok {m : ControlMessage} {size : Nat}
    (hsize : m.payload.length + size ≤ HybiHeader.payloadSizeBasic) (input : List UInt8) :
    ∃ m' rest taken, m.processPayload input size = (m', rest, .ok taken) := by
  have hlimit : ¬ ControlMessage.payloadSizeMax < (m.payload.length + size) % 2 ^ 64 := by
    unfold HybiHeader.payloadSizeBasic at hsize
    unfold ControlMessage.payloadSizeMax
    omega
  rcases hfill : m.processPayload input size with ⟨m', rest, e | taken⟩
  · have heat := hfill
    unfold ControlMessage.processPayload fillPayload at heat
    rw [if_neg hlimit] at heat
    have hnever := Feed.eat_error (P := fun _ => False) (by
      intro m₁ c m₂ e₁ hstep
      unfold ControlMessage.processCharacter at hstep
      split at hstep
      · cases hstep
      · cases hstep) heat
    exact hnever.elim
  · exact ⟨m', rest, taken, rfl⟩

theorem fill_data_error {m m' : DataMessage} {input rest : List UInt8} {size : Nat} {e : Raised}
    (h : m.processPayload input size = (m', rest, .error e)) :
    ∃ error what, error ≠ .softError ∧ e = .exception error what := by
  unfold DataMessage.processPayload fillPayload at h
  split at h
  · cases h
    exact ⟨.messageTooBig, _, by decide, rfl⟩
  · apply Feed.eat_error _ h
    intro m₁ c m₂ e₁ hstep
    unfold DataMessage.processCharacter at hstep
    simp only at hstep
    split at hstep
    · split at hstep
      · cases hstep
      · cases hstep
        exact ⟨.payloadViolation, _, by decide, rfl⟩
    · cases hstep

/-- An exception within the payload of a data frame. -/
theorem recovers_loose {pool : Option Failure} {p q : Hybi} (hstate : q.state = .readPayload)
    (hvetted : q.header.Vetted) (hkind : q.isControl = false)
    (hloose : q.header.state ≠ .ready → q.header.getFin = false)
    (hdata : q.dataMessage.isSome = true) (hbegins : Begins pool p q) {error : ProcessorError}
    (herror : error ≠ .softError) (what : Text) :
    Recovers pool p (q.caught (.exception error what)) (.exception error what) := by
  rcases q.header.fields_reset with ⟨hcontrol, hfin⟩
  have hcaught : (q.caught (.exception error what)).Loose ∧
      (q.caught (.exception error what)).state = .readPayload ∧
      (q.caught (.exception error what)).header.Vetted ∧
      (q.caught (.exception error what)).dataMessage = q.dataMessage := by
    unfold caught
    simp only
    split
    · exact ⟨⟨q.header.reset_ne_ready, hcontrol, hfin, hdata⟩, hstate, q.header.vetted_reset, rfl⟩
    · rename_i hheader
      exact ⟨⟨hheader, hkind, hloose hheader, hdata⟩, hstate, hvetted, rfl⟩
  rcases hcaught with ⟨hfound, hstate', hvetted', hsame⟩
  constructor
  · intro h
    cases h
  · intro what' h
    cases h
    exact herror rfl
  · intro f h
    cases h
  · rw [hstate']
    decide
  · unfold Begins
    rw [hsame]
    exact hbegins
  · intro _ _
    refine ⟨hvetted', fun h => ?_, fun _ => Or.inr hfound, fun h => ?_⟩
    · rw [hstate'] at h
      cases h
    · rw [hstate'] at h
      cases h

theorem keeps_finishPayload {pool : Option Failure} {p q : Hybi} {written : Nat}
    (hvetted : q.header.Vetted) (hstate : q.state = .readPayload)
    (hfilling : Filling { q with payloadLeft := q.payloadLeft - written } ∨ q.Loose)
    (hbegins : Begins pool p q) : Keeps pool p (q.finishPayload written) := by
  unfold finishPayload
  simp only
  split
  · rename_i hleft
    rcases hfilling with hfilling | hloose
    · apply keeps_processFrame (q := { q with payloadLeft := q.payloadLeft - written }) hvetted
        hfilling.header
      · intro hkind
        rcases hfilling.control hkind with ⟨m, hm, hop, -⟩
        exact ⟨m, hm, hop⟩
      · exact hfilling.data
      · exact hbegins
      · exact Or.inr ⟨hstate, hleft⟩
    · have hfin :
          ({ q with payloadLeft := q.payloadLeft - written } : Hybi).header.getFin = false :=
        hloose.fin
      rw [processFrame, hfin, if_neg Bool.false_ne_true]
      exact ⟨guarded_reset _, hbegins⟩
  · refine ⟨⟨hvetted, fun h => ?_, fun _ => ?_, fun h => ?_⟩, hbegins⟩
    · rw [show q.state = .readHeader from h] at hstate
      cases hstate
    · rcases hfilling with hfilling | hloose
      · exact Or.inl hfilling
      · exact Or.inr ⟨hloose.header, hloose.control, hloose.fin, hloose.data⟩
    · rw [show q.state = .ready from h] at hstate
      cases hstate

/-- The payload of a control frame, which has room. -/
theorem keeps_fillControl {pool : Option Failure} {p : Hybi} (hguarded : p.Guarded)
    (hstate : p.state = .readPayload) (hkind : p.isControl = true) (input : List UInt8) :
    Keeps pool p ((p.processPayload input).1, (p.processPayload input).2.2) := by
  have hfilling : p.Filling := by
    rcases hguarded.filling hstate with hfilling | hloose
    · exact hfilling
    · have hcontrol := hloose.control
      rw [hkind] at hcontrol
      cases hcontrol
  rcases hfilling.control hkind with ⟨m, hm, hop, hsize⟩
  rcases fill_control_ok hsize input with ⟨m', rest, taken, hprocess⟩
  rcases fill_control hprocess with ⟨hop', hlength⟩
  have hfill : p.fillMessage input = ({ p with controlMessage := some m' }, rest, .ok taken) := by
    rw [fillMessage, show p.header.isControl = true from hkind, if_pos rfl, hm]
    simp only [hprocess]
  rcases fillMessage_ok hfill with ⟨-, htaken, -⟩
  have hmin : taken ≤ p.payloadLeft := by
    rw [htaken]
    exact Nat.min_le_left _ _
  unfold processPayload
  rw [hfill]
  apply keeps_finishPayload (q := { p with controlMessage := some m' }) hguarded.vetted hstate
  · refine Or.inl ⟨hfilling.header, fun _ => ⟨m', rfl, hop'.trans hop, ?_⟩, hfilling.data⟩
    simp only
    omega
  · exact Begins.refl pool p

/-- The payload of a data frame, which may be refused. -/
theorem keeps_fillData {pool : Option Failure} {p : Hybi} (hguarded : p.Guarded)
    (hstate : p.state = .readPayload) (hkind : p.isControl = false) (input : List UInt8) :
    Keeps pool p ((p.processPayload input).1, (p.processPayload input).2.2) := by
  have hpresent : p.dataMessage.isSome = true := by
    rcases hguarded.filling hstate with hfilling | hloose
    · exact hfilling.data hkind
    · exact hloose.data
  have hnotControl : p.isControl ≠ true := by
    rw [hkind]
    decide
  rcases Option.isSome_iff_exists.mp hpresent with ⟨m, hm⟩
  have hbegins : ∀ m', Begins pool p { p with dataMessage := some m' } := by
    intro m'
    left
    rw [hpresent]
    rfl
  have hfill : p.fillMessage input =
      ({ p with dataMessage := some (m.processPayload input p.payloadLeft).1 },
        (m.processPayload input p.payloadLeft).2) := by
    rw [fillMessage, show p.header.isControl = false from hkind, if_neg Bool.false_ne_true, hm]
  unfold processPayload
  rw [hfill]
  rcases hprocess : m.processPayload input p.payloadLeft with ⟨m', rest, e | taken⟩
  · rcases fill_data_error hprocess with ⟨error, what, herror, rfl⟩
    apply recovers_loose (q := { p with dataMessage := some m' }) hstate hguarded.vetted hkind _
      rfl (hbegins m') herror
    intro hheader
    rcases hguarded.filling hstate with hfilling | hloose
    · exact absurd hfilling.header hheader
    · exact hloose.fin
  · apply keeps_finishPayload (q := { p with dataMessage := some m' }) hguarded.vetted hstate _
      (hbegins m')
    rcases hguarded.filling hstate with hfilling | hloose
    · exact Or.inl ⟨hfilling.header, fun hcontrol => absurd hcontrol hnotControl, fun _ => rfl⟩
    · exact Or.inr ⟨hloose.header, hkind, hloose.fin, rfl⟩

theorem keeps_processPayload {pool : Option Failure} {p : Hybi} (hguarded : p.Guarded)
    (hstate : p.state = .readPayload) (input : List UInt8) :
    Keeps pool p ((p.processPayload input).1, (p.processPayload input).2.2) := by
  cases hkind : p.isControl with
  | true => exact keeps_fillControl hguarded hstate hkind input
  | false => exact keeps_fillData hguarded hstate hkind input

/-- What one round keeps. -/
theorem keeps_round {pool : Option Failure} {p : Hybi} (hp : p.Sound) (hguarded : p.Guarded)
    (hready : p.state ≠ .ready) (input : List UInt8) :
    Keeps pool p ((p.round pool input).1, (p.round pool input).2.2) := by
  cases hstate : p.state with
  | readHeader =>
    rw [round_readHeader hstate]
    exact keeps_processHeader hp hguarded hstate input
  | readPayload =>
    rw [round_readPayload hstate]
    exact keeps_processPayload hguarded hstate input
  | ready => exact absurd hstate hready

/-! ### Whole calls -/

/-- **What a call keeps.**  A processor that can be given bytes can be given more, or has come
    to a message, or has raised what can be recovered from. -/
theorem keeps_consume {p p' : Hybi} {pool : Option Failure} {input rest : List UInt8}
    {o : Feed.Ending Raised} (hp : p.Live) (h : p.consume pool input = (p', rest, o)) :
    (o = .starved ∧ rest = [] ∧ p'.Live ∧ Begins pool p p') ∨
    (o = .stopped ∧ rest.length < input.length ∧ p'.Complete ∧ p'.header.Vetted ∧
      Begins pool p p') ∨
    ∃ e, o = .raised e ∧ Recovers pool p p' e := by
  have hrule := (reader_lawful pool).read_rule
    (P := fun q => q.Guarded ∧ Begins pool p q) (Q := fun q e => Recovers pool p q e)
    (by
      rintro q q' xs rest hq ⟨hguarded, hbegins⟩ hstopped hround
      have hkeeps := @keeps_round pool q hq hguarded (of_decide_eq_false hstopped) xs
      rw [show q.round pool xs = (q', rest, .ok ()) from hround] at hkeeps
      exact ⟨hkeeps.1, hbegins.trans hkeeps.2⟩)
    (by
      rintro q q' xs rest e hq ⟨hguarded, hbegins⟩ hstopped hround
      have hkeeps : Recovers pool q (q'.caught e) e := by
        have hkeeps := @keeps_round pool q hq hguarded (of_decide_eq_false hstopped) xs
        rw [show q.round pool xs = (q', rest, .error e) from hround] at hkeeps
        exact hkeeps
      refine ⟨hkeeps.message, hkeeps.fatal, fun f hf => ?_, hkeeps.state,
        hbegins.trans hkeeps.begins, hkeeps.live⟩
      rcases hkeeps.failure f hf with ⟨hpool, hnone⟩
      refine ⟨hpool, ?_⟩
      rcases hbegins with hsame | ⟨hnone', -, -⟩
      · rw [hnone] at hsame
        exact Option.isNone_iff_eq_none.mp (by rw [← Option.not_isSome, ← hsame]; rfl)
      · exact hnone')
    hp.awaiting.sound ⟨hp.guarded, Begins.refl pool p⟩ h
  rcases hrule with ⟨e, ho, hrecovers⟩ | ⟨ho, hguarded, hbegins⟩
  · exact Or.inr (Or.inr ⟨e, ho, hrecovers⟩)
  cases o with
  | starved =>
    rcases awaiting_of_starved hp.awaiting.sound h with ⟨hawaiting, hrest, -⟩
    exact Or.inl ⟨rfl, hrest, ⟨hguarded, hawaiting⟩, hbegins⟩
  | stopped =>
    have hready : p'.state = .ready := of_decide_eq_true ((reader pool).stopped_of_read h)
    exact Or.inr (Or.inl ⟨rfl, length_of_stopped hp.awaiting h, hguarded.complete hready,
      hguarded.vetted, hbegins⟩)
  | raised e => exact absurd rfl (ho e)

/-- An exception leaves a processor that asks for nothing, or one that can be given more. -/
theorem Recovers.live_of_needed {pool : Option Failure} {p q : Hybi} {error : ProcessorError}
    {what : Text} (h : Recovers pool p q (.exception error what)) (hsound : q.Sound)
    (hneeded : 0 < q.getBytesNeeded) : q.Live := by
  have hguarded := h.live ⟨error, what, rfl⟩ hneeded
  refine ⟨hguarded, hsound, h.state, ?_⟩
  cases hstate : q.state with
  | readHeader =>
    rw [wanted_readHeader hstate (hguarded.reading hstate)]
    rw [getBytesNeeded, hstate] at hneeded
    exact hneeded
  | readPayload =>
    rw [wanted_readPayload hstate]
    rw [getBytesNeeded, hstate] at hneeded
    exact hneeded
  | ready => exact absurd hstate h.state

/-- A processor that can be given bytes asks for some. -/
theorem Live.needed {p : Hybi} (hp : p.Live) : 0 < p.getBytesNeeded := by
  have hwanted := hp.awaiting.wanted
  unfold getBytesNeeded
  cases hstate : p.state with
  | readHeader =>
    rw [wanted_readHeader hstate (hp.guarded.reading hstate)] at hwanted
    exact hwanted
  | readPayload =>
    rw [wanted_readPayload hstate] at hwanted
    exact hwanted
  | ready => exact absurd hstate hp.awaiting.state

/-! ### Kinds of messages -/

/-- The message that is begun is a data message. -/
def Sorted (p : Hybi) : Prop := ∀ m, p.dataMessage = some m → m.opcode.isControl = false

theorem sorted_initial : initial.Sorted := by
  intro m hm
  cases hm

theorem sorted_processFrame {p : Hybi} (hp : p.Sorted) : p.processFrame.1.Sorted := by
  unfold processFrame
  split
  · split
    · exact hp
    · exact hp
  · exact hp

theorem sorted_finishPayload {p : Hybi} (hp : p.Sorted) (written : Nat) :
    (p.finishPayload written).1.Sorted := by
  unfold finishPayload
  simp only
  split
  · exact @sorted_processFrame { p with payloadLeft := p.payloadLeft - written } hp
  · exact hp

theorem sorted_processControlHeader {p : Hybi} (hp : p.Sorted) :
    p.processControlHeader.1.Sorted := by
  unfold processControlHeader
  simp only
  split
  · exact @sorted_processFrame { p with
      controlMessage := some (.reset p.header.getOpcode p.header.getMaskingKey),
      payloadLeft := p.header.payloadSize } hp
  · exact hp

theorem sorted_beginPayload (p : Hybi) {m : DataMessage} (hm : m.opcode.isControl = false) :
    (p.beginPayload m).1.Sorted := by
  have hsorted : ∀ {q : Hybi} {m' : DataMessage}, m'.opcode = m.opcode →
      q.dataMessage = some m' → q.Sorted := by
    intro q m' hop hdata m'' hm''
    rw [hdata] at hm''
    cases hm''
    rw [hop]
    exact hm
  unfold beginPayload
  simp only
  split
  · exact sorted_processFrame (hsorted rfl rfl)
  · exact @hsorted _ (m.setMaskingKey p.header.getMaskingKey) rfl rfl

theorem sorted_processDataHeader {p : Hybi} (hp : p.Sorted) (hkind : p.isControl = false)
    (pool : Option Failure) : (p.processDataHeader pool).1.Sorted := by
  unfold processDataHeader
  split
  · split
    · exact hp
    split
    · exact hp
    · exact sorted_beginPayload p hkind
  · rename_i m hdata
    split
    · exact hp
    · exact sorted_beginPayload p (hp m hdata)

theorem sorted_processHeader {p : Hybi} (hp : p.Sorted) (pool : Option Failure)
    (input : List UInt8) : (p.processHeader pool input).1.Sorted := by
  unfold processHeader
  rcases p.header.consume input with ⟨header, rest, e | u⟩
  · exact hp
  have hp' : Sorted { p with header := header } := hp
  simp only
  split
  · exact hp'
  split
  · exact sorted_processControlHeader hp'
  · rename_i hkind
    exact sorted_processDataHeader hp' (Bool.eq_false_iff.mpr hkind) pool

theorem opcode_processPayload {m m' : DataMessage} {input rest : List UInt8} {size : Nat}
    {out : Except Raised Nat} (h : m.processPayload input size = (m', rest, out)) :
    m'.opcode = m.opcode := by
  unfold DataMessage.processPayload fillPayload at h
  split at h
  · cases h
    rfl
  apply Feed.eat_keeps (P := fun m' : DataMessage => m'.opcode = m.opcode) _ rfl h
  intro m₁ m₂ c out hop hstep
  unfold DataMessage.processCharacter at hstep
  simp only at hstep
  split at hstep
  · split at hstep
    · cases hstep
      exact hop
    · cases hstep
      exact hop
  · cases hstep
    exact hop

theorem sorted_fillMessage {p : Hybi} (hp : p.Sorted) (input : List UInt8) :
    (p.fillMessage input).1.Sorted := by
  unfold fillMessage
  split
  · split
    · exact hp
    · exact hp
  · split
    · exact hp
    · rename_i m hdata
      rcases hfill : m.processPayload input p.payloadLeft with ⟨m', rest, out⟩
      intro m'' hm''
      cases hm''
      rw [opcode_processPayload hfill]
      exact hp m hdata

theorem sorted_round {p : Hybi} (hp : p.Sorted) (pool : Option Failure) (input : List UInt8) :
    (p.round pool input).1.Sorted := by
  unfold round
  cases p.state with
  | readHeader => exact sorted_processHeader hp pool input
  | readPayload =>
    have hfilled := sorted_fillMessage hp input
    unfold processPayload
    rcases hfill : p.fillMessage input with ⟨p', rest, e | written⟩
    · rw [hfill] at hfilled
      exact hfilled
    · rw [hfill] at hfilled
      exact sorted_finishPayload hfilled written
  | ready => exact hp

theorem sorted_caught {p : Hybi} (hp : p.Sorted) (e : Raised) : (p.caught e).Sorted := by
  unfold caught
  cases e with
  | exception error what =>
    simp only
    split
    · exact hp
    · exact hp
  | failure f => exact hp
  | outOfBounds => exact hp
  | nullMessage => exact hp

theorem sorted_consume {p p' : Hybi} {pool : Option Failure} {input rest : List UInt8}
    {o : Feed.Ending Raised} (hsound : p.Sound) (hp : p.Sorted)
    (h : p.consume pool input = (p', rest, o)) : p'.Sorted := by
  have hrule := (reader_lawful pool).read_rule (P := Sorted) (Q := fun q _ => q.Sorted)
    (by
      rintro q q' xs rest - hq - hround
      have hq' := sorted_round hq pool xs
      rw [show q.round pool xs = (q', rest, .ok ()) from hround] at hq'
      exact hq')
    (by
      rintro q q' xs rest e - hq - hround
      have hq' := sorted_round hq pool xs
      rw [show q.round pool xs = (q', rest, .error e) from hround] at hq'
      exact sorted_caught hq' e)
    hsound hp h
  rcases hrule with ⟨e, -, hsorted⟩ | ⟨-, hsorted⟩
  · exact hsorted
  · exact hsorted

theorem sorted_taken {p : Hybi} (hp : p.Sorted) : p.taken.Sorted := by
  unfold taken
  split
  · exact hp
  · intro m hm
    cases hm

end Hybi

end SocketIOStress
