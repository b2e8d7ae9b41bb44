import SocketIOStress.Hybi.Reading

/-!
# The array of the header

`hybi_header::consume` reads to the place that lies so many bytes before the end of
what it reads as it still needs.  A header that is refused at its first two bytes
leaves the number of bytes that would have followed, and the state of a header
that starts; when more than two would have followed, the next bytes are written in
front of the array.  Nothing else leads there.
-/

namespace SocketIOStress

open Octets

namespace Raised

/-- The call was stopped by the code itself. -/
def Within (e : Raised) : Prop := e ≠ .outOfBounds

theorem within_exception (error : ProcessorError) (what : Text) :
    (exception error what).Within := by
  intro h
  cases h

theorem within_failure (f : Failure) : (failure f).Within := by
  intro h
  cases h

theorem within_nullMessage : nullMessage.Within := by
  intro h
  cases h

end Raised

namespace HybiHeader

theorem within_violation {what : Text} {e : Raised} (h : violation what = .error e) : e.Within := by
  cases h
  exact Raised.within_exception _ _

theorem validateBasicHeader_error {h : HybiHeader} {e : Raised}
    (herror : h.validateBasicHeader = .error e) :
    ∃ what, e = .exception .protocolViolation what := by
  have hviolation : ∀ what, violation what = .error e →
      ∃ what, e = .exception .protocolViolation what := by
    intro what hwhat
    cases hwhat
    exact ⟨what, rfl⟩
  unfold validateBasicHeader at herror
  split at herror
  · exact hviolation _ herror
  split at herror
  · exact hviolation _ herror
  split at herror
  · exact hviolation _ herror
  split at herror
  · exact hviolation _ herror
  split at herror
  · exact hviolation _ herror
  · cases herror

theorem within_validateBasicHeader {h : HybiHeader} {e : Raised}
    (herror : h.validateBasicHeader = .error e) : e.Within := by
  rcases validateBasicHeader_error herror with ⟨what, rfl⟩
  exact Raised.within_exception _ _

theorem within_finish {h : HybiHeader} {e : Raised} (herror : h.finish.2 = .error e) :
    e.Within := by
  have hsize : ∀ {r e}, h.processExtendedHeader = (r, .error e) → e.Within := by
    intro r e hr
    unfold processExtendedHeader at hr
    split at hr
    · cases hr
    split at hr
    · have hviolation := (Prod.mk.inj hr).2
      split at hviolation
      · exact within_violation hviolation
      · cases hviolation
    split at hr
    · have hviolation := (Prod.mk.inj hr).2
      split at hviolation
      · exact within_violation hviolation
      · cases hviolation
    · cases hr
      exact Raised.within_exception _ _
  unfold finish at herror
  rcases hprocess : h.processExtendedHeader with ⟨r, e' | u⟩
  · rw [hprocess] at herror
    cases herror
    exact hsize hprocess
  · rw [hprocess] at herror
    cases herror

theorem within_advance {h : HybiHeader} {e : Raised} (herror : h.advance.2 = .error e) :
    e.Within := by
  unfold advance at herror
  split at herror
  · unfold beginExtended at herror
    rcases hvalid : h.processBasicHeader.validateBasicHeader with e' | u
    · rw [hvalid] at herror
      cases herror
      exact within_validateBasicHeader hvalid
    · rw [hvalid] at herror
      simp only at herror
      split at herror
      · cases herror
      · exact within_finish herror
  · exact within_finish herror
  · cases herror

/-- Bytes that are accepted leave the basic header behind. -/
theorem advance_ok_state {h r : HybiHeader} (hstate : h.state ≠ .ready)
    (hadvance : h.advance = (r, .ok ())) : r.state = .ready ∨ r.state = .extendedHeader := by
  have hfinish : ∀ h r : HybiHeader, h.finish = (r, .ok ()) → r.state = .ready := by
    intro h r hr
    unfold finish at hr
    split at hr
    · cases hr
    · rw [← (Prod.mk.inj hr).1]
  unfold advance at hadvance
  cases hh : h.state with
  | basicHeader =>
    simp only [hh, beginExtended] at hadvance
    split at hadvance
    · cases hadvance
    split at hadvance
    · right
      rw [← (Prod.mk.inj hadvance).1]
    · exact Or.inl (hfinish _ _ hadvance)
  | extendedHeader =>
    simp only [hh] at hadvance
    exact Or.inl (hfinish _ _ hadvance)
  | ready => exact absurd hh hstate

/-- Of a header that starts, no more is needed than its first two bytes. -/
def InBounds (h : HybiHeader) : Prop := h.state = .basicHeader → h.bytesNeeded ≤ 2

theorem inBounds_of_ne {h : HybiHeader} (hstate : h.state ≠ .basicHeader) : h.InBounds :=
  fun hbasic => absurd hbasic hstate

theorem inBounds_reset (h : HybiHeader) : h.reset.InBounds := fun _ => Nat.le_refl 2

theorem stop_lt_iff {h : HybiHeader} (hsound : h.Sound) (hready : h.state ≠ .ready) :
    h.stop < h.bytesNeeded ↔ ¬ h.InBounds := by
  unfold stop InBounds
  cases hstate : h.state with
  | basicHeader =>
    simp only [basicHeaderLength, true_implies]
    exact Nat.not_le.symm
  | extendedHeader =>
    have := hsound hstate
    refine iff_of_false (by simp only; omega) (fun hout => hout (fun hbasic => ?_))
    cases hbasic
  | ready => exact absurd hstate hready

/-- Bytes are written in front of the array exactly when more than two are needed of a header
    that starts. -/
theorem consume_outOfBounds_iff {h : HybiHeader} (hsound : h.Sound) (input : List UInt8) :
    (h.consume input).2.2 = .error .outOfBounds ↔ input ≠ [] ∧ ¬ h.InBounds := by
  by_cases hready : h.state = .ready
  · refine iff_of_false ?_ (fun hout => hout.2 (inBounds_of_ne (by rw [hready]; decide)))
    simp only [consume, hready]
    intro herror
    cases herror
  have hstop := stop_lt_iff hsound hready
  have hread := @readUpTo_eq_none_iff h _ input h.stop_le
  rw [consume_eq hready]
  cases hr : h.readUpTo h.stop input with
  | none =>
    have hnone := hread.mp hr
    refine iff_of_true rfl ⟨fun hnil => hnone.1 (by rw [hnil, List.take_nil]), hstop.mp hnone.2⟩
  | some r =>
    refine iff_of_false ?_ ?_
    · simp only
      split
      · exact fun herror => within_advance herror rfl
      · intro herror
        cases herror
    · rintro ⟨hnil, hout⟩
      have hless := hstop.mpr hout
      have htake : input.take h.bytesNeeded ≠ [] := by
        rcases input with _ | ⟨c, input⟩
        · exact absurd rfl hnil
        · rcases hneeded : h.bytesNeeded with _ | n
          · rw [hneeded] at hless
            exact absurd hless (Nat.not_lt_zero _)
          · exact List.cons_ne_nil _ _
      rw [hread.mpr ⟨htake, hless⟩] at hr
      cases hr

/-- A call that does not raise stays in bounds. -/
theorem inBounds_of_consume {h r : HybiHeader} {input rest : List UInt8} (hin : h.InBounds)
    (hconsume : h.consume input = (r, rest, .ok ())) : r.InBounds := by
  by_cases hready : h.state = .ready
  · simp only [consume, hready] at hconsume
    rw [← (Prod.mk.inj hconsume).1]
    exact hin
  rw [consume_eq hready] at hconsume
  rcases hr : h.readUpTo h.stop input with _ | r₁
  · simp only [hr] at hconsume
    cases hconsume
  simp only [hr] at hconsume
  rcases readUpTo_kept hr with ⟨hstate, -, hneeded, -⟩
  split at hconsume
  · have hadvance : r₁.advance = (r, .ok ()) := by
      rw [← (Prod.mk.inj hconsume).1, ← (Prod.mk.inj (Prod.mk.inj hconsume).2).2]
    intro hbasic
    rcases advance_ok_state (hstate ▸ hready) hadvance with hr' | hr'
    · rw [hr'] at hbasic
      cases hbasic
    · rw [hr'] at hbasic
      cases hbasic
  · rw [← (Prod.mk.inj hconsume).1]
    intro hbasic
    rw [hstate] at hbasic
    have := hin hbasic
    omega

/-- The headers of which at most two bytes follow the first two. -/
theorem getHeaderLen_le_iff {h : HybiHeader} {b₀ b₁ : UInt8} {back : List UInt8}
    (hbytes : h.header.bytes = b₀ :: b₁ :: back) :
    h.getHeaderLen ≤ 4 ↔ ¬ (b₁ &&& 0x80 = 0x80 ∨ b₁ &&& 0x7F = 127) := by
  have hcode : b₁ &&& 0x7F = 127 ↔ (b₁ &&& 0x7F).toNat = 127 := by
    rw [← UInt8.toNat_inj]
    exact Iff.rfl
  rw [getHeaderLen, getMasked, getBasicSize, (get_of_bytes hbytes).2, hcode]
  by_cases hmasked : b₁ &&& 0x80 = 0x80
  · simp only [hmasked, decide_true, if_true, true_or, not_true_eq_false, iff_false]
    omega
  · simp only [hmasked, decide_false, Bool.false_eq_true, if_false, false_or]
    split
    · rename_i hmiddle
      omega
    split
    · omega
    · omega

end HybiHeader

namespace Hybi

/-- Behind what follows a header or a payload the header is the same, or starts anew. -/
def HeaderKept (p : Hybi) (out : Hybi × Except Raised Unit) : Prop :=
  (out.1.header = p.header ∨ out.1.header = p.header.reset) ∧ ∀ e, out.2 = .error e → e.Within

theorem kept_same (p q : Hybi) (hq : q.header = p.header) : p.HeaderKept (q, .ok ()) :=
  ⟨Or.inl hq, fun _ herror => by cases herror⟩

theorem within_completeMessage {p : Hybi} {e : Raised} (h : p.completeMessage = .error e) :
    e.Within := by
  unfold completeMessage at h
  split at h
  · split at h
    · cases h
      exact Raised.within_nullMessage
    · unfold ControlMessage.complete at h
      split at h
      · split at h
        · cases h
        · cases h
          exact Raised.within_exception _ _
      · cases h
  · split at h
    · cases h
      exact Raised.within_nullMessage
    · unfold DataMessage.complete at h
      split at h
      · cases h
        exact Raised.within_exception _ _
      · cases h

theorem kept_processFrame (p : Hybi) : p.HeaderKept p.processFrame := by
  unfold processFrame
  split
  · split
    · rename_i e hcomplete
      refine ⟨Or.inl rfl, fun e' herror => ?_⟩
      cases herror
      exact within_completeMessage hcomplete
    · exact kept_same p _ rfl
  · exact ⟨Or.inr rfl, fun e herror => by cases herror⟩

theorem kept_finishPayload (p : Hybi) (written : Nat) : p.HeaderKept (p.finishPayload written) := by
  unfold finishPayload
  simp only
  split
  · exact kept_processFrame { p with payloadLeft := p.payloadLeft - written }
  · exact kept_same p _ rfl

theorem kept_processControlHeader (p : Hybi) : p.HeaderKept p.processControlHeader := by
  unfold processControlHeader
  simp only
  split
  · exact kept_processFrame { p with
      controlMessage := some (.reset p.header.getOpcode p.header.getMaskingKey),
      payloadLeft := p.header.payloadSize }
  · exact kept_same p _ rfl

theorem kept_beginPayload (p : Hybi) (m : DataMessage) : p.HeaderKept (p.beginPayload m) := by
  unfold beginPayload
  simp only
  split
  · exact kept_processFrame { p with dataMessage := some m, payloadLeft := p.header.payloadSize }
  · exact kept_same p _ rfl

theorem kept_processDataHeader (p : Hybi) (pool : Option Failure) :
    p.HeaderKept (p.processDataHeader pool) := by
  have hviolation : ∀ what, p.HeaderKept (p, HybiHeader.violation what) := by
    intro what
    refine ⟨Or.inl rfl, fun e herror => ?_⟩
    cases herror
    exact Raised.within_exception _ _
  unfold processDataHeader
  split
  · split
    · exact hviolation _
    split
    · refine ⟨Or.inl rfl, fun e herror => ?_⟩
      cases herror
      exact Raised.within_failure _
    · exact kept_beginPayload p _
  · split
    · exact hviolation _
    · exact kept_beginPayload p _

theorem within_fillPayload {M : Type} {length : M → Nat} {max : Nat} {tooBig : Text}
    {processCharacter : M → UInt8 → M × Except Raised Unit}
    (hcharacter : ∀ {m c m' e}, processCharacter m c = (m', .error e) → e.Within) {m m' : M}
    {input rest : List UInt8} {size : Nat} {e : Raised}
    (h : fillPayload length max tooBig processCharacter m input size = (m', rest, .error e)) :
    e.Within := by
  unfold fillPayload at h
  split at h
  · cases h
    exact Raised.within_exception _ _
  · exact Feed.eat_error hcharacter h

theorem within_fillMessage {p q : Hybi} {input rest : List UInt8} {e : Raised}
    (h : p.fillMessage input = (q, rest, .error e)) : e.Within := by
  unfold fillMessage at h
  split at h
  · split at h
    · cases h
      exact Raised.within_nullMessage
    · rename_i m hm
      rcases hfill : m.processPayload input p.payloadLeft with ⟨m', rest', out⟩
      rw [hfill] at h
      cases h
      refine within_fillPayload ?_ hfill
      intro m c m' e hc
      unfold ControlMessage.processCharacter at hc
      split at hc
      · cases hc
      · cases hc
  · split at h
    · cases h
      exact Raised.within_nullMessage
    · rename_i m hm
      rcases hfill : m.processPayload input p.payloadLeft with ⟨m', rest', out⟩
      rw [hfill] at h
      cases h
      refine within_fillPayload ?_ hfill
      intro m c m' e hc
      unfold DataMessage.processCharacter at hc
      simp only at hc
      split at hc
      · split at hc
        · cases hc
        · cases hc
          exact Raised.within_exception _ _
      · cases hc

/-- Only a round that reads a header can leave the array. -/
theorem round_outOfBounds_iff {p : Hybi} (hp : p.Sound) (pool : Option Failure)
    (input : List UInt8) : (p.round pool input).2.2 = .error .outOfBounds ↔
      p.state = .readHeader ∧ input ≠ [] ∧ ¬ p.header.InBounds := by
  cases hstate : p.state with
  | readHeader =>
    have hheader := HybiHeader.consume_outOfBounds_iff hp input
    rw [round_readHeader hstate, processHeader]
    rcases hconsume : p.header.consume input with ⟨r, rest, e | u⟩
    · rw [hconsume] at hheader
      simp only at hheader ⊢
      rw [hheader]
      exact ⟨fun h => ⟨trivial, h⟩, fun h => h.2⟩
    · rw [hconsume] at hheader
      have hin : ¬ (input ≠ [] ∧ ¬ p.header.InBounds) := by
        intro hout
        cases hheader.mpr hout
      refine iff_of_false ?_ (fun hout => hin hout.2)
      simp only
      split
      · intro herror
        cases herror
      split
      · exact fun herror => (kept_processControlHeader _).2 _ herror rfl
      · exact fun herror => (kept_processDataHeader _ pool).2 _ herror rfl
  | readPayload =>
    refine iff_of_false ?_ (fun hout => by cases hout.1)
    rw [round_readPayload hstate, processPayload]
    rcases hfill : p.fillMessage input with ⟨q, rest, e | written⟩
    · intro herror
      exact within_fillMessage hfill (Except.error.inj herror)
    · exact fun herror => (kept_finishPayload q written).2 _ herror rfl
  | ready =>
    refine iff_of_false ?_ (fun hout => by cases hout.1)
    rw [round, hstate]
    intro herror
    cases herror

/-- A round that does not raise stays in bounds. -/
theorem inBounds_of_round {p p' : Hybi} {pool : Option Failure} {input rest : List UInt8}
    (hin : p.header.InBounds) (hround : p.round pool input = (p', rest, .ok ())) :
    p'.header.InBounds := by
  have hkept : ∀ (q : Hybi) (out : Hybi × Except Raised Unit), q.header.InBounds →
      q.HeaderKept out → out.1.header.InBounds := by
    rintro q out hq ⟨hsame | hreset, -⟩
    · rw [hsame]
      exact hq
    · rw [hreset]
      exact q.header.inBounds_reset
  cases hstate : p.state with
  | readHeader =>
    rw [round_readHeader hstate, processHeader] at hround
    rcases hconsume : p.header.consume input with ⟨r, rest₁, e | u⟩
    · rw [hconsume] at hround
      cases hround
    rw [hconsume] at hround
    have hr := HybiHeader.inBounds_of_consume hin hconsume
    simp only at hround
    split at hround
    · rw [← (Prod.mk.inj hround).1]
      exact hr
    split at hround
    · rw [← (Prod.mk.inj hround).1]
      exact hkept { p with header := r } _ hr (kept_processControlHeader _)
    · rw [← (Prod.mk.inj hround).1]
      exact hkept { p with header := r } _ hr (kept_processDataHeader _ pool)
  | readPayload =>
    rw [round_readPayload hstate, processPayload] at hround
    rcases hfill : p.fillMessage input with ⟨q, rest₁, e | written⟩
    · rw [hfill] at hround
      cases hround
    · rw [hfill] at hround
      rw [← (Prod.mk.inj hround).1]
      have hq : q.header = p.header := (fillMessage_ok hfill).2.2.2.1
      exact hkept q _ (hq ▸ hin) (kept_finishPayload q written)
  | ready =>
    rw [round, hstate] at hround
    rw [← (Prod.mk.inj hround).1]
    exact hin

/-- No header starts of which more than two bytes are needed. -/
def Calm (p : Hybi) : Prop := p.state = .readHeader → p.header.InBounds

theorem calm_of_round {p p' : Hybi} {pool : Option Failure} {input rest : List UInt8}
    (hp : p.Calm) (hround : p.round pool input = (p', rest, .ok ())) : p'.Calm := by
  cases hstate : p.state with
  | readHeader => exact fun _ => inBounds_of_round (hp hstate) hround
  | readPayload =>
    intro hstate'
    rw [round_readPayload hstate, processPayload] at hround
    rcases hfill : p.fillMessage input with ⟨q, rest₁, e | written⟩
    · rw [hfill] at hround
      cases hround
    · rw [hfill] at hround
      have hq : q.state = .readPayload := (fillMessage_ok hfill).2.2.1.trans hstate
      have hfinish : q.finishPayload written = (p', .ok ()) := by
        rw [← (Prod.mk.inj hround).1, ← (Prod.mk.inj (Prod.mk.inj hround).2).2]
      unfold finishPayload at hfinish
      simp only at hfinish
      split at hfinish
      · rcases processFrame_ok hfinish with rfl | rfl
        · cases hstate'
        · exact HybiHeader.inBounds_reset _
      · rw [← (Prod.mk.inj hfinish).1] at hstate'
        exact absurd (hq.symm.trans hstate') (by decide)
  | ready =>
    intro hstate'
    rw [round, hstate] at hround
    rw [← (Prod.mk.inj hround).1, hstate] at hstate'
    cases hstate'

/-- A calm processor stays within the array; and it stays calm as long as nothing raises. -/
theorem calm_consume {p p' : Hybi} {pool : Option Failure} {input rest : List UInt8}
    {o : Feed.Ending Raised} (hp : p.Sound) (hcalm : p.Calm)
    (h : p.consume pool input = (p', rest, o)) :
    o ≠ .raised .outOfBounds ∧ ((∀ e, o ≠ .raised e) → p'.Calm) := by
  have hrule := (reader_lawful pool).read_rule (P := Calm) (Q := fun _ e => e ≠ .outOfBounds)
    (fun _ hcalm _ hround => calm_of_round hcalm hround)
    (by
      intro p p' xs rest e hp hcalm _ hround heq
      have hout := round_outOfBounds_iff hp pool xs
      rw [show p.round pool xs = (p', rest, .error e) from hround, heq] at hout
      have hwhere := hout.mp rfl
      exact hwhere.2.2 (hcalm hwhere.1))
    hp hcalm h
  rcases hrule with ⟨e, ho, he⟩ | ⟨ho, hcalm'⟩
  · refine ⟨fun hout => ?_, fun hnone => absurd ho (hnone e)⟩
    rw [ho] at hout
    exact he (Feed.Ending.raised.inj hout)
  · exact ⟨ho _, fun _ => hcalm'⟩

theorem not_outOfBounds_of_calm {p : Hybi} (hp : p.Sound) (hcalm : p.Calm)
    (pool : Option Failure) (input : List UInt8) :
    (p.consume pool input).2.2 ≠ .raised .outOfBounds :=
  (calm_consume hp hcalm rfl).1

/-- A call leaves the array exactly when a header starts of which more than two bytes are
    needed, and there is a byte. -/
theorem consume_outOfBounds_iff {p : Hybi} (hp : p.Sound) (pool : Option Failure)
    (input : List UInt8) : (p.consume pool input).2.2 = .raised .outOfBounds ↔
      input ≠ [] ∧ ¬ p.Calm := by
  constructor
  · intro hraised
    refine ⟨?_, fun hcalm => not_outOfBounds_of_calm hp hcalm pool input hraised⟩
    intro hnil
    by_cases hcalm : p.Calm
    · exact not_outOfBounds_of_calm hp hcalm pool input hraised
    -- nothing is read of an empty stream
    have hstate : p.state = .readHeader := Classical.not_not.mp
      (fun hstate => hcalm (fun hstate' => absurd hstate' hstate))
    have hin : ¬ p.header.InBounds := fun hin => hcalm (fun _ => hin)
    have hbasic : p.header.state = .basicHeader := Classical.not_not.mp
      (fun hstate => hin (HybiHeader.inBounds_of_ne hstate))
    have hneeded : 2 < p.header.bytesNeeded := Nat.not_le.mp (fun hle => hin (fun _ => hle))
    have hheader : p.header.state ≠ .ready := by
      rw [hbasic]
      decide
    have hwanted : input.length < p.wanted := by
      rw [wanted_readHeader hstate hheader, hnil]
      exact Nat.lt_of_le_of_lt (Nat.zero_le 2) hneeded
    have hround : (p.round pool input).2.2 ≠ .error .outOfBounds := fun herror =>
      ((round_outOfBounds_iff hp pool input).mp herror).2.1 hnil
    rw [consume_eq hp, if_neg (by rw [hstate]; decide)] at hraised
    rcases hr : p.round pool input with ⟨p', rest, e | u⟩
    · rw [hr] at hraised hround
      cases hraised
      exact hround rfl
    · rw [hr] at hraised
      simp only [hwanted, if_true] at hraised
      cases hraised
  · rintro ⟨hnil, hcalm⟩
    have hstate : p.state = .readHeader := Classical.not_not.mp
      (fun hstate => hcalm (fun hstate' => absurd hstate' hstate))
    have hround := (round_outOfBounds_iff hp pool input).mpr
      ⟨hstate, hnil, fun hin => hcalm (fun _ => hin)⟩
    rw [consume_eq hp, if_neg (by rw [hstate]; decide)]
    rcases hr : p.round pool input with ⟨p', rest, e | u⟩
    · rw [hr] at hround
      cases hround
      rfl
    · rw [hr] at hround
      cases hround

/-- Runs of the processor in which no call has raised anything. -/
inductive Undisturbed : Hybi → Prop
  | initial : Undisturbed initial
  | consume {p p' : Hybi} {pool : Option Failure} {input rest : List UInt8}
      {o : Feed.Ending Raised} : Undisturbed p → p.consume pool input = (p', rest, o) →
      (∀ e, o ≠ .raised e) → Undisturbed p'
  | taken {p : Hybi} : Undisturbed p → p.state = .ready → Undisturbed p.taken

theorem Undisturbed.calm {p : Hybi} (h : Undisturbed p) : p.Sound ∧ p.Calm := by
  have hreset : ∀ q : Hybi, q.reset.Sound ∧ q.reset.Calm :=
    fun q => ⟨sound_reset q, fun _ => q.header.inBounds_reset⟩
  induction h with
  | initial => exact ⟨sound_initial, fun _ _ => Nat.le_refl 2⟩
  | @consume p p' pool input rest o hp hconsume ho ih =>
    have hsound := sound_consume ih.1 pool input
    rw [hconsume] at hsound
    exact ⟨hsound, (calm_consume ih.1 ih.2 hconsume).2 ho⟩
  | taken hp hready ih =>
    unfold Hybi.taken
    split
    · exact hreset _
    · exact hreset _

end Hybi

namespace FrameHeader

open HybiHeader

/-- Two bytes no header starts with. -/
def Refused (b₀ b₁ : UInt8) : Prop :=
  ∀ (l : FrameHeader) (back : List UInt8), l.bytes ≠ b₀ :: b₁ :: back

/-- The check of the first two bytes refuses those no header starts with. -/
theorem refused_iff {h : HybiHeader} {b₀ b₁ : UInt8} {back : List UInt8}
    (hbytes : h.header.bytes = b₀ :: b₁ :: back) :
    Refused b₀ b₁ ↔ h.validateBasicHeader ≠ .ok () := by
  rcases get_of_bytes hbytes with ⟨hfirst, hsecond⟩
  constructor
  · intro hrefused hvalid
    rcases validateBasicHeader_ok hvalid with ⟨hcontrol, hrsv1, hrsv2, hrsv3, hreserved⟩
    have hcode : h.getBasicSize < 128 := basicSize_lt _
    -- some size is written with these seven bits
    have hsize : ∃ size, sizeCode size = h.getBasicSize ∧ size < 2 ^ 64 ∧
        (h.getBasicSize ≤ payloadSizeBasic → size ≤ payloadSizeBasic) := by
      by_cases hbasic : h.getBasicSize ≤ payloadSizeBasic
      · exact ⟨h.getBasicSize, if_pos hbasic, by omega, fun h => h⟩
      · have hlarge : h.getBasicSize = 126 ∨ h.getBasicSize = 127 := by
          unfold payloadSizeBasic at hbasic
          omega
        rcases hlarge with hmiddle | hlast
        · exact ⟨126, by rw [hmiddle]; decide, by decide, fun h => absurd h hbasic⟩
        · exact ⟨65536, by rw [hlast]; decide, by decide, fun h => absurd h hbasic⟩
    rcases hsize with ⟨size, hsizeCode, hlt, hsmall⟩
    have hb₀ : firstByte h.getFin h.getOpcode = b₀ := by
      rw [← hfirst]
      exact firstByte_of_fields (of_decide_eq_false hrsv1) (of_decide_eq_false hrsv2)
        (of_decide_eq_false hrsv3)
    have hb₁ : secondByte h.getMasked h.getBasicSize = b₁ := by
      rw [← hsecond]
      exact secondByte_of_fields _
    have hkey : (if h.getMasked then some (Buffer.zero 4) else none).isSome = h.getMasked := by
      cases h.getMasked with
      | false => rfl
      | true => rfl
    refine hrefused ⟨h.getFin, h.getOpcode, if h.getMasked then some (Buffer.zero 4) else none,
      size, hreserved, fun hop => ⟨(hcontrol hop).1, hsmall (hcontrol hop).2⟩, hlt⟩
      (extension (if h.getMasked then some (Buffer.zero 4) else none) size) ?_
    rw [bytes, hkey, hsizeCode, hb₀, hb₁]
  · intro hvalid l back' hl
    apply hvalid
    rw [bytes] at hl
    apply validateBasicHeader_eq (l := l)
    exact ⟨hfirst.trans (List.cons.inj hl).1.symm,
      hsecond.trans (List.cons.inj (List.cons.inj hl).2).1.symm⟩

end FrameHeader

/-- **Where the processor writes outside the array of the header.**  As long as no call has
    raised anything, no call does.  But when a frame starts with two bytes no header starts
    with, the call raises, and the next byte that is read goes in front of the array exactly
    when the second byte has its mask bit set or announces a size of eight bytes. -/
theorem overrun_iff {p : Hybi} (hp : p.Undisturbed) :
    (∀ pool input, (p.consume pool input).2.2 ≠ .raised .outOfBounds) ∧
    (p.Fresh → ∀ b₀ b₁, FrameHeader.Refused b₀ b₁ → ∀ pool pool' input more, more ≠ [] →
      (∃ what, (p.consume pool (b₀ :: b₁ :: input)).2.2 =
        .raised (.exception .protocolViolation what)) ∧
      (((p.consume pool (b₀ :: b₁ :: input)).1.consume pool' more).2.2 = .raised .outOfBounds ↔
        b₁ &&& 0x80 = 0x80 ∨ b₁ &&& 0x7F = 127)) := by
  rcases hp.calm with ⟨hsound, hcalm⟩
  refine ⟨Hybi.not_outOfBounds_of_calm hsound hcalm, ?_⟩
  intro hfresh b₀ b₁ hrefused pool pool' input more hmore
  rcases Hybi.consume_two hfresh pool b₀ b₁ input with ⟨r, hstate, ⟨back, hbytes⟩, hconsume⟩
  have hsame : r.processBasicHeader.validateBasicHeader = r.validateBasicHeader :=
    HybiHeader.validateBasicHeader_congr rfl rfl
  have hinvalid := (FrameHeader.refused_iff hbytes).mp hrefused
  rcases herror : r.validateBasicHeader with e | u
  · rcases HybiHeader.validateBasicHeader_error herror with ⟨what, rfl⟩
    generalize hq : ({ p with header := r.processBasicHeader } : Hybi) = q
    have hqHeader : q.header.state = .basicHeader := by rw [← hq]; exact hstate
    have hraised : p.consume pool (b₀ :: b₁ :: input) =
        (q, input, .raised (.exception .protocolViolation what)) := by
      rw [hconsume, HybiHeader.beginExtended, hsame, herror]
      simp only [Hybi.goOnBehind, hq]
      have hbasic : q.header.state ≠ .ready := by
        rw [hqHeader]
        decide
      rw [Hybi.caught, if_neg hbasic]
    rw [hraised]
    refine ⟨⟨what, rfl⟩, ?_⟩
    have hqState : q.state = .readHeader := by rw [← hq]; exact hfresh.state
    have hqNeeded : q.header.bytesNeeded = r.getHeaderLen - 2 := by rw [← hq]; rfl
    have hqSound : q.Sound := HybiHeader.sound_of_ne (by rw [hqHeader]; decide)
    have hqCalm : q.Calm ↔ r.getHeaderLen ≤ 4 := by
      unfold Hybi.Calm HybiHeader.InBounds
      rw [hqState, hqHeader, hqNeeded]
      simp only [true_implies]
      omega
    have hlen := HybiHeader.getHeaderLen_le_iff hbytes
    rw [Hybi.consume_outOfBounds_iff hqSound, hqCalm, hlen, Classical.not_not]
    exact ⟨fun h => h.2, fun h => ⟨hmore, h⟩⟩
  · exact absurd herror hinvalid

/-- A reserved bit, and a mask bit behind it. -/
theorem overrun_iff_initial :
    (∃ what, (Hybi.initial.consume none [0xF1, 0xFE]).2.2 =
      .raised (.exception .protocolViolation what)) ∧
    (((Hybi.initial.consume none [0xF1, 0xFE]).1.consume none [0]).2.2 = .raised .outOfBounds ↔
      (0xFE : UInt8) &&& 0x80 = 0x80 ∨ (0xFE : UInt8) &&& 0x7F = 127) := by
  have hrefused : FrameHeader.Refused 0xF1 0xFE := by
    apply (@FrameHeader.refused_iff ⟨.basicHeader, 2, 0, ⟨0xF1 :: 0xFE :: List.replicate 12 0, rfl⟩⟩
      _ _ _ rfl).mpr
    intro h
    cases h
  exact (overrun_iff .initial).2 Hybi.fresh_initial 0xF1 0xFE hrefused none none [] [0]
    (List.cons_ne_nil _ _)

end SocketIOStress
