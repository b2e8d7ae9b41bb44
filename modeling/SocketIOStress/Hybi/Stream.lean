import SocketIOStress.Hybi.Processor

/-!
# How a stream is cut

`consume` is called with whatever the socket has delivered.  Here the loop gets its
recursion equation, and then: where the stream is cut makes no difference to what
is made of it.
-/

namespace SocketIOStress

open Octets

namespace HybiHeader

/-! ### The header -/

/-- What is left of the stream by a read that ends without an exception. -/
theorem rest_of_consume {h h' : HybiHeader} {input rest : List UInt8}
    (hconsume : h.consume input = (h', rest, .ok ())) :
    rest = if h.state = .ready then input else input.drop h.bytesNeeded := by
  unfold consume at hconsume
  cases hstate : h.state with
  | basicHeader =>
    simp only [hstate] at hconsume
    split at hconsume
    · cases hconsume
    split at hconsume
    · exact (congrArg (fun r => r.2.1) hconsume).symm
    · exact (congrArg (fun r => r.2.1) hconsume).symm
  | extendedHeader =>
    simp only [hstate] at hconsume
    split at hconsume
    · cases hconsume
    split at hconsume
    · exact (congrArg (fun r => r.2.1) hconsume).symm
    · exact (congrArg (fun r => r.2.1) hconsume).symm
  | ready =>
    simp only [hstate] at hconsume
    exact (congrArg (fun r => r.2.1) hconsume).symm

/-- Where the bytes that are being read end. -/
def stop (h : HybiHeader) : Nat :=
  match h.state with
  | .basicHeader => basicHeaderLength
  | .extendedHeader => h.getHeaderLen
  | .ready => h.getHeaderLen

/-- What follows the last of them. -/
def advance (h : HybiHeader) : HybiHeader × Except Raised Unit :=
  match h.state with
  | .basicHeader => h.beginExtended
  | .extendedHeader => h.finish
  | .ready => (h, .ok ())

/-- What a read leaves as it was: all but the bytes that are being read. -/
theorem readUpTo_kept {h r : HybiHeader} {stop : Nat} {input : List UInt8}
    (hr : h.readUpTo stop input = some r) :
    r.state = h.state ∧ r.payloadSize = h.payloadSize ∧
      r.bytesNeeded = h.bytesNeeded - (input.take h.bytesNeeded).length ∧
      ∀ i, i + h.bytesNeeded < stop → r.header.get i = h.header.get i := by
  unfold readUpTo at hr
  split at hr
  · rename_i hnil
    rw [← Option.some.inj hr, hnil]
    exact ⟨rfl, rfl, rfl, fun i hi => rfl⟩
  split at hr
  · cases hr
  split at hr
  · cases hr
  · rename_i header hwrite
    rw [← Option.some.inj hr]
    exact ⟨rfl, rfl, rfl, fun i hi => Buffer.get_write_of_lt hwrite (by omega)⟩

/-- Both branches of `consume` do the same to their bytes. -/
theorem consume_eq {h : HybiHeader} (hstate : h.state ≠ .ready) (input : List UInt8) :
    h.consume input =
      match h.readUpTo h.stop input with
      | none => (h, input, .error .outOfBounds)
      | some r =>
          if r.bytesNeeded = 0 then (r.advance.1, input.drop h.bytesNeeded, r.advance.2)
          else (r, input.drop h.bytesNeeded, .ok ()) := by
  cases hh : h.state with
  | basicHeader =>
    have hstop : h.stop = basicHeaderLength := by rw [stop, hh]
    simp only [consume, hh, hstop]
    cases hread : h.readUpTo basicHeaderLength input with
    | none => rfl
    | some r => simp only [advance, (readUpTo_kept hread).1.trans hh]
  | extendedHeader =>
    have hstop : h.stop = h.getHeaderLen := by rw [stop, hh]
    simp only [consume, hh, hstop]
    cases hread : h.readUpTo h.getHeaderLen input with
    | none => rfl
    | some r => simp only [advance, (readUpTo_kept hread).1.trans hh]
  | ready => exact absurd hh hstate

theorem stop_le (h : HybiHeader) : h.stop ≤ 14 := by
  unfold stop
  split
  · decide
  · exact h.getHeaderLen_le
  · exact h.getHeaderLen_le

/-- A read goes wrong only when it would start in front of the array. -/
theorem readUpTo_eq_none_iff {h : HybiHeader} {stop : Nat} {input : List UInt8}
    (hstop : stop ≤ 14) : h.readUpTo stop input = none ↔
      input.take h.bytesNeeded ≠ [] ∧ stop < h.bytesNeeded := by
  unfold readUpTo
  by_cases hnil : input.take h.bytesNeeded = []
  · rw [if_pos hnil]
    constructor
    · intro hsome
      cases hsome
    · intro hread
      exact absurd hnil hread.1
  rw [if_neg hnil]
  by_cases hfront : stop < h.bytesNeeded
  · rw [if_pos hfront]
    exact ⟨fun _ => ⟨hnil, hfront⟩, fun _ => rfl⟩
  · rw [if_neg hfront]
    have hlength : (input.take h.bytesNeeded).length ≤ h.bytesNeeded := List.length_take_le _ _
    have hfits : stop - h.bytesNeeded + (input.take h.bytesNeeded).length ≤ 14 := by omega
    rw [Buffer.write, dif_pos hfits]
    constructor
    · intro hsome
      cases hsome
    · intro hread
      exact absurd hread.2 hfront

/-- Fewer bytes than are needed, and then the others. -/
theorem readUpTo_append {h r : HybiHeader} {stop : Nat} {xs : List UInt8} (ys : List UInt8)
    (hshort : xs.length < h.bytesNeeded) (hr : h.readUpTo stop xs = some r) :
    r.readUpTo stop ys = h.readUpTo stop (xs ++ ys) ∧ r.state = h.state ∧
      r.bytesNeeded = h.bytesNeeded - xs.length := by
  have htake : xs.take h.bytesNeeded = xs := List.take_of_length_le (Nat.le_of_lt hshort)
  rw [readUpTo, htake] at hr
  by_cases hnil : xs = []
  · rw [if_pos hnil] at hr
    rw [← Option.some.inj hr, hnil]
    exact ⟨rfl, rfl, rfl⟩
  rw [if_neg hnil] at hr
  by_cases hstop : stop < h.bytesNeeded
  · rw [if_pos hstop] at hr
    cases hr
  rw [if_neg hstop] at hr
  split at hr
  · cases hr
  rename_i header hwrite
  have hrEq := Option.some.inj hr
  have hneeded : r.bytesNeeded = h.bytesNeeded - xs.length := by rw [← hrEq]
  have hheader : r.header = header := by rw [← hrEq]
  have hpositive : 0 < h.bytesNeeded - xs.length := Nat.sub_pos_of_lt hshort
  have hall : (xs ++ ys).take h.bytesNeeded = xs ++ ys.take (h.bytesNeeded - xs.length) := by
    rw [List.take_append, htake]
  have hall' : xs ++ ys.take (h.bytesNeeded - xs.length) ≠ [] := by
    intro happend
    exact hnil (List.append_eq_nil_iff.mp happend).1
  refine ⟨?_, by rw [← hrEq], hneeded⟩
  have hoffset : stop - (h.bytesNeeded - xs.length) = stop - h.bytesNeeded + xs.length := by omega
  have hstop' : ¬ stop < h.bytesNeeded - xs.length := by omega
  rw [readUpTo, readUpTo, hall, hneeded, if_neg hall', if_neg hstop, hheader]
  by_cases hys : ys.take (h.bytesNeeded - xs.length) = []
  · rw [if_pos hys, hys, List.append_nil, hwrite]
    exact congrArg some hrEq.symm
  · rw [if_neg hys, if_neg hstop', hoffset, Buffer.write_write hwrite]
    cases h.header.write (stop - h.bytesNeeded) (xs ++ ys.take (h.bytesNeeded - xs.length)) with
    | none => rfl
    | some header' =>
      rw [← hrEq]
      simp only [List.length_append, Nat.sub_sub]

/-- In the extended header, what is still needed stands behind the first two bytes. -/
def Sound (h : HybiHeader) : Prop :=
  h.state = .extendedHeader → h.bytesNeeded + 2 ≤ h.getHeaderLen

theorem getHeaderLen_congr {h r : HybiHeader} (hsecond : r.header.get 1 = h.header.get 1) :
    r.getHeaderLen = h.getHeaderLen := by
  rw [getHeaderLen, getHeaderLen, getMasked, getMasked, getBasicSize, getBasicSize, hsecond]

theorem sound_of_ne {h : HybiHeader} (hstate : h.state ≠ .extendedHeader) : h.Sound :=
  fun hextended => absurd hextended hstate

theorem sound_initial : initial.Sound := sound_of_ne nofun

theorem sound_reset (h : HybiHeader) : h.reset.Sound := sound_of_ne nofun

/-- The bytes that are read end where they did. -/
theorem stop_of_readUpTo {h r : HybiHeader} {input : List UInt8} (hsound : h.Sound)
    (hstate : h.state ≠ .ready) (hr : h.readUpTo h.stop input = some r) : r.stop = h.stop := by
  rcases readUpTo_kept hr with ⟨hsame, -, -, hkept⟩
  cases hh : h.state with
  | basicHeader => rw [stop, stop, hsame, hh]
  | extendedHeader =>
    have hneeded := hsound hh
    have hstop : h.stop = h.getHeaderLen := by rw [stop, hh]
    rw [hstop] at hkept
    rw [hstop, stop, hsame, hh]
    exact getHeaderLen_congr (hkept 1 (by omega))
  | ready => exact absurd hh hstate

theorem sound_of_readUpTo {h r : HybiHeader} {input : List UInt8} (hsound : h.Sound)
    (hstate : h.state ≠ .ready) (hr : h.readUpTo h.stop input = some r) : r.Sound := by
  intro hextended
  rcases readUpTo_kept hr with ⟨hsame, -, hneeded, -⟩
  have hstop := stop_of_readUpTo hsound hstate hr
  rw [hsame] at hextended
  have hstop' : h.stop = h.getHeaderLen := by rw [stop, hextended]
  have hlen : r.stop = r.getHeaderLen := by rw [stop, hsame, hextended]
  have := hsound hextended
  omega

/-- The size is all that `process_extended_header` changes. -/
theorem processExtendedHeader_kept (h : HybiHeader) :
    ∃ size, h.processExtendedHeader.1 = { h with payloadSize := size } := by
  unfold processExtendedHeader
  split
  · exact ⟨_, rfl⟩
  split
  · exact ⟨_, rfl⟩
  split
  · exact ⟨_, rfl⟩
  · exact ⟨h.payloadSize, rfl⟩

/-- What `finish` does to the header. -/
theorem finish_kept (h : HybiHeader) : ∃ size state,
    h.finish.1 = { h with payloadSize := size, state := state } ∧
      (state = .ready ∨ state = h.state) := by
  rcases processExtendedHeader_kept h with ⟨size, hsize⟩
  unfold finish
  rcases hprocess : h.processExtendedHeader with ⟨r, e | u⟩
  · rw [hprocess] at hsize
    simp only at hsize
    rw [hsize]
    exact ⟨size, h.state, rfl, Or.inr rfl⟩
  · rw [hprocess] at hsize
    simp only at hsize
    rw [hsize]
    exact ⟨size, .ready, rfl, Or.inl rfl⟩

theorem sound_finish {h : HybiHeader} (hsound : h.Sound) : h.finish.1.Sound := by
  rcases finish_kept h with ⟨size, state, hfinish, hready | hsame⟩
  · rw [hfinish, hready]
    exact sound_of_ne nofun
  · rw [hfinish, hsame]
    exact hsound

theorem sound_advance {h : HybiHeader} (hsound : h.Sound) : h.advance.1.Sound := by
  unfold advance
  cases hstate : h.state with
  | basicHeader =>
    have hbasic : h.processBasicHeader.Sound := by
      apply sound_of_ne
      rw [processBasicHeader, hstate]
      exact nofun
    simp only [beginExtended]
    split
    · exact hbasic
    split
    · intro hextended
      have := h.two_le_getHeaderLen
      simp only [processBasicHeader, basicHeaderLength]
      have hlen : getHeaderLen { h.processBasicHeader with state := .extendedHeader } =
          h.getHeaderLen := getHeaderLen_congr rfl
      simp only [processBasicHeader, basicHeaderLength] at hlen
      omega
    · exact sound_finish hbasic
  | extendedHeader => exact sound_finish hsound
  | ready => exact hsound

/-- Behind bytes that are accepted the header is ready, or wants the rest of it. -/
theorem wants_of_advance {h r : HybiHeader} (hstate : h.state ≠ .ready)
    (hadvance : h.advance = (r, .ok ())) : r.state = .ready ∨ 0 < r.bytesNeeded := by
  have hfinish : ∀ h r : HybiHeader, h.finish = (r, .ok ()) → r.state = .ready := by
    intro h r hr
    unfold finish at hr
    split at hr
    · cases hr
    · rw [← (Prod.mk.inj hr).1]
  unfold advance at hadvance
  cases hh : h.state with
  | basicHeader =>
    simp only [hh, beginExtended] at hadvance
    split at hadvance
    · cases hadvance
    split at hadvance
    · rename_i hneeded
      right
      rw [← (Prod.mk.inj hadvance).1]
      exact hneeded
    · exact Or.inl (hfinish _ _ hadvance)
  | extendedHeader =>
    simp only [hh] at hadvance
    exact Or.inl (hfinish _ _ hadvance)
  | ready => exact absurd hh hstate

/-- Every call of `consume` keeps the header sound. -/
theorem sound_consume {h : HybiHeader} (hsound : h.Sound) (input : List UInt8) :
    (h.consume input).1.Sound := by
  by_cases hstate : h.state = .ready
  · simp only [consume, hstate]
    exact hsound
  rw [consume_eq hstate]
  cases hread : h.readUpTo h.stop input with
  | none => exact hsound
  | some r =>
    have hr := sound_of_readUpTo hsound hstate hread
    by_cases hdone : r.bytesNeeded = 0
    · simp only [hdone, if_true]
      exact sound_advance hr
    · simp only [hdone, if_false]
      exact hr

/-- With all it needs, the header does not look further. -/
theorem consume_append_of_le {h : HybiHeader} {xs : List UInt8} (hstate : h.state ≠ .ready)
    (hxs : h.bytesNeeded ≤ xs.length) (ys : List UInt8) :
    h.consume (xs ++ ys) =
      ((h.consume xs).1, (h.consume xs).2.1 ++ ys, (h.consume xs).2.2) := by
  have hread : h.readUpTo h.stop (xs ++ ys) = h.readUpTo h.stop xs := by
    unfold readUpTo
    rw [List.take_append_of_le_length hxs]
  rw [consume_eq hstate, consume_eq hstate, hread, List.drop_append_of_le_length hxs]
  cases h.readUpTo h.stop xs with
  | none => rfl
  | some r =>
    by_cases hdone : r.bytesNeeded = 0
    · simp only [hdone, if_true]
    · simp only [hdone, if_false]

/-- With less, it goes on where it was. -/
theorem consume_append_of_lt {h : HybiHeader} {xs : List UInt8} (hsound : h.Sound)
    (hstate : h.state ≠ .ready) (hxs : xs.length < h.bytesNeeded) :
    (h.consume xs = (h, xs, .error .outOfBounds) ∧
      ∀ ys, h.consume (xs ++ ys) = (h, xs ++ ys, .error .outOfBounds)) ∨
    ∃ r, h.consume xs = (r, [], .ok ()) ∧ r.state = h.state ∧
      r.bytesNeeded + xs.length = h.bytesNeeded ∧ ∀ ys, h.consume (xs ++ ys) = r.consume ys := by
  rw [consume_eq hstate]
  cases hread : h.readUpTo h.stop xs with
  | none =>
    refine Or.inl ⟨rfl, ?_⟩
    intro ys
    have hnone : h.readUpTo h.stop (xs ++ ys) = none := by
      rw [readUpTo_eq_none_iff h.stop_le] at hread ⊢
      rw [List.take_append]
      exact ⟨fun hnil => hread.1 (List.append_eq_nil_iff.mp hnil).1, hread.2⟩
    rw [consume_eq hstate, hnone]
  | some r =>
    have hstop := stop_of_readUpTo hsound hstate hread
    have happend := fun ys => readUpTo_append ys hxs hread
    rcases happend [] with ⟨-, hsame, hneeded⟩
    refine Or.inr ⟨r, ?_, hsame, by omega, ?_⟩
    · have hmore : r.bytesNeeded ≠ 0 := by omega
      simp only [hmore, if_false, List.drop_of_length_le (Nat.le_of_lt hxs)]
    · intro ys
      have hdrop : (xs ++ ys).drop h.bytesNeeded = ys.drop r.bytesNeeded := by
        rw [hneeded, List.drop_append, List.drop_of_length_le (Nat.le_of_lt hxs), List.nil_append]
      rw [consume_eq hstate, consume_eq (hsame ▸ hstate), hstop, (happend ys).1, hdrop]
      cases hall : h.readUpTo h.stop (xs ++ ys) with
      | none =>
        -- only with an empty piece can the rest start in front of the array
        rw [readUpTo_eq_none_iff h.stop_le] at hall
        have hnil : xs = [] := by
          rcases xs with _ | ⟨x, xs⟩
          · rfl
          · rw [(readUpTo_eq_none_iff h.stop_le).mpr] at hread
            · cases hread
            refine ⟨?_, hall.2⟩
            rw [List.take_of_length_le (Nat.le_of_lt hxs)]
            exact List.cons_ne_nil x xs
        rw [hnil] at hread
        simp only [readUpTo, List.take_nil, if_true, Option.some.injEq] at hread
        rw [hnil, hread, List.nil_append]
      | some r' => rfl

end HybiHeader

/-! ### Payloads -/

section Payload

variable {M : Type} {length : M → Nat} {max : Nat} {tooBig : Text}
  {processCharacter : M → UInt8 → M × Except Raised Unit}

theorem fillPayload_append_of_le {xs : List UInt8} {size : Nat} (hxs : size ≤ xs.length) (m : M)
    (ys : List UInt8) : fillPayload length max tooBig processCharacter m (xs ++ ys) size =
      ((fillPayload length max tooBig processCharacter m xs size).1,
        (fillPayload length max tooBig processCharacter m xs size).2.1 ++ ys,
        (fillPayload length max tooBig processCharacter m xs size).2.2) := by
  unfold fillPayload
  split
  · rfl
  · exact Feed.eat_append_of_le hxs m ys

/-- The size is checked again for the rest, with the same outcome. -/
theorem fillPayload_append_of_lt
    (hcount : ∀ {m m' c}, processCharacter m c = (m', .ok ()) → length m' = length m + 1)
    {xs : List UInt8} {size : Nat} (hxs : xs.length < size) (m : M) :
    (∃ m' rest e, fillPayload length max tooBig processCharacter m xs size = (m', rest, .error e) ∧
      ∀ ys, fillPayload length max tooBig processCharacter m (xs ++ ys) size =
        (m', rest ++ ys, .error e)) ∨
    ∃ m', fillPayload length max tooBig processCharacter m xs size = (m', [], .ok xs.length) ∧
      ∀ ys, ∃ m'' rest out,
        fillPayload length max tooBig processCharacter m' ys (size - xs.length) =
          (m'', rest, out) ∧
        fillPayload length max tooBig processCharacter m (xs ++ ys) size =
          (m'', rest, out.map (· + xs.length)) := by
  unfold fillPayload
  by_cases hlarge : max < (length m + size) % 2 ^ 64
  · simp only [hlarge, if_true]
    exact Or.inl ⟨m, xs, _, rfl, fun ys => rfl⟩
  simp only [hlarge, if_false]
  rcases heat : Feed.eat processCharacter size m xs with ⟨m', rest, e | taken⟩
  · exact Or.inl ⟨m', rest, e, rfl, fun ys => Feed.eat_append_of_error heat ys⟩
  rcases Feed.eat_ok heat with ⟨hrest, htaken⟩
  rw [List.drop_of_length_le (Nat.le_of_lt hxs)] at hrest
  rw [Nat.min_eq_right (Nat.le_of_lt hxs)] at htaken
  have hlength := Feed.eat_counts hcount heat
  have hsize : length m' + (size - xs.length) = length m + size := by omega
  refine Or.inr ⟨m', by rw [hrest, htaken], ?_⟩
  intro ys
  rw [hsize, if_neg hlarge, Feed.eat_append_of_ok (Nat.le_of_lt hxs) heat]
  exact ⟨_, _, _, rfl, rfl⟩

end Payload

theorem DataMessage.length_processCharacter {m m' : DataMessage} {c : UInt8}
    (h : m.processCharacter c = (m', .ok ())) : m'.payload.length = m.payload.length + 1 := by
  unfold processCharacter at h
  simp only at h
  split at h
  · split at h
    · rw [← (Prod.mk.inj h).1]
      exact List.length_append
    · cases h
  · rw [← (Prod.mk.inj h).1]
    exact List.length_append

theorem DataMessage.processPayload_append_of_lt {xs : List UInt8} {size : Nat}
    (m : DataMessage) (hxs : xs.length < size) :
    (∃ m' rest e, m.processPayload xs size = (m', rest, .error e) ∧
      ∀ ys, m.processPayload (xs ++ ys) size = (m', rest ++ ys, .error e)) ∨
    ∃ m', m.processPayload xs size = (m', [], .ok xs.length) ∧
      ∀ ys, ∃ m'' rest out, DataMessage.processPayload m' ys (size - xs.length) = (m'', rest, out) ∧
        m.processPayload (xs ++ ys) size = (m'', rest, out.map (· + xs.length)) :=
  fillPayload_append_of_lt (@length_processCharacter) hxs m

theorem ControlMessage.length_processCharacter {m m' : ControlMessage} {c : UInt8}
    (h : m.processCharacter c = (m', .ok ())) : m'.payload.length = m.payload.length + 1 := by
  unfold processCharacter at h
  split at h
  · rw [← (Prod.mk.inj h).1]
    exact List.length_append
  · rw [← (Prod.mk.inj h).1]
    exact List.length_append

theorem ControlMessage.processPayload_append_of_lt {xs : List UInt8} {size : Nat}
    (m : ControlMessage) (hxs : xs.length < size) :
    (∃ m' rest e, m.processPayload xs size = (m', rest, .error e) ∧
      ∀ ys, m.processPayload (xs ++ ys) size = (m', rest ++ ys, .error e)) ∨
    ∃ m', m.processPayload xs size = (m', [], .ok xs.length) ∧
      ∀ ys, ∃ m'' rest out,
        ControlMessage.processPayload m' ys (size - xs.length) = (m'', rest, out) ∧
        m.processPayload (xs ++ ys) size = (m'', rest, out.map (· + xs.length)) :=
  fillPayload_append_of_lt (@length_processCharacter) hxs m

namespace Hybi

/-- With the whole payload, the message does not look further. -/
theorem fillMessage_append_of_le {p : Hybi} {xs : List UInt8} (hxs : p.payloadLeft ≤ xs.length)
    (ys : List UInt8) : p.fillMessage (xs ++ ys) =
      ((p.fillMessage xs).1, (p.fillMessage xs).2.1 ++ ys, (p.fillMessage xs).2.2) := by
  unfold fillMessage
  split
  · cases p.controlMessage with
    | none => rfl
    | some m => simp only [ControlMessage.processPayload, fillPayload_append_of_le hxs]
  · cases p.dataMessage with
    | none => rfl
    | some m => simp only [DataMessage.processPayload, fillPayload_append_of_le hxs]

/-- With less, it goes on where it was. -/
theorem fillMessage_append_of_lt {p : Hybi} {xs : List UInt8} (hxs : xs.length < p.payloadLeft) :
    (∃ p' rest e, p.fillMessage xs = (p', rest, .error e) ∧
      ∀ ys, p.fillMessage (xs ++ ys) = (p', rest ++ ys, .error e)) ∨
    ∃ p', p.fillMessage xs = (p', [], .ok xs.length) ∧
      (p'.state = p.state ∧ p'.header = p.header ∧ p'.payloadLeft = p.payloadLeft) ∧
      ∀ ys, ∃ (q : Hybi) (rest : List UInt8) (out : Except Raised Nat),
        fillMessage { p' with payloadLeft := p.payloadLeft - xs.length } ys =
          ({ q with payloadLeft := p.payloadLeft - xs.length }, rest, out) ∧
        p.fillMessage (xs ++ ys) =
          ({ q with payloadLeft := p.payloadLeft }, rest, out.map (· + xs.length)) := by
  unfold fillMessage
  cases hcontrol : p.header.isControl with
  | true =>
    simp only [if_true]
    cases p.controlMessage with
    | none => exact Or.inl ⟨p, xs, _, rfl, fun ys => rfl⟩
    | some m =>
      rcases m.processPayload_append_of_lt hxs with
        ⟨m', rest, e, hfill, hmore⟩ | ⟨m', hfill, hmore⟩
      · refine Or.inl ⟨{ p with controlMessage := some m' }, rest, e, ?_, fun ys => ?_⟩
        · simp only [hfill]
        · simp only [hmore]
      · refine Or.inr ⟨{ p with controlMessage := some m' }, ?_, ⟨rfl, rfl, rfl⟩, fun ys => ?_⟩
        · simp only [hfill]
        · rcases hmore ys with ⟨m'', rest, out, hrest, hall⟩
          refine ⟨{ p with controlMessage := some m'' }, rest, out, ?_, ?_⟩
          · simp only [hcontrol, if_true, hrest]
          · simp only [hall]
  | false =>
    simp only [Bool.false_eq_true, if_false]
    cases p.dataMessage with
    | none => exact Or.inl ⟨p, xs, _, rfl, fun ys => rfl⟩
    | some m =>
      rcases m.processPayload_append_of_lt hxs with
        ⟨m', rest, e, hfill, hmore⟩ | ⟨m', hfill, hmore⟩
      · refine Or.inl ⟨{ p with dataMessage := some m' }, rest, e, ?_, fun ys => ?_⟩
        · simp only [hfill]
        · simp only [hmore]
      · refine Or.inr ⟨{ p with dataMessage := some m' }, ?_, ⟨rfl, rfl, rfl⟩, fun ys => ?_⟩
        · simp only [hfill]
        · rcases hmore ys with ⟨m'', rest, out, hrest, hall⟩
          refine ⟨{ p with dataMessage := some m'' }, rest, out, ?_, ?_⟩
          · simp only [hcontrol, Bool.false_eq_true, if_false, hrest]
          · simp only [hall]

/-- What a call of `fillMessage` that does not raise has done. -/
theorem fillMessage_ok {p p' : Hybi} {xs rest : List UInt8} {written : Nat}
    (h : p.fillMessage xs = (p', rest, .ok written)) :
    rest = xs.drop p.payloadLeft ∧ written = min p.payloadLeft xs.length ∧
      p'.state = p.state ∧ p'.header = p.header ∧ p'.payloadLeft = p.payloadLeft := by
  unfold fillMessage at h
  split at h
  · cases hm : p.controlMessage with
    | none =>
      simp only [hm] at h
      cases h
    | some m =>
      simp only [hm] at h
      rcases hfill : m.processPayload xs p.payloadLeft with ⟨m', rest', out⟩
      simp only [hfill] at h
      cases h
      unfold ControlMessage.processPayload fillPayload at hfill
      split at hfill
      · cases hfill
      · rcases Feed.eat_ok hfill with ⟨hrest, hwritten⟩
        exact ⟨hrest, hwritten, rfl, rfl, rfl⟩
  · cases hm : p.dataMessage with
    | none =>
      simp only [hm] at h
      cases h
    | some m =>
      simp only [hm] at h
      rcases hfill : m.processPayload xs p.payloadLeft with ⟨m', rest', out⟩
      simp only [hfill] at h
      cases h
      unfold DataMessage.processPayload fillPayload at hfill
      split at hfill
      · cases hfill
      · rcases Feed.eat_ok hfill with ⟨hrest, hwritten⟩
        exact ⟨hrest, hwritten, rfl, rfl, rfl⟩

/-! ### One round -/

/-- The header of a processor is sound whatever it has read. -/
def Sound (p : Hybi) : Prop := p.header.Sound

/-- The state `process_frame` leads to, when it does not raise: ready, or a header to come. -/
theorem processFrame_ok {p p' : Hybi} (h : p.processFrame = (p', .ok ())) :
    p' = { p with state := .ready } ∨ p' = p.reset := by
  unfold processFrame at h
  split at h
  · split at h
    · cases h
    · left
      rw [← (Prod.mk.inj h).1]
  · right
    rw [← (Prod.mk.inj h).1]

/-- What is wanted behind a frame that was processed. -/
theorem wants_of_processFrame {p p' : Hybi} (h : p.processFrame = (p', .ok ())) :
    0 < p'.wanted ∨ p'.state = .ready := by
  rcases processFrame_ok h with rfl | rfl
  · exact Or.inr rfl
  · exact Or.inl (show 0 < 2 by decide)

theorem sound_processFrame {p : Hybi} (hp : p.Sound) : p.processFrame.1.Sound := by
  unfold processFrame
  split
  · split
    · exact hp
    · exact hp
  · exact p.header.sound_reset

theorem wants_of_finishPayload {p p' : Hybi} {written : Nat} (hstate : p.state = .readPayload)
    (h : p.finishPayload written = (p', .ok ())) : 0 < p'.wanted ∨ p'.state = .ready := by
  unfold finishPayload at h
  simp only at h
  split at h
  · exact wants_of_processFrame h
  · rename_i hleft
    left
    rw [← (Prod.mk.inj h).1, wanted, hstate]
    exact Nat.pos_of_ne_zero hleft

theorem sound_finishPayload {p : Hybi} (hp : p.Sound) (written : Nat) :
    (p.finishPayload written).1.Sound := by
  unfold finishPayload
  simp only
  split
  · exact sound_processFrame hp
  · exact hp

/-- Behind the header of a frame its payload is read, or the frame has been processed. -/
theorem wants_of_processControlHeader {p p' : Hybi}
    (h : p.processControlHeader = (p', .ok ())) : 0 < p'.wanted ∨ p'.state = .ready := by
  unfold processControlHeader at h
  simp only at h
  split at h
  · exact wants_of_processFrame h
  · rename_i hleft
    left
    rw [← (Prod.mk.inj h).1, wanted]
    exact Nat.pos_of_ne_zero hleft

theorem wants_of_beginPayload {p p' : Hybi} {m : DataMessage}
    (h : p.beginPayload m = (p', .ok ())) : 0 < p'.wanted ∨ p'.state = .ready := by
  unfold beginPayload at h
  simp only at h
  split at h
  · exact wants_of_processFrame h
  · rename_i hleft
    left
    rw [← (Prod.mk.inj h).1, wanted]
    exact Nat.pos_of_ne_zero hleft

theorem wants_of_processDataHeader {p p' : Hybi} {pool : Option Failure}
    (h : p.processDataHeader pool = (p', .ok ())) : 0 < p'.wanted ∨ p'.state = .ready := by
  unfold processDataHeader at h
  split at h
  · split at h
    · cases h
    split at h
    · cases h
    · exact wants_of_beginPayload h
  · split at h
    · cases h
    · exact wants_of_beginPayload h

theorem sound_processControlHeader {p : Hybi} (hp : p.Sound) : p.processControlHeader.1.Sound := by
  unfold processControlHeader
  simp only
  split
  · exact sound_processFrame (p := { p with
      controlMessage := some (.reset p.header.getOpcode p.header.getMaskingKey),
      payloadLeft := p.header.payloadSize }) hp
  · exact hp

theorem sound_beginPayload {p : Hybi} (hp : p.Sound) (m : DataMessage) :
    (p.beginPayload m).1.Sound := by
  unfold beginPayload
  simp only
  split
  · exact sound_processFrame (p := { p with
      dataMessage := some m, payloadLeft := p.header.payloadSize }) hp
  · exact hp

theorem sound_processDataHeader {p : Hybi} (hp : p.Sound) (pool : Option Failure) :
    (p.processDataHeader pool).1.Sound := by
  unfold processDataHeader
  split
  · split
    · exact hp
    split
    · exact hp
    · exact sound_beginPayload hp _
  · split
    · exact hp
    · exact sound_beginPayload hp _

/-- The message is all that `fillMessage` changes. -/
theorem fillMessage_kept (p : Hybi) (xs : List UInt8) :
    (p.fillMessage xs).1.state = p.state ∧ (p.fillMessage xs).1.header = p.header ∧
      (p.fillMessage xs).1.payloadLeft = p.payloadLeft := by
  unfold fillMessage
  split
  · cases p.controlMessage with
    | none => exact ⟨rfl, rfl, rfl⟩
    | some m => exact ⟨rfl, rfl, rfl⟩
  · cases p.dataMessage with
    | none => exact ⟨rfl, rfl, rfl⟩
    | some m => exact ⟨rfl, rfl, rfl⟩

theorem sound_processHeader {p : Hybi} (hp : p.Sound) (pool : Option Failure)
    (input : List UInt8) : (p.processHeader pool input).1.Sound := by
  have hheader := HybiHeader.sound_consume hp input
  unfold processHeader
  rcases hconsume : p.header.consume input with ⟨header, rest, e | u⟩
  · rw [hconsume] at hheader
    exact hheader
  · rw [hconsume] at hheader
    have hp' : Sound { p with header := header } := hheader
    simp only
    split
    · exact hp'
    split
    · exact sound_processControlHeader hp'
    · exact sound_processDataHeader hp' pool

theorem sound_processPayload {p : Hybi} (hp : p.Sound) (input : List UInt8) :
    (p.processPayload input).1.Sound := by
  have hfilled : (p.fillMessage input).1.Sound := by
    rw [Sound, (fillMessage_kept p input).2.1]
    exact hp
  unfold processPayload
  rcases hfill : p.fillMessage input with ⟨p', rest, e | written⟩
  · rw [hfill] at hfilled
    exact hfilled
  · rw [hfill] at hfilled
    exact sound_finishPayload hfilled written

theorem sound_round {p : Hybi} (hp : p.Sound) (pool : Option Failure) (input : List UInt8) :
    (p.round pool input).1.Sound := by
  unfold round
  cases p.state with
  | readHeader => exact sound_processHeader hp pool input
  | readPayload => exact sound_processPayload hp input
  | ready => exact hp

/-- Behind an exception, where the stream was cut shows in how much of the payload is left. -/
def SameButLeft (p q : Hybi) : Prop := { p with payloadLeft := 0 } = { q with payloadLeft := 0 }

theorem sameButLeft_caught {p q : Hybi} (h : SameButLeft p q) (e : Raised) :
    SameButLeft (p.caught e) (q.caught e) := by
  have hheader : p.header = q.header := (Hybi.mk.inj h).2.2.2.1
  unfold caught
  cases e with
  | exception error what =>
    simp only [hheader]
    split
    · unfold SameButLeft at h ⊢
      rw [Hybi.mk.injEq] at h ⊢
      exact ⟨h.1, h.2.1, h.2.2.1, rfl, rfl⟩
    · exact h
  | failure e => exact h
  | outOfBounds => exact h
  | nullMessage => exact h

section Rounds

variable {p p' : Hybi} {pool : Option Failure} {xs rest : List UInt8}

theorem wanted_readHeader (hstate : p.state = .readHeader) (hheader : p.header.state ≠ .ready) :
    p.wanted = p.header.bytesNeeded := by
  rw [wanted, hstate]
  exact if_neg hheader

theorem wanted_readPayload (hstate : p.state = .readPayload) : p.wanted = p.payloadLeft := by
  rw [wanted, hstate]

theorem round_readHeader (hstate : p.state = .readHeader) :
    p.round pool xs = p.processHeader pool xs := by
  rw [round, hstate]

theorem round_readPayload (hstate : p.state = .readPayload) :
    p.round pool xs = p.processPayload xs := by
  rw [round, hstate]

/-- A round that gets what it wants does not look further. -/
theorem round_append_of_le (hready : p.state ≠ .ready) (hxs : p.wanted ≤ xs.length)
    (ys : List UInt8) : p.round pool (xs ++ ys) =
      ((p.round pool xs).1, (p.round pool xs).2.1 ++ ys, (p.round pool xs).2.2) := by
  cases hstate : p.state with
  | readHeader =>
    rw [round_readHeader hstate, round_readHeader hstate]
    have hheader : p.header.consume (xs ++ ys) = ((p.header.consume xs).1,
        (p.header.consume xs).2.1 ++ ys, (p.header.consume xs).2.2) := by
      by_cases hh : p.header.state = .ready
      · simp only [HybiHeader.consume, hh]
      · rw [wanted_readHeader hstate hh] at hxs
        exact HybiHeader.consume_append_of_le hh hxs ys
    unfold processHeader
    rw [hheader]
    rcases p.header.consume xs with ⟨header, rest, e | u⟩
    · rfl
    · simp only
      split
      · rfl
      split
      · rfl
      · rfl
  | readPayload =>
    rw [wanted_readPayload hstate] at hxs
    rw [round_readPayload hstate, round_readPayload hstate]
    unfold processPayload
    rw [fillMessage_append_of_le hxs]
    rcases p.fillMessage xs with ⟨p', rest, e | written⟩
    · rfl
    · rfl
  | ready => exact absurd hstate hready

/-- It uses what it wants. -/
theorem round_uses (hready : p.state ≠ .ready)
    (hround : p.round pool xs = (p', rest, .ok ())) : rest = xs.drop p.wanted := by
  cases hstate : p.state with
  | readHeader =>
    rw [round_readHeader hstate] at hround
    unfold processHeader at hround
    rcases hconsume : p.header.consume xs with ⟨header, rest₁, e | u⟩
    · simp only [hconsume] at hround
      cases hround
    · have hrest := HybiHeader.rest_of_consume hconsume
      have hkept : rest = rest₁ := by
        simp only [hconsume] at hround
        split at hround
        · exact (Prod.mk.inj (Prod.mk.inj hround).2).1.symm
        split at hround
        · exact (Prod.mk.inj (Prod.mk.inj hround).2).1.symm
        · exact (Prod.mk.inj (Prod.mk.inj hround).2).1.symm
      rw [hkept, hrest, wanted, hstate]
      split
      · rfl
      · rfl
  | readPayload =>
    rw [round_readPayload hstate] at hround
    unfold processPayload at hround
    rcases hfill : p.fillMessage xs with ⟨p₁, rest₁, e | written⟩
    · simp only [hfill] at hround
      cases hround
    · simp only [hfill] at hround
      rw [← (Prod.mk.inj (Prod.mk.inj hround).2).1, wanted_readPayload hstate]
      exact (fillMessage_ok hfill).1
  | ready => exact absurd hstate hready

/-- Behind a round that wants nothing something is wanted, or the frame is complete. -/
theorem round_wants (hready : p.state ≠ .ready) (hwanted : p.wanted = 0)
    (hround : p.round pool xs = (p', rest, .ok ())) : 0 < p'.wanted ∨ p'.state = .ready := by
  cases hstate : p.state with
  | readHeader =>
    rw [round_readHeader hstate] at hround
    unfold processHeader at hround
    rcases hconsume : p.header.consume xs with ⟨header, rest₁, e | u⟩
    · simp only [hconsume] at hround
      cases hround
    simp only [hconsume] at hround
    split at hround
    · rename_i hheader
      have hneeded : 0 < header.bytesNeeded := by
        by_cases hh : p.header.state = .ready
        · simp only [HybiHeader.consume, hh] at hconsume
          rw [← (Prod.mk.inj hconsume).1] at hheader
          exact absurd hh hheader
        · rw [wanted_readHeader hstate hh] at hwanted
          rw [HybiHeader.consume_eq hh, HybiHeader.readUpTo, hwanted, List.take_zero,
            if_pos rfl] at hconsume
          simp only [hwanted, if_true] at hconsume
          have hadvance : p.header.advance = (header, .ok ()) := by
            rw [← (Prod.mk.inj hconsume).1, ← (Prod.mk.inj (Prod.mk.inj hconsume).2).2]
          rcases HybiHeader.wants_of_advance hh hadvance with hdone | hneeded
          · exact absurd hdone hheader
          · exact hneeded
      left
      rw [← (Prod.mk.inj hround).1]
      rw [wanted, hstate]
      simp only [if_neg hheader]
      exact hneeded
    split at hround
    · apply wants_of_processControlHeader
      rw [← (Prod.mk.inj hround).1, ← (Prod.mk.inj (Prod.mk.inj hround).2).2]
    · apply @wants_of_processDataHeader _ _ pool
      rw [← (Prod.mk.inj hround).1, ← (Prod.mk.inj (Prod.mk.inj hround).2).2]
  | readPayload =>
    rw [round_readPayload hstate] at hround
    unfold processPayload at hround
    rcases hfill : p.fillMessage xs with ⟨p₁, rest₁, e | written⟩
    · simp only [hfill] at hround
      cases hround
    · simp only [hfill] at hround
      apply wants_of_finishPayload ((fillMessage_ok hfill).2.2.1.trans hstate)
      rw [← (Prod.mk.inj hround).1, ← (Prod.mk.inj (Prod.mk.inj hround).2).2]
  | ready => exact absurd hstate hready

/-- A round that gets less and raises would raise on more. -/
theorem round_short_raised {e : Raised} (hp : p.Sound) (hready : p.state ≠ .ready)
    (hxs : xs.length < p.wanted) (hround : p.round pool xs = (p', rest, .error e))
    (ys : List UInt8) : p.round pool (xs ++ ys) = (p', rest ++ ys, .error e) := by
  cases hstate : p.state with
  | readHeader =>
    rw [round_readHeader hstate] at hround ⊢
    have hheader : p.header.state ≠ .ready := by
      intro hh
      rw [wanted, hstate, hh] at hxs
      exact absurd hxs (Nat.not_lt_zero _)
    rw [wanted_readHeader hstate hheader] at hxs
    unfold processHeader at hround ⊢
    rcases HybiHeader.consume_append_of_lt hp hheader hxs with
      ⟨hraised, hmore⟩ | ⟨r, hok, hsame, hneeded, hmore⟩
    · simp only [hraised] at hround
      simp only [hmore]
      cases hround
      rfl
    · simp only [hok] at hround
      rw [if_pos (hsame ▸ hheader)] at hround
      cases hround
  | readPayload =>
    rw [wanted_readPayload hstate] at hxs
    rw [round_readPayload hstate] at hround ⊢
    unfold processPayload at hround ⊢
    rcases fillMessage_append_of_lt hxs with ⟨p₁, rest₁, e₁, hfill, hmore⟩ | ⟨p₁, hfill, hkept, -⟩
    · simp only [hfill] at hround
      simp only [hmore]
      cases hround
      rfl
    · simp only [hfill, finishPayload, hkept.2.2] at hround
      have hleft : p.payloadLeft - xs.length ≠ 0 := by omega
      rw [if_neg hleft] at hround
      cases hround
  | ready => exact absurd hstate hready

/-- A round that gets less and does not raise has taken all of it, and goes on where it was. -/
theorem round_short_ok (hp : p.Sound) (hready : p.state ≠ .ready) (hxs : xs.length < p.wanted)
    (hround : p.round pool xs = (p', rest, .ok ())) :
    p'.state ≠ .ready ∧ rest = [] ∧ p'.wanted + xs.length = p.wanted ∧
      ∀ ys, p.round pool (xs ++ ys) = p'.round pool ys ∨
        ∃ e a b back, p.round pool (xs ++ ys) = (a, back, .error e) ∧
          p'.round pool ys = (b, back, .error e) ∧ SameButLeft (a.caught e) (b.caught e) := by
  cases hstate : p.state with
  | readHeader =>
    rw [round_readHeader hstate] at hround
    have hheader : p.header.state ≠ .ready := by
      intro hh
      rw [wanted, hstate, hh] at hxs
      exact absurd hxs (Nat.not_lt_zero _)
    rw [wanted_readHeader hstate hheader] at hxs ⊢
    unfold processHeader at hround
    rcases HybiHeader.consume_append_of_lt hp hheader hxs with
      ⟨hraised, -⟩ | ⟨r, hok, hsame, hneeded, hmore⟩
    · simp only [hraised] at hround
      cases hround
    · have hr : r.state ≠ .ready := hsame ▸ hheader
      simp only [hok] at hround
      rw [if_pos hr] at hround
      have hp' := (Prod.mk.inj hround).1
      have hstate' : p'.state = .readHeader := by rw [← hp', hstate]
      refine ⟨by rw [hstate']; exact nofun, (Prod.mk.inj (Prod.mk.inj hround).2).1.symm, ?_, ?_⟩
      · rw [← hneeded, ← hp', wanted, hstate]
        simp only [if_neg hr]
      · intro ys
        left
        rw [round_readHeader hstate, round_readHeader hstate', processHeader, processHeader,
          ← hp', hmore]
  | readPayload =>
    rw [wanted_readPayload hstate] at hxs ⊢
    rw [round_readPayload hstate] at hround
    unfold processPayload at hround
    rcases fillMessage_append_of_lt hxs with ⟨p₁, rest₁, e₁, hfill, -⟩ | ⟨p₁, hfill, hkept, hmore⟩
    · simp only [hfill] at hround
      cases hround
    · have hleft : p.payloadLeft - xs.length ≠ 0 := by omega
      simp only [hfill, finishPayload, hkept.2.2] at hround
      rw [if_neg hleft] at hround
      have hp' := (Prod.mk.inj hround).1
      have hstate' : p'.state = .readPayload := by
        rw [← hp']
        exact hkept.1.trans hstate
      refine ⟨by rw [hstate']; exact nofun, (Prod.mk.inj (Prod.mk.inj hround).2).1.symm, ?_, ?_⟩
      · rw [wanted_readPayload hstate', ← hp']
        exact Nat.sub_add_cancel (Nat.le_of_lt hxs)
      · intro ys
        rcases hmore ys with ⟨q, rest', out, hrest, hall⟩
        rw [show { p₁ with payloadLeft := p.payloadLeft - xs.length } = p' from hp'] at hrest
        rw [round_readPayload hstate, round_readPayload hstate', processPayload, processPayload,
          hrest, hall]
        cases out with
        | error e =>
          right
          have hsame : SameButLeft { q with payloadLeft := p.payloadLeft }
              { q with payloadLeft := p.payloadLeft - xs.length } := rfl
          exact ⟨e, _, _, rest', rfl, rfl, sameButLeft_caught hsame e⟩
        | ok written =>
          left
          have hsum : p.payloadLeft - (written + xs.length) =
              p.payloadLeft - xs.length - written := by omega
          simp only [Except.map, finishPayload, hsum]
  | ready => exact absurd hstate hready

end Rounds

/-! ### Whole streams -/

theorem reader_lawful (pool : Option Failure) : (reader pool).Lawful Sound SameButLeft where
  trans hab hbc := hab.trans hbc
  inv := by
    intro p p' input rest hp hround
    have hsound := sound_round hp pool input
    rw [show p.round pool input = (p', rest, .ok ()) from hround] at hsound
    exact hsound
  long := by
    intro p xs hp hready hxs ys
    exact round_append_of_le (of_decide_eq_false hready) hxs ys
  uses := by
    intro p p' xs rest hp hready hxs hround
    rw [round_uses (of_decide_eq_false hready) hround, List.length_drop]
    exact Nat.sub_add_cancel hxs
  wants := by
    intro p p' xs rest hp hready hwanted hround
    rcases round_wants (of_decide_eq_false hready) hwanted hround with hnext | hnext
    · exact Or.inl hnext
    · exact Or.inr (decide_eq_true hnext)
  short_raised := by
    intro p p' xs rest e hp hready hxs hround ys
    exact round_short_raised hp (of_decide_eq_false hready) hxs hround ys
  short_ok := by
    intro p p' xs rest hp hready hxs hround
    rcases round_short_ok hp (of_decide_eq_false hready) hxs hround with
      ⟨hnext, hrest, hwanted, hmore⟩
    exact ⟨decide_eq_false hnext, hrest, hwanted, hmore⟩

theorem sound_initial : initial.Sound := HybiHeader.sound_initial

theorem sound_reset (p : Hybi) : p.reset.Sound := p.header.sound_reset

theorem sound_caught {p : Hybi} (hp : p.Sound) (e : Raised) : (p.caught e).Sound := by
  unfold caught
  cases e with
  | exception error what =>
    simp only
    split
    · exact p.header.sound_reset
    · exact hp
  | failure e => exact hp
  | outOfBounds => exact hp
  | nullMessage => exact hp

/-- The recursion equation of `consume`. -/
theorem consume_eq {p : Hybi} (hp : p.Sound) (pool : Option Failure) (input : List UInt8) :
    p.consume pool input =
      if p.state = .ready then (p, input, .stopped)
      else
        match p.round pool input with
        | (p', rest, .error e) => (p'.caught e, rest, .raised e)
        | (p', rest, .ok _) =>
            if input.length < p.wanted then (p', rest, .starved) else p'.consume pool rest := by
  have hround : (reader pool).round p input = p.round pool input := rfl
  have hstopped : (reader pool).stopped p = decide (p.state = .ready) := rfl
  rw [consume, (reader_lawful pool).read_eq hp input, hround, hstopped]
  by_cases hready : p.state = .ready
  · rw [if_pos (decide_eq_true hready), if_pos hready]
  · rw [if_neg (ne_true_of_eq_false (decide_eq_false hready)), if_neg hready]
    rcases p.round pool input with ⟨p', rest, e | u⟩
    · rfl
    · rfl

/-- The processor is sound behind every call of `consume`, also one that raises. -/
theorem sound_consume {p : Hybi} (hp : p.Sound) (pool : Option Failure) (input : List UInt8) :
    (p.consume pool input).1.Sound := by
  induction hn : (reader pool).budget p input using Nat.strongRecOn generalizing p input with
  | ind n ih =>
    rw [consume_eq hp]
    split
    · exact hp
    rename_i hready
    have hround := sound_round hp pool input
    rcases hr : p.round pool input with ⟨p', rest, e | u⟩
    · rw [hr] at hround
      exact sound_caught hround e
    · rw [hr] at hround
      by_cases hstarved : input.length < p.wanted
      · simp only [hstarved, if_true]
        exact hround
      · simp only [hstarved, if_false]
        have hless := (reader_lawful pool).budget_lt hp (decide_eq_false hready)
          (Nat.not_lt.mp hstarved) hr
        exact ih _ (hn ▸ hless) hround rest rfl

/-- The stream in pieces, each read when the ones before it have been used up. -/
def feed (p : Hybi) (pool : Option Failure) (pieces : List (List UInt8)) :
    Feed.Outcome Hybi UInt8 Raised :=
  (reader pool).feed p pieces

/-- The pieces agree with the whole. -/
theorem feed_cases {p : Hybi} (hp : p.Sound) (pool : Option Failure)
    {pieces : List (List UInt8)} (hpieces : pieces ≠ []) :
    p.feed pool pieces = p.consume pool pieces.flatten ∨
      ∃ e, (p.feed pool pieces).2.2 = .raised e ∧
        (p.consume pool pieces.flatten).2.2 = .raised e ∧
        (p.feed pool pieces).2.1 = (p.consume pool pieces.flatten).2.1 ∧
        SameButLeft (p.feed pool pieces).1 (p.consume pool pieces.flatten).1 := by
  rcases (reader_lawful pool).feed_agrees hp hpieces with
    hsame | ⟨e, hwhole, hcut, hrest, hsame⟩
  · exact Or.inl hsame.symm
  · exact Or.inr ⟨e, hcut, hwhole, hrest.symm, hsame.symm⟩

/-- What can become of a processor: the constructor, calls of `consume` that stay within the
    array, and messages that are taken. -/
inductive Reached : Hybi → Prop
  | initial : Reached initial
  | consume {p : Hybi} (pool : Option Failure) (input : List UInt8) : Reached p →
      (p.consume pool input).2.2 ≠ .raised .outOfBounds → Reached (p.consume pool input).1
  | reset {p : Hybi} : Reached p → p.state = .ready → Reached p.reset
  | taken {p : Hybi} : Reached p → p.state = .ready → Reached p.taken

theorem Reached.sound {p : Hybi} (h : Reached p) : p.Sound := by
  induction h with
  | initial => exact sound_initial
  | consume pool input hp hin ih => exact sound_consume ih pool input
  | reset hp hready ih => exact sound_reset _
  | taken hp hready ih =>
    unfold Hybi.taken
    split
    · exact sound_reset _
    · exact sound_reset _

end Hybi

/-- **Where the stream is cut makes no difference.**  Whatever pieces the bytes of a stream
    come in, the processor ends as if they had come at once: with the same message or the same
    exception, and with the same bytes left.  Only behind an exception may it differ, and only
    in how much of the payload it believes to be left. -/
theorem consume_of_pieces {p : Hybi} (hp : p.Reached) (pool : Option Failure)
    {pieces : List (List UInt8)} (hpieces : pieces ≠ []) :
    p.feed pool pieces = p.consume pool pieces.flatten ∨
      ∃ e, (p.feed pool pieces).2.2 = .raised e ∧
        (p.consume pool pieces.flatten).2.2 = .raised e ∧
        (p.feed pool pieces).2.1 = (p.consume pool pieces.flatten).2.1 ∧
        { (p.feed pool pieces).1 with payloadLeft := 0 } =
          { (p.consume pool pieces.flatten).1 with payloadLeft := 0 } :=
  Hybi.feed_cases hp.sound pool hpieces

/-- The header of a text in two pieces. -/
theorem consume_of_pieces_text :
    Hybi.initial.feed none [[0x81], [0x01, 0x61]] = Hybi.initial.consume none [0x81, 0x01, 0x61] ∨
      ∃ e, (Hybi.initial.feed none [[0x81], [0x01, 0x61]]).2.2 = .raised e ∧
        (Hybi.initial.consume none [0x81, 0x01, 0x61]).2.2 = .raised e ∧
        (Hybi.initial.feed none [[0x81], [0x01, 0x61]]).2.1 =
          (Hybi.initial.consume none [0x81, 0x01, 0x61]).2.1 ∧
        { (Hybi.initial.feed none [[0x81], [0x01, 0x61]]).1 with payloadLeft := 0 } =
          { (Hybi.initial.consume none [0x81, 0x01, 0x61]).1 with payloadLeft := 0 } :=
  consume_of_pieces .initial none (List.cons_ne_nil _ _)

end SocketIOStress
