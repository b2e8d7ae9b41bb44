import SocketIOStress.Hybi.Assembly

/-!
# Frames that are written

`prepare_frame` and `prepare_close_frame`: what they accept, and that a processor
at the other end comes to the messages that were prepared.
-/

namespace SocketIOStress

open Octets

namespace Hybi

/-! ### prepare_frame

`w` is `m_write_header`, of which only the payload size outlives a call, and
nothing reads that before it is set. -/

/-- `prepare_frame`, with the key `rand` gives. -/
def prepareFrame (server : Bool) (key : MaskingKey) (w : HybiHeader) (m : DataMessage) :
    Except Raised DataMessage :=
  if m.prepared then .ok m
  else
    match m.validatePayload with
    | (_, .error e) => .error e
    | (m, .ok _) =>
        match FrameHeader.write m.opcode (!server) key m.payload.length w with
        | .error e => .error e
        | .ok w =>
            let m := { m with header := w.getHeaderBytes }
            let m := if !server then (m.setMaskingKey key).mask else m
            .ok { m with prepared := true }

/-- `prepare_close_frame`. -/
def prepareCloseFrame (server : Bool) (key : MaskingKey) (w : HybiHeader) (m : DataMessage)
    (code : Nat) (reason : List UInt8) : Except Raised DataMessage :=
  if m.prepared then .ok m
  else if code ≠ CloseStatus.noStatus then
    prepareFrame server key w ((m.setPayload (bigEndian 2 code)).appendPayload reason)
  else prepareFrame server key w m

/-- The message `send` and `pong` prepare. -/
def outgoing (op : FrameOpcode) (payload : List UInt8) : DataMessage :=
  (DataMessage.reset op).setPayload payload

/-- What `prepare_close_frame` puts into a message. -/
def closePayload (code : Nat) (reason : List UInt8) : List UInt8 :=
  if code = CloseStatus.noStatus then [] else bigEndian 2 code ++ reason

/-- What goes over the wire. -/
def written (m : DataMessage) : List UInt8 := m.header ++ m.payload

end Hybi

/-- A message that can be prepared. -/
structure Preparable (op : FrameOpcode) (payload : List UInt8) : Prop where
  not_reserved : op.reserved = false
  control : op.isControl = true → payload.length ≤ HybiHeader.payloadSizeBasic
  text : op = .text → Utf8Bytes payload
  size : payload.length ≤ HybiHeader.payloadSizeJumbo

namespace WireFrame

/-- The frame of a message that can be prepared. -/
def ofMessage {op : FrameOpcode} {payload : List UInt8} (h : Preparable op payload)
    (key : Option MaskingKey) : WireFrame where
  header :=
    { fin := true, opcode := op, key := key, size := payload.length,
      not_reserved := h.not_reserved, control := fun hcontrol => ⟨rfl, h.control hcontrol⟩,
      size_lt := Nat.lt_of_le_of_lt h.size (by decide) }
  payload := payload
  length_eq := rfl

end WireFrame

namespace Hybi

theorem validatePayload_outgoing (op : FrameOpcode) (payload : List UInt8) :
    (outgoing op payload).validatePayload.2 =
      if op = .text then
        if (Validator.reset.decodeBytes payload).2 &&
            (Validator.reset.decodeBytes payload).1.complete then .ok ()
        else .error (.failure (.runtimeError "Invalid UTF8 data"))
      else .ok () := by
  have hop : (outgoing op payload).opcode = op := rfl
  unfold DataMessage.validatePayload
  rw [hop]
  by_cases htext : op = .text
  · rw [if_pos htext, if_pos htext]
    rfl
  · rw [if_neg htext, if_neg htext]

/-- The payload is checked when it is a text. -/
theorem validatePayload_iff (op : FrameOpcode) (payload : List UInt8) :
    (outgoing op payload).validatePayload.2 = .ok () ↔ (op = .text → Utf8Bytes payload) := by
  rw [validatePayload_outgoing]
  by_cases htext : op = .text
  · rw [if_pos htext]
    cases haccepted : (Validator.reset.decodeBytes payload).2 with
    | false =>
      rw [Bool.false_and, if_neg Bool.false_ne_true]
      refine iff_of_false nofun (fun hutf8 => ?_)
      have hbegins := beginsUtf8_of_utf8Bytes (hutf8 htext)
      rw [← Validator.decodeBytes_reset_iff, haccepted] at hbegins
      cases hbegins
    | true =>
      have hcomplete := Validator.complete_decodeBytes_reset_iff haccepted
      rw [Bool.true_and]
      cases hresult : (Validator.reset.decodeBytes payload).1.complete with
      | false =>
        rw [hresult] at hcomplete
        rw [if_neg Bool.false_ne_true]
        exact iff_of_false nofun (fun hutf8 => Bool.false_ne_true (hcomplete.mpr (hutf8 htext)))
      | true =>
        rw [hresult] at hcomplete
        rw [if_pos rfl]
        exact iff_of_true rfl (fun _ => hcomplete.mp rfl)
  · rw [if_neg htext]
    exact iff_of_true rfl (fun hop => absurd hop htext)

/-- The header is all that depends on the fields of the message besides its payload. -/
theorem prepareFrame_outgoing (server : Bool) (key : MaskingKey) (w : HybiHeader)
    (op : FrameOpcode) (payload : List UInt8) :
    prepareFrame server key w (outgoing op payload) =
      match (outgoing op payload).validatePayload.2 with
      | .error e => .error e
      | .ok _ =>
          match FrameHeader.write op (!server) key payload.length w with
          | .error e => .error e
          | .ok w' =>
              let m := { (outgoing op payload).validatePayload.1 with header := w'.getHeaderBytes }
              .ok { (if !server then (m.setMaskingKey key).mask else m) with
                prepared := true } := by
  have hkept : (outgoing op payload).validatePayload.1.opcode = op ∧
      (outgoing op payload).validatePayload.1.payload = payload := by
    unfold DataMessage.validatePayload
    split
    · exact ⟨rfl, rfl⟩
    · exact ⟨rfl, rfl⟩
  have hprepared : (outgoing op payload).prepared = false := rfl
  rw [prepareFrame, hprepared]
  rcases hvalidate : (outgoing op payload).validatePayload with ⟨m, e | u⟩
  · rfl
  · rw [hvalidate] at hkept
    simp only at hkept
    simp only [hkept.1, hkept.2, Bool.false_eq_true, if_false]

/-- What was masked is the payload of the frame. -/
theorem payload_mask (m : DataMessage) (key : MaskingKey) :
    (m.setMaskingKey key).mask.payload = maskFrom key 0 m.payload := by
  by_cases hkey : key = .zero 4
  · rw [DataMessage.setMaskingKey, if_pos hkey, DataMessage.mask, hkey, maskFrom_zero]
  · rw [DataMessage.setMaskingKey, if_neg hkey, DataMessage.mask]

/-- A message that can be prepared is prepared as its frame. -/
theorem prepareFrame_ok (server : Bool) (key : MaskingKey) (w : HybiHeader) {op : FrameOpcode}
    {payload : List UInt8} (h : Preparable op payload) :
    ∃ m, prepareFrame server key w (outgoing op payload) = .ok m ∧ m.prepared = true ∧
      written m = (WireFrame.ofMessage h (if !server then some key else none)).bytes := by
  have hvalid := (validatePayload_iff op payload).mpr h.text
  rcases FrameHeader.write_spec
    (l := (WireFrame.ofMessage h (if !server then some key else none)).header) w rfl rfl h.size with
    ⟨w', hwrite, hbytes⟩
  have hwrite' : FrameHeader.write op (!server) key payload.length w = .ok w' := hwrite
  rw [prepareFrame_outgoing, hvalid]
  simp only [hwrite']
  have hpayload : (outgoing op payload).validatePayload.1.payload = payload := by
    unfold DataMessage.validatePayload
    split
    · rfl
    · rfl
  cases server with
  | true =>
    refine ⟨_, rfl, rfl, ?_⟩
    have hplain : maskFrom (WireFrame.ofMessage h none).key 0 payload = payload :=
      maskFrom_zero 0 payload
    exact congrArg₂ (· ++ ·) hbytes (hpayload.trans hplain.symm)
  | false =>
    refine ⟨_, rfl, rfl, ?_⟩
    have hmasked := payload_mask { (outgoing op payload).validatePayload.1 with
      header := w'.getHeaderBytes } key
    rw [hpayload] at hmasked
    have hheader : ∀ m : DataMessage, (m.setMaskingKey key).mask.header = m.header := by
      intro m
      unfold DataMessage.mask
      split
      · rfl
      · rfl
    exact congrArg₂ (· ++ ·) ((hheader _).trans hbytes) hmasked

/-! ### Close frames -/

/-- A close frame is prepared as the message with its code and its reason. -/
theorem prepareCloseFrame_eq (server : Bool) (key : MaskingKey) (w : HybiHeader) (code : Nat)
    (reason : List UInt8) :
    prepareCloseFrame server key w (DataMessage.reset .close) code reason =
      prepareFrame server key w (outgoing .close (closePayload code reason)) := by
  have hprepared : (DataMessage.reset .close).prepared = false := rfl
  rw [prepareCloseFrame, hprepared, if_neg Bool.false_ne_true, closePayload]
  by_cases hcode : code = CloseStatus.noStatus
  · rw [if_neg (not_not_intro hcode), if_pos hcode]
    rfl
  · rw [if_pos hcode, if_neg hcode]
    rfl

theorem textOf_bigEndian {code : Nat} (hcode : code < 2 ^ 16) :
    textOf (bigEndian 2 code) = [Char.ofNat (code / 256), Char.ofNat (code % 256)] := by
  have hhigh : (UInt8.ofNat (code / 256 ^ 1)).toNat = code / 256 := by
    rw [UInt8.toNat_ofNat', Nat.pow_one]
    omega
  have hlow : (UInt8.ofNat (code / 256 ^ 0)).toNat = code % 256 := by
    rw [UInt8.toNat_ofNat', Nat.pow_zero, Nat.div_one]
  simp only [textOf, bigEndian, List.map_cons, List.map_nil, hhigh, hlow]

/-- It is the close frame that is queued. -/
theorem textOf_closePayload {code : Nat} (hcode : code < 2 ^ 16) (reason : List UInt8) :
    textOf (closePayload code reason) = (closeFrame code (textOf reason)).payload := by
  rw [closePayload, closeFrame]
  by_cases hnone : code = CloseStatus.noStatus
  · rw [if_pos hnone, if_pos hnone]
    rfl
  · rw [if_neg hnone, if_neg hnone, textOf, List.map_append, ← textOf, ← textOf,
      textOf_bigEndian hcode]
    rfl

/-- A header that is written is one that could be read. -/
theorem write_ok {op : FrameOpcode} {masked : Bool} {key : MaskingKey} {size : Nat}
    {w w' : HybiHeader} (hwrite : FrameHeader.write op masked key size w = .ok w') :
    size ≤ HybiHeader.payloadSizeJumbo ∧ op.reserved = false ∧
      (op.isControl = true → size ≤ HybiHeader.payloadSizeBasic) := by
  by_cases hsize : size ≤ HybiHeader.payloadSizeJumbo
  · rcases FrameHeader.write_eq op masked key w hsize with ⟨h, rest, heq, hbytes⟩
    rw [heq, HybiHeader.complete] at hwrite
    rcases hvalid : h.validateBasicHeader with e | u
    · rw [hvalid] at hwrite
      cases hwrite
    rcases HybiHeader.validateBasicHeader_ok hvalid with ⟨hcontrol, -, -, -, hreserved⟩
    rcases HybiHeader.get_of_bytes hbytes with ⟨hfirst, hsecond⟩
    have hopcode : h.getOpcode = op := by
      rw [HybiHeader.getOpcode, hfirst]
      exact (FrameHeader.firstByte_fields true op).2.2.2.2
    have hcode : h.getBasicSize = FrameHeader.sizeCode size := by
      rw [HybiHeader.getBasicSize, hsecond]
      exact (FrameHeader.secondByte_fields masked (FrameHeader.sizeCode_lt size)).2
    rw [hopcode] at hreserved
    refine ⟨hsize, hreserved, fun hop => ?_⟩
    have hsmall := (hcontrol (by rw [HybiHeader.isControl, hopcode]; exact hop)).2
    rw [hcode, FrameHeader.sizeCode] at hsmall
    by_cases hbasic : size ≤ HybiHeader.payloadSizeBasic
    · exact hbasic
    · rw [if_neg hbasic] at hsmall
      split at hsmall
      · exact absurd hsmall (by decide)
      · exact absurd hsmall (by decide)
  · -- a size that does not fit is refused before the header is checked
    rcases FrameHeader.setMasked_bytes masked key (FrameHeader.setOpcode_bytes op w) with
      ⟨h₁, hmasked, -⟩
    have hlarge : h₁.setPayloadSize size = .error (.exception .messageTooBig
        "set_payload_size called with value that was too large (>2^63)".toList) := by
      have hbasic : ¬ size ≤ HybiHeader.payloadSizeBasic := by
        intro hbasic
        exact hsize (Nat.le_trans hbasic (by decide))
      have hextended : ¬ size ≤ HybiHeader.payloadSizeExtended := by
        intro hextended
        exact hsize (Nat.le_trans hextended (by decide))
      rw [HybiHeader.setPayloadSize, if_neg hbasic, if_neg hextended, if_neg hsize]
    rw [FrameHeader.write, hmasked] at hwrite
    simp only [hlarge] at hwrite
    cases hwrite

end Hybi

/-- **What can be sent.**  `prepare_frame` refuses a payload exactly when it is a text that is
    not UTF-8, belongs to a control frame and is longer than 125 bytes, has a reserved opcode,
    or does not fit a header.  What it does not refuse goes over the wire as the frame of this
    message. -/
theorem prepareFrame_iff (server : Bool) (key : MaskingKey) (w : HybiHeader) (op : FrameOpcode)
    (payload : List UInt8) :
    ((∃ m, Hybi.prepareFrame server key w (Hybi.outgoing op payload) = .ok m) ↔
      Preparable op payload) ∧
    ∀ (h : Preparable op payload) (m : DataMessage),
      Hybi.prepareFrame server key w (Hybi.outgoing op payload) = .ok m →
        Hybi.written m = (WireFrame.ofMessage h (if !server then some key else none)).bytes := by
  constructor
  · constructor
    · rintro ⟨m, hm⟩
      rw [Hybi.prepareFrame_outgoing] at hm
      rcases hvalid : (Hybi.outgoing op payload).validatePayload.2 with e | u
      · rw [hvalid] at hm
        cases hm
      rw [hvalid] at hm
      rcases hwrite : FrameHeader.write op (!server) key payload.length w with e | w'
      · simp only [hwrite] at hm
        cases hm
      rcases Hybi.write_ok hwrite with ⟨hsize, hreserved, hcontrol⟩
      exact ⟨hreserved, hcontrol, (Hybi.validatePayload_iff op payload).mp hvalid, hsize⟩
    · intro h
      rcases Hybi.prepareFrame_ok server key w h with ⟨m, hm, -⟩
      exact ⟨m, hm⟩
  · intro h m hm
    rcases Hybi.prepareFrame_ok server key w h with ⟨m', hm', -, hwritten⟩
    rw [hm] at hm'
    cases hm'
    exact hwritten

end SocketIOStress
