import SocketIOStress.Lib.Octets
import SocketIOStress.Wire

/-!
# websocketpp::processor::hybi_header

The header of a frame, read from a stream a few bytes at a time or written field
by field.  The bytes of a masking key are kept as they lie in memory; nothing
depends on the number they stand for.
-/

namespace SocketIOStress

open Octets

/-- `frame::opcode::value`. -/
inductive FrameOpcode where
  | continuation | text | binary | rsv3 | rsv4 | rsv5 | rsv6 | rsv7
  | close | ping | pong
  | controlRsvb | controlRsvc | controlRsvd | controlRsve | controlRsvf
deriving DecidableEq, Repr

namespace FrameOpcode

def value : FrameOpcode → UInt8
  | continuation => 0x0 | text => 0x1 | binary => 0x2 | rsv3 => 0x3
  | rsv4 => 0x4 | rsv5 => 0x5 | rsv6 => 0x6 | rsv7 => 0x7
  | close => 0x8 | ping => 0x9 | pong => 0xA | controlRsvb => 0xB
  | controlRsvc => 0xC | controlRsvd => 0xD | controlRsve => 0xE | controlRsvf => 0xF

/-- The cast from the four bits of a header. -/
def ofValue (bits : UInt8) : FrameOpcode :=
  match bits.toNat with
  | 0x0 => continuation | 0x1 => text | 0x2 => binary | 0x3 => rsv3
  | 0x4 => rsv4 | 0x5 => rsv5 | 0x6 => rsv6 | 0x7 => rsv7
  | 0x8 => close | 0x9 => ping | 0xA => pong | 0xB => controlRsvb
  | 0xC => controlRsvc | 0xD => controlRsvd | 0xE => controlRsve | _ => controlRsvf

def reserved (op : FrameOpcode) : Bool :=
  (0x3 ≤ op.value && op.value ≤ 0x7) || (0xB ≤ op.value && op.value ≤ 0xF)

def invalid (op : FrameOpcode) : Bool := 0xF < op.value

def isControl (op : FrameOpcode) : Bool := 0x8 ≤ op.value

end FrameOpcode

/-- The four bytes of an `int32_t`. -/
abbrev MaskingKey := Buffer 4

/-- How a call of the processor can end before it returns. -/
inductive Raised where
  /-- A `processor::exception`. -/
  | exception (error : ProcessorError) (what : Text)
  /-- Any other exception, or a failed assertion. -/
  | failure (e : Failure)
  /-- A write that starts or ends outside the array of the header. -/
  | outOfBounds
  /-- A call through a null message pointer. -/
  | nullMessage
deriving DecidableEq, Repr

inductive HeaderState where
  | basicHeader
  | extendedHeader
  | ready
deriving DecidableEq, Repr

structure HybiHeader where
  state : HeaderState
  bytesNeeded : Nat
  payloadSize : Nat
  header : Buffer 14
deriving DecidableEq, Repr

namespace HybiHeader

def basicHeaderLength : Nat := 2
def payloadSizeBasic : Nat := 125
def payloadSizeExtended : Nat := 0xFFFF
def payloadSizeJumbo : Nat := 0x7FFFFFFFFFFFFFFF

/-- `reset`, which leaves the payload size as it was. -/
def reset (h : HybiHeader) : HybiHeader :=
  { h with state := .basicHeader, bytesNeeded := basicHeaderLength, header := .zero 14 }

/-- The constructor. -/
def initial : HybiHeader := ⟨.basicHeader, basicHeaderLength, 0, .zero 14⟩

/-! ### Fields -/

def getFin (h : HybiHeader) : Bool := h.header.get 0 &&& 0x80 = 0x80
def getRsv1 (h : HybiHeader) : Bool := h.header.get 0 &&& 0x40 = 0x40
def getRsv2 (h : HybiHeader) : Bool := h.header.get 0 &&& 0x20 = 0x20
def getRsv3 (h : HybiHeader) : Bool := h.header.get 0 &&& 0x10 = 0x10
def getOpcode (h : HybiHeader) : FrameOpcode := .ofValue (h.header.get 0 &&& 0x0F)
def getMasked (h : HybiHeader) : Bool := h.header.get 1 &&& 0x80 = 0x80
def getBasicSize (h : HybiHeader) : Nat := (h.header.get 1 &&& 0x7F).toNat
def isControl (h : HybiHeader) : Bool := h.getOpcode.isControl

def getHeaderLen (h : HybiHeader) : Nat :=
  2 + (if h.getMasked then 4 else 0) +
    if h.getBasicSize = 126 then 2 else if h.getBasicSize = 127 then 8 else 0

theorem two_le_getHeaderLen (h : HybiHeader) : 2 ≤ h.getHeaderLen := by
  unfold getHeaderLen
  omega

theorem getHeaderLen_le (h : HybiHeader) : h.getHeaderLen ≤ 14 := by
  unfold getHeaderLen
  split
  · split
    · decide
    split
    · decide
    · decide
  · split
    · decide
    split
    · decide
    · decide

/-- `get_masking_key`: zero when the frame is not masked. -/
def getMaskingKey (h : HybiHeader) : MaskingKey :=
  if h.getMasked then
    h.header.slice (h.getHeaderLen - 4) 4 (by
      have := h.getHeaderLen_le
      have := h.two_le_getHeaderLen
      omega)
  else .zero 4

/-! ### Reading -/

def violation (what : Text) : Except Raised Unit := .error (.exception .protocolViolation what)

def validateBasicHeader (h : HybiHeader) : Except Raised Unit :=
  if h.isControl ∧ payloadSizeBasic < h.getBasicSize then
    violation "Control Frame is too large".toList
  else if h.getRsv1 ∨ h.getRsv2 ∨ h.getRsv3 then violation "Reserved bit used".toList
  else if h.getOpcode.reserved then violation "Reserved opcode used".toList
  else if h.getOpcode.invalid then violation "Invalid opcode used".toList
  else if h.isControl ∧ h.getFin = false then violation "Fragmented control message".toList
  else .ok ()

def processBasicHeader (h : HybiHeader) : HybiHeader :=
  { h with bytesNeeded := h.getHeaderLen - basicHeaderLength }

/-- The size is stored before it is checked. -/
def processExtendedHeader (h : HybiHeader) : HybiHeader × Except Raised Unit :=
  if h.getBasicSize ≤ payloadSizeBasic then ({ h with payloadSize := h.getBasicSize }, .ok ())
  else if h.getBasicSize = 126 then
    let size := value (h.header.read basicHeaderLength 2)
    ({ h with payloadSize := size },
      if size < 126 then
        violation
          ("payload length not minimally encoded. Using 16 bit form for payload size: ".toList ++
            Nat.toDigits 10 size)
      else .ok ())
  else if h.getBasicSize = 127 then
    let size := value (h.header.read basicHeaderLength 8)
    ({ h with payloadSize := size },
      if size ≤ payloadSizeExtended then violation "payload length not minimally encoded".toList
      else .ok ())
  else
    (h, .error (.exception .fatalError "invalid get_basic_size in process_extended_header".toList))

/-- `input.read` to the bytes before `stop` that are still needed; none when the first of
    them is not in the array.  What is read is taken off `m_bytes_needed`. -/
def readUpTo (h : HybiHeader) (stop : Nat) (input : List UInt8) : Option HybiHeader :=
  if input.take h.bytesNeeded = [] then some h
  else if stop < h.bytesNeeded then none
  else
    match h.header.write (stop - h.bytesNeeded) (input.take h.bytesNeeded) with
    | none => none
    | some header =>
        some { h with
          header := header,
          bytesNeeded := h.bytesNeeded - (input.take h.bytesNeeded).length }

/-- `process_extended_header`, behind which the header is ready. -/
def finish (h : HybiHeader) : HybiHeader × Except Raised Unit :=
  match h.processExtendedHeader with
  | (h, .error e) => (h, .error e)
  | (h, .ok _) => ({ h with state := .ready }, .ok ())

/-- What follows the last byte of the basic header. -/
def beginExtended (h : HybiHeader) : HybiHeader × Except Raised Unit :=
  match h.processBasicHeader.validateBasicHeader with
  | .error e => (h.processBasicHeader, .error e)
  | .ok _ =>
      if 0 < h.processBasicHeader.bytesNeeded then
        ({ h.processBasicHeader with state := .extendedHeader }, .ok ())
      else h.processBasicHeader.finish

/-- `consume`, with the bytes it leaves. -/
def consume (h : HybiHeader) (input : List UInt8) : HybiHeader × List UInt8 × Except Raised Unit :=
  match h.state with
  | .basicHeader =>
      match h.readUpTo basicHeaderLength input with
      | none => (h, input, .error .outOfBounds)
      | some r =>
          if r.bytesNeeded = 0 then
            (r.beginExtended.1, input.drop h.bytesNeeded, r.beginExtended.2)
          else (r, input.drop h.bytesNeeded, .ok ())
  | .extendedHeader =>
      match h.readUpTo h.getHeaderLen input with
      | none => (h, input, .error .outOfBounds)
      | some r =>
          if r.bytesNeeded = 0 then (r.finish.1, input.drop h.bytesNeeded, r.finish.2)
          else (r, input.drop h.bytesNeeded, .ok ())
  | .ready => (h, input, .ok ())

/-! ### Writing -/

/-- `set_header_bit`. -/
def setHeaderBit (h : HybiHeader) (bit : UInt8) (byte : Nat) (value : Bool) : HybiHeader :=
  { h with
    header := h.header.modify byte (fun b => if value then b ||| bit else b &&& (0xFF ^^^ bit)) }

def setFin (h : HybiHeader) (fin : Bool) : HybiHeader := h.setHeaderBit 0x80 0 fin

def setOpcode (h : HybiHeader) (op : FrameOpcode) : HybiHeader :=
  { h with header := h.header.modify 0 (fun b => (b &&& (0xFF ^^^ 0x0F)) ||| op.value) }

/-- Bytes copied within the array of the header. -/
def copyTo (h : HybiHeader) (offset : Nat) (bytes : List UInt8) : Except Raised HybiHeader :=
  match h.header.write offset bytes with
  | none => .error .outOfBounds
  | some header => .ok { h with header := header }

/-- `set_masked`; the key stands at the end of the header as it is now. -/
def setMasked (h : HybiHeader) (masked : Bool) (key : MaskingKey) : Except Raised HybiHeader :=
  let h := h.setHeaderBit 0x80 1 masked
  if masked then h.copyTo (h.getHeaderLen - 4) key.bytes else .ok h

/-- The branches of `set_payload_size` for a size of 16 and of 64 bits: a key that is there
    already moves behind the size. -/
def setExtendedSize (h : HybiHeader) (code : UInt8) (width size : Nat) :
    Except Raised HybiHeader :=
  let key := h.header.read (h.getHeaderLen - 4) 4
  let coded := { h with header := h.header.modify 1 (fun b => b ||| code) }
  let moved := if h.getMasked then coded.copyTo (coded.getHeaderLen - 4) key else .ok coded
  match moved with
  | .error e => .error e
  | .ok h => ({ h with payloadSize := size }).copyTo basicHeaderLength (bigEndian width size)

def setPayloadSize (h : HybiHeader) (size : Nat) : Except Raised HybiHeader :=
  if size ≤ payloadSizeBasic then
    .ok { h with
      header := h.header.modify 1 (fun b => b ||| UInt8.ofNat size), payloadSize := size }
  else if size ≤ payloadSizeExtended then h.setExtendedSize 126 2 size
  else if size ≤ payloadSizeJumbo then h.setExtendedSize 127 8 size
  else
    .error (.exception .messageTooBig
      "set_payload_size called with value that was too large (>2^63)".toList)

def complete (h : HybiHeader) : Except Raised HybiHeader :=
  match h.validateBasicHeader with
  | .error e => .error e
  | .ok _ => .ok { h with state := .ready }

def getHeaderBytes (h : HybiHeader) : List UInt8 := h.header.bytes.take h.getHeaderLen

end HybiHeader

end SocketIOStress
