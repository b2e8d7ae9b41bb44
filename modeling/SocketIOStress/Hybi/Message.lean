import SocketIOStress.Lib.Feed
import SocketIOStress.Hybi.Header
import SocketIOStress.Validator

/-!
# websocketpp::message

The two kinds of message the processor fills from a stream: data messages, which
grow over several frames and whose text is validated as it comes, and control
messages, which are validated when they are complete.  Both unmask as they read.
-/

namespace SocketIOStress

open Octets

/-- Bytes masked from a position of the key on. -/
def maskFrom (key : MaskingKey) : Nat → List UInt8 → List UInt8
  | _, [] => []
  | i, c :: bytes => (c ^^^ key.get (i % 4)) :: maskFrom key (i + 1) bytes

/-- `process_payload` of either kind of message: a loop over the characters there are, behind
    a check of the size, which is added up as a `uint64_t`.  It gives back what is left of the
    stream, and how many bytes it took. -/
def fillPayload {M : Type} (length : M → Nat) (max : Nat) (tooBig : Text)
    (processCharacter : M → UInt8 → M × Except Raised Unit) (m : M) (input : List UInt8)
    (size : Nat) : M × List UInt8 × Except Raised Nat :=
  if max < (length m + size) % 2 ^ 64 then (m, input, .error (.exception .messageTooBig tooBig))
  else Feed.eat processCharacter size m input

/-- `message::data`.  The position in the key is none for the negative values of
    `m_masking_index`, with which nothing is unmasked. -/
structure DataMessage where
  opcode : FrameOpcode
  validator : Validator
  maskingKey : MaskingKey
  maskingIndex : Option Nat
  header : List UInt8
  payload : List UInt8
  prepared : Bool
deriving DecidableEq, Repr

namespace DataMessage

def payloadSizeMax : Nat := 100000000

/-- A message as a pool hands it out, on which `reset` was called. -/
def reset (opcode : FrameOpcode) : DataMessage :=
  ⟨opcode, .reset, .zero 4, none, [], [], false⟩

/-- A key of zero needs no unmasking. -/
def setMaskingKey (m : DataMessage) (key : MaskingKey) : DataMessage :=
  { m with maskingKey := key, maskingIndex := if key = .zero 4 then none else some 0 }

def invalidUtf8 : Raised := .exception .payloadViolation "Invalid UTF8 data".toList

/-- The character as it was sent, and the position in the key behind it. -/
def unmask (m : DataMessage) (c : UInt8) : UInt8 × Option Nat :=
  match m.maskingIndex with
  | none => (c, none)
  | some i => (c ^^^ m.maskingKey.get i, some ((i + 1) % 4))

/-- `process_character`.  A byte that is refused is not kept. -/
def processCharacter (m : DataMessage) (c : UInt8) : DataMessage × Except Raised Unit :=
  let (c, index) := m.unmask c
  let m := { m with maskingIndex := index }
  if m.opcode = .text then
    let (validator, accepted) := m.validator.consume c.toNat
    let m := { m with validator := validator }
    if accepted then ({ m with payload := m.payload ++ [c] }, .ok ()) else (m, .error invalidUtf8)
  else ({ m with payload := m.payload ++ [c] }, .ok ())

def processPayload (m : DataMessage) (input : List UInt8) (size : Nat) :
    DataMessage × List UInt8 × Except Raised Nat :=
  fillPayload (·.payload.length) payloadSizeMax "Message too big".toList processCharacter m input
    size

def complete (m : DataMessage) : Except Raised Unit :=
  if m.opcode = .text ∧ m.validator.complete = false then .error invalidUtf8 else .ok ()

/-! ### Writing -/

def setPayload (m : DataMessage) (payload : List UInt8) : DataMessage :=
  { m with payload := payload }

def appendPayload (m : DataMessage) (payload : List UInt8) : DataMessage :=
  { m with payload := m.payload ++ payload }

/-- `validate_payload`.  The exception is the one of the namespace around the class, so it
    is no `processor::exception`. -/
def validatePayload (m : DataMessage) : DataMessage × Except Raised Unit :=
  if m.opcode = .text then
    let (validator, accepted) := m.validator.decodeAll (m.payload.map UInt8.toNat)
    ({ m with validator := validator },
      if accepted && validator.complete then .ok ()
      else .error (.failure (.runtimeError "Invalid UTF8 data")))
  else (m, .ok ())

/-- `mask`, byte by byte as `WEBSOCKETPP_STRICT_MASKING` has it. -/
def mask (m : DataMessage) : DataMessage :=
  match m.maskingIndex with
  | none => m
  | some _ => { m with payload := maskFrom m.maskingKey 0 m.payload }

end DataMessage

/-- `message::control`. -/
structure ControlMessage where
  opcode : FrameOpcode
  validator : Validator
  maskingKey : MaskingKey
  maskingIndex : Option Nat
  payload : List UInt8
deriving DecidableEq, Repr

namespace ControlMessage

def payloadSizeMax : Nat := 128

/-- `reset`, with `set_masking_key`. -/
def reset (opcode : FrameOpcode) (key : MaskingKey) : ControlMessage :=
  ⟨opcode, .reset, key, if key = .zero 4 then none else some 0, []⟩

def processCharacter (m : ControlMessage) (c : UInt8) : ControlMessage × Except Raised Unit :=
  match m.maskingIndex with
  | none => ({ m with payload := m.payload ++ [c] }, .ok ())
  | some i =>
      ({ m with
        payload := m.payload ++ [c ^^^ m.maskingKey.get (i % 4)], maskingIndex := some (i + 1) },
        .ok ())

def processPayload (m : ControlMessage) (input : List UInt8) (size : Nat) :
    ControlMessage × List UInt8 × Except Raised Nat :=
  fillPayload (·.payload.length) payloadSizeMax "Message payload was too large.".toList
    processCharacter m input size

/-- `complete` checks a close frame; its code and reason are those of `completeClose`. -/
def complete (m : ControlMessage) : Except Raised Unit :=
  if m.opcode = .close then
    match completeClose (textOf m.payload) with
    | .ok _ => .ok ()
    | .error (error, what) => .error (.exception error what)
  else .ok ()

end ControlMessage

end SocketIOStress
