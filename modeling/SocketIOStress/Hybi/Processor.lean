import SocketIOStress.Hybi.Message

/-!
# websocketpp::processor::hybi

The processor of a connection: what it makes of the bytes it is given, as far as
they go, and the frames it prepares.  A call leaves the processor changed even
when it ends with an exception, so each function gives back the processor, the
bytes it leaves and how it ended.

The connection hands out one control message, which `reset` makes anew for each
frame; a data message comes from a pool that asks for an open connection.
-/

namespace SocketIOStress

open Octets

/-- `hybi_state::value`. -/
inductive HybiState where
  | readHeader
  | readPayload
  | ready
deriving DecidableEq, Repr

structure Hybi where
  state : HybiState
  dataMessage : Option DataMessage
  controlMessage : Option ControlMessage
  header : HybiHeader
  payloadLeft : Nat
deriving DecidableEq, Repr

namespace Hybi

/-- The constructor. -/
def initial : Hybi := ⟨.readHeader, none, none, .initial, 0⟩

def reset (p : Hybi) : Hybi := { p with state := .readHeader, header := p.header.reset }

def isControl (p : Hybi) : Bool := p.header.isControl

/-- `get_control_message` or `get_data_message`, and the `reset` behind it. -/
def taken (p : Hybi) : Hybi :=
  if p.isControl then reset { p with controlMessage := none }
  else reset { p with dataMessage := none }

def getBytesNeeded (p : Hybi) : Nat :=
  match p.state with
  | .readHeader => p.header.bytesNeeded
  | .readPayload => p.payloadLeft
  | .ready => 0

/-! ### Frames that are complete -/

/-- `complete` of the message the frame belongs to. -/
def completeMessage (p : Hybi) : Except Raised Unit :=
  if p.header.isControl then
    match p.controlMessage with
    | none => .error .nullMessage
    | some m => m.complete
  else
    match p.dataMessage with
    | none => .error .nullMessage
    | some m => m.complete

def processFrame (p : Hybi) : Hybi × Except Raised Unit :=
  if p.header.getFin then
    match p.completeMessage with
    | .error e => (p, .error e)
    | .ok _ => ({ p with state := .ready }, .ok ())
  else (p.reset, .ok ())

/-! ### Headers -/

def processControlHeader (p : Hybi) : Hybi × Except Raised Unit :=
  let p := { p with
    controlMessage := some (.reset p.header.getOpcode p.header.getMaskingKey),
    payloadLeft := p.header.payloadSize }
  if p.payloadLeft = 0 then p.processFrame else ({ p with state := .readPayload }, .ok ())

/-- The end of `process_data_header`, on the message the frame belongs to. -/
def beginPayload (p : Hybi) (m : DataMessage) : Hybi × Except Raised Unit :=
  let p := { p with dataMessage := some m, payloadLeft := p.header.payloadSize }
  if p.payloadLeft = 0 then p.processFrame
  else
    ({ p with
      dataMessage := some (m.setMaskingKey p.header.getMaskingKey), state := .readPayload }, .ok ())

/-- `process_data_header`.  `pool` is the exception `get_data_message` of the connection
    raises, if any. -/
def processDataHeader (p : Hybi) (pool : Option Failure) : Hybi × Except Raised Unit :=
  match p.dataMessage with
  | none =>
      if p.header.getOpcode = .continuation then
        (p, HybiHeader.violation
          "Received continuation frame without an outstanding message.".toList)
      else
        match pool with
        | some e => (p, .error (.failure e))
        | none => p.beginPayload (.reset p.header.getOpcode)
  | some m =>
      if p.header.getOpcode ≠ .continuation then
        (p, HybiHeader.violation
          "Received new message before the completion of the existing one.".toList)
      else p.beginPayload m

def processHeader (p : Hybi) (pool : Option Failure) (input : List UInt8) :
    Hybi × List UInt8 × Except Raised Unit :=
  match p.header.consume input with
  | (header, rest, .error e) => ({ p with header := header }, rest, .error e)
  | (header, rest, .ok _) =>
      let p := { p with header := header }
      if p.header.state ≠ .ready then (p, rest, .ok ())
      else if p.header.isControl then (p.processControlHeader.1, rest, p.processControlHeader.2)
      else ((p.processDataHeader pool).1, rest, (p.processDataHeader pool).2)

/-! ### Payloads -/

/-- The end of `process_payload`. -/
def finishPayload (p : Hybi) (written : Nat) : Hybi × Except Raised Unit :=
  let p := { p with payloadLeft := p.payloadLeft - written }
  if p.payloadLeft = 0 then p.processFrame else (p, .ok ())

/-- `process_payload` of the message the frame belongs to. -/
def fillMessage (p : Hybi) (input : List UInt8) : Hybi × List UInt8 × Except Raised Nat :=
  if p.header.isControl then
    match p.controlMessage with
    | none => (p, input, .error .nullMessage)
    | some m =>
        match m.processPayload input p.payloadLeft with
        | (m, rest, written) => ({ p with controlMessage := some m }, rest, written)
  else
    match p.dataMessage with
    | none => (p, input, .error .nullMessage)
    | some m =>
        match m.processPayload input p.payloadLeft with
        | (m, rest, written) => ({ p with dataMessage := some m }, rest, written)

def processPayload (p : Hybi) (input : List UInt8) : Hybi × List UInt8 × Except Raised Unit :=
  match p.fillMessage input with
  | (p, rest, .error e) => (p, rest, .error e)
  | (p, rest, .ok written) => ((p.finishPayload written).1, rest, (p.finishPayload written).2)

/-! ### The loop -/

/-- What the processor needs before it goes on. -/
def wanted (p : Hybi) : Nat :=
  match p.state with
  | .readHeader => if p.header.state = .ready then 0 else p.header.bytesNeeded
  | .readPayload => p.payloadLeft
  | .ready => 0

/-- One round of `consume`. -/
def round (p : Hybi) (pool : Option Failure) (input : List UInt8) :
    Hybi × List UInt8 × Except Raised Unit :=
  match p.state with
  | .readHeader => p.processHeader pool input
  | .readPayload => p.processPayload input
  | .ready => (p, input, .ok ())

/-- The `catch` of `consume`. -/
def caught (p : Hybi) : Raised → Hybi
  | .exception _ _ => if p.header.state = .ready then { p with header := p.header.reset } else p
  | .failure _ => p
  | .outOfBounds => p
  | .nullMessage => p

/-- The loop of `consume`.  The stream is good until a round asks it for more than there is. -/
def reader (pool : Option Failure) : Feed.Reader Hybi UInt8 Raised where
  stopped p := p.state = .ready
  wanted := wanted
  round p := p.round pool
  caught := caught

def consume (p : Hybi) (pool : Option Failure) (input : List UInt8) :
    Feed.Outcome Hybi UInt8 Raised :=
  (reader pool).read p input

end Hybi

end SocketIOStress
