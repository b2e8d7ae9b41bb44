import SocketIOStress.Basic

/-!
# What goes over the wire

The parts of websocketpp the client itself depends on: the UTF-8 validator every
outgoing text passes, the close codes and the close frame of `control.hpp` and
`hybi.hpp`, and the checks of `handle_read_response` on the answer to the
upgrade request.  The headers of the frames, and the masking, are those of the
processor.
-/

namespace SocketIOStress

/-! ### utf8_validator -/

/-- The byte classes, then one row of 16 for each state. -/
def utf8d : List Nat :=
  List.replicate 128 0 ++ List.replicate 16 1 ++ List.replicate 16 9 ++ List.replicate 32 7 ++
  List.replicate 2 8 ++ List.replicate 30 2 ++ [10] ++ List.replicate 12 3 ++ [4, 3, 3] ++
  [11, 6, 6, 6, 5] ++ List.replicate 11 8 ++
  [0, 1, 2, 3, 5, 8, 7, 1, 1, 1, 4, 6, 1, 1, 1, 1] ++
  [1, 1, 1, 1, 1, 1, 1, 1, 1, 1, 1, 1, 1, 1, 1, 1] ++
  [1, 0, 1, 1, 1, 1, 1, 0, 1, 0, 1, 1, 1, 1, 1, 1] ++
  [1, 2, 1, 1, 1, 1, 1, 2, 1, 2, 1, 1, 1, 1, 1, 1] ++
  [1, 1, 1, 1, 1, 1, 1, 2, 1, 1, 1, 1, 1, 1, 1, 1] ++
  [1, 2, 1, 1, 1, 1, 1, 1, 1, 2, 1, 1, 1, 1, 1, 1] ++
  [1, 1, 1, 1, 1, 1, 1, 3, 1, 3, 1, 1, 1, 1, 1, 1] ++
  [1, 3, 1, 1, 1, 1, 1, 3, 1, 3, 1, 1, 1, 1, 1, 1] ++
  [1, 3, 1, 1, 1, 1, 1, 1, 1, 1, 1, 1, 1, 1, 1, 1]

def utf8Accept : Nat := 0
def utf8Reject : Nat := 1

def decodeByte (state byte : Nat) : Nat :=
  utf8d.getD (256 + state * 16 + utf8d.getD byte utf8Reject) utf8Reject

/-- `validator::decode` from a state, then `complete`. -/
def validateFrom : Nat → Text → Bool
  | state, [] => state = utf8Accept
  | state, c :: t =>
      let next := decodeByte state c.toNat
      if next = utf8Reject then false else validateFrom next t

def validate (t : Text) : Bool := validateFrom utf8Accept t

theorem decodeByte_ascii {c : Char} (h : c.toNat < 128) :
    decodeByte utf8Accept c.toNat = utf8Accept := by
  have hall : ∀ byte, byte < 128 → decodeByte utf8Accept byte = utf8Accept := by
    decide +kernel
  exact hall _ h

/-- The validator passes every ASCII text. -/
theorem validate_of_ascii {t : Text} (h : ∀ c ∈ t, c.toNat < 128) : validate t = true := by
  unfold validate
  induction t with
  | nil => rfl
  | cons c t ih =>
    have hc := decodeByte_ascii (h c List.mem_cons_self)
    have ht := ih (fun d hd => h d (List.mem_cons_of_mem _ hd))
    simp only [validateFrom, hc, ht]
    rfl

/-! ### Close codes -/

namespace CloseStatus

def normal : Nat := 1000
def protocolError : Nat := 1002
def noStatus : Nat := 1005
def abnormalClose : Nat := 1006
def invalidPayload : Nat := 1007
def messageTooBig : Nat := 1009
def internalEndpointError : Nat := 1011

def reserved (code : Nat) : Bool :=
  (1016 ≤ code && code ≤ 2999) || code = 1004 || code = 1012 || code = 1013 || code = 1014

/-- Codes invalid on the wire. -/
def invalid (code : Nat) : Bool :=
  code ≤ 999 || 5000 ≤ code || code = noStatus || code = abnormalClose || code = 1015

end CloseStatus

/-! ### Frames -/

/-- Of `frame::opcode::value`, the opcodes the client writes. -/
inductive Opcode where
  | text
  | pong
  | close
deriving DecidableEq, Repr

structure Message where
  opcode : Opcode
  payload : Text
deriving DecidableEq, Repr

/-- `prepare_close_frame`: the code in network byte order, then the reason. -/
def closeFrame (code : Nat) (reason : Text) : Message :=
  ⟨.close, if code = CloseStatus.noStatus then []
    else Char.ofNat (code / 256) :: Char.ofNat (code % 256) :: reason⟩

/-- The codes of `processor::exception`.  The pools the processor takes its messages
    from do not run dry, so `OUT_OF_MESSAGES` is not among them. -/
inductive ProcessorError where
  | fatalError
  | softError
  | protocolViolation
  | payloadViolation
  | internalEndpointError
  | messageTooBig
deriving DecidableEq, Repr

/-- `complete`, `get_close_code` and `get_close_reason` of a received close frame. -/
def completeClose : Text → Except (ProcessorError × Text) (Nat × Text)
  | [] => .ok (CloseStatus.noStatus, [])
  | [_] => .error (.protocolViolation, "Single byte close code".toList)
  | high :: low :: reason =>
      let code := high.toNat * 256 + low.toNat
      if CloseStatus.invalid code then
        .error (.protocolViolation, "Close code is not allowed on the wire.".toList)
      else if CloseStatus.reserved code then
        .error (.protocolViolation, "Close code is reserved.".toList)
      else if validate reason then .ok (code, reason)
      else .error (.payloadViolation, "Invalid UTF8".toList)

/-- A close frame that is accepted never carries the code `ABNORMAL_CLOSE`. -/
theorem completeClose_ne_abnormalClose {payload : Text} {code : Nat} {reason : Text}
    (h : completeClose payload = .ok (code, reason)) : code ≠ CloseStatus.abnormalClose := by
  unfold completeClose at h
  split at h
  · cases h
    decide
  · cases h
  · simp only at h
    split at h
    · cases h
    rename_i hinvalid
    split at h
    · cases h
    split at h
    · cases h
      rintro habnormal
      rw [habnormal] at hinvalid
      exact hinvalid (by decide)
    · cases h

/-! ### The answer to the upgrade request -/

/-- `parse_complete`, and what is then read from the response. -/
structure UpgradeResponse where
  complete : Bool
  statusCode : Nat
  upgrade : Text
  connection : Text
  accept : Text
deriving DecidableEq, Repr

def contains (pattern : Text) : Text → Bool
  | [] => pattern.isEmpty
  | c :: t => pattern.isPrefixOf (c :: t) || contains pattern t

/-- `boost::ifind_first`, of a pattern in lower case. -/
def ifindFirst (t pattern : Text) : Bool := contains pattern (t.map Char.toLower)

/-- `http::status_code::SWITCHING_PROTOCOLS`. -/
def switchingProtocols : Nat := 101

/-- The checks of `handle_read_response`.  A response that fails one is logged. -/
def UpgradeResponse.accepted (serverKey : Text) (r : UpgradeResponse) : Bool :=
  r.complete && r.statusCode = switchingProtocols && ifindFirst r.upgrade "websocket".toList &&
    ifindFirst r.connection "upgrade".toList && r.accept ≠ [] && serverKey = r.accept

end SocketIOStress
