import SocketIOStress.Hybi.Header

/-!
# The layout of a header

What a header says, apart from how it is read and written: its four fields and the
bytes that stand for them.  A header that is written has these bytes, and the bytes
that are accepted are those of such a header.
-/

namespace SocketIOStress

open Octets

/-- A header the protocol allows. -/
structure FrameHeader where
  fin : Bool
  opcode : FrameOpcode
  key : Option MaskingKey
  size : Nat
  not_reserved : opcode.reserved = false
  control : opcode.isControl = true → fin = true ∧ size ≤ HybiHeader.payloadSizeBasic
  size_lt : size < 2 ^ 64

namespace FrameHeader

/-- The seven bits of the second byte that tell the size or how it is written. -/
def sizeCode (size : Nat) : Nat :=
  if size ≤ HybiHeader.payloadSizeBasic then size
  else if size ≤ HybiHeader.payloadSizeExtended then 126 else 127

/-- The size where it does not fit in seven bits. -/
def extendedSize (size : Nat) : List UInt8 :=
  if size ≤ HybiHeader.payloadSizeBasic then []
  else if size ≤ HybiHeader.payloadSizeExtended then bigEndian 2 size else bigEndian 8 size

def firstByte (fin : Bool) (op : FrameOpcode) : UInt8 := (if fin then 0x80 else 0) ||| op.value

def secondByte (masked : Bool) (code : Nat) : UInt8 :=
  (if masked then 0x80 else 0) ||| UInt8.ofNat code

def keyBytes : Option MaskingKey → List UInt8
  | none => []
  | some key => key.bytes

/-- What stands between the first two bytes and the payload. -/
def extension (key : Option MaskingKey) (size : Nat) : List UInt8 :=
  extendedSize size ++ keyBytes key

def bytes (l : FrameHeader) : List UInt8 :=
  firstByte l.fin l.opcode :: secondByte l.key.isSome (sizeCode l.size) ::
    extension l.key l.size

/-! ### The first two bytes -/

theorem firstByte_fields (fin : Bool) (op : FrameOpcode) :
    decide (firstByte fin op &&& 0x80 = 0x80) = fin ∧ firstByte fin op &&& 0x40 ≠ 0x40 ∧
      firstByte fin op &&& 0x20 ≠ 0x20 ∧ firstByte fin op &&& 0x10 ≠ 0x10 ∧
      FrameOpcode.ofValue (firstByte fin op &&& 0x0F) = op := by
  cases fin with
  | false => cases op <;> decide
  | true => cases op <;> decide

theorem firstByte_of_fields {b : UInt8} (h1 : b &&& 0x40 ≠ 0x40) (h2 : b &&& 0x20 ≠ 0x20)
    (h3 : b &&& 0x10 ≠ 0x10) :
    firstByte (b &&& 0x80 = 0x80) (.ofValue (b &&& 0x0F)) = b := by
  revert h1 h2 h3
  apply forall_byte (P := fun b => b &&& 0x40 ≠ 0x40 → b &&& 0x20 ≠ 0x20 → b &&& 0x10 ≠ 0x10 →
    firstByte (b &&& 0x80 = 0x80) (.ofValue (b &&& 0x0F)) = b)
  decide +kernel

theorem secondByte_fields (masked : Bool) {code : Nat} (hcode : code < 128) :
    decide (secondByte masked code &&& 0x80 = 0x80) = masked ∧
      (secondByte masked code &&& 0x7F).toNat = code := by
  have hall : ∀ code, code < 128 → ∀ masked,
      decide (secondByte masked code &&& 0x80 = 0x80) = masked ∧
        (secondByte masked code &&& 0x7F).toNat = code := by
    decide +kernel
  exact hall code hcode masked

theorem secondByte_of_fields (b : UInt8) :
    secondByte (b &&& 0x80 = 0x80) (b &&& 0x7F).toNat = b := by
  apply forall_byte (P := fun b => secondByte (b &&& 0x80 = 0x80) (b &&& 0x7F).toNat = b)
  decide +kernel

theorem basicSize_lt (b : UInt8) : (b &&& 0x7F).toNat < 128 := by
  apply forall_byte (P := fun b => (b &&& 0x7F).toNat < 128)
  decide +kernel

theorem sizeCode_lt (size : Nat) : sizeCode size < 128 := by
  unfold sizeCode
  split
  · rename_i h
    exact Nat.lt_of_le_of_lt h (by decide)
  split
  · decide
  · decide

theorem length_extendedSize (size : Nat) : (extendedSize size).length =
    if sizeCode size = 126 then 2 else if sizeCode size = 127 then 8 else 0 := by
  unfold extendedSize sizeCode HybiHeader.payloadSizeBasic
  split
  · rename_i h
    rw [if_neg (by omega), if_neg (by omega)]
    rfl
  split
  · rw [length_bigEndian, if_pos rfl]
  · rw [length_bigEndian, if_neg (by decide), if_pos rfl]

/-! ### A header in memory -/

/-- The first two bytes of the array are those of the header. -/
structure Begins (l : FrameHeader) (h : HybiHeader) : Prop where
  first : h.header.get 0 = firstByte l.fin l.opcode
  second : h.header.get 1 = secondByte l.key.isSome (sizeCode l.size)

/-- The array starts with the bytes of the header. -/
def Fills (l : FrameHeader) (h : HybiHeader) : Prop := ∃ rest, h.header.bytes = l.bytes ++ rest

section Memory

variable {l : FrameHeader} {h : HybiHeader}

theorem begins_of_fills (hfills : l.Fills h) : l.Begins h := by
  rcases hfills with ⟨rest, hbytes⟩
  exact ⟨by rw [Buffer.get, hbytes]; rfl, by rw [Buffer.get, hbytes]; rfl⟩

theorem getFin_eq (hl : l.Begins h) : h.getFin = l.fin := by
  rw [HybiHeader.getFin, hl.first]
  exact (firstByte_fields l.fin l.opcode).1

theorem getOpcode_eq (hl : l.Begins h) : h.getOpcode = l.opcode := by
  rw [HybiHeader.getOpcode, hl.first]
  exact (firstByte_fields l.fin l.opcode).2.2.2.2

theorem getMasked_eq (hl : l.Begins h) : h.getMasked = l.key.isSome := by
  rw [HybiHeader.getMasked, hl.second]
  exact (secondByte_fields _ (sizeCode_lt l.size)).1

theorem getBasicSize_eq (hl : l.Begins h) : h.getBasicSize = sizeCode l.size := by
  rw [HybiHeader.getBasicSize, hl.second]
  exact (secondByte_fields _ (sizeCode_lt l.size)).2

theorem isControl_eq (hl : l.Begins h) : h.isControl = l.opcode.isControl := by
  rw [HybiHeader.isControl, getOpcode_eq hl]

theorem getHeaderLen_eq (hl : l.Begins h) : h.getHeaderLen = l.bytes.length := by
  have hlength := length_extendedSize l.size
  rw [HybiHeader.getHeaderLen, getMasked_eq hl, getBasicSize_eq hl, ← hlength, bytes, extension,
    List.length_cons, List.length_cons, List.length_append]
  cases l.key with
  | none =>
    simp [keyBytes]
    omega
  | some key =>
    have := key.length_eq
    simp [keyBytes]
    omega

/-- Such a header passes the checks on its first two bytes. -/
theorem validateBasicHeader_eq (hl : l.Begins h) : h.validateBasicHeader = .ok () := by
  have hfirst := firstByte_fields l.fin l.opcode
  have hrsv1 : h.getRsv1 = false := by
    rw [HybiHeader.getRsv1, hl.first]
    exact decide_eq_false hfirst.2.1
  have hrsv2 : h.getRsv2 = false := by
    rw [HybiHeader.getRsv2, hl.first]
    exact decide_eq_false hfirst.2.2.1
  have hrsv3 : h.getRsv3 = false := by
    rw [HybiHeader.getRsv3, hl.first]
    exact decide_eq_false hfirst.2.2.2.1
  have hinvalid : l.opcode.invalid = false := by cases l.opcode <;> decide
  have hsmall : ¬ (l.opcode.isControl = true ∧ HybiHeader.payloadSizeBasic < sizeCode l.size) := by
    rintro ⟨hcontrol, hlarge⟩
    rw [sizeCode, if_pos (l.control hcontrol).2] at hlarge
    exact Nat.not_lt.mpr (l.control hcontrol).2 hlarge
  have hwhole : ¬ (l.opcode.isControl = true ∧ l.fin = false) := by
    rintro ⟨hcontrol, hfin⟩
    rw [(l.control hcontrol).1] at hfin
    cases hfin
  rw [HybiHeader.validateBasicHeader, isControl_eq hl, getBasicSize_eq hl, getOpcode_eq hl,
    getFin_eq hl, hrsv1, hrsv2, hrsv3, if_neg hsmall, if_neg (by simp), l.not_reserved,
    if_neg (by simp), hinvalid, if_neg (by simp), if_neg hwhole]

theorem value_extendedSize (hlarge : HybiHeader.payloadSizeBasic < l.size) :
    value (extendedSize l.size) = l.size := by
  rw [extendedSize, if_neg (Nat.not_le.mpr hlarge)]
  split
  · rename_i h
    exact value_bigEndian (Nat.lt_of_le_of_lt h (by decide))
  · exact value_bigEndian l.size_lt

/-- The size of such a header is read back. -/
theorem processExtendedHeader_eq (hfills : l.Fills h) :
    h.processExtendedHeader = ({ h with payloadSize := l.size }, .ok ()) := by
  have hl := begins_of_fills hfills
  rcases hfills with ⟨rest, hbytes⟩
  have hread : h.header.read 2 (extendedSize l.size).length = extendedSize l.size := by
    apply Buffer.read_of_append
      [firstByte l.fin l.opcode, secondByte l.key.isSome (sizeCode l.size)] _
      (keyBytes l.key ++ rest)
    rw [hbytes, bytes, extension]
    simp only [List.cons_append, List.nil_append, List.append_assoc]
  have hcode := getBasicSize_eq hl
  have hlength := length_extendedSize l.size
  by_cases hsmall : l.size ≤ HybiHeader.payloadSizeBasic
  · have hsize : sizeCode l.size = l.size := if_pos hsmall
    rw [HybiHeader.processExtendedHeader, hcode, hsize, if_pos hsmall]
  have hlarge := Nat.not_le.mp hsmall
  have hvalue := value_extendedSize hlarge
  by_cases hmiddle : l.size ≤ HybiHeader.payloadSizeExtended
  · have hsize : sizeCode l.size = 126 := by rw [sizeCode, if_neg hsmall, if_pos hmiddle]
    rw [hsize, if_pos rfl] at hlength
    rw [hlength] at hread
    rw [HybiHeader.processExtendedHeader, hcode, hsize, if_neg (by decide), if_pos rfl]
    simp only [HybiHeader.basicHeaderLength, hread, hvalue]
    rw [if_neg]
    unfold HybiHeader.payloadSizeBasic at hlarge
    omega
  · have hsize : sizeCode l.size = 127 := by rw [sizeCode, if_neg hsmall, if_neg hmiddle]
    rw [hsize, if_neg (by decide), if_pos rfl] at hlength
    rw [hlength] at hread
    rw [HybiHeader.processExtendedHeader, hcode, hsize, if_neg (by decide), if_neg (by decide),
      if_pos rfl]
    simp only [HybiHeader.basicHeaderLength, hread, hvalue]
    rw [if_neg hmiddle]

/-- The key is read back; it is zero where there is none. -/
theorem getMaskingKey_eq (hfills : l.Fills h) :
    h.getMaskingKey = l.key.getD (.zero 4) := by
  have hl := begins_of_fills hfills
  rw [HybiHeader.getMaskingKey]
  simp only [getMasked_eq hl]
  rcases hfills with ⟨rest, hbytes⟩
  cases hkey : l.key with
  | none => rfl
  | some key =>
    have hlength := key.length_eq
    have htotal : l.bytes.length = 2 + (extendedSize l.size).length + 4 := by
      rw [bytes, extension, hkey]
      simp [keyBytes]
      omega
    simp only [Option.isSome_some, if_true, Option.getD_some, Buffer.ext_iff, Buffer.slice,
      getHeaderLen_eq hl, htotal, Nat.add_sub_cancel]
    have hread : h.header.read _ key.bytes.length = key.bytes :=
      Buffer.read_of_append
        (firstByte l.fin l.opcode :: secondByte l.key.isSome (sizeCode l.size) ::
          extendedSize l.size) key.bytes rest (by
        rw [hbytes, bytes, extension, hkey, keyBytes]
        simp only [List.cons_append, List.append_assoc])
    rw [hlength] at hread
    rw [← hread]
    congr 1
    simp
    omega

end Memory

/-! ### Writing a header -/

/-- The calls of `prepare_frame` that write a header. -/
def write (op : FrameOpcode) (masked : Bool) (key : MaskingKey) (size : Nat) (h : HybiHeader) :
    Except Raised HybiHeader :=
  match ((h.reset.setFin true).setOpcode op).setMasked masked key with
  | .error e => .error e
  | .ok h =>
      match h.setPayloadSize size with
      | .error e => .error e
      | .ok h => h.complete

/-- The array when the first two fields are set. -/
theorem setOpcode_bytes (op : FrameOpcode) (h : HybiHeader) :
    ((h.reset.setFin true).setOpcode op).header.bytes =
      firstByte true op :: List.replicate 13 0 := by
  have hbyte : ((0 ||| 0x80 : UInt8) &&& (0xFF ^^^ 0x0F)) ||| op.value = firstByte true op := by
    cases op <;> decide
  rw [← hbyte]
  rfl

theorem copyTo_eq {h : HybiHeader} (front old back : List UInt8) {bytes : List UInt8}
    (hbytes : h.header.bytes = front ++ (old ++ back)) (hlength : bytes.length = old.length) :
    ∃ h', h.copyTo front.length bytes = .ok h' ∧ h'.header.bytes = front ++ (bytes ++ back) := by
  rcases Buffer.write_of_append front old back hbytes hlength with ⟨header, hwrite, hheader⟩
  exact ⟨{ h with header := header }, by rw [HybiHeader.copyTo, hwrite], hheader⟩

/-- The array when the key is set too; there is room for eight bytes behind it. -/
theorem setMasked_bytes {h : HybiHeader} {first : UInt8} (masked : Bool) (key : MaskingKey)
    (hbytes : h.header.bytes = first :: List.replicate 13 0) :
    ∃ h', h.setMasked masked key = .ok h' ∧ ∃ rest, h'.header.bytes =
      first :: secondByte masked 0 :: (keyBytes (if masked then some key else none) ++ rest) ∧
      8 ≤ rest.length := by
  cases masked with
  | false =>
    have hbyte : (0 : UInt8) &&& (0xFF ^^^ 0x80) = secondByte false 0 := by decide
    have hset := Buffer.modify_one hbytes (fun b => b &&& (0xFF ^^^ 0x80))
    rw [hbyte] at hset
    exact ⟨_, rfl, List.replicate 12 0, hset, by decide⟩
  | true =>
    have hset : (h.setHeaderBit 0x80 1 true).header.bytes =
        first :: secondByte true 0 :: List.replicate 12 0 :=
      Buffer.modify_one hbytes (fun b => b ||| 0x80)
    have hsecond : (h.setHeaderBit 0x80 1 true).header.get 1 = secondByte true 0 := by
      rw [Buffer.get, hset]
      rfl
    have hlen : (h.setHeaderBit 0x80 1 true).getHeaderLen = 6 := by
      have hfields := secondByte_fields true (show 0 < 128 by decide)
      rw [HybiHeader.getHeaderLen, HybiHeader.getMasked, HybiHeader.getBasicSize, hsecond,
        hfields.1, hfields.2]
      rfl
    rcases copyTo_eq [first, secondByte true 0] (List.replicate 4 0) (List.replicate 8 0)
      hset (by rw [key.length_eq, List.length_replicate]) with ⟨h', hcopy, hh'⟩
    refine ⟨h', ?_, List.replicate 8 0, hh', by decide⟩
    rw [HybiHeader.setMasked]
    simp only [hlen, if_true]
    exact hcopy

theorem secondByte_or (masked : Bool) {code : Nat} (hcode : code < 128) :
    secondByte masked 0 ||| UInt8.ofNat code = secondByte masked code := by
  have hall : ∀ code, code < 128 → ∀ masked,
      secondByte masked 0 ||| UInt8.ofNat code = secondByte masked code := by
    decide +kernel
  exact hall code hcode masked

/-- The length of a header with these first two bytes. -/
theorem getHeaderLen_of_second {h : HybiHeader} {masked : Bool} {code : Nat} (hcode : code < 128)
    (hsecond : h.header.get 1 = secondByte masked code) :
    h.getMasked = masked ∧ h.getHeaderLen = 2 + (if masked then 4 else 0) +
      if code = 126 then 2 else if code = 127 then 8 else 0 := by
  have hfields := secondByte_fields masked hcode
  have hmasked : h.getMasked = masked := by
    rw [HybiHeader.getMasked, hsecond]
    exact hfields.1
  refine ⟨hmasked, ?_⟩
  rw [HybiHeader.getHeaderLen, hmasked, HybiHeader.getBasicSize, hsecond, hfields.2]

/-- The codes of the sizes of more than one byte, with the bytes they take. -/
def IsExtended (code : UInt8) (width : Nat) : Prop :=
  code = 126 ∧ width = 2 ∨ code = 127 ∧ width = 8

theorem IsExtended.lt {code : UInt8} {width : Nat} (h : IsExtended code width) :
    code.toNat < 128 ∧ width ≤ 8 := by
  rcases h with ⟨rfl, rfl⟩ | ⟨rfl, rfl⟩
  · decide
  · decide

/-- The code goes into the second byte, beside the mask bit. -/
theorem bytes_coded {m : Buffer 14} {first code : UInt8} {masked : Bool} {back : List UInt8}
    (hcode : code.toNat < 128) (hbytes : m.bytes = first :: secondByte masked 0 :: back) :
    (m.modify 1 (fun b => b ||| code)).bytes = first :: secondByte masked code.toNat :: back := by
  have hor := secondByte_or masked hcode
  rw [UInt8.ofNat_toNat] at hor
  have hcoded := Buffer.modify_one hbytes (fun b => b ||| code)
  rw [hor] at hcoded
  exact hcoded

/-- The key is copied to where it stands behind the size. -/
theorem copyTo_key {h : HybiHeader} {first code : UInt8} {width : Nat} {key : MaskingKey}
    {rest : List UInt8} (hcode : IsExtended code width)
    (hbytes : h.header.bytes = first :: secondByte true code.toNat :: (key.bytes ++ rest))
    (hrest : 8 ≤ rest.length) :
    ∃ moved : HybiHeader, h.copyTo (h.getHeaderLen - 4) key.bytes = .ok moved ∧
      moved.header.bytes = ([first, secondByte true code.toNat] ++
        (key.bytes ++ rest).take width) ++
          (key.bytes ++ (key.bytes ++ rest).drop (width + 4)) := by
  have hkey := key.length_eq
  have hsecond : h.header.get 1 = secondByte true code.toNat := by
    rw [Buffer.get, hbytes]
    rfl
  have hlen := (getHeaderLen_of_second hcode.lt.1 hsecond).2
  have hoffset : h.getHeaderLen - 4 =
      ([first, secondByte true code.toNat] ++ (key.bytes ++ rest).take width).length := by
    rw [hlen]
    rcases hcode with ⟨rfl, rfl⟩ | ⟨rfl, rfl⟩
    · simp
      omega
    · simp
      omega
  have hwidth := hcode.lt.2
  rw [hoffset]
  apply copyTo_eq _ (((key.bytes ++ rest).drop width).take 4)
  · rw [List.append_assoc, ← List.drop_drop, List.take_append_drop, List.take_append_drop]
    exact hbytes
  · simp
    omega

theorem setExtendedSize_plain {h : HybiHeader} {first code : UInt8} {rest : List UInt8}
    {width : Nat} (size : Nat) (hcode : IsExtended code width)
    (hbytes : h.header.bytes = first :: secondByte false 0 :: rest) (hrest : 8 ≤ rest.length) :
    ∃ h', h.setExtendedSize code width size = .ok h' ∧ ∃ rest', h'.header.bytes =
      first :: secondByte false code.toNat :: (bigEndian width size ++ rest') := by
  have hwidth := hcode.lt.2
  have hsecond : h.header.get 1 = secondByte false 0 := by
    rw [Buffer.get, hbytes]
    rfl
  have hmasked := (getHeaderLen_of_second (by decide) hsecond).1
  have hcoded := bytes_coded hcode.lt.1 hbytes
  generalize hcodedHeader : h.header.modify 1 (fun b => b ||| code) = m at hcoded
  have hcut : m.bytes = [first, secondByte false code.toNat] ++
      (rest.take width ++ rest.drop width) := by
    rw [hcoded, List.take_append_drop]
    rfl
  have hlength : (bigEndian width size).length = (rest.take width).length := by
    rw [length_bigEndian, List.length_take]
    omega
  rcases copyTo_eq (h := { h with header := m, payloadSize := size }) _ _ _ hcut hlength with
    ⟨h', hcopy, hh'⟩
  refine ⟨h', ?_, rest.drop width, hh'⟩
  rw [HybiHeader.setExtendedSize]
  simp only [hmasked, hcodedHeader, Bool.false_eq_true, if_false]
  exact hcopy

theorem setExtendedSize_masked {h : HybiHeader} {first code : UInt8} {key : MaskingKey}
    {rest : List UInt8} {width : Nat} (size : Nat) (hcode : IsExtended code width)
    (hbytes : h.header.bytes = first :: secondByte true 0 :: (key.bytes ++ rest))
    (hrest : 8 ≤ rest.length) :
    ∃ h', h.setExtendedSize code width size = .ok h' ∧ ∃ rest', h'.header.bytes =
      first :: secondByte true code.toNat :: (bigEndian width size ++ (key.bytes ++ rest')) := by
  have hkey := key.length_eq
  have hwidth := hcode.lt.2
  have hsecond : h.header.get 1 = secondByte true 0 := by
    rw [Buffer.get, hbytes]
    rfl
  rcases getHeaderLen_of_second (by decide) hsecond with ⟨hmasked, hlen⟩
  rw [if_neg (show ¬ 0 = 126 by decide), if_neg (show ¬ 0 = 127 by decide)] at hlen
  have hread : h.header.read (h.getHeaderLen - 4) 4 = key.bytes := by
    have hkeyRead := Buffer.read_of_append [first, secondByte true 0] key.bytes rest hbytes
    rw [hkey] at hkeyRead
    rw [hlen]
    exact hkeyRead
  have hcoded := bytes_coded hcode.lt.1 hbytes
  generalize hcodedHeader : h.header.modify 1 (fun b => b ||| code) = m at hcoded
  rcases copyTo_key (h := { h with header := m }) hcode hcoded hrest with
    ⟨moved, hcopyKey, hmovedBytes⟩
  rw [List.append_assoc] at hmovedBytes
  -- the size is written over the old place of the key
  have hlength : (bigEndian width size).length = ((key.bytes ++ rest).take width).length := by
    rw [length_bigEndian, List.length_take, List.length_append]
    omega
  rcases copyTo_eq (h := { moved with payloadSize := size }) _ _ _ hmovedBytes hlength with
    ⟨h', hcopy, hh'⟩
  refine ⟨h', ?_, (key.bytes ++ rest).drop (width + 4), hh'⟩
  rw [HybiHeader.setExtendedSize]
  simp only [hread, hmasked, hcodedHeader, if_true, hcopyKey]
  exact hcopy

/-- A size of more than one byte, written in front of the key. -/
theorem setExtendedSize_bytes {h : HybiHeader} {first code : UInt8} {masked : Bool}
    {key : MaskingKey} {rest : List UInt8} {width : Nat} (size : Nat)
    (hcode : IsExtended code width)
    (hbytes : h.header.bytes =
      first :: secondByte masked 0 :: (keyBytes (if masked then some key else none) ++ rest))
    (hrest : 8 ≤ rest.length) :
    ∃ h', h.setExtendedSize code width size = .ok h' ∧ ∃ rest', h'.header.bytes =
      first :: secondByte masked code.toNat ::
        (bigEndian width size ++ keyBytes (if masked then some key else none) ++ rest') := by
  cases masked with
  | false =>
    rcases setExtendedSize_plain size hcode hbytes hrest with ⟨h', hset, rest', hh'⟩
    refine ⟨h', hset, rest', ?_⟩
    rw [hh', if_neg Bool.false_ne_true, keyBytes, List.append_nil]
  | true =>
    rcases setExtendedSize_masked size hcode hbytes hrest with ⟨h', hset, rest', hh'⟩
    refine ⟨h', hset, rest', ?_⟩
    rw [hh', if_pos rfl, keyBytes, List.append_assoc]

theorem setPayloadSize_bytes {h : HybiHeader} {first : UInt8} {masked : Bool} {key : MaskingKey}
    {rest : List UInt8} {size : Nat} (hsize : size ≤ HybiHeader.payloadSizeJumbo)
    (hbytes : h.header.bytes =
      first :: secondByte masked 0 :: (keyBytes (if masked then some key else none) ++ rest))
    (hrest : 8 ≤ rest.length) :
    ∃ h', h.setPayloadSize size = .ok h' ∧ ∃ rest', h'.header.bytes =
      first :: secondByte masked (sizeCode size) ::
        (extension (if masked then some key else none) size ++ rest') := by
  rw [HybiHeader.setPayloadSize, sizeCode, extension, extendedSize]
  by_cases hbasic : size ≤ HybiHeader.payloadSizeBasic
  · rw [if_pos hbasic, if_pos hbasic, if_pos hbasic]
    have hset := Buffer.modify_one hbytes (fun b => b ||| UInt8.ofNat size)
    rw [secondByte_or masked (Nat.lt_of_le_of_lt hbasic (by decide))] at hset
    exact ⟨_, rfl, rest, hset⟩
  rw [if_neg hbasic, if_neg hbasic, if_neg hbasic]
  by_cases hextended : size ≤ HybiHeader.payloadSizeExtended
  · rw [if_pos hextended, if_pos hextended, if_pos hextended]
    exact setExtendedSize_bytes size (Or.inl ⟨rfl, rfl⟩) hbytes hrest
  · rw [if_neg hextended, if_neg hextended, if_neg hextended, if_pos hsize]
    exact setExtendedSize_bytes size (Or.inr ⟨rfl, rfl⟩) hbytes hrest

/-- The array when all fields are set. -/
theorem write_eq (op : FrameOpcode) (masked : Bool) (key : MaskingKey) {size : Nat}
    (h : HybiHeader) (hsize : size ≤ HybiHeader.payloadSizeJumbo) :
    ∃ (h' : HybiHeader) (rest : List UInt8), write op masked key size h = h'.complete ∧
      h'.header.bytes = firstByte true op :: secondByte masked (sizeCode size) ::
        (extension (if masked then some key else none) size ++ rest) := by
  rcases setMasked_bytes masked key (setOpcode_bytes op h) with ⟨h₁, hmasked, rest, hbytes₁, hrest⟩
  rcases setPayloadSize_bytes hsize hbytes₁ hrest with ⟨h₂, hset, rest', hbytes₂⟩
  refine ⟨h₂, rest', ?_, hbytes₂⟩
  rw [write, hmasked]
  simp only [hset]

/-- A header that is written has the bytes of its layout. -/
theorem write_spec {l : FrameHeader} {masked : Bool} {key : MaskingKey} (h : HybiHeader)
    (hfin : l.fin = true) (hkey : l.key = if masked then some key else none)
    (hsize : l.size ≤ HybiHeader.payloadSizeJumbo) :
    ∃ h', write l.opcode masked key l.size h = .ok h' ∧ h'.getHeaderBytes = l.bytes := by
  rcases write_eq l.opcode masked key h hsize with ⟨h₂, rest, hwrite, hbytes⟩
  have hisSome : l.key.isSome = masked := by
    rw [hkey]
    cases masked with
    | false => rfl
    | true => rfl
  have hfills : l.Fills h₂ := by
    refine ⟨rest, ?_⟩
    rw [hbytes, bytes, hfin, hisSome, hkey]
    rfl
  have hvalid := validateBasicHeader_eq (begins_of_fills hfills)
  have hlen := getHeaderLen_eq (begins_of_fills hfills)
  refine ⟨{ h₂ with state := .ready }, ?_, ?_⟩
  · rw [hwrite, HybiHeader.complete, hvalid]
  · rcases hfills with ⟨back, hback⟩
    have htake : HybiHeader.getHeaderBytes { h₂ with state := .ready } =
        h₂.header.bytes.take h₂.getHeaderLen := rfl
    rw [htake, hlen, hback, List.take_left]

end FrameHeader

end SocketIOStress
