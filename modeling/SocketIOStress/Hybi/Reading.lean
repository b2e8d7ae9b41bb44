import SocketIOStress.Hybi.Layout
import SocketIOStress.Hybi.Stream

/-!
# Headers that are read

A header that is read is read to its end when the bytes are those of a header the
protocol allows, and then it says what that header says.  Where the bytes are no
such header, the processor comes to no message.
-/

namespace SocketIOStress

open Octets

namespace HybiHeader

/-- Between two frames. -/
structure Fresh (h : HybiHeader) : Prop where
  state : h.state = .basicHeader
  bytesNeeded : h.bytesNeeded = 2

theorem fresh_reset (h : HybiHeader) : h.reset.Fresh := ⟨rfl, rfl⟩

theorem fresh_initial : initial.Fresh := ⟨rfl, rfl⟩

/-- The first two bytes are all that is read first. -/
theorem consume_fresh {h : HybiHeader} (hfresh : h.Fresh) (b₀ b₁ : UInt8) (input : List UInt8) :
    ∃ r : HybiHeader, r.state = .basicHeader ∧ r.bytesNeeded = 0 ∧
      r.header.bytes = b₀ :: b₁ :: h.header.bytes.drop 2 ∧
      h.consume (b₀ :: b₁ :: input) = (r.beginExtended.1, input, r.beginExtended.2) := by
  rcases hfresh with ⟨hstate, hneeded⟩
  have hlength := h.header.length_eq
  rcases Buffer.write_of_append [] (h.header.bytes.take 2) (h.header.bytes.drop 2)
    (List.take_append_drop 2 h.header.bytes).symm
    (show [b₀, b₁].length = (h.header.bytes.take 2).length by
      rw [List.length_take, hlength]; rfl) with ⟨m, hwrite, hm⟩
  refine ⟨{ h with header := m, bytesNeeded := 0 }, hstate, rfl, hm, ?_⟩
  have hread : h.readUpTo basicHeaderLength (b₀ :: b₁ :: input) =
      some { h with header := m, bytesNeeded := 0 } := by
    have hwrite' : h.header.write (basicHeaderLength - 2) [b₀, b₁] = some m := hwrite
    simp only [readUpTo, hneeded, List.take_succ_cons, List.take_zero, hwrite']
    rfl
  simp only [consume, hstate, hread, if_true, hneeded]
  rfl

/-- The rest of the header, when it is there. -/
theorem consume_extended {h : HybiHeader} {b₀ b₁ : UInt8} {ext back : List UInt8}
    (hstate : h.state = .extendedHeader) (hneeded : h.bytesNeeded = ext.length)
    (hext : ext ≠ []) (hlen : h.getHeaderLen = 2 + ext.length)
    (hbytes : h.header.bytes = b₀ :: b₁ :: back) (input : List UInt8) :
    ∃ r : HybiHeader, r.state = .extendedHeader ∧ r.bytesNeeded = 0 ∧
      (∃ back', r.header.bytes = b₀ :: b₁ :: (ext ++ back')) ∧
      h.consume (ext ++ input) = (r.finish.1, input, r.finish.2) := by
  have hlength := h.header.length_eq
  have hback : ext.length ≤ back.length := by
    have := h.getHeaderLen_le
    rw [hbytes, List.length_cons, List.length_cons] at hlength
    omega
  have hcut : h.header.bytes =
      [b₀, b₁] ++ (back.take ext.length ++ back.drop ext.length) := by
    rw [hbytes, List.take_append_drop]
    rfl
  have hsame : ext.length = (back.take ext.length).length := by
    rw [List.length_take]
    omega
  rcases Buffer.write_of_append _ _ _ hcut hsame with ⟨m, hwrite, hm⟩
  refine ⟨{ h with header := m, bytesNeeded := 0 }, hstate, rfl, ⟨_, hm⟩, ?_⟩
  have htake : (ext ++ input).take ext.length = ext := List.take_left
  have hread : h.readUpTo h.getHeaderLen (ext ++ input) =
      some { h with header := m, bytesNeeded := 0 } := by
    have hoffset : h.getHeaderLen - ext.length = [b₀, b₁].length := by
      rw [hlen, Nat.add_sub_cancel]
      rfl
    rw [readUpTo, hneeded, htake, if_neg hext, if_neg (by omega), hoffset, hwrite]
    simp only [Nat.sub_self]
  simp only [consume, hstate, hread, if_true, hneeded, List.drop_left]

theorem validateBasicHeader_ok {h : HybiHeader} (hvalid : h.validateBasicHeader = .ok ()) :
    (h.isControl = true → h.getFin = true ∧ h.getBasicSize ≤ payloadSizeBasic) ∧
      h.getRsv1 = false ∧ h.getRsv2 = false ∧ h.getRsv3 = false ∧
      h.getOpcode.reserved = false := by
  unfold validateBasicHeader at hvalid
  split at hvalid
  · cases hvalid
  rename_i hsmall
  split at hvalid
  · cases hvalid
  rename_i hrsv
  split at hvalid
  · cases hvalid
  rename_i hreserved
  split at hvalid
  · cases hvalid
  split at hvalid
  · cases hvalid
  rename_i hwhole
  simp only [not_or, Bool.not_eq_true] at hrsv hreserved
  refine ⟨?_, hrsv.1, hrsv.2.1, hrsv.2.2, hreserved⟩
  intro hcontrol
  constructor
  · cases hfin : h.getFin with
    | true => rfl
    | false => exact absurd ⟨hcontrol, hfin⟩ hwhole
  · exact Nat.not_lt.mp (fun hlarge => hsmall ⟨hcontrol, hlarge⟩)

end HybiHeader

namespace HybiHeader

/-- The checks look at the first two bytes only. -/
theorem validateBasicHeader_congr {h r : HybiHeader} (hfirst : r.header.get 0 = h.header.get 0)
    (hsecond : r.header.get 1 = h.header.get 1) :
    r.validateBasicHeader = h.validateBasicHeader := by
  have hopcode : r.getOpcode = h.getOpcode := by rw [getOpcode, getOpcode, hfirst]
  have hcontrol : r.isControl = h.isControl := by rw [isControl, isControl, hopcode]
  have hsize : r.getBasicSize = h.getBasicSize := by rw [getBasicSize, getBasicSize, hsecond]
  have hfin : r.getFin = h.getFin := by rw [getFin, getFin, hfirst]
  have hrsv1 : r.getRsv1 = h.getRsv1 := by rw [getRsv1, getRsv1, hfirst]
  have hrsv2 : r.getRsv2 = h.getRsv2 := by rw [getRsv2, getRsv2, hfirst]
  have hrsv3 : r.getRsv3 = h.getRsv3 := by rw [getRsv3, getRsv3, hfirst]
  rw [validateBasicHeader, validateBasicHeader, hopcode, hcontrol, hsize, hfin, hrsv1, hrsv2, hrsv3]

theorem get_of_bytes {h : HybiHeader} {b₀ b₁ : UInt8} {back : List UInt8}
    (hbytes : h.header.bytes = b₀ :: b₁ :: back) : h.header.get 0 = b₀ ∧ h.header.get 1 = b₁ := by
  rw [Buffer.get, Buffer.get, hbytes]
  exact ⟨rfl, rfl⟩

end HybiHeader

namespace FrameHeader

open HybiHeader

/-- The header has been read to its end. -/
structure Loaded (l : FrameHeader) (h : HybiHeader) : Prop where
  fills : l.Fills h
  state : h.state = .ready
  payloadSize : h.payloadSize = l.size

theorem length_bytes (l : FrameHeader) :
    l.bytes.length = 2 + (extension l.key l.size).length := by
  rw [bytes, List.length_cons, List.length_cons]
  omega

theorem loaded_finish {l : FrameHeader} {h : HybiHeader} (hfills : l.Fills h) :
    h.finish = ({ h with payloadSize := l.size, state := .ready }, .ok ()) ∧
      l.Loaded { h with payloadSize := l.size, state := .ready } := by
  refine ⟨?_, hfills, rfl, rfl⟩
  rw [finish, processExtendedHeader_eq hfills]

theorem exists_key {masked : Bool} {bytes : List UInt8}
    (hlength : bytes.length = if masked then 4 else 0) :
    ∃ key : Option MaskingKey, key.isSome = masked ∧ keyBytes key = bytes := by
  cases masked with
  | false => exact ⟨none, rfl, (List.eq_nil_of_length_eq_zero hlength).symm⟩
  | true => exact ⟨some ⟨bytes, hlength⟩, rfl, rfl⟩

/-- What the size check of the extended header lets through is minimally encoded. -/
theorem size_of_processExtendedHeader {h : HybiHeader}
    (hsize : h.processExtendedHeader.2 = .ok ()) :
    ∃ size, sizeCode size = h.getBasicSize ∧ size < 2 ^ 64 ∧
      (h.getBasicSize ≤ payloadSizeBasic → size = h.getBasicSize) ∧
      extendedSize size = h.header.read 2
        (if h.getBasicSize = 126 then 2 else if h.getBasicSize = 127 then 8 else 0) := by
  have hcode : h.getBasicSize < 128 := basicSize_lt _
  have hread : ∀ count, count ≤ 12 → (h.header.read 2 count).length = count := by
    intro count hcount
    have := h.header.length_eq
    rw [Buffer.read, List.length_take, List.length_drop]
    omega
  unfold processExtendedHeader at hsize
  by_cases hsmall : h.getBasicSize ≤ payloadSizeBasic
  · have hne : h.getBasicSize ≠ 126 ∧ h.getBasicSize ≠ 127 := by
      unfold payloadSizeBasic at hsmall
      omega
    refine ⟨h.getBasicSize, if_pos hsmall, by omega, fun _ => rfl, ?_⟩
    rw [extendedSize, if_pos hsmall, if_neg hne.1, if_neg hne.2]
    rfl
  rw [if_neg hsmall] at hsize
  by_cases hmiddle : h.getBasicSize = 126
  · simp only [hmiddle, if_true] at hsize
    by_cases hshort : value (h.header.read basicHeaderLength 2) < 126
    · rw [if_pos hshort] at hsize
      cases hsize
    have hminimal : ¬ value (h.header.read 2 2) < 126 := hshort
    have hlt := value_lt (h.header.read 2 2)
    rw [hread 2 (by decide)] at hlt
    have hlarge : ¬ value (h.header.read 2 2) ≤ payloadSizeBasic := by
      unfold payloadSizeBasic
      omega
    have hextended : value (h.header.read 2 2) ≤ payloadSizeExtended := Nat.le_of_lt_succ hlt
    have hbytes := bigEndian_value (h.header.read 2 2)
    rw [hread 2 (by decide)] at hbytes
    refine ⟨value (h.header.read 2 2), ?_, by omega, fun hbasic => absurd hbasic hsmall, ?_⟩
    · rw [sizeCode, if_neg hlarge, if_pos hextended, hmiddle]
    · rw [extendedSize, if_neg hlarge, if_pos hextended, hbytes, if_pos hmiddle]
  have hlast : h.getBasicSize = 127 := by
    unfold payloadSizeBasic at hsmall
    omega
  rw [if_neg hmiddle] at hsize
  simp only [hlast, if_true] at hsize
  by_cases hshort : value (h.header.read basicHeaderLength 8) ≤ payloadSizeExtended
  · rw [if_pos hshort] at hsize
    cases hsize
  have hminimal : ¬ value (h.header.read 2 8) ≤ payloadSizeExtended := hshort
  have hlt := value_lt (h.header.read 2 8)
  rw [hread 8 (by decide)] at hlt
  have hlarge : ¬ value (h.header.read 2 8) ≤ payloadSizeBasic := by
    unfold payloadSizeBasic
    unfold payloadSizeExtended at hminimal
    omega
  have hbytes := bigEndian_value (h.header.read 2 8)
  rw [hread 8 (by decide)] at hbytes
  refine ⟨value (h.header.read 2 8), ?_, hlt, fun hbasic => absurd hbasic hsmall, ?_⟩
  · rw [sizeCode, if_neg hlarge, if_neg hminimal, hlast]
  · rw [extendedSize, if_neg hlarge, if_neg hminimal, hbytes, if_neg hmiddle, if_pos hlast]

/-- Two bytes that pass the check on them, and what stands behind them and passes the check on
    the size, are the bytes of a header. -/
theorem exists_of_fields {h : HybiHeader} {b₀ b₁ : UInt8} {ext back : List UInt8}
    (hbytes : h.header.bytes = b₀ :: b₁ :: (ext ++ back)) (hvalid : h.validateBasicHeader = .ok ())
    (hlen : h.getHeaderLen = 2 + ext.length) (hsize : h.processExtendedHeader.2 = .ok ()) :
    ∃ l : FrameHeader, b₀ :: b₁ :: ext = l.bytes := by
  rcases validateBasicHeader_ok hvalid with ⟨hcontrol, hrsv1, hrsv2, hrsv3, hreserved⟩
  rcases size_of_processExtendedHeader hsize with ⟨size, hcode, hlt, hbasic, hextended⟩
  rcases get_of_bytes hbytes with ⟨hfirst, hsecond⟩
  have hb₀ : firstByte h.getFin h.getOpcode = b₀ := by
    rw [← hfirst]
    exact firstByte_of_fields (of_decide_eq_false hrsv1) (of_decide_eq_false hrsv2)
      (of_decide_eq_false hrsv3)
  have hb₁ : secondByte h.getMasked h.getBasicSize = b₁ := by
    rw [← hsecond]
    exact secondByte_of_fields _
  -- what stands behind the two bytes is the size, then the key
  have hwidth : (extendedSize size).length =
      if h.getBasicSize = 126 then 2 else if h.getBasicSize = 127 then 8 else 0 := by
    rw [length_extendedSize, hcode]
  rw [← hwidth] at hextended
  have hextLength : ext.length = (extendedSize size).length + if h.getMasked then 4 else 0 := by
    rw [getHeaderLen, ← hwidth] at hlen
    omega
  have hfront : extendedSize size = ext.take (extendedSize size).length := by
    have hread : h.header.read 2 (extendedSize size).length =
        (ext ++ back).take (extendedSize size).length := by
      rw [Buffer.read, hbytes]
      rfl
    rw [hread, List.take_append_of_le_length (by omega)] at hextended
    exact hextended
  have hkeyLength : (ext.drop (extendedSize size).length).length =
      if h.getMasked then 4 else 0 := by
    rw [List.length_drop]
    omega
  rcases exists_key hkeyLength with ⟨key, hmasked, hkey⟩
  refine ⟨⟨h.getFin, h.getOpcode, key, size, hreserved, ?_, hlt⟩, ?_⟩
  · intro hop
    rcases hcontrol hop with ⟨hfin, hsmall⟩
    exact ⟨hfin, hbasic hsmall ▸ hsmall⟩
  · have hext : ext = extendedSize size ++ ext.drop (extendedSize size).length := by
      calc ext = ext.take (extendedSize size).length ++ ext.drop (extendedSize size).length :=
            (List.take_append_drop _ ext).symm
        _ = extendedSize size ++ ext.drop (extendedSize size).length := by rw [← hfront]
    rw [bytes, extension, hkey, hmasked, hcode, hb₀, hb₁, ← hext]

end FrameHeader

namespace Hybi

/-- Between two frames. -/
structure Fresh (p : Hybi) : Prop where
  state : p.state = .readHeader
  header : p.header.Fresh

theorem fresh_initial : initial.Fresh := ⟨rfl, HybiHeader.fresh_initial⟩

theorem fresh_reset (p : Hybi) : p.reset.Fresh := ⟨rfl, p.header.fresh_reset⟩

theorem Fresh.sound {p : Hybi} (hp : p.Fresh) : p.Sound :=
  HybiHeader.sound_of_ne (hp.header.state ▸ nofun)

/-- What follows a header that is ready. -/
def enter (p : Hybi) (pool : Option Failure) : Hybi × Except Raised Unit :=
  if p.header.isControl then p.processControlHeader else p.processDataHeader pool

/-- How `consume` goes on behind a round that ends so. -/
def goOn (pool : Option Failure) (rest : List UInt8) :
    Hybi × Except Raised Unit → Feed.Outcome Hybi UInt8 Raised
  | (p, .error e) => (p.caught e, rest, .raised e)
  | (p, .ok _) => p.consume pool rest

/-- A round that gets what it wants, and what follows. -/
theorem consume_of_round {p p' : Hybi} {pool : Option Failure} {input rest : List UInt8}
    {out : Except Raised Unit} (hp : p.Sound) (hready : p.state ≠ .ready)
    (hround : p.round pool input = (p', rest, out)) (hwanted : p.wanted ≤ input.length) :
    p.consume pool input = goOn pool rest (p', out) := by
  rw [consume_eq hp, if_neg hready, hround]
  cases out with
  | error e => rfl
  | ok u =>
    simp only [Nat.not_lt.mpr hwanted, if_false]
    rfl

/-- A round that gets less than it wants comes to no message. -/
theorem consume_ne_stopped {p : Hybi} {pool : Option Failure} {input : List UInt8}
    (hp : p.Sound) (hready : p.state ≠ .ready) (hwanted : input.length < p.wanted) :
    (p.consume pool input).2.2 ≠ .stopped := by
  rw [consume_eq hp, if_neg hready]
  rcases p.round pool input with ⟨p', rest, e | u⟩
  · exact nofun
  · simp only [hwanted, if_true]
    exact nofun

/-- The end of a header, and what follows. -/
def goOnBehind (p : Hybi) (pool : Option Failure) (rest : List UInt8) :
    HybiHeader × Except Raised Unit → Feed.Outcome Hybi UInt8 Raised
  | (r, .error e) => (caught { p with header := r } e, rest, .raised e)
  | (r, .ok _) =>
      if r.state = .ready then goOn pool rest (enter { p with header := r } pool)
      else consume { p with header := r } pool rest

theorem consume_of_header {p : Hybi} {pool : Option Failure} {input rest : List UInt8}
    {r : HybiHeader} {out : Except Raised Unit} (hp : p.Sound) (hstate : p.state = .readHeader)
    (hconsume : p.header.consume input = (r, rest, out)) (hwanted : p.wanted ≤ input.length) :
    p.consume pool input = goOnBehind p pool rest (r, out) := by
  have hready : p.state ≠ .ready := by
    rw [hstate]
    exact nofun
  cases out with
  | error e =>
    have hround : p.round pool input = ({ p with header := r }, rest, .error e) := by
      rw [round_readHeader hstate, processHeader, hconsume]
    exact consume_of_round hp hready hround hwanted
  | ok u =>
    have hround := @round_readHeader p pool input hstate
    rw [processHeader, hconsume] at hround
    by_cases hr : r.state = .ready
    · simp only [hr, ne_eq, not_true_eq_false, if_false] at hround
      simp only [goOnBehind, hr, if_true, enter]
      cases hcontrol : r.isControl with
      | true =>
        simp only [hcontrol, if_true] at hround ⊢
        exact consume_of_round hp hready hround hwanted
      | false =>
        simp only [hcontrol, Bool.false_eq_true, if_false] at hround ⊢
        exact consume_of_round hp hready hround hwanted
    · simp only [hr, ne_eq, not_false_eq_true, if_true] at hround
      simp only [goOnBehind, hr, if_false]
      exact consume_of_round hp hready hround hwanted

/-- The first two bytes of a header. -/
theorem consume_two {p : Hybi} (hp : p.Fresh) (pool : Option Failure) (b₀ b₁ : UInt8)
    (input : List UInt8) : ∃ r : HybiHeader, r.state = .basicHeader ∧
      (∃ back, r.header.bytes = b₀ :: b₁ :: back) ∧
      p.consume pool (b₀ :: b₁ :: input) = goOnBehind p pool input r.beginExtended := by
  rcases HybiHeader.consume_fresh hp.header b₀ b₁ input with ⟨r, hstate, -, hbytes, hconsume⟩
  refine ⟨r, hstate, ⟨_, hbytes⟩, consume_of_header hp.sound hp.state hconsume ?_⟩
  have hheader : p.header.state ≠ .ready := by
    rw [hp.header.state]
    exact nofun
  rw [wanted_readHeader hp.state hheader, hp.header.bytesNeeded]
  exact Nat.le_add_left 2 input.length

/-- The rest of a header. -/
theorem consume_rest {p : Hybi} {b₀ b₁ : UInt8} {ext back : List UInt8} (hp : p.Sound)
    (hstate : p.state = .readHeader) (hheader : p.header.state = .extendedHeader)
    (hneeded : p.header.bytesNeeded = ext.length) (hext : ext ≠ [])
    (hlen : p.header.getHeaderLen = 2 + ext.length)
    (hbytes : p.header.header.bytes = b₀ :: b₁ :: back) (pool : Option Failure)
    (input : List UInt8) : ∃ r : HybiHeader,
      (∃ back', r.header.bytes = b₀ :: b₁ :: (ext ++ back')) ∧
      p.consume pool (ext ++ input) = goOnBehind p pool input r.finish := by
  rcases HybiHeader.consume_extended hheader hneeded hext hlen hbytes input with
    ⟨r, -, -, hback, hconsume⟩
  refine ⟨r, hback, consume_of_header hp hstate hconsume ?_⟩
  have hne : p.header.state ≠ .ready := by
    rw [hheader]
    exact nofun
  rw [wanted_readHeader hstate hne, hneeded, List.length_append]
  exact Nat.le_add_right _ _

/-- A header whose first two bytes ask for more: it is not complete without them, and with
    them it is. -/
theorem consume_awaited {p : Hybi} {b₀ b₁ : UInt8} {back : List UInt8}
    (hstate : p.state = .readHeader) (hheader : p.header.state = .extendedHeader)
    (hmore : 0 < p.header.bytesNeeded) (hlen : p.header.getHeaderLen = 2 + p.header.bytesNeeded)
    (hbytes : p.header.header.bytes = b₀ :: b₁ :: back) (pool : Option Failure)
    (input : List UInt8) :
    (input.length < p.header.bytesNeeded → (p.consume pool input).2.2 ≠ .stopped) ∧
      ∀ ext rest, input = ext ++ rest → ext.length = p.header.bytesNeeded →
        ∃ (r : HybiHeader) (back' : List UInt8),
          r.header.bytes = b₀ :: b₁ :: (ext ++ back') ∧
          p.consume pool input = goOnBehind p pool rest r.finish := by
  have hsound : p.Sound := by
    intro _
    rw [hlen]
    omega
  have hready : p.state ≠ .ready := by
    rw [hstate]
    decide
  have hne : p.header.state ≠ .ready := by
    rw [hheader]
    decide
  constructor
  · intro hshort
    apply consume_ne_stopped hsound hready
    rw [wanted_readHeader hstate hne]
    exact hshort
  · rintro ext rest rfl hext
    have hnonempty : ext ≠ [] := by
      intro hnil
      rw [hnil, List.length_nil] at hext
      omega
    rcases consume_rest hsound hstate hheader hext.symm hnonempty (hext ▸ hlen) hbytes pool rest
      with ⟨r, ⟨back', hback⟩, hrest⟩
    exact ⟨r, back', hback, hrest⟩

/-- A header: it is refused at its first two bytes, or its rest is awaited. -/
theorem consume_bytes {p : Hybi} (hp : p.Fresh) (pool : Option Failure) (b₀ b₁ : UInt8)
    (input : List UInt8) : ∃ (r : HybiHeader) (back : List UInt8),
      r.header.bytes = b₀ :: b₁ :: back ∧
      ((∃ e, r.validateBasicHeader = .error e ∧
          (p.consume pool (b₀ :: b₁ :: input)).2.2 = .raised e) ∨
        r.validateBasicHeader = .ok () ∧
          (input.length < r.getHeaderLen - 2 →
            (p.consume pool (b₀ :: b₁ :: input)).2.2 ≠ .stopped) ∧
          ∀ ext rest, input = ext ++ rest → ext.length = r.getHeaderLen - 2 →
            ∃ (r' : HybiHeader) (back' : List UInt8),
              r'.header.bytes = b₀ :: b₁ :: (ext ++ back') ∧
              p.consume pool (b₀ :: b₁ :: input) = goOnBehind p pool rest r'.finish) := by
  rcases consume_two hp pool b₀ b₁ input with ⟨r, -, ⟨back, hbytes⟩, hconsume⟩
  refine ⟨r, back, hbytes, ?_⟩
  have hsame : r.processBasicHeader.validateBasicHeader = r.validateBasicHeader :=
    HybiHeader.validateBasicHeader_congr rfl rfl
  rw [hconsume, HybiHeader.beginExtended, hsame]
  rcases hvalid : r.validateBasicHeader with e | u
  · exact Or.inl ⟨e, rfl, rfl⟩
  right
  refine ⟨rfl, ?_⟩
  have hlen := r.two_le_getHeaderLen
  have hneeded : r.processBasicHeader.bytesNeeded = r.getHeaderLen - 2 := rfl
  by_cases hmore : 0 < r.processBasicHeader.bytesNeeded
  · simp only [hmore, if_true, goOnBehind]
    rw [if_neg (by decide)]
    apply consume_awaited (p := { p with
      header := { r.processBasicHeader with state := .extendedHeader } })
      hp.state rfl hmore _ hbytes
    show r.getHeaderLen = 2 + (r.getHeaderLen - 2)
    omega
  · simp only [hmore, if_false]
    rw [hneeded] at hmore
    constructor
    · intro hshort
      omega
    · intro ext rest hcut hext
      have hnil : ext = [] := List.eq_nil_of_length_eq_zero (by omega)
      refine ⟨r.processBasicHeader, back, by rw [hnil]; exact hbytes, ?_⟩
      rw [hcut, hnil]
      rfl

/-- A header is read to its end, and the frame is entered. -/
theorem consume_header {p : Hybi} (hp : p.Fresh) (pool : Option Failure) (l : FrameHeader)
    (rest : List UInt8) : ∃ r, l.Loaded r ∧
      p.consume pool (l.bytes ++ rest) = goOn pool rest (enter { p with header := r } pool) := by
  rcases consume_bytes hp pool (FrameHeader.firstByte l.fin l.opcode)
    (FrameHeader.secondByte l.key.isSome (FrameHeader.sizeCode l.size))
    (FrameHeader.extension l.key l.size ++ rest) with ⟨r, back, hbytes, hread⟩
  rcases HybiHeader.get_of_bytes hbytes with ⟨hfirst, hsecond⟩
  have hbegins : l.Begins r := ⟨hfirst, hsecond⟩
  rcases hread with ⟨e, hinvalid, -⟩ | ⟨-, -, hwhole⟩
  · rw [FrameHeader.validateBasicHeader_eq hbegins] at hinvalid
    cases hinvalid
  · have hlength : (FrameHeader.extension l.key l.size).length = r.getHeaderLen - 2 := by
      rw [FrameHeader.getHeaderLen_eq hbegins, FrameHeader.length_bytes, Nat.add_sub_cancel_left]
    rcases hwhole _ rest rfl hlength with ⟨r', back', hbytes', hconsume⟩
    rcases FrameHeader.loaded_finish (h := r') (l := l) ⟨back', hbytes'⟩ with ⟨hfinish, hloaded⟩
    refine ⟨_, hloaded, ?_⟩
    have hall : p.consume pool (l.bytes ++ rest) = _ := hconsume
    rw [hall, hfinish]
    simp only [goOnBehind, if_true]

/-- Where the processor comes to a message, the stream starts with a header. -/
theorem header_of_consume {p : Hybi} (hp : p.Fresh) {pool : Option Failure} {input : List UInt8}
    (hstopped : (p.consume pool input).2.2 = .stopped) :
    ∃ (l : FrameHeader) (rest : List UInt8), input = l.bytes ++ rest := by
  have hready : p.state ≠ .ready := by
    rw [hp.state]
    exact nofun
  have hwanted : p.wanted = 2 := by
    rw [wanted_readHeader hp.state (by rw [hp.header.state]; exact nofun), hp.header.bytesNeeded]
  rcases input with _ | ⟨b₀, _ | ⟨b₁, input⟩⟩
  · exact absurd hstopped (consume_ne_stopped hp.sound hready (hwanted ▸ Nat.succ_pos 1))
  · exact absurd hstopped (consume_ne_stopped hp.sound hready (hwanted ▸ Nat.lt_succ_self 1))
  rcases consume_bytes hp pool b₀ b₁ input with ⟨r, back, hbytes, ⟨e, -, hraised⟩ | hread⟩
  · rw [hraised] at hstopped
    cases hstopped
  rcases hread with ⟨hvalid, hshort, hwhole⟩
  by_cases hless : input.length < r.getHeaderLen - 2
  · exact absurd hstopped (hshort hless)
  have hlen := r.two_le_getHeaderLen
  have hext : (input.take (r.getHeaderLen - 2)).length = r.getHeaderLen - 2 := by
    rw [List.length_take]
    omega
  rcases hwhole (input.take (r.getHeaderLen - 2)) (input.drop (r.getHeaderLen - 2))
    (List.take_append_drop _ _).symm hext with ⟨r', back', hbytes', hconsume⟩
  rcases HybiHeader.get_of_bytes hbytes with ⟨hfirst, hsecond⟩
  rcases HybiHeader.get_of_bytes hbytes' with ⟨hfirst', hsecond'⟩
  have hvalid' : r'.validateBasicHeader = .ok () := by
    rw [HybiHeader.validateBasicHeader_congr (hfirst'.trans hfirst.symm)
      (hsecond'.trans hsecond.symm), hvalid]
  have hlen' : r'.getHeaderLen = 2 + (input.take (r.getHeaderLen - 2)).length := by
    rw [HybiHeader.getHeaderLen_congr (hsecond'.trans hsecond.symm), hext]
    omega
  have hsize : r'.processExtendedHeader.2 = .ok () := by
    rw [hconsume, HybiHeader.finish] at hstopped
    rcases hprocess : r'.processExtendedHeader with ⟨r'', e | u⟩
    · simp only [hprocess, goOnBehind] at hstopped
      cases hstopped
    · rfl
  rcases FrameHeader.exists_of_fields hbytes' hvalid' hlen' hsize with ⟨l, hl⟩
  refine ⟨l, input.drop (r.getHeaderLen - 2), ?_⟩
  rw [← hl, List.cons_append, List.cons_append, List.take_append_drop]

end Hybi

end SocketIOStress
