import SocketIOStress.Lib.Utf8
import SocketIOStress.Wire

/-!
# utf8_validator::validator

The validator with both its fields, fed byte by byte as it is by a message that
arrives in pieces.  Its state and its code point are read as what is known of the
character that is begun; from this it follows what it accepts, and that it refuses
at the first byte behind which no text can go on.
-/

namespace SocketIOStress

open Utf8

/-! ### Bytes and texts -/

/-- The text of some bytes. -/
def textOf (bytes : List UInt8) : Text := bytes.map (fun b => Char.ofNat b.toNat)

/-- The bytes of a text, as numbers. -/
def codes (t : Text) : List Nat := t.map Char.toNat

theorem toNat_ofNat_byte (b : UInt8) : (Char.ofNat b.toNat).toNat = b.toNat := by
  have hvalid : b.toNat.isValidChar := Or.inl (Nat.lt_trans b.toNat_lt (by decide))
  rw [Char.ofNat, dif_pos hvalid]
  rfl

theorem codes_textOf (bytes : List UInt8) : codes (textOf bytes) = bytes.map UInt8.toNat := by
  unfold codes textOf
  rw [List.map_map]
  exact congrArg (List.map · bytes) (funext toNat_ofNat_byte)

/-! ### The validator -/

structure Validator where
  state : Nat
  codepoint : Nat
deriving DecidableEq, Repr

namespace Validator

/-- The constructor, and `reset`. -/
def reset : Validator := ⟨utf8Accept, 0⟩

/-- `utf8_validator::decode`, on `uint32_t`. -/
def decode (v : Validator) (byte : Nat) : Validator where
  state := decodeByte v.state byte
  codepoint :=
    if v.state ≠ utf8Accept then (byte &&& 0x3f) ||| (v.codepoint <<< 6) % 2 ^ 32
    else (0xff >>> utf8d.getD byte utf8Reject) &&& byte

/-- `consume`: false when the byte is refused. -/
def consume (v : Validator) (byte : Nat) : Validator × Bool :=
  (v.decode byte, (v.decode byte).state ≠ utf8Reject)

/-- `decode` over a range, which leaves off at the byte it refuses. -/
def decodeAll (v : Validator) : List Nat → Validator × Bool
  | [] => (v, true)
  | byte :: bytes =>
      match v.consume byte with
      | (v, false) => (v, false)
      | (v, true) => v.decodeAll bytes

def complete (v : Validator) : Bool := v.state = utf8Accept

/-- The function on whole strings does what the object does. -/
theorem validateFrom_eq (v : Validator) (t : Text) :
    validateFrom v.state t = ((v.decodeAll (codes t)).2 && (v.decodeAll (codes t)).1.complete) := by
  induction t generalizing v with
  | nil => rfl
  | cons c t ih =>
    have hcodes : codes (c :: t) = c.toNat :: codes t := rfl
    rw [hcodes]
    by_cases hreject : decodeByte v.state c.toNat = utf8Reject
    · simp [validateFrom, decodeAll, consume, decode, hreject]
    · have hrest := ih (v.decode c.toNat)
      simp only [validateFrom, decodeAll, consume, decode, hreject, if_false, ne_eq,
        not_false_eq_true, decide_true] at hrest ⊢
      exact hrest

/-! ### The table

What each row of the table lets through, over all bytes. -/

theorem decodeByte_start_ascii {b : Nat} (hb : b < 0x80) :
    decodeByte utf8Accept b = utf8Accept ∧ (0xff >>> utf8d.getD b utf8Reject) &&& b = b := by
  have hall : ∀ b, b < 0x80 → decodeByte utf8Accept b = utf8Accept ∧
      (0xff >>> utf8d.getD b utf8Reject) &&& b = b := by
    decide +kernel
  exact hall b hb

theorem decodeByte_start_none {b : Nat} (hb : b < 256) (hlow : 0x80 ≤ b)
    (h : b < 0xC0 ∨ 0xF8 ≤ b) : decodeByte utf8Accept b = utf8Reject := by
  have hall : ∀ b, b < 256 → 0x80 ≤ b → b < 0xC0 ∨ 0xF8 ≤ b →
      decodeByte utf8Accept b = utf8Reject := by
    decide +kernel
  exact hall b hb hlow h

/-- The bytes a row between characters accepts, and the row they lead to. -/
def row : Nat → Nat × Nat × Nat
  | 2 => (0x80, 0xC0, 0)
  | 3 => (0x80, 0xC0, 2)
  | 4 => (0xA0, 0xC0, 2)
  | 5 => (0x80, 0xA0, 2)
  | 6 => (0x90, 0xC0, 3)
  | 7 => (0x80, 0xC0, 3)
  | _ => (0x80, 0x90, 3)

theorem decodeByte_row {s b : Nat} (hs : 2 ≤ s) (hs' : s ≤ 8) (hb : b < 256) :
    decodeByte s b = if (row s).1 ≤ b ∧ b < (row s).2.1 then (row s).2.2 else utf8Reject := by
  have hall : ∀ s, s < 9 → 2 ≤ s → ∀ b, b < 256 →
      decodeByte s b = if (row s).1 ≤ b ∧ b < (row s).2.1 then (row s).2.2 else utf8Reject := by
    decide +kernel
  exact hall s (by omega) hs b hb

/-- The state in which a character lacks so many bytes and has these leading bits. -/
def stateOf : Nat → Nat → Nat
  | 0, _ => utf8Accept
  | 1, _ => 2
  | 2, p => if p = 0 then 4 else if p = 0xD then 5 else 3
  | _, p => if p = 0 then 6 else if p = 4 then 8 else 7

/-- A byte that goes on with the character that is begun. -/
def GoesOn (n p b t : Nat) : Prop :=
  t < 64 ∧ b = t + 0x80 ∧ least n ≤ p * 64 + t ∧ Begun n (p * 64 + t)

/-- The row of the table for a character that is begun lets through the bytes that go on
    with it, and leads to the state behind them. -/
theorem row_stateOf {n p t : Nat} (hn : n ≤ 2) (hbegun : Begun (n + 1) p) (ht : t < 64) :
    2 ≤ stateOf (n + 1) p ∧ stateOf (n + 1) p ≤ 8 ∧
      ((row (stateOf (n + 1) p)).1 ≤ t + 0x80 ∧ t + 0x80 < (row (stateOf (n + 1) p)).2.1 ↔
        least n ≤ p * 64 + t ∧ Begun n (p * 64 + t)) ∧
      (Begun n (p * 64 + t) → least n ≤ p * 64 + t →
        (row (stateOf (n + 1) p)).2.2 = stateOf n (p * 64 + t)) := by
  obtain rfl | rfl | rfl : n = 0 ∨ n = 1 ∨ n = 2 := by omega
  · rw [begun_one_iff] at hbegun
    simp only [stateOf, row, least, begun_zero_iff, Scalar]
    exact ⟨by decide, by decide, by omega, fun _ _ => rfl⟩
  · rw [begun_two_iff] at hbegun
    rw [begun_one_iff]
    by_cases h0 : p = 0
    · subst h0
      simp only [stateOf, row, least, if_true]
      exact ⟨by decide, by decide, by omega, fun _ _ => trivial⟩
    by_cases hd : p = 0xD
    · subst hd
      simp only [stateOf, row, least, if_true, if_neg h0]
      exact ⟨by decide, by decide, by omega, fun _ _ => trivial⟩
    · simp only [stateOf, row, least, if_neg h0, if_neg hd]
      exact ⟨by decide, by decide, by omega, fun _ _ => trivial⟩
  · rw [begun_three_iff] at hbegun
    rw [begun_two_iff]
    by_cases h0 : p = 0
    · subst h0
      simp only [stateOf, row, least, if_true]
      refine ⟨by decide, by decide, by omega, fun _ hleast => ?_⟩
      rw [if_neg (by omega), if_neg (by omega)]
    by_cases h4 : p = 4
    · subst h4
      simp only [stateOf, row, least, if_true, if_neg h0]
      refine ⟨by decide, by decide, by omega, fun _ hleast => ?_⟩
      rw [if_neg (by omega), if_neg (by omega)]
    · simp only [stateOf, row, least, if_neg h0, if_neg h4]
      refine ⟨by decide, by decide, by omega, fun _ hleast => ?_⟩
      rw [if_neg (by omega), if_neg (by omega)]

theorem decodeByte_of_goesOn {n p b t : Nat} (hn : n ≤ 2) (hbegun : Begun (n + 1) p)
    (h : GoesOn n p b t) : decodeByte (stateOf (n + 1) p) b = stateOf n (p * 64 + t) := by
  obtain ⟨ht, rfl, hleast, hnext⟩ := h
  obtain ⟨hlow, hhigh, hin, hto⟩ := row_stateOf hn hbegun ht
  rw [decodeByte_row hlow hhigh (by omega), if_pos (hin.mpr ⟨hleast, hnext⟩), hto hnext hleast]

theorem decodeByte_of_not_goesOn {n p b : Nat} (hn : n ≤ 2) (hbegun : Begun (n + 1) p)
    (hb : b < 256) (h : ¬ ∃ t, GoesOn n p b t) :
    decodeByte (stateOf (n + 1) p) b = utf8Reject := by
  obtain ⟨hlow, hhigh, -⟩ := row_stateOf hn hbegun (Nat.zero_lt_succ 63)
  rw [decodeByte_row hlow hhigh hb]
  apply if_neg
  intro hin
  -- every row accepts continuation bytes only
  have hrange : ∀ s, s < 9 → 2 ≤ s → 0x80 ≤ (row s).1 ∧ (row s).2.1 ≤ 0xC0 := by decide
  have hbytes := hrange _ (by omega) hlow
  have ht : b - 0x80 < 64 := by omega
  have hsum : b = b - 0x80 + 0x80 := by omega
  obtain ⟨-, -, hiff, -⟩ := row_stateOf hn hbegun ht
  rw [hsum] at hin
  exact h ⟨b - 0x80, ht, hsum, hiff.mp hin⟩

/-! ### What is known of the character that is begun -/

/-- The character being read lacks `n` bytes, and the code point holds its leading bits. -/
structure Inside (n : Nat) (v : Validator) : Prop where
  lacks : n ≤ 3
  state : v.state = stateOf n v.codepoint
  begun : n ≠ 0 → Begun n v.codepoint

/-- What may follow. -/
def Follows (n : Nat) (v : Validator) (bytes : List Nat) : Prop :=
  if n = 0 then WellFormed bytes else Completes n v.codepoint bytes

theorem inside_reset : Inside 0 reset := ⟨by decide, rfl, fun h => absurd rfl h⟩

/-- Behind the last byte of a character its code point is known, and a new one may begin. -/
theorem follows_of_completes {n : Nat} {v : Validator} {bytes : List Nat} :
    Completes n v.codepoint bytes ↔ (n = 0 → Scalar v.codepoint) ∧ Follows n v bytes := by
  unfold Follows
  by_cases hn : n = 0
  · subst hn
    rw [if_pos rfl, completes_zero_iff]
    exact ⟨fun h => ⟨fun _ => h.1, h.2⟩, fun h => ⟨h.1 rfl, h.2⟩⟩
  · rw [if_neg hn]
    exact ⟨fun h => ⟨fun h0 => absurd h0 hn, h⟩, fun h => h.2⟩

theorem stateOf_ne {n p : Nat} (hn : n ≠ 0) : stateOf n p ≠ utf8Accept := by
  unfold stateOf
  split
  · exact absurd rfl hn
  · decide
  · split
    · decide
    split
    · decide
    · decide
  · split
    · decide
    split
    · decide
    · decide

theorem stateOf_ne_reject (n p : Nat) : stateOf n p ≠ utf8Reject := by
  unfold stateOf
  split
  · decide
  · decide
  · split
    · decide
    split
    · decide
    · decide
  · split
    · decide
    split
    · decide
    · decide

/-- Six more bits. -/
theorem codepoint_decode {v : Validator} {t : Nat} (hstate : v.state ≠ utf8Accept)
    (hsmall : v.codepoint < 0x4400) (ht : t < 64) :
    (v.decode (t + 0x80)).codepoint = v.codepoint * 64 + t := by
  have hlow : (t + 0x80) &&& 0x3f = t := by
    have := Nat.and_two_pow_sub_one_eq_mod (t + 0x80) 6
    simp only [Nat.reducePow, Nat.reduceSub] at this
    omega
  have hhigh : (v.codepoint <<< 6) % 2 ^ 32 = v.codepoint <<< 6 := by
    rw [Nat.shiftLeft_eq]
    exact Nat.mod_eq_of_lt (by omega)
  have hor := Nat.shiftLeft_add_eq_or_of_lt (i := 6) ht v.codepoint
  rw [decode]
  simp only [if_pos hstate, hlow, hhigh]
  rw [Nat.or_comm, ← hor, Nat.shiftLeft_eq]

theorem codepoint_lt {n p : Nat} (hn : 1 ≤ n) (hn' : n ≤ 3) (h : Begun n p) : p < 0x4400 := by
  obtain rfl | rfl | rfl : n = 1 ∨ n = 2 ∨ n = 3 := by omega
  · exact (begun_one_iff.mp h).2.1
  · have := begun_two_iff.mp h
    omega
  · have := begun_three_iff.mp h
    omega

/-- A byte inside a character: either it is refused, and nothing that starts with it may
    follow, or it gives six more bits. -/
theorem decode_inside {n : Nat} {v : Validator} (h : Inside (n + 1) v) {b : Nat} (hb : b < 256) :
    ((v.decode b).state = utf8Reject ∧ ∀ bytes, ¬ Follows (n + 1) v (b :: bytes)) ∨
      (Inside n (v.decode b) ∧
        ∀ bytes, Follows (n + 1) v (b :: bytes) ↔ Follows n (v.decode b) bytes) := by
  have hn : n ≤ 2 := Nat.le_of_succ_le_succ h.lacks
  have hbegun := h.begun (Nat.succ_ne_zero n)
  have hstate := h.state
  have hfollows : ∀ bytes, Follows (n + 1) v (b :: bytes) ↔
      ∃ t, t < 64 ∧ b = t + 0x80 ∧ least n ≤ v.codepoint * 64 + t ∧
        Completes n (v.codepoint * 64 + t) bytes := by
    intro bytes
    rw [Follows, if_neg (Nat.succ_ne_zero n)]
    exact completes_cons_iff hn
  by_cases hgoes : ∃ t, GoesOn n v.codepoint b t
  · obtain ⟨t, ht, rfl, hleast, hnext⟩ := hgoes
    have hcode : (v.decode (t + 0x80)).codepoint = v.codepoint * 64 + t :=
      codepoint_decode (by rw [hstate]; exact stateOf_ne (Nat.succ_ne_zero n))
        (codepoint_lt (Nat.succ_pos n) h.lacks hbegun) ht
    have hto : (v.decode (t + 0x80)).state = stateOf n (v.decode (t + 0x80)).codepoint := by
      rw [hcode, decode, hstate]
      exact decodeByte_of_goesOn hn hbegun ⟨ht, rfl, hleast, hnext⟩
    refine Or.inr ⟨⟨Nat.le_succ_of_le hn, hto, fun _ => hcode ▸ hnext⟩, fun bytes => ?_⟩
    rw [hfollows]
    have hscalar : n = 0 → Scalar (v.decode (t + 0x80)).codepoint := by
      rintro rfl
      exact hcode ▸ begun_zero_iff.mp hnext
    constructor
    · rintro ⟨t', -, hsum, -, hrest⟩
      obtain rfl : t = t' := Nat.add_right_cancel hsum
      exact (follows_of_completes.mp (hcode ▸ hrest)).2
    · intro hrest
      exact ⟨t, ht, rfl, hleast, hcode ▸ follows_of_completes.mpr ⟨hscalar, hrest⟩⟩
  · refine Or.inl ⟨?_, fun bytes hbytes => ?_⟩
    · rw [decode, hstate]
      exact decodeByte_of_not_goesOn hn hbegun hb hgoes
    · obtain ⟨t, ht, hsum, hleast, hrest⟩ := (hfollows bytes).mp hbytes
      exact hgoes ⟨t, ht, hsum, hleast, begun_of_completes hrest⟩

/-- The table at a first byte that more bytes have to follow: it lets it through when a
    character begins so, and masks its leading bits out. -/
theorem decodeByte_start_lead {n p : Nat} (hn : 1 ≤ n) (hn' : n ≤ 3) (hp : p < room n) :
    (Begun n p → decodeByte utf8Accept (lead (n + 1) p) = stateOf n p ∧
        (0xff >>> utf8d.getD (lead (n + 1) p) utf8Reject) &&& lead (n + 1) p = p) ∧
      (¬ Begun n p → decodeByte utf8Accept (lead (n + 1) p) = utf8Reject) := by
  obtain rfl | rfl | rfl : n = 1 ∨ n = 2 ∨ n = 3 := by omega
  · have hall : ∀ p, p < 0x20 →
        (2 ≤ p → decodeByte utf8Accept (p + 0xC0) = 2 ∧
          (0xff >>> utf8d.getD (p + 0xC0) utf8Reject) &&& (p + 0xC0) = p) ∧
        (p < 2 → decodeByte utf8Accept (p + 0xC0) = utf8Reject) := by
      decide +kernel
    have hp' : p < 0x20 := hp
    refine ⟨fun h => (hall p hp).1 (begun_one_iff.mp h).1, fun h => (hall p hp).2 ?_⟩
    rw [begun_one_iff] at h
    omega
  · have hall : ∀ p, p < 0x10 → decodeByte utf8Accept (p + 0xE0) = stateOf 2 p ∧
        (0xff >>> utf8d.getD (p + 0xE0) utf8Reject) &&& (p + 0xE0) = p := by
      decide +kernel
    have hp' : p < 0x10 := hp
    exact ⟨fun _ => hall p hp, fun h => absurd (begun_two_iff.mpr (by omega)) h⟩
  · have hall : ∀ p, p < 0x8 →
        (p ≤ 4 → decodeByte utf8Accept (p + 0xF0) = stateOf 3 p ∧
          (0xff >>> utf8d.getD (p + 0xF0) utf8Reject) &&& (p + 0xF0) = p) ∧
        (¬ p ≤ 4 → decodeByte utf8Accept (p + 0xF0) = utf8Reject) := by
      decide +kernel
    rw [begun_three_iff]
    exact hall p hp

theorem exists_lead {b : Nat} (hlow : 0xC0 ≤ b) (hhigh : b < 0xF8) :
    ∃ n p, 1 ≤ n ∧ n ≤ 3 ∧ p < room n ∧ b = lead (n + 1) p := by
  by_cases h2 : b < 0xE0
  · exact ⟨1, b - 0xC0, by decide, by decide, by simp only [room]; omega,
      by simp only [lead]; omega⟩
  by_cases h3 : b < 0xF0
  · exact ⟨2, b - 0xE0, by decide, by decide, by simp only [room]; omega,
      by simp only [lead]; omega⟩
  · exact ⟨3, b - 0xF0, by decide, by decide, by simp only [room]; omega,
      by simp only [lead]; omega⟩

/-- The first byte of a character. -/
theorem decode_start {v : Validator} (h : Inside 0 v) {b : Nat} (hb : b < 256) :
    ((v.decode b).state = utf8Reject ∧ ∀ bytes, ¬ Follows 0 v (b :: bytes)) ∨
      ∃ n, Inside n (v.decode b) ∧
        ∀ bytes, Follows 0 v (b :: bytes) ↔ Follows n (v.decode b) bytes := by
  have hstate : v.state = utf8Accept := h.state
  have hnext : (v.decode b).state = decodeByte utf8Accept b := by rw [decode, hstate]
  have hcode : (v.decode b).codepoint = (0xff >>> utf8d.getD b utf8Reject) &&& b := by
    rw [decode]
    exact if_neg (fun hne => hne hstate)
  by_cases hascii : b < 0x80
  · have htable := decodeByte_start_ascii hascii
    refine Or.inr ⟨0, ⟨by decide, hnext.trans htable.1, fun h0 => absurd rfl h0⟩, fun bytes => ?_⟩
    exact wellFormed_ascii_iff hascii
  have hlow := Nat.not_lt.mp hascii
  by_cases hnone : b < 0xC0 ∨ 0xF8 ≤ b
  · exact Or.inl ⟨hnext.trans (decodeByte_start_none hb hlow hnone),
      fun bytes => not_wellFormed_cons hlow hnone⟩
  obtain ⟨n, p, hn, hn', hp, rfl⟩ := exists_lead (b := b) (by omega) (by omega)
  obtain ⟨hyes, hno⟩ := decodeByte_start_lead hn hn' hp
  have hiff : ∀ bytes, Follows 0 v (lead (n + 1) p :: bytes) ↔ Completes n p bytes :=
    fun bytes => wellFormed_lead_iff hn hn' hp
  by_cases hbegun : Begun n p
  · obtain ⟨hto, hbits⟩ := hyes hbegun
    have hp' : (v.decode (lead (n + 1) p)).codepoint = p := hcode.trans hbits
    refine Or.inr ⟨n, ⟨hn', ?_, fun _ => hp'.symm ▸ hbegun⟩, fun bytes => ?_⟩
    · rw [hnext, hto, hp']
    · rw [hiff, Follows, if_neg (Nat.ne_of_gt hn), hp']
  · exact Or.inl ⟨hnext.trans (hno hbegun),
      fun bytes hbytes => hbegun (begun_of_completes ((hiff bytes).mp hbytes))⟩

/-- One byte, wherever the validator is: it is refused when nothing that starts with it may
    follow, and else what may follow is what may follow it. -/
theorem decode_step {n : Nat} {v : Validator} (h : Inside n v) {b : Nat} (hb : b < 256) :
    ((v.decode b).state = utf8Reject ∧ ∀ bytes, ¬ Follows n v (b :: bytes)) ∨
      ∃ m, Inside m (v.decode b) ∧
        ∀ bytes, Follows n v (b :: bytes) ↔ Follows m (v.decode b) bytes := by
  cases n with
  | zero => exact decode_start h hb
  | succ n =>
    rcases decode_inside h hb with hreject | hinside
    · exact Or.inl hreject
    · exact Or.inr ⟨n, hinside⟩

/-- Something may always follow, so what is not refused can still become a text. -/
theorem exists_follows {n : Nat} {v : Validator} (h : Inside n v) : ∃ bytes, Follows n v bytes := by
  by_cases hn : n = 0
  · exact ⟨[], by rw [Follows, if_pos hn]; exact ⟨[], rfl⟩⟩
  · obtain ⟨bytes, hbytes⟩ := exists_completes (h.begun hn)
    exact ⟨bytes, by rw [Follows, if_neg hn]; exact hbytes⟩

theorem follows_nil_iff {n : Nat} {v : Validator} (h : Inside n v) :
    Follows n v [] ↔ v.complete = true := by
  rw [complete, decide_eq_true_eq, h.state]
  by_cases hn : n = 0
  · subst hn
    exact iff_of_true ⟨[], rfl⟩ rfl
  · obtain ⟨m, rfl⟩ := Nat.exists_eq_succ_of_ne_zero hn
    rw [Follows, if_neg hn]
    exact iff_of_false not_completes_nil (stateOf_ne hn)

/-- The validator over some bytes, from wherever it is. -/
theorem decodeAll_spec {n : Nat} {v : Validator} (h : Inside n v) {bytes : List Nat}
    (hbytes : ∀ b ∈ bytes, b < 256) :
    ((v.decodeAll bytes).2 = false ∧ ∀ rest, ¬ Follows n v (bytes ++ rest)) ∨
      ∃ m, (v.decodeAll bytes).2 = true ∧ Inside m (v.decodeAll bytes).1 ∧
        ∀ rest, Follows n v (bytes ++ rest) ↔ Follows m (v.decodeAll bytes).1 rest := by
  induction bytes generalizing n v with
  | nil => exact Or.inr ⟨n, rfl, h, fun _ => Iff.rfl⟩
  | cons b bytes ih =>
    have hb := hbytes b List.mem_cons_self
    rcases decode_step h hb with ⟨hreject, hnone⟩ | ⟨m, hinside, hiff⟩
    · refine Or.inl ⟨?_, fun rest => hnone (bytes ++ rest)⟩
      simp [decodeAll, consume, hreject]
    · have hgo : v.decodeAll (b :: bytes) = (v.decode b).decodeAll bytes := by
        have hne : (v.decode b).state ≠ utf8Reject := by
          rw [hinside.state]
          exact stateOf_ne_reject _ _
        simp [decodeAll, consume, hne]
      rw [hgo]
      rcases ih hinside (fun d hd => hbytes d (List.mem_cons_of_mem b hd)) with
        ⟨hfalse, hnone⟩ | ⟨k, htrue, hinside', hiff'⟩
      · exact Or.inl ⟨hfalse, fun rest hrest => hnone rest ((hiff (bytes ++ rest)).mp hrest)⟩
      · exact Or.inr ⟨k, htrue, hinside', fun rest => (hiff (bytes ++ rest)).trans (hiff' rest)⟩

end Validator

/-! ### What it accepts -/

/-- A text that is UTF-8. -/
def IsUtf8 (t : Text) : Prop := WellFormed (codes t)

theorem codes_textOf_lt (bytes : List UInt8) : ∀ b ∈ codes (textOf bytes), b < 256 := by
  rw [codes_textOf]
  intro b hb
  obtain ⟨c, -, rfl⟩ := List.mem_map.mp hb
  exact c.toNat_lt

theorem validate_iff_isUtf8 {t : Text} (ht : ∀ b ∈ codes t, b < 256) :
    validate t = true ↔ IsUtf8 t := by
  have heq : validate t = _ := Validator.validateFrom_eq Validator.reset t
  rw [heq, Bool.and_eq_true]
  have hnil : IsUtf8 t ↔ Validator.Follows 0 Validator.reset (codes t ++ []) := by
    rw [List.append_nil]
    exact Iff.rfl
  rw [hnil]
  rcases Validator.decodeAll_spec Validator.inside_reset ht with ⟨hfalse, hnone⟩ |
    ⟨n, htrue, hinside, hiff⟩
  · rw [hfalse]
    exact iff_of_false (fun h => Bool.false_ne_true h.1) (hnone [])
  · rw [hiff, Validator.follows_nil_iff hinside]
    exact ⟨fun h => h.2, fun h => ⟨htrue, h⟩⟩

theorem wellFormed_map_iff {bytes : List UInt8} : WellFormed (bytes.map UInt8.toNat) ↔
    ∃ s : List Char, bytes = s.flatMap String.utf8EncodeChar := by
  constructor
  · rintro ⟨s, hs⟩
    rw [encodeAll_eq] at hs
    exact ⟨s, (List.map_inj_right (fun _ _ h => UInt8.toNat_inj.mp h)).mp hs⟩
  · rintro ⟨s, rfl⟩
    exact ⟨s, (encodeAll_eq s).symm⟩

/-- Bytes that are UTF-8. -/
def Utf8Bytes (bytes : List UInt8) : Prop :=
  ∃ s : List Char, bytes = s.flatMap String.utf8EncodeChar

/-- Bytes that some UTF-8 text starts with. -/
def BeginsUtf8 (bytes : List UInt8) : Prop := ∃ rest, Utf8Bytes (bytes ++ rest)

theorem beginsUtf8_of_utf8Bytes {bytes : List UInt8} (h : Utf8Bytes bytes) : BeginsUtf8 bytes :=
  ⟨[], (List.append_nil bytes).symm ▸ h⟩

theorem validate_textOf_iff (bytes : List UInt8) :
    validate (textOf bytes) = true ↔ Utf8Bytes bytes := by
  rw [validate_iff_isUtf8 (codes_textOf_lt bytes), IsUtf8, codes_textOf, wellFormed_map_iff,
    Utf8Bytes]

namespace Validator

/-- The validator over the bytes of a text, as numbers. -/
def decodeBytes (v : Validator) (bytes : List UInt8) : Validator × Bool :=
  v.decodeAll (bytes.map UInt8.toNat)

theorem toNat_lt (bytes : List UInt8) : ∀ b ∈ bytes.map UInt8.toNat, b < 256 := by
  intro b hb
  rcases List.mem_map.mp hb with ⟨c, -, rfl⟩
  exact c.toNat_lt

/-- What has not been refused so far can become a text, and the other way round. -/
theorem decodeBytes_reset_iff (bytes : List UInt8) :
    (reset.decodeBytes bytes).2 = true ↔ BeginsUtf8 bytes := by
  rcases decodeAll_spec inside_reset (toNat_lt bytes) with
    ⟨hfalse, hnone⟩ | ⟨n, htrue, hinside, hiff⟩
  · refine iff_of_false (fun htrue => Bool.false_ne_true (hfalse.symm.trans htrue)) ?_
    rintro ⟨rest, hs⟩
    apply hnone (rest.map UInt8.toNat)
    rw [← List.map_append]
    exact wellFormed_map_iff.mpr hs
  · refine iff_of_true htrue ?_
    rcases exists_follows hinside with ⟨rest, hrest⟩
    rcases (hiff rest).mpr hrest with ⟨s, hs⟩
    -- the rest of an encoding is made of bytes too
    rw [encodeAll_eq] at hs
    rcases List.append_eq_map_iff.mp hs with ⟨front, back, hcut, hfront, -⟩
    have hbytes : bytes = front :=
      (List.map_inj_right (fun _ _ h => UInt8.toNat_inj.mp h)).mp hfront.symm
    exact ⟨back, s, hbytes ▸ hcut.symm⟩

/-- What has not been refused is a text when the validator says so. -/
theorem complete_decodeBytes_reset_iff {bytes : List UInt8}
    (h : (reset.decodeBytes bytes).2 = true) :
    (reset.decodeBytes bytes).1.complete = true ↔ Utf8Bytes bytes := by
  have hall : Utf8Bytes bytes ↔ Follows 0 reset (bytes.map UInt8.toNat ++ []) := by
    rw [List.append_nil]
    exact wellFormed_map_iff.symm
  rcases decodeAll_spec inside_reset (toNat_lt bytes) with ⟨hfalse, -⟩ | ⟨n, -, hinside, hiff⟩
  · exact absurd (hfalse.symm.trans h) Bool.false_ne_true
  · rw [hall, hiff, follows_nil_iff hinside]
    exact Iff.rfl

/-- A text that comes in two pieces. -/
theorem decodeBytes_append {v : Validator} {xs : List UInt8} (h : (v.decodeBytes xs).2 = true)
    (ys : List UInt8) : v.decodeBytes (xs ++ ys) = (v.decodeBytes xs).1.decodeBytes ys := by
  induction xs generalizing v with
  | nil => rfl
  | cons x xs ih =>
    rw [List.cons_append]
    unfold decodeBytes at h ih ⊢
    rw [List.map_cons, decodeAll] at h ⊢
    rcases hconsume : v.consume x.toNat with ⟨v', accepted⟩
    rw [List.map_cons, decodeAll]
    cases accepted with
    | false =>
      simp only [hconsume] at h
      cases h
    | true =>
      simp only [hconsume] at h ⊢
      exact ih h

end Validator

/-- **What the validator accepts.**  It accepts the bytes of the UTF-8 texts and no others;
    and the bytes it has not refused so far are those some text starts with, so it refuses
    at the first byte that rules a text out. -/
theorem validate_iff_utf8 (bytes : List UInt8) :
    (validate (textOf bytes) = true ↔ ∃ s : List Char, bytes = s.flatMap String.utf8EncodeChar) ∧
    ((Validator.reset.decodeAll (codes (textOf bytes))).2 = true ↔
      ∃ rest, ∃ s : List Char, bytes ++ rest = s.flatMap String.utf8EncodeChar) := by
  constructor
  · exact validate_textOf_iff bytes
  · rw [codes_textOf]
    exact Validator.decodeBytes_reset_iff bytes

end SocketIOStress
