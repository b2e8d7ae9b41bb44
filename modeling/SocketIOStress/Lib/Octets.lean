import Mathlib.Algebra.Group.Nat.Defs

/-!
# Bytes in memory

Numbers in network byte order, arrays of bytes that are written in pieces, and the
masking of a text with a key that repeats every four bytes.
-/

namespace Octets

/-- What is checked of all numbers below 256 holds of all bytes. -/
theorem forall_byte {P : UInt8 → Prop} (h : ∀ n, n < 256 → P (UInt8.ofNat n)) (b : UInt8) :
    P b := by
  have hb := h b.toNat b.toNat_lt
  rwa [UInt8.ofNat_toNat] at hb

/-! ### Network byte order -/

/-- The last `width` bytes of a number, the highest first. -/
def bigEndian : Nat → Nat → List UInt8
  | 0, _ => []
  | width + 1, n => UInt8.ofNat (n / 256 ^ width) :: bigEndian width n

/-- The number some bytes stand for. -/
def value : List UInt8 → Nat
  | [] => 0
  | b :: bytes => b.toNat * 256 ^ bytes.length + value bytes

@[simp] theorem length_bigEndian (width n : Nat) : (bigEndian width n).length = width := by
  induction width with
  | zero => rfl
  | succ width ih => rw [bigEndian, List.length_cons, ih]

theorem value_lt (bytes : List UInt8) : value bytes < 256 ^ bytes.length := by
  induction bytes with
  | nil => exact Nat.one_pos
  | cons b bytes ih =>
    have hb : b.toNat + 1 ≤ 256 := b.toNat_lt
    have hmul := Nat.mul_le_mul_right (256 ^ bytes.length) hb
    rw [Nat.add_mul, Nat.one_mul] at hmul
    rw [value, List.length_cons, Nat.pow_succ, Nat.mul_comm (256 ^ bytes.length)]
    omega

theorem bigEndian_add_mul (width k n : Nat) :
    bigEndian width (k * 256 ^ width + n) = bigEndian width n := by
  induction width generalizing k n with
  | zero => rfl
  | succ width ih =>
    have hpow : k * 256 ^ (width + 1) = k * 256 * 256 ^ width := by
      rw [Nat.pow_succ, Nat.mul_comm (256 ^ width), Nat.mul_assoc]
    rw [bigEndian, bigEndian, hpow, ih]
    have hdiv : (k * 256 * 256 ^ width + n) / 256 ^ width = k * 256 + n / 256 ^ width := by
      rw [Nat.add_comm, Nat.add_mul_div_right _ _ (Nat.pow_pos (by decide)), Nat.add_comm]
    rw [hdiv]
    have hbyte : UInt8.ofNat (k * 256 + n / 256 ^ width) = UInt8.ofNat (n / 256 ^ width) := by
      apply UInt8.toNat_inj.mp
      rw [UInt8.toNat_ofNat', UInt8.toNat_ofNat']
      omega
    rw [hbyte]

theorem bigEndian_value (bytes : List UInt8) : bigEndian bytes.length (value bytes) = bytes := by
  induction bytes with
  | nil => rfl
  | cons b bytes ih =>
    rw [List.length_cons, bigEndian, value, bigEndian_add_mul, ih]
    have hdiv : (b.toNat * 256 ^ bytes.length + value bytes) / 256 ^ bytes.length = b.toNat := by
      rw [Nat.add_comm, Nat.add_mul_div_right _ _ (Nat.pow_pos (by decide)),
        Nat.div_eq_of_lt (value_lt bytes), Nat.zero_add]
    rw [hdiv, UInt8.ofNat_toNat]

theorem value_bigEndian {width n : Nat} (h : n < 256 ^ width) : value (bigEndian width n) = n := by
  induction width generalizing n with
  | zero =>
    rw [Nat.pow_zero] at h
    exact (Nat.lt_one_iff.mp h).symm
  | succ width ih =>
    have hpos : 0 < 256 ^ width := Nat.pow_pos (by decide)
    have hhigh : n / 256 ^ width < 256 := by
      rw [Nat.div_lt_iff_lt_mul hpos, ← Nat.pow_succ']
      exact h
    have hsplit : bigEndian width n = bigEndian width (n % 256 ^ width) := by
      have := bigEndian_add_mul width (n / 256 ^ width) (n % 256 ^ width)
      rwa [Nat.mul_comm, Nat.div_add_mod] at this
    rw [bigEndian, value, length_bigEndian, hsplit, ih (Nat.mod_lt _ hpos), UInt8.toNat_ofNat',
      Nat.mod_eq_of_lt hhigh, Nat.mul_comm, Nat.div_add_mod]

/-! ### Arrays -/

/-- An array of so many bytes. -/
@[ext] structure Buffer (size : Nat) where
  bytes : List UInt8
  length_eq : bytes.length = size
deriving DecidableEq, Repr

namespace Buffer

variable {size : Nat}

/-- `memset` to zero. -/
def zero (size : Nat) : Buffer size := ⟨List.replicate size 0, List.length_replicate⟩

/-- The byte at an index; zero past the end. -/
def get (m : Buffer size) (i : Nat) : UInt8 := m.bytes.getD i 0

/-- So many bytes from an offset on. -/
def read (m : Buffer size) (offset count : Nat) : List UInt8 := (m.bytes.drop offset).take count

/-- A byte of the array replaced by a function of it. -/
def modify (m : Buffer size) (i : Nat) (f : UInt8 → UInt8) : Buffer size :=
  ⟨m.bytes.set i (f (m.get i)), (List.length_set).trans m.length_eq⟩

/-- So many bytes from an offset on, as an array of their own. -/
def slice (m : Buffer size) (offset count : Nat) (h : offset + count ≤ size) : Buffer count :=
  ⟨m.read offset count, by
    have := m.length_eq
    simp only [read, List.length_take, List.length_drop]
    omega⟩

/-- Bytes copied to an offset; none when they do not fit. -/
def write (m : Buffer size) (offset : Nat) (bytes : List UInt8) : Option (Buffer size) :=
  if h : offset + bytes.length ≤ size then
    some ⟨m.bytes.take offset ++ bytes ++ m.bytes.drop (offset + bytes.length), by
      have := m.length_eq
      simp only [List.length_append, List.length_take, List.length_drop]
      omega⟩
  else none

theorem modify_one {m : Buffer size} {x y : UInt8} {rest : List UInt8}
    (h : m.bytes = x :: y :: rest) (f : UInt8 → UInt8) :
    (m.modify 1 f).bytes = x :: f y :: rest := by
  simp only [modify, get, h]
  rfl

/-- Writing behind some bytes leaves those in front and those past the end of what is written. -/
theorem write_of_append {m : Buffer size} (front old back : List UInt8) {bytes : List UInt8}
    (hm : m.bytes = front ++ (old ++ back)) (hlength : bytes.length = old.length) :
    ∃ m', m.write front.length bytes = some m' ∧ m'.bytes = front ++ (bytes ++ back) := by
  have hsize := m.length_eq
  rw [hm, List.length_append, List.length_append] at hsize
  have hfits : front.length + bytes.length ≤ size := by omega
  refine ⟨_, by rw [write, dif_pos hfits], ?_⟩
  simp only [hm, hlength]
  rw [List.take_left', List.drop_append, List.append_assoc]
  · simp
  · rfl

theorem read_of_append {m : Buffer size} (front bytes back : List UInt8)
    (hm : m.bytes = front ++ (bytes ++ back)) :
    m.read front.length bytes.length = bytes := by
  rw [read, hm, List.drop_left', List.take_left']
  · rfl
  · rfl

/-- A write that succeeds stays within the array. -/
theorem write_eq_some_iff {m m' : Buffer size} {offset : Nat} {bytes : List UInt8} :
    m.write offset bytes = some m' ↔ offset + bytes.length ≤ size ∧
      m'.bytes = m.bytes.take offset ++ bytes ++ m.bytes.drop (offset + bytes.length) := by
  unfold write
  split
  · rename_i hfits
    rw [Option.some.injEq, Buffer.ext_iff, eq_comm]
    exact ⟨fun h => ⟨hfits, h⟩, fun h => h.2⟩
  · rename_i hfits
    exact ⟨nofun, fun h => absurd h.1 hfits⟩

theorem get_write_of_lt {m m' : Buffer size} {offset i : Nat} {bytes : List UInt8}
    (h : m.write offset bytes = some m') (hi : i < offset) : m'.get i = m.get i := by
  rcases write_eq_some_iff.mp h with ⟨hfits, hm'⟩
  have hlength := m.length_eq
  have hfront : i < (m.bytes.take offset).length := by
    rw [List.length_take]
    omega
  rw [get, get, hm', List.append_assoc, List.getD_eq_getElem?_getD,
    List.getElem?_append_left hfront, List.getElem?_take_of_lt hi, ← List.getD_eq_getElem?_getD]

/-- Two writes, the second behind the first, are one. -/
theorem write_write {m m' : Buffer size} {offset : Nat} {xs : List UInt8}
    (h : m.write offset xs = some m') (ys : List UInt8) :
    m'.write (offset + xs.length) ys = m.write offset (xs ++ ys) := by
  rw [write_eq_some_iff] at h
  obtain ⟨hfits, hm'⟩ := h
  have hlength := m.length_eq
  have htotal : offset + (xs ++ ys).length = offset + xs.length + ys.length := by
    rw [List.length_append, Nat.add_assoc]
  by_cases hfits' : offset + xs.length + ys.length ≤ size
  · have htake : (m.bytes.take offset ++ xs).length = offset + xs.length := by
      rw [List.length_append, List.length_take]
      omega
    rw [write, dif_pos hfits', write, dif_pos (htotal ▸ hfits'), Option.some.injEq, Buffer.ext_iff]
    simp only [hm', htotal]
    rw [List.take_left' htake, ← htake, List.drop_length_add_append, List.drop_drop, htake]
    simp only [List.append_assoc]
  · rw [write, dif_neg hfits', write, dif_neg (htotal ▸ hfits')]

end Buffer

end Octets
