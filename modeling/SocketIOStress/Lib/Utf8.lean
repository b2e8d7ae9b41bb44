import Mathlib.Algebra.Group.Nat.Defs

/-!
# UTF-8, one byte at a time

The encoding is that of the standard library, `String.utf8EncodeChar`; here it is
read from the front.  Behind the first bytes of a character stand the number of
bytes it still lacks and its leading bits, and these two decide what may follow.
-/

namespace Utf8

/-- A scalar value: a code point that is no surrogate. -/
def Scalar (v : Nat) : Prop := v < 0xD800 ∨ (0xDFFF < v ∧ v < 0x110000)

instance (v : Nat) : Decidable (Scalar v) := inferInstanceAs (Decidable (_ ∨ _))

/-- How many bytes a code point takes. -/
def size (v : Nat) : Nat :=
  if v ≤ 0x7F then 1 else if v ≤ 0x7FF then 2 else if v ≤ 0xFFFF then 3 else 4

/-- The first byte of an encoding of a given length. -/
def lead (length bits : Nat) : Nat :=
  match length with
  | 1 => bits
  | 2 => bits + 0xC0
  | 3 => bits + 0xE0
  | _ => bits + 0xF0

/-- The last `n` bytes of an encoding, six bits each. -/
def tails : Nat → Nat → List Nat
  | 0, _ => []
  | n + 1, v => (v / 64 ^ n % 64 + 0x80) :: tails n v

def encode (v : Nat) : List Nat :=
  lead (size v) (v / 64 ^ (size v - 1)) :: tails (size v - 1) v

/-- The bytes of a text of scalar values. -/
def encodeAll (s : List Char) : List Nat := s.flatMap (fun c => encode c.toNat)

theorem encodeAll_cons (c : Char) (s : List Char) :
    encodeAll (c :: s) = encode c.toNat ++ encodeAll s := rfl

theorem scalar_toNat (c : Char) : Scalar c.toNat := by
  rcases c.valid with h | ⟨h, h'⟩
  · exact Or.inl h
  · exact Or.inr ⟨h, h'⟩

theorem exists_char {v : Nat} (h : Scalar v) : ∃ c : Char, c.toNat = v := by
  refine ⟨Char.ofNat v, ?_⟩
  have hvalid : v.isValidChar := h
  rw [Char.ofNat, dif_pos hvalid]
  rfl

theorem size_pos (v : Nat) : 0 < size v := by
  unfold size
  split
  · decide
  split
  · decide
  split
  · decide
  · decide

theorem size_le (v : Nat) : size v ≤ 4 := by
  unfold size
  split
  · decide
  split
  · decide
  split
  · decide
  · decide

theorem size_eq_one_iff {v : Nat} : size v = 1 ↔ v ≤ 0x7F := by
  unfold size
  split
  · simp [*]
  split
  · simp [*]
  split
  · simp [*]
  · simp [*]

/-- The encoding is the one of the standard library. -/
theorem encode_toNat (c : Char) :
    encode c.toNat = (String.utf8EncodeChar c).map UInt8.toNat := by
  have hscalar := scalar_toNat c
  have hval : c.val.toNat = c.toNat := rfl
  unfold Scalar at hscalar
  unfold encode size String.utf8EncodeChar
  rw [hval]
  by_cases h1 : c.toNat ≤ 0x7F
  · simp [h1, lead, tails]
    omega
  by_cases h2 : c.toNat ≤ 0x7FF
  · simp [h1, h2, lead, tails]
    omega
  by_cases h3 : c.toNat ≤ 0xFFFF
  · simp [h1, h2, h3, lead, tails]
    omega
  · simp [h1, h2, h3, lead, tails]
    omega

theorem encodeAll_eq (s : List Char) :
    encodeAll s = (s.flatMap String.utf8EncodeChar).map UInt8.toNat := by
  unfold encodeAll
  rw [List.map_flatMap]
  exact congrArg (List.flatMap · s) (funext encode_toNat)

/-! ### A character that is begun -/

/-- The first bytes of `v` are read, `n` are still to come, and their bits are `p`. -/
def BegunBy (n p v : Nat) : Prop := Scalar v ∧ n < size v ∧ v / 64 ^ n = p

def Begun (n p : Nat) : Prop := ∃ v, BegunBy n p v

theorem begun_zero_iff {v : Nat} : Begun 0 v ↔ Scalar v := by
  constructor
  · rintro ⟨w, hscalar, -, hw⟩
    rw [Nat.pow_zero, Nat.div_one] at hw
    exact hw ▸ hscalar
  · intro h
    exact ⟨v, h, size_pos v, Nat.div_one v⟩

/-- The leading bits an encoding can have when so many bytes are still to come. -/
theorem begun_one_iff {p : Nat} : Begun 1 p ↔ 2 ≤ p ∧ p < 0x4400 ∧ ¬ (0x360 ≤ p ∧ p ≤ 0x37F) := by
  unfold Begun BegunBy Scalar
  constructor
  · rintro ⟨v, hscalar, hsize, rfl⟩
    unfold size at hsize
    split at hsize
    · omega
    omega
  · intro h
    refine ⟨p * 64, by omega, ?_, by omega⟩
    unfold size
    split
    · omega
    split
    · decide
    split
    · decide
    · decide

theorem begun_two_iff {p : Nat} : Begun 2 p ↔ p < 0x110 := by
  unfold Begun BegunBy Scalar
  constructor
  · rintro ⟨v, hscalar, -, rfl⟩
    omega
  · intro h
    -- the last code point with these leading bits is long enough, and no surrogate but for 0xD
    by_cases hd : p = 0xD
    · subst hd
      exact ⟨0xD000, by decide, by decide, by decide⟩
    · refine ⟨p * 4096 + 4095, by omega, ?_, by omega⟩
      unfold size
      split
      · omega
      split
      · omega
      split
      · decide
      · decide

theorem begun_three_iff {p : Nat} : Begun 3 p ↔ p ≤ 4 := by
  unfold Begun BegunBy Scalar
  constructor
  · rintro ⟨v, hscalar, -, rfl⟩
    omega
  · intro h
    by_cases hp : p = 0
    · subst hp
      exact ⟨0x10000, by decide, by decide, by decide⟩
    · refine ⟨p * 262144, by omega, ?_, by omega⟩
      unfold size
      split
      · omega
      split
      · omega
      split
      · omega
      · decide

/-- The least leading bits with which one byte more was needed to come to them. -/
def least : Nat → Nat
  | 0 => 0x80
  | 1 => 0x20
  | _ => 0x10

theorem succ_lt_size_iff {n q v : Nat} (hn : n ≤ 2) (hv : v / 64 ^ n = q) (hsize : n < size v) :
    n + 1 < size v ↔ least n ≤ q := by
  unfold size at hsize ⊢
  subst hv
  rcases n with _ | _ | _ | n
  · simp only [least]
    split
    · omega
    split
    · omega
    split
    · omega
    · omega
  · simp only [least]
    split at hsize
    · omega
    rw [if_neg (by assumption)]
    split
    · omega
    split
    · omega
    · omega
  · simp only [least]
    split at hsize
    · omega
    split at hsize
    · omega
    rw [if_neg (by assumption), if_neg (by assumption)]
    split
    · omega
    · omega
  · omega

/-- The next byte of a character that is begun gives six more bits of it. -/
theorem begunBy_succ_iff {n p v : Nat} (hn : n ≤ 2) :
    BegunBy (n + 1) p v ↔
      ∃ t, v / 64 ^ n % 64 = t ∧ least n ≤ p * 64 + t ∧ BegunBy n (p * 64 + t) v := by
  have hdiv : v / 64 ^ (n + 1) = v / 64 ^ n / 64 := by
    rw [Nat.pow_succ, Nat.div_div_eq_div_mul]
  constructor
  · rintro ⟨hscalar, hsize, hp⟩
    have hbits : v / 64 ^ n = p * 64 + v / 64 ^ n % 64 := by omega
    exact ⟨v / 64 ^ n % 64, rfl,
      (succ_lt_size_iff hn hbits (Nat.lt_of_succ_lt hsize)).mp hsize,
      hscalar, Nat.lt_of_succ_lt hsize, hbits⟩
  · rintro ⟨t, ht, hleast, hscalar, hsize, hbits⟩
    exact ⟨hscalar, (succ_lt_size_iff hn hbits hsize).mpr hleast, by omega⟩

/-! ### What may follow -/

/-- The end of a character that is begun, then whole characters. -/
def Completes (n p : Nat) (bs : List Nat) : Prop :=
  ∃ v s, BegunBy n p v ∧ bs = tails n v ++ encodeAll s

def WellFormed (bs : List Nat) : Prop := ∃ s, bs = encodeAll s

theorem completes_zero_iff {v : Nat} {bs : List Nat} :
    Completes 0 v bs ↔ Scalar v ∧ WellFormed bs := by
  constructor
  · rintro ⟨w, s, ⟨hscalar, -, hw⟩, rfl⟩
    rw [Nat.pow_zero, Nat.div_one] at hw
    exact ⟨hw ▸ hscalar, s, rfl⟩
  · rintro ⟨hscalar, s, rfl⟩
    exact ⟨v, s, ⟨hscalar, size_pos v, Nat.div_one v⟩, rfl⟩

theorem not_completes_nil {n p : Nat} : ¬ Completes (n + 1) p [] := by
  rintro ⟨v, s, -, hbs⟩
  simp [tails] at hbs

theorem completes_cons_iff {n p b : Nat} {bs : List Nat} (hn : n ≤ 2) :
    Completes (n + 1) p (b :: bs) ↔
      ∃ t, t < 64 ∧ b = t + 0x80 ∧ least n ≤ p * 64 + t ∧ Completes n (p * 64 + t) bs := by
  constructor
  · rintro ⟨v, s, hbegun, hbs⟩
    obtain ⟨t, ht, hleast, hbegun⟩ := (begunBy_succ_iff hn).mp hbegun
    rw [tails, List.cons_append, List.cons.injEq] at hbs
    exact ⟨t, ht ▸ Nat.mod_lt _ (by decide), ht ▸ hbs.1, hleast, v, s, hbegun, hbs.2⟩
  · rintro ⟨t, ht, rfl, hleast, v, s, hbegun, rfl⟩
    have hdigit : v / 64 ^ n % 64 = t := by
      have := hbegun.2.2
      omega
    refine ⟨v, s, (begunBy_succ_iff hn).mpr ⟨t, hdigit, hleast, hbegun⟩, ?_⟩
    rw [tails, hdigit, List.cons_append]

/-- The leading bits a first byte has room for, when so many bytes follow it. -/
def room : Nat → Nat
  | 1 => 0x20
  | 2 => 0x10
  | _ => 0x08

theorem size_of_begunBy {n p v : Nat} (hn : 1 ≤ n) (hn' : n ≤ 3) (hp : p < room n)
    (h : BegunBy n p v) : size v = n + 1 := by
  obtain ⟨hscalar, hsize, rfl⟩ := h
  have hle := size_le v
  obtain rfl | rfl | rfl : n = 1 ∨ n = 2 ∨ n = 3 := by omega
  · have hnot : ¬ 1 + 1 < size v := by
      rw [succ_lt_size_iff (by decide) rfl hsize]
      exact Nat.not_le_of_lt hp
    omega
  · have hnot : ¬ 2 + 1 < size v := by
      rw [succ_lt_size_iff (by decide) rfl hsize]
      exact Nat.not_le_of_lt hp
    omega
  · omega

theorem room_of_size {v : Nat} (hscalar : Scalar v) (hsize : 1 < size v) :
    v / 64 ^ (size v - 1) < room (size v - 1) := by
  unfold Scalar at hscalar
  unfold size at hsize ⊢
  split
  · rename_i h
    rw [if_pos h] at hsize
    exact absurd hsize (by decide)
  split
  · simp only [room]
    omega
  split
  · simp only [room]
    omega
  · simp only [room]
    omega

/-- A text is one whole byte and a text, or the first byte of a longer character and what
    completes it. -/
theorem wellFormed_cons_iff {b : Nat} {bs : List Nat} :
    WellFormed (b :: bs) ↔ (b < 0x80 ∧ WellFormed bs) ∨
      ∃ n p, 1 ≤ n ∧ n ≤ 3 ∧ p < room n ∧ b = lead (n + 1) p ∧ Completes n p bs := by
  constructor
  · rintro ⟨s, hs⟩
    cases s with
    | nil => cases hs
    | cons c s =>
      rw [encodeAll_cons, encode, List.cons_append, List.cons.injEq] at hs
      obtain ⟨hb, hbs⟩ := hs
      have hscalar := scalar_toNat c
      by_cases hsize : 1 < size c.toNat
      · have hle := size_le c.toNat
        refine Or.inr ⟨size c.toNat - 1, _, by omega, by omega, room_of_size hscalar hsize, ?_,
          c.toNat, s, ⟨hscalar, by omega, rfl⟩, hbs⟩
        rw [Nat.sub_add_cancel (size_pos c.toNat)]
        exact hb
      · have hone : size c.toNat = 1 := Nat.le_antisymm (Nat.not_lt.mp hsize) (size_pos _)
        rw [hone] at hb hbs
        have hascii := size_eq_one_iff.mp hone
        simp only [lead, Nat.sub_self, Nat.pow_zero, Nat.div_one] at hb
        exact Or.inl ⟨by omega, s, hbs⟩
  · rintro (⟨hb, s, rfl⟩ | ⟨n, p, hn, hn', hp, rfl, v, s, hbegun, rfl⟩)
    · obtain ⟨c, hc⟩ := exists_char (v := b) (Or.inl (by omega))
      have hone : size b = 1 := if_pos (by omega)
      refine ⟨c :: s, ?_⟩
      have hencode : encode b = [b] := by
        simp only [encode, hone, lead, tails, Nat.sub_self, Nat.pow_zero, Nat.div_one]
      rw [encodeAll_cons, hc, hencode]
      rfl
    · have hsize := size_of_begunBy hn hn' hp hbegun
      obtain ⟨c, hc⟩ := exists_char hbegun.1
      refine ⟨c :: s, ?_⟩
      rw [encodeAll_cons, hc, encode, hsize, Nat.add_sub_cancel, hbegun.2.2]
      rfl

theorem begun_of_completes {n p : Nat} {bs : List Nat} (h : Completes n p bs) : Begun n p := by
  obtain ⟨v, s, hbegun, -⟩ := h
  exact ⟨v, hbegun⟩

theorem exists_completes {n p : Nat} (h : Begun n p) : ∃ bs, Completes n p bs := by
  obtain ⟨v, hbegun⟩ := h
  exact ⟨tails n v, v, [], hbegun, (List.append_nil _).symm⟩

/-- The first byte says how many follow and what the leading bits are. -/
theorem lead_inj {n p n' p' : Nat} (hn : 1 ≤ n) (hn' : n ≤ 3) (hp : p < room n)
    (hm : 1 ≤ n') (hm' : n' ≤ 3) (hp' : p' < room n') (h : lead (n + 1) p = lead (n' + 1) p') :
    n = n' ∧ p = p' := by
  obtain rfl | rfl | rfl : n = 1 ∨ n = 2 ∨ n = 3 := by omega
  all_goals
    obtain rfl | rfl | rfl : n' = 1 ∨ n' = 2 ∨ n' = 3 := by omega
    all_goals
      simp only [lead, room] at h hp hp'
      omega

theorem lead_range {n p : Nat} (hn : 1 ≤ n) (hn' : n ≤ 3) (hp : p < room n) :
    0xC0 ≤ lead (n + 1) p ∧ lead (n + 1) p < 0xF8 := by
  obtain rfl | rfl | rfl : n = 1 ∨ n = 2 ∨ n = 3 := by omega
  all_goals
    simp only [lead, room] at hp ⊢
    omega

theorem wellFormed_ascii_iff {b : Nat} {bs : List Nat} (hb : b < 0x80) :
    WellFormed (b :: bs) ↔ WellFormed bs := by
  rw [wellFormed_cons_iff]
  constructor
  · rintro (⟨-, h⟩ | ⟨n, p, hn, hn', hp, hlead, -⟩)
    · exact h
    · have := lead_range hn hn' hp
      omega
  · exact fun h => Or.inl ⟨hb, h⟩

theorem wellFormed_lead_iff {n p : Nat} {bs : List Nat} (hn : 1 ≤ n) (hn' : n ≤ 3)
    (hp : p < room n) : WellFormed (lead (n + 1) p :: bs) ↔ Completes n p bs := by
  rw [wellFormed_cons_iff]
  constructor
  · rintro (⟨hlow, -⟩ | ⟨m, q, hm, hm', hq, hlead, h⟩)
    · have := lead_range hn hn' hp
      omega
    · obtain ⟨rfl, rfl⟩ := lead_inj hn hn' hp hm hm' hq hlead
      exact h
  · exact fun h => Or.inr ⟨n, p, hn, hn', hp, rfl, h⟩

/-- A continuation byte, and a byte past all first bytes, begin nothing. -/
theorem not_wellFormed_cons {b : Nat} {bs : List Nat} (hlow : 0x80 ≤ b)
    (h : b < 0xC0 ∨ 0xF8 ≤ b) : ¬ WellFormed (b :: bs) := by
  rw [wellFormed_cons_iff]
  rintro (⟨hb, -⟩ | ⟨n, p, hn, hn', hp, rfl, -⟩)
  · omega
  · have := lead_range hn hn' hp
    omega

end Utf8
