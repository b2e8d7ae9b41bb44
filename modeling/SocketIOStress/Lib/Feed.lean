/-!
# Readers that are fed

A reader takes a stream in rounds.  Each round says beforehand how much it wants
and uses that much when it is there; when it is not, it takes what there is and
wants the rest.  A reader goes on until it stops by itself, until a round raises
an error, or until the stream is short of what a round wants.

Here are the loop, its recursion equation, and the rule that makes such a reader
independent of how its stream is cut: it is enough to look at one round.  A round
that takes its elements one by one has a loop of its own, for which the same holds.
-/

namespace Feed

variable {σ α ε : Type}

structure Reader (σ α ε : Type) where
  /-- The reader needs nothing more. -/
  stopped : σ → Bool
  wanted : σ → Nat
  /-- The state behind a round, what it leaves of the stream, and whether it raises. -/
  round : σ → List α → σ × List α × Except ε Unit
  /-- What becomes of the state when a round raises. -/
  caught : σ → ε → σ

/-- How a reader comes to an end. -/
inductive Ending (ε : Type) where
  | starved
  | stopped
  | raised (e : ε)
deriving DecidableEq, Repr

abbrev Outcome (σ α ε : Type) := σ × List α × Ending ε

namespace Reader

variable (r : Reader σ α ε)

/-- At most so many rounds. -/
def readWithin : Nat → σ → List α → Outcome σ α ε
  | 0, s, input => (s, input, .starved)
  | bound + 1, s, input =>
      if r.stopped s then (s, input, .stopped)
      else
        match r.round s input with
        | (s', rest, .error e) => (r.caught s' e, rest, .raised e)
        | (s', rest, .ok _) =>
            if input.length < r.wanted s then (s', rest, .starved) else readWithin bound s' rest

/-- A bound that is large enough for a lawful reader. -/
def bound (input : List α) : Nat := 2 * input.length + 3

def read (s : σ) (input : List α) : Outcome σ α ε := r.readWithin (bound input) s input

theorem stopped_of_read {s s' : σ} {input rest : List α}
    (h : r.read s input = (s', rest, .stopped)) : r.stopped s' = true := by
  have hwithin : ∀ n s input, r.readWithin n s input = (s', rest, .stopped) →
      r.stopped s' = true := by
    intro n
    induction n with
    | zero =>
      intro s input h
      cases h
    | succ n ih =>
      intro s input h
      rw [readWithin] at h
      split at h
      · rename_i hstopped
        cases h
        exact hstopped
      rcases hround : r.round s input with ⟨s₁, rest₁, e | u⟩
      · simp only [hround] at h
        cases h
      · simp only [hround] at h
        split at h
        · cases h
        · exact ih s₁ rest₁ h
  exact hwithin _ s input h

/-- How many rounds there can be at most. -/
def budget (s : σ) (input : List α) : Nat :=
  if r.stopped s then 0 else 2 * input.length + (if 0 < r.wanted s then 0 else 1) + 1

theorem budget_lt_bound (s : σ) (input : List α) : r.budget s input < bound input := by
  unfold budget bound
  split
  · omega
  split
  · omega
  · omega

/-- What two readings that end with an error may still differ in is left to `Same`. -/
def Agree (Same : σ → σ → Prop) (a b : Outcome σ α ε) : Prop :=
  a = b ∨ ∃ e, a.2.2 = .raised e ∧ b.2.2 = .raised e ∧ a.2.1 = b.2.1 ∧ Same a.1 b.1

/-- What a round must keep to. -/
structure Lawful (Inv : σ → Prop) (Same : σ → σ → Prop) : Prop where
  trans : ∀ {a b c}, Same a b → Same b c → Same a c
  inv : ∀ {s s' input rest}, Inv s → r.round s input = (s', rest, .ok ()) → Inv s'
  /-- A round that gets what it wants does not look further. -/
  long : ∀ {s xs}, Inv s → r.stopped s = false → r.wanted s ≤ xs.length → ∀ ys,
    r.round s (xs ++ ys) = ((r.round s xs).1, (r.round s xs).2.1 ++ ys, (r.round s xs).2.2)
  uses : ∀ {s s' xs rest}, Inv s → r.stopped s = false → r.wanted s ≤ xs.length →
    r.round s xs = (s', rest, .ok ()) → rest.length + r.wanted s = xs.length
  /-- No two rounds in a row want nothing. -/
  wants : ∀ {s s' xs rest}, Inv s → r.stopped s = false → r.wanted s = 0 →
    r.round s xs = (s', rest, .ok ()) → 0 < r.wanted s' ∨ r.stopped s' = true
  short_raised : ∀ {s s' xs rest e}, Inv s → r.stopped s = false → xs.length < r.wanted s →
    r.round s xs = (s', rest, .error e) → ∀ ys, r.round s (xs ++ ys) = (s', rest ++ ys, .error e)
  /-- A round that gets less goes on where it was. -/
  short_ok : ∀ {s s' xs rest}, Inv s → r.stopped s = false → xs.length < r.wanted s →
    r.round s xs = (s', rest, .ok ()) →
      r.stopped s' = false ∧ rest = [] ∧ r.wanted s' + xs.length = r.wanted s ∧
      ∀ ys, r.round s (xs ++ ys) = r.round s' ys ∨
        ∃ e a b back, r.round s (xs ++ ys) = (a, back, .error e) ∧
          r.round s' ys = (b, back, .error e) ∧ Same (r.caught a e) (r.caught b e)

namespace Lawful

variable {r} {Inv : σ → Prop} {Same : σ → σ → Prop}

/-- What a round takes off the budget: bytes, or the right to want nothing. -/
theorem budget_lt (hr : r.Lawful Inv Same) {s s' : σ} {xs rest : List α} (hs : Inv s)
    (hstopped : r.stopped s = false) (hwanted : r.wanted s ≤ xs.length)
    (hround : r.round s xs = (s', rest, .ok ())) : r.budget s' rest < r.budget s xs := by
  have huses := hr.uses hs hstopped hwanted hround
  have hbudget : r.budget s xs = 2 * xs.length + (if 0 < r.wanted s then 0 else 1) + 1 := by
    rw [budget, hstopped]
    rfl
  rw [hbudget]
  cases hnext : r.stopped s' with
  | true =>
    rw [budget, if_pos hnext]
    exact Nat.succ_pos _
  | false =>
    have hbudget' :
        r.budget s' rest = 2 * rest.length + (if 0 < r.wanted s' then 0 else 1) + 1 := by
      rw [budget, hnext]
      rfl
    rw [hbudget']
    by_cases hpos : 0 < r.wanted s
    · rw [if_pos hpos]
      split
      · omega
      · omega
    · have hwants : 0 < r.wanted s' := by
        rcases hr.wants hs hstopped (Nat.eq_zero_of_not_pos hpos) hround with hwants | hstops
        · exact hwants
        · rw [hnext] at hstops
          cases hstops
      rw [if_neg hpos, if_pos hwants]
      omega

/-- More rounds than the budget make no difference. -/
theorem readWithin_eq (hr : r.Lawful Inv Same) {n m : Nat} {s : σ} {input : List α} (hs : Inv s)
    (hn : r.budget s input < n) (hm : r.budget s input < m) :
    r.readWithin n s input = r.readWithin m s input := by
  induction n generalizing m s input with
  | zero => exact absurd hn (Nat.not_lt_zero _)
  | succ n ih =>
    cases m with
    | zero => exact absurd hm (Nat.not_lt_zero _)
    | succ m =>
      rw [readWithin, readWithin]
      cases hstopped : r.stopped s with
      | true => rfl
      | false =>
        rcases hround : r.round s input with ⟨s', rest, result⟩
        cases result with
        | error e => rfl
        | ok u =>
          by_cases hstarved : input.length < r.wanted s
          · simp only [hstarved, if_true]
          simp only [hstarved, if_false, Bool.false_eq_true]
          have hless := hr.budget_lt hs hstopped (Nat.not_lt.mp hstarved) hround
          exact ih (hr.inv hs hround) (Nat.lt_of_lt_of_le hless (Nat.le_of_lt_succ hn))
            (Nat.lt_of_lt_of_le hless (Nat.le_of_lt_succ hm))

theorem readWithin_bound (hr : r.Lawful Inv Same) {n : Nat} {s : σ} {input : List α} (hs : Inv s)
    (hn : r.budget s input < n) : r.readWithin n s input = r.read s input :=
  hr.readWithin_eq hs hn (r.budget_lt_bound s input)

/-- The recursion equation of the loop. -/
theorem read_eq (hr : r.Lawful Inv Same) {s : σ} (hs : Inv s) (input : List α) :
    r.read s input =
      if r.stopped s then (s, input, .stopped)
      else
        match r.round s input with
        | (s', rest, .error e) => (r.caught s' e, rest, .raised e)
        | (s', rest, .ok _) =>
            if input.length < r.wanted s then (s', rest, .starved) else r.read s' rest := by
  have hbound := r.budget_lt_bound s input
  rw [← hr.readWithin_bound hs (Nat.lt_succ_of_lt hbound), readWithin]
  cases hstopped : r.stopped s with
  | true => rfl
  | false =>
    rcases hround : r.round s input with ⟨s', rest, result⟩
    cases result with
    | error e => rfl
    | ok u =>
      by_cases hstarved : input.length < r.wanted s
      · simp only [hstarved, if_true]
      simp only [hstarved, if_false, Bool.false_eq_true]
      have hless := hr.budget_lt hs hstopped (Nat.not_lt.mp hstarved) hround
      exact hr.readWithin_bound (hr.inv hs hround) (Nat.lt_trans hless hbound)

/-- A reading that comes to a stop has used what its first round wanted. -/
theorem length_of_read (hr : r.Lawful Inv Same) {s s' : σ} {xs rest : List α} (hs : Inv s)
    (hstopped : r.stopped s = false) (hread : r.read s xs = (s', rest, .stopped)) :
    rest.length + r.wanted s ≤ xs.length := by
  induction hn : r.budget s xs using Nat.strongRecOn generalizing s xs with
  | ind n ih =>
    rw [hr.read_eq hs] at hread
    simp only [hstopped, Bool.false_eq_true, if_false] at hread
    rcases hround : r.round s xs with ⟨s₁, rest₁, e | u⟩
    · simp only [hround] at hread
      cases hread
    simp only [hround] at hread
    by_cases hstarved : xs.length < r.wanted s
    · simp only [hstarved, if_true] at hread
      cases hread
    simp only [hstarved, if_false] at hread
    have henough := Nat.not_lt.mp hstarved
    have huses := hr.uses hs hstopped henough hround
    have hs₁ := hr.inv hs hround
    cases hnext : r.stopped s₁ with
    | true =>
      rw [hr.read_eq hs₁, if_pos hnext] at hread
      cases hread
      exact Nat.le_of_eq huses
    | false =>
      have hless := ih _ (hn ▸ hr.budget_lt hs hstopped henough hround) hs₁ hnext hread rfl
      omega

/-- What every round keeps holds where a reading ends, and behind a round that raises holds
    what such a round leaves. -/
theorem read_rule (hr : r.Lawful Inv Same) {P : σ → Prop} {Q : σ → ε → Prop}
    (hok : ∀ {s s' xs rest}, Inv s → P s → r.stopped s = false →
      r.round s xs = (s', rest, .ok ()) → P s')
    (hraised : ∀ {s s' xs rest e}, Inv s → P s → r.stopped s = false →
      r.round s xs = (s', rest, .error e) → Q (r.caught s' e) e)
    {s s' : σ} {xs rest : List α} {o : Ending ε} (hs : Inv s) (hP : P s)
    (hread : r.read s xs = (s', rest, o)) :
    (∃ e, o = .raised e ∧ Q s' e) ∨ ((∀ e, o ≠ .raised e) ∧ P s') := by
  induction hn : r.budget s xs using Nat.strongRecOn generalizing s xs with
  | ind n ih =>
    rw [hr.read_eq hs] at hread
    cases hstopped : r.stopped s with
    | true =>
      rw [if_pos hstopped] at hread
      cases hread
      refine Or.inr ⟨fun e h => ?_, hP⟩
      cases h
    | false =>
      simp only [hstopped, Bool.false_eq_true, if_false] at hread
      rcases hround : r.round s xs with ⟨s₁, rest₁, e | u⟩
      · simp only [hround] at hread
        cases hread
        exact Or.inl ⟨e, rfl, hraised hs hP hstopped hround⟩
      simp only [hround] at hread
      have hP₁ := hok hs hP hstopped hround
      by_cases hstarved : xs.length < r.wanted s
      · simp only [hstarved, if_true] at hread
        cases hread
        refine Or.inr ⟨fun e h => ?_, hP₁⟩
        cases h
      · simp only [hstarved, if_false] at hread
        have hless := hr.budget_lt hs hstopped (Nat.not_lt.mp hstarved) hround
        exact ih _ (hn ▸ hless) (hr.inv hs hround) hP₁ hread rfl

/-! ### Cutting the stream -/

/-- A reading that does not run out of stream leaves what is added to the stream. -/
theorem read_append_of_ended (hr : r.Lawful Inv Same) {s s' : σ} {xs rest : List α}
    {o : Ending ε} (hs : Inv s) (hread : r.read s xs = (s', rest, o)) (hended : o ≠ .starved)
    (ys : List α) : r.read s (xs ++ ys) = (s', rest ++ ys, o) := by
  induction hn : r.budget s xs using Nat.strongRecOn generalizing s xs with
  | ind n ih =>
    rw [hr.read_eq hs] at hread ⊢
    cases hstopped : r.stopped s with
    | true =>
      rw [if_pos hstopped] at hread
      cases hread
      rfl
    | false =>
      simp only [hstopped, Bool.false_eq_true, if_false] at hread ⊢
      rcases hround : r.round s xs with ⟨s₁, rest₁, result⟩
      simp only [hround] at hread
      by_cases hstarved : xs.length < r.wanted s
      · cases result with
        | error e =>
          rw [hr.short_raised hs hstopped hstarved hround ys]
          cases hread
          rfl
        | ok u =>
          simp only [hstarved, if_true] at hread
          cases hread
          exact absurd rfl hended
      · have henough := Nat.not_lt.mp hstarved
        have hlonger : ¬ (xs ++ ys).length < r.wanted s := by
          rw [List.length_append]
          omega
        rw [hr.long hs hstopped henough ys, hround]
        cases result with
        | error e =>
          cases hread
          rfl
        | ok u =>
          simp only [hstarved, hlonger, if_false] at hread ⊢
          exact ih _ (hn ▸ hr.budget_lt hs hstopped henough hround) (hr.inv hs hround) hread rfl

/-- A reading that runs out of stream has taken all of it, and goes on where it was. -/
theorem read_append_of_starved (hr : r.Lawful Inv Same) {s s' : σ} {xs rest : List α}
    (hs : Inv s) (hread : r.read s xs = (s', rest, .starved)) :
    Inv s' ∧ rest = [] ∧ (r.stopped s' = false ∧ 0 < r.wanted s') ∧
      r.read s' [] = (s', [], .starved) ∧
      ∀ ys, Agree Same (r.read s (xs ++ ys)) (r.read s' ys) := by
  induction hn : r.budget s xs using Nat.strongRecOn generalizing s xs with
  | ind n ih =>
    rw [hr.read_eq hs] at hread
    cases hstopped : r.stopped s with
    | true =>
      rw [if_pos hstopped] at hread
      cases hread
    | false =>
      simp only [hstopped, Bool.false_eq_true, if_false] at hread
      rcases hround : r.round s xs with ⟨s₁, rest₁, result⟩
      simp only [hround] at hread
      cases result with
      | error e => cases hread
      | ok u =>
        by_cases hstarved : xs.length < r.wanted s
        · simp only [hstarved, if_true] at hread
          cases hread
          have hs' := hr.inv hs hround
          rcases hr.short_ok hs hstopped hstarved hround with ⟨hstopped', hrest, hless, hgoes⟩
          refine ⟨hs', hrest, ⟨hstopped', by omega⟩, ?_, ?_⟩
          · rw [hr.read_eq hs']
            have hnil : r.round s' [] = (s', [], .ok ()) := by
              rcases hgoes [] with hsame | ⟨e, a, b, back, ha, -, -⟩
              · rw [← hsame, List.append_nil, hround, hrest]
              · rw [List.append_nil, hround] at ha
                cases ha
            have hshort : ([] : List α).length < r.wanted s' := by
              rw [List.length_nil]
              omega
            simp only [hstopped', hnil, hshort, Bool.false_eq_true, if_false, if_true]
          intro ys
          rw [hr.read_eq hs, hr.read_eq hs']
          simp only [hstopped, hstopped', Bool.false_eq_true, if_false]
          rcases hgoes ys with hsame | ⟨e, a, b, back, ha, hb, hsame⟩
          · left
            have hlength : (xs ++ ys).length < r.wanted s ↔ ys.length < r.wanted s' := by
              rw [List.length_append]
              omega
            simp only [hsame, hlength]
          · right
            rw [ha, hb]
            exact ⟨e, rfl, rfl, rfl, hsame⟩
        · simp only [hstarved, if_false] at hread
          have henough := Nat.not_lt.mp hstarved
          rcases ih _ (hn ▸ hr.budget_lt hs hstopped henough hround) (hr.inv hs hround) hread rfl
            with ⟨hs', hrest, hwaits, hnil, hagree⟩
          refine ⟨hs', hrest, hwaits, hnil, ?_⟩
          intro ys
          have hlonger : ¬ (xs ++ ys).length < r.wanted s := by
            rw [List.length_append]
            omega
          rw [hr.read_eq hs, hr.long hs hstopped henough ys, hround]
          simp only [hstopped, hlonger, Bool.false_eq_true, if_false]
          exact hagree ys

end Lawful

/-- The stream in pieces: a piece is read when the ones before it have been used up. -/
def feed : σ → List (List α) → Outcome σ α ε
  | s, [] => (s, [], .starved)
  | s, piece :: pieces =>
      match r.read s piece with
      | (s', _, .starved) => feed s' pieces
      | (s', rest, .stopped) => (s', rest ++ pieces.flatten, .stopped)
      | (s', rest, .raised e) => (s', rest ++ pieces.flatten, .raised e)

namespace Lawful

variable {r} {Inv : σ → Prop} {Same : σ → σ → Prop}

theorem agree_trans (hr : r.Lawful Inv Same) {a b c : Outcome σ α ε} (hab : Agree Same a b)
    (hbc : Agree Same b c) : Agree Same a c := by
  rcases hab with rfl | ⟨e, ha, hb, hrest, hsame⟩
  · exact hbc
  rcases hbc with rfl | ⟨e', hb', hc, hrest', hsame'⟩
  · exact Or.inr ⟨e, ha, hb, hrest, hsame⟩
  · have he : e = e' := by
      rw [hb] at hb'
      exact Ending.raised.inj hb'
    rw [← he] at hc
    exact Or.inr ⟨e, ha, hc, hrest.trans hrest', hr.trans hsame hsame'⟩

/-- How a stream is cut makes no difference. -/
theorem feed_agrees (hr : r.Lawful Inv Same) {s : σ} (hs : Inv s) {pieces : List (List α)}
    (hpieces : pieces ≠ []) : Agree Same (r.read s pieces.flatten) (r.feed s pieces) := by
  induction pieces generalizing s with
  | nil => exact absurd rfl hpieces
  | cons piece pieces ih =>
    rw [List.flatten_cons, feed]
    rcases hread : r.read s piece with ⟨s', rest, o⟩
    cases o with
    | stopped =>
      left
      exact hr.read_append_of_ended hs hread nofun _
    | raised e =>
      left
      exact hr.read_append_of_ended hs hread nofun _
    | starved =>
      rcases hr.read_append_of_starved hs hread with ⟨hs', -, -, hnil, hagree⟩
      apply hr.agree_trans (hagree pieces.flatten)
      cases pieces with
      | nil =>
        left
        exact hnil
      | cons piece' pieces => exact ih hs' (List.cons_ne_nil _ _)

end Lawful

end Reader

/-! ### A loop over so many elements -/

/-- The elements one after the other, until there have been so many, the stream runs out, or
    one is refused; with what is left of the stream, and how many were taken. -/
def eat (f : σ → α → σ × Except ε Unit) : Nat → σ → List α → σ × List α × Except ε Nat
  | 0, s, input => (s, input, .ok 0)
  | _ + 1, s, [] => (s, [], .ok 0)
  | size + 1, s, a :: input =>
      match f s a with
      | (s, .error e) => (s, input, .error e)
      | (s, .ok _) =>
          match eat f size s input with
          | (s, rest, .error e) => (s, rest, .error e)
          | (s, rest, .ok taken) => (s, rest, .ok (taken + 1))

section Eat

variable {f : σ → α → σ × Except ε Unit}

theorem eat_cons_refused {size : Nat} {s s' : σ} {a : α} {xs : List α} {e : ε}
    (hf : f s a = (s', .error e)) : eat f (size + 1) s (a :: xs) = (s', xs, .error e) := by
  simp only [eat, hf]

theorem eat_cons {size : Nat} {s s' s'' : σ} {a : α} {xs rest : List α} {out : Except ε Nat}
    (hf : f s a = (s', .ok ())) (h : eat f size s' xs = (s'', rest, out)) :
    eat f (size + 1) s (a :: xs) = (s'', rest, out.map (· + 1)) := by
  simp only [eat, hf, h]
  cases out with
  | error e => rfl
  | ok taken => rfl

theorem eat_ok {size : Nat} {s s' : σ} {xs rest : List α} {taken : Nat}
    (h : eat f size s xs = (s', rest, .ok taken)) :
    rest = xs.drop size ∧ taken = min size xs.length := by
  induction size generalizing s xs taken with
  | zero =>
    cases h
    exact ⟨rfl, (Nat.zero_min _).symm⟩
  | succ size ih =>
    cases xs with
    | nil =>
      cases h
      exact ⟨rfl, rfl⟩
    | cons a xs =>
      rw [eat] at h
      rcases hf : f s a with ⟨s₁, e | u⟩
      · simp only [hf] at h
        cases h
      rcases heat : eat f size s₁ xs with ⟨s₂, rest₂, e | taken₂⟩
      · simp only [hf, heat] at h
        cases h
      · simp only [hf, heat] at h
        cases h
        rcases ih heat with ⟨hrest, htaken⟩
        refine ⟨hrest, ?_⟩
        rw [htaken, List.length_cons, Nat.succ_min_succ]

/-- What lies behind the elements does not matter. -/
theorem eat_append_of_le {size : Nat} {xs : List α} (h : size ≤ xs.length) (s : σ)
    (ys : List α) : eat f size s (xs ++ ys) =
      ((eat f size s xs).1, (eat f size s xs).2.1 ++ ys, (eat f size s xs).2.2) := by
  induction size generalizing s xs with
  | zero => rfl
  | succ size ih =>
    cases xs with
    | nil => exact absurd h (Nat.not_succ_le_zero _)
    | cons a xs =>
      rw [List.cons_append, eat, eat]
      rcases f s a with ⟨s₁, e | u⟩
      · rfl
      · simp only [ih (Nat.le_of_succ_le_succ h)]
        rcases eat f size s₁ xs with ⟨s₂, rest₂, e | taken₂⟩
        · rfl
        · rfl

/-- An element that is refused ends the loop for any continuation. -/
theorem eat_append_of_error {size : Nat} {s s' : σ} {xs rest : List α} {e : ε}
    (h : eat f size s xs = (s', rest, .error e)) (ys : List α) :
    eat f size s (xs ++ ys) = (s', rest ++ ys, .error e) := by
  induction size generalizing s xs with
  | zero => cases h
  | succ size ih =>
    cases xs with
    | nil => cases h
    | cons a xs =>
      rw [eat] at h
      rw [List.cons_append, eat]
      rcases hf : f s a with ⟨s₁, e₁ | u⟩
      · simp only [hf] at h ⊢
        cases h
        rfl
      rcases heat : eat f size s₁ xs with ⟨s₂, rest₂, e₂ | taken₂⟩
      · simp only [hf, heat] at h
        cases h
        simp only [ih heat]
      · simp only [hf, heat] at h
        cases h

/-- A loop that runs out of stream goes on with what comes. -/
theorem eat_append_of_ok {size : Nat} {s s' : σ} {xs rest : List α} {taken : Nat}
    (hxs : xs.length ≤ size) (h : eat f size s xs = (s', rest, .ok taken)) (ys : List α) :
    eat f size s (xs ++ ys) =
      ((eat f (size - xs.length) s' ys).1, (eat f (size - xs.length) s' ys).2.1,
        (eat f (size - xs.length) s' ys).2.2.map (· + xs.length)) := by
  induction size generalizing s xs taken with
  | zero =>
    have hnil : xs = [] := List.eq_nil_of_length_eq_zero (Nat.eq_zero_of_le_zero hxs)
    cases h
    rw [hnil]
    rfl
  | succ size ih =>
    cases xs with
    | nil =>
      cases h
      rw [List.nil_append, List.length_nil, Nat.sub_zero]
      rcases eat f (size + 1) s' ys with ⟨s₁, rest₁, e | taken₁⟩
      · rfl
      · rfl
    | cons a xs =>
      rw [eat] at h
      rw [List.cons_append, eat, List.length_cons, Nat.succ_sub_succ]
      rcases hf : f s a with ⟨s₁, e | u⟩
      · simp only [hf] at h
        cases h
      rcases heat : eat f size s₁ xs with ⟨s₂, rest₂, e | taken₂⟩
      · simp only [hf, heat] at h
        cases h
      · simp only [hf, heat] at h
        cases h
        simp only [ih (Nat.le_of_succ_le_succ hxs) heat]
        rcases eat f (size - xs.length) s' ys with ⟨s₃, rest₃, e | taken₃⟩
        · rfl
        · rfl

/-- The loop raises what an element raises. -/
theorem eat_error {P : ε → Prop} (hf : ∀ {s a s' e}, f s a = (s', .error e) → P e) {size : Nat}
    {s s' : σ} {xs rest : List α} {e : ε} (h : eat f size s xs = (s', rest, .error e)) : P e := by
  induction size generalizing s xs with
  | zero => cases h
  | succ size ih =>
    cases xs with
    | nil => cases h
    | cons a xs =>
      rw [eat] at h
      rcases hstep : f s a with ⟨s₁, e₁ | u⟩
      · simp only [hstep] at h
        cases h
        exact hf hstep
      rcases heat : eat f size s₁ xs with ⟨s₂, rest₂, e₂ | taken⟩
      · simp only [hstep, heat] at h
        cases h
        exact ih heat
      · simp only [hstep, heat] at h
        cases h

/-- What every element keeps, whether it is taken or refused. -/
theorem eat_keeps {P : σ → Prop} (hf : ∀ {s s' a out}, P s → f s a = (s', out) → P s') {size : Nat}
    {s s' : σ} {xs rest : List α} {out : Except ε Nat} (hP : P s)
    (h : eat f size s xs = (s', rest, out)) : P s' := by
  induction size generalizing s xs out with
  | zero =>
    cases h
    exact hP
  | succ size ih =>
    cases xs with
    | nil =>
      cases h
      exact hP
    | cons a xs =>
      rw [eat] at h
      rcases hstep : f s a with ⟨s₁, e | u⟩
      · simp only [hstep] at h
        cases h
        exact hf hP hstep
      rcases heat : eat f size s₁ xs with ⟨s₂, rest₂, e | taken⟩
      · simp only [hstep, heat] at h
        cases h
        exact ih (hf hP hstep) heat
      · simp only [hstep, heat] at h
        cases h
        exact ih (hf hP hstep) heat

/-- What every element that is taken adds to. -/
theorem eat_counts {count : σ → Nat}
    (hf : ∀ {s s' a}, f s a = (s', .ok ()) → count s' = count s + 1)
    {size : Nat} {s s' : σ} {xs rest : List α} {taken : Nat}
    (h : eat f size s xs = (s', rest, .ok taken)) : count s' = count s + taken := by
  induction size generalizing s xs taken with
  | zero =>
    cases h
    rfl
  | succ size ih =>
    cases xs with
    | nil =>
      cases h
      rfl
    | cons a xs =>
      rw [eat] at h
      rcases hstep : f s a with ⟨s₁, e | u⟩
      · simp only [hstep] at h
        cases h
      rcases heat : eat f size s₁ xs with ⟨s₂, rest₂, e | taken₂⟩
      · simp only [hstep, heat] at h
        cases h
      · simp only [hstep, heat] at h
        cases h
        rw [ih heat, hf hstep]
        omega

end Eat

end Feed
