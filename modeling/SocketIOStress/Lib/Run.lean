import Mathlib.Data.List.Forall2

/-!
# Runs of a fallible step

A component is a function `step : σ → α → Except ε (σ × β)`: in a state it takes
one input and either fails, or moves on and emits an output.  This module has
what every argument about such a component needs and nothing about any
particular one: runs over input lists and how they split, the invariant rule,
the refinement rule against a total abstract component, and the comparison of
"a property holds in every state of the run" with "a condition holds at every
step of the run".
-/

namespace FallibleRun

variable {σ τ α β γ ε : Type}

/-! ### Runs and how they split -/

/-- Feed the inputs to `step` in order and collect what it emits.  The first
    failing step ends the run with its failure. -/
def run (step : σ → α → Except ε (σ × β)) : σ → List α → Except ε (σ × List β)
  | s, [] => .ok (s, [])
  | s, a :: as =>
      match step s a with
      | .error e => .error e
      | .ok (s', b) =>
          match run step s' as with
          | .error e => .error e
          | .ok (s'', bs) => .ok (s'', b :: bs)

variable {step : σ → α → Except ε (σ × β)}

theorem run_cons_of_ok {s s' s'' : σ} {a : α} {as : List α} {b : β} {bs : List β}
    (hstep : step s a = .ok (s', b)) (hrun : run step s' as = .ok (s'', bs)) :
    run step s (a :: as) = .ok (s'', b :: bs) := by
  simp only [run, hstep, hrun]

/-- A run over `a :: as` is a step on `a` followed by a run over `as`. -/
theorem run_cons_ok_iff {s t : σ} {a : α} {as : List α} {bs : List β} :
    run step s (a :: as) = .ok (t, bs) ↔
      ∃ s' b bs', step s a = .ok (s', b) ∧ run step s' as = .ok (t, bs') ∧
        bs = b :: bs' := by
  constructor
  · intro h
    simp only [run] at h
    split at h
    · cases h
    · rename_i s' b hstep
      split at h
      · cases h
      · rename_i s'' bs' hrun
        cases h
        exact ⟨s', b, bs', hstep, hrun, rfl⟩
  · rintro ⟨s', b, bs', hstep, hrun, rfl⟩
    exact run_cons_of_ok hstep hrun

theorem run_append_ok_iff {s t : σ} {as cs : List α} {bs : List β} :
    run step s (as ++ cs) = .ok (t, bs) ↔
      ∃ m bs₁ bs₂, run step s as = .ok (m, bs₁) ∧ run step m cs = .ok (t, bs₂) ∧
        bs = bs₁ ++ bs₂ := by
  induction as generalizing s bs with
  | nil =>
    constructor
    · intro h
      exact ⟨s, [], bs, rfl, h, rfl⟩
    · rintro ⟨m, bs₁, bs₂, hnil, hrun, rfl⟩
      cases hnil
      exact hrun
  | cons a as ih =>
    rw [List.cons_append, run_cons_ok_iff]
    constructor
    · rintro ⟨s', b, bs', hstep, hrun, rfl⟩
      obtain ⟨m, bs₁, bs₂, h1, h2, rfl⟩ := ih.mp hrun
      exact ⟨m, b :: bs₁, bs₂, run_cons_of_ok hstep h1, h2, rfl⟩
    · rintro ⟨m, bs₁, bs₂, h1, h2, rfl⟩
      obtain ⟨s', b, bs', hstep, hrun, rfl⟩ := run_cons_ok_iff.mp h1
      exact ⟨s', b, bs' ++ bs₂, hstep, ih.mpr ⟨m, bs', bs₂, hrun, h2, rfl⟩, rfl⟩

/-- One more input at the end of a run. -/
theorem run_concat_of_ok {s m t : σ} {as : List α} {a : α} {bs : List β} {b : β}
    (hrun : run step s as = .ok (m, bs)) (hstep : step m a = .ok (t, b)) :
    run step s (as ++ [a]) = .ok (t, bs ++ [b]) :=
  run_append_ok_iff.mpr ⟨m, bs, [b], hrun, run_cons_of_ok hstep rfl, rfl⟩

/-- A run that fails behind a part that does not. -/
theorem run_append_of_error {s m : σ} {as cs : List α} {bs : List β} {e : ε}
    (hrun : run step s as = .ok (m, bs)) (hrest : run step m cs = .error e) :
    run step s (as ++ cs) = .error e := by
  induction as generalizing s bs with
  | nil =>
    cases hrun
    exact hrest
  | cons a as ih =>
    obtain ⟨s', b, bs', hstep, hrun, -⟩ := run_cons_ok_iff.mp hrun
    rw [List.cons_append]
    simp only [run, hstep, ih hrun]

/-! ### The invariant rule -/

/-- What one step preserves, a whole run preserves. -/
theorem run_invariant {Inv : σ → Prop}
    (hstep : ∀ s a s' b, Inv s → step s a = .ok (s', b) → Inv s')
    {s t : σ} {as : List α} {bs : List β}
    (hrun : run step s as = .ok (t, bs)) (hs : Inv s) : Inv t := by
  induction as generalizing s bs with
  | nil => cases hrun; exact hs
  | cons a as ih =>
    obtain ⟨s', b, bs', h1, h2, -⟩ := run_cons_ok_iff.mp hrun
    exact ih h2 (hstep s a s' b hs h1)

/-- The same for an output property: what every step from an `Inv` state emits,
    every output of the run satisfies. -/
theorem run_outputs {Inv : σ → Prop} {Out : β → Prop}
    (hstep : ∀ s a s' b, Inv s → step s a = .ok (s', b) → Inv s' ∧ Out b)
    {s t : σ} {as : List α} {bs : List β}
    (hrun : run step s as = .ok (t, bs)) (hs : Inv s) : ∀ b ∈ bs, Out b := by
  induction as generalizing s bs with
  | nil => cases hrun; simp
  | cons a as ih =>
    obtain ⟨s', b, bs', h1, h2, rfl⟩ := run_cons_ok_iff.mp hrun
    obtain ⟨hinv, hout⟩ := hstep s a s' b hs h1
    intro c hc
    rcases List.mem_cons.mp hc with rfl | hc
    · exact hout
    · exact ih h2 hinv c hc

/-! ### Refinement of a total component -/

/-- The run of a component that cannot fail. -/
def play (next : τ → α → τ × β) : τ → List α → τ × List β
  | t, [] => (t, [])
  | t, a :: as =>
      let (t', b) := next t a
      let (t'', bs) := play next t' as
      (t'', b :: bs)

/-- **The refinement rule.**  If from related states every input that `Enabled`
    allows makes the concrete component succeed, emit what the abstract one
    emits (seen through `view`), and stay related, then the same holds of runs
    of any length. -/
theorem run_refines {step : σ → α → Except ε (σ × β)} {next : τ → γ → τ × β'}
    {R : σ → τ → Prop} {Enabled : τ → γ → Prop} {input : α → γ} {view : β → β'}
    (hstep : ∀ s t a, R s t → Enabled t (input a) →
      ∃ s' b, step s a = .ok (s', b) ∧ R s' (next t (input a)).1 ∧
        view b = (next t (input a)).2)
    {s : σ} {t : τ} (as : List α) (hR : R s t)
    (hen : ∀ pre a suf, as = pre ++ a :: suf →
      Enabled (play next t (pre.map input)).1 (input a)) :
    ∃ s' bs, run step s as = .ok (s', bs) ∧
      R s' (play next t (as.map input)).1 ∧
      bs.map view = (play next t (as.map input)).2 := by
  induction as generalizing s t with
  | nil => exact ⟨s, [], rfl, hR, rfl⟩
  | cons a as ih =>
    obtain ⟨s', b, h1, hR', hview⟩ := hstep s t a hR (hen [] a as rfl)
    obtain ⟨s'', bs, h2, hR'', hviews⟩ := ih hR' (fun pre c suf heq => by
      have := hen (a :: pre) c suf (by rw [heq]; rfl)
      simpa [play] using this)
    exact ⟨s'', b :: bs, run_cons_of_ok h1 h2, by simpa [play] using hR'',
      by simp [play, hview, hviews]⟩

/-! ### Steps that are runs of another component -/

section Simulation

variable {δ : Type} {step : σ → α → Except ε (σ × List β)} {next : τ → γ → Except δ (τ × List β)}
  {R : σ → τ → Prop} {Via : α → List γ → Prop} {Fails : ε → δ → Prop} {Undefined : ε → Prop}

/-- **The simulation rule.**  If each step is a run of the other component that emits the same,
    over inputs its own allows, so is a whole run, and so is a run up to an error; where the other
    component has nothing to say about an error, neither has the rule. -/
theorem run_simulates
    (hok : ∀ {s t a s' b}, R s t → step s a = .ok (s', b) →
      ∃ cs t' bs, Via a cs ∧ run next t cs = .ok (t', bs) ∧ bs.flatten = b ∧ R s' t')
    (herror : ∀ {s t a e}, R s t → step s a = .error e →
      Undefined e ∨ ∃ cs d, Via a cs ∧ run next t cs = .error d ∧ Fails e d)
    {s : σ} {t : τ} (as : List α) (hR : R s t) :
    (∀ s' bs, run step s as = .ok (s', bs) →
      ∃ groups t' bs', List.Forall₂ Via as groups ∧ run next t groups.flatten = .ok (t', bs') ∧
        bs'.flatten = bs.flatten ∧ R s' t') ∧
    (∀ e, run step s as = .error e →
      Undefined e ∨ ∃ pre groups d, pre <+: as ∧ List.Forall₂ Via pre groups ∧
        run next t groups.flatten = .error d ∧ Fails e d) := by
  induction as generalizing s t with
  | nil =>
    constructor
    · intro s' bs h
      cases h
      exact ⟨[], t, [], .nil, rfl, rfl, hR⟩
    · intro e h
      cases h
  | cons a as ih =>
    rcases hstep : step s a with e | ⟨s₁, b⟩
    · constructor
      · intro s' bs h
        simp only [run, hstep] at h
        cases h
      · intro e' h
        simp only [run, hstep] at h
        cases h
        rcases herror hR hstep with hundefined | ⟨cs, d, hvia, hcs, hd⟩
        · exact Or.inl hundefined
        · refine Or.inr ⟨[a], [cs], d, ⟨as, rfl⟩, .cons hvia .nil, ?_, hd⟩
          rw [List.flatten_singleton]
          exact hcs
    · obtain ⟨cs, t₁, bs₁, hvia, hcs, hb, hR₁⟩ := hok hR hstep
      constructor
      · intro s' bs h
        obtain ⟨s₂, b₂, bs₂, hstep', hrun, rfl⟩ := run_cons_ok_iff.mp h
        rw [hstep] at hstep'
        cases hstep'
        obtain ⟨groups, t', bs', hvias, hcs', hbs', hR'⟩ := (ih hR₁).1 s' bs₂ hrun
        refine ⟨cs :: groups, t', bs₁ ++ bs', .cons hvia hvias, ?_, ?_, hR'⟩
        · exact run_append_ok_iff.mpr ⟨t₁, bs₁, bs', hcs, hcs', rfl⟩
        · rw [List.flatten_append, List.flatten_cons, hb, hbs']
      · intro e h
        simp only [run, hstep] at h
        split at h
        · rename_i e' hrun
          cases h
          rcases (ih hR₁).2 _ hrun with hundefined | ⟨pre, groups, d, hpre, hvias, hcs', hd⟩
          · exact Or.inl hundefined
          · refine Or.inr ⟨a :: pre, cs :: groups, d, ?_, .cons hvia hvias,
              run_append_of_error hcs hcs', hd⟩
            exact (List.prefix_cons_inj a).mpr hpre
        · cases h

end Simulation

/-! ### States of a run against steps of a run -/

/-- `P` holds in the first state and in every state the run reaches. -/
def Throughout (step : σ → α → Except ε (σ × β)) (P : σ → Prop) : σ → List α → Prop
  | s, [] => P s
  | s, a :: as => P s ∧ ∀ s' b, step s a = .ok (s', b) → Throughout step P s' as

/-- `C` holds of every input in the state in which the run takes it. -/
def EveryStep (step : σ → α → Except ε (σ × β)) (C : σ → α → Prop) :
    σ → List α → Prop
  | _, [] => True
  | s, a :: as => C s a ∧ ∀ s' b, step s a = .ok (s', b) → EveryStep step C s' as

theorem Throughout.head {P : σ → Prop} {s : σ} {as : List α}
    (h : Throughout step P s as) : P s := by
  cases as with
  | nil => exact h
  | cons a as => exact h.1

/-- If, in the states the invariant describes, a successful step keeps `P`
    exactly when `C` allowed it, then a complete run keeps `P` throughout
    exactly when `C` allowed every one of its steps. -/
theorem throughout_iff_everyStep {Inv P : σ → Prop} {C : σ → α → Prop}
    (hinv : ∀ s a s' b, Inv s → step s a = .ok (s', b) → Inv s')
    (hstep : ∀ s a s' b, Inv s → P s → step s a = .ok (s', b) → (P s' ↔ C s a))
    {s t : σ} {as : List α} {bs : List β} (hrun : run step s as = .ok (t, bs))
    (hs : Inv s) (hP : P s) :
    Throughout step P s as ↔ EveryStep step C s as := by
  induction as generalizing s bs with
  | nil => simp [Throughout, EveryStep, hP]
  | cons a as ih =>
    obtain ⟨s', b, bs', h1, h2, -⟩ := run_cons_ok_iff.mp hrun
    have hkeep := hstep s a s' b hs hP h1
    have hs' := hinv s a s' b hs h1
    have hthe : ∀ u c, step s a = .ok (u, c) → u = s' := by
      intro u c hu
      rw [h1] at hu
      cases hu
      rfl
    constructor
    · rintro ⟨-, hrest⟩
      have hthr := hrest s' b h1
      refine ⟨hkeep.mp hthr.head, ?_⟩
      intro u c hu
      rw [hthe u c hu]
      exact (ih h2 hs' hthr.head).mp hthr
    · rintro ⟨hC, hrest⟩
      refine ⟨hP, ?_⟩
      intro u c hu
      rw [hthe u c hu]
      exact (ih h2 hs' (hkeep.mpr hC)).mpr (hrest s' b h1)

/-- `Throughout` says what it should: `P` in the state after every prefix. -/
theorem throughout_iff_prefixes {P : σ → Prop} {s t : σ} {as : List α} {bs : List β}
    (hrun : run step s as = .ok (t, bs)) :
    Throughout step P s as ↔
      ∀ pre suf m ms, as = pre ++ suf → run step s pre = .ok (m, ms) → P m := by
  induction as generalizing s bs with
  | nil =>
    constructor
    · intro h pre suf m ms heq hpre
      obtain ⟨rfl, rfl⟩ := List.append_eq_nil_iff.mp heq.symm
      cases hpre
      exact h
    · intro h
      exact h [] [] s [] rfl rfl
  | cons a as ih =>
    obtain ⟨s', b, bs', h1, h2, -⟩ := run_cons_ok_iff.mp hrun
    constructor
    · rintro ⟨hP, hrest⟩ pre suf m ms heq hpre
      cases pre with
      | nil => cases hpre; exact hP
      | cons c pre =>
        rw [List.cons_append, List.cons.injEq] at heq
        obtain ⟨rfl, heq⟩ := heq
        obtain ⟨u, b', ms', hu, hpre', -⟩ := run_cons_ok_iff.mp hpre
        rw [h1] at hu
        cases hu
        exact (ih h2).mp (hrest s' b h1) pre suf m ms' heq hpre'
    · intro h
      refine ⟨h [] (a :: as) s [] rfl rfl, ?_⟩
      intro u c hu
      rw [h1] at hu
      cases hu
      refine (ih h2).mpr ?_
      intro pre suf m ms heq hpre
      exact h (a :: pre) suf m (b :: ms) (by rw [heq]; rfl) (run_cons_of_ok h1 hpre)

/-- And so does `EveryStep`: `C` of the input and the state after the prefix before it. -/
theorem everyStep_iff_prefixes {C : σ → α → Prop} {s t : σ} {as : List α} {bs : List β}
    (hrun : run step s as = .ok (t, bs)) :
    EveryStep step C s as ↔
      ∀ pre a suf m ms, as = pre ++ a :: suf → run step s pre = .ok (m, ms) → C m a := by
  induction as generalizing s bs with
  | nil =>
    constructor
    · intro _ pre a suf m ms heq _
      exact absurd heq.symm (by simp)
    · intro _
      trivial
  | cons a as ih =>
    obtain ⟨s', b, bs', h1, h2, -⟩ := run_cons_ok_iff.mp hrun
    constructor
    · rintro ⟨hC, hrest⟩ pre c suf m ms heq hpre
      cases pre with
      | nil =>
        rw [List.nil_append, List.cons.injEq] at heq
        cases hpre
        rw [← heq.1]
        exact hC
      | cons d pre =>
        rw [List.cons_append, List.cons.injEq] at heq
        obtain ⟨rfl, heq⟩ := heq
        obtain ⟨u, b', ms', hu, hpre', -⟩ := run_cons_ok_iff.mp hpre
        rw [h1] at hu
        cases hu
        exact (ih h2).mp (hrest s' b h1) pre c suf m ms' heq hpre'
    · intro h
      refine ⟨h [] a as s [] rfl rfl, ?_⟩
      intro u c hu
      rw [h1] at hu
      cases hu
      refine (ih h2).mpr ?_
      intro pre d suf m ms heq hpre
      exact h (a :: pre) d suf m (b :: ms) (by rw [heq]; rfl) (run_cons_of_ok h1 hpre)

/-! ### What a run brings -/

/-- What the steps of a run bring, in their order. -/
def collect (step : σ → α → Except ε (σ × β)) (bring : σ → α → List γ) : σ → List α → List γ
  | _, [] => []
  | s, a :: as =>
      bring s a ++
        match step s a with
        | .error _ => []
        | .ok (s', _) => collect step bring s' as

theorem collect_cons_of_ok {bring : σ → α → List γ} {s s' : σ} {a : α} {as : List α} {b : β}
    (hstep : step s a = .ok (s', b)) :
    collect step bring s (a :: as) = bring s a ++ collect step bring s' as := by
  simp only [collect, hstep]

/-! ### Weights summed over a run -/

/-- What the steps of a run weigh together. -/
def tally (step : σ → α → Except ε (σ × β)) (weight : σ → α → Nat) : σ → List α → Nat
  | _, [] => 0
  | s, a :: as =>
      weight s a +
        match step s a with
        | .error _ => 0
        | .ok (s', _) => tally step weight s' as

theorem tally_cons_of_ok {weight : σ → α → Nat} {s s' : σ} {a : α} {as : List α} {b : β}
    (hstep : step s a = .ok (s', b)) :
    tally step weight s (a :: as) = weight s a + tally step weight s' as := by
  simp only [tally, hstep]

theorem tally_append {weight : σ → α → Nat} {s m : σ} {as cs : List α} {bs : List β}
    (hrun : run step s as = .ok (m, bs)) :
    tally step weight s (as ++ cs) = tally step weight s as + tally step weight m cs := by
  induction as generalizing s bs with
  | nil =>
    cases hrun
    rw [tally, Nat.zero_add, List.nil_append]
  | cons a as ih =>
    obtain ⟨s', b, bs', hstep, hrest, -⟩ := run_cons_ok_iff.mp hrun
    rw [List.cons_append, tally_cons_of_ok hstep, tally_cons_of_ok hstep, ih hrest, Nat.add_assoc]

/-- A run that weighs something has a step that does. -/
theorem exists_of_tally_pos {weight : σ → α → Nat} {s t : σ} {as : List α} {bs : List β}
    (hrun : run step s as = .ok (t, bs)) (hpos : 0 < tally step weight s as) :
    ∃ pre a suf m m' ms b, as = pre ++ a :: suf ∧ run step s pre = .ok (m, ms) ∧
      step m a = .ok (m', b) ∧ 0 < weight m a := by
  induction as generalizing s bs with
  | nil => exact absurd hpos (Nat.lt_irrefl 0)
  | cons a as ih =>
    obtain ⟨s', b, bs', hstep, hrest, -⟩ := run_cons_ok_iff.mp hrun
    by_cases hweight : 0 < weight s a
    · exact ⟨[], a, as, s, s', [], b, rfl, rfl, hstep, hweight⟩
    · rw [tally_cons_of_ok hstep, Nat.eq_zero_of_not_pos hweight, Nat.zero_add] at hpos
      obtain ⟨pre, a', suf, m, m', ms, b', rfl, hpre, hlast, hw⟩ := ih hrest hpos
      exact ⟨a :: pre, a', suf, m, m', b :: ms, b', rfl, run_cons_of_ok hstep hpre, hlast, hw⟩

end FallibleRun
