/-!
# Regular expressions with groups

What an expression matches is a relation between a text and the groups captured
on the way, so an expression may match one text in several ways.  `ends` lists
the ways an expression matches the beginning of a text, in the order in which a
backtracking matcher tries them; `fullMatch` is the first that uses the whole
text.  It is sound and complete for the relation.  The rest are equations for
the expressions one writes down most: words, character classes and their
bounded and unbounded repetitions.
-/

namespace Patterns

variable {α : Type}

inductive Regex (α : Type) where
  | empty
  | one (p : α → Bool)
  | seq (e f : Regex α)
  | alt (e f : Regex α)
  | star (e : Regex α)
  | group (n : Nat) (e : Regex α)

/-- The groups in the order in which they were closed, each with its text. -/
abbrev Captures (α : Type) := List (Nat × List α)

/-- The text of a group: of its last round, and empty when there was none. -/
def Captures.text (cs : Captures α) (n : Nat) : List α :=
  ((cs.reverse.find? (fun c => c.1 = n)).map (·.2)).getD []

namespace Regex

/-! ### Matching -/

inductive Matches : Regex α → List α → Captures α → Prop where
  | empty : Matches .empty [] []
  | one {p : α → Bool} {c : α} (h : p c = true) : Matches (.one p) [c] []
  | seq {e f : Regex α} {xs ys : List α} {cs ds : Captures α} (first : Matches e xs cs)
      (second : Matches f ys ds) : Matches (.seq e f) (xs ++ ys) (cs ++ ds)
  | left {e f : Regex α} {xs : List α} {cs : Captures α} (h : Matches e xs cs) :
      Matches (.alt e f) xs cs
  | right {e f : Regex α} {xs : List α} {cs : Captures α} (h : Matches f xs cs) :
      Matches (.alt e f) xs cs
  | done {e : Regex α} : Matches (.star e) [] []
  | more {e : Regex α} {xs ys : List α} {cs ds : Captures α} (first : Matches e xs cs)
      (rest : Matches (.star e) ys ds) : Matches (.star e) (xs ++ ys) (cs ++ ds)
  | group {n : Nat} {e : Regex α} {xs : List α} {cs : Captures α} (h : Matches e xs cs) :
      Matches (.group n e) xs (cs ++ [(n, xs)])

/-! ### Derived expressions -/

def word [DecidableEq α] : List α → Regex α
  | [] => .empty
  | c :: cs => .seq (.one (fun d => d = c)) (word cs)

def plus (e : Regex α) : Regex α := .seq e (.star e)

def opt (e : Regex α) : Regex α := .alt e .empty

/-- At most `n` rounds. -/
def upTo (e : Regex α) : Nat → Regex α
  | 0 => .empty
  | n + 1 => .alt (.seq e (upTo e n)) .empty

/-! ### Inversion -/

theorem matches_empty_iff {xs : List α} {cs : Captures α} :
    Matches .empty xs cs ↔ xs = [] ∧ cs = [] := by
  constructor
  · intro h
    cases h
    exact ⟨rfl, rfl⟩
  · rintro ⟨rfl, rfl⟩
    exact .empty

theorem matches_one_iff {p : α → Bool} {xs : List α} {cs : Captures α} :
    Matches (.one p) xs cs ↔ ∃ c, p c = true ∧ xs = [c] ∧ cs = [] := by
  constructor
  · intro h
    cases h with
    | one hc => exact ⟨_, hc, rfl, rfl⟩
  · rintro ⟨c, hc, rfl, rfl⟩
    exact .one hc

theorem matches_seq_iff {e f : Regex α} {xs : List α} {cs : Captures α} :
    Matches (.seq e f) xs cs ↔ ∃ ys zs ds es, Matches e ys ds ∧ Matches f zs es ∧
      xs = ys ++ zs ∧ cs = ds ++ es := by
  constructor
  · intro h
    cases h with
    | seq first second => exact ⟨_, _, _, _, first, second, rfl, rfl⟩
  · rintro ⟨ys, zs, ds, es, first, second, rfl, rfl⟩
    exact .seq first second

theorem matches_alt_iff {e f : Regex α} {xs : List α} {cs : Captures α} :
    Matches (.alt e f) xs cs ↔ Matches e xs cs ∨ Matches f xs cs := by
  constructor
  · intro h
    cases h with
    | left h => exact Or.inl h
    | right h => exact Or.inr h
  · rintro (h | h)
    · exact .left h
    · exact .right h

theorem matches_group_iff {n : Nat} {e : Regex α} {xs : List α} {cs : Captures α} :
    Matches (.group n e) xs cs ↔ ∃ ds, Matches e xs ds ∧ cs = ds ++ [(n, xs)] := by
  constructor
  · intro h
    cases h with
    | group h => exact ⟨_, h, rfl⟩
  · rintro ⟨ds, h, rfl⟩
    exact .group h

theorem matches_opt_iff {e : Regex α} {xs : List α} {cs : Captures α} :
    Matches (opt e) xs cs ↔ Matches e xs cs ∨ xs = [] ∧ cs = [] := by
  rw [opt, matches_alt_iff, matches_empty_iff]

/-! ### Words and character classes -/

theorem matches_word [DecidableEq α] (w : List α) : Matches (word w) w [] := by
  induction w with
  | nil => exact .empty
  | cons c w ih =>
    have hone : Matches (.one (fun d => decide (d = c))) [c] [] := .one (decide_eq_true rfl)
    exact .seq hone ih

theorem matches_word_iff [DecidableEq α] {w xs : List α} {cs : Captures α} :
    Matches (word w) xs cs ↔ xs = w ∧ cs = [] := by
  constructor
  · intro h
    induction w generalizing xs cs with
    | nil => exact matches_empty_iff.mp h
    | cons c w ih =>
      obtain ⟨ys, zs, ds, es, hone, hword, rfl, rfl⟩ := matches_seq_iff.mp h
      obtain ⟨d, hd, rfl, rfl⟩ := matches_one_iff.mp hone
      obtain ⟨rfl, rfl⟩ := ih hword
      rw [of_decide_eq_true hd]
      exact ⟨rfl, rfl⟩
  · rintro ⟨rfl, rfl⟩
    exact matches_word xs

theorem matches_star_one_iff {p : α → Bool} {xs : List α} {cs : Captures α} :
    Matches (.star (.one p)) xs cs ↔ (∀ c ∈ xs, p c = true) ∧ cs = [] := by
  constructor
  · intro h
    generalize he : Regex.star (.one p) = e at h
    induction h with
    | done => exact ⟨by simp, rfl⟩
    | more first rest _ ih =>
      cases he
      obtain ⟨c, hc, rfl, rfl⟩ := matches_one_iff.mp first
      obtain ⟨hall, rfl⟩ := ih rfl
      exact ⟨List.forall_mem_cons.mpr ⟨hc, hall⟩, rfl⟩
    | empty | one | seq | left | right | group => cases he
  · rintro ⟨hall, rfl⟩
    induction xs with
    | nil => exact .done
    | cons c xs ih =>
      obtain ⟨hc, hxs⟩ := List.forall_mem_cons.mp hall
      exact .more (.one hc) (ih hxs)

theorem matches_plus_one_iff {p : α → Bool} {xs : List α} {cs : Captures α} :
    Matches (plus (.one p)) xs cs ↔ xs ≠ [] ∧ (∀ c ∈ xs, p c = true) ∧ cs = [] := by
  rw [plus, matches_seq_iff]
  constructor
  · rintro ⟨ys, zs, ds, es, hone, hstar, rfl, rfl⟩
    obtain ⟨c, hc, rfl, rfl⟩ := matches_one_iff.mp hone
    obtain ⟨hall, rfl⟩ := matches_star_one_iff.mp hstar
    exact ⟨List.cons_ne_nil _ _, List.forall_mem_cons.mpr ⟨hc, hall⟩, rfl⟩
  · rintro ⟨hne, hall, rfl⟩
    obtain ⟨c, rest, rfl⟩ := List.exists_cons_of_ne_nil hne
    obtain ⟨hc, hrest⟩ := List.forall_mem_cons.mp hall
    exact ⟨[c], rest, [], [], .one hc, matches_star_one_iff.mpr ⟨hrest, rfl⟩, rfl, rfl⟩

theorem matches_upTo_one_iff {p : α → Bool} {n : Nat} {xs : List α} {cs : Captures α} :
    Matches (upTo (.one p) n) xs cs ↔ xs.length ≤ n ∧ (∀ c ∈ xs, p c = true) ∧ cs = [] := by
  induction n generalizing xs cs with
  | zero =>
    rw [upTo, matches_empty_iff, Nat.le_zero_eq, List.length_eq_zero_iff]
    constructor
    · rintro ⟨rfl, rfl⟩
      exact ⟨rfl, by simp, rfl⟩
    · rintro ⟨hnil, -, hcs⟩
      exact ⟨hnil, hcs⟩
  | succ n ih =>
    rw [upTo, matches_alt_iff, matches_seq_iff, matches_empty_iff]
    constructor
    · rintro (⟨ys, zs, ds, es, hone, hrest, rfl, rfl⟩ | ⟨rfl, rfl⟩)
      · obtain ⟨c, hc, rfl, rfl⟩ := matches_one_iff.mp hone
        obtain ⟨hle, hall, rfl⟩ := ih.mp hrest
        exact ⟨Nat.succ_le_succ hle, List.forall_mem_cons.mpr ⟨hc, hall⟩, rfl⟩
      · exact ⟨Nat.zero_le _, by simp, rfl⟩
    · rintro ⟨hle, hall, rfl⟩
      cases xs with
      | nil => exact Or.inr ⟨rfl, rfl⟩
      | cons c xs =>
        obtain ⟨hc, hxs⟩ := List.forall_mem_cons.mp hall
        have hrest := ih.mpr ⟨Nat.le_of_succ_le_succ hle, hxs, rfl⟩
        exact Or.inl ⟨[c], xs, [], [], .one hc, hrest, rfl, rfl⟩

/-- Two cuts of one text agree when each cuts at the first element outside a class. -/
theorem cut_unique {p : α → Bool} {xs ys xs' ys' : List α} (h : xs ++ ys = xs' ++ ys')
    (hxs : ∀ c ∈ xs, p c = true) (hxs' : ∀ c ∈ xs', p c = true)
    (hys : ∀ c, ys.head? = some c → p c = false) (hys' : ∀ c, ys'.head? = some c → p c = false) :
    xs = xs' ∧ ys = ys' := by
  have hstop : ∀ {zs : List α}, (∀ c, zs.head? = some c → p c = false) → zs.takeWhile p = [] := by
    intro zs hzs
    cases zs with
    | nil => rfl
    | cons c zs =>
      rw [List.takeWhile_cons, hzs c rfl]
      rfl
  have hcut : xs = xs' := by
    have htake := congrArg (List.takeWhile p) h
    rwa [List.takeWhile_append_of_pos hxs, List.takeWhile_append_of_pos hxs', hstop hys,
      hstop hys', List.append_nil, List.append_nil] at htake
  rw [hcut] at h
  exact ⟨hcut, List.append_cancel_left h⟩

/-! ### A matcher -/

/-- Repeat a step that uses something up, at most `fuel` times; then stop. -/
def iterate (step : List α → List (Captures α × List α)) :
    Nat → List α → List (Captures α × List α)
  | 0, xs => [([], xs)]
  | fuel + 1, xs =>
      ((step xs).flatMap fun m =>
        if m.2.length < xs.length then
          (iterate step fuel m.2).map (fun n => (m.1 ++ n.1, n.2))
        else []) ++ [([], xs)]

/-- The ways to match a beginning of the text: the groups, and what is left. -/
def ends : Regex α → List α → List (Captures α × List α)
  | .empty, xs => [([], xs)]
  | .one _, [] => []
  | .one p, c :: xs => if p c then [([], xs)] else []
  | .seq e f, xs => (ends e xs).flatMap fun m => (ends f m.2).map (fun n => (m.1 ++ n.1, n.2))
  | .alt e f, xs => ends e xs ++ ends f xs
  | .star e, xs => iterate (ends e) xs.length xs
  | .group n e, xs =>
      (ends e xs).map fun m => (m.1 ++ [(n, xs.take (xs.length - m.2.length))], m.2)

/-- The groups of the first match of the whole text. -/
def fullMatch (e : Regex α) (xs : List α) : Option (Captures α) :=
  ((ends e xs).find? (fun m => m.2.isEmpty)).map (·.1)

theorem iterate_sound {e : Regex α}
    (hstep : ∀ xs m, m ∈ ends e xs → ∃ ys, xs = ys ++ m.2 ∧ Matches e ys m.1) (fuel : Nat)
    {xs : List α} {m : Captures α × List α} (h : m ∈ iterate (ends e) fuel xs) :
    ∃ ys, xs = ys ++ m.2 ∧ Matches (.star e) ys m.1 := by
  induction fuel generalizing xs m with
  | zero =>
    rw [iterate, List.mem_singleton] at h
    subst h
    exact ⟨[], rfl, .done⟩
  | succ fuel ih =>
    rw [iterate, List.mem_append, List.mem_flatMap, List.mem_singleton] at h
    rcases h with ⟨first, hfirst, hmore⟩ | rfl
    · split at hmore
      · obtain ⟨rest, hrest, rfl⟩ := List.mem_map.mp hmore
        obtain ⟨ys, rfl, hmatch⟩ := hstep xs first hfirst
        obtain ⟨zs, heq, hstar⟩ := ih hrest
        exact ⟨ys ++ zs, by rw [heq, List.append_assoc], .more hmatch hstar⟩
      · cases hmore
    · exact ⟨[], rfl, .done⟩

/-- What `ends` lists are matches. -/
theorem ends_sound {e : Regex α} {xs : List α} {m : Captures α × List α} (h : m ∈ ends e xs) :
    ∃ ys, xs = ys ++ m.2 ∧ Matches e ys m.1 := by
  induction e generalizing xs m with
  | empty =>
    rw [ends, List.mem_singleton] at h
    subst h
    exact ⟨[], rfl, .empty⟩
  | one p =>
    cases xs with
    | nil => cases h
    | cons c xs =>
      rw [ends] at h
      split at h
      · rename_i hc
        rw [List.mem_singleton] at h
        subst h
        exact ⟨[c], rfl, .one hc⟩
      · cases h
  | seq e f ihe ihf =>
    rw [ends, List.mem_flatMap] at h
    obtain ⟨first, hfirst, hmore⟩ := h
    obtain ⟨second, hsecond, rfl⟩ := List.mem_map.mp hmore
    obtain ⟨ys, rfl, hy⟩ := ihe hfirst
    obtain ⟨zs, heq, hz⟩ := ihf hsecond
    exact ⟨ys ++ zs, by rw [heq, List.append_assoc], .seq hy hz⟩
  | alt e f ihe ihf =>
    rw [ends, List.mem_append] at h
    rcases h with h | h
    · obtain ⟨ys, heq, hy⟩ := ihe h
      exact ⟨ys, heq, .left hy⟩
    · obtain ⟨ys, heq, hy⟩ := ihf h
      exact ⟨ys, heq, .right hy⟩
  | star e ih => exact iterate_sound (fun xs m hm => ih hm) xs.length h
  | group n e ih =>
    rw [ends, List.mem_map] at h
    obtain ⟨inner, hinner, rfl⟩ := h
    obtain ⟨ys, rfl, hy⟩ := ih hinner
    refine ⟨ys, rfl, ?_⟩
    simp only [List.length_append, Nat.add_sub_cancel, List.take_left']
    exact .group hy

theorem iterate_complete {e : Regex α} {ys : List α} {cs : Captures α} (rest : List α)
    (hstep : ∀ {ys cs} rest, Matches e ys cs → ∃ ds, (ds, rest) ∈ ends e (ys ++ rest))
    (h : Matches (.star e) ys cs) {fuel : Nat} (hfuel : ys.length ≤ fuel) :
    ∃ ds, (ds, rest) ∈ iterate (ends e) fuel (ys ++ rest) := by
  generalize he : Regex.star e = s at h
  induction h generalizing fuel with
  | done =>
    cases fuel with
    | zero => exact ⟨[], by simp [iterate]⟩
    | succ fuel => exact ⟨[], by simp [iterate]⟩
  | @more e' xs ys cs ds first hrest _ ih =>
    cases he
    cases xs with
    | nil => exact ih hfuel rfl
    | cons c xs =>
      -- the round uses `c` up
      cases fuel with
      | zero => cases hfuel
      | succ fuel =>
        rw [List.cons_append, List.length_cons, List.length_append] at hfuel
        obtain ⟨fs, hfirst⟩ := hstep (ys ++ rest) first
        obtain ⟨gs, hmore⟩ := @ih fuel (by omega) rfl
        refine ⟨fs ++ gs, ?_⟩
        rw [iterate, List.append_assoc, List.mem_append, List.mem_flatMap]
        refine Or.inl ⟨(fs, ys ++ rest), hfirst, ?_⟩
        rw [if_pos (by simp only [List.length_append, List.length_cons]; omega), List.mem_map]
        exact ⟨(gs, rest), hmore, rfl⟩
  | empty | one | seq | left | right | group => cases he

/-- Every match of a beginning leaves what `ends` lists. -/
theorem ends_complete {e : Regex α} {ys : List α} {cs : Captures α} (rest : List α)
    (h : Matches e ys cs) : ∃ ds, (ds, rest) ∈ ends e (ys ++ rest) := by
  induction e generalizing ys rest cs with
  | empty =>
    obtain ⟨rfl, rfl⟩ := matches_empty_iff.mp h
    exact ⟨[], by simp [ends]⟩
  | one p =>
    obtain ⟨c, hc, rfl, rfl⟩ := matches_one_iff.mp h
    exact ⟨[], by simp [ends, hc]⟩
  | seq e f ihe ihf =>
    obtain ⟨xs, zs, ds, es, hx, hz, rfl, rfl⟩ := matches_seq_iff.mp h
    obtain ⟨fs, hfirst⟩ := ihe (zs ++ rest) hx
    obtain ⟨gs, hsecond⟩ := ihf rest hz
    refine ⟨fs ++ gs, ?_⟩
    rw [ends, List.append_assoc, List.mem_flatMap]
    exact ⟨(fs, zs ++ rest), hfirst, List.mem_map.mpr ⟨(gs, rest), hsecond, rfl⟩⟩
  | alt e f ihe ihf =>
    rcases matches_alt_iff.mp h with h | h
    · obtain ⟨ds, hd⟩ := ihe rest h
      exact ⟨ds, List.mem_append.mpr (Or.inl hd)⟩
    · obtain ⟨ds, hd⟩ := ihf rest h
      exact ⟨ds, List.mem_append.mpr (Or.inr hd)⟩
  | star e ih =>
    rw [ends]
    exact iterate_complete rest (fun rest' hm => ih rest' hm) h (by simp)
  | group n e ih =>
    obtain ⟨ds, hd, rfl⟩ := matches_group_iff.mp h
    obtain ⟨fs, hf⟩ := ih rest hd
    exact ⟨_, List.mem_map.mpr ⟨(fs, rest), hf, rfl⟩⟩

theorem fullMatch_sound {e : Regex α} {xs : List α} {cs : Captures α}
    (h : fullMatch e xs = some cs) : Matches e xs cs := by
  obtain ⟨m, hm, rfl⟩ := Option.map_eq_some_iff.mp h
  obtain ⟨ys, rfl, hmatch⟩ := ends_sound (List.mem_of_find?_eq_some hm)
  have hnil : m.2 = [] := by simpa using List.find?_some hm
  rw [hnil, List.append_nil]
  exact hmatch

theorem fullMatch_complete {e : Regex α} {xs : List α} {cs : Captures α}
    (h : Matches e xs cs) : (fullMatch e xs).isSome = true := by
  obtain ⟨ds, hd⟩ := ends_complete [] h
  rw [List.append_nil] at hd
  rw [fullMatch, Option.isSome_map, List.find?_isSome]
  exact ⟨(ds, []), hd, rfl⟩

end Regex

end Patterns
