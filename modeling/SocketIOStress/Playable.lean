import SocketIOStress.FailedParse

/-!
# Which documents the cursor gets through

`nextAction` reads an element only while the cursor is below `size()`.  The guard
counts the members of an object as well, which has no element to read, and says
nothing about the kind of the element it lets through.  So the calls return as
long as the cursor stands on scalars, and never on an object with a member.
-/

namespace SocketIOStress

open SocketIOStress.Json

namespace ActionSequence

/-! ### Guard and access -/

section Guard

variable [CDouble]

/-- `_actions[_lastIndex].asString()` is defined. -/
def AccessDefined (s : ActionSequence) : Prop :=
  ∃ element actions action, s.actions.operatorIndex s.lastIndex = .ok (element, actions) ∧
    element.asString = .ok action

/-- The guard lets through only what can be accessed. -/
def Guarded (s : ActionSequence) : Prop := s.lastIndex < s.actions.size → s.AccessDefined

/-- So many calls of `nextAction` lead from one cursor to the other. -/
inductive Reaches : Nat → ActionSequence → ActionSequence → Prop where
  | here (s : ActionSequence) : Reaches 0 s s
  | call {calls : Nat} {s s' t : ActionSequence} {action : Text}
      (next : s.nextAction = .ok (action, s')) (rest : Reaches calls s' t) :
      Reaches (calls + 1) s t

/-- So many successive calls of `nextAction` return. -/
def Returns (calls : Nat) (s : ActionSequence) : Prop :=
  ∃ answers, s.nextActions calls = .ok answers

theorem returns_zero (s : ActionSequence) : Returns 0 s := ⟨[], rfl⟩

theorem returns_succ_iff {calls : Nat} {s : ActionSequence} :
    Returns (calls + 1) s ↔
      ∃ action s', s.nextAction = .ok (action, s') ∧ Returns calls s' := by
  simp only [Returns, nextActions]
  constructor
  · rintro ⟨answers, h⟩
    split at h
    · cases h
    · rename_i action s' hnext
      cases hrest : s'.nextActions calls with
      | error e =>
        rw [hrest] at h
        cases h
      | ok rest => exact ⟨action, s', hnext, rest, hrest⟩
  · rintro ⟨action, s', hnext, rest, hrest⟩
    exact ⟨action :: rest, by simp only [hnext, hrest]; rfl⟩

/-- A call returns exactly when the guard protects its access. -/
theorem guarded_iff {s : ActionSequence} :
    s.Guarded ↔ ∃ action s', s.nextAction = .ok (action, s') := by
  by_cases hlt : s.lastIndex < s.actions.size
  · simp only [Guarded, AccessDefined, nextAction, if_pos hlt]
    cases hindex : s.actions.operatorIndex s.lastIndex with
    | error e => simp [hlt]
    | ok result =>
      obtain ⟨element, actions⟩ := result
      cases hstring : element.asString with
      | error e => simp [hlt, hstring]
      | ok action => simp [hstring]
  · constructor
    · intro _
      exact ⟨stop, s, if_neg hlt⟩
    · intro _ hlt'
      exact absurd hlt' hlt

/-- All calls return exactly when no cursor they reach fails its guard. -/
theorem returns_iff_guarded {s : ActionSequence} :
    (∀ calls, Returns calls s) ↔ ∀ calls t, Reaches calls s t → t.Guarded := by
  constructor
  · intro hreturns calls t hreaches
    induction hreaches with
    | here s =>
      obtain ⟨action, s', hnext, -⟩ := returns_succ_iff.mp (hreturns 1)
      exact guarded_iff.mpr ⟨action, s', hnext⟩
    | @call calls s s' t action hnext hrest ih =>
      apply ih
      intro more
      obtain ⟨action₁, s₁, hnext₁, hmore⟩ := returns_succ_iff.mp (hreturns (more + 1))
      rw [hnext] at hnext₁
      cases hnext₁
      exact hmore
  · intro hguarded calls
    induction calls generalizing s with
    | zero => exact returns_zero s
    | succ calls ih =>
      obtain ⟨action, s', hnext⟩ := guarded_iff.mp (hguarded 0 s (.here s))
      refine returns_succ_iff.mpr ⟨action, s', hnext, ih ?_⟩
      intro more t hreaches
      exact hguarded (more + 1) t (.call hnext hreaches)

end Guard

/-! ### Which roots are safe -/

/-- The first so many calls find nothing they cannot hand out. -/
def PlayableFor (calls : Nat) : Value → Prop
  | .arrayValue elements => ∀ v ∈ elements.take calls, v.IsScalar
  | .objectValue members => calls = 0 ∨ members = []
  | _ => True

/-- Nothing in the root would be accessed in vain. -/
def Playable : Value → Prop
  | .arrayValue elements => ∀ v ∈ elements, v.IsScalar
  | .objectValue members => members = []
  | _ => True

theorem playable_iff {root : Value} : Playable root ↔ ∀ calls, PlayableFor calls root := by
  cases root with
  | arrayValue elements =>
    constructor
    · intro h calls v hv
      exact h v (List.mem_of_mem_take hv)
    · intro h v hv
      exact h elements.length v (by rw [List.take_length]; exact hv)
  | objectValue members =>
    constructor
    · intro h calls
      exact Or.inr h
    · intro h
      rcases h 1 with hone | hnil
      · exact absurd hone (by decide)
      · exact hnil
  | nullValue | intValue value | uintValue value | realValue lexeme | stringValue value
  | booleanValue value => exact iff_of_true trivial (fun _ => trivial)

section Root

variable [CDouble]

/-- Over an array the calls return as long as the elements are scalars. -/
theorem returns_ofArray_iff {elements : List Value} {calls i : Nat} :
    Returns calls (ofArray elements i) ↔ ∀ v ∈ (elements.drop i).take calls, v.IsScalar := by
  induction calls generalizing i with
  | zero => simp [returns_zero]
  | succ calls ih =>
    rw [returns_succ_iff]
    cases hget : elements[i]? with
    | none =>
      -- behind the last element the cursor stays
      have hnil : elements.drop i = [] :=
        List.drop_eq_nil_of_le (List.getElem?_eq_none_iff.mp hget)
      rw [nextAction_ofArray_of_none hget, hnil]
      have hrest : Returns calls (ofArray elements i) := by
        rw [ih, hnil]
        simp
      simp only [List.take_nil, List.not_mem_nil, false_implies, implies_true, iff_true]
      exact ⟨stop, _, rfl, hrest⟩
    | some v =>
      obtain ⟨hlt, hv⟩ := List.getElem?_eq_some_iff.mp hget
      have hcons : elements.drop i = v :: elements.drop (i + 1) := by
        rw [List.drop_eq_getElem_cons hlt, hv]
      rw [nextAction_ofArray_of_lt hget, hcons, List.take_succ_cons, List.forall_mem_cons,
        ← Value.asString_ok_iff_isScalar, ← ih]
      cases hstring : v.asString with
      | error e => simp
      | ok action =>
        constructor
        · rintro ⟨action', s', heq, hrest⟩
          cases heq
          exact ⟨⟨action, rfl⟩, hrest⟩
        · rintro ⟨-, hrest⟩
          exact ⟨action, _, rfl, hrest⟩

/-- Without an element below `size()` every call answers `stop`. -/
theorem returns_of_size_zero {root : Value} (hsize : root.size = 0) (calls : Nat) :
    Returns calls ⟨0, root⟩ := by
  have hguard : ¬ 0 < root.size := by
    rw [hsize]
    exact Nat.lt_irrefl 0
  have hnext : (⟨0, root⟩ : ActionSequence).nextAction = .ok (stop, ⟨0, root⟩) := if_neg hguard
  exact ⟨_, alwaysStops_of_nextAction hnext calls⟩

theorem returns_root_iff {root : Value} {calls : Nat} :
    Returns calls ⟨0, root⟩ ↔ PlayableFor calls root := by
  cases root with
  | arrayValue elements => exact returns_ofArray_iff
  | objectValue members =>
    cases members with
    | nil => exact iff_of_true (returns_of_size_zero rfl calls) (Or.inr rfl)
    | cons m members =>
      -- the guard counts the member, and the index operator asserts
      cases calls with
      | zero => exact iff_of_true (returns_zero _) (Or.inl rfl)
      | succ calls =>
        rw [returns_succ_iff]
        simp [nextAction, Value.size, Value.operatorIndex, PlayableFor]
  | nullValue | intValue value | uintValue value | realValue lexeme | stringValue value
  | booleanValue value => exact iff_of_true (returns_of_size_zero rfl calls) trivial

/-- **When the cursor is safe.**  Whatever the file holds, all calls of `nextAction` on the
    sequence made from it return exactly when its root is no object with a member and no
    array with an array or object in it; exactly then the guard protects every access; and
    so many calls return exactly when the elements they come to are scalars. -/
theorem cursor_safe_iff (content : Text) :
    ((∀ calls, ∃ answers, (construct content).nextActions calls = .ok answers) ↔
      Playable (parseStream content).2.1) ∧
    ((∀ calls t, Reaches calls (construct content) t → t.Guarded) ↔
      Playable (parseStream content).2.1) ∧
    ∀ calls, (∃ answers, (construct content).nextActions calls = .ok answers) ↔
      PlayableFor calls (parseStream content).2.1 := by
  have heach : ∀ calls, Returns calls (construct content) ↔
      PlayableFor calls (parseStream content).2.1 := fun _ => returns_root_iff
  have hall : (∀ calls, Returns calls (construct content)) ↔
      Playable (parseStream content).2.1 := by
    rw [playable_iff]
    exact forall_congr' heach
  exact ⟨hall, returns_iff_guarded.symm.trans hall, heach⟩

end Root

end ActionSequence

section Unsafe

open Plain

/-- Two documents that parse: an object with a member, on which the first call asserts, and
    an array with an array behind its first element, on which the second call throws. -/
theorem cursor_unsafe_on_object_and_nested :
    ((parseStream "\x7b\"0\":\"a\"\x7d".toList).1 = true ∧
      (ActionSequence.construct "\x7b\"0\":\"a\"\x7d".toList).nextActions 1 =
        .error .jsonAssert) ∧
    ((parseStream "[\"a\",[\"b\"]]".toList).1 = true ∧
      (ActionSequence.construct "[\"a\",[\"b\"]]".toList).nextActions 2 =
        .error (.runtimeError "Type is not convertible to string")) := by
  refine ⟨⟨by decide +kernel, error_of_failureOf ?_⟩, by decide +kernel, error_of_failureOf ?_⟩
  · decide +kernel
  · decide +kernel

end Unsafe

end SocketIOStress
