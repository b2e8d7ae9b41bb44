import SocketIOStress.Session

/-!
# What a failed parse leaves to play

The reader writes into the root while it reads, and the constructor of the
cursor keeps the root when the parse fails.  A cursor over it answers `stop` for
good exactly when nothing was written: when the error comes before the first
element or the first member, or when every element before it reads `stop`.
-/

namespace SocketIOStress

open SocketIOStress.Json

namespace ActionSequence

/-- The answers of so many successive calls of `nextAction`. -/
def nextActions [CDouble] : Nat → ActionSequence → Except Failure (List Text)
  | 0, _ => .ok []
  | calls + 1, s =>
      match s.nextAction with
      | .error e => .error e
      | .ok (action, s) => (nextActions calls s).map (action :: ·)

/-- Every call answers `stop`. -/
def AlwaysStops [CDouble] (s : ActionSequence) : Prop :=
  ∀ calls, s.nextActions calls = .ok (List.replicate calls stop)

section Stops

variable [CDouble]

theorem alwaysStops_of_nextAction {s : ActionSequence} (h : s.nextAction = .ok (stop, s)) :
    s.AlwaysStops := by
  intro calls
  induction calls with
  | zero => rfl
  | succ calls ih =>
    simp only [nextActions, h, ih]
    rfl

theorem nextAction_of_alwaysStops {s : ActionSequence} (h : s.AlwaysStops) :
    ∃ s', s.nextAction = .ok (stop, s') ∧ s'.AlwaysStops := by
  cases hnext : s.nextAction with
  | error e =>
    have hone := h 1
    simp only [nextActions, hnext] at hone
    cases hone
  | ok result =>
    obtain ⟨action, s'⟩ := result
    have hmore : ∀ calls, (s'.nextActions calls).map (action :: ·) =
        .ok (stop :: List.replicate calls stop) := by
      intro calls
      have hcalls := h (calls + 1)
      simp only [nextActions, hnext] at hcalls
      exact hcalls
    have haction : action = stop := by
      have hzero := hmore 0
      simp only [nextActions, Except.map, Except.ok.injEq, List.cons.injEq] at hzero
      exact hzero.1
    refine ⟨s', by rw [haction], ?_⟩
    intro calls
    have hcalls := hmore calls
    cases hrest : s'.nextActions calls with
    | error e =>
      rw [hrest] at hcalls
      cases hcalls
    | ok answers =>
      rw [hrest] at hcalls
      simp only [Except.map, Except.ok.injEq, List.cons.injEq] at hcalls
      rw [hcalls.2]

/-- The element the cursor is on reads `stop`, and the cursor behind it stops too. -/
theorem stop_of_alwaysStops_ofArray {elements : List Value} {i : Nat} {v : Value}
    (hv : elements[i]? = some v) (h : (ofArray elements i).AlwaysStops) :
    v.asString = .ok stop ∧ (ofArray elements (i + 1)).AlwaysStops := by
  obtain ⟨s', hnext, hrest⟩ := nextAction_of_alwaysStops h
  rw [nextAction_ofArray_of_lt hv] at hnext
  cases hstring : v.asString with
  | error e =>
    rw [hstring] at hnext
    cases hnext
  | ok t =>
    rw [hstring] at hnext
    simp only [Except.ok.injEq, Prod.mk.injEq] at hnext
    rw [hnext.1, hnext.2]
    exact ⟨rfl, hrest⟩

/-- Over an array the answers are the elements. -/
theorem alwaysStops_ofArray_iff {elements : List Value} :
    (ofArray elements 0).AlwaysStops ↔ ∀ v ∈ elements, v.asString = .ok stop := by
  constructor
  · intro hstops
    have hat : ∀ i ≤ elements.length, (ofArray elements i).AlwaysStops := by
      intro i
      induction i with
      | zero => exact fun _ => hstops
      | succ i ih =>
        intro hle
        have hget := List.getElem?_eq_getElem (Nat.lt_of_succ_le hle)
        exact (stop_of_alwaysStops_ofArray hget (ih (Nat.le_of_succ_le hle))).2
    intro v hv
    obtain ⟨i, hget⟩ := List.mem_iff_getElem?.mp hv
    have hlt := (List.getElem?_eq_some_iff.mp hget).1
    exact (stop_of_alwaysStops_ofArray hget (hat i (Nat.le_of_lt hlt))).1
  · intro hall
    have hfrom : ∀ calls i, (ofArray elements i).nextActions calls =
        .ok (List.replicate calls stop) := by
      intro calls
      induction calls with
      | zero =>
        intro i
        rfl
      | succ calls ih =>
        intro i
        cases hget : elements[i]? with
        | none => exact alwaysStops_of_nextAction (nextAction_ofArray_of_none hget) (calls + 1)
        | some v =>
          have hstring := hall v (List.mem_of_getElem? hget)
          simp only [nextActions, nextAction_ofArray_of_lt hget, hstring, ih]
          rfl
    intro calls
    exact hfrom calls 0

/-- Over an object the first call fails, unless there is nothing in it. -/
theorem alwaysStops_object_iff {members : List (Text × Value)} :
    (⟨0, .objectValue members⟩ : ActionSequence).AlwaysStops ↔ members = [] := by
  constructor
  · intro hstops
    obtain ⟨s', hnext, -⟩ := nextAction_of_alwaysStops hstops
    cases members with
    | nil => rfl
    | cons m members => simp [nextAction, Value.size, Value.operatorIndex] at hnext
  · rintro rfl
    exact alwaysStops_of_nextAction rfl

theorem alwaysStops_null : (⟨0, .nullValue⟩ : ActionSequence).AlwaysStops :=
  alwaysStops_of_nextAction rfl

end Stops

end ActionSequence

/-! ### Which tokens leave nothing -/

/-- The token is a string that reads `stop`. -/
def Json.Token.IsStop (token : Token) : Prop :=
  token.type = .tokenString ∧ ∃ decoded, decodeString token = .ok decoded ∧ cString decoded = stop

/-- Elements that read `stop`, up to the first one no comma follows. -/
inductive OnlyStops : Text → Prop where
  | last {current : Text} (element : (skipCommentTokens current).1.IsStop)
      (separator : (skipCommentTokens (skipCommentTokens current).2).1.type ≠
        .tokenArraySeparator) : OnlyStops current
  | more {current : Text} (element : (skipCommentTokens current).1.IsStop)
      (separator : (skipCommentTokens (skipCommentTokens current).2).1.type =
        .tokenArraySeparator)
      (rest : OnlyStops (skipCommentTokens (skipCommentTokens current).2).2) : OnlyStops current

/-- A member name that can be decoded, and a colon. -/
def HasMember (current : Text) : Prop :=
  (skipCommentTokens current).1.type = .tokenString ∧
    (∃ name, decodeString (skipCommentTokens current).1 = .ok name) ∧
    (readToken (skipCommentTokens current).2).1.type = .tokenMemberSeparator

/-- The document, which does not parse, breaks off before anything but `stop` was read. -/
def NothingLeft (document : Text) : Prop :=
  match (skipCommentTokens document).1.type with
  | .tokenArrayBegin => OnlyStops (skipSpaces (skipCommentTokens document).2)
  | .tokenObjectBegin => ¬ HasMember (skipCommentTokens document).2
  | _ => True

/-! ### Scalars that do not read `stop` -/

theorem valueToStringReal_ne_stop {buffer : Text} {c : Char} {rest : Text}
    (hbuffer : buffer = c :: rest) (hc : c ≠ 's') : Value.valueToStringReal buffer ≠ stop := by
  have hhead : (Value.valueToStringReal buffer).head? = some c := by
    unfold Value.valueToStringReal
    split
    · rw [hbuffer, List.head?_cons]
    · simp only
      split
      · rw [hbuffer, List.take_succ_cons, List.head?_cons]
      · rw [hbuffer, List.head?_cons]
  intro hstop
  rw [hstop] at hhead
  exact hc (Option.some.inj hhead).symm

theorem uintToString_ne_stop (value : Nat) : Value.uintToString value ≠ stop := by
  intro h
  have hmem : 's' ∈ Value.uintToString value := by
    rw [h]
    decide
  have hdigit : ('s' : Char).isDigit = true :=
    Nat.isDigit_of_mem_toDigits (by decide) (by decide) hmem
  revert hdigit
  decide

theorem valueToStringInt_ne_stop (value : Int) : Value.valueToStringInt value ≠ stop := by
  unfold Value.valueToStringInt
  split
  · intro h
    exact absurd (List.cons.inj h).1 (by decide)
  · exact uintToString_ne_stop _

section Left

variable [CDouble]

theorem decodeDouble_ne_stop {text : Text} {v : Value} (h : decodeDouble text = .ok v) :
    v.asString ≠ .ok stop := by
  unfold decodeDouble at h
  split at h
  · cases h
    obtain ⟨c, rest, hprint, hc⟩ := CDouble.sprintf_head text
    intro hstop
    refine valueToStringReal_ne_stop hprint ?_ (Except.ok.inj hstop)
    rintro rfl
    revert hc
    decide
  · cases h

theorem decodeNumber_ne_stop {text : Text} {v : Value} (h : decodeNumber text = .ok v) :
    v.asString ≠ .ok stop := by
  unfold decodeNumber at h
  split at h
  · exact decodeDouble_ne_stop h
  simp only at h
  split at h
  · cases h
  · exact decodeDouble_ne_stop h
  · split at h
    · cases h
      exact fun hstop => valueToStringInt_ne_stop _ (Except.ok.inj hstop)
    · split at h
      · cases h
        exact fun hstop => valueToStringInt_ne_stop _ (Except.ok.inj hstop)
      · cases h
        exact fun hstop => uintToString_ne_stop _ (Except.ok.inj hstop)

/-! ### What the reader leaves -/

/-- An object stays an object, and keeps the members it has. -/
theorem readObject_value {fuel : Nat} {r : Reader} {name : Text} {members : List (Text × Value)}
    {outcome : Outcome} (h : readObject fuel r name members = some outcome) :
    ∃ left, outcome.value = .objectValue left ∧ (members ≠ [] → left ≠ []) := by
  induction fuel generalizing r name members with
  | zero => cases h
  | succ fuel ih =>
    simp only [readObject] at h
    split at h
    · cases h
      exact ⟨_, rfl, id⟩
    split at h
    · cases h
      exact ⟨_, rfl, id⟩
    split at h
    · cases h
      exact ⟨_, rfl, id⟩
    split at h
    · cases h
      exact ⟨_, rfl, id⟩
    split at h
    · cases h
    -- a value was read: the member is set, whatever comes next
    split at h
    · cases h
      exact ⟨_, rfl, fun _ => Value.setMember_ne_nil _ _ _⟩
    split at h
    · cases h
      exact ⟨_, rfl, fun _ => Value.setMember_ne_nil _ _ _⟩
    split at h
    · cases h
      exact ⟨_, rfl, fun _ => Value.setMember_ne_nil _ _ _⟩
    obtain ⟨left, hvalue, hleft⟩ := ih h
    exact ⟨left, hvalue, fun _ => hleft (Value.setMember_ne_nil _ _ _)⟩

/-- A first round that fails leaves a member exactly when it came to its value. -/
theorem readObject_left_iff {fuel : Nat} {r : Reader} {outcome : Outcome}
    (h : readObject fuel r [] [] = some outcome) (hok : outcome.ok = false) :
    outcome.value = .objectValue [] ↔ ¬ HasMember r.current := by
  cases fuel with
  | zero => cases h
  | succ fuel =>
    simp only [readObject] at h
    split at h
    · cases h
      cases hok
    split at h
    · rename_i hname
      cases h
      exact ⟨fun _ hmember => hname hmember.1, fun _ => rfl⟩
    split at h
    · rename_i e hdecode
      cases h
      refine ⟨fun _ hmember => ?_, fun _ => rfl⟩
      obtain ⟨-, ⟨name, hdecoded⟩, -⟩ := hmember
      rw [hdecode] at hdecoded
      cases hdecoded
    rename_i hname _ name hdecode
    split at h
    · rename_i hcolon
      cases h
      exact ⟨fun _ hmember => hcolon hmember.2.2, fun _ => rfl⟩
    rename_i hcolon
    have hmember : HasMember r.current :=
      ⟨Classical.not_not.mp hname, ⟨name, hdecode⟩, Classical.not_not.mp hcolon⟩
    -- from here on the object has the member
    have hleft : ∃ left, outcome.value = .objectValue left ∧ left ≠ [] := by
      split at h
      · cases h
      split at h
      · cases h
        exact ⟨_, rfl, Value.setMember_ne_nil _ _ _⟩
      split at h
      · cases h
        exact ⟨_, rfl, Value.setMember_ne_nil _ _ _⟩
      split at h
      · cases h
        exact ⟨_, rfl, Value.setMember_ne_nil _ _ _⟩
      obtain ⟨left, hvalue, hne⟩ := readObject_value h
      exact ⟨left, hvalue, hne (Value.setMember_ne_nil _ _ _)⟩
    obtain ⟨left, hvalue, hne⟩ := hleft
    constructor
    · intro hempty
      rw [hvalue, Value.objectValue.injEq] at hempty
      exact absurd hempty hne
    · intro hnone
      exact absurd hmember hnone

theorem readElements_value {fuel : Nat} {r : Reader} {elements : List Value} {outcome : Outcome}
    (h : readElements fuel r elements = some outcome) :
    ∃ left, outcome.value = .arrayValue left := by
  induction fuel generalizing r elements with
  | zero => cases h
  | succ fuel ih =>
    simp only [readElements] at h
    split at h
    · cases h
    split at h
    · cases h
      exact ⟨_, rfl⟩
    split at h
    · cases h
      exact ⟨_, rfl⟩
    split at h
    · cases h
      exact ⟨_, rfl⟩
    exact ih h

theorem readArray_value {fuel : Nat} {r : Reader} {outcome : Outcome}
    (h : readArray fuel r = some outcome) : ∃ left, outcome.value = .arrayValue left := by
  cases fuel with
  | zero => cases h
  | succ fuel =>
    simp only [readArray] at h
    split at h
    · cases h
      exact ⟨_, rfl⟩
    · exact readElements_value h

/-- A string token that is decoded reads `stop` exactly when its value does. -/
theorem asString_ofString_eq_stop_iff {token : Token} {decoded : Text}
    (htype : token.type = .tokenString) (hdecode : decodeString token = .ok decoded) :
    (Value.ofString decoded).asString = .ok stop ↔ token.IsStop := by
  constructor
  · intro hstop
    exact ⟨htype, decoded, hdecode, Except.ok.inj hstop⟩
  · rintro ⟨-, decoded', hdecode', hstop⟩
    rw [hdecode] at hdecode'
    cases hdecode'
    exact congrArg Except.ok hstop

omit [CDouble] in
theorem not_isStop_of_error {token : Token} {e : Text × Text}
    (hdecode : decodeString token = .error e) : ¬ token.IsStop := by
  rintro ⟨-, decoded, hdecode', -⟩
  rw [hdecode] at hdecode'
  cases hdecode'

/-- What is read for an element reads `stop` exactly when its token does, and then
    the reader stands behind the token. -/
theorem readValue_stop_iff {fuel : Nat} {r : Reader} {outcome : Outcome}
    (h : readValue fuel r .nullValue = some outcome) :
    (outcome.value.asString = .ok stop ↔ (skipCommentTokens r.current).1.IsStop) ∧
      ((skipCommentTokens r.current).1.IsStop →
        outcome.ok = true ∧ outcome.reader.current = (skipCommentTokens r.current).2) := by
  cases fuel with
  | zero => cases h
  | succ fuel =>
    -- a token of another kind than a string, and a value that does not read `stop`
    have hother : outcome.value.asString ≠ .ok stop →
        (skipCommentTokens r.current).1.type ≠ .tokenString →
        (outcome.value.asString = .ok stop ↔ (skipCommentTokens r.current).1.IsStop) ∧
        ((skipCommentTokens r.current).1.IsStop →
          outcome.ok = true ∧ outcome.reader.current = (skipCommentTokens r.current).2) := by
      intro hvalue htype
      exact ⟨⟨fun hstop => absurd hstop hvalue, fun hstop => absurd hstop.1 htype⟩,
        fun hstop => absurd hstop.1 htype⟩
    have hnull : (Value.nullValue).asString ≠ .ok stop := fun hstop => by
      cases hstop
    simp only [readValue] at h
    cases htype : (skipCommentTokens r.current).1.type with
    | tokenObjectBegin =>
      simp only [htype] at h
      obtain ⟨left, hvalue, -⟩ := readObject_value h
      refine hother ?_ (by rw [htype]; decide)
      rw [hvalue]
      exact fun hstop => by cases hstop
    | tokenArrayBegin =>
      simp only [htype] at h
      obtain ⟨left, hvalue⟩ := readArray_value h
      refine hother ?_ (by rw [htype]; decide)
      rw [hvalue]
      exact fun hstop => by cases hstop
    | tokenNumber =>
      simp only [htype] at h
      split at h
      · rename_i v hnumber
        cases h
        exact hother (decodeNumber_ne_stop hnumber) (by rw [htype]; decide)
      · cases h
        exact hother hnull (by rw [htype]; decide)
    | tokenString =>
      simp only [htype] at h
      split at h
      · rename_i decoded hdecode
        cases h
        exact ⟨asString_ofString_eq_stop_iff htype hdecode, fun _ => ⟨rfl, rfl⟩⟩
      · rename_i e hdecode
        cases h
        have hnone := not_isStop_of_error hdecode
        exact ⟨⟨fun hstop => absurd hstop hnull, fun hstop => absurd hstop hnone⟩,
          fun hstop => absurd hstop hnone⟩
    | tokenTrue =>
      simp only [htype] at h
      cases h
      exact hother (fun hstop => absurd (Except.ok.inj hstop) (by decide)) (by rw [htype]; decide)
    | tokenFalse =>
      simp only [htype] at h
      cases h
      exact hother (fun hstop => absurd (Except.ok.inj hstop) (by decide)) (by rw [htype]; decide)
    | tokenNull | tokenEndOfStream | tokenObjectEnd | tokenArrayEnd | tokenArraySeparator
    | tokenMemberSeparator | tokenComment | tokenError =>
      simp only [htype] at h
      cases h
      exact hother hnull (by rw [htype]; decide)

omit [CDouble] in
/-- Behind an element that reads `stop`, only a comma asks for another one. -/
theorem onlyStops_iff {current : Text} :
    OnlyStops current ↔ (skipCommentTokens current).1.IsStop ∧
      ((skipCommentTokens (skipCommentTokens current).2).1.type = .tokenArraySeparator →
        OnlyStops (skipCommentTokens (skipCommentTokens current).2).2) := by
  constructor
  · intro h
    cases h with
    | last element separator => exact ⟨element, fun hcomma => absurd hcomma separator⟩
    | more element separator rest => exact ⟨element, fun _ => rest⟩
  · rintro ⟨element, hrest⟩
    by_cases hcomma : (skipCommentTokens (skipCommentTokens current).2).1.type =
        .tokenArraySeparator
    · exact .more element hcomma (hrest hcomma)
    · exact .last element hcomma

/-- After a failure in the loop of `readArray`, everything in the array reads `stop`
    exactly when everything before did and only such elements were read. -/
theorem readElements_stops_iff {fuel : Nat} {r : Reader} {elements left : List Value}
    {outcome : Outcome} (h : readElements fuel r elements = some outcome)
    (hok : outcome.ok = false) (hleft : outcome.value = .arrayValue left) :
    (∀ v ∈ left, v.asString = .ok stop) ↔
      (∀ v ∈ elements, v.asString = .ok stop) ∧ OnlyStops r.current := by
  induction fuel generalizing r elements with
  | zero => cases h
  | succ fuel ih =>
    simp only [readElements] at h
    split at h
    · cases h
    rename_i element hread
    obtain ⟨hstop, hforward⟩ := readValue_stop_iff hread
    have hsnoc : (∀ v ∈ elements ++ [element.value], v.asString = .ok stop) ↔
        (∀ v ∈ elements, v.asString = .ok stop) ∧ (skipCommentTokens r.current).1.IsStop := by
      rw [← hstop]
      simp [List.mem_append, or_imp, forall_and]
    -- what is left to show is about what stands behind an element that reads `stop`
    rw [onlyStops_iff, ← and_assoc, ← hsnoc]
    split at h
    · -- the element failed
      rename_i hfailed
      cases h
      rw [Value.arrayValue.injEq] at hleft
      rw [← hleft, iff_self_and]
      intro hall
      rw [(hforward (hsnoc.mp hall).2).1] at hfailed
      cases hfailed
    split at h
    · -- neither a comma nor the end
      rename_i hseparator
      cases h
      rw [Value.arrayValue.injEq] at hleft
      rw [← hleft, iff_self_and]
      intro hall hcomma
      rw [← (hforward (hsnoc.mp hall).2).2] at hcomma
      exact absurd hcomma hseparator.1
    split at h
    · cases h
      cases hok
    rename_i hseparator hend
    have hcomma : (skipCommentTokens element.reader.current).1.type = .tokenArraySeparator := by
      by_cases hcomma : (skipCommentTokens element.reader.current).1.type = .tokenArraySeparator
      · exact hcomma
      · exact absurd ⟨hcomma, hend⟩ hseparator
    rw [ih h, and_congr_right_iff]
    intro hall
    rw [← (hforward (hsnoc.mp hall).2).2]
    exact ⟨fun hrest _ => hrest, fun hrest => hrest hcomma⟩

/-- **When a script that does not parse is not played.**  Every call of `nextAction` on the
    sequence made from such a file answers `stop` exactly when the document breaks off
    before any other element, and before any member, was read. -/
theorem never_played_iff {content : Text} (hfailed : (parseStream content).1 = false) :
    (ActionSequence.construct content).AlwaysStops ↔ NothingLeft (getline content) := by
  obtain ⟨outcome, hread, hparse⟩ := parse_answers (getline content)
  have hok : outcome.ok = false := by
    rw [← hfailed, parseStream, hparse]
  have hconstruct : ActionSequence.construct content = ⟨0, outcome.value⟩ := by
    rw [ActionSequence.construct, parseStream, hparse]
  rw [hconstruct]
  -- a root that is no container is left null
  have hnull : outcome.value = .nullValue →
      ((⟨0, outcome.value⟩ : ActionSequence).AlwaysStops ↔ True) := by
    intro hvalue
    rw [hvalue]
    exact iff_true_intro ActionSequence.alwaysStops_null
  rw [show parseFuel (getline content) = (3 * (getline content).length + 2) + 1 from rfl] at hread
  simp only [readValue] at hread
  unfold NothingLeft
  cases htype : (skipCommentTokens (getline content)).1.type with
  | tokenObjectBegin =>
    simp only [htype] at hread ⊢
    obtain ⟨left, hvalue, -⟩ := readObject_value hread
    rw [hvalue, ActionSequence.alwaysStops_object_iff]
    have hiff := readObject_left_iff hread hok
    rw [hvalue, Value.objectValue.injEq] at hiff
    exact hiff
  | tokenArrayBegin =>
    simp only [htype] at hread ⊢
    obtain ⟨left, hvalue⟩ := readArray_value hread
    rw [hvalue]
    refine ActionSequence.alwaysStops_ofArray_iff.trans ?_
    simp only [readArray] at hread
    split at hread
    · cases hread
      cases hok
    · rw [readElements_stops_iff hread hok hvalue]
      constructor
      · rintro ⟨-, hstops⟩
        exact hstops
      · intro hstops
        exact ⟨by simp, hstops⟩
  | tokenNumber =>
    simp only [htype] at hread ⊢
    split at hread
    · cases hread
      cases hok
    · cases hread
      exact hnull rfl
  | tokenString =>
    simp only [htype] at hread ⊢
    split at hread
    · cases hread
      cases hok
    · cases hread
      exact hnull rfl
  | tokenTrue | tokenFalse | tokenNull =>
    simp only [htype] at hread
    cases hread
    cases hok
  | tokenEndOfStream | tokenObjectEnd | tokenArrayEnd | tokenArraySeparator
  | tokenMemberSeparator | tokenComment | tokenError =>
    simp only [htype] at hread ⊢
    cases hread
    exact hnull rfl

end Left

section Truncated

open Plain

/-- A file with nothing before the end of the array but `stop`. -/
theorem never_played_of_stop :
    (ActionSequence.construct "[\"stop\"".toList).AlwaysStops := by
  refine (never_played_iff (by decide +kernel)).mpr ?_
  refine OnlyStops.last ⟨by decide +kernel, stop, ok_of_toOption ?_, by decide +kernel⟩ ?_
  · decide +kernel
  · decide +kernel

/-- The element before the end of a truncated file is handed out as an action. -/
theorem truncated_script_is_played :
    (parseStream "[\"a\"".toList).1 = false ∧
      (ActionSequence.construct "[\"a\"".toList).nextActions 2 = .ok ["a".toList, stop] ∧
      ¬ (ActionSequence.construct "[\"a\"".toList).AlwaysStops := by
  have hplayed : (ActionSequence.construct "[\"a\"".toList).nextActions 2 =
      .ok ["a".toList, stop] := by
    apply ok_of_toOption
    decide +kernel
  refine ⟨by decide +kernel, hplayed, ?_⟩
  intro hstops
  rw [hstops 2] at hplayed
  exact absurd (Except.ok.inj hplayed) (by decide)

end Truncated

end SocketIOStress
