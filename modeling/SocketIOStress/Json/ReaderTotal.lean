import SocketIOStress.Json.Reader

/-!
# The reader always answers

No document makes the reader loop or run out of its bound: every token function
leaves at most what it was given, every token but the end of the stream takes at
least one char, and so the fuel that `parse` starts with is enough for any
document, of any nesting.
-/

namespace SocketIOStress.Json

open SocketIOStress

/-! ### Token functions only move forward -/

theorem length_dropWhile_le {α : Type} (p : α → Bool) (l : List α) :
    (l.dropWhile p).length ≤ l.length :=
  (List.dropWhile_sublist p).length_le

theorem length_readCStyleComment_le (current : Text) :
    (readCStyleComment current).2.length ≤ current.length := by
  induction current with
  | nil => simp [readCStyleComment]
  | cons c current ih =>
    by_cases h : c = '*' ∧ current.head? = some '/'
    · simp only [readCStyleComment, if_pos h, List.length_drop, List.length_cons]
      omega
    · simp only [readCStyleComment, if_neg h, List.length_cons]
      omega

theorem length_readCppStyleComment_le (current : Text) :
    (readCppStyleComment current).2.length ≤ current.length := by
  induction current with
  | nil => simp [readCppStyleComment]
  | cons c current ih =>
    by_cases h : c = '\r' ∨ c = '\n'
    · simp only [readCppStyleComment, if_pos h, List.length_cons]
      omega
    · simp only [readCppStyleComment, if_neg h, List.length_cons]
      omega

theorem length_getNextChar_le (current : Text) :
    (getNextChar current).2.length ≤ current.length := by
  cases current <;> simp [getNextChar]

theorem length_readComment_le (current : Text) :
    (readComment current).2.length ≤ current.length := by
  have hnext := length_getNextChar_le current
  simp only [readComment]
  split
  · exact Nat.le_trans (length_readCStyleComment_le _) hnext
  · split
    · exact Nat.le_trans (length_readCppStyleComment_le _) hnext
    · exact hnext

theorem length_readString_le (current : Text) :
    (readString current).2.length ≤ current.length := by
  fun_induction readString current <;> simp only [List.length_cons, List.length_nil] <;> omega

theorem length_matchPattern_le (pattern current : Text) :
    (matchPattern pattern current).2.length ≤ current.length := by
  simp only [matchPattern]
  split
  · rw [List.length_drop]; omega
  · exact Nat.le_refl _

theorem length_scanToken_le (c : Char) (current : Text) :
    (scanToken c current).2.length ≤ current.length := by
  have hs := length_readString_le current
  have hc := length_readComment_le current
  have hn : (readNumber current).length ≤ current.length := length_dropWhile_le _ _
  have hm := fun pattern => length_matchPattern_le pattern current
  unfold scanToken
  split
  all_goals first
    | exact Nat.le_refl _
    | exact hs
    | exact hc
    | exact hn
    | exact hm _

theorem length_skipSpaces_le (current : Text) : (skipSpaces current).length ≤ current.length :=
  length_dropWhile_le _ _

theorem length_readToken_le (current : Text) :
    (readToken current).2.length ≤ current.length := by
  have hscan := length_scanToken_le (getNextChar (skipSpaces current)).1
    (getNextChar (skipSpaces current)).2
  have hnext := length_getNextChar_le (skipSpaces current)
  have hskip := length_skipSpaces_le current
  simp only [readToken]
  omega

/-- A token that is not the end of the stream takes a char. -/
theorem length_readToken_lt {current : Text}
    (h : (readToken current).1.type ≠ .tokenEndOfStream) :
    (readToken current).2.length < current.length := by
  have hskip := length_skipSpaces_le current
  cases hstart : skipSpaces current with
  | nil =>
    -- at `end_` the next char is NUL
    refine absurd ?_ h
    simp only [readToken, hstart, getNextChar]
    decide
  | cons c rest =>
    have hscan := length_scanToken_le c rest
    rw [hstart, List.length_cons] at hskip
    simp only [readToken, hstart, getNextChar]
    omega

theorem skipCommentTokensWithin_spec (bound : Nat) (current : Text) :
    (skipCommentTokensWithin bound current).2.length ≤ current.length ∧
      ((skipCommentTokensWithin bound current).1.type ≠ .tokenEndOfStream →
        (skipCommentTokensWithin bound current).2.length < current.length) := by
  induction bound generalizing current with
  | zero => exact ⟨length_readToken_le current, length_readToken_lt⟩
  | succ bound ih =>
    simp only [skipCommentTokensWithin]
    by_cases h : (readToken current).1.type = .tokenComment
    · obtain ⟨hle, -⟩ := ih (readToken current).2
      have hlt : (readToken current).2.length < current.length :=
        length_readToken_lt (by rw [h]; decide)
      rw [if_pos h]
      exact ⟨by omega, fun _ => by omega⟩
    · rw [if_neg h]
      exact ⟨length_readToken_le current, length_readToken_lt⟩

theorem length_skipCommentTokens_le (current : Text) :
    (skipCommentTokens current).2.length ≤ current.length :=
  (skipCommentTokensWithin_spec _ current).1

theorem length_skipCommentTokens_lt {current : Text}
    (h : (skipCommentTokens current).1.type ≠ .tokenEndOfStream) :
    (skipCommentTokens current).2.length < current.length :=
  (skipCommentTokensWithin_spec _ current).2 h

theorem length_pastComments_le (token : Token) (rest : Text) :
    (pastComments token rest).2.length ≤ rest.length := by
  simp only [pastComments]
  split
  · exact length_skipCommentTokens_le _
  · exact Nat.le_refl _

theorem length_skipUntil_le (type : TokenType) (bound : Nat) (current : Text) :
    (Reader.skipUntil type bound current).length ≤ current.length := by
  induction bound generalizing current with
  | zero => exact length_readToken_le current
  | succ bound ih =>
    have hle := length_readToken_le current
    simp only [Reader.skipUntil]
    split
    · exact hle
    · exact Nat.le_trans (ih _) hle

/-! ### Enough fuel -/

/-- How much of the document a reader has before it. -/
def Reader.left (r : Reader) : Nat := r.current.length

@[simp] theorem left_seek (r : Reader) (current : Text) :
    (r.seek current).left = current.length := rfl

theorem left_recoverFromError_le (r : Reader) (type : TokenType) :
    (r.recoverFromError type).left ≤ r.left :=
  length_skipUntil_le type _ _

theorem left_addErrorAndRecover_le (r : Reader) (message : Text) (token : Token)
    (type : TokenType) : (r.addErrorAndRecover message token type).left ≤ r.left :=
  left_recoverFromError_le _ _

/-- An answer, and not behind the position `bound` counts from. -/
def Answers (bound : Nat) (answer : Option Outcome) : Prop :=
  ∃ outcome, answer = some outcome ∧ outcome.reader.left ≤ bound

/-- An answer that took at least one char when it is a success. -/
def AnswersForward (bound : Nat) (answer : Option Outcome) : Prop :=
  ∃ outcome, answer = some outcome ∧ outcome.reader.left ≤ bound ∧
    (outcome.ok = true → outcome.reader.left < bound)

/-- The four functions answer when the fuel is three for every char left, and a
    little more for the calls that take no char. -/
def AnswerWith [CDouble] (fuel : Nat) : Prop :=
  (∀ r node, 3 * r.left + 1 ≤ fuel → AnswersForward r.left (readValue fuel r node)) ∧
  (∀ r name members, 3 * r.left + 2 ≤ fuel → Answers r.left (readObject fuel r name members)) ∧
  (∀ r, 3 * r.left + 3 ≤ fuel → Answers r.left (readArray fuel r)) ∧
  (∀ r elements, 3 * r.left + 2 ≤ fuel → Answers r.left (readElements fuel r elements))

section Step

variable [CDouble] {fuel : Nat} (ih : AnswerWith fuel)
include ih

theorem readValue_answers (r : Reader) (node : Value) (hfuel : 3 * r.left + 1 ≤ fuel + 1) :
    AnswersForward r.left (readValue (fuel + 1) r node) := by
  obtain ⟨-, hobject, harray, -⟩ := ih
  have hle : (skipCommentTokens r.current).2.length ≤ r.left := length_skipCommentTokens_le _
  have hlt : (skipCommentTokens r.current).1.type ≠ .tokenEndOfStream →
      (skipCommentTokens r.current).2.length < r.left := length_skipCommentTokens_lt
  simp only [readValue]
  cases htype : (skipCommentTokens r.current).1.type with
  | tokenObjectBegin =>
    have hstep := hlt (by rw [htype]; decide)
    obtain ⟨outcome, heq, hleft⟩ := hobject (r.seek (skipCommentTokens r.current).2) [] []
      (by rw [left_seek]; omega)
    rw [left_seek] at hleft
    exact ⟨outcome, heq, by omega, fun _ => by omega⟩
  | tokenArrayBegin =>
    have hstep := hlt (by rw [htype]; decide)
    obtain ⟨outcome, heq, hleft⟩ := harray (r.seek (skipCommentTokens r.current).2)
      (by rw [left_seek]; omega)
    rw [left_seek] at hleft
    exact ⟨outcome, heq, by omega, fun _ => by omega⟩
  | tokenNumber =>
    have hstep := hlt (by rw [htype]; decide)
    cases decodeNumber (skipCommentTokens r.current).1.text with
    | ok v => exact ⟨_, rfl, hle, fun _ => hstep⟩
    | error message => exact ⟨_, rfl, hle, fun _ => hstep⟩
  | tokenString =>
    have hstep := hlt (by rw [htype]; decide)
    cases decodeString (skipCommentTokens r.current).1 with
    | ok decoded => exact ⟨_, rfl, hle, fun _ => hstep⟩
    | error e => exact ⟨_, rfl, hle, fun _ => hstep⟩
  | tokenTrue => exact ⟨_, rfl, hle, fun _ => hlt (by rw [htype]; decide)⟩
  | tokenFalse => exact ⟨_, rfl, hle, fun _ => hlt (by rw [htype]; decide)⟩
  | tokenNull => exact ⟨_, rfl, hle, fun _ => hlt (by rw [htype]; decide)⟩
  | tokenEndOfStream | tokenObjectEnd | tokenArrayEnd | tokenArraySeparator
  | tokenMemberSeparator | tokenComment | tokenError =>
    exact ⟨_, rfl, hle, fun h => by cases h⟩

theorem readArray_answers (r : Reader) (hfuel : 3 * r.left + 3 ≤ fuel + 1) :
    Answers r.left (readArray (fuel + 1) r) := by
  obtain ⟨-, -, -, helements⟩ := ih
  have hskip : (skipSpaces r.current).length ≤ r.left := length_skipSpaces_le _
  simp only [readArray]
  split
  · refine ⟨_, rfl, ?_⟩
    exact Nat.le_trans (length_readToken_le _) hskip
  · obtain ⟨outcome, heq, hleft⟩ := helements (r.seek (skipSpaces r.current)) []
      (by rw [left_seek]; omega)
    rw [left_seek] at hleft
    exact ⟨outcome, heq, by omega⟩

theorem readElements_answers (r : Reader) (elements : List Value)
    (hfuel : 3 * r.left + 2 ≤ fuel + 1) :
    Answers r.left (readElements (fuel + 1) r elements) := by
  obtain ⟨hvalue, -, -, helements⟩ := ih
  obtain ⟨outcome, heq, hleft, hforward⟩ := hvalue r .nullValue (by omega)
  have hle := length_skipCommentTokens_le outcome.reader.current
  simp only [readElements, heq]
  split
  · exact ⟨_, rfl, Nat.le_trans (left_recoverFromError_le _ _) hleft⟩
  · rename_i hok
    have hlt := hforward (by simpa using hok)
    have hreader : outcome.reader.current.length = outcome.reader.left := rfl
    split
    · refine ⟨_, rfl, Nat.le_trans (left_addErrorAndRecover_le _ _ _ _) ?_⟩
      rw [left_seek]; omega
    · split
      · exact ⟨_, rfl, by rw [left_seek]; omega⟩
      · obtain ⟨last, hlast, hlastLeft⟩ :=
          helements (outcome.reader.seek (skipCommentTokens outcome.reader.current).2)
            (elements ++ [outcome.value]) (by rw [left_seek]; omega)
        rw [left_seek] at hlastLeft
        exact ⟨last, hlast, by omega⟩

theorem readObject_answers (r : Reader) (name : Text) (members : List (Text × Value))
    (hfuel : 3 * r.left + 2 ≤ fuel + 1) :
    Answers r.left (readObject (fuel + 1) r name members) := by
  obtain ⟨hvalue, hobject, -, -⟩ := ih
  have hname : (skipCommentTokens r.current).2.length ≤ r.left := length_skipCommentTokens_le _
  simp only [readObject]
  split
  · exact ⟨_, rfl, hname⟩
  split
  · exact ⟨_, rfl, Nat.le_trans (left_addErrorAndRecover_le _ _ _ _) hname⟩
  split
  · exact ⟨_, rfl, Nat.le_trans (left_recoverFromError_le _ _) hname⟩
  rename_i decoded _
  have hcolon := length_readToken_le (r.seek (skipCommentTokens r.current).2).current
  have hseek : (r.seek (skipCommentTokens r.current).2).current.length =
      (skipCommentTokens r.current).2.length := rfl
  split
  · refine ⟨_, rfl, Nat.le_trans (left_addErrorAndRecover_le _ _ _ _) ?_⟩
    rw [left_seek]; omega
  -- a member: its value, then a comma or the end
  obtain ⟨outcome, heq, hleft, hforward⟩ :=
    hvalue ((r.seek (skipCommentTokens r.current).2).seek
      (readToken (r.seek (skipCommentTokens r.current).2).current).2)
      (Value.memberAt members (cString decoded)) (by rw [left_seek]; omega)
  rw [left_seek] at hleft hforward
  rw [heq]
  simp only
  split
  · refine ⟨_, rfl, Nat.le_trans (left_recoverFromError_le _ _) ?_⟩
    omega
  rename_i hok
  have hlt := hforward (by simpa using hok)
  have hreader : outcome.reader.current.length = outcome.reader.left := rfl
  have hcomma := length_readToken_le outcome.reader.current
  have hpast := length_pastComments_le (readToken outcome.reader.current).1
    (readToken outcome.reader.current).2
  split
  · refine ⟨_, rfl, Nat.le_trans (left_addErrorAndRecover_le _ _ _ _) ?_⟩
    rw [left_seek]; omega
  split
  · exact ⟨_, rfl, by rw [left_seek]; omega⟩
  · obtain ⟨last, hlast, hlastLeft⟩ :=
      hobject (outcome.reader.seek (pastComments (readToken outcome.reader.current).1
          (readToken outcome.reader.current).2).2) decoded
        (Value.setMember (cString decoded) outcome.value members)
        (by rw [left_seek]; omega)
    rw [left_seek] at hlastLeft
    exact ⟨last, hlast, by omega⟩

end Step

theorem answerWith [CDouble] (fuel : Nat) : AnswerWith fuel := by
  induction fuel with
  | zero =>
    refine ⟨?_, ?_, ?_, ?_⟩ <;> intros <;> omega
  | succ fuel ih =>
    exact ⟨readValue_answers ih, readObject_answers ih, readArray_answers ih,
      readElements_answers ih⟩

/-- **The reader answers every document**: `parse` never meets the end of its fuel. -/
theorem parse_answers [CDouble] (document : Text) :
    ∃ outcome, readValue (parseFuel document) ⟨document, []⟩ .nullValue = some outcome ∧
      parse document = (outcome.ok, outcome.value, outcome.reader.errors) := by
  obtain ⟨outcome, heq, -⟩ := (answerWith (parseFuel document)).1 ⟨document, []⟩ .nullValue
    (by simp only [parseFuel, Reader.left]; omega)
  exact ⟨outcome, heq, by simp only [parse, heq]⟩

end SocketIOStress.Json
