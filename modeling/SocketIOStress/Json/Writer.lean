import SocketIOStress.Json.Value

/-!
# Json::StyledWriter

The writer `_log_message` prints documents with, less the comments.  It keeps a
document under construction and, for an array that may fit on one line, the
texts of its elements.  Two of its steps carry an assertion: a one-line array
has collected one text an element, and an indentation is only taken back where
one was added.  Both hold on every value, so writing never fails.
-/

namespace SocketIOStress.Json

open SocketIOStress

/-! ### Quoted strings -/

def isControlCharacter (c : Char) : Bool := 0 < c.toNat && c.toNat ≤ 0x1F

/-- `setw(4)` and `setfill('0')` on an uppercase hexadecimal number. -/
def hex4 (value : Nat) : Text :=
  let digits := (Nat.toDigits 16 value).map Char.toUpper
  List.replicate (4 - digits.length) '0' ++ digits

def quotedChar (c : Char) : Text :=
  match c with
  | '"' => "\\\"".toList
  | '\\' => "\\\\".toList
  | '\x08' => "\\b".toList
  | '\x0c' => "\\f".toList
  | '\n' => "\\n".toList
  | '\r' => "\\r".toList
  | '\t' => "\\t".toList
  | _ => if isControlCharacter c then "\\u".toList ++ hex4 c.toNat else [c]

/-- The shortcut for strings without special characters gives the same text. -/
def valueToQuotedString (value : Text) : Text :=
  '"' :: (cString value).flatMap quotedChar ++ ['"']

/-! ### The writer -/

structure StyledWriter where
  document : Text
  childValues : List Text
  addChildValues : Bool
  indentString : Text
deriving DecidableEq, Repr

namespace StyledWriter

def rightMargin : Nat := 74
def indentSize : Nat := 3

def pushValue (w : StyledWriter) (value : Text) : StyledWriter :=
  if w.addChildValues then { w with childValues := w.childValues ++ [value] }
  else { w with document := w.document ++ value }

def writeIndent (w : StyledWriter) : StyledWriter :=
  match w.document.getLast? with
  | none => { w with document := w.document ++ w.indentString }
  | some last =>
      if last = ' ' then w
      else if last ≠ '\n' then { w with document := w.document ++ '\n' :: w.indentString }
      else { w with document := w.document ++ w.indentString }

def append (w : StyledWriter) (value : Text) : StyledWriter :=
  { w with document := w.document ++ value }

def writeWithIndent (w : StyledWriter) (value : Text) : StyledWriter :=
  w.writeIndent.append value

def indent (w : StyledWriter) : StyledWriter :=
  { w with indentString := w.indentString ++ List.replicate indentSize ' ' }

def unindent (w : StyledWriter) : Except Failure StyledWriter :=
  if indentSize ≤ w.indentString.length then
    .ok { w with indentString := w.indentString.take (w.indentString.length - indentSize) }
  else .error .jsonAssert

/-- The first loop of `isMultineArray` and its guard on the number of elements. -/
def isMultiLineByShape (elements : List Value) : Bool :=
  decide (rightMargin ≤ elements.length * 3) ||
    elements.any (fun child => match child with
      | .arrayValue _ | .objectValue _ => decide (0 < child.size)
      | _ => false)

/-- `4 + (size-1)*2` and the texts collected for the elements. -/
def lineLength (w : StyledWriter) (size : Nat) : Nat :=
  (w.childValues.take size).foldl (fun n t => n + t.length) (4 + (size - 1) * 2)

/-- The comma and the texts of a one-line array. -/
def commaSeparated : List Text → Text
  | [] => []
  | [t] => t
  | t :: u :: ts => t ++ ", ".toList ++ commaSeparated (u :: ts)

/-- The loop of a multi-line array whose element texts have been collected. -/
def writeChildValues (w : StyledWriter) : List Text → StyledWriter
  | [] => w
  | [t] => w.writeWithIndent t
  | t :: u :: ts => ((w.writeWithIndent t).append ",".toList).writeChildValues (u :: ts)

mutual

def writeValue [CDouble] : Value → StyledWriter → Except Failure StyledWriter
  | .nullValue, w => .ok (w.pushValue "null".toList)
  | .intValue value, w => .ok (w.pushValue (Value.valueToStringInt value))
  | .uintValue value, w => .ok (w.pushValue (Value.uintToString value))
  | .realValue lexeme, w => .ok (w.pushValue (Value.valueToStringReal (CDouble.sprintf lexeme)))
  | .stringValue value, w => .ok (w.pushValue (valueToQuotedString value))
  | .booleanValue value, w =>
      .ok (w.pushValue (if value then "true".toList else "false".toList))
  | .arrayValue elements, w =>
      -- `writeArrayValue`
      if elements.length = 0 then .ok (w.pushValue "[]".toList)
      else if isMultiLineByShape elements then
        -- `isMultineArray` answers before it collects anything
        let w := ({ w with childValues := [] }.writeWithIndent "[".toList).indent
        match writeElements elements w with
        | .error e => .error e
        | .ok w =>
            match w.unindent with
            | .error e => .error e
            | .ok w => .ok (w.writeWithIndent "]".toList)
      else
        match collectChildValues elements { w with childValues := [], addChildValues := true } with
        | .error e => .error e
        | .ok w =>
            let w := { w with addChildValues := false }
            if rightMargin ≤ w.lineLength elements.length then
              let childValues := w.childValues
              let w := (w.writeWithIndent "[".toList).indent
              let w := w.writeChildValues (childValues.take elements.length)
              match w.unindent with
              | .error e => .error e
              | .ok w => .ok (w.writeWithIndent "]".toList)
            else if w.childValues.length = elements.length then
              .ok (w.append ("[ ".toList ++ commaSeparated w.childValues ++ " ]".toList))
            else .error .jsonAssert
  | .objectValue members, w =>
      if members.length = 0 then .ok (w.pushValue "\x7b\x7d".toList)
      else
        match writeMembers members (w.writeWithIndent "\x7b".toList).indent with
        | .error e => .error e
        | .ok w =>
            match w.unindent with
            | .error e => .error e
            | .ok w => .ok (w.writeWithIndent "\x7d".toList)

/-- The second loop of `isMultineArray`. -/
def collectChildValues [CDouble] : List Value → StyledWriter → Except Failure StyledWriter
  | [], w => .ok w
  | child :: children, w =>
      match writeValue child w with
      | .error e => .error e
      | .ok w => collectChildValues children w

/-- The loop of a multi-line array whose element texts have not been collected. -/
def writeElements [CDouble] : List Value → StyledWriter → Except Failure StyledWriter
  | [], w => .ok w
  | child :: children, w =>
      match writeValue child w.writeIndent with
      | .error e => .error e
      | .ok w => writeElements children (if children.isEmpty then w else w.append ",".toList)

def writeMembers [CDouble] : List (Text × Value) → StyledWriter → Except Failure StyledWriter
  | [], w => .ok w
  | (name, child) :: members, w =>
      match writeValue child
          ((w.writeWithIndent (valueToQuotedString name)).append " : ".toList) with
      | .error e => .error e
      | .ok w => writeMembers members (if members.isEmpty then w else w.append ",".toList)

end

/-- `StyledWriter::write`. -/
def write [CDouble] (root : Value) : Except Failure Text :=
  match writeValue root ⟨[], [], false, []⟩ with
  | .error e => .error e
  | .ok w => .ok (w.document ++ ['\n'])

/-! ### What a step leaves alone -/

/-- `w'` is where `w` was: the same indentation, and not collecting. -/
def Settled (w w' : StyledWriter) : Prop :=
  w'.indentString = w.indentString ∧ w'.addChildValues = false

@[simp] theorem indentString_append (w : StyledWriter) (t : Text) :
    (w.append t).indentString = w.indentString := rfl

@[simp] theorem addChildValues_append (w : StyledWriter) (t : Text) :
    (w.append t).addChildValues = w.addChildValues := rfl

@[simp] theorem indentString_writeIndent (w : StyledWriter) :
    w.writeIndent.indentString = w.indentString := by
  simp only [writeIndent]
  split
  · rfl
  · split
    · rfl
    · split <;> rfl

@[simp] theorem addChildValues_writeIndent (w : StyledWriter) :
    w.writeIndent.addChildValues = w.addChildValues := by
  simp only [writeIndent]
  split
  · rfl
  · split
    · rfl
    · split <;> rfl

@[simp] theorem indentString_writeWithIndent (w : StyledWriter) (t : Text) :
    (w.writeWithIndent t).indentString = w.indentString :=
  indentString_writeIndent w

@[simp] theorem addChildValues_writeWithIndent (w : StyledWriter) (t : Text) :
    (w.writeWithIndent t).addChildValues = w.addChildValues :=
  addChildValues_writeIndent w

theorem settled_pushValue {w : StyledWriter} (hw : w.addChildValues = false) (t : Text) :
    Settled w (w.pushValue t) := by
  rw [pushValue, if_neg (by simp [hw])]
  exact ⟨rfl, hw⟩

theorem settled_writeChildValues {w : StyledWriter} (hw : w.addChildValues = false)
    (ts : List Text) : Settled w (w.writeChildValues ts) := by
  fun_induction writeChildValues w ts with
  | case1 w => exact ⟨rfl, hw⟩
  | case2 w t => exact ⟨indentString_writeWithIndent w t, by simpa using hw⟩
  | case3 w t u ts ih =>
    obtain ⟨hindent, hadd⟩ := ih (by simpa using hw)
    exact ⟨by simpa using hindent, hadd⟩

/-- Between `indent` and `unindent` a settled writer gets its indentation back. -/
theorem unindent_of_settled_indent {w w' : StyledWriter} (h : Settled w.indent w') :
    ∃ w'', w'.unindent = .ok w'' ∧ Settled w w'' := by
  obtain ⟨hindent, hadd⟩ := h
  have hlen : w'.indentString.length = w.indentString.length + indentSize := by
    rw [hindent]
    simp [indent]
  refine ⟨_, if_pos (by omega), ?_, hadd⟩
  simp only [hlen, Nat.add_sub_cancel]
  rw [hindent]
  simp [indent]

theorem unindent_writeChildValues {w : StyledWriter} (hw : w.addChildValues = false)
    (ts : List Text) :
    ∃ w', (writeChildValues (w.writeWithIndent "[".toList).indent ts).unindent = .ok w' ∧
      Settled w w' := by
  obtain ⟨w', hunindent, hindent, hadd⟩ := unindent_of_settled_indent
    (settled_writeChildValues (w := (w.writeWithIndent "[".toList).indent)
      (by simpa [indent] using hw) ts)
  exact ⟨w', hunindent, by simpa using hindent, hadd⟩

/-! ### Writing never fails -/

/-- The elements of a one-line array: scalars and empty containers. -/
def IsFlat (v : Value) : Prop := v.IsScalar ∨ v.size = 0

theorem isFlat_of_not_multiLineByShape {elements : List Value}
    (h : isMultiLineByShape elements = false) : ∀ v ∈ elements, IsFlat v := by
  intro v hv
  simp only [isMultiLineByShape, Bool.or_eq_false_iff, List.any_eq_false] at h
  have hshape := h.2 v hv
  cases v with
  | arrayValue inner => exact Or.inr (by simpa using hshape)
  | objectValue members => exact Or.inr (by simpa using hshape)
  | _ => exact Or.inl trivial

theorem writeValue_of_isFlat [CDouble] {v : Value} (h : IsFlat v) :
    ∃ t, ∀ w, writeValue v w = .ok (w.pushValue t) := by
  cases v with
  | arrayValue elements =>
    have hsize : elements.length = 0 := h.resolve_left id
    exact ⟨_, fun w => by rw [writeValue, if_pos hsize]⟩
  | objectValue members =>
    have hsize : members.length = 0 := h.resolve_left id
    exact ⟨_, fun w => by rw [writeValue, if_pos hsize]⟩
  | _ => exact ⟨_, fun w => by rw [writeValue]⟩

/-- While collecting, every flat element adds exactly one text. -/
theorem collectChildValues_of_flat [CDouble] {elements : List Value}
    (hflat : ∀ v ∈ elements, IsFlat v) {w : StyledWriter} (hw : w.addChildValues = true) :
    ∃ ts, ts.length = elements.length ∧
      collectChildValues elements w = .ok { w with childValues := w.childValues ++ ts } := by
  induction elements generalizing w with
  | nil => exact ⟨[], rfl, by simp [collectChildValues]⟩
  | cons v elements ih =>
    obtain ⟨t, ht⟩ := writeValue_of_isFlat (hflat v List.mem_cons_self)
    have hpush : w.pushValue t = { w with childValues := w.childValues ++ [t] } := by
      simp only [pushValue, hw, if_true]
    obtain ⟨ts, hlen, hcollect⟩ := ih (fun u hu => hflat u (List.mem_cons_of_mem v hu))
      (w := w.pushValue t) (by rw [hpush]; exact hw)
    refine ⟨t :: ts, by simp [hlen], ?_⟩
    rw [collectChildValues, ht]
    simp only
    rw [hcollect, hpush]
    simp

mutual

theorem writeValue_settled [CDouble] (v : Value) (w : StyledWriter)
    (hw : w.addChildValues = false) : ∃ w', writeValue v w = .ok w' ∧ Settled w w' := by
  cases v with
  | arrayValue elements =>
    rw [writeValue]
    by_cases hsize : elements.length = 0
    · rw [if_pos hsize]
      exact ⟨_, rfl, settled_pushValue hw _⟩
    rw [if_neg hsize]
    cases hshape : isMultiLineByShape elements with
    | true =>
      rw [if_pos rfl]
      obtain ⟨w₁, hwrite, hsettled⟩ := writeElements_settled elements
        ({ w with childValues := [] }.writeWithIndent "[".toList).indent
        (by simpa [indent] using hw)
      obtain ⟨w₂, hunindent, hindent, hadd⟩ := unindent_of_settled_indent hsettled
      simp only [hwrite, hunindent]
      exact ⟨_, rfl, by simpa using hindent, by simpa using hadd⟩
    | false =>
      rw [if_neg Bool.false_ne_true]
      obtain ⟨ts, hlen, hcollect⟩ :=
        collectChildValues_of_flat (isFlat_of_not_multiLineByShape hshape)
          (w := { w with childValues := [], addChildValues := true }) rfl
      simp only [hcollect]
      split
      · -- too long for one line
        obtain ⟨w₁, hunindent, hindent, hadd⟩ := unindent_writeChildValues
          (w := { w with childValues := [] ++ ts, addChildValues := false }) rfl
          (([] ++ ts).take elements.length)
        simp only [hunindent]
        exact ⟨_, rfl, by simpa using hindent, by simpa using hadd⟩
      · rw [if_pos (by simpa using hlen)]
        exact ⟨_, rfl, rfl, rfl⟩
  | objectValue members =>
    rw [writeValue]
    by_cases hsize : members.length = 0
    · rw [if_pos hsize]
      exact ⟨_, rfl, settled_pushValue hw _⟩
    rw [if_neg hsize]
    obtain ⟨w₁, hwrite, hsettled⟩ := writeMembers_settled members
      (w.writeWithIndent "\x7b".toList).indent (by simpa [indent] using hw)
    obtain ⟨w₂, hunindent, hindent, hadd⟩ := unindent_of_settled_indent hsettled
    simp only [hwrite, hunindent]
    exact ⟨_, rfl, by simpa using hindent, by simpa using hadd⟩
  | _ =>
    rw [writeValue]
    exact ⟨_, rfl, settled_pushValue hw _⟩

theorem writeElements_settled [CDouble] (elements : List Value) (w : StyledWriter)
    (hw : w.addChildValues = false) : ∃ w', writeElements elements w = .ok w' ∧ Settled w w' := by
  cases elements with
  | nil => exact ⟨w, by rw [writeElements], rfl, hw⟩
  | cons child children =>
    rw [writeElements]
    obtain ⟨w₁, hchild, hindent, hadd⟩ := writeValue_settled child w.writeIndent (by simpa using hw)
    obtain ⟨w₂, hrest, hindent₂, hadd₂⟩ := writeElements_settled children
      (if children.isEmpty then w₁ else w₁.append ",".toList) (by split <;> simpa using hadd)
    simp only [hchild, hrest]
    refine ⟨w₂, rfl, ?_, hadd₂⟩
    rw [hindent₂]
    split <;> simpa using hindent

theorem writeMembers_settled [CDouble] (members : List (Text × Value)) (w : StyledWriter)
    (hw : w.addChildValues = false) : ∃ w', writeMembers members w = .ok w' ∧ Settled w w' := by
  cases members with
  | nil => exact ⟨w, by rw [writeMembers], rfl, hw⟩
  | cons member members =>
    obtain ⟨name, child⟩ := member
    rw [writeMembers]
    obtain ⟨w₁, hchild, hindent, hadd⟩ := writeValue_settled child
      ((w.writeWithIndent (valueToQuotedString name)).append " : ".toList) (by simpa using hw)
    obtain ⟨w₂, hrest, hindent₂, hadd₂⟩ := writeMembers_settled members
      (if members.isEmpty then w₁ else w₁.append ",".toList) (by split <;> simpa using hadd)
    simp only [hchild, hrest]
    refine ⟨w₂, rfl, ?_, hadd₂⟩
    rw [hindent₂]
    split <;> simpa using hindent

end

/-- **Writing succeeds on every value**: neither assertion of the writer fails. -/
theorem write_ok [CDouble] (root : Value) : ∃ t, write root = .ok t := by
  obtain ⟨w, hwrite, -⟩ := writeValue_settled root ⟨[], [], false, []⟩ rfl
  exact ⟨_, by rw [write, hwrite]⟩

end StyledWriter

end SocketIOStress.Json
