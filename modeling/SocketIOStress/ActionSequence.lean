import SocketIOStress.Json.ReaderTotal

/-!
# sequence::ActionSequence

A cursor into the document the script file was parsed into.  The constructor
keeps the root whether or not the parse succeeded, and `nextAction` reports the
end of the script with the text `stop`, of the same type as an action.
-/

namespace SocketIOStress

open SocketIOStress.Json

/-- What `std::getline` with the delimiter `(char)EOF` takes from a file; of a
    file that cannot be opened it takes nothing. -/
def getline (content : Text) : Text := content.takeWhile (fun c => c ≠ Char.ofNat 0xFF)

/-- `Reader::parse` on a stream. -/
def parseStream [CDouble] (content : Text) : Bool × Value × List ErrorInfo :=
  parse (getline content)

structure ActionSequence where
  lastIndex : Nat
  actions : Value

/-- The text `nextAction` returns when no action is left. -/
def stop : Text := "stop".toList

namespace ActionSequence

def construct [CDouble] (content : Text) : ActionSequence :=
  ⟨0, (parseStream content).2.1⟩

def nextAction [CDouble] (s : ActionSequence) : Except Failure (Text × ActionSequence) :=
  if s.lastIndex < s.actions.size then
    match s.actions.operatorIndex s.lastIndex with
    | .error e => .error e
    | .ok (element, actions) =>
        match element.asString with
        | .error e => .error e
        | .ok action => .ok (action, ⟨s.lastIndex + 1, actions⟩)
  else .ok (stop, s)

/-! ### Arrays -/

/-- The cursor `i` over an array. -/
def ofArray (elements : List Value) (i : Nat) : ActionSequence := ⟨i, .arrayValue elements⟩

theorem nextAction_ofArray_of_lt [CDouble] {elements : List Value} {i : Nat} {element : Value}
    (h : elements[i]? = some element) :
    (ofArray elements i).nextAction =
      match element.asString with
      | .error e => .error e
      | .ok action => .ok (action, ofArray elements (i + 1)) := by
  have hlt : i < elements.length := (List.getElem?_eq_some_iff.mp h).1
  simp only [nextAction, ofArray, Value.size, if_pos hlt, Value.operatorIndex, h]

theorem nextAction_ofArray_of_none [CDouble] {elements : List Value} {i : Nat}
    (h : elements[i]? = none) :
    (ofArray elements i).nextAction = .ok (stop, ofArray elements i) := by
  have hle : ¬ i < elements.length := by simpa using h
  exact if_neg hle

/-! ### Arrays of strings -/

/-- The script `script` as the array it was loaded from. -/
def ofScript (script : List Text) (i : Nat) : ActionSequence :=
  ofArray (script.map .stringValue) i

/-- An element is handed out as it is, and the cursor moves on. -/
theorem nextAction_ofScript_of_lt [CDouble] {script : List Text} {i : Nat} {a : Text}
    (h : script[i]? = some a) :
    (ofScript script i).nextAction = .ok (a, ofScript script (i + 1)) := by
  have helement : (script.map Value.stringValue)[i]? = some (.stringValue a) := by
    rw [List.getElem?_map, h]
    rfl
  rw [ofScript, nextAction_ofArray_of_lt helement]
  rfl

/-- Behind the last element the cursor stays, and the answer is `stop`. -/
theorem nextAction_ofScript_of_none [CDouble] {script : List Text} {i : Nat}
    (h : script[i]? = none) :
    (ofScript script i).nextAction = .ok (stop, ofScript script i) :=
  nextAction_ofArray_of_none (by rw [List.getElem?_map, h]; rfl)

end ActionSequence

/-! ### Loading -/

/-- The texts of strings, when there is nothing else. -/
def Json.Value.texts? : List Value → Option (List Text)
  | [] => some []
  | .stringValue t :: elements => (texts? elements).map (t :: ·)
  | _ :: _ => none

/-- The texts of an array of strings. -/
def Json.Value.strings? : Value → Option (List Text)
  | .arrayValue elements => texts? elements
  | _ => none

theorem Json.Value.texts?_eq_some_iff {elements : List Value} {script : List Text} :
    texts? elements = some script ↔ elements = script.map .stringValue := by
  induction elements generalizing script with
  | nil => cases script <;> simp [texts?]
  | cons element elements ih =>
    cases element with
    | stringValue t =>
      simp only [texts?, Option.map_eq_some_iff, ih]
      constructor
      · rintro ⟨rest, rfl, rfl⟩
        rfl
      · intro h
        cases script with
        | nil => cases h
        | cons u script =>
          rw [List.map_cons, List.cons.injEq, stringValue.injEq] at h
          exact ⟨script, h.2, by rw [h.1]⟩
    | _ => cases script <;> simp [texts?]

theorem Json.Value.strings?_eq_some_iff {v : Value} {script : List Text} :
    v.strings? = some script ↔ v = .arrayValue (script.map .stringValue) := by
  cases v with
  | arrayValue elements => rw [strings?, texts?_eq_some_iff, arrayValue.injEq]
  | _ => simp [strings?]

/-- The file content parses to the JSON array of these strings. -/
def Loads [CDouble] (content : Text) (script : List Text) : Prop :=
  (parseStream content).1 = true ∧ (parseStream content).2.1.strings? = some script

instance [CDouble] (content : Text) (script : List Text) : Decidable (Loads content script) :=
  inferInstanceAs (Decidable (_ ∧ _))

theorem construct_of_loads [CDouble] {content : Text} {script : List Text}
    (h : Loads content script) :
    ActionSequence.construct content = ActionSequence.ofScript script 0 := by
  rw [ActionSequence.construct, Json.Value.strings?_eq_some_iff.mp h.2]
  rfl

end SocketIOStress
