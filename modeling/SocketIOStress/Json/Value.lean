import SocketIOStress.Basic

/-!
# Json::Value

The document tree of jsoncpp with the operations the client uses: the two
index operators, `size` and `asString`.  The operators are the non-const ones;
they turn a null value into a container and insert a missing element, so each
returns the element it refers to together with the container it leaves behind.
Comments are left out: they only reach the log.
-/

namespace SocketIOStress.Json

open SocketIOStress

/-- The double conversions of the C library, which the model does not open.  A
    double is kept as the text it was scanned from: `sscanf` says whether `%lf`
    scans that text, `sprintf` what `%#.16g` prints for the result.  A printed
    number starts with its sign, a digit, or the name of an infinity or NaN. -/
class CDouble where
  sscanf : Text → Bool
  sprintf : Text → Text
  sprintf_head : ∀ t, ∃ c rest, sprintf t = c :: rest ∧
    (c.isDigit = true ∨ c = '-' ∨ c = 'i' ∨ c = 'n')

/-- A library without numbers to tell apart; documents without a double cannot see
    the difference. -/
@[reducible] def zeroDouble : CDouble where
  sscanf t := t.any Char.isDigit
  sprintf _ := "0.000000000000000".toList
  sprintf_head _ := ⟨'0', _, rfl, Or.inl rfl⟩

inductive Value where
  | nullValue
  | intValue (value : Int)
  | uintValue (value : Nat)
  | realValue (lexeme : Text)
  | stringValue (value : Text)
  | booleanValue (value : Bool)
  | arrayValue (elements : List Value)
  | objectValue (members : List (Text × Value))
deriving Repr, Inhabited

namespace Value

/-! ### Construction from a string -/

/-- `Value(const std::string&)` followed by an assignment: the copy stops at the
    first NUL. -/
def ofString (t : Text) : Value := .stringValue (cString t)

/-! ### Printing scalars -/

/-- `uintToString`: the decimal digits. -/
def uintToString (value : Nat) : Text := Nat.toDigits 10 value

def valueToStringInt (value : Int) : Text :=
  if value < 0 then '-' :: uintToString value.natAbs else uintToString value.natAbs

/-- `valueToString(double)`: of the zeros at the end of a printed fraction, keep
    one behind the last other character. -/
def valueToStringReal (buffer : Text) : Text :=
  if buffer.getLast? ≠ some '0' then buffer
  else
    let kept := (buffer.reverse.dropWhile (· = '0')).reverse
    let lastNonzero := kept.length - 1
    match (kept.reverse.dropWhile Char.isDigit).head? with
    | some '.' => buffer.take (lastNonzero + 2)
    | _ => buffer

def asString [CDouble] : Value → Except Failure Text
  | .nullValue => .ok []
  | .stringValue value => .ok value
  | .booleanValue value => .ok (if value then "true".toList else "false".toList)
  | .intValue value => .ok (valueToStringInt value)
  | .uintValue value => .ok (uintToString value)
  | .realValue lexeme => .ok (valueToStringReal (CDouble.sprintf lexeme))
  | .arrayValue _ => .error (.runtimeError "Type is not convertible to string")
  | .objectValue _ => .error (.runtimeError "Type is not convertible to string")

/-- The values `asString` converts. -/
def IsScalar : Value → Prop
  | .arrayValue _ => False
  | .objectValue _ => False
  | _ => True

theorem asString_ok_iff_isScalar [CDouble] (v : Value) :
    (∃ t, v.asString = .ok t) ↔ v.IsScalar := by
  cases v <;> simp [asString, IsScalar]

/-! ### Size and indexing -/

def size : Value → Nat
  | .arrayValue elements => elements.length
  | .objectValue members => members.length
  | _ => 0

/-- `operator[](ArrayIndex)`, and the value it leaves behind. -/
def operatorIndex (v : Value) (index : Nat) : Except Failure (Value × Value) :=
  match v with
  | .nullValue => .ok (.nullValue, .arrayValue (List.replicate (index + 1) .nullValue))
  | .arrayValue elements =>
      match elements[index]? with
      | some element => .ok (element, v)
      | none =>
          .ok (.nullValue,
            .arrayValue (elements ++ List.replicate (index + 1 - elements.length) .nullValue))
  | _ => .error .jsonAssert

/-- `strcmp(a, b) < 0` on member names. -/
def keyLt : Text → Text → Bool
  | [], [] => false
  | [], _ :: _ => true
  | _ :: _, [] => false
  | a :: as, b :: bs => if a = b then keyLt as bs else decide (a.toNat < b.toNat)

/-- The member of that name, or the null `resolveReference` would insert. -/
def memberAt (members : List (Text × Value)) (key : Text) : Value :=
  match members.find? (fun m => decide (m.1 = key)) with
  | some m => m.2
  | none => .nullValue

/-- Store a value under a name; names stay in the order of `std::map`. -/
def setMember (key : Text) (v : Value) : List (Text × Value) → List (Text × Value)
  | [] => [(key, v)]
  | m :: members =>
      if m.1 = key then (key, v) :: members
      else if keyLt key m.1 then (key, v) :: m :: members
      else m :: setMember key v members

/-- `resolveReference`, which is `operator[](const char *)`. -/
def resolveReference (v : Value) (key : Text) : Except Failure (Value × Value) :=
  match v with
  | .nullValue => .ok (.nullValue, .objectValue [(key, .nullValue)])
  | .objectValue members =>
      .ok (memberAt members key,
        .objectValue (setMember key (memberAt members key) members))
  | _ => .error .jsonAssert

theorem setMember_ne_nil (key : Text) (v : Value) (members : List (Text × Value)) :
    setMember key v members ≠ [] := by
  cases members with
  | nil => simp [setMember]
  | cons m members =>
    simp only [setMember]
    split
    · simp
    · split <;> simp

/-! ### Paths

What a document holds at a place, whatever the operators would insert on the way
there. -/

inductive PathStep where
  | name (key : Text)
  | index (i : Nat)
deriving DecidableEq, Repr

/-- The element one step into a document, if there is one. -/
def child? : Value → PathStep → Option Value
  | .objectValue members, .name key => members.lookup key
  | .arrayValue elements, .index i => elements[i]?
  | _, _ => none

/-- The element at the end of a path; none where a step leads nowhere. -/
def get? (v : Value) (path : List PathStep) : Option Value := path.foldlM child? v

@[simp] theorem get?_nil (v : Value) : v.get? [] = some v := rfl

@[simp] theorem get?_cons (v : Value) (s : PathStep) (path : List PathStep) :
    v.get? (s :: path) = (v.child? s).bind (fun w => w.get? path) := rfl

/-- Nothing is below a null value. -/
theorem child?_getD (o : Option Value) (s : PathStep) :
    (o.getD .nullValue).child? s = o.bind (fun v => v.child? s) := by
  cases o with
  | none => rfl
  | some v => rfl

theorem memberAt_eq_lookup (members : List (Text × Value)) (key : Text) :
    memberAt members key = (members.lookup key).getD .nullValue := by
  unfold memberAt
  induction members with
  | nil => rfl
  | cons m members ih =>
    obtain ⟨name, v⟩ := m
    by_cases hname : name = key
    · simp [hname]
    · have hbeq : (key == name) = false := by simpa using fun h => hname h.symm
      rw [List.find?_cons_of_neg (by simpa using hname), List.lookup_cons, hbeq]
      exact ih

/-- The operators refer to the element one step in, or to a null value. -/
theorem child?_of_resolveReference {v w rest : Value} {key : Text}
    (h : v.resolveReference key = .ok (w, rest)) : w = (v.child? (.name key)).getD .nullValue := by
  cases v with
  | nullValue =>
    cases h
    rfl
  | objectValue members =>
    cases h
    exact memberAt_eq_lookup members key
  | _ => cases h

theorem child?_of_operatorIndex {v w rest : Value} {i : Nat}
    (h : v.operatorIndex i = .ok (w, rest)) : w = (v.child? (.index i)).getD .nullValue := by
  cases v with
  | nullValue =>
    cases h
    rfl
  | arrayValue elements =>
    simp only [operatorIndex] at h
    simp only [child?]
    cases hget : elements[i]? with
    | none =>
      rw [hget] at h
      cases h
      rfl
    | some element =>
      rw [hget] at h
      cases h
      rfl
  | _ => cases h

end Value

end SocketIOStress.Json
