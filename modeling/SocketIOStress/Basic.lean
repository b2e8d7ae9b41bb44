/-!
# Texts and failures

A `std::string` is the list of its chars; a `Char` of the model stands for the
byte with its code.  `Failure` lists the ways the code of the client can fail to
return: an exception on its way to `main`, a failed assertion, or `exit`.
-/

namespace SocketIOStress

abbrev Text := List Char

/-- The terminating byte of a C string. -/
def nul : Char := Char.ofNat 0

/-- What is left of a `std::string` after a trip through `const char *`: jsoncpp
    stores strings and member names that way. -/
def cString (t : Text) : Text := t.takeWhile (fun c => c ≠ nul)

/-- The kinds of error `boost::format` distinguishes. -/
inductive FormatError where
  | badFormatString
  | tooFewArgs
  | tooManyArgs
  | outOfRange
deriving DecidableEq, Repr

inductive Failure where
  /-- `JSON_ASSERT` is `assert`: the process aborts. -/
  | jsonAssert
  /-- `JSON_FAIL_MESSAGE` throws `std::runtime_error`. -/
  | runtimeError (what : String)
  /-- A `std::string` built from iterators of which the first lies past the second. -/
  | iteratorRange
  | formatError (e : FormatError)
  /-- A call through the null `heartbeat` pointer. -/
  | nullHeartbeat
  /-- A thrown `const char *`, which no handler catches. -/
  | uncaught (what : String)
  /-- `exit(1)`, the only status `exit` is called with. -/
  | exit
deriving DecidableEq, Repr

/-- The exit status of a process that ends this way: an exception reaches the
    handler in `main`, which returns 1; SIGABRT and SIGSEGV show as 134 and 139. -/
def Failure.status : Failure → Nat
  | .jsonAssert => 134
  | .runtimeError _ => 1
  | .iteratorRange => 1
  | .formatError _ => 1
  | .nullHeartbeat => 139
  | .uncaught _ => 134
  | .exit => 1

theorem Failure.status_ne_zero (e : Failure) : e.status ≠ 0 := by
  cases e <;> simp [status]

/-- The failure a computation ended with. -/
def failureOf {α : Type} : Except Failure α → Option Failure
  | .error e => some e
  | .ok _ => none

theorem error_of_failureOf {α : Type} {x : Except Failure α} {e : Failure}
    (h : failureOf x = some e) : x = .error e := by
  cases x with
  | error e' => rw [Option.some.inj h]
  | ok a => cases h

theorem exists_ok_of_isSome {ε α : Type} {x : Except ε α} (h : x.toOption.isSome = true) :
    ∃ a, x = .ok a := by
  cases x with
  | error e => cases h
  | ok a => exact ⟨a, rfl⟩

theorem ok_of_toOption {ε α : Type} {x : Except ε α} {a : α} (h : x.toOption = some a) :
    x = .ok a := by
  cases x with
  | error e => cases h
  | ok a' => rw [Option.some.inj h]

end SocketIOStress
