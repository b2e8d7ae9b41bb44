import SocketIOStress.Json.Value

/-!
# Json::Reader

The reader of jsoncpp with the default features, in the order of
`json_reader.cpp`: tokens, the decoding of numbers and strings, and the three
functions that recurse.  `current` is the text from `current_` to `end_`, and a
location is the number of chars from it to `end_`.

The source writes into the value on top of `nodes_`; here `readValue` is given
what that node holds and returns what it holds afterwards, on failure as well as
on success, so that what a failed parse leaves behind can be read off.
Collecting comments is left out: it writes only into comments.
-/

namespace SocketIOStress.Json

open SocketIOStress

inductive TokenType where
  | tokenEndOfStream
  | tokenObjectBegin
  | tokenObjectEnd
  | tokenArrayBegin
  | tokenArrayEnd
  | tokenString
  | tokenNumber
  | tokenTrue
  | tokenFalse
  | tokenNull
  | tokenArraySeparator
  | tokenMemberSeparator
  | tokenComment
  | tokenError
deriving DecidableEq, Repr

/-- `text` is what stands from `start_` to `end_`. -/
structure Token where
  type : TokenType
  start : Nat
  text : Text
deriving DecidableEq, Repr

structure ErrorInfo where
  token : Token
  message : Text
  extra : Option Nat
deriving DecidableEq, Repr

/-! ### Tokens -/

def isSpace (c : Char) : Bool := c = ' ' || c = '\t' || c = '\r' || c = '\n'

def skipSpaces (current : Text) : Text := current.dropWhile isSpace

def getNextChar : Text → Char × Text
  | [] => (nul, [])
  | c :: current => (c, current)

def matchPattern (pattern current : Text) : Bool × Text :=
  if pattern.isPrefixOf current then (true, current.drop pattern.length)
  else (false, current)

def readCStyleComment : Text → Bool × Text
  | [] => (false, [])
  | c :: current =>
      if c = '*' ∧ current.head? = some '/' then (true, current.drop 1)
      else readCStyleComment current

def readCppStyleComment : Text → Bool × Text
  | [] => (true, [])
  | c :: current => if c = '\r' ∨ c = '\n' then (true, current) else readCppStyleComment current

def readComment (current : Text) : Bool × Text :=
  let (c, current) := getNextChar current
  if c = '*' then readCStyleComment current
  else if c = '/' then readCppStyleComment current
  else (false, current)

def isNumberChar (c : Char) : Bool :=
  ('0' ≤ c && c ≤ '9') || c = '.' || c = 'e' || c = 'E' || c = '+' || c = '-'

def readNumber (current : Text) : Text := current.dropWhile isNumberChar

def readString : Text → Bool × Text
  | [] => (false, [])
  | c :: current =>
      if c = '\\' then
        match current with
        | [] => (false, [])
        | _ :: current => readString current
      else if c = '"' then (true, current)
      else readString current

/-- `if ( !ok ) token.type_ = tokenError`. -/
def typeIf (type : TokenType) (scanned : Bool × Text) : TokenType × Text :=
  (if scanned.1 then type else .tokenError, scanned.2)

/-- The switch of `readToken` on the first char of a token. -/
def scanToken (c : Char) (current : Text) : TokenType × Text :=
  match c with
  | '{' => (.tokenObjectBegin, current)
  | '}' => (.tokenObjectEnd, current)
  | '[' => (.tokenArrayBegin, current)
  | ']' => (.tokenArrayEnd, current)
  | '"' => typeIf .tokenString (readString current)
  | '/' => typeIf .tokenComment (readComment current)
  | '0' | '1' | '2' | '3' | '4' | '5' | '6' | '7' | '8' | '9' | '-' =>
      (.tokenNumber, readNumber current)
  | 't' => typeIf .tokenTrue (matchPattern "rue".toList current)
  | 'f' => typeIf .tokenFalse (matchPattern "alse".toList current)
  | 'n' => typeIf .tokenNull (matchPattern "ull".toList current)
  | ',' => (.tokenArraySeparator, current)
  | ':' => (.tokenMemberSeparator, current)
  | '\x00' => (.tokenEndOfStream, current)
  | _ => (.tokenError, current)

/-- `readToken` always returns true, so the checks of its result are not modelled. -/
def readToken (current : Text) : Token × Text :=
  let start := skipSpaces current
  let (c, rest) := getNextChar start
  let (type, finish) := scanToken c rest
  (⟨type, start.length, start.take (start.length - finish.length)⟩, finish)

def skipCommentTokensWithin : Nat → Text → Token × Text
  | 0, current => readToken current
  | bound + 1, current =>
      let (token, rest) := readToken current
      if token.type = .tokenComment then skipCommentTokensWithin bound rest
      else (token, rest)

/-- A token is at least one char long, so the length bounds the number of rounds. -/
def skipCommentTokens (current : Text) : Token × Text :=
  skipCommentTokensWithin current.length current

/-- The same for a token already read. -/
def pastComments (token : Token) (rest : Text) : Token × Text :=
  if token.type = .tokenComment then skipCommentTokens rest else (token, rest)

/-! ### Numbers -/

def minLargestInt : Int := -9223372036854775808
def maxLargestUInt : Nat := 18446744073709551615
def maxInt : Nat := 2147483647

def isNotANumber (text : Text) : Text := "'".toList ++ text ++ "' is not a number.".toList

def decodeDouble [CDouble] (text : Text) : Except Text Value :=
  if CDouble.sscanf text then .ok (.realValue text) else .error (isNotANumber text)

/-- The digit loop of `decodeNumber`; `none` when the number does not fit. -/
def decodeDigits (token : Text) (maxIntegerValue : Nat) :
    Nat → Text → Except Text (Option Nat)
  | value, [] => .ok (some value)
  | value, c :: current =>
      if c < '0' ∨ '9' < c then .error (isNotANumber token)
      else
        let digit := c.toNat - '0'.toNat
        if maxIntegerValue / 10 ≤ value ∧
            (maxIntegerValue / 10 < value ∨ current ≠ [] ∨ maxIntegerValue % 10 < digit) then
          .ok none
        else decodeDigits token maxIntegerValue (value * 10 + digit) current

def isDoubleToken : Text → Bool
  | [] => false
  | c :: current =>
      (c = '.' || c = 'e' || c = 'E' || c = '+') ||
        current.any (fun d => d = '.' || d = 'e' || d = 'E' || d = '+' || d = '-')

def decodeNumber [CDouble] (text : Text) : Except Text Value :=
  if isDoubleToken text then decodeDouble text
  else
    let isNegative := text.head? = some '-'
    let maxIntegerValue := if isNegative then minLargestInt.natAbs else maxLargestUInt
    match decodeDigits text maxIntegerValue 0 (if isNegative then text.drop 1 else text) with
    | .error message => .error message
    | .ok none => decodeDouble text
    | .ok (some value) =>
        if isNegative then .ok (.intValue (-(value : Int)))
        else if value ≤ maxInt then .ok (.intValue value)
        else .ok (.uintValue value)

/-! ### Strings

An error carries its message and what was left of the token at its location. -/

def hexDigit (c : Char) : Option Nat :=
  if '0' ≤ c ∧ c ≤ '9' then some (c.toNat - '0'.toNat)
  else if 'a' ≤ c ∧ c ≤ 'f' then some (c.toNat - 'a'.toNat + 10)
  else if 'A' ≤ c ∧ c ≤ 'F' then some (c.toNat - 'A'.toNat + 10)
  else none

def decodeHexDigits : Nat → Nat → Text → Except (Text × Text) (Nat × Text)
  | 0, unicode, current => .ok (unicode, current)
  | digits + 1, unicode, current =>
      let (c, rest) := getNextChar current
      match hexDigit c with
      | some digit => decodeHexDigits digits (unicode * 16 + digit) rest
      | none => .error
          ("Bad unicode escape sequence in string: hexadecimal digit expected.".toList, rest)

def decodeUnicodeEscapeSequence (current : Text) : Except (Text × Text) (Nat × Text) :=
  if current.length < 4 then
    .error ("Bad unicode escape sequence in string: four digits expected.".toList, current)
  else decodeHexDigits 4 0 current

def secondHalfExpected : Text :=
  "expecting another \\u token to begin the second half of a unicode surrogate pair".toList

def decodeUnicodeCodePoint (current : Text) : Except (Text × Text) (Nat × Text) :=
  match decodeUnicodeEscapeSequence current with
  | .error e => .error e
  | .ok (unicode, current) =>
      if 0xD800 ≤ unicode ∧ unicode ≤ 0xDBFF then
        -- surrogate pairs
        if current.length < 6 then
          .error ("additional six characters expected to parse unicode surrogate pair.".toList,
            current)
        else
          match current with
          | '\\' :: 'u' :: rest =>
              match decodeUnicodeEscapeSequence rest with
              | .error e => .error e
              | .ok (surrogatePair, rest) =>
                  .ok (0x10000 + (unicode % 0x400) * 0x400 + surrogatePair % 0x400, rest)
          | '\\' :: rest =>
              .error (secondHalfExpected, rest.drop 1)
          | _ =>
              .error (secondHalfExpected, current.drop 1)
      else .ok (unicode, current)

def codePointToUTF8 (cp : Nat) : Text :=
  if cp ≤ 0x7f then [Char.ofNat cp]
  else if cp ≤ 0x7FF then
    [Char.ofNat (0xC0 + cp / 0x40 % 0x20), Char.ofNat (0x80 + cp % 0x40)]
  else if cp ≤ 0xFFFF then
    [Char.ofNat (0xE0 + cp / 0x1000 % 0x10), Char.ofNat (0x80 + cp / 0x40 % 0x40),
      Char.ofNat (0x80 + cp % 0x40)]
  else if cp ≤ 0x10FFFF then
    [Char.ofNat (0xF0 + cp / 0x40000 % 8), Char.ofNat (0x80 + cp / 0x1000 % 0x40),
      Char.ofNat (0x80 + cp / 0x40 % 0x40), Char.ofNat (0x80 + cp % 0x40)]
  else []

def simpleEscape : Char → Option Char
  | '"' => some '"'
  | '/' => some '/'
  | '\\' => some '\\'
  | 'b' => some (Char.ofNat 8)
  | 'f' => some (Char.ofNat 12)
  | 'n' => some '\n'
  | 'r' => some '\r'
  | 't' => some '\t'
  | _ => none

/-- The loop of `decodeString` over what stands between the quotes; every round
    takes at least one char, so the length bounds the number of rounds. -/
def decodeChars : Nat → Text → Except (Text × Text) Text
  | 0, _ => .ok []
  | _ + 1, [] => .ok []
  | bound + 1, c :: current =>
      if c = '"' then .ok []
      else if c = '\\' then
        match current with
        | [] => .error ("Empty escape sequence in string".toList, [])
        | escape :: current =>
            if escape = 'u' then
              match decodeUnicodeCodePoint current with
              | .error e => .error e
              | .ok (unicode, current) =>
                  (decodeChars bound current).map (codePointToUTF8 unicode ++ ·)
            else
              match simpleEscape escape with
              | some d => (decodeChars bound current).map (d :: ·)
              | none => .error ("Bad escape sequence in string".toList, current)
      else (decodeChars bound current).map (c :: ·)

def decodeString (token : Token) : Except (Text × Text) Text :=
  let body := (token.text.drop 1).dropLast
  decodeChars body.length body

/-! ### Errors and recovery -/

structure Reader where
  current : Text
  errors : List ErrorInfo
deriving DecidableEq, Repr

namespace Reader

/-- Replace the read position by what a token function left. -/
def seek (r : Reader) (current : Text) : Reader := { r with current := current }

def addError (r : Reader) (message : Text) (token : Token) : Reader :=
  { r with errors := r.errors ++ [⟨token, message, none⟩] }

/-- The error of a string: `extra` is a location inside the token, one quote and
    the rest of the document away from `end_`. -/
def addStringError (r : Reader) (e : Text × Text) (token : Token) : Reader :=
  { r with errors :=
      r.errors ++ [⟨token, e.1, some (e.2.length + 1 + (token.start - token.text.length))⟩] }

def skipUntil (skipUntilToken : TokenType) : Nat → Text → Text
  | 0, current => (readToken current).2
  | bound + 1, current =>
      let (skip, rest) := readToken current
      if skip.type = skipUntilToken ∨ skip.type = .tokenEndOfStream then rest
      else skipUntil skipUntilToken bound rest

/-- Resizing `errors_` to the count on entry drops nothing, no error being added
    while tokens are skipped. -/
def recoverFromError (r : Reader) (skipUntilToken : TokenType) : Reader :=
  r.seek (skipUntil skipUntilToken r.current.length r.current)

def addErrorAndRecover (r : Reader) (message : Text) (token : Token)
    (skipUntilToken : TokenType) : Reader :=
  (r.addError message token).recoverFromError skipUntilToken

end Reader

/-! ### The recursive functions

`fuel` bounds the depth of the recursion; `none` is the answer when it runs out.
`ReaderTotal` shows that `parse` never sees it. -/

/-- What `readValue` returns, what its node holds then, and the reader after it. -/
structure Outcome where
  ok : Bool
  value : Value
  reader : Reader

mutual

def readValue [CDouble] : Nat → Reader → Value → Option Outcome
  | 0, _, _ => none
  | fuel + 1, r, node =>
      let (token, rest) := skipCommentTokens r.current
      let r := r.seek rest
      match token.type with
      | .tokenObjectBegin => readObject fuel r [] []
      | .tokenArrayBegin => readArray fuel r
      | .tokenNumber =>
          match decodeNumber token.text with
          | .ok v => some ⟨true, v, r⟩
          | .error message => some ⟨false, node, r.addError message token⟩
      | .tokenString =>
          match decodeString token with
          | .ok decoded => some ⟨true, Value.ofString decoded, r⟩
          | .error e => some ⟨false, node, r.addStringError e token⟩
      | .tokenTrue => some ⟨true, .booleanValue true, r⟩
      | .tokenFalse => some ⟨true, .booleanValue false, r⟩
      | .tokenNull => some ⟨true, .nullValue, r⟩
      | _ => some ⟨false, node,
          r.addError "Syntax error: value, object or array expected.".toList token⟩

/-- The loop of `readObject`; `name` is the member name of the round before. -/
def readObject [CDouble] : Nat → Reader → Text → List (Text × Value) → Option Outcome
  | 0, _, _, _ => none
  | fuel + 1, r, name, members =>
      let (tokenName, rest) := skipCommentTokens r.current
      let r := r.seek rest
      if tokenName.type = .tokenObjectEnd ∧ name = [] then
        some ⟨true, .objectValue members, r⟩
      else if tokenName.type ≠ .tokenString then
        some ⟨false, .objectValue members,
          r.addErrorAndRecover "Missing '\x7d' or object member name".toList tokenName
            .tokenObjectEnd⟩
      else
        match decodeString tokenName with
        | .error e =>
            some ⟨false, .objectValue members,
              (r.addStringError e tokenName).recoverFromError .tokenObjectEnd⟩
        | .ok name =>
            let (colon, rest) := readToken r.current
            let r := r.seek rest
            if colon.type ≠ .tokenMemberSeparator then
              some ⟨false, .objectValue members,
                r.addErrorAndRecover "Missing ':' after object member name".toList colon
                  .tokenObjectEnd⟩
            else
              let key := cString name
              match readValue fuel r (Value.memberAt members key) with
              | none => none
              | some outcome =>
                  let members := Value.setMember key outcome.value members
                  if outcome.ok = false then
                    some ⟨false, .objectValue members,
                      outcome.reader.recoverFromError .tokenObjectEnd⟩
                  else
                    let (comma, rest) := readToken outcome.reader.current
                    if comma.type ≠ .tokenObjectEnd ∧ comma.type ≠ .tokenArraySeparator ∧
                        comma.type ≠ .tokenComment then
                      some ⟨false, .objectValue members,
                        (outcome.reader.seek rest).addErrorAndRecover
                          "Missing ',' or '\x7d' in object declaration".toList comma
                          .tokenObjectEnd⟩
                    else
                      -- behind a comment any token is taken for the comma
                      let (comma, rest) := pastComments comma rest
                      if comma.type = .tokenObjectEnd then
                        some ⟨true, .objectValue members, outcome.reader.seek rest⟩
                      else readObject fuel (outcome.reader.seek rest) name members

def readArray [CDouble] : Nat → Reader → Option Outcome
  | 0, _ => none
  | fuel + 1, r =>
      let r := r.seek (skipSpaces r.current)
      if r.current.head? = some ']' then
        some ⟨true, .arrayValue [], r.seek (readToken r.current).2⟩
      else readElements fuel r []

/-- The loop of `readArray`. -/
def readElements [CDouble] : Nat → Reader → List Value → Option Outcome
  | 0, _, _ => none
  | fuel + 1, r, elements =>
      match readValue fuel r .nullValue with
      | none => none
      | some outcome =>
          let elements := elements ++ [outcome.value]
          if outcome.ok = false then
            some ⟨false, .arrayValue elements, outcome.reader.recoverFromError .tokenArrayEnd⟩
          else
            let (token, rest) := skipCommentTokens outcome.reader.current
            let r := outcome.reader.seek rest
            if token.type ≠ .tokenArraySeparator ∧ token.type ≠ .tokenArrayEnd then
              some ⟨false, .arrayValue elements,
                r.addErrorAndRecover "Missing ',' or ']' in array declaration".toList token
                  .tokenArrayEnd⟩
            else if token.type = .tokenArrayEnd then some ⟨true, .arrayValue elements, r⟩
            else readElements fuel r elements

end

/-! ### parse -/

def parseFuel (document : Text) : Nat := 3 * document.length + 3

/-- `Reader::parse` into a null root: the result, the root it leaves, the errors. -/
def parse [CDouble] (document : Text) : Bool × Value × List ErrorInfo :=
  match readValue (parseFuel document) ⟨document, []⟩ .nullValue with
  | some outcome => (outcome.ok, outcome.value, outcome.reader.errors)
  | none => (false, .nullValue, [])

end SocketIOStress.Json
