import Mathlib.Algebra.Group.Int.Defs
import Mathlib.Algebra.Group.Nat.Defs
import Mathlib.Data.List.TakeWhile
import SocketIOStress.Basic
import SocketIOStress.Lib.Regex

/-!
# websocketpp::uri

The constructor reads an address with one regular expression of `boost::regex`,
which is not part of the repository: `BoostRegex` takes its matcher as a
parameter that decides the language of an expression over whole texts.  What the
expression describes is a `Location`; its text determines it, so whatever
matcher is used, the constructor returns the parts the text was written from.
-/

namespace SocketIOStress

open Patterns Regex

/-! ### The parameter -/

/-- `boost::regex_match` as documented: it finds a match of the whole text whenever
    there is one, and the groups it reports are those of a match. -/
class BoostRegex where
  regexMatch : Regex Char → Text → Option (Captures Char)
  sound : ∀ {e : Regex Char} {t : Text} {m : Captures Char},
    regexMatch e t = some m → e.Matches t m
  complete : ∀ {e : Regex Char} {t : Text} {m : Captures Char},
    e.Matches t m → (regexMatch e t).isSome = true

/-- A matcher that tries every way in order. -/
@[reducible] def backtracking : BoostRegex where
  regexMatch := fullMatch
  sound := fullMatch_sound
  complete := fullMatch_complete

namespace Plain

scoped instance boostRegex : BoostRegex := backtracking

end Plain

/-- `websocketpp::uri_exception`. -/
structure UriException where
  what : Text
deriving DecidableEq, Repr

structure Uri where
  secure : Bool
  host : Text
  /-- A `uint16_t`; nothing above 65535 is assigned. -/
  port : Nat
  resource : Text
deriving DecidableEq, Repr

namespace Uri

/-! ### Ports -/

def uriDefaultPort : Nat := 80
def uriDefaultSecurePort : Nat := 443

def isSpace (c : Char) : Bool := c = ' ' || (9 ≤ c.toNat && c.toNat ≤ 13)

def leadingDigits (t : Text) : Nat := Nat.ofDigitChars 10 (t.takeWhile Char.isDigit) 0

/-- `atoi`, of a number that an `int` can hold. -/
def atoi (t : Text) : Int :=
  match t.dropWhile isSpace with
  | '-' :: t => -(leadingDigits t : Int)
  | '+' :: t => leadingDigits t
  | t => leadingDigits t

/-- `t_port` is an `unsigned int`. -/
def getPortFromString (secure : Bool) (port : Text) : Except UriException Nat :=
  if port = [] then .ok (if secure then uriDefaultSecurePort else uriDefaultPort)
  else
    let tPort := (atoi (cString port) % 2 ^ 32).toNat
    if 65535 < tPort then .error ⟨"Port must be less than 65535".toList⟩
    else if tPort = 0 then .error ⟨"Error parsing port string: ".toList ++ port⟩
    else .ok tPort

/-! ### The constructor -/

/-- `[^/:\[]`. -/
def isHostChar (c : Char) : Bool := c ≠ '/' && c ≠ ':' && c ≠ '['

/-- `[0-9a-fA-F:.]`. -/
def isLiteralChar (c : Char) : Bool :=
  ('0' ≤ c && c ≤ '9') || ('a' ≤ c && c ≤ 'f') || ('A' ≤ c && c ≤ 'F') || c = ':' || c = '.'

def schemeExpression : Regex Char := .alt (word "ws".toList) (word "wss".toList)

def hostExpression : Regex Char :=
  .alt (plus (.one isHostChar))
    (.seq (word ['[']) (.seq (plus (.one isLiteralChar)) (word [']'])))

def portExpression : Regex Char :=
  .seq (word [':']) (.seq (.one Char.isDigit) (upTo (.one Char.isDigit) 4))

def resourceExpression : Regex Char := .seq (word ['/']) (.star (.one (fun c => c ≠ '#')))

/-- `(ws|wss)://([^/:\[]+|\[[0-9a-fA-F:.]+\])(:\d{1,5})?(/[^#]*)?`. -/
def expression : Regex Char :=
  .seq (.group 1 schemeExpression) (.seq (word "://".toList)
    (.seq (.group 2 hostExpression)
      (.seq (opt (.group 3 portExpression)) (opt (.group 4 resourceExpression)))))

/-- The expression sees `uri.c_str()`. -/
def construct [BoostRegex] (uri : Text) : Except UriException Uri :=
  match BoostRegex.regexMatch expression (cString uri) with
  | none => .error ⟨"Error parsing WebSocket URI".toList⟩
  | some found =>
      let secure : Bool := decide (found.text 1 = "wss".toList)
      -- strip brackets from IPv6 literal URIs
      let host := if (found.text 2).head? = some '[' then
          ((found.text 2).drop 1).take ((found.text 2).length - 2)
        else found.text 2
      -- strip off the :
      let port := if found.text 3 ≠ [] then (found.text 3).drop 1 else found.text 3
      match getPortFromString secure port with
      | .error e => .error e
      | .ok port =>
          .ok ⟨secure, host, port, if found.text 4 = [] then ['/'] else found.text 4⟩

/-! ### Ports of digits -/

theorem cString_eq_self {t : Text} (h : nul ∉ t) : cString t = t := by
  refine List.takeWhile_eq_self_iff.mpr ?_
  intro c hc
  refine decide_eq_true ?_
  rintro rfl
  exact h hc

theorem atoi_digits {t : Text} (h : ∀ c ∈ t, c.isDigit = true) :
    atoi t = Nat.ofDigitChars 10 t 0 := by
  have hdigits : leadingDigits t = Nat.ofDigitChars 10 t 0 := by
    rw [leadingDigits, List.takeWhile_eq_self_iff.mpr h]
  rw [← hdigits]
  cases t with
  | nil => rfl
  | cons c t =>
    have hc : '0'.toNat ≤ c.toNat ∧ c.toNat ≤ '9'.toNat :=
      Char.isDigit_iff_toNat.mp (h c List.mem_cons_self)
    have hspace : (c :: t).dropWhile isSpace = c :: t := by
      rw [List.dropWhile_cons, if_neg]
      rw [isSpace, Bool.or_eq_true, Bool.and_eq_true, decide_eq_true_eq, decide_eq_true_eq,
        decide_eq_true_eq]
      rintro (rfl | ⟨-, hle⟩)
      · exact absurd hc.1 (by decide)
      · have hzero : '0'.toNat = 48 := rfl
        omega
    unfold atoi
    rw [hspace]
    split
    · rename_i heq
      cases heq
      exact absurd hc.1 (by decide)
    · rename_i heq
      cases heq
      exact absurd hc.1 (by decide)
    · rfl

theorem ofDigitChars_lt {t : Text} (h : ∀ c ∈ t, c.isDigit = true) :
    Nat.ofDigitChars 10 t 0 < 10 ^ t.length := by
  induction t with
  | nil => simp
  | cons c t ih =>
    obtain ⟨hc, ht⟩ := List.forall_mem_cons.mp h
    have hdigit := Char.isDigit_iff_toNat.mp hc
    have hnine : '9'.toNat = 57 := rfl
    have hzero : '0'.toNat = 48 := rfl
    have hrest := ih ht
    rw [Nat.ofDigitChars_cons, Nat.ofDigitChars_eq_ofDigitChars_zero, Nat.mul_zero, Nat.zero_add,
      List.length_cons, Nat.pow_succ]
    have hhead : 10 ^ t.length * (c.toNat - '0'.toNat) ≤ 10 ^ t.length * 9 :=
      Nat.mul_le_mul_left _ (by omega)
    omega

end Uri

/-! ### Locations

What the expression describes, for the addresses on both sides: `http(s)` on the
command line and `ws(s)` for the websocket.  Every text of these types is one of
the expression's groups. -/

inductive Host where
  | name (text : Text) (nonempty : text ≠ []) (chars : ∀ c ∈ text, Uri.isHostChar c = true)
  | literal (address : Text) (nonempty : address ≠ [])
      (chars : ∀ c ∈ address, Uri.isLiteralChar c = true)

namespace Host

def text : Host → Text
  | .name text _ _ => text
  | .literal address _ _ => '[' :: (address ++ [']'])

/-- The host without the brackets of a literal. -/
def address : Host → Text
  | .name text _ _ => text
  | .literal address _ _ => address

end Host

structure Port where
  digits : Text
  nonempty : digits ≠ []
  short : digits.length ≤ 5
  isDigit : ∀ c ∈ digits, c.isDigit = true

namespace Port

def value (p : Port) : Nat := Nat.ofDigitChars 10 p.digits 0

/-- A port as it is written behind a host. -/
def written : Option Port → Text
  | none => []
  | some p => ':' :: p.digits

def captures : Option Port → Captures Char
  | none => []
  | some p => [(3, ':' :: p.digits)]

end Port

structure Path where
  text : Text
  slash : text = [] ∨ text.head? = some '/'
  noFragment : '#' ∉ text

def Path.captures (p : Path) : Captures Char := if p.text = [] then [] else [(4, p.text)]

structure Location where
  secure : Bool
  host : Host
  port : Option Port
  path : Path

namespace Location

/-- Everything behind the scheme. -/
def rest (l : Location) : Text := l.host.text ++ (Port.written l.port ++ l.path.text)

def http (l : Location) : Text :=
  (if l.secure then "https://".toList else "http://".toList) ++ l.rest

def websocketScheme (secure : Bool) : Text := if secure then "wss".toList else "ws".toList

def websocket (l : Location) : Text := websocketScheme l.secure ++ ("://".toList ++ l.rest)

def portNumber (l : Location) : Nat :=
  match l.port with
  | none => if l.secure then Uri.uriDefaultSecurePort else Uri.uriDefaultPort
  | some p => p.value

/-- A port that is written is one. -/
def PortInRange (l : Location) : Prop := ∀ p, l.port = some p → 0 < p.value ∧ p.value ≤ 65535

def uri (l : Location) : Uri :=
  ⟨l.secure, l.host.address, l.portNumber, if l.path.text = [] then ['/'] else l.path.text⟩

/-- What the groups of the expression hold after a match. -/
def captures (l : Location) : Captures Char :=
  (1, websocketScheme l.secure) :: (2, l.host.text) :: (Port.captures l.port ++ l.path.captures)

end Location

/-! ### What the expression matches -/

namespace Uri

theorem matches_scheme_iff {t : Text} {m : Captures Char} :
    schemeExpression.Matches t m ↔
      ∃ secure, t = Location.websocketScheme secure ∧ m = [] := by
  rw [schemeExpression, matches_alt_iff, matches_word_iff, matches_word_iff]
  constructor
  · rintro (⟨rfl, rfl⟩ | ⟨rfl, rfl⟩)
    · exact ⟨false, rfl, rfl⟩
    · exact ⟨true, rfl, rfl⟩
  · rintro ⟨secure, rfl, rfl⟩
    cases secure with
    | false => exact Or.inl ⟨rfl, rfl⟩
    | true => exact Or.inr ⟨rfl, rfl⟩

theorem matches_host_iff {t : Text} {m : Captures Char} :
    hostExpression.Matches t m ↔ ∃ host : Host, t = host.text ∧ m = [] := by
  rw [hostExpression, matches_alt_iff, matches_plus_one_iff, matches_seq_iff]
  constructor
  · rintro (⟨hne, hchars, rfl⟩ | ⟨_, _, _, _, hopen, hrest, rfl, rfl⟩)
    · exact ⟨.name t hne hchars, rfl, rfl⟩
    · obtain ⟨rfl, rfl⟩ := matches_word_iff.mp hopen
      obtain ⟨address, _, _, _, hplus, hclose, rfl, rfl⟩ := matches_seq_iff.mp hrest
      obtain ⟨hne, hchars, rfl⟩ := matches_plus_one_iff.mp hplus
      obtain ⟨rfl, rfl⟩ := matches_word_iff.mp hclose
      exact ⟨.literal address hne hchars, rfl, rfl⟩
  · rintro ⟨host, rfl, rfl⟩
    cases host with
    | name text nonempty chars => exact Or.inl ⟨nonempty, chars, rfl⟩
    | literal address nonempty chars =>
      have haddress := matches_plus_one_iff.mpr ⟨nonempty, chars, rfl⟩
      exact Or.inr ⟨['['], address ++ [']'], [], [], matches_word _,
        .seq haddress (matches_word _), rfl, rfl⟩

theorem matches_port_iff {t : Text} {m : Captures Char} :
    (opt (.group 3 portExpression)).Matches t m ↔
      ∃ port : Option Port, t = Port.written port ∧ m = Port.captures port := by
  rw [matches_opt_iff, matches_group_iff]
  constructor
  · rintro (⟨_, hport, rfl⟩ | ⟨rfl, rfl⟩)
    · obtain ⟨_, _, _, _, hcolon, hdigits, rfl, rfl⟩ := matches_seq_iff.mp hport
      obtain ⟨rfl, rfl⟩ := matches_word_iff.mp hcolon
      obtain ⟨_, more, _, _, hone, hmore, rfl, rfl⟩ := matches_seq_iff.mp hdigits
      obtain ⟨c, hc, rfl, rfl⟩ := matches_one_iff.mp hone
      obtain ⟨hle, hall, rfl⟩ := matches_upTo_one_iff.mp hmore
      exact ⟨some ⟨c :: more, List.cons_ne_nil _ _, Nat.succ_le_succ hle,
        List.forall_mem_cons.mpr ⟨hc, hall⟩⟩, rfl, rfl⟩
    · exact ⟨none, rfl, rfl⟩
  · rintro ⟨port, rfl, rfl⟩
    cases port with
    | none => exact Or.inr ⟨rfl, rfl⟩
    | some p =>
      obtain ⟨digits, hne, hshort, hall⟩ := p
      obtain ⟨c, more, rfl⟩ := List.exists_cons_of_ne_nil hne
      obtain ⟨hc, hmore⟩ := List.forall_mem_cons.mp hall
      refine Or.inl ⟨[], ?_, rfl⟩
      have hrest := matches_upTo_one_iff.mpr ⟨Nat.le_of_succ_le_succ hshort, hmore, rfl⟩
      exact .seq (matches_word _) (.seq (.one hc) hrest)

theorem matches_path_iff {t : Text} {m : Captures Char} :
    (opt (.group 4 resourceExpression)).Matches t m ↔
      ∃ path : Path, t = path.text ∧ m = path.captures := by
  rw [matches_opt_iff, matches_group_iff]
  constructor
  · rintro (⟨_, hresource, rfl⟩ | ⟨rfl, rfl⟩)
    · obtain ⟨_, more, _, _, hslash, hmore, rfl, rfl⟩ := matches_seq_iff.mp hresource
      obtain ⟨rfl, rfl⟩ := matches_word_iff.mp hslash
      obtain ⟨hall, rfl⟩ := matches_star_one_iff.mp hmore
      have hnone : '#' ∉ '/' :: more := by
        intro hin
        rcases List.mem_cons.mp hin with heq | hin
        · exact absurd heq (by decide)
        · exact absurd rfl (of_decide_eq_true (hall '#' hin))
      exact ⟨⟨'/' :: more, Or.inr rfl, hnone⟩, rfl, rfl⟩
    · exact ⟨⟨[], Or.inl rfl, List.not_mem_nil⟩, rfl, rfl⟩
  · rintro ⟨⟨text, slash, noFragment⟩, rfl, rfl⟩
    cases t with
    | nil => exact Or.inr ⟨rfl, rfl⟩
    | cons c more =>
      rcases slash with hnil | hhead
      · cases hnil
      · cases hhead
        refine Or.inl ⟨[], .seq (matches_word _) ?_, rfl⟩
        refine matches_star_one_iff.mpr ⟨?_, rfl⟩
        intro c hc
        refine decide_eq_true ?_
        rintro rfl
        exact noFragment (List.mem_cons_of_mem _ hc)

/-- The expression matches the texts of locations, and captures their parts. -/
theorem matches_expression_iff {t : Text} {m : Captures Char} :
    expression.Matches t m ↔ ∃ l : Location, t = l.websocket ∧ m = l.captures := by
  constructor
  · intro h
    obtain ⟨_, _, _, _, hgroup₁, hbehind₁, rfl, rfl⟩ := matches_seq_iff.mp h
    obtain ⟨_, hscheme, rfl⟩ := matches_group_iff.mp hgroup₁
    obtain ⟨secure, rfl, rfl⟩ := matches_scheme_iff.mp hscheme
    obtain ⟨_, _, _, _, hslashes, hbehind₂, rfl, rfl⟩ := matches_seq_iff.mp hbehind₁
    obtain ⟨rfl, rfl⟩ := matches_word_iff.mp hslashes
    obtain ⟨_, _, _, _, hgroup₂, hbehind₃, rfl, rfl⟩ := matches_seq_iff.mp hbehind₂
    obtain ⟨_, hhost, rfl⟩ := matches_group_iff.mp hgroup₂
    obtain ⟨host, rfl, rfl⟩ := matches_host_iff.mp hhost
    obtain ⟨_, _, _, _, hport, hpath, rfl, rfl⟩ := matches_seq_iff.mp hbehind₃
    obtain ⟨port, rfl, rfl⟩ := matches_port_iff.mp hport
    obtain ⟨path, rfl, rfl⟩ := matches_path_iff.mp hpath
    exact ⟨⟨secure, host, port, path⟩, rfl, rfl⟩
  · rintro ⟨⟨secure, host, port, path⟩, rfl, rfl⟩
    have hscheme := matches_scheme_iff.mpr ⟨secure, rfl, rfl⟩
    have hhost := matches_host_iff.mpr ⟨host, rfl, rfl⟩
    have hport := matches_port_iff.mpr ⟨port, rfl, rfl⟩
    have hpath := matches_path_iff.mpr ⟨path, rfl, rfl⟩
    exact .seq (.group hscheme) (.seq (matches_word _)
      (.seq (.group hhost) (.seq hport hpath)))

end Uri

/-! ### One text, one location -/

/-- Behind a host comes a port, a path, or nothing. -/
def EndsHost (t : Text) : Prop := ∀ c, t.head? = some c → c = ':' ∨ c = '/'

theorem endsHost_rest (port : Option Port) (path : Path) :
    EndsHost (Port.written port ++ path.text) := by
  intro c hc
  cases port with
  | some p =>
    cases hc
    exact Or.inl rfl
  | none =>
    rw [Port.written, List.nil_append] at hc
    rcases path.slash with hnil | hslash
    · rw [hnil] at hc
      cases hc
    · rw [hslash] at hc
      cases hc
      exact Or.inr rfl

/-- A name does not begin with a bracket. -/
theorem name_append_ne {text t more : Text} (hne : text ≠ [])
    (hchars : ∀ c ∈ text, Uri.isHostChar c = true) : text ++ t ≠ '[' :: more := by
  intro heq
  obtain ⟨c, rest, rfl⟩ := List.exists_cons_of_ne_nil hne
  rw [List.cons_append, List.cons.injEq] at heq
  have hc := hchars c List.mem_cons_self
  rw [heq.1] at hc
  cases hc

theorem Host.text_append_inj {host host' : Host} {t t' : Text} (ht : EndsHost t)
    (ht' : EndsHost t') (h : host.text ++ t = host'.text ++ t') : host = host' ∧ t = t' := by
  cases host with
  | name text hne hchars =>
    cases host' with
    | name text' hne' hchars' =>
      have hstop : ∀ {t : Text}, EndsHost t → ∀ c, t.head? = some c → Uri.isHostChar c = false := by
        intro t ht c hc
        rcases ht c hc with rfl | rfl <;> rfl
      obtain ⟨htext, hrest⟩ := cut_unique h hchars hchars' (hstop ht) (hstop ht')
      dsimp only [Host.text] at htext
      subst htext
      exact ⟨rfl, hrest⟩
    | literal address' hne' hchars' => exact absurd h (name_append_ne hne hchars)
  | literal address hne hchars =>
    cases host' with
    | name text' hne' hchars' => exact absurd h.symm (name_append_ne hne' hchars')
    | literal address' hne' hchars' =>
      simp only [Host.text, List.cons_append, List.append_assoc, List.cons.injEq, true_and,
        List.nil_append] at h
      -- an address ends at its bracket
      have hclose : ∀ {t : Text} (c : Char), (']' :: t).head? = some c →
          Uri.isLiteralChar c = false := by
        intro t c hc
        cases hc
        rfl
      obtain ⟨haddress, hrest⟩ := cut_unique h hchars hchars' hclose hclose
      subst haddress
      exact ⟨rfl, (List.cons.inj hrest).2⟩

theorem Port.written_append_inj {port port' : Option Port} {path path' : Path}
    (h : Port.written port ++ path.text = Port.written port' ++ path'.text) :
    port = port' ∧ path = path' := by
  have hport : ∀ (port : Option Port), ∀ c ∈ Port.written port, decide (c ≠ '/') = true := by
    intro port c hc
    refine decide_eq_true ?_
    rintro rfl
    cases port with
    | none => cases hc
    | some p =>
      rcases List.mem_cons.mp hc with heq | hdigit
      · exact absurd heq (by decide)
      · exact absurd (p.isDigit '/' hdigit) (by decide)
  have hpath : ∀ (path : Path) (c : Char), path.text.head? = some c →
      decide (c ≠ '/') = false := by
    intro path c hc
    rcases path.slash with hnil | hslash
    · rw [hnil] at hc
      cases hc
    · rw [hslash] at hc
      cases hc
      rfl
  obtain ⟨hwritten, htext⟩ := cut_unique h (hport port) (hport port') (hpath path) (hpath path')
  constructor
  · cases port with
    | none =>
      cases port' with
      | none => rfl
      | some p' => cases hwritten
    | some p =>
      cases port' with
      | none => cases hwritten
      | some p' =>
        obtain ⟨digits, _, _, _⟩ := p
        obtain ⟨digits', _, _, _⟩ := p'
        have hdigits : digits = digits' := (List.cons.inj hwritten).2
        subst hdigits
        rfl
  · obtain ⟨text, _, _⟩ := path
    obtain ⟨text', _, _⟩ := path'
    dsimp only at htext
    subst htext
    rfl

/-- **The expression is unambiguous**: the text of a location determines it. -/
theorem Location.websocket_injective {l l' : Location} (h : l.websocket = l'.websocket) :
    l = l' := by
  obtain ⟨secure, host, port, path⟩ := l
  obtain ⟨secure', host', port', path'⟩ := l'
  have hscheme : secure = secure' ∧
      host.text ++ (Port.written port ++ path.text) =
        host'.text ++ (Port.written port' ++ path'.text) := by
    cases secure with
    | false =>
      cases secure' with
      | false => exact ⟨rfl, by simpa [websocket, websocketScheme, rest] using h⟩
      | true => simp [websocket, websocketScheme] at h
    | true =>
      cases secure' with
      | false => simp [websocket, websocketScheme] at h
      | true => exact ⟨rfl, by simpa [websocket, websocketScheme, rest] using h⟩
  obtain ⟨rfl, hrest⟩ := hscheme
  obtain ⟨rfl, hbehind⟩ :=
    Host.text_append_inj (endsHost_rest port path) (endsHost_rest port' path') hrest
  obtain ⟨rfl, rfl⟩ := Port.written_append_inj hbehind
  rfl

/-! ### What the constructor returns -/

namespace Uri

/-- Whatever matcher is used, it finds the parts of a location. -/
theorem regexMatch_websocket [BoostRegex] (l : Location) :
    BoostRegex.regexMatch expression l.websocket = some l.captures := by
  have hmatch : expression.Matches l.websocket l.captures :=
    matches_expression_iff.mpr ⟨l, rfl, rfl⟩
  obtain ⟨m, hm⟩ := Option.isSome_iff_exists.mp (BoostRegex.complete hmatch)
  obtain ⟨l', htext, rfl⟩ := matches_expression_iff.mp (BoostRegex.sound hm)
  rw [hm, Location.websocket_injective htext]

end Uri

theorem Location.captures_text (l : Location) :
    l.captures.text 1 = websocketScheme l.secure ∧ l.captures.text 2 = l.host.text ∧
      l.captures.text 3 = Port.written l.port ∧ l.captures.text 4 = l.path.text := by
  obtain ⟨secure, host, port, path⟩ := l
  by_cases hpath : path.text = []
  · cases port with
    | none => simp [captures, Captures.text, Port.captures, Path.captures, Port.written, hpath]
    | some p => simp [captures, Captures.text, Port.captures, Path.captures, Port.written, hpath]
  · cases port with
    | none => simp [captures, Captures.text, Port.captures, Path.captures, Port.written, hpath]
    | some p => simp [captures, Captures.text, Port.captures, Path.captures, Port.written, hpath]

theorem Host.address_of_text (host : Host) :
    (if host.text.head? = some '[' then (host.text.drop 1).take (host.text.length - 2)
      else host.text) = host.address := by
  cases host with
  | name text hne hchars =>
    apply if_neg
    intro hhead
    obtain ⟨c, more, hcons⟩ := List.exists_cons_of_ne_nil hne
    have hname : text ++ [] ≠ '[' :: more := name_append_ne hne hchars
    rw [Host.text, hcons] at hhead
    rw [hcons, List.append_nil] at hname
    cases hhead
    exact hname rfl
  | literal address hne hchars =>
    have hlength : ('[' :: (address ++ [']'])).length - 2 = address.length := by
      simp
    rw [Host.text, List.head?_cons, if_pos rfl, hlength, List.drop_succ_cons, List.drop_zero]
    exact List.take_left' rfl

namespace Uri

theorem getPortFromString_digits (secure : Bool) (p : Port) :
    getPortFromString secure p.digits =
      if 65535 < p.value then .error ⟨"Port must be less than 65535".toList⟩
      else if p.value = 0 then .error ⟨"Error parsing port string: ".toList ++ p.digits⟩
      else .ok p.value := by
  have hnul : cString p.digits = p.digits := by
    apply cString_eq_self
    intro hin
    exact absurd (p.isDigit nul hin) (by decide)
  have hbound : p.value < 2 ^ 32 := by
    have hlt := ofDigitChars_lt p.isDigit
    have hpow : 10 ^ p.digits.length ≤ 10 ^ 5 := Nat.pow_le_pow_right (by decide) p.short
    rw [Port.value]
    omega
  have hport : (atoi (cString p.digits) % 2 ^ 32).toNat = p.value := by
    rw [hnul, atoi_digits p.isDigit]
    rw [Port.value] at hbound ⊢
    omega
  simp only [getPortFromString, if_neg p.nonempty, hport]

/-- Of the text of a location the constructor checks the port, and keeps the parts. -/
theorem construct_websocket [BoostRegex] {t : Text} {l : Location} (ht : cString t = l.websocket) :
    construct t =
      match getPortFromString l.secure ((Port.written l.port).drop 1) with
      | .error e => .error e
      | .ok port => .ok ⟨l.secure, l.host.address, port,
          if l.path.text = [] then ['/'] else l.path.text⟩ := by
  obtain ⟨hscheme, hhost, hport, hpath⟩ := l.captures_text
  have hsecure : decide (Location.websocketScheme l.secure = "wss".toList) = l.secure := by
    cases l.secure with
    | false => rfl
    | true => rfl
  have hdrop : (if Port.written l.port ≠ [] then (Port.written l.port).drop 1
      else Port.written l.port) = (Port.written l.port).drop 1 := by
    cases l.port with
    | none => rfl
    | some p => rfl
  simp only [construct, ht, regexMatch_websocket, hscheme, hhost, hport, hpath, hsecure, hdrop,
    Host.address_of_text]

/-- **What the constructor accepts, and what it makes of it**: the text of a location whose
    port, when there is one, is between 1 and 65535. -/
theorem construct_ok_iff [BoostRegex] {t : Text} {u : Uri} :
    construct t = .ok u ↔
      ∃ l : Location, cString t = l.websocket ∧ l.PortInRange ∧ u = l.uri := by
  constructor
  · intro h
    cases hmatch : BoostRegex.regexMatch expression (cString t) with
    | none =>
      simp only [construct, hmatch] at h
      cases h
    | some m =>
      obtain ⟨l, htext, -⟩ := matches_expression_iff.mp (BoostRegex.sound hmatch)
      refine ⟨l, htext, ?_⟩
      rw [construct_websocket htext] at h
      obtain ⟨secure, host, port, path⟩ := l
      cases port with
      | none =>
        cases h
        exact ⟨(fun p hp => by cases hp), rfl⟩
      | some p =>
        simp only [Port.written, List.drop_succ_cons, List.drop_zero,
          getPortFromString_digits] at h
        by_cases hhigh : 65535 < p.value
        · rw [if_pos hhigh] at h
          cases h
        · rw [if_neg hhigh] at h
          by_cases hzero : p.value = 0
          · rw [if_pos hzero] at h
            cases h
          · rw [if_neg hzero] at h
            cases h
            refine ⟨?_, rfl⟩
            intro p' hp'
            cases hp'
            exact ⟨Nat.pos_of_ne_zero hzero, Nat.le_of_not_lt hhigh⟩
  · rintro ⟨⟨secure, host, port, path⟩, htext, hrange, rfl⟩
    rw [construct_websocket htext]
    cases port with
    | none => rfl
    | some p =>
      obtain ⟨hpos, hle⟩ := hrange p rfl
      simp only [Port.written, List.drop_succ_cons, List.drop_zero, getPortFromString_digits,
        if_neg (Nat.not_lt.mpr hle), if_neg (Nat.ne_of_gt hpos)]
      rfl

end Uri

/-! ### Asking the endpoint for a connection -/

/-- The codes `get_connection` throws with. -/
inductive EndpointError where
  | endpointUnsecure
  | invalidUri
deriving DecidableEq, Repr

/-- `websocketpp::exception`. -/
structure EndpointException where
  what : Text
  code : EndpointError
deriving DecidableEq, Repr

/-- `client::get_connection` up to `create_connection`; `isSecure` says whether the
    endpoint is a `client_tls`. -/
def getConnection [BoostRegex] (isSecure : Bool) (u : Text) : Except EndpointException Uri :=
  match Uri.construct u with
  | .error e => .error ⟨e.what, .invalidUri⟩
  | .ok location =>
      if location.secure && !isSecure then
        .error ⟨"Endpoint doesn't support secure connections.".toList, .endpointUnsecure⟩
      else .ok location

/-- An endpoint of the same kind takes every address the constructor accepts. -/
theorem getConnection_of_construct [BoostRegex] {isSecure : Bool} {u : Text} {location : Uri}
    (hconstruct : Uri.construct u = .ok location) (hsecure : location.secure = isSecure) :
    getConnection isSecure u = .ok location := by
  simp only [getConnection, hconstruct, hsecure, Bool.and_not_self, Bool.false_eq_true, if_false]

end SocketIOStress
