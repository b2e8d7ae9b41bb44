import SocketIOStress.Client

/-!
# The two addresses of a process

The argument of a process is the address of its server.  `main` strips a slash
from it and looks at its beginning, the constructor of the handler looks for the
first of `:` and `/`, and the address of the websocket, put together from what
the constructor kept, is taken apart once more by `websocketpp::uri`.  On the
text of a location all of them see the same scheme, host and port.
-/

namespace SocketIOStress

open SocketIOStress.Json Patterns

/-! ### Paths without their last slash -/

namespace Path

/-- The slash `main` strips. -/
def trailingSlash (p : Path) : Text := if p.text.getLast? = some '/' then ['/'] else []

def trimmedText (p : Path) : Text :=
  if p.text.getLast? = some '/' then p.text.dropLast else p.text

theorem trimmedText_append (p : Path) : p.trimmedText ++ p.trailingSlash = p.text := by
  unfold trimmedText trailingSlash
  by_cases hslash : p.text.getLast? = some '/'
  · rw [if_pos hslash, if_pos hslash]
    obtain ⟨text, heq⟩ := List.getLast?_eq_some_iff.mp hslash
    rw [heq, List.dropLast_concat]
  · rw [if_neg hslash, if_neg hslash, List.append_nil]

theorem mem_of_mem_trimmedText {p : Path} {c : Char} (h : c ∈ p.trimmedText) : c ∈ p.text := by
  rw [← p.trimmedText_append]
  exact List.mem_append_left _ h

theorem trimmedText_slash (p : Path) :
    p.trimmedText = [] ∨ p.trimmedText.head? = some '/' := by
  cases htrimmed : p.trimmedText with
  | nil => exact Or.inl rfl
  | cons c more =>
    have htext := p.trimmedText_append
    rw [htrimmed, List.cons_append] at htext
    rcases p.slash with hnil | hhead
    · rw [hnil] at htext
      cases htext
    · rw [← htext] at hhead
      exact Or.inr hhead

end Path

/-- What `websocket_uri` puts between the address it was given and the token. -/
def socketDirectory : Text := "/socket.io/1/websocket/".toList

theorem socketDirectory_head : socketDirectory.head? = some '/' := by decide +kernel

theorem hash_not_mem_socketDirectory : '#' ∉ socketDirectory := by decide +kernel

theorem nul_not_mem_socketDirectory : nul ∉ socketDirectory := by decide +kernel

/-- The path of the websocket on a server whose path is `p`. -/
def Path.socket (p : Path) (token : Text) (htoken : '#' ∉ token) : Path where
  text := p.trimmedText ++ (socketDirectory ++ token)
  slash := by
    rcases p.trimmedText_slash with hnil | hhead
    · rw [hnil, List.nil_append, List.head?_append, socketDirectory_head]
      exact Or.inr rfl
    · rw [List.head?_append, hhead]
      exact Or.inr rfl
  noFragment := by
    rw [List.mem_append, List.mem_append, not_or, not_or]
    exact ⟨fun hin => p.noFragment (mem_of_mem_trimmedText hin), hash_not_mem_socketDirectory,
      htoken⟩

namespace Location

/-- The location of the websocket on the server at `l`. -/
def socket (l : Location) (token : Text) (htoken : '#' ∉ token) : Location :=
  { l with path := l.path.socket token htoken }

/-- What is left of `rest` without the slash. -/
def trimmedRest (l : Location) : Text :=
  l.host.text ++ (Port.written l.port ++ l.path.trimmedText)

def httpScheme (secure : Bool) : Text :=
  if secure then "https://".toList else "http://".toList

theorem http_eq (l : Location) :
    l.http = httpScheme l.secure ++ l.trimmedRest ++ l.path.trailingSlash := by
  rw [http, httpScheme, rest, trimmedRest, List.append_assoc, List.append_assoc,
    List.append_assoc, l.path.trimmedText_append]

/-- Neither a host nor a port ends in a slash. -/
theorem slash_not_mem_authority (l : Location) : '/' ∉ l.host.text ++ Port.written l.port := by
  obtain ⟨secure, host, port, path⟩ := l
  rw [List.mem_append, not_or]
  constructor
  · cases host with
    | name text hne hchars =>
      intro hin
      exact absurd (hchars '/' hin) (by decide)
    | literal address hne hchars =>
      intro hin
      simp only [Host.text, List.mem_cons, List.mem_append, List.not_mem_nil, or_false] at hin
      rcases hin with heq | hin | heq
      · exact absurd heq (by decide)
      · exact absurd (hchars '/' hin) (by decide)
      · exact absurd heq (by decide)
  · cases port with
    | none => exact List.not_mem_nil
    | some p =>
      intro hin
      rcases List.mem_cons.mp hin with heq | hin
      · exact absurd heq (by decide)
      · exact absurd (p.isDigit '/' hin) (by decide)

theorem rest_ne_nil (l : Location) : l.rest ≠ [] := by
  intro hnil
  have hhost : l.host.text = [] := (List.append_eq_nil_iff.mp hnil).1
  cases hh : l.host with
  | name text hne hchars =>
    rw [hh] at hhost
    exact hne hhost
  | literal address hne hchars =>
    rw [hh] at hhost
    cases hhost

/-- An address ends in a slash only when its path does. -/
theorem getLast?_http (l : Location) (h : l.http.getLast? = some '/') :
    l.path.text.getLast? = some '/' := by
  have hrest : l.rest.getLast? = some '/' := by
    have hlast := List.getLast?_eq_some_getLast l.rest_ne_nil
    rw [http, List.getLast?_append, hlast] at h
    rw [hlast]
    exact h
  rw [rest, ← List.append_assoc, List.getLast?_append] at hrest
  cases hpath : l.path.text.getLast? with
  | some c =>
    rw [hpath] at hrest
    exact hrest
  | none =>
    rw [hpath, Option.none_or] at hrest
    exact absurd (List.mem_of_getLast? hrest) l.slash_not_mem_authority

end Location

/-! ### What each function makes of a location -/

namespace Location

theorem strippedUri_eq {p : Client} {l : Location} (huri : p.uri = l.http) :
    p.strippedUri = httpScheme l.secure ++ l.trimmedRest := by
  have hhttp := l.http_eq
  rw [Client.strippedUri, huri]
  by_cases hslash : l.path.text.getLast? = some '/'
  · rw [Path.trailingSlash, if_pos hslash] at hhttp
    rw [hhttp, List.getLast?_concat, if_pos rfl, List.dropLast_concat]
  · rw [Path.trailingSlash, if_neg hslash, List.append_nil] at hhttp
    rw [if_neg (fun h => hslash (l.getLast?_http h)), hhttp]

theorem isTls_eq {p : Client} {l : Location} (huri : p.uri = l.http) : p.isTls = l.secure := by
  rw [Client.isTls, strippedUri_eq huri]
  cases l.secure with
  | false => simp [httpScheme, List.isPrefixOf]
  | true => simp [httpScheme, List.isPrefixOf]

theorem isHttp {p : Client} {l : Location} (huri : p.uri = l.http) : p.IsHttp := by
  rw [Client.IsHttp, isTls_eq huri, strippedUri_eq huri]
  cases l.secure with
  | false => exact Or.inr (by simp [httpScheme])
  | true => exact Or.inl rfl

/-- The first of `:` and `/` is the colon of the scheme. -/
theorem findFirstOf_eq (secure : Bool) (t : Text) :
    Handler.findFirstOf "://".toList (httpScheme secure ++ t) =
      some (if secure then 5 else 4) := by
  cases secure with
  | false => simp [Handler.findFirstOf, httpScheme, List.findIdx?_cons]
  | true => simp [Handler.findFirstOf, httpScheme, List.findIdx?_cons]

theorem construct_eq (secure : Bool) (t : Text) (actions : ActionSequence) :
    Handler.construct (httpScheme secure ++ t) actions =
      .ok (.initial secure t [] actions) := by
  unfold Handler.construct
  rw [findFirstOf_eq]
  cases secure with
  | false => simp [httpScheme]
  | true => simp [httpScheme]

theorem tokenUrl_eq (secure : Bool) (host : Text) (actions : ActionSequence) (random : Nat) :
    "https://".toList.isPrefixOf
      ((Handler.initial secure host [] actions).tokenUrl host random) = secure := by
  cases secure with
  | false => simp [Handler.tokenUrl, Handler.initial, List.isPrefixOf]
  | true => simp [Handler.tokenUrl, Handler.initial, List.isPrefixOf]

theorem websocketUri_initial (secure : Bool) (host token : Text) (actions : ActionSequence) :
    (Handler.initial secure host token actions).websocketUri =
      websocketScheme secure ++ ("://".toList ++ (host ++ (socketDirectory ++ token))) := by
  have huri : (Handler.initial secure host token actions).websocketUri =
      (if secure then "wss://".toList else "ws://".toList) ++ host ++ socketDirectory ++
        token := rfl
  have hscheme : (if secure then "wss://".toList else "ws://".toList) =
      websocketScheme secure ++ "://".toList := by
    cases secure with
    | false => simp [websocketScheme]
    | true => simp [websocketScheme]
  rw [huri, hscheme]
  simp only [List.append_assoc]

theorem websocketUri_eq (l : Location) {token : Text} (htoken : '#' ∉ token)
    (actions : ActionSequence) :
    (Handler.initial l.secure l.trimmedRest token actions).websocketUri =
      (l.socket token htoken).websocket := by
  have hsocket : (l.socket token htoken).websocket =
      websocketScheme l.secure ++ ("://".toList ++ (l.host.text ++ (Port.written l.port ++
        (l.path.trimmedText ++ (socketDirectory ++ token))))) := rfl
  rw [websocketUri_initial, hsocket, trimmedRest]
  simp only [List.append_assoc]

theorem nul_not_mem_websocketUri {l : Location} (hnul : nul ∉ l.http) {token : Text}
    (htoken : nul ∉ token) (actions : ActionSequence) :
    nul ∉ (Handler.initial l.secure l.trimmedRest token actions).websocketUri := by
  have hscheme : nul ∉ websocketScheme l.secure := by
    cases l.secure with
    | false => decide +kernel
    | true => decide +kernel
  have hrest : nul ∉ l.trimmedRest := by
    intro hin
    apply hnul
    rw [l.http_eq]
    exact List.mem_append_left _ (List.mem_append_right _ hin)
  rw [websocketUri_initial]
  simp only [List.mem_append, not_or]
  exact ⟨hscheme, by decide +kernel, hrest, nul_not_mem_socketDirectory, htoken⟩

end Location

/-! ### Agreement -/

section Agreement

variable [CDouble] [BoostRegex]

omit [CDouble] in
/-- The address of the websocket is read back as it was put together. -/
theorem construct_websocketUri {l : Location} (hrange : l.PortInRange) (hnul : nul ∉ l.http)
    {token : Text} (hfragment : '#' ∉ token) (htoken : nul ∉ token) (actions : ActionSequence) :
    Uri.construct (Handler.initial l.secure l.trimmedRest token actions).websocketUri =
      .ok (l.socket token hfragment).uri := by
  have hcut : cString (Handler.initial l.secure l.trimmedRest token actions).websocketUri =
      (l.socket token hfragment).websocket := by
    rw [Uri.cString_eq_self (Location.nul_not_mem_websocketUri hnul htoken actions),
      l.websocketUri_eq hfragment actions]
  exact Uri.construct_ok_iff.mpr ⟨_, hcut, hrange, rfl⟩

/-- **The two addresses agree.**  Of the argument that is the text of a location, `main`
    takes the scheme for what it is; the constructor keeps all behind it but one slash at the
    end, and sees the same scheme, as does the token request; and `websocketpp::uri` reads
    the address of the websocket back as that scheme, the host and port of the argument,
    and its path with that of the websocket behind it. -/
theorem addresses_agree {p : Client} {l : Location} (huri : p.uri = l.http)
    (hrange : l.PortInRange) (hnul : nul ∉ p.uri) :
    p.IsHttp ∧ p.isTls = l.secure ∧
      ∃ h, Handler.construct p.strippedUri (.construct p.content) = .ok h ∧
        p.uri = (if l.secure then "https://".toList else "http://".toList) ++ h.host ++
          l.path.trailingSlash ∧
        h.isSecure = l.secure ∧
        (∀ random, "https://".toList.isPrefixOf (h.tokenUrl h.host random) = l.secure) ∧
        ∀ token, '#' ∉ token → nul ∉ token →
          Uri.construct ({ h with websocketToken := token }).websocketUri =
            .ok ⟨h.isSecure, l.host.address, l.portNumber,
              l.path.trimmedText ++ ("/socket.io/1/websocket/".toList ++ token)⟩ := by
  refine ⟨Location.isHttp huri, Location.isTls_eq huri,
    .initial l.secure l.trimmedRest [] (.construct p.content), ?_, ?_, rfl, ?_, ?_⟩
  · rw [Location.strippedUri_eq huri]
    exact Location.construct_eq l.secure l.trimmedRest _
  · rw [huri]
    exact l.http_eq
  · intro random
    exact Location.tokenUrl_eq l.secure l.trimmedRest _ random
  · intro token hfragment htoken
    rw [huri] at hnul
    have hparsed := construct_websocketUri hrange hnul hfragment htoken (.construct p.content)
    have hresource : (l.socket token hfragment).path.text ≠ [] := by
      intro hnil
      have hdirectory := (List.append_eq_nil_iff.mp (List.append_eq_nil_iff.mp hnil).2).1
      have hhead := socketDirectory_head
      rw [hdirectory] at hhead
      cases hhead
    rw [Location.uri, if_neg hresource] at hparsed
    exact hparsed

/-- The token request for the server at `l`. -/
def Location.tokenRequest (l : Location) (random : Nat) : Text :=
  Location.httpScheme l.secure ++ l.trimmedRest ++ "/socket.io/1/?t=".toList ++
    Nat.toDigits 10 random

/-- The token in the body of an answer. -/
def tokenOf (body : Text) : Text := body.takeWhile (fun c => c ≠ ':')

omit [CDouble] [BoostRegex] in
theorem loadToken_eq {p : Client} {l : Location} {body : Text} {actions : ActionSequence}
    (hanswer : p.http (l.tokenRequest p.random) = .received 200 body) :
    (Handler.initial l.secure l.trimmedRest [] actions).loadToken p.http p.random =
      .ok (.initial l.secure l.trimmedRest (tokenOf body) actions) := by
  have hurl : (Handler.initial l.secure l.trimmedRest [] actions).tokenUrl l.trimmedRest
      p.random = l.tokenRequest p.random := rfl
  have htoken : (Handler.initial l.secure l.trimmedRest [] actions).getToken p.http p.random
      l.trimmedRest = .ok (tokenOf body) := by
    rw [Handler.getToken, hurl, hanswer]
    rfl
  have hhost : (Handler.initial l.secure l.trimmedRest [] actions).host = l.trimmedRest := rfl
  rw [Handler.loadToken, hhost, htoken]
  rfl

/-- **Where a process connects to.**  Given the text of a location, and a token for it, the
    client asks the resolver for the host and the port of this location, on an endpoint of its
    scheme; nothing between the command line and the resolver refuses the address.  The
    connection it goes on with has the script, and an address with the path of the websocket
    behind that of the location. -/
theorem start_of_location {p : Client} {l : Location} (huri : p.uri = l.http)
    (hrange : l.PortInRange) (hnul : nul ∉ p.uri) {body : Text}
    (hanswer : p.http (l.tokenRequest p.random) = .received 200 body)
    (hfragment : '#' ∉ tokenOf body) (htoken : nul ∉ tokenOf body) :
    p.start = match p.resolve (l.socket (tokenOf body) hfragment).uri with
      | some what => .error (.runtimeError what)
      | none => .ok (.initial (.initial l.secure l.trimmedRest (tokenOf body)
          (.construct p.content)) p.serverKey) := by
  rw [huri] at hnul
  have hconnection : getConnection p.isTls (Handler.initial l.secure l.trimmedRest (tokenOf body)
      (.construct p.content)).websocketUri = .ok (l.socket (tokenOf body) hfragment).uri := by
    rw [Location.isTls_eq huri]
    exact getConnection_of_construct
      (construct_websocketUri hrange hnul hfragment htoken (.construct p.content)) rfl
  rw [Client.start, Location.strippedUri_eq huri, Location.construct_eq]
  cases hresolve : p.resolve (l.socket (tokenOf body) hfragment).uri with
  | none => simp only [loadToken_eq hanswer, hconnection, hresolve]
  | some what => simp only [loadToken_eq hanswer, hconnection, hresolve]

end Agreement

section Bracketed

open Plain

/-- `https://[::1]:8443/app/`. -/
def bracketedLocation : Location where
  secure := true
  host := .literal [':', ':', '1'] (by simp) (by simp [Uri.isLiteralChar])
  port := some ⟨['8', '4', '4', '3'], by simp, by simp, by simp⟩
  path := ⟨['/', 'a', 'p', 'p', '/'], Or.inr rfl, by simp⟩

def bracketedClient : Client :=
  { Client.processOf [] [] with uri := bracketedLocation.http }

theorem addresses_agree_bracketed :
    bracketedClient.isTls = true ∧
      ∃ h, Handler.construct bracketedClient.strippedUri (.construct bracketedClient.content) =
          .ok h ∧
        Uri.construct ({ h with websocketToken := "15".toList }).websocketUri =
          .ok ⟨true, "::1".toList, 8443, "/app/socket.io/1/websocket/15".toList⟩ := by
  have hrange : bracketedLocation.PortInRange := by
    intro p hp
    cases hp
    exact ⟨by decide +kernel, by decide +kernel⟩
  obtain ⟨-, htls, h, hconstruct, -, hsecure, -, huri⟩ :=
    addresses_agree (p := bracketedClient) (l := bracketedLocation) rfl hrange (by decide +kernel)
  refine ⟨htls, h, hconstruct, ?_⟩
  rw [huri "15".toList (by decide +kernel) (by decide +kernel), hsecure]
  have hparts : (⟨bracketedLocation.secure, bracketedLocation.host.address,
      bracketedLocation.portNumber, bracketedLocation.path.trimmedText ++
        ("/socket.io/1/websocket/".toList ++ "15".toList)⟩ : Uri) =
      ⟨true, "::1".toList, 8443, "/app/socket.io/1/websocket/15".toList⟩ := by
    decide +kernel
  rw [hparts]

/-- With the token `15` it starts when the resolver finds the server. -/
theorem start_of_location_bracketed :
    let p := { bracketedClient with http := fun _ => .received 200 "15:15:25:websocket".toList }
    p.start = .ok (.initial (.initial true "[::1]:8443/app".toList "15".toList
      (.construct [])) "key".toList) := by
  have hrange : bracketedLocation.PortInRange := by
    intro p hp
    cases hp
    exact ⟨by decide +kernel, by decide +kernel⟩
  have hstart := @start_of_location _ _
    { bracketedClient with http := fun _ => .received 200 "15:15:25:websocket".toList }
    bracketedLocation rfl hrange (by decide +kernel) "15:15:25:websocket".toList rfl
    (by decide +kernel) (by decide +kernel)
  exact hstart

end Bracketed

end SocketIOStress
