import SocketIOStress.Basic
import SocketIOStress.Lib.Marks

/-!
# boost::format

`boost::format` is not part of the repository.  `BoostFormat` takes it as a
parameter with the documented facts the client relies on: a format string made
of plain text, `%%` and `%1%` renders piece by piece; a `%` that starts no
directive makes the constructor throw; and the mask set by `exceptions` decides
whether a wrong number of arguments is an error.  `formatAction` is what
`on_message` does with an action.
-/

namespace SocketIOStress

/-! ### The part of the format language the documentation fixes -/

inductive Piece where
  | text (c : Char) (notPercent : c ≠ '%')
  | percent
  | argument

namespace Piece

def write : Piece → Text
  | .text c _ => [c]
  | .percent => ['%', '%']
  | .argument => ['%', '1', '%']

/-- What the piece prints for the argument `s`. -/
def render (s : Text) : Piece → Text
  | .text c _ => [c]
  | .percent => ['%']
  | .argument => s

end Piece

def writePieces (pieces : List Piece) : Text := pieces.flatMap Piece.write

def renderPieces (s : Text) (pieces : List Piece) : Text := pieces.flatMap (Piece.render s)

/-! ### The parameter -/

/-- A set of `boost::io` error bits. -/
def ErrorBits : Type := FormatError → Bool

namespace ErrorBits

def all : ErrorBits := fun _ => true
def bit (e : FormatError) : ErrorBits := fun e' => decide (e' = e)
def or (a b : ErrorBits) : ErrorBits := fun e => a e || b e
def xor (a b : ErrorBits) : ErrorBits := fun e => Bool.xor (a e) (b e)

end ErrorBits

/-- `boost::format` as documented.  `construct` parses with all errors enabled,
    `feed` is `operator%`, and `directive t` says whether `%` before `t` starts a
    well-formed directive. -/
class BoostFormat where
  Fmt : Type
  construct : Text → Except FormatError Fmt
  exceptions : Fmt → ErrorBits → Fmt
  feed : Fmt → Text → Except FormatError Fmt
  str : Fmt → Except FormatError Text
  directive : Text → Bool
  renders : ∀ pieces : List Piece, ∃ f, construct (writePieces pieces) = .ok f ∧
    ∀ (mask : ErrorBits) (s : Text), mask .tooManyArgs = false → mask .tooFewArgs = false →
      ∃ g, feed (exceptions f mask) s = .ok g ∧ str g = .ok (renderPieces s pieces)
  stray : ∀ (pieces : List Piece) (t : Text), directive t = false →
    construct (writePieces pieces ++ '%' :: t) = .error .badFormatString
  directive_nil : directive [] = false

/-- `all_error_bits ^ ( too_many_args_bit | too_few_args_bit )`. -/
def actionMask : ErrorBits :=
  ErrorBits.xor .all (ErrorBits.or (.bit .tooManyArgs) (.bit .tooFewArgs))

/-- The `formatted_message` of `on_message`. -/
def formattedMessage [BoostFormat] (action sessionid : Text) :
    Except Failure BoostFormat.Fmt :=
  match BoostFormat.construct action with
  | .error e => .error (.formatError e)
  | .ok formatted =>
      match BoostFormat.feed (BoostFormat.exceptions formatted actionMask) sessionid with
      | .error e => .error (.formatError e)
      | .ok formatted => .ok formatted

/-- `formatted_message.str()`. -/
def messageText [BoostFormat] (formatted : BoostFormat.Fmt) : Except Failure Text :=
  match BoostFormat.str formatted with
  | .error e => .error (.formatError e)
  | .ok t => .ok t

/-- The text an action is sent as. -/
def formatAction [BoostFormat] (action sessionid : Text) : Except Failure Text :=
  match formattedMessage action sessionid with
  | .error e => .error e
  | .ok formatted => messageText formatted

theorem formatAction_pieces [BoostFormat] (pieces : List Piece) (s : Text) :
    formatAction (writePieces pieces) s = .ok (renderPieces s pieces) := by
  obtain ⟨f, hconstruct, hrender⟩ := BoostFormat.renders pieces
  obtain ⟨g, hfeed, hstr⟩ := hrender actionMask s rfl rfl
  simp only [formatAction, formattedMessage, messageText, hconstruct, hfeed, hstr]

theorem formatAction_stray [BoostFormat] (pieces : List Piece) {t : Text}
    (h : BoostFormat.directive t = false) (s : Text) :
    formatAction (writePieces pieces ++ '%' :: t) s = .error (.formatError .badFormatString) := by
  simp only [formatAction, formattedMessage, BoostFormat.stray pieces t h]

/-! ### An instance

It knows the two directives the documentation fixes and no other. -/

def parsePieces : Text → Except FormatError (List Piece)
  | [] => .ok []
  | c :: t =>
      if h : c = '%' then
        match t with
        | '%' :: t => (parsePieces t).map (Piece.percent :: ·)
        | '1' :: '%' :: t => (parsePieces t).map (Piece.argument :: ·)
        | _ => .error .badFormatString
      else (parsePieces t).map (Piece.text c h :: ·)

/-- `%` before this text starts `%%` or `%1%`. -/
def startsPlainDirective : Text → Bool
  | '%' :: _ => true
  | '1' :: '%' :: _ => true
  | _ => false

theorem parsePieces_text {c : Char} (hc : c ≠ '%') (t : Text) :
    parsePieces (c :: t) = (parsePieces t).map (Piece.text c hc :: ·) := by
  conv =>
    lhs
    unfold parsePieces
  exact dif_neg hc

theorem parsePieces_append (pieces : List Piece) (t : Text) :
    parsePieces (writePieces pieces ++ t) = (parsePieces t).map (pieces ++ ·) := by
  induction pieces with
  | nil =>
    cases ht : parsePieces t <;> simp [writePieces, ht, Except.map]
  | cons piece pieces ih =>
    have hwrite : writePieces (piece :: pieces) ++ t =
        piece.write ++ (writePieces pieces ++ t) := by
      simp [writePieces]
    rw [hwrite]
    cases piece with
    | text c hc =>
      simp only [Piece.write, List.cons_append, List.nil_append]
      rw [parsePieces_text hc, ih]
      cases parsePieces t <;> rfl
    | percent =>
      simp only [Piece.write, List.cons_append, List.nil_append, parsePieces, dif_pos, ih]
      cases parsePieces t <;> rfl
    | argument =>
      simp only [Piece.write, List.cons_append, List.nil_append, parsePieces, dif_pos, ih]
      cases parsePieces t <;> rfl

theorem parsePieces_write (pieces : List Piece) :
    parsePieces (writePieces pieces) = .ok pieces := by
  have h := parsePieces_append pieces []
  rw [List.append_nil] at h
  rw [h]
  simp [parsePieces, Except.map]

theorem parsePieces_stray {t : Text} (h : startsPlainDirective t = false) :
    parsePieces ('%' :: t) = .error .badFormatString := by
  unfold parsePieces
  rw [dif_pos rfl]
  split
  · cases h
  · cases h
  · rfl

structure PlainFormat where
  pieces : List Piece
  mask : ErrorBits
  args : List Text

namespace PlainFormat

def takesArgument (f : PlainFormat) : Bool :=
  f.pieces.any (fun piece => match piece with
    | .argument => true
    | _ => false)

def feed (f : PlainFormat) (s : Text) : Except FormatError PlainFormat :=
  if f.takesArgument ∧ f.args = [] then .ok { f with args := [s] }
  else if f.mask .tooManyArgs then .error .tooManyArgs
  else .ok f

def str (f : PlainFormat) : Except FormatError Text :=
  if f.takesArgument ∧ f.args = [] ∧ f.mask .tooFewArgs then .error .tooFewArgs
  else .ok (renderPieces (f.args.headD []) f.pieces)

end PlainFormat

theorem renderPieces_of_not_takesArgument {pieces : List Piece} {mask : ErrorBits}
    (h : PlainFormat.takesArgument ⟨pieces, mask, []⟩ = false) (s s' : Text) :
    renderPieces s pieces = renderPieces s' pieces := by
  simp only [PlainFormat.takesArgument, List.any_eq_false] at h
  simp only [renderPieces]
  refine congrArg List.flatten (List.map_congr_left ?_)
  intro piece hpiece
  have hp := h piece hpiece
  cases piece with
  | text c hc => rfl
  | percent => rfl
  | argument => exact absurd rfl hp

@[reducible] def plainFormat : BoostFormat where
  Fmt := PlainFormat
  construct t := (parsePieces t).map (fun pieces => ⟨pieces, .all, []⟩)
  exceptions f mask := { f with mask := mask }
  feed := PlainFormat.feed
  str := PlainFormat.str
  directive := startsPlainDirective
  renders pieces := by
    refine ⟨⟨pieces, .all, []⟩, by rw [parsePieces_write]; rfl, ?_⟩
    intro mask s hmany hfew
    by_cases htakes : PlainFormat.takesArgument ⟨pieces, mask, []⟩
    · refine ⟨⟨pieces, mask, [s]⟩, if_pos ⟨htakes, rfl⟩, ?_⟩
      rw [PlainFormat.str, if_neg (fun h => by cases h.2.1)]
      rfl
    · refine ⟨⟨pieces, mask, []⟩, ?_, ?_⟩
      · rw [PlainFormat.feed, if_neg (fun h => htakes h.1), if_neg (by simp [hmany])]
      · rw [PlainFormat.str, if_neg (fun h => htakes h.1)]
        exact congrArg Except.ok
          (renderPieces_of_not_takesArgument (by simpa using htakes) [] s)
  stray pieces t h := by
    rw [parsePieces_append, parsePieces_stray h]
    rfl
  directive_nil := rfl

/-! ### Clean actions -/

/-- The mark that stands for the session id. -/
def mark : Text := ['%', '1', '%']

theorem mark_ne_nil : mark ≠ [] := by decide

/-- The action with the session id in the place of every mark. -/
def substitute (sessionid action : Text) : Text := Marks.replaceAll mark sessionid action

/-- Every `%` of the action belongs to an occurrence of the mark. -/
def Clean (action : Text) : Prop := '%' ∉ Marks.outside mark action

instance (action : Text) : Decidable (Clean action) := inferInstanceAs (Decidable (¬ _))

theorem clean_of_not_mem {action : Text} (h : '%' ∉ action) : Clean action := by
  rw [Clean, mark, Marks.outside_of_not_mem h]
  exact h

theorem substitute_of_not_mem {action : Text} (h : '%' ∉ action) (s : Text) :
    substitute s action = action :=
  Marks.replaceAll_of_not_mem h

/-- Cleaning a text up to its segments: no piece of it prints a `%`. -/
def ofSegments : (segments : List (Option Char)) → some '%' ∉ segments → List Piece
  | [], _ => []
  | none :: segments, h => .argument :: ofSegments segments (List.not_mem_of_not_mem_cons h)
  | some c :: segments, h =>
      .text c (fun hc => h (by rw [hc]; exact List.mem_cons_self)) ::
        ofSegments segments (List.not_mem_of_not_mem_cons h)

theorem writePieces_ofSegments (segments : List (Option Char)) (h : some '%' ∉ segments) :
    writePieces (ofSegments segments h) = segments.flatMap (Marks.fill mark) := by
  induction segments with
  | nil => rfl
  | cons segment segments ih =>
    have hrest := ih (List.not_mem_of_not_mem_cons h)
    simp only [writePieces] at hrest
    cases segment <;>
      simp only [writePieces, ofSegments, List.flatMap_cons, hrest, Piece.write, Marks.fill, mark]

theorem renderPieces_ofSegments (s : Text) (segments : List (Option Char))
    (h : some '%' ∉ segments) :
    renderPieces s (ofSegments segments h) = segments.flatMap (Marks.fill s) := by
  induction segments with
  | nil => rfl
  | cons segment segments ih =>
    have hrest := ih (List.not_mem_of_not_mem_cons h)
    simp only [renderPieces] at hrest
    cases segment <;>
      simp only [renderPieces, ofSegments, List.flatMap_cons, hrest, Piece.render, Marks.fill]

/-- A clean action is sent with the session id substituted and nothing else. -/
theorem formatAction_of_clean [BoostFormat] {action : Text} (h : Clean action) (s : Text) :
    formatAction action s = .ok (substitute s action) := by
  have hsegments : some '%' ∉ Marks.segments mark action :=
    fun hmem => h (Marks.some_mem_segments_iff.mp hmem)
  have hwrite : writePieces (ofSegments _ hsegments) = action := by
    rw [writePieces_ofSegments]
    exact Marks.replaceAll_self mark mark_ne_nil action
  have hformat := formatAction_pieces (ofSegments _ hsegments) s
  rw [hwrite, renderPieces_ofSegments] at hformat
  exact hformat

theorem formatAction_of_not_mem [BoostFormat] {action : Text} (h : '%' ∉ action) (s : Text) :
    formatAction action s = .ok action := by
  rw [formatAction_of_clean (clean_of_not_mem h), substitute_of_not_mem h]

end SocketIOStress
