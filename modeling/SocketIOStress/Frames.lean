import SocketIOStress.Session

/-!
# What an action is sent as

`on_open` sends an action as it is; `on_message` sends what `boost::format` makes
of it.  Of the second, clean actions come out as written and no others: a `%`
outside the marks is either the start of a `%%`, which loses one of the two, or
starts no directive, which raises.  Only the id `1` can hide such a loss, where
the marks the formatter does not see are short of as many `%`.
-/

namespace SocketIOStress

open SocketIOStress.Json

/-! ### What rendering loses

Counting chars of any kind, rendering and substituting both give the action as
written, with the ids put in and, by pieces, one `%` of each `%%` left out. -/

namespace Piece

def IsPercent : Piece → Bool
  | .percent => true
  | _ => false

def IsArgument : Piece → Bool
  | .argument => true
  | _ => false

end Piece

def percents (pieces : List Piece) : Nat := pieces.countP Piece.IsPercent

def arguments (pieces : List Piece) : Nat := pieces.countP Piece.IsArgument

@[simp] theorem percents_cons (piece : Piece) (pieces : List Piece) :
    percents (piece :: pieces) = percents pieces + if piece.IsPercent then 1 else 0 :=
  List.countP_cons

@[simp] theorem arguments_cons (piece : Piece) (pieces : List Piece) :
    arguments (piece :: pieces) = arguments pieces + if piece.IsArgument then 1 else 0 :=
  List.countP_cons

theorem writePieces_cons (piece : Piece) (pieces : List Piece) :
    writePieces (piece :: pieces) = piece.write ++ writePieces pieces := rfl

theorem renderPieces_cons (s : Text) (piece : Piece) (pieces : List Piece) :
    renderPieces s (piece :: pieces) = piece.render s ++ renderPieces s pieces := rfl

theorem countP_renderPieces (p : Char → Bool) (s : Text) (pieces : List Piece) :
    (renderPieces s pieces).countP p + percents pieces * ['%'].countP p +
        arguments pieces * mark.countP p =
      (writePieces pieces).countP p + arguments pieces * s.countP p := by
  induction pieces with
  | nil => simp [renderPieces, writePieces, percents, arguments]
  | cons piece pieces ih =>
    rw [renderPieces_cons, writePieces_cons, List.countP_append, List.countP_append]
    cases piece with
    | text c hc =>
      simp only [percents_cons, arguments_cons, Piece.IsPercent, Piece.IsArgument, Piece.render,
        Piece.write, Bool.false_eq_true, if_false, Nat.add_zero]
      omega
    | percent =>
      have htwo : ['%', '%'].countP p = ['%'].countP p + ['%'].countP p :=
        @List.countP_append _ p ['%'] ['%']
      simp only [percents_cons, arguments_cons, Piece.IsPercent, Piece.IsArgument, Piece.render,
        Piece.write, Bool.false_eq_true, if_false, if_true, Nat.add_zero, Nat.succ_mul, htwo]
      omega
    | argument =>
      have hmark : ['%', '1', '%'].countP p = mark.countP p := rfl
      simp only [percents_cons, arguments_cons, Piece.IsPercent, Piece.IsArgument, Piece.render,
        Piece.write, Bool.false_eq_true, if_false, if_true, Nat.add_zero, Nat.succ_mul, hmark]
      omega

/-- A `%%` and a `%1%` have two `%`, any other piece has none. -/
theorem countP_percent_writePieces (pieces : List Piece) :
    (writePieces pieces).countP (· == '%') = 2 * percents pieces + 2 * arguments pieces := by
  induction pieces with
  | nil => rfl
  | cons piece pieces ih =>
    rw [writePieces_cons, List.countP_append, ih, percents_cons, arguments_cons]
    cases piece with
    | text c hc =>
      have hnone : [c].countP (· == '%') = 0 := by simp [hc]
      simp [Piece.write, Piece.IsPercent, Piece.IsArgument, hnone]
    | percent =>
      simp only [Piece.write, Piece.IsPercent, Piece.IsArgument]
      simp
      omega
    | argument =>
      simp only [Piece.write, Piece.IsPercent, Piece.IsArgument]
      simp
      omega

/-- Each `%1%` the formatter reads costs the scan for marks one mark at least. -/
theorem arguments_le_occurrences (pieces : List Piece) :
    arguments pieces ≤ Marks.occurrences mark (writePieces pieces) := by
  induction pieces with
  | nil => exact Nat.zero_le _
  | cons piece pieces ih =>
    rw [writePieces_cons, arguments_cons]
    cases piece with
    | argument =>
      have hmark := Marks.occurrences_mark_append mark_ne_nil (writePieces pieces)
      exact Nat.le_trans (Nat.succ_le_succ ih) (Nat.le_of_eq hmark.symm)
    | _ => exact Nat.le_trans ih (Marks.occurrences_le_append mark _ _)

/-- What is left of the `%` outside the marks. -/
theorem countP_percent_outside {pieces : List Piece} {j : Nat}
    (hj : Marks.occurrences mark (writePieces pieces) = arguments pieces + j) :
    (Marks.outside mark (writePieces pieces)).countP (· == '%') + 2 * j = 2 * percents pieces := by
  have hwrite := Marks.countP_eq_outside (· == '%') mark_ne_nil (writePieces pieces)
  have htwo : mark.countP (· == '%') = 2 := rfl
  rw [countP_percent_writePieces, hj, htwo] at hwrite
  omega

/-! ### Actions that render as written -/

/-- Read by pieces, the action prints what substituting in it gives. -/
def RendersAsWritten (s action : Text) : Prop :=
  ∃ pieces, action = writePieces pieces ∧ renderPieces s pieces = substitute s action

/-- Then what the `%%` lose is what the ids in the other `j` marks are short of. -/
theorem countP_of_rendersAsWritten {s : Text} {pieces : List Piece} {j : Nat}
    (hrender : renderPieces s pieces = substitute s (writePieces pieces))
    (hj : Marks.occurrences mark (writePieces pieces) = arguments pieces + j) (p : Char → Bool) :
    percents pieces * ['%'].countP p + j * s.countP p = j * mark.countP p := by
  have hcount := countP_renderPieces p s pieces
  have hsub := Marks.countP_replaceAll p mark s (writePieces pieces)
  have hwrite := Marks.countP_eq_outside p mark_ne_nil (writePieces pieces)
  rw [hrender, substitute] at hcount
  rw [hj, Nat.add_mul] at hsub hwrite
  omega

theorem eq_one_of_countP {s : Text} (hlength : s.countP (fun _ => true) = 1)
    (hone : s.countP (· == '1') = 1) : s = ['1'] := by
  rw [List.countP_true] at hlength
  obtain ⟨c, rfl⟩ := List.length_eq_one_iff.mp hlength
  by_cases hc : c = '1'
  · rw [hc]
  · simp [hc] at hone

/-- **Only clean actions render as written**, but for the id `1`. -/
theorem clean_of_rendersAsWritten {s action : Text} (hs : s ≠ ['1'])
    (h : RendersAsWritten s action) : Clean action := by
  obtain ⟨pieces, rfl, hrender⟩ := h
  obtain ⟨j, hj⟩ := Nat.exists_eq_add_of_le (arguments_le_occurrences pieces)
  -- the same balance for all chars, for the `%` and for the `1`
  have hlength : percents pieces * 1 + j * s.countP (fun _ => true) = j * 3 :=
    countP_of_rendersAsWritten hrender hj (fun _ => true)
  have hpercent : percents pieces * 1 + j * s.countP (· == '%') = j * 2 :=
    countP_of_rendersAsWritten hrender hj (· == '%')
  have hone : percents pieces * 0 + j * s.countP (· == '1') = j * 1 :=
    countP_of_rendersAsWritten hrender hj (· == '1')
  have houtside := countP_percent_outside hj
  suffices hnone : (Marks.outside mark (writePieces pieces)).countP (· == '%') = 0 by
    intro hmem
    exact List.countP_eq_zero.mp hnone '%' hmem rfl
  rcases Nat.eq_zero_or_pos j with rfl | hpos
  · omega
  · have hle : j * s.countP (· == '%') ≤ j * 1 := by omega
    rcases Nat.le_one_iff_eq_zero_or_eq_one.mp (Nat.le_of_mul_le_mul_left hle hpos) with hc | hc
    · -- without a `%` in it the id is `1`
      rw [hc] at hpercent
      have hlength' : j * s.countP (fun _ => true) = j * 1 := by omega
      have hone' : j * s.countP (· == '1') = j * 1 := by omega
      exact absurd (eq_one_of_countP (Nat.eq_of_mul_eq_mul_left hpos hlength')
        (Nat.eq_of_mul_eq_mul_left hpos hone')) hs
    · rw [hc] at hpercent
      omega

/-- A text is written by pieces, or is up to a `%` that starts neither `%%` nor `%1%`. -/
theorem pieces_or_stray (action : Text) :
    (∃ pieces, action = writePieces pieces) ∨
      ∃ pieces t, action = writePieces pieces ++ '%' :: t ∧ startsPlainDirective t = false := by
  have hcons : ∀ (piece : Piece) (t : Text),
      ((∃ pieces, t = writePieces pieces) ∨
        ∃ pieces u, t = writePieces pieces ++ '%' :: u ∧ startsPlainDirective u = false) →
      ((∃ pieces, piece.write ++ t = writePieces pieces) ∨
        ∃ pieces u, piece.write ++ t = writePieces pieces ++ '%' :: u ∧
          startsPlainDirective u = false) := by
    rintro piece t (⟨pieces, rfl⟩ | ⟨pieces, u, rfl, hu⟩)
    · exact Or.inl ⟨piece :: pieces, rfl⟩
    · exact Or.inr ⟨piece :: pieces, u, (List.append_assoc _ _ _).symm, hu⟩
  fun_induction parsePieces action with
  | case1 => exact Or.inl ⟨[], rfl⟩
  | case2 t ih => exact hcons .percent t ih
  | case3 t ih => exact hcons .argument t ih
  | case4 t hpercent hargument =>
    refine Or.inr ⟨[], t, rfl, ?_⟩
    unfold startsPlainDirective
    split
    · rename_i u
      exact absurd rfl (hpercent u)
    · rename_i u
      exact absurd rfl (hargument u)
    · rfl
  | case5 c t hc ih => exact hcons (.text c hc) t ih

/-- A formatter for which `%%` and `%1%` are the only directives of the action. -/
def KnownDirectives (format : BoostFormat) (action : Text) : Prop :=
  ∀ pieces t, action = writePieces pieces ++ '%' :: t → format.directive t = true →
    startsPlainDirective t = true

/-- What the formatter makes of an action in which it knows all directives. -/
theorem rendersAsWritten_of_formatAction [format : BoostFormat] {action s : Text}
    (hknown : KnownDirectives format action)
    (hformat : formatAction action s = .ok (substitute s action)) : RendersAsWritten s action := by
  rcases pieces_or_stray action with ⟨pieces, rfl⟩ | ⟨pieces, t, rfl, ht⟩
  · rw [formatAction_pieces, Except.ok.injEq] at hformat
    exact ⟨pieces, rfl, hformat⟩
  · have hdirective : format.directive t = false := by
      cases hd : format.directive t with
      | false => rfl
      | true =>
        rw [hknown pieces t rfl hd] at ht
        cases ht
    rw [formatAction_stray pieces hdirective] at hformat
    cases hformat

theorem formatAction_of_rendersAsWritten [BoostFormat] {action s : Text}
    (h : RendersAsWritten s action) : formatAction action s = .ok (substitute s action) := by
  obtain ⟨pieces, rfl, hrender⟩ := h
  rw [formatAction_pieces, hrender]

/-! ### Both paths -/

/-- The action is clean; or the id is `1` and happens to make up for the losses, as in
    `%%1%%`. -/
def SafeWith (s action : Text) : Prop := Clean action ∨ s = ['1'] ∧ RendersAsWritten s action

namespace Handler

section Paths

variable [CDouble]

/-- From every state with the action at the cursor, every `5::` message that leaves the
    session with this id is answered by the action with the id substituted. -/
def SentByMessage [BoostFormat] (sessionid action : Text) : Prop :=
  ∀ (h : Handler) (payload : Text) (actions : ActionSequence),
    h.heartbeat.isSome → IsEvent payload → h.actions.nextAction = .ok (action, actions) →
      captureSessionId h.sessionid payload = .ok sessionid →
        ∃ h', h.onMessage payload =
          .ok (h', [.send (.action h.actions.lastIndex) (substitute sessionid action)])

/-- With the action at the cursor, `on_open` sends the same. -/
def SentByOpen (action : Text) : Prop :=
  ∀ (h : Handler) (sessionid : Text) (actions : ActionSequence),
    h.actions.nextAction = .ok (action, actions) →
      ∃ h', h.onOpen = .ok (h', [.send (.action h.actions.lastIndex) (substitute sessionid action)])

theorem sentByOpen_of_no_mark {action : Text} (hmark : ¬ mark <:+: action) : SentByOpen action := by
  intro h sessionid actions hnext
  refine ⟨_, onOpen_ok_iff.mpr ⟨action, actions, hnext, rfl, ?_⟩⟩
  rw [substitute, Marks.replaceAll_of_not_infix hmark]

/-- What `on_message` sends is the formatted action. -/
theorem formatAction_of_sentByMessage [BoostFormat] {action s : Text} (hstop : action ≠ stop)
    (hsent : SentByMessage s action) : formatAction action s = .ok (substitute s action) := by
  -- a handler with this id before this action, and a message without an id
  let h : Handler := ⟨s, false, [], [], .ofScript [action] 0, some .idle⟩
  have hnext : h.actions.nextAction = .ok (action, .ofScript [action] 1) :=
    ActionSequence.nextAction_ofScript_of_lt rfl
  have hcapture : captureSessionId s ['5', ':', ':', ':'] = .ok s := by
    by_cases hs : s = []
    · rw [hs]
      rfl
    · exact if_neg hs
  obtain ⟨h', hmessage⟩ := hsent h ['5', ':', ':', ':'] _ rfl (by decide) hnext hcapture
  rw [onMessage_eq (t := .idle) rfl, if_pos (by decide), onEvent_ok_iff] at hmessage
  obtain ⟨sid, a, actions, call, hcapture', hnext', hanswer, -, hcall⟩ := hmessage
  have hsid : s = sid := Except.ok.inj (hcapture.symm.trans hcapture')
  have haction : action = a := congrArg Prod.fst (Except.ok.inj (hnext.symm.trans hnext'))
  subst hsid
  subst haction
  rcases answerWith_ok_cases hanswer with ⟨hend, -⟩ | ⟨-, t, hformat, rfl⟩
  · exact absurd hend hstop
  · have ht := List.singleton_inj.mp hcall
    rw [Call.send.injEq] at ht
    rw [hformat, ht.2]

theorem sentByMessage_of_formatAction [BoostFormat] {action s : Text} (hstop : action ≠ stop)
    (hformat : formatAction action s = .ok (substitute s action)) : SentByMessage s action := by
  intro h payload actions harmed hev hnext hcapture
  obtain ⟨t, ht⟩ := Option.isSome_iff_exists.mp harmed
  have hanswer := answerWith_action payload s h.actions.lastIndex hstop
  rw [hformat] at hanswer
  exact ⟨_, step_of_answer ht hev hcapture hnext hanswer⟩

theorem sentByMessage_of_safeWith [BoostFormat] {action s : Text} (hstop : action ≠ stop)
    (h : SafeWith s action) : SentByMessage s action := by
  rcases h with hclean | ⟨-, hrender⟩
  · exact sentByMessage_of_formatAction hstop (formatAction_of_clean hclean s)
  · exact sentByMessage_of_formatAction hstop (formatAction_of_rendersAsWritten hrender)

theorem sentByMessage_iff_safeWith [format : BoostFormat] {action : Text} (hstop : action ≠ stop)
    (hknown : KnownDirectives format action) (s : Text) :
    SentByMessage s action ↔ SafeWith s action := by
  refine ⟨?_, sentByMessage_of_safeWith hstop⟩
  intro hsent
  have hrender := rendersAsWritten_of_formatAction hknown
    (formatAction_of_sentByMessage hstop hsent)
  by_cases hs : s = ['1']
  · exact Or.inr ⟨hs, hrender⟩
  · exact Or.inl (clean_of_rendersAsWritten hs hrender)

theorem sentByMessage_iff_clean [format : BoostFormat] {action : Text} (hstop : action ≠ stop)
    (hknown : KnownDirectives format action) :
    (∀ s, SentByMessage s action) ↔ Clean action := by
  constructor
  · intro hsent
    -- any id but `1` tells
    refine ((sentByMessage_iff_safeWith hstop hknown []).mp (hsent [])).resolve_right ?_
    rintro ⟨hone, -⟩
    cases hone
  · intro hclean s
    exact sentByMessage_of_safeWith hstop (Or.inl hclean)

/-- **Which actions are sent as written.**  By `on_open`, all that have no mark.  By
    `on_message`, for whatever a formatter that keeps the documentation may do with
    further directives, the clean ones, and for each single id but `1` no others; the
    same for each formatter, on the actions that contain none of them. -/
theorem sent_as_written_iff {action : Text} (hstop : action ≠ stop) :
    (¬ mark <:+: action → SentByOpen action) ∧
      ((∀ format : BoostFormat, ∀ s, @SentByMessage _ format s action) ↔ Clean action) ∧
      (∀ s, (∀ format : BoostFormat, @SentByMessage _ format s action) ↔ SafeWith s action) ∧
      ∀ format : BoostFormat, KnownDirectives format action →
        ((∀ s, @SentByMessage _ format s action) ↔ Clean action) ∧
          ∀ s, @SentByMessage _ format s action ↔ SafeWith s action := by
  have hknown : KnownDirectives plainFormat action := fun _ _ _ h => h
  refine ⟨sentByOpen_of_no_mark, ⟨?_, ?_⟩, fun s => ⟨?_, ?_⟩, ?_⟩
  · intro hsent
    exact (@sentByMessage_iff_clean _ plainFormat action hstop hknown).mp (hsent plainFormat)
  · intro hclean format s
    exact sentByMessage_of_safeWith hstop (Or.inl hclean)
  · intro hsent
    exact (@sentByMessage_iff_safeWith _ plainFormat action hstop hknown s).mp (hsent plainFormat)
  · intro hsafe format
    exact sentByMessage_of_safeWith hstop hsafe
  · intro format hknown
    exact ⟨sentByMessage_iff_clean hstop hknown, sentByMessage_iff_safeWith hstop hknown⟩

end Paths

section Percent

open Plain

/-- A mark between two chars, for any id; and a percentage, which only `on_open` sends. -/
theorem sent_as_written_of_mark :
    (∀ format : BoostFormat, ∀ s, @SentByMessage _ format s "a%1%b".toList) ∧
      SentByOpen "100%".toList ∧ ¬ ∀ s, SentByMessage s "100%".toList := by
  have hmark : "a%1%b".toList ≠ stop := by
    decide
  have hpercent : "100%".toList ≠ stop := by
    decide
  refine ⟨(sent_as_written_iff hmark).2.1.mpr (by decide),
    (sent_as_written_iff hpercent).1 (by decide), ?_⟩
  intro hsent
  have hknown : KnownDirectives plainFormat "100%".toList := fun _ _ _ h => h
  exact absurd (((sent_as_written_iff hpercent).2.2.2 plainFormat hknown).1.mp hsent) (by decide)

/-- `100%` raises where `on_open` would have sent it, and `%%` loses a `%`. -/
theorem percent_not_sent_as_written :
    ((loaded false [] [] "[\"0\", \"100%\"]".toList).session []).toOption.map (fun r =>
        failureOf (r.1.onMessage "5:::".toList)) = some (some (.formatError .badFormatString)) ∧
      ((loaded false [] [] "[\"0\", \"%%\"]".toList).session [.message "5:::".toList]).toOption.map
          (·.2) =
        some [[.send (.action 0) "0".toList], [.send (.action 1) "%".toList]] := by
  exact ⟨by decide +kernel, by decide +kernel⟩

end Percent

end Handler

end SocketIOStress
