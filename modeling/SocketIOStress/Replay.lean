import SocketIOStress.Session

/-!
# What a session sends

Replay of the script, soundness of the end signal, and which texts go out.  All
three are read off the play a session refines: its calls are the opened player's
frames followed by its closes.
-/

namespace SocketIOStress

open SocketIOStress.Json Waits FallibleRun Player

namespace Handler

/-! ### Reading a trace -/

def IsClose : Call → Bool
  | .close _ _ => true
  | _ => false

/-- How many `5::` messages there are among the events. -/
def eventCount (events : List Event) : Nat :=
  events.countP (fun e => match e with
    | .message payload => decide (IsEvent payload)
    | _ => false)

/-- The indices of the actions sent, in order. -/
def sentIndices (calls : List Call) : List Nat := calls.filterMap actionIndex

theorem sentIndices_filter_isScript (calls : List Call) :
    sentIndices (calls.filter Call.IsScript) = sentIndices calls := by
  rw [sentIndices, List.filterMap_filter, sentIndices]
  congr 1
  funext call
  cases call with
  | close code reason => rfl
  | send origin payload => cases origin <;> rfl

theorem countP_isClose_filter_isScript (calls : List Call) :
    (calls.filter Call.IsScript).countP IsClose = calls.countP IsClose := by
  rw [List.countP_filter]
  congr 1
  funext call
  cases call with
  | close code reason => rfl
  | send origin payload => cases origin <;> rfl

theorem answers_map_input [CDouble] (events : List Event) :
    answers (events.map input) = eventCount events := by
  simp only [answers, eventCount, List.countP_map]
  congr 1
  funext e
  cases e with
  | message payload =>
    by_cases hev : IsEvent payload
    · simp [input, hev, Input.IsAnswer]
    · simp [input, hev, Input.IsAnswer]
  | expire i => rfl
  | complete i => rfl

/-- A `5::` message that carries no id. -/
def emptyEvent : Text := ['5', ':', ':', ':']

/-! ### Frames, then closes -/

/-- Actions with indices and no close among them. -/
def Frames (indices : List Nat) (frames : List Call) : Prop :=
  frames.map actionIndex = indices.map some

theorem Frames.sentIndices_eq {indices : List Nat} {frames : List Call}
    (h : Frames indices frames) : sentIndices frames = indices := by
  have hid : sentIndices frames = (frames.map actionIndex).filterMap id := by
    rw [List.filterMap_map]
    rfl
  rw [hid, h, List.filterMap_map]
  simp

theorem Frames.not_isClose {indices : List Nat} {frames : List Call}
    (h : Frames indices frames) : ∀ call ∈ frames, IsClose call = false := by
  intro call hcall
  have hmem : actionIndex call ∈ frames.map actionIndex := List.mem_map_of_mem hcall
  rw [h] at hmem
  obtain ⟨i, -, hi⟩ := List.mem_map.mp hmem
  cases call with
  | send origin payload => rfl
  | close code reason => cases hi

theorem sentIndices_replicate (k : Nat) :
    sentIndices (List.replicate k endOfSequence) = [] := by
  rw [sentIndices, List.filterMap_eq_nil_iff]
  intro call hcall
  rw [List.eq_of_mem_replicate hcall]
  rfl

/-- Where a close stands in frames followed by closes: behind all the frames, and
    before closes only. -/
theorem split_at_close {frames pre suf : List Call} {k : Nat} {call : Call}
    (hframes : ∀ call ∈ frames, IsClose call = false) (hclose : IsClose call = true)
    (heq : frames ++ List.replicate k endOfSequence = pre ++ call :: suf) :
    ∃ i j, pre = frames ++ List.replicate i endOfSequence ∧
      suf = List.replicate j endOfSequence ∧ i + 1 + j = k := by
  rcases List.append_eq_append_iff.mp heq with ⟨mid, rfl, hmid⟩ | ⟨mid, hframe, hmid⟩
  · -- the close is among the closes
    obtain ⟨hlen, hpre, hsuf⟩ := List.replicate_eq_append_iff.mp hmid
    refine ⟨mid.length, suf.length, by rw [← hpre], ?_, ?_⟩
    · rw [List.length_cons] at hsuf
      rw [List.replicate_succ, List.cons.injEq] at hsuf
      exact hsuf.2
    · rw [List.length_cons] at hlen
      omega
  · cases mid with
    | nil =>
      rw [List.nil_append] at hmid
      cases k with
      | zero => cases hmid
      | succ k =>
        rw [List.replicate_succ, List.cons.injEq] at hmid
        refine ⟨0, k, by simpa using hframe.symm, hmid.2, by omega⟩
    | cons c mid =>
      rw [List.cons_append, List.cons.injEq] at hmid
      have hc := hframes c (by rw [hframe]; simp)
      rw [← hmid.1, hclose] at hc
      cases hc

/-! ### The trace of a session -/

section Session

variable [CDouble] [BoostFormat] {content : Text} {script : List Text}

omit [CDouble] [BoostFormat] in
/-- Only an element that reads `stop` is an end cue. -/
theorem stop_of_cues_getElem {i : Nat} (hcue : (cues script)[i]? = some none) :
    script[i]? = some stop := by
  simp only [cues, List.getElem?_map, Option.map_eq_some_iff] at hcue
  obtain ⟨a, hget, hnone⟩ := hcue
  by_cases h : a = stop
  · rw [hget, h]
  · rw [if_neg h] at hnone
    cases hnone

omit [BoostFormat] in
/-- The opened player moves on by one cue for every `5::` message. -/
theorem play_opened (hne : script ≠ []) (events : List Event) :
    ((openedPlayer script).play (events.map input)).1.cues = cues script ∧
      ((openedPlayer script).play (events.map input)).1.position =
        min (eventCount events + 1) script.length := by
  have hpos : 0 < script.length := List.length_pos_iff.mpr hne
  obtain ⟨hcues, hposition⟩ := play_position (openedPlayer script) (events.map input)
    (by simp only [openedPlayer, cues, List.length_map]; omega)
  refine ⟨hcues, ?_⟩
  rw [hposition, answers_map_input]
  simp only [openedPlayer, cues, List.length_map]
  omega

/-- The script calls of a session that meets no element reading `stop`: the frames,
    each once and in order, and then a close for every `5::` message that found the
    script over. -/
theorem session_calls (hload : Loads content script)
    (hclean : ∀ a ∈ script.tail, a ≠ stop → Clean a) (isSecure : Bool) (host token : Text)
    {events : List Event} (hreturns : ExtractionReturns [] events)
    (hend : ∀ i, 1 ≤ i → i ≤ eventCount events → script[i]? ≠ some stop) :
    ∃ h' trace frames, (loaded isSecure host token content).session events =
        .ok (h', [.send (.action 0) (script.headD stop)] :: trace) ∧
      ([.send (.action 0) (script.headD stop)] :: trace).flatten.filter Call.IsScript =
        frames ++ List.replicate (eventCount events - (script.length - 1)) endOfSequence ∧
      Frames (List.range (min (eventCount events) (script.length - 1) + 1)) frames := by
  obtain ⟨h', trace, hsession, -, htrace⟩ :=
    session_follows hload hclean isSecure host token hreturns
  have hlength : (openedPlayer script).cues.length = script.length := by
    simp [openedPlayer, cues]
  have hposition : (openedPlayer script).position = min 1 script.length := rfl
  have hcues : ∀ i, (openedPlayer script).position ≤ i →
      i < (openedPlayer script).position + answers (events.map input) →
        (openedPlayer script).cues[i]? ≠ some none := by
    intro i hi hlt hcue
    have hget := stop_of_cues_getElem hcue
    have hbound := (List.getElem?_eq_some_iff.mp hget).1
    rw [answers_map_input] at hlt
    exact hend i (by omega) (by omega) hget
  obtain ⟨frames, hflat, hindices⟩ := play_flatten (openedPlayer script) (events.map input)
    (by omega) hcues
  have hleft : (openedPlayer script).cues.length - (openedPlayer script).position =
      script.length - 1 := by omega
  rw [hleft, answers_map_input] at hflat hindices
  refine ⟨h', trace, .send (.action 0) (script.headD stop) :: frames, hsession, ?_, ?_⟩
  · rw [← htrace, ← List.filter_flatten] at hflat
    rw [List.flatten_cons, List.filter_append, hflat]
    rfl
  · rw [Frames, List.map_cons, hindices, List.range_eq_range', List.range'_succ, List.map_cons]
    cases script with
    | nil => simp [actionIndex]
    | cons a rest =>
      rw [hposition, List.length_cons]
      have hone : min 1 (rest.length + 1) = 0 + 1 := by omega
      rw [hone]
      rfl

/-- What the `i`-th `5::` message makes the handler do. -/
theorem answer_of_follows (hclean : ∀ a ∈ script.tail, a ≠ stop → Clean a)
    (hstop : stop ∉ script) {m : Handler} {p : Player} {payload : Text}
    (hfollows : Follows script m p) (hev : IsEvent payload)
    (hread : CanRead p (input (.message payload))) :
    ∃ m' call, m.step (.message payload) = .ok (m', [call]) ∧
      ((∃ hi : p.position < script.length,
          call = .send (.action p.position) (substitute m'.sessionid script[p.position])) ∨
        (script.length ≤ p.position ∧ call = endOfSequence)) := by
  obtain ⟨m', call, hstep, hfollows', hcall, -⟩ :=
    follows_answer hclean hfollows hev (capture_of_canRead hfollows hev hread)
  refine ⟨m', call, hstep, ?_⟩
  have hsid := hfollows'.sessionid
  rw [next_sessionid] at hsid
  simp only [Player.next, hfollows.cues, cues, List.getElem?_map] at hcall
  rcases Nat.lt_or_ge p.position script.length with hlt | hge
  · have hne : script[p.position] ≠ stop := fun h => hstop (h ▸ List.getElem_mem hlt)
    rw [List.getElem?_eq_getElem hlt, Option.map_some, if_neg hne] at hcall
    left
    refine ⟨hlt, ?_⟩
    rw [hsid]
    exact List.singleton_inj.mp hcall
  · rw [List.getElem?_eq_none_iff.mpr hge, Option.map_none] at hcall
    right
    exact ⟨hge, List.singleton_inj.mp hcall⟩

/-- The state a session on this script reaches before an event, and the player's. -/
theorem follows_before (hload : Loads content script)
    (hclean : ∀ a ∈ script.tail, a ≠ stop → Clean a) (isSecure : Bool) (host token : Text)
    {pre suf : List Event} {e : Event} {h' : Handler} {trace : List (List Call)}
    (hsession : (loaded isSecure host token content).session (pre ++ e :: suf) = .ok (h', trace)) :
    ∃ m before after, (loaded isSecure host token content).session pre = .ok (m, before) ∧
      run step m (e :: suf) = .ok (h', after) ∧ trace = before ++ after ∧
      Follows script m ((openedPlayer script).play (pre.map input)).1 ∧
      before.flatten.filter Call.IsScript =
        .send (.action 0) (script.headD stop) ::
          ((openedPlayer script).play (pre.map input)).2.flatten := by
  obtain ⟨m, before, after, hpre, hsuf, rfl⟩ := session_of_append hsession
  obtain ⟨m', trace', hpre', hfollows, htrace⟩ := session_follows hload hclean isSecure host token
    (extractionReturns_of_session hpre)
  rw [hpre'] at hpre
  cases hpre
  refine ⟨m, _, after, hpre', hsuf, rfl, hfollows, ?_⟩
  rw [List.flatten_cons, List.filter_append, List.filter_flatten, htrace]
  rfl

/-! ### Exact replay -/

/-- **The script is replayed exactly.**  A session on a script of clean actions runs to
    its end.  It sends the actions from the first on, each once and in order, up to
    one for every `5::` message, and closes once for every such message behind the
    last action.  The `i`-th `5::` message sends the action `i`, with the session id
    of that moment in the place of its marks, or closes when there is none. -/
theorem replay_exact (hload : Loads content script) (hne : script ≠ []) (hstop : stop ∉ script)
    (hclean : ∀ a ∈ script.tail, Clean a) (isSecure : Bool) (host token : Text)
    (events : List Event) (hreturns : ExtractionReturns [] events) :
    ∃ h' opening trace,
      (loaded isSecure host token content).session events = .ok (h', opening :: trace) ∧
      opening = [.send (.action 0) (script.head hne)] ∧
      sentIndices (opening :: trace).flatten =
        List.range (min (eventCount events) (script.length - 1) + 1) ∧
      (opening :: trace).flatten.countP IsClose = eventCount events - (script.length - 1) ∧
      ∀ pre payload suf, events = pre ++ .message payload :: suf → IsEvent payload →
        ∃ m before m' call, (loaded isSecure host token content).session pre = .ok (m, before) ∧
          m.step (.message payload) = .ok (m', [call]) ∧
          ((∃ hi : eventCount pre + 1 < script.length, call = .send (.action (eventCount pre + 1))
              (substitute m'.sessionid script[eventCount pre + 1])) ∨
            (script.length ≤ eventCount pre + 1 ∧ call = endOfSequence)) := by
  have hclean' : ∀ a ∈ script.tail, a ≠ stop → Clean a := fun a ha _ => hclean a ha
  have hend : ∀ i, 1 ≤ i → i ≤ eventCount events → script[i]? ≠ some stop :=
    fun i _ _ hget => hstop (List.mem_of_getElem? hget)
  have hhead : script.headD stop = script.head hne := by
    cases script with
    | nil => exact absurd rfl hne
    | cons a rest => rfl
  obtain ⟨h', trace, frames, hsession, hcalls, hframes⟩ :=
    session_calls hload hclean' isSecure host token hreturns hend
  rw [hhead] at hsession hcalls
  refine ⟨h', _, trace, hsession, rfl, ?_, ?_, ?_⟩
  · rw [← sentIndices_filter_isScript, hcalls, sentIndices, List.filterMap_append,
      ← sentIndices, ← sentIndices, hframes.sentIndices_eq, sentIndices_replicate,
      List.append_nil]
  · rw [← countP_isClose_filter_isScript, hcalls, List.countP_append, List.countP_replicate]
    have hzero : frames.countP IsClose = 0 := by
      rw [List.countP_eq_zero]
      intro call hcall
      rw [hframes.not_isClose call hcall]
      exact Bool.false_ne_true
    rw [hzero, Nat.zero_add]
    rfl
  · rintro pre payload suf rfl hev
    obtain ⟨m, before, after, hpre, -, -, hfollows, -⟩ :=
      follows_before hload hclean' isSecure host token hsession
    obtain ⟨m', call, hstep, hcall⟩ := answer_of_follows hclean' hstop hfollows hev
      (canRead_of_extractionReturns (p := openedPlayer script) hreturns rfl)
    refine ⟨m, before, m', call, hpre, hstep, ?_⟩
    -- the player stands behind the action of `on_open` and one for every `5::` message
    have hpos := (play_opened hne pre).2
    rcases hcall with ⟨hi, hcall⟩ | ⟨hge, hcall⟩
    · left
      have heq : ((openedPlayer script).play (pre.map input)).1.position = eventCount pre + 1 := by
        omega
      refine ⟨by omega, ?_⟩
      simp only [heq] at hcall
      exact hcall
    · right
      exact ⟨by omega, hcall⟩

end Session

section Login

open Plain

def loginContent : Text := "[\"0\", \"5:::%1%\"]".toList
def loginScript : List Text := ["0".toList, "5:::%1%".toList]
def loginAnswer : Text := "5:::\x7b\"args\":[\x7b\"sessionId\":\"7\"\x7d]\x7d".toList

/-- A login, its heartbeat and a message too many. -/
theorem replay_exact_login :
    ∃ h' trace, (loaded false [] [] loginContent).session
        [.message loginAnswer, .message "2::".toList, .expire 1, .complete 1, .message emptyEvent] =
          .ok (h', trace) ∧
      sentIndices trace.flatten = [0, 1] ∧ trace.flatten.countP IsClose = 1 := by
  obtain ⟨h', opening, trace, hsession, -, hsent, hclosed, -⟩ :=
    replay_exact (by decide +kernel : Loads loginContent loginScript)
      (by decide) (by decide) (by decide) false [] []
      [.message loginAnswer, .message "2::".toList, .expire 1, .complete 1, .message emptyEvent]
      (by decide +kernel)
  exact ⟨h', _, hsession, hsent, hclosed⟩

end Login

section Session

variable [CDouble] [BoostFormat] {content : Text} {script : List Text}

/-! ### The end signal -/

/-- Where the handler closes, it has sent all `n` actions before and sends none
    after. -/
def EndSignalSound (n : Nat) (calls : List Call) : Prop :=
  ∀ pre call suf, IsClose call = true → calls = pre ++ call :: suf →
    (∀ i < n, i ∈ sentIndices pre) ∧ sentIndices suf = []

omit [CDouble] [BoostFormat] in
theorem endSignalSound_of_filter {n : Nat} {calls : List Call}
    (h : EndSignalSound n (calls.filter Call.IsScript)) : EndSignalSound n calls := by
  rintro pre call suf hclose rfl
  have hscript : call.IsScript = true := by
    cases call with
    | send origin payload => cases hclose
    | close code reason => rfl
  have hsound := h (pre.filter Call.IsScript) call (suf.filter Call.IsScript) hclose
    (by rw [List.filter_append, List.filter_cons_of_pos hscript])
  rw [sentIndices_filter_isScript, sentIndices_filter_isScript] at hsound
  exact hsound

omit [BoostFormat] in
theorem extractionReturns_replicate (k : Nat) :
    ExtractionReturns [] (List.replicate k (.message emptyEvent)) := by
  induction k with
  | zero => trivial
  | succ k ih =>
    rw [List.replicate_succ, ExtractionReturns, if_pos (by decide)]
    exact ⟨[], rfl, ih⟩

omit [CDouble] [BoostFormat] in
theorem eventCount_replicate (k : Nat) :
    eventCount (List.replicate k (.message emptyEvent)) = k := by
  rw [eventCount, List.countP_replicate]
  exact if_pos rfl

omit [CDouble] [BoostFormat] in
/-- The `5::` message with `k` others before it. -/
theorem exists_event_of_lt {k : Nat} {events : List Event} (h : k < eventCount events) :
    ∃ pre payload suf, events = pre ++ .message payload :: suf ∧ IsEvent payload ∧
      eventCount pre = k := by
  induction events generalizing k with
  | nil => exact absurd h (Nat.not_lt_zero k)
  | cons e events ih =>
    rcases quiet_or_event e with hquiet | ⟨payload, rfl, hev⟩
    · have hskip : ∀ rest, eventCount (e :: rest) = eventCount rest := by
        intro rest
        refine List.countP_cons_of_neg ?_
        cases e with
        | message payload =>
          have hnot : ¬ IsEvent payload := hquiet
          simpa using hnot
        | expire i => exact Bool.false_ne_true
        | complete i => exact Bool.false_ne_true
      rw [hskip] at h
      obtain ⟨pre, payload, suf, rfl, hev, hk⟩ := ih h
      exact ⟨e :: pre, payload, suf, rfl, hev, (hskip pre).trans hk⟩
    · have hcount : ∀ rest, eventCount (.message payload :: rest) = eventCount rest + 1 :=
        fun rest => List.countP_cons_of_pos (decide_eq_true hev)
      cases k with
      | zero => exact ⟨[], payload, events, rfl, hev, rfl⟩
      | succ k =>
        rw [hcount] at h
        obtain ⟨pre, payload', suf, rfl, hev', hk⟩ := ih (Nat.lt_of_succ_lt_succ h)
        exact ⟨.message payload :: pre, payload', suf, rfl, hev', by rw [hcount, hk]⟩

/-- At an end cue a `5::` message is answered by a close. -/
theorem step_of_end_cue (hclean : ∀ a ∈ script.tail, a ≠ stop → Clean a) {m : Handler} {p : Player}
    {payload : Text} (hfollows : Follows script m p) (hev : IsEvent payload)
    (hread : CanRead p (input (.message payload))) (hcue : p.cues[p.position]? = some none) :
    ∃ m', m.step (.message payload) = .ok (m', [endOfSequence]) := by
  obtain ⟨m', call, hstep, -, hcall, -⟩ :=
    follows_answer hclean hfollows hev (capture_of_canRead hfollows hev hread)
  rw [next_of_end hcue] at hcall
  exact ⟨m', by rw [hstep, hcall]⟩

/-- An element that reads `stop`, met by the message it is the answer to, closes the
    connection while it has not been sent. -/
theorem unsound_at_stop (hload : Loads content script)
    (hclean : ∀ a ∈ script.tail, a ≠ stop → Clean a) {isSecure : Bool} {host token : Text}
    {pre suf : List Event} {payload : Text} {h' : Handler} {trace : List (List Call)}
    (hsession : (loaded isSecure host token content).session (pre ++ .message payload :: suf) =
      .ok (h', trace))
    (hev : IsEvent payload) (hget : script[eventCount pre + 1]? = some stop) :
    ¬ EndSignalSound script.length trace.flatten := by
  have hlt : eventCount pre + 1 < script.length := (List.getElem?_eq_some_iff.mp hget).1
  have hne : script ≠ [] := List.ne_nil_of_length_pos (Nat.lt_of_le_of_lt (Nat.zero_le _) hlt)
  obtain ⟨m, before, after, hpre, hsuf, rfl, hfollows, hbefore⟩ :=
    follows_before hload hclean isSecure host token hsession
  -- the player stands at the end cue
  obtain ⟨hcues, hposition⟩ := play_opened hne pre
  obtain ⟨m', hstep⟩ := step_of_end_cue hclean hfollows hev
    (canRead_of_extractionReturns (p := openedPlayer script)
      (extractionReturns_of_session hsession) rfl)
    (by
      rw [hcues, hposition, Nat.min_eq_left (Nat.le_of_lt hlt), cues, List.getElem?_map, hget]
      rfl)
  obtain ⟨m₂, calls, rest, hstep', hrun, rfl⟩ := run_cons_ok_iff.mp hsuf
  rw [hstep] at hstep'
  cases hstep'
  intro hsound
  obtain ⟨hsent, -⟩ := hsound before.flatten endOfSequence rest.flatten rfl (by simp)
  have hmem := hsent (eventCount pre + 1) hlt
  rw [← sentIndices_filter_isScript, hbefore, sentIndices, List.mem_filterMap] at hmem
  obtain ⟨c, hc, hindex⟩ := hmem
  rcases List.mem_cons.mp hc with rfl | hc
  · cases hindex
  · have hbound := actionIndex_lt_of_mem_play hc hindex
    rw [answers_map_input] at hbound
    simp only [openedPlayer] at hbound
    omega

/-- In one session the end signal is sound exactly when the `5::` messages do not get
    as far as an element that reads `stop`. -/
theorem endSignalSound_iff (hload : Loads content script)
    (hclean : ∀ a ∈ script.tail, a ≠ stop → Clean a) {isSecure : Bool} {host token : Text}
    {events : List Event} {h' : Handler} {trace : List (List Call)}
    (hsession : (loaded isSecure host token content).session events = .ok (h', trace)) :
    EndSignalSound script.length trace.flatten ↔
      ∀ i, 1 ≤ i → script[i]? = some stop → eventCount events < i := by
  constructor
  · intro hsound i hi hget
    by_contra hreached
    obtain ⟨j, rfl⟩ := Nat.exists_eq_add_of_le' hi
    obtain ⟨pre, payload, suf, rfl, hev, rfl⟩ :=
      exists_event_of_lt (Nat.lt_of_lt_of_le (Nat.lt_succ_self j) (Nat.not_lt.mp hreached))
    exact unsound_at_stop hload hclean hsession hev hget hsound
  · intro hbefore
    obtain ⟨h'', trace', frames, hsession', hcalls, hframes⟩ :=
      session_calls hload hclean isSecure host token (extractionReturns_of_session hsession)
        (fun i hi hle hget => absurd (hbefore i hi hget) (Nat.not_lt.mpr hle))
    rw [hsession'] at hsession
    cases hsession
    apply endSignalSound_of_filter
    rw [hcalls]
    intro pre call suf hclose heq
    obtain ⟨i, j, rfl, rfl, hcount⟩ := split_at_close hframes.not_isClose hclose heq
    refine ⟨?_, sentIndices_replicate j⟩
    intro n hn
    rw [sentIndices, List.filterMap_append, ← sentIndices, ← sentIndices, hframes.sentIndices_eq,
      sentIndices_replicate, List.append_nil, List.mem_range]
    omega

/-- **When the end signal is sound.**  For a script of strings free of `%`, every close
    of every session comes behind all the actions and before none of them exactly
    when no element behind the first reads `stop`; and in a single session exactly
    when its `5::` messages do not get as far as such an element. -/
theorem end_signal_sound_iff (hload : Loads content script) (hfree : ∀ a ∈ script, '%' ∉ a)
    (isSecure : Bool) (host token : Text) :
    ((∀ events h' trace, (loaded isSecure host token content).session events = .ok (h', trace) →
        EndSignalSound script.length trace.flatten) ↔
      ∀ i, 1 ≤ i → script[i]? ≠ some stop) ∧
    ∀ events h' trace, (loaded isSecure host token content).session events = .ok (h', trace) →
      (EndSignalSound script.length trace.flatten ↔
        ∀ i, 1 ≤ i → script[i]? = some stop → eventCount events < i) := by
  have hclean : ∀ a ∈ script.tail, a ≠ stop → Clean a :=
    fun a ha _ => clean_of_not_mem (hfree a (List.mem_of_mem_tail ha))
  refine ⟨⟨?_, ?_⟩, fun events h' trace hsession => endSignalSound_iff hload hclean hsession⟩
  · intro hsound i hi hget
    -- enough messages without an id reach the element
    obtain ⟨h', trace, hsession, -, -⟩ := session_follows hload hclean isSecure host token
      (extractionReturns_replicate i)
    have hlt := (endSignalSound_iff hload hclean hsession).mp (hsound _ h' _ hsession) i hi hget
    rw [eventCount_replicate] at hlt
    exact Nat.lt_irrefl i hlt
  · intro hnostop events h' trace hsession
    rw [endSignalSound_iff hload hclean hsession]
    intro i hi hget
    exact absurd hget (hnostop i hi)

end Session

section Stop

open Plain

theorem end_signal_sound_of_two :
    Loads "[\"0\", \"1\"]".toList ["0".toList, "1".toList] ∧
      ∀ events h' trace, (loaded false [] [] "[\"0\", \"1\"]".toList).session events =
          .ok (h', trace) → EndSignalSound 2 trace.flatten := by
  have hload : Loads "[\"0\", \"1\"]".toList ["0".toList, "1".toList] := by
    decide +kernel
  refine ⟨hload, (end_signal_sound_iff hload (by decide) false [] []).1.mpr ?_⟩
  intro i _ hget
  have hmem := List.mem_of_getElem? hget
  revert hmem
  decide

/-- A script with the element `stop` between two others. -/
def stopContent : Text := "[\"0\", \"stop\", \"1\"]".toList

/-- The first `5::` message closes the connection with the last action unsent. -/
theorem end_signal_unsound_at_stop :
    Loads stopContent ["0".toList, stop, "1".toList] ∧
      ((loaded false [] [] stopContent).session [.message emptyEvent]).toOption.map (·.2) =
        some [[.send (.action 0) "0".toList], [endOfSequence]] ∧
      ¬ EndSignalSound 3 [.send (.action 0) "0".toList, endOfSequence] := by
  refine ⟨by decide +kernel, by decide +kernel, ?_⟩
  intro hsound
  obtain ⟨hsent, -⟩ := hsound [.send (.action 0) "0".toList] endOfSequence [] rfl rfl
  exact absurd (hsent 2 (by decide)) (by decide)

end Stop

section Session

variable [CDouble] [BoostFormat] {content : Text} {script : List Text}

/-! ### Which texts go out -/

/-- Every frame is a heartbeat or an element of the script. -/
def OnlyScriptAndHeartbeats (script : List Text) (calls : List Call) : Prop :=
  ∀ origin payload, Call.send origin payload ∈ calls → payload = heartbeatText ∨ payload ∈ script

/-- **When nothing but the script and heartbeats goes out.**  For a script of strings
    free of `%` this holds of every session exactly when the script is not empty:
    `on_open` sends the end marker of an empty one. -/
theorem only_script_sent_iff (hload : Loads content script) (hfree : ∀ a ∈ script, '%' ∉ a)
    (isSecure : Bool) (host token : Text) :
    (∀ events h' trace, (loaded isSecure host token content).session events = .ok (h', trace) →
        OnlyScriptAndHeartbeats script trace.flatten) ↔
      script ≠ [] := by
  have hclean : ∀ a ∈ script.tail, a ≠ stop → Clean a :=
    fun a ha _ => clean_of_not_mem (hfree a (List.mem_of_mem_tail ha))
  constructor
  · rintro honly rfl
    obtain ⟨h', trace, hsession, -, -⟩ :=
      session_follows hload hclean isSecure host token (show ExtractionReturns [] [] from trivial)
    rcases honly [] h' _ hsession (.action 0) stop (by simp) with hbeat | hmem
    · exact absurd hbeat (by decide)
    · cases hmem
  · intro hne events h' trace hsession origin payload hmem
    obtain ⟨h'', trace', hsession', -, htrace⟩ := session_follows hload hclean isSecure host token
      (extractionReturns_of_session hsession)
    rw [hsession'] at hsession
    cases hsession
    cases origin with
    | heartbeat => exact Or.inl (heartbeat_of_session hsession' hmem)
    | action i =>
      right
      rw [List.flatten_cons] at hmem
      rcases List.mem_append.mp hmem with hhead | htail
      · cases script with
        | nil => exact absurd rfl hne
        | cons a rest =>
          obtain ⟨-, rfl⟩ : Origin.action i = .action 0 ∧ payload = a := by simpa using hhead
          exact List.mem_cons_self
      · have hscript : Call.send (.action i) payload ∈ (trace'.flatten).filter Call.IsScript :=
          List.mem_filter.mpr ⟨htail, rfl⟩
        rw [List.filter_flatten, htrace] at hscript
        rcases mem_play_flatten hscript with hclose | ⟨j, a, sessionid, hcue, hcall⟩
        · cases hclose
        · simp only [openedPlayer, cues, List.getElem?_map, Option.map_eq_some_iff] at hcue
          obtain ⟨b, hget, hb⟩ := hcue
          have hmem := List.mem_of_getElem? hget
          split at hb
          · cases hb
          · cases hb
            rw [Call.send.injEq, substitute_of_not_mem (hfree a hmem)] at hcall
            rw [hcall.2]
            exact hmem

end Session

section Empty

open Plain

theorem only_script_sent_of_one :
    Loads "[\"0\"]".toList ["0".toList] ∧
      ∀ events h' trace, (loaded false [] [] "[\"0\"]".toList).session events =
          .ok (h', trace) → OnlyScriptAndHeartbeats ["0".toList] trace.flatten := by
  have hload : Loads "[\"0\"]".toList ["0".toList] := by
    decide +kernel
  exact ⟨hload, (only_script_sent_iff hload (by decide) false [] []).mpr (by decide)⟩

/-- On the empty array, `on_open` sends `stop`. -/
theorem stop_sent_of_empty :
    Loads "[]".toList [] ∧
      ((loaded false [] [] "[]".toList).session []).toOption.map (·.2) =
        some [[.send (.action 0) stop]] ∧
      ¬ OnlyScriptAndHeartbeats [] [.send (.action 0) stop] := by
  refine ⟨by decide +kernel, by decide +kernel, ?_⟩
  intro honly
  rcases honly (.action 0) stop List.mem_cons_self with hbeat | hmem
  · exact absurd hbeat (by decide)
  · cases hmem

end Empty

end Handler

end SocketIOStress
