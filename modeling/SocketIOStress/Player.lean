import SocketIOStress.Handler
import SocketIOStress.Lib.Run

/-!
# What the handler is for: the player of a script

The player hands out the cues of a script, one for every answer of the server.
A cue is an action (`some a`), sent with the session id in the place of its
marks, or an end (`none`), which closes the connection, as does an answer behind
the last cue.  Whatever else happens, the player keeps quiet.
-/

namespace SocketIOStress

structure Player where
  cues : List (Option Text)
  position : Nat
  sessionid : Text

namespace Player

/-- An answer comes with the id that can be read from it, if reading it succeeds. -/
inductive Input where
  | answer (id : Option Text)
  | quiet

def Input.IsAnswer : Input → Bool
  | .answer _ => true
  | .quiet => false

/-- The first id that is not empty is kept. -/
def capture (sessionid : Text) (id : Option Text) : Text :=
  if sessionid = [] then id.getD [] else sessionid

def next (p : Player) : Input → Player × List Call
  | .quiet => (p, [])
  | .answer id =>
      let sessionid := capture p.sessionid id
      match p.cues[p.position]? with
      | some (some a) =>
          (⟨p.cues, p.position + 1, sessionid⟩,
            [.send (.action p.position) (substitute sessionid a)])
      | some none => (⟨p.cues, p.position + 1, sessionid⟩, [endOfSequence])
      | none => (⟨p.cues, p.position, sessionid⟩, [endOfSequence])

/-- The state and the calls after a list of inputs. -/
abbrev play (p : Player) (inputs : List Input) : Player × List (List Call) :=
  FallibleRun.play next p inputs

/-! ### Where the player stands -/

def answers (inputs : List Input) : Nat := inputs.countP Input.IsAnswer

theorem answers_cons_quiet (inputs : List Input) : answers (.quiet :: inputs) = answers inputs :=
  List.countP_cons_of_neg Bool.false_ne_true

theorem answers_cons_answer (id : Option Text) (inputs : List Input) :
    answers (.answer id :: inputs) = answers inputs + 1 :=
  List.countP_cons_of_pos rfl

theorem next_cues (p : Player) (input : Input) : (p.next input).1.cues = p.cues := by
  cases input with
  | quiet => rfl
  | answer id =>
    simp only [next]
    split <;> rfl

theorem next_position (p : Player) (id : Option Text) (h : p.position ≤ p.cues.length) :
    (p.next (.answer id)).1.position = min (p.position + 1) p.cues.length := by
  simp only [next]
  split
  · rename_i hcue
    have hlt := (List.getElem?_eq_some_iff.mp hcue).1
    simp only
    omega
  · rename_i hcue
    have hlt := (List.getElem?_eq_some_iff.mp hcue).1
    simp only
    omega
  · rename_i hcue
    have hge := List.getElem?_eq_none_iff.mp hcue
    simp only
    omega

theorem next_sessionid (p : Player) (id : Option Text) :
    (p.next (.answer id)).1.sessionid = capture p.sessionid id := by
  simp only [next]
  split <;> rfl

theorem next_of_end {p : Player} (h : p.cues[p.position]? = some none) (id : Option Text) :
    (p.next (.answer id)).2 = [endOfSequence] := by
  simp only [next, h]

/-- After `k` answers the player has moved `k` cues on, or to the end. -/
theorem play_position (p : Player) (inputs : List Input) (h : p.position ≤ p.cues.length) :
    (p.play inputs).1.cues = p.cues ∧
      (p.play inputs).1.position = min (p.position + answers inputs) p.cues.length := by
  induction inputs generalizing p with
  | nil => exact ⟨rfl, by simp only [play, FallibleRun.play, answers, List.countP_nil]; omega⟩
  | cons input inputs ih =>
    have hcues := next_cues p input
    cases input with
    | quiet =>
      rw [answers_cons_quiet]
      exact ih p h
    | answer id =>
      have hpos := next_position p id h
      obtain ⟨ihcues, ihpos⟩ := ih (p.next (.answer id)).1 (by rw [hcues, hpos]; omega)
      rw [answers_cons_answer]
      refine ⟨?_, ?_⟩
      · rw [← hcues, ← ihcues]
        rfl
      · rw [hcues, hpos] at ihpos
        refine Eq.trans ihpos ?_
        omega

/-! ### What the player hands out -/

/-- The index of the action a call sends. -/
def actionIndex : Call → Option Nat
  | .send (.action index) _ => some index
  | _ => none

/-- **Exact replay.**  A player that meets no end cue hands out the actions from its
    position on, each once and in order, and after the last of them closes once for
    every further answer. -/
theorem play_flatten (p : Player) (inputs : List Input) (h : p.position ≤ p.cues.length)
    (hcues : ∀ i, p.position ≤ i → i < p.position + answers inputs → p.cues[i]? ≠ some none) :
    ∃ frames, (p.play inputs).2.flatten =
        frames ++ List.replicate (answers inputs - (p.cues.length - p.position)) endOfSequence ∧
      frames.map actionIndex = (List.range' p.position
        (min (answers inputs) (p.cues.length - p.position))).map some := by
  induction inputs generalizing p with
  | nil => exact ⟨[], by simp [play, FallibleRun.play, answers], by simp [answers]⟩
  | cons input inputs ih =>
    cases input with
    | quiet =>
      rw [answers_cons_quiet] at hcues ⊢
      exact ih p h hcues
    | answer id =>
      have hmoved := next_cues p (.answer id)
      have hpos := next_position p id h
      rw [answers_cons_answer] at hcues
      obtain ⟨frames, hflat, hindices⟩ := ih (p.next (.answer id)).1
        (by rw [hmoved, hpos]; omega)
        (fun i hi hlt => by
          rw [hpos] at hi hlt
          rw [hmoved]
          exact hcues i (by omega) (by omega))
      have hunfold : (p.play (.answer id :: inputs)).2.flatten =
          (p.next (.answer id)).2 ++ ((p.next (.answer id)).1.play inputs).2.flatten := rfl
      rw [answers_cons_answer, hunfold, hflat]
      rw [hmoved, hpos] at hindices ⊢
      rcases Nat.lt_or_ge p.position p.cues.length with hlt | hge
      · -- an action is left
        cases hcue : p.cues[p.position] with
        | none =>
          refine absurd ?_ (hcues p.position (Nat.le_refl _) (by omega))
          rw [List.getElem?_eq_getElem hlt, hcue]
        | some a =>
          have hget : p.cues[p.position]? = some (some a) := by
            rw [List.getElem?_eq_getElem hlt, hcue]
          have hmin : min (p.position + 1) p.cues.length = p.position + 1 := by omega
          have hleft : min (answers inputs + 1) (p.cues.length - p.position) =
              min (answers inputs) (p.cues.length - (p.position + 1)) + 1 := by omega
          refine ⟨.send (.action p.position) (substitute (capture p.sessionid id) a) :: frames,
            ?_, ?_⟩
          · rw [hmin]
            have hcount : answers inputs + 1 - (p.cues.length - p.position) =
                answers inputs - (p.cues.length - (p.position + 1)) := by omega
            simp only [next, hget, hcount, List.cons_append, List.nil_append]
          · rw [hmin] at hindices
            rw [List.map_cons, hindices, hleft, List.range'_succ, List.map_cons]
            rfl
      · -- the script is over
        have hget : p.cues[p.position]? = none := List.getElem?_eq_none_iff.mpr hge
        have hnone : p.cues.length - min (p.position + 1) p.cues.length = 0 := by omega
        have hzero : p.cues.length - p.position = 0 := by omega
        rw [hnone] at hindices ⊢
        rw [hzero]
        obtain rfl : frames = [] := by simpa using hindices
        refine ⟨[], ?_, by simp⟩
        simp only [next, hget, Nat.sub_zero, List.nil_append, List.replicate_succ,
          List.cons_append]

/-- Every call of a play closes, or sends an action of the cues with an id in the
    place of its marks. -/
theorem mem_play_flatten {p : Player} {inputs : List Input} {call : Call}
    (hmem : call ∈ (p.play inputs).2.flatten) :
    call = endOfSequence ∨ ∃ i a sessionid, p.cues[i]? = some (some a) ∧
      call = .send (.action i) (substitute sessionid a) := by
  induction inputs generalizing p with
  | nil => simp [play, FallibleRun.play] at hmem
  | cons input inputs ih =>
    have hunfold : (p.play (input :: inputs)).2.flatten =
        (p.next input).2 ++ ((p.next input).1.play inputs).2.flatten := rfl
    rw [hunfold] at hmem
    rcases List.mem_append.mp hmem with hhead | htail
    · cases input with
      | quiet => simp [next] at hhead
      | answer id =>
        simp only [next] at hhead
        split at hhead
        · rename_i a hcue
          exact Or.inr ⟨p.position, a, _, hcue, List.mem_singleton.mp hhead⟩
        · exact Or.inl (List.mem_singleton.mp hhead)
        · exact Or.inl (List.mem_singleton.mp hhead)
    · have hrest := ih htail
      rw [next_cues] at hrest
      exact hrest

/-- Of the actions with an index of at least `p.position + k`, none is handed out
    by `k` answers. -/
theorem actionIndex_lt_of_mem_play {p : Player} {inputs : List Input} {call : Call} {i : Nat}
    (hmem : call ∈ (p.play inputs).2.flatten) (hi : actionIndex call = some i) :
    i < p.position + answers inputs := by
  induction inputs generalizing p with
  | nil => simp [play, FallibleRun.play] at hmem
  | cons input inputs ih =>
    have hunfold : (p.play (input :: inputs)).2.flatten =
        (p.next input).2 ++ ((p.next input).1.play inputs).2.flatten := rfl
    rw [hunfold] at hmem
    cases input with
    | quiet =>
      rw [answers_cons_quiet]
      exact ih (by simpa [next] using hmem)
    | answer id =>
      rw [answers_cons_answer]
      rcases List.mem_append.mp hmem with hhead | htail
      · simp only [next] at hhead
        split at hhead
        · obtain rfl := List.mem_singleton.mp hhead
          obtain rfl : p.position = i := by simpa [actionIndex] using hi
          omega
        · obtain rfl := List.mem_singleton.mp hhead
          cases hi
        · obtain rfl := List.mem_singleton.mp hhead
          cases hi
      · have hlt := ih htail
        have hpos : (p.next (.answer id)).1.position ≤ p.position + 1 := by
          simp only [next]
          split <;> simp
        omega

end Player

end SocketIOStress
