import SocketIOStress.Session

/-!
# The heartbeat watch

The handler watches its connection through the waits outstanding on its timer.
Every message re-arms the timer; the callback of a wait that expired sends its
probe and does not.  So the watch is over with the first such callback that finds
no other wait outstanding.
-/

namespace SocketIOStress

open SocketIOStress.Json Waits FallibleRun

namespace Handler

/-- Some wait is outstanding that was not aborted. -/
def Watched (h : Handler) : Prop := ∃ t, h.heartbeat = some t ∧ t.Watched

/-- If the event delivers the completion of a wait that expired, another wait is
    outstanding that was not aborted. -/
def Relieved (h : Handler) : Event → Prop
  | .complete i => ∀ t, h.heartbeat = some t → t.waits[i]? = some .expired → t.WatchedBeside i
  | _ => True

theorem watched_iff {h : Handler} {t : DeadlineTimer} (ht : h.heartbeat = some t) :
    h.Watched ↔ t.Watched := by
  constructor
  · rintro ⟨t', ht', hwatched⟩
    rw [ht, Option.some.injEq] at ht'
    rw [ht']
    exact hwatched
  · intro hwatched
    exact ⟨t, ht, hwatched⟩

section Watch

variable [CDouble] [BoostFormat]

/-- A message leaves the timer armed afresh. -/
theorem heartbeat_of_onMessage {h h' : Handler} {t : DeadlineTimer} {payload : Text}
    {calls : List Call} (ht : h.heartbeat = some t)
    (hmessage : h.onMessage payload = .ok (h', calls)) :
    h'.heartbeat = some t.expiresFromNow.asyncWait := by
  rw [onMessage_eq ht] at hmessage
  by_cases hev : IsEvent payload
  · rw [if_pos hev, onEvent_ok_iff] at hmessage
    obtain ⟨_, _, _, _, -, -, -, rfl, -⟩ := hmessage
    rfl
  · rw [if_neg hev] at hmessage
    by_cases hbeat : IsHeartbeat payload
    · rw [if_pos hbeat] at hmessage
      cases hmessage
      rfl
    · rw [if_neg hbeat] at hmessage
      cases hmessage
      rfl

/-- What the other events do to the timer. -/
theorem heartbeat_of_expire {h h' : Handler} {t : DeadlineTimer} {i : Nat} {calls : List Call}
    (ht : h.heartbeat = some t) (hstep : h.step (.expire i) = .ok (h', calls)) :
    (t.expire i = none ∧ h' = h) ∨ ∃ t', t.expire i = some t' ∧ h'.heartbeat = some t' := by
  simp only [step, ht, Option.bind_some] at hstep
  cases hexpire : t.expire i with
  | none =>
    rw [hexpire] at hstep
    cases hstep
    exact Or.inl ⟨rfl, rfl⟩
  | some t' =>
    rw [hexpire] at hstep
    cases hstep
    exact Or.inr ⟨t', rfl, rfl⟩

theorem heartbeat_of_complete {h h' : Handler} {t : DeadlineTimer} {i : Nat} {calls : List Call}
    (ht : h.heartbeat = some t) (hstep : h.step (.complete i) = .ok (h', calls)) :
    (t.complete i = none ∧ h' = h) ∨
      ∃ error t', t.complete i = some (error, t') ∧ h'.heartbeat = some t' := by
  simp only [step, ht, Option.bind_some] at hstep
  cases hcomplete : t.complete i with
  | none =>
    rw [hcomplete] at hstep
    cases hstep
    exact Or.inl ⟨rfl, rfl⟩
  | some result =>
    obtain ⟨error, t'⟩ := result
    obtain ⟨calls', hcalls, -⟩ := onHeartbeatTimeout_of_complete hcomplete
    rw [hcomplete] at hstep
    simp only [hcalls] at hstep
    cases hstep
    exact Or.inr ⟨error, t', rfl, rfl⟩

omit [CDouble] [BoostFormat] in
/-- A wait that expired can complete. -/
theorem complete_ne_none {t : DeadlineTimer} {i : Nat} (hi : t.waits[i]? = some .expired) :
    t.complete i ≠ none := by
  intro hnone
  rw [DeadlineTimer.complete, hi] at hnone
  cases hnone

/-- **One step.**  A watched handler stays watched exactly when the event does not
    deliver the last error-free completion. -/
theorem watched_step_iff {h h' : Handler} {e : Event} {calls : List Call} (hwatched : h.Watched)
    (hstep : h.step e = .ok (h', calls)) : h'.Watched ↔ h.Relieved e := by
  obtain ⟨t, ht, hwatch⟩ := hwatched
  cases e with
  | message payload =>
    have harmed := heartbeat_of_onMessage ht hstep
    rw [watched_iff harmed]
    exact ⟨fun _ => trivial, fun _ => DeadlineTimer.watched_rearm t⟩
  | expire i =>
    rcases heartbeat_of_expire ht hstep with ⟨-, rfl⟩ | ⟨t', hexpire, ht'⟩
    · exact ⟨fun _ => trivial, fun _ => ⟨t, ht, hwatch⟩⟩
    · rw [watched_iff ht', DeadlineTimer.watched_expire_iff hexpire]
      exact ⟨fun _ => trivial, fun _ => hwatch⟩
  | complete i =>
    rcases heartbeat_of_complete ht hstep with ⟨hnone, rfl⟩ | ⟨error, t', hcomplete, ht'⟩
    · refine ⟨?_, fun _ => ⟨t, ht, hwatch⟩⟩
      intro _ t₂ ht₂ hi
      rw [ht, Option.some.injEq] at ht₂
      subst ht₂
      exact absurd hnone (complete_ne_none hi)
    · rw [watched_iff ht', DeadlineTimer.watched_complete_iff hcomplete]
      constructor
      · intro hbeside t₂ ht₂ _
        rw [ht, Option.some.injEq] at ht₂
        rw [← ht₂]
        exact hbeside
      · intro hrelieved
        obtain ⟨-, ⟨hi, -⟩ | ⟨hi, -⟩⟩ := DeadlineTimer.complete_cases hcomplete
        · exact hrelieved t ht hi
        · exact DeadlineTimer.watchedBeside_of_aborted hi hwatch

omit [BoostFormat] in
/-- `on_open` begins the watch. -/
theorem watched_of_onOpen {h h' : Handler} {calls : List Call}
    (hopen : h.onOpen = .ok (h', calls)) : h'.Watched := by
  obtain ⟨action, actions, -, rfl, -⟩ := onOpen_ok_iff.mp hopen
  exact ⟨_, rfl, DeadlineTimer.watched_rearm .idle⟩

/-- **When the connection is under watch.**  At every point of a session some wait is
    outstanding that was not aborted, exactly when no completion without an error is
    delivered in the session while no other such wait is outstanding. -/
theorem watched_throughout_iff {isSecure : Bool} {host token content : Text} {events : List Event}
    {h' : Handler} {trace : List (List Call)}
    (hsession : (loaded isSecure host token content).session events = .ok (h', trace)) :
    (∀ pre suf m before, events = pre ++ suf →
        (loaded isSecure host token content).session pre = .ok (m, before) → m.Watched) ↔
      ∀ pre e suf m before, events = pre ++ e :: suf →
        (loaded isSecure host token content).session pre = .ok (m, before) → m.Relieved e := by
  obtain ⟨o, calls, trace', hopen, hrun, -⟩ := session_ok_iff.mp hsession
  have hwatched := watched_of_onOpen hopen
  -- sessions over a part of the events are runs from the handler `on_open` left
  have hpart : ∀ pre m before, (loaded isSecure host token content).session pre = .ok (m, before) ↔
      ∃ ms, run step o pre = .ok (m, ms) ∧ before = calls :: ms := by
    intro pre m before
    rw [session_ok_iff]
    constructor
    · rintro ⟨o', calls', ms, hopen', hpre, rfl⟩
      rw [hopen] at hopen'
      cases hopen'
      exact ⟨ms, hpre, rfl⟩
    · rintro ⟨ms, hpre, rfl⟩
      exact ⟨o, calls, ms, hopen, hpre, rfl⟩
  have hiff := throughout_iff_everyStep (fun _ _ _ _ _ _ => trivial)
    (fun (s : Handler) (e : Event) s' b (_ : True) hs hstep => watched_step_iff hs hstep)
    hrun trivial hwatched
  rw [throughout_iff_prefixes hrun, everyStep_iff_prefixes hrun] at hiff
  constructor
  · intro hall pre e suf m before heq hpre
    obtain ⟨ms, hms, -⟩ := (hpart pre m before).mp hpre
    refine hiff.mp ?_ pre e suf m ms heq hms
    intro pre' suf' m' ms' heq' hpre'
    exact hall pre' suf' m' (calls :: ms') heq' ((hpart pre' m' _).mpr ⟨ms', hpre', rfl⟩)
  · intro hall pre suf m before heq hpre
    obtain ⟨ms, hms, -⟩ := (hpart pre m before).mp hpre
    refine hiff.mpr ?_ pre suf m ms heq hms
    intro pre' e suf' m' ms' heq' hpre'
    exact hall pre' e suf' m' (calls :: ms') heq' ((hpart pre' m' _).mpr ⟨ms', hpre', rfl⟩)

/-- Where no wait is outstanding, nothing happens any more without a message. -/
theorem step_of_idle {h : Handler} (hidle : h.heartbeat = some .idle) {e : Event}
    (hsilent : ∀ payload, e ≠ .message payload) : h.step e = .ok (h, []) := by
  cases e with
  | message payload => exact absurd rfl (hsilent payload)
  | expire i => simp [step, hidle, DeadlineTimer.expire, DeadlineTimer.idle]
  | complete i => simp [step, hidle, DeadlineTimer.complete, DeadlineTimer.idle]

end Watch

section Silence

open Plain

/-- A wait that expired before a message and completes after it leaves the wait the
    message started. -/
theorem watched_throughout_of_message :
    ∃ h' trace, (loaded false [] [] "[]".toList).session
        [.expire 0, .message "2::".toList, .complete 0] = .ok (h', trace) ∧
      ∀ pre suf m before, [.expire 0, .message "2::".toList, .complete 0] = pre ++ suf →
        (loaded false [] [] "[]".toList).session pre = .ok (m, before) → m.Watched := by
  obtain ⟨⟨h', trace⟩, hsession⟩ := exists_ok_of_isSome (by decide +kernel :
    ((loaded false [] [] "[]".toList).session
      [.expire 0, .message "2::".toList, .complete 0]).toOption.isSome = true)
  refine ⟨h', trace, hsession, (watched_throughout_iff hsession).mpr ?_⟩
  intro pre e suf m before heq hpre
  cases e with
  | message payload => trivial
  | expire i => trivial
  | complete i =>
    obtain ⟨rfl, rfl⟩ : pre = [.expire 0, .message "2::".toList] ∧ i = 0 := by
      rcases pre with _ | ⟨a, _ | ⟨b, _ | ⟨c, pre⟩⟩⟩ <;>
        simp only [List.nil_append, List.cons_append, List.cons.injEq, reduceCtorEq, false_and,
          and_false, List.append_eq_nil_iff, List.nil_eq, Event.complete.injEq] at heq
      obtain ⟨rfl, rfl, rfl, -⟩ := heq
      exact ⟨rfl, rfl⟩
    have hwaits : ((loaded false [] [] "[]".toList).session
        [.expire 0, .message "2::".toList]).toOption.map (fun r => r.1.heartbeat) =
          some (some ⟨[.expired, .unexpired]⟩) := by decide +kernel
    rw [hpre] at hwaits
    intro t ht _
    rw [Except.toOption, Option.map_some, ht, Option.some.injEq, Option.some.injEq] at hwaits
    rw [hwaits]
    exact ⟨1, .unexpired, by decide, rfl, by decide⟩

/-- After the first interval of silence the probe is sent, nothing is watched, and
    nothing is sent in any further one. -/
theorem unwatched_after_silence :
    ∃ h' trace, (loaded false [] [] "[]".toList).session [.expire 0, .complete 0] =
        .ok (h', trace) ∧
      trace = [[.send (.action 0) stop], [], [.send .heartbeat heartbeatText]] ∧ ¬ h'.Watched ∧
      ∀ e : Event, (∀ payload, e ≠ .message payload) → h'.step e = .ok (h', []) := by
  obtain ⟨⟨h', trace⟩, hsession⟩ := exists_ok_of_isSome (by decide +kernel :
    ((loaded false [] [] "[]".toList).session [.expire 0, .complete 0]).toOption.isSome = true)
  have hresult : ((loaded false [] [] "[]".toList).session
      [.expire 0, .complete 0]).toOption.map (fun r => (r.1.heartbeat, r.2)) =
        some (some .idle, [[.send (.action 0) stop], [], [.send .heartbeat heartbeatText]]) := by
    decide +kernel
  rw [hsession, Except.toOption, Option.map_some, Option.some.injEq, Prod.mk.injEq] at hresult
  obtain ⟨hidle, htrace⟩ := hresult
  refine ⟨h', trace, hsession, htrace, ?_, fun e hsilent => step_of_idle hidle hsilent⟩
  rw [watched_iff hidle]
  exact DeadlineTimer.not_watched_idle

end Silence

end Handler

end SocketIOStress
