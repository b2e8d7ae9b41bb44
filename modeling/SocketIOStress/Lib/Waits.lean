/-!
# Outstanding waits of a deadline timer

A deadline timer is the list of waits started on it whose completion has not
been delivered.  A wait is `unexpired` until its deadline passes (`expired`) or
the timer is re-armed or cancelled (`aborted`); after either, its completion may
be delivered at any later moment, in any order with the other completions.
Re-arming and cancelling abort the unexpired waits only: a wait that has already
expired completes without an error, whatever happens to the timer meanwhile.
-/

namespace Waits

inductive WaitStatus where
  | unexpired
  | expired
  | aborted
deriving DecidableEq, Repr

def WaitStatus.abort : WaitStatus → WaitStatus
  | .unexpired => .aborted
  | w => w

/-- The error code a completion handler is called with. -/
inductive ErrorCode where
  | success
  | operationAborted
  | other (value : Nat)
deriving DecidableEq, Repr

structure DeadlineTimer where
  waits : List WaitStatus
deriving DecidableEq, Repr

namespace DeadlineTimer

/-- A timer nobody waits on yet. -/
def idle : DeadlineTimer := ⟨[]⟩

/-- Abort every wait that has not expired. -/
def cancel (t : DeadlineTimer) : DeadlineTimer := ⟨t.waits.map WaitStatus.abort⟩

/-- Setting a new expiry time aborts the unexpired waits, as `cancel` does. -/
def expiresFromNow (t : DeadlineTimer) : DeadlineTimer := t.cancel

def asyncWait (t : DeadlineTimer) : DeadlineTimer := ⟨t.waits ++ [.unexpired]⟩

/-- The deadline of the wait at `i` passes. -/
def expire (t : DeadlineTimer) (i : Nat) : Option DeadlineTimer :=
  if t.waits[i]? = some .unexpired then some ⟨t.waits.set i .expired⟩ else none

/-- Deliver the completion of the wait at `i`: the code its handler gets, and
    the timer without the wait. -/
def complete (t : DeadlineTimer) (i : Nat) : Option (ErrorCode × DeadlineTimer) :=
  match t.waits[i]? with
  | some .expired => some (.success, ⟨t.waits.eraseIdx i⟩)
  | some .aborted => some (.operationAborted, ⟨t.waits.eraseIdx i⟩)
  | _ => none

/-! ### How many waits have not expired -/

def unexpiredCount (t : DeadlineTimer) : Nat := t.waits.count .unexpired

@[simp] theorem unexpiredCount_cancel (t : DeadlineTimer) : t.cancel.unexpiredCount = 0 := by
  simp only [unexpiredCount, cancel, List.count_eq_zero, List.mem_map, not_exists, not_and]
  intro w _
  cases w <;> simp [WaitStatus.abort]

/-- Re-arming leaves exactly one unexpired wait. -/
@[simp] theorem unexpiredCount_rearm (t : DeadlineTimer) :
    t.expiresFromNow.asyncWait.unexpiredCount = 1 := by
  have h : t.cancel.unexpiredCount = 0 := unexpiredCount_cancel t
  simp only [unexpiredCount] at h
  simp only [unexpiredCount, expiresFromNow, asyncWait, List.count_append, h]
  decide

theorem unexpiredCount_expire_le {t t' : DeadlineTimer} {i : Nat}
    (h : t.expire i = some t') : t'.unexpiredCount ≤ t.unexpiredCount := by
  simp only [expire] at h
  split at h
  · rename_i hi
    cases h
    have hlt : i < t.waits.length := (List.getElem?_eq_some_iff.mp hi).1
    simp only [unexpiredCount, List.count_set hlt]
    simp
  · cases h

/-- Where every wait has expired or was aborted, none can expire. -/
theorem expire_eq_none {t : DeadlineTimer} (h : t.unexpiredCount = 0) (i : Nat) :
    t.expire i = none := by
  apply if_neg
  intro hi
  rw [unexpiredCount, List.count_eq_zero] at h
  exact h (List.mem_of_getElem? hi)

/-- What a completion hands over: the wait it removes had expired or had been
    aborted, and the code says which. -/
theorem complete_cases {t t' : DeadlineTimer} {i : Nat} {error : ErrorCode}
    (h : t.complete i = some (error, t')) :
    t' = ⟨t.waits.eraseIdx i⟩ ∧
      ((t.waits[i]? = some .expired ∧ error = .success) ∨
        (t.waits[i]? = some .aborted ∧ error = .operationAborted)) := by
  simp only [complete] at h
  split at h
  · rename_i hi; cases h; exact ⟨rfl, Or.inl ⟨hi, rfl⟩⟩
  · rename_i hi; cases h; exact ⟨rfl, Or.inr ⟨hi, rfl⟩⟩
  · cases h

theorem unexpiredCount_complete_le {t t' : DeadlineTimer} {i : Nat} {error : ErrorCode}
    (h : t.complete i = some (error, t')) : t'.unexpiredCount ≤ t.unexpiredCount := by
  obtain ⟨rfl, -⟩ := complete_cases h
  exact (List.eraseIdx_sublist t.waits i).count_le _

/-! ### Whether the timer is watched -/

/-- Some wait is still to complete without an error. -/
def Watched (t : DeadlineTimer) : Prop := ∃ w ∈ t.waits, w ≠ .aborted

theorem watched_rearm (t : DeadlineTimer) : t.expiresFromNow.asyncWait.Watched :=
  ⟨.unexpired, by simp [asyncWait], by decide⟩

theorem not_watched_idle : ¬ idle.Watched := by
  rintro ⟨w, hw, -⟩
  cases hw

/-- The passing of a deadline does not end the watch. -/
theorem watched_expire_iff {t t' : DeadlineTimer} {i : Nat} (h : t.expire i = some t') :
    t'.Watched ↔ t.Watched := by
  simp only [expire] at h
  split at h
  · rename_i hi
    cases h
    obtain ⟨hlt, hget⟩ := List.getElem?_eq_some_iff.mp hi
    constructor
    · intro _
      exact ⟨.unexpired, List.mem_of_getElem? hi, by decide⟩
    · intro _
      exact ⟨.expired, List.mem_iff_getElem.mpr ⟨i, by simpa using hlt, by simp⟩, by decide⟩
  · cases h

/-- Another wait than the one at `i` is still to complete without an error. -/
def WatchedBeside (t : DeadlineTimer) (i : Nat) : Prop :=
  ∃ j w, j ≠ i ∧ t.waits[j]? = some w ∧ w ≠ .aborted

/-- After a completion the timer is watched exactly when another wait was. -/
theorem watched_complete_iff {t t' : DeadlineTimer} {i : Nat} {error : ErrorCode}
    (h : t.complete i = some (error, t')) : t'.Watched ↔ t.WatchedBeside i := by
  obtain ⟨rfl, -⟩ := complete_cases h
  simp only [Watched, WatchedBeside, List.mem_eraseIdx_iff_getElem?]
  constructor
  · rintro ⟨w, ⟨j, hj, hget⟩, hw⟩
    exact ⟨j, w, hj, hget, hw⟩
  · rintro ⟨j, w, hj, hget, hw⟩
    exact ⟨w, ⟨j, hj, hget⟩, hw⟩

/-- The completion of an aborted wait does not end the watch. -/
theorem watchedBeside_of_aborted {t : DeadlineTimer} {i : Nat}
    (hi : t.waits[i]? = some .aborted) (h : t.Watched) : t.WatchedBeside i := by
  obtain ⟨w, hmem, hw⟩ := h
  obtain ⟨j, hj⟩ := List.mem_iff_getElem?.mp hmem
  refine ⟨j, w, ?_, hj, hw⟩
  rintro rfl
  rw [hi] at hj
  cases hj
  exact hw rfl

end DeadlineTimer

end Waits
