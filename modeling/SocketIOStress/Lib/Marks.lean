/-!
# Replacing a mark in a text

`replaceAll mark new` replaces the non-overlapping occurrences of `mark`, found
scanning from the left, and keeps every other element.  The scan is made once,
by `segments`, which cuts a text into occurrences (`none`) and the elements
between them (`some c`); replacing, removing and counting are then maps over
the segments, and facts about them are facts about `List.flatMap`.
-/

namespace Marks

variable {α : Type} [DecidableEq α]

/-- Cut a text at the occurrences of `mark`, after skipping the `skip` elements
    that belong to the occurrence just found. -/
def segmentsFrom (mark : List α) : Nat → List α → List (Option α)
  | _, [] => []
  | 0, c :: cs =>
      if mark.isPrefixOf (c :: cs) then
        none :: segmentsFrom mark (mark.length - 1) cs
      else some c :: segmentsFrom mark 0 cs
  | skip + 1, _ :: cs => segmentsFrom mark skip cs

def segments (mark : List α) (text : List α) : List (Option α) :=
  segmentsFrom mark 0 text

/-- What a segment stands for when every occurrence is written as `new`. -/
def fill (new : List α) : Option α → List α
  | none => new
  | some c => [c]

/-- Replace each non-overlapping left-to-right occurrence of `mark` by `new`. -/
def replaceAll (mark new : List α) (text : List α) : List α :=
  (segments mark text).flatMap (fill new)

/-- The elements of a text that lie outside the occurrences of `mark`. -/
def outside (mark : List α) (text : List α) : List α := replaceAll mark [] text

/-! ### The scan loses nothing -/

theorem flatMap_fill_segmentsFrom (mark : List α) (hmark : mark ≠ []) (skip : Nat)
    (text : List α) :
    (segmentsFrom mark skip text).flatMap (fill mark) = text.drop skip := by
  induction text generalizing skip with
  | nil => simp [segmentsFrom]
  | cons c cs ih =>
    cases skip with
    | succ skip => simp only [segmentsFrom, List.drop_succ_cons, ih]
    | zero =>
      by_cases hpre : mark.isPrefixOf (c :: cs)
      · -- the occurrence is the first `mark.length` elements, `c` among them
        obtain ⟨rest, hrest⟩ := List.isPrefixOf_iff_prefix.mp hpre
        simp only [segmentsFrom, if_pos hpre, List.flatMap_cons, fill, ih, List.drop_zero]
        cases mark with
        | nil => exact absurd rfl hmark
        | cons m ms =>
          rw [List.cons_append, List.cons.injEq] at hrest
          obtain ⟨rfl, rfl⟩ := hrest
          simp
      · simp only [segmentsFrom, if_neg hpre, List.flatMap_cons, fill, ih, List.drop_zero,
          List.singleton_append]

/-- Writing every occurrence of `mark` as `mark` again gives the text back. -/
theorem replaceAll_self (mark : List α) (hmark : mark ≠ []) (text : List α) :
    replaceAll mark mark text = text :=
  flatMap_fill_segmentsFrom mark hmark 0 text

/-! ### Elements outside the occurrences -/

theorem some_mem_segments_iff {mark : List α} {text : List α} {c : α} :
    some c ∈ segments mark text ↔ c ∈ outside mark text := by
  simp only [outside, replaceAll, List.mem_flatMap]
  constructor
  · intro h
    exact ⟨some c, h, by simp [fill]⟩
  · rintro ⟨seg, hseg, hc⟩
    cases seg with
    | none => simp [fill] at hc
    | some d =>
      obtain rfl : c = d := by simpa [fill] using hc
      exact hseg

theorem segments_cons_of_no_mark {mark : List α} {c : α} {cs : List α}
    (h : ¬ mark.isPrefixOf (c :: cs)) :
    segments mark (c :: cs) = some c :: segments mark cs := by
  simp only [segments, segmentsFrom, if_neg h]

/-- A text without the mark's first element has no occurrence in it. -/
theorem segments_of_not_mem {m : α} {ms : List α} {text : List α} (h : m ∉ text) :
    segments (m :: ms) text = text.map some := by
  induction text with
  | nil => rfl
  | cons c cs ih =>
    have hcs : m ∉ cs := List.not_mem_of_not_mem_cons h
    have hpre : ¬ (m :: ms).isPrefixOf (c :: cs) := by
      intro hp
      rw [List.isPrefixOf_cons_cons, Bool.and_eq_true, beq_iff_eq] at hp
      exact List.ne_of_not_mem_cons h hp.1
    rw [segments_cons_of_no_mark hpre, ih hcs, List.map_cons]

omit [DecidableEq α] in
theorem flatMap_fill_map_some (new text : List α) :
    (text.map some).flatMap (fill new) = text := by
  induction text with
  | nil => rfl
  | cons c cs ih => simp [fill, ih]

theorem replaceAll_of_not_mem {m : α} {ms new : List α} {text : List α} (h : m ∉ text) :
    replaceAll (m :: ms) new text = text := by
  rw [replaceAll, segments_of_not_mem h, flatMap_fill_map_some]

/-- A text the mark does not occur in is left as it is. -/
theorem replaceAll_of_not_infix {mark new text : List α} (h : ¬ mark <:+: text) :
    replaceAll mark new text = text := by
  have hsegments : segments mark text = text.map some := by
    induction text with
    | nil => rfl
    | cons c cs ih =>
      have hpre : ¬ mark.isPrefixOf (c :: cs) := by
        intro hp
        exact h (List.isPrefixOf_iff_prefix.mp hp).isInfix
      have hcs : ¬ mark <:+: cs := by
        intro hin
        exact h (hin.trans (List.suffix_cons c cs).isInfix)
      rw [segments_cons_of_no_mark hpre, ih hcs, List.map_cons]
  rw [replaceAll, hsegments, flatMap_fill_map_some]

theorem outside_of_not_mem {m : α} {ms : List α} {text : List α} (h : m ∉ text) :
    outside (m :: ms) text = text :=
  replaceAll_of_not_mem h

/-! ### Counting

A replacement changes what a text counts by what it changes in one occurrence,
times their number; the scan finds no fewer occurrences in a longer text. -/

/-- How many occurrences the scan finds. -/
def occurrences (mark text : List α) : Nat := (segments mark text).countP Option.isNone

theorem countP_replaceAll (p : α → Bool) (mark new text : List α) :
    (replaceAll mark new text).countP p =
      (outside mark text).countP p + occurrences mark text * new.countP p := by
  simp only [replaceAll, outside, occurrences]
  induction segments mark text with
  | nil => simp
  | cons seg segs ih =>
    cases seg with
    | none =>
      simp only [List.flatMap_cons, fill, List.countP_append, ih, List.countP_nil,
        List.countP_cons_of_pos (p := Option.isNone) (a := (none : Option α)) rfl, Nat.succ_mul]
      omega
    | some c =>
      simp only [List.flatMap_cons, fill, List.countP_append, ih,
        List.countP_cons_of_neg (p := Option.isNone) (a := some c) Bool.false_ne_true]
      omega

theorem countP_eq_outside (p : α → Bool) {mark : List α} (hmark : mark ≠ []) (text : List α) :
    text.countP p = (outside mark text).countP p + occurrences mark text * mark.countP p := by
  rw [← countP_replaceAll, replaceAll_self mark hmark]

theorem segmentsFrom_eq_drop (mark : List α) (skip : Nat) (text : List α) :
    segmentsFrom mark skip text = segments mark (text.drop skip) := by
  induction text generalizing skip with
  | nil => simp [segments, segmentsFrom]
  | cons c cs ih =>
    cases skip with
    | zero => rfl
    | succ skip => exact ih skip

theorem occurrences_cons_of_no_mark {mark : List α} {c : α} {cs : List α}
    (h : ¬ mark.isPrefixOf (c :: cs)) : occurrences mark (c :: cs) = occurrences mark cs := by
  rw [occurrences, segments_cons_of_no_mark h]
  exact List.countP_cons_of_neg Bool.false_ne_true

theorem occurrences_cons_of_mark {mark : List α} {c : α} {cs : List α}
    (h : mark.isPrefixOf (c :: cs)) :
    occurrences mark (c :: cs) = occurrences mark (cs.drop (mark.length - 1)) + 1 := by
  rw [occurrences, segments, segmentsFrom, if_pos h, segmentsFrom_eq_drop]
  exact List.countP_cons_of_pos rfl

/-- Dropping more finds no more, and dropping no more than one mark loses at most one. -/
theorem occurrences_drop (mark text : List α) :
    (∀ i j, i ≤ j → occurrences mark (text.drop j) ≤ occurrences mark (text.drop i)) ∧
      ∀ j, j ≤ mark.length → occurrences mark text ≤ occurrences mark (text.drop j) + 1 := by
  induction text with
  | nil => simp
  | cons c cs ih =>
    obtain ⟨hmono, hloss⟩ := ih
    have hcons : occurrences mark cs ≤ occurrences mark (c :: cs) := by
      by_cases hpre : mark.isPrefixOf (c :: cs)
      · rw [occurrences_cons_of_mark hpre]
        exact hloss _ (Nat.sub_le _ _)
      · exact Nat.le_of_eq (occurrences_cons_of_no_mark hpre).symm
    refine ⟨?_, ?_⟩
    · intro i j hij
      cases j with
      | zero =>
        obtain rfl : i = 0 := Nat.le_zero.mp hij
        exact Nat.le_refl _
      | succ j =>
        cases i with
        | zero => exact Nat.le_trans (hmono 0 j (Nat.zero_le _)) hcons
        | succ i => exact hmono i j (Nat.le_of_succ_le_succ hij)
    · intro j hj
      cases j with
      | zero => exact Nat.le_succ _
      | succ j =>
        by_cases hpre : mark.isPrefixOf (c :: cs)
        · rw [occurrences_cons_of_mark hpre]
          exact Nat.succ_le_succ (hmono j _ (by omega))
        · rw [occurrences_cons_of_no_mark hpre]
          exact hloss j (by omega)

theorem occurrences_le_append (mark pre text : List α) :
    occurrences mark text ≤ occurrences mark (pre ++ text) := by
  have hdrop := (occurrences_drop mark (pre ++ text)).1 0 pre.length (Nat.zero_le _)
  rwa [List.drop_left, List.drop_zero] at hdrop

theorem occurrences_mark_append {mark : List α} (hmark : mark ≠ []) (text : List α) :
    occurrences mark (mark ++ text) = occurrences mark text + 1 := by
  cases mark with
  | nil => exact absurd rfl hmark
  | cons m ms =>
    have hpre : (m :: ms).isPrefixOf (m :: (ms ++ text)) :=
      List.isPrefixOf_iff_prefix.mpr (List.prefix_append (m :: ms) text)
    rw [List.cons_append, occurrences_cons_of_mark hpre, List.length_cons, Nat.add_sub_cancel,
      List.drop_left]

end Marks
