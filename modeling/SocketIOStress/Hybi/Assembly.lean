import SocketIOStress.Hybi.Reading

/-!
# Messages in a stream of frames

A frame is a header and a payload.  What a stream of frames says is told here in
terms of the frames alone: a control frame is a message by itself and may stand
anywhere, a data message is the payloads of its frames put together, and a text
must be UTF-8.  The processor comes to a message exactly where this says so, and
to the message this says.
-/

namespace SocketIOStress

open Octets

/-! ### Masks -/

theorem length_maskFrom (key : MaskingKey) (i : Nat) (bytes : List UInt8) :
    (maskFrom key i bytes).length = bytes.length := by
  induction bytes generalizing i with
  | nil => rfl
  | cons c bytes ih => rw [maskFrom, List.length_cons, List.length_cons, ih]

/-- Masking twice gives the bytes back. -/
theorem maskFrom_maskFrom (key : MaskingKey) (i : Nat) (bytes : List UInt8) :
    maskFrom key i (maskFrom key i bytes) = bytes := by
  induction bytes generalizing i with
  | nil => rfl
  | cons c bytes ih =>
    rw [maskFrom, maskFrom, ih, UInt8.xor_assoc, UInt8.xor_self, UInt8.xor_zero]

theorem get_zero (i : Nat) : (Buffer.zero 4).get i = 0 := by
  rw [Buffer.get, Buffer.zero, List.getD_eq_getElem?_getD, List.getElem?_replicate]
  split
  · rfl
  · rfl

/-- A key of zero masks nothing. -/
theorem maskFrom_zero (i : Nat) (bytes : List UInt8) : maskFrom (.zero 4) i bytes = bytes := by
  induction bytes generalizing i with
  | nil => rfl
  | cons c bytes ih => rw [maskFrom, ih, get_zero, UInt8.xor_zero]

/-! ### Frames -/

structure WireFrame where
  header : FrameHeader
  payload : List UInt8
  length_eq : payload.length = header.size

namespace WireFrame

/-- The key of a frame; zero where it is not masked. -/
def key (f : WireFrame) : MaskingKey := f.header.key.getD (.zero 4)

/-- The frame on the wire. -/
def bytes (f : WireFrame) : List UInt8 := f.header.bytes ++ maskFrom f.key 0 f.payload

/-- The bytes behind a header are the payload of a frame with this header. -/
theorem exists_of_header (l : FrameHeader) {masked : List UInt8} (h : masked.length = l.size) :
    ∃ f : WireFrame, f.header = l ∧ l.bytes ++ masked = f.bytes := by
  refine ⟨⟨l, maskFrom (l.key.getD (.zero 4)) 0 masked, (length_maskFrom _ _ _).trans h⟩, rfl, ?_⟩
  rw [bytes, key, maskFrom_maskFrom]

end WireFrame

/-! ### What the frames say -/

/-- A data message of which not all frames have come. -/
structure Begun where
  opcode : FrameOpcode
  payload : List UInt8

/-- A message that has come. -/
structure Delivery where
  opcode : FrameOpcode
  payload : List UInt8

namespace Begun

/-- The message as far as it goes can become a text, if it is one. -/
def Possible (g : Begun) : Prop := g.opcode = .text → BeginsUtf8 g.payload

/-- The message is a text, if it says so. -/
def Proper (g : Begun) : Prop := g.opcode = .text → Utf8Bytes g.payload

end Begun

/-- What a data frame makes of the message that is begun: it begins one, or goes on with it. -/
inductive Joins (pool : Option Failure) : Option Begun → WireFrame → Begun → Prop
  | begins {f : WireFrame} : pool = none → f.header.opcode ≠ .continuation →
      Joins pool none f ⟨f.header.opcode, f.payload⟩
  | continues {g : Begun} {f : WireFrame} : f.header.opcode = .continuation →
      Joins pool (some g) f ⟨g.opcode, g.payload ++ f.payload⟩

/-- The payload of a frame with a payload fits: the check adds the lengths as `uint64_t`. -/
def Fits (g : Begun) (f : WireFrame) : Prop :=
  f.payload = [] ∨ g.payload.length % 2 ^ 64 ≤ DataMessage.payloadSizeMax

/-- A frame: what is begun before it, what is begun behind it, and the message it completes. -/
inductive Receives (pool : Option Failure) :
    Option Begun → WireFrame → Option Begun → Option Delivery → Prop
  | control {b : Option Begun} {f : WireFrame} : f.header.opcode.isControl = true →
      (f.header.opcode = .close →
        ∃ code reason, completeClose (textOf f.payload) = .ok (code, reason)) →
      Receives pool b f b (some ⟨f.header.opcode, f.payload⟩)
  | more {b : Option Begun} {f : WireFrame} {g : Begun} : f.header.opcode.isControl = false →
      Joins pool b f g → Fits g f → g.Possible → f.header.fin = false →
      Receives pool b f (some g) none
  | last {b : Option Begun} {f : WireFrame} {g : Begun} : f.header.opcode.isControl = false →
      Joins pool b f g → Fits g f → g.Proper → f.header.fin = true →
      Receives pool b f none (some ⟨g.opcode, g.payload⟩)

/-- The frames up to the first that completes a message. -/
inductive ReceivesAll (pool : Option Failure) :
    Option Begun → List WireFrame → Option Begun → Delivery → Prop
  | last {b b' : Option Begun} {f : WireFrame} {d : Delivery} :
      Receives pool b f b' (some d) → ReceivesAll pool b [f] b' d
  | more {b b' b'' : Option Begun} {f : WireFrame} {frames : List WireFrame} {d : Delivery} :
      Receives pool b f b' none → ReceivesAll pool b' frames b'' d →
      ReceivesAll pool b (f :: frames) b'' d

/-! ### Payloads that are read -/

namespace DataMessage

/-- The message unmasks with a key, from a position of it on. -/
structure At (m : DataMessage) (key : MaskingKey) (i : Nat) : Prop where
  maskingKey : m.maskingKey = key
  maskingIndex : m.maskingIndex = if key = .zero 4 then none else some (i % 4)

theorem at_setMaskingKey (m : DataMessage) (key : MaskingKey) : (m.setMaskingKey key).At key 0 :=
  ⟨rfl, rfl⟩

/-- A byte that was masked with the key is the byte it was. -/
theorem unmask_eq {m : DataMessage} {key : MaskingKey} {i : Nat} (hm : m.At key i) (c : UInt8) :
    m.unmask (c ^^^ key.get (i % 4)) =
      (c, if key = .zero 4 then none else some ((i + 1) % 4)) := by
  rw [unmask, hm.maskingIndex]
  by_cases hkey : key = .zero 4
  · rw [if_pos hkey, if_pos hkey, hkey, get_zero, UInt8.xor_zero]
  · rw [if_neg hkey, if_neg hkey, hm.maskingKey]
    simp only [UInt8.xor_assoc, UInt8.xor_self, UInt8.xor_zero, Nat.mod_add_mod]

/-- What the validator of a message makes of the bytes of a payload. -/
def judge (m : DataMessage) (bytes : List UInt8) : Validator × Bool :=
  if m.opcode = .text then m.validator.decodeBytes bytes else (m.validator, true)

theorem judge_cons_text {m : DataMessage} (htext : m.opcode = .text) (c : UInt8)
    (bytes : List UInt8) : m.judge (c :: bytes) =
      if (m.validator.consume c.toNat).2 then (m.validator.consume c.toNat).1.decodeBytes bytes
      else ((m.validator.consume c.toNat).1, false) := by
  rw [judge, if_pos htext, Validator.decodeBytes, List.map_cons, Validator.decodeAll]
  rcases m.validator.consume c.toNat with ⟨v, accepted⟩
  cases accepted with
  | false => rfl
  | true => rfl

/-- The message behind a character. -/
def advanced (m : DataMessage) (key : MaskingKey) (i : Nat) (v : Validator) (taken : List UInt8) :
    DataMessage :=
  { m with
    validator := v,
    maskingIndex := if key = .zero 4 then none else some ((i + 1) % 4),
    payload := m.payload ++ taken }

theorem processCharacter_masked {m : DataMessage} {key : MaskingKey} {i : Nat} (hm : m.At key i)
    (c : UInt8) : m.processCharacter (c ^^^ key.get (i % 4)) =
      if m.opcode = .text then
        if (m.validator.consume c.toNat).2 then
          (m.advanced key i (m.validator.consume c.toNat).1 [c], .ok ())
        else (m.advanced key i (m.validator.consume c.toNat).1 [], .error invalidUtf8)
      else (m.advanced key i m.validator [c], .ok ()) := by
  rw [processCharacter, unmask_eq hm]
  simp only [advanced, List.append_nil]

/-- A payload that was masked with the key is taken as it was, unless the validator refuses. -/
theorem eat_masked {m : DataMessage} {key : MaskingKey} {i : Nat} (hm : m.At key i)
    (payload : List UInt8) :
    ((m.judge payload).2 = true ∧ ∃ m' : DataMessage,
      Feed.eat processCharacter payload.length m (maskFrom key i payload) =
        (m', [], .ok payload.length) ∧
      m'.opcode = m.opcode ∧ m'.payload = m.payload ++ payload ∧
        m'.validator = (m.judge payload).1) ∨
    ((m.judge payload).2 = false ∧ ∃ m' rest,
      Feed.eat processCharacter payload.length m (maskFrom key i payload) =
        (m', rest, .error invalidUtf8)) := by
  induction payload generalizing m i with
  | nil =>
    refine Or.inl ⟨?_, m, rfl, rfl, (List.append_nil _).symm, ?_⟩
    · unfold judge
      split
      · rfl
      · rfl
    · unfold judge
      split
      · rfl
      · rfl
  | cons c payload ih =>
    rw [maskFrom, List.length_cons]
    have hstep := processCharacter_masked hm c
    by_cases htext : m.opcode = .text
    · rw [if_pos htext] at hstep
      rw [judge_cons_text htext]
      cases haccepted : (m.validator.consume c.toNat).2 with
      | false =>
        simp only [haccepted, Bool.false_eq_true, if_false] at hstep
        exact Or.inr ⟨rfl, _, _, Feed.eat_cons_refused hstep⟩
      | true =>
        simp only [haccepted, if_true] at hstep ⊢
        generalize hnext : m.advanced key i (m.validator.consume c.toNat).1 [c] = next at hstep
        have hat : next.At key (i + 1) := hnext ▸ ⟨hm.maskingKey, rfl⟩
        have hjudge : next.judge payload = (m.validator.consume c.toNat).1.decodeBytes payload := by
          rw [← hnext, judge]
          exact if_pos htext
        rcases ih hat with ⟨haccept, m', heat, hopcode, hpayload, hvalidator⟩ |
          ⟨hrefuse, m', rest, heat⟩
        · rw [hjudge] at haccept hvalidator
          refine Or.inl ⟨haccept, m', Feed.eat_cons hstep heat, ?_, ?_, hvalidator⟩
          · rw [hopcode, ← hnext, advanced]
          · rw [hpayload, ← hnext, advanced, List.append_assoc, List.singleton_append]
        · rw [hjudge] at hrefuse
          exact Or.inr ⟨hrefuse, m', rest, Feed.eat_cons hstep heat⟩
    · rw [if_neg htext] at hstep
      rw [judge, if_neg htext]
      generalize hnext : m.advanced key i m.validator [c] = next at hstep
      have hat : next.At key (i + 1) := hnext ▸ ⟨hm.maskingKey, rfl⟩
      have hjudge : next.judge payload = (m.validator, true) := by
        rw [← hnext, judge]
        exact if_neg htext
      rcases ih hat with ⟨-, m', heat, hopcode, hpayload, hvalidator⟩ | ⟨hrefuse, -⟩
      · rw [hjudge] at hvalidator
        refine Or.inl ⟨rfl, m', Feed.eat_cons hstep heat, ?_, ?_, hvalidator⟩
        · rw [hopcode, ← hnext, advanced]
        · rw [hpayload, ← hnext, advanced, List.append_assoc, List.singleton_append]
      · rw [hjudge] at hrefuse
        cases hrefuse

end DataMessage

namespace ControlMessage

/-- A control frame that was masked with the key is taken as it was. -/
theorem eat_masked {m : ControlMessage} {key : MaskingKey} {i : Nat} (hkey : m.maskingKey = key)
    (hindex : m.maskingIndex = if key = .zero 4 then none else some i) (payload : List UInt8) :
    ∃ m' : ControlMessage,
      Feed.eat processCharacter payload.length m (maskFrom key i payload) =
        (m', [], .ok payload.length) ∧
      m'.opcode = m.opcode ∧ m'.payload = m.payload ++ payload := by
  induction payload generalizing m i with
  | nil => exact ⟨m, rfl, rfl, (List.append_nil _).symm⟩
  | cons c payload ih =>
    rw [maskFrom, List.length_cons]
    generalize hnext : ControlMessage.mk m.opcode m.validator m.maskingKey
      (if key = .zero 4 then none else some (i + 1)) (m.payload ++ [c]) = next
    have hstep : m.processCharacter (c ^^^ key.get (i % 4)) = (next, .ok ()) := by
      by_cases hzero : key = .zero 4
      · rw [if_pos hzero] at hindex
        rw [processCharacter, ← hnext, if_pos hzero, hzero, get_zero, UInt8.xor_zero]
        simp only [hindex]
      · rw [if_neg hzero] at hindex
        rw [processCharacter, ← hnext, if_neg hzero]
        simp only [hindex, hkey, UInt8.xor_assoc, UInt8.xor_self, UInt8.xor_zero]
    have hkey' : next.maskingKey = key := by
      rw [← hnext]
      exact hkey
    have hindex' : next.maskingIndex = if key = .zero 4 then none else some (i + 1) := by
      rw [← hnext]
    rcases ih hkey' hindex' with ⟨m', heat, hopcode, hpayload⟩
    refine ⟨m', Feed.eat_cons hstep heat, ?_, ?_⟩
    · rw [hopcode, ← hnext]
    · rw [hpayload, ← hnext, List.append_assoc, List.singleton_append]

end ControlMessage

/-! ### The processor and the frames -/

/-- A message that is held is the one that is begun. -/
structure Represents (m : DataMessage) (g : Begun) : Prop where
  opcode : m.opcode = g.opcode
  payload : m.payload = g.payload
  possible : g.opcode = .text → (Validator.reset.decodeBytes g.payload).2 = true
  validator : g.opcode = .text → m.validator = (Validator.reset.decodeBytes g.payload).1

theorem represents_reset (op : FrameOpcode) : Represents (.reset op) ⟨op, []⟩ :=
  ⟨rfl, rfl, fun _ => rfl, fun _ => rfl⟩

theorem Represents.setMaskingKey {m : DataMessage} {g : Begun} (h : Represents m g)
    (key : MaskingKey) : Represents (m.setMaskingKey key) g :=
  ⟨h.opcode, h.payload, h.possible, h.validator⟩

/-- The message is a text, if it says so, when it is complete. -/
theorem complete_iff {m : DataMessage} {g : Begun} (h : Represents m g) :
    m.complete = .ok () ↔ g.Proper := by
  rw [DataMessage.complete, h.opcode]
  by_cases htext : g.opcode = .text
  · have hcomplete := Validator.complete_decodeBytes_reset_iff (h.possible htext)
    rw [← h.validator htext] at hcomplete
    cases hvalidator : m.validator.complete with
    | true =>
      rw [if_neg (by simp)]
      exact iff_of_true rfl (fun _ => hcomplete.mp hvalidator)
    | false =>
      rw [if_pos ⟨htext, rfl⟩]
      refine iff_of_false nofun (fun hproper => ?_)
      rw [hcomplete.mpr (hproper htext)] at hvalidator
      cases hvalidator
  · rw [if_neg (fun hboth => htext hboth.1)]
    exact iff_of_true rfl (fun hop => absurd hop htext)

/-- The validator refuses a payload exactly when no text starts with what there is then. -/
theorem judge_iff {m : DataMessage} {g : Begun} (h : Represents m g) (payload : List UInt8) :
    (m.judge payload).2 = true ↔ Begun.Possible ⟨g.opcode, g.payload ++ payload⟩ := by
  rw [DataMessage.judge, h.opcode]
  by_cases htext : g.opcode = .text
  · rw [if_pos htext, h.validator htext, ← Validator.decodeBytes_append (h.possible htext),
      Validator.decodeBytes_reset_iff]
    exact ⟨fun hbegins _ => hbegins, fun hpossible => hpossible htext⟩
  · rw [if_neg htext]
    exact iff_of_true rfl (fun hop => absurd hop htext)

/-- A payload that is read is joined to the message. -/
theorem Represents.join {m m' : DataMessage} {g : Begun} {payload : List UInt8}
    (h : Represents m g) (hjudge : (m.judge payload).2 = true) (hopcode : m'.opcode = m.opcode)
    (hpayload : m'.payload = m.payload ++ payload)
    (hvalidator : m'.validator = (m.judge payload).1) :
    Represents m' ⟨g.opcode, g.payload ++ payload⟩ := by
  refine ⟨hopcode.trans h.opcode, by rw [hpayload, h.payload], ?_, ?_⟩
  · intro htext
    exact (Validator.decodeBytes_reset_iff _).mpr ((judge_iff h payload).mp hjudge htext)
  · intro htext
    have htext' : g.opcode = .text := htext
    rw [hvalidator, DataMessage.judge, h.opcode, if_pos htext', h.validator htext',
      Validator.decodeBytes_append (h.possible htext')]

namespace Hybi

/-- The data message the processor holds is the one that is begun. -/
def Holds (p : Hybi) : Option Begun → Prop
  | none => p.dataMessage = none
  | some g => ∃ m, p.dataMessage = some m ∧ Represents m g

/-- The processor has a message to hand out. -/
structure Delivers (p : Hybi) (b : Option Begun) (d : Delivery) : Prop where
  state : p.state = .ready
  control : p.isControl = true → p.Holds b ∧
    ∃ m, p.controlMessage = some m ∧ m.opcode = d.opcode ∧ m.payload = d.payload
  data : p.isControl = false → b = none ∧
    ∃ m, p.dataMessage = some m ∧ m.opcode = d.opcode ∧ m.payload = d.payload

end Hybi

theorem joins_unique {pool : Option Failure} {b : Option Begun} {f : WireFrame} {g g' : Begun}
    (h : Joins pool b f g) (h' : Joins pool b f g') : g = g' := by
  cases h with
  | begins hpool hop =>
    cases h' with
    | begins hpool' hop' => rfl
  | continues hop =>
    cases h' with
    | continues hop' => rfl

/-- What a data frame must be to be received. -/
theorem receives_data {pool : Option Failure} {b b' : Option Begun} {f : WireFrame}
    {d : Option Delivery} (hdata : f.header.opcode.isControl = false)
    (h : Receives pool b f b' d) : ∃ g, Joins pool b f g ∧ Fits g f ∧
      (f.header.fin = false → g.Possible) ∧ (f.header.fin = true → g.Proper) := by
  cases h with
  | control hcontrol hclose =>
    rw [hdata] at hcontrol
    cases hcontrol
  | more hdata' hjoins hfits hpossible hfin =>
    refine ⟨_, hjoins, hfits, fun _ => hpossible, fun hfin' => ?_⟩
    rw [hfin] at hfin'
    cases hfin'
  | last hdata' hjoins hfits hproper hfin =>
    refine ⟨_, hjoins, hfits, fun hfin' => ?_, fun _ => hproper⟩
    rw [hfin] at hfin'
    cases hfin'

/-- A frame means one thing. -/
theorem receives_unique {pool : Option Failure} {b b₁ b₂ : Option Begun} {f : WireFrame}
    {d₁ d₂ : Option Delivery} (h₁ : Receives pool b f b₁ d₁) (h₂ : Receives pool b f b₂ d₂) :
    b₁ = b₂ ∧ d₁ = d₂ := by
  cases h₁ with
  | control hcontrol hclose =>
    cases h₂ with
    | control hcontrol' hclose' => exact ⟨rfl, rfl⟩
    | more hdata => exact absurd (hcontrol.symm.trans hdata) nofun
    | last hdata => exact absurd (hcontrol.symm.trans hdata) nofun
  | more hdata hjoins hfits hpossible hfin =>
    cases h₂ with
    | control hcontrol => exact absurd (hcontrol.symm.trans hdata) nofun
    | more hdata' hjoins' => exact ⟨by rw [joins_unique hjoins hjoins'], rfl⟩
    | last hdata' hjoins' hfits' hproper hfin' => exact absurd (hfin.symm.trans hfin') nofun
  | last hdata hjoins hfits hproper hfin =>
    cases h₂ with
    | control hcontrol => exact absurd (hcontrol.symm.trans hdata) nofun
    | more hdata' hjoins' hfits' hpossible hfin' => exact absurd (hfin.symm.trans hfin') nofun
    | last hdata' hjoins' => exact ⟨rfl, by rw [joins_unique hjoins hjoins']⟩

theorem possible_of_proper {g : Begun} (h : g.Proper) : g.Possible :=
  fun htext => beginsUtf8_of_utf8Bytes (h htext)

/-- What a data frame must be to be received, up to the message it is joined to. -/
theorem not_receives_of_not_possible {pool : Option Failure} {b : Option Begun} {f : WireFrame}
    {g : Begun} (hdata : f.header.opcode.isControl = false) (hjoins : Joins pool b f g)
    (hnot : ¬ (Fits g f ∧ g.Possible)) : ∀ b' d, ¬ Receives pool b f b' d := by
  intro b' d hreceives
  rcases receives_data hdata hreceives with ⟨g', hjoins', hfits, hmore, hlast⟩
  rw [joins_unique hjoins' hjoins] at hfits hmore hlast
  apply hnot
  cases hfin : f.header.fin with
  | false => exact ⟨hfits, hmore hfin⟩
  | true => exact ⟨hfits, possible_of_proper (hlast hfin)⟩

namespace Hybi

/-- How the processor comes out of a frame. -/
inductive Settled (pool : Option Failure) (b : Option Begun) (f : WireFrame) :
    Hybi × Except Raised Unit → Prop
  | goes {p : Hybi} {b' : Option Begun} : Receives pool b f b' none → p.Fresh → p.Holds b' →
      Settled pool b f (p, .ok ())
  | stops {p : Hybi} {b' : Option Begun} {d : Delivery} : Receives pool b f b' (some d) →
      p.Delivers b' d → Settled pool b f (p, .ok ())
  | raises {p : Hybi} {e : Raised} : (∀ b' d, ¬ Receives pool b f b' d) →
      Settled pool b f (p, .error e)

section Frames

variable {p : Hybi} {pool : Option Failure} {b : Option Begun} {f : WireFrame}

/-- The end of a control frame. -/
theorem settled_control {m : ControlMessage} (hcontrol : f.header.opcode.isControl = true)
    (hloaded : f.header.Loaded p.header) (hb : p.Holds b) (hm : p.controlMessage = some m)
    (hopcode : m.opcode = f.header.opcode) (hpayload : m.payload = f.payload) :
    Settled pool b f p.processFrame := by
  have hbegins := FrameHeader.begins_of_fills hloaded.fills
  have hisControl : p.header.isControl = true := by
    rw [FrameHeader.isControl_eq hbegins, hcontrol]
  have hfin : p.header.getFin = true := by
    rw [FrameHeader.getFin_eq hbegins, (f.header.control hcontrol).1]
  have hdelivers : Delivers { p with state := .ready } b ⟨f.header.opcode, f.payload⟩ := by
    refine ⟨rfl, fun _ => ⟨?_, m, hm, hopcode, hpayload⟩, fun hdata => ?_⟩
    · cases b with
      | none => exact hb
      | some g => exact hb
    · exact absurd (hisControl.symm.trans hdata) nofun
  have hcompleteMessage : p.completeMessage = m.complete := by
    rw [completeMessage, if_pos hisControl, hm]
  rw [processFrame, if_pos hfin, hcompleteMessage, ControlMessage.complete, hopcode, hpayload]
  by_cases hclose : f.header.opcode = .close
  · rw [if_pos hclose]
    rcases hcomplete : completeClose (textOf f.payload) with ⟨error, what⟩ | ⟨code, reason⟩
    · apply Settled.raises
      intro b' d hreceives
      cases hreceives with
      | control hcontrol' hok =>
        rcases hok hclose with ⟨code, reason, hok⟩
        rw [hcomplete] at hok
        cases hok
      | more hdata => exact absurd (hcontrol.symm.trans hdata) nofun
      | last hdata => exact absurd (hcontrol.symm.trans hdata) nofun
    · exact Settled.stops (.control hcontrol (fun _ => ⟨code, reason, hcomplete⟩)) hdelivers
  · rw [if_neg hclose]
    exact Settled.stops (.control hcontrol (fun hop => absurd hop hclose)) hdelivers

/-- The end of a data frame. -/
theorem settled_data {m : DataMessage} {g : Begun} (hdata : f.header.opcode.isControl = false)
    (hloaded : f.header.Loaded p.header) (hm : p.dataMessage = some m) (hg : Represents m g)
    (hjoins : Joins pool b f g) (hfits : Fits g f) (hpossible : g.Possible) :
    Settled pool b f p.processFrame := by
  have hbegins := FrameHeader.begins_of_fills hloaded.fills
  have hisControl : p.header.isControl = false := by
    rw [FrameHeader.isControl_eq hbegins, hdata]
  have hfinEq := FrameHeader.getFin_eq hbegins
  rw [processFrame, hfinEq]
  cases hfin : f.header.fin with
  | false =>
    simp only [Bool.false_eq_true, if_false]
    exact Settled.goes (.more hdata hjoins hfits hpossible hfin) p.fresh_reset ⟨m, hm, hg⟩
  | true =>
    have hcompleteMessage : p.completeMessage = m.complete := by
      rw [completeMessage, hisControl, hm]
      rfl
    have hcomplete := complete_iff hg
    rw [if_pos rfl, hcompleteMessage]
    rcases hresult : m.complete with e | u
    · apply Settled.raises
      intro b' d hreceives
      rcases receives_data hdata hreceives with ⟨g', hjoins', -, -, hlast⟩
      rw [joins_unique hjoins' hjoins] at hlast
      rw [hcomplete.mpr (hlast hfin)] at hresult
      cases hresult
    · apply Settled.stops (.last hdata hjoins hfits (hcomplete.mp hresult) hfin)
      refine ⟨rfl, fun hcontrol => ?_, fun _ => ⟨rfl, m, hm, hg.opcode, hg.payload⟩⟩
      exact absurd (hisControl.symm.trans hcontrol) nofun

/-- What follows the bytes of a payload. -/
def filled (q : Hybi) : Except Raised Nat → Hybi × Except Raised Unit
  | .error e => (q, .error e)
  | .ok written => q.finishPayload written

/-- A payload that is there is read in one round. -/
theorem consume_payload {input rest : List UInt8} {q : Hybi} {out : Except Raised Nat}
    (hp : p.Sound) (hstate : p.state = .readPayload) (hleft : p.payloadLeft ≤ input.length)
    (hfill : p.fillMessage input = (q, rest, out)) :
    p.consume pool input = goOn pool rest (q.filled out) := by
  have hready : p.state ≠ .ready := by
    rw [hstate]
    exact nofun
  have hround := @round_readPayload p pool input hstate
  rw [processPayload, hfill] at hround
  rw [← wanted_readPayload hstate] at hleft
  cases out with
  | error e => exact consume_of_round hp hready hround hleft
  | ok written => exact consume_of_round hp hready hround hleft

/-- The payload of a control frame is read into its message. -/
theorem fillMessage_control {q : Hybi} (hcontrol : f.header.opcode.isControl = true)
    (hisControl : q.header.isControl = true) (hleft : q.payloadLeft = f.payload.length)
    (hmessage : q.controlMessage = some (ControlMessage.reset f.header.opcode f.key))
    (rest : List UInt8) :
    ∃ m', m'.opcode = f.header.opcode ∧ m'.payload = f.payload ∧
      q.fillMessage (maskFrom f.key 0 f.payload ++ rest) =
        ({ q with controlMessage := some m' }, rest, .ok f.payload.length) := by
  have hsmall : f.payload.length ≤ 125 := by
    rw [f.length_eq]
    exact (f.header.control hcontrol).2
  have hmask := length_maskFrom f.key 0 f.payload
  rcases ControlMessage.eat_masked (i := 0)
    (show (ControlMessage.reset f.header.opcode f.key).maskingKey = f.key from rfl) rfl
    f.payload with ⟨m', heat, hop, hpayload⟩
  have hfits : ¬ ControlMessage.payloadSizeMax <
      ((ControlMessage.reset f.header.opcode f.key).payload.length + f.payload.length) %
        2 ^ 64 := by
    have hzero : (ControlMessage.reset f.header.opcode f.key).payload.length = 0 := rfl
    unfold ControlMessage.payloadSizeMax
    omega
  have hprocess : ControlMessage.processPayload (.reset f.header.opcode f.key)
      (maskFrom f.key 0 f.payload ++ rest) f.payload.length =
        (m', rest, .ok f.payload.length) := by
    rw [ControlMessage.processPayload, fillPayload, if_neg hfits,
      Feed.eat_append_of_le (Nat.le_of_eq hmask.symm), heat]
    rfl
  refine ⟨m', hop, hpayload, ?_⟩
  simp only [fillMessage, hisControl, if_true, hmessage, hleft, hprocess]

/-- The payload of a control frame, behind its header. -/
theorem settled_processControlHeader (hp : p.Sound) (hcontrol : f.header.opcode.isControl = true)
    (hloaded : f.header.Loaded p.header) (hb : p.Holds b) (rest : List UInt8) :
    ∃ out rest', Settled pool b f out ∧ (out.2 = .ok () → rest' = rest) ∧
      goOn pool (maskFrom f.key 0 f.payload ++ rest) p.processControlHeader =
        goOn pool rest' out := by
  have hbegins := FrameHeader.begins_of_fills hloaded.fills
  have hisControl : p.header.isControl = true := by
    rw [FrameHeader.isControl_eq hbegins, hcontrol]
  have hkey : p.header.getMaskingKey = f.key := FrameHeader.getMaskingKey_eq hloaded.fills
  have hopcode : p.header.getOpcode = f.header.opcode := FrameHeader.getOpcode_eq hbegins
  have hsize : p.header.payloadSize = f.payload.length := by
    rw [hloaded.payloadSize, f.length_eq]
  rw [processControlHeader, hkey, hopcode, hsize]
  simp only
  generalize hq : Hybi.mk p.state p.dataMessage
    (some (ControlMessage.reset f.header.opcode f.key)) p.header f.payload.length = q
  have hqLoaded : f.header.Loaded q.header := by
    rw [← hq]
    exact hloaded
  have hqHolds : q.Holds b := by
    rw [← hq]
    cases b with
    | none => exact hb
    | some g => exact hb
  have hqMessage : q.controlMessage = some (ControlMessage.reset f.header.opcode f.key) := by
    rw [← hq]
  have hqLeft : q.payloadLeft = f.payload.length := by rw [← hq]
  by_cases hnil : f.payload.length = 0
  · have hpayload : f.payload = [] := List.eq_nil_of_length_eq_zero hnil
    have hmasked : maskFrom f.key 0 f.payload ++ rest = rest := by
      rw [hpayload]
      rfl
    rw [if_pos hnil, hmasked]
    exact ⟨_, rest, settled_control hcontrol hqLoaded hqHolds hqMessage rfl hpayload.symm,
      fun _ => rfl, rfl⟩
  rw [if_neg hnil]
  have hqSound : Sound { q with state := .readPayload } := by
    rw [← hq]
    exact hp
  have hqControl : q.header.isControl = true := by
    rw [← hq]
    exact hisControl
  have hroom : q.payloadLeft ≤ (maskFrom f.key 0 f.payload ++ rest).length := by
    rw [hqLeft, List.length_append, length_maskFrom]
    exact Nat.le_add_right _ _
  rcases @fillMessage_control f { q with state := .readPayload } hcontrol hqControl hqLeft
    hqMessage rest with ⟨m', hop, hpayload, hfill⟩
  have hconsume := @consume_payload _ pool _ _ _ _ hqSound rfl hroom hfill
  refine ⟨_, rest, ?_, fun _ => rfl, by rw [← hconsume, ← hq]; rfl⟩
  have hzero : q.payloadLeft - f.payload.length = 0 := by
    rw [hqLeft]
    exact Nat.sub_self _
  simp only [filled, finishPayload, hzero, if_true]
  refine settled_control (m := m') hcontrol hqLoaded ?_ rfl hop hpayload
  cases b with
  | none => exact hqHolds
  | some g => exact hqHolds

/-- The processor in front of the payload of a data frame. -/
structure BeforePayload (q : Hybi) (f : WireFrame) (m : DataMessage) : Prop where
  sound : q.Sound
  state : q.state = .readPayload
  opcode : f.header.opcode.isControl = false
  loaded : f.header.Loaded q.header
  message : q.dataMessage = some m
  left : q.payloadLeft = f.payload.length

/-- What the message does with the payload is the next round. -/
theorem goOn_of_processPayload {q : Hybi} {m m' : DataMessage} {rest rest' : List UInt8}
    {out : Except Raised Nat} (hq : BeforePayload q f m)
    (hprocess : m.processPayload (maskFrom f.key 0 f.payload ++ rest) f.payload.length =
      (m', rest', out)) :
    goOn pool (maskFrom f.key 0 f.payload ++ rest) (q, .ok ()) =
      goOn pool rest' (filled { q with dataMessage := some m' } out) := by
  have hisControl : q.header.isControl = false := by
    rw [FrameHeader.isControl_eq (FrameHeader.begins_of_fills hq.loaded.fills), hq.opcode]
  have hleft : q.payloadLeft ≤ (maskFrom f.key 0 f.payload ++ rest).length := by
    rw [hq.left, List.length_append, length_maskFrom]
    exact Nat.le_add_right _ _
  have hfill : q.fillMessage (maskFrom f.key 0 f.payload ++ rest) =
      ({ q with dataMessage := some m' }, rest', out) := by
    simp only [fillMessage, hisControl, Bool.false_eq_true, if_false, hq.message, hq.left,
      hprocess]
  exact consume_payload hq.sound hq.state hleft hfill

/-- The check of the size refuses the payload. -/
theorem settled_tooBig {q : Hybi} {m : DataMessage} {g g' : Begun} (hq : BeforePayload q f m)
    (hg : Represents m g) (hjoins : Joins pool b f g')
    (hjoin : g' = ⟨g.opcode, g.payload ++ f.payload⟩) (hne : f.payload ≠ [])
    (hbig : DataMessage.payloadSizeMax < g'.payload.length % 2 ^ 64) (rest : List UInt8) :
    ∃ out rest', Settled pool b f out ∧ (out.2 = .ok () → rest' = rest) ∧
      goOn pool (maskFrom f.key 0 f.payload ++ rest) (q, .ok ()) = goOn pool rest' out := by
  have hlength : m.payload.length + f.payload.length = g'.payload.length := by
    rw [hg.payload, hjoin, List.length_append]
  have hprocess : m.processPayload (maskFrom f.key 0 f.payload ++ rest) f.payload.length =
      (m, maskFrom f.key 0 f.payload ++ rest,
        .error (.exception .messageTooBig "Message too big".toList)) := by
    rw [DataMessage.processPayload, fillPayload, hlength, if_pos hbig]
  refine ⟨_, _, ?_, ?_, goOn_of_processPayload hq hprocess⟩
  · apply Settled.raises
    apply not_receives_of_not_possible hq.opcode hjoins
    rintro ⟨hempty | hsmall, -⟩
    · exact hne hempty
    · exact Nat.not_lt.mpr hsmall hbig
  · intro hok
    cases hok

/-- A payload of a size that is allowed is read as long as it can be a text. -/
theorem settled_payload {q : Hybi} {m : DataMessage} {g g' : Begun} (hq : BeforePayload q f m)
    (hg : Represents m g) (hat : m.At f.key 0) (hjoins : Joins pool b f g')
    (hjoin : g' = ⟨g.opcode, g.payload ++ f.payload⟩)
    (hfits : ¬ DataMessage.payloadSizeMax < g'.payload.length % 2 ^ 64) (rest : List UInt8) :
    ∃ out rest', Settled pool b f out ∧ (out.2 = .ok () → rest' = rest) ∧
      goOn pool (maskFrom f.key 0 f.payload ++ rest) (q, .ok ()) = goOn pool rest' out := by
  have hlength : m.payload.length + f.payload.length = g'.payload.length := by
    rw [hg.payload, hjoin, List.length_append]
  have hmask := length_maskFrom f.key 0 f.payload
  have hprocess : m.processPayload (maskFrom f.key 0 f.payload ++ rest) f.payload.length =
      Feed.eat DataMessage.processCharacter f.payload.length m
        (maskFrom f.key 0 f.payload ++ rest) := by
    rw [DataMessage.processPayload, fillPayload, hlength, if_neg hfits]
  rw [Feed.eat_append_of_le (Nat.le_of_eq hmask.symm)] at hprocess
  have hpossible := judge_iff hg f.payload
  rw [← hjoin] at hpossible
  rcases DataMessage.eat_masked hat f.payload with
    ⟨hjudge, m', heat, hopcode, hpayload, hvalidator⟩ | ⟨hjudge, m', rest', heat⟩
  · rw [heat] at hprocess
    refine ⟨_, rest, ?_, fun _ => rfl, goOn_of_processPayload hq hprocess⟩
    have hzero : q.payloadLeft - f.payload.length = 0 := by
      rw [hq.left]
      exact Nat.sub_self _
    simp only [filled, finishPayload, hzero, if_true]
    have hg' := hg.join hjudge hopcode hpayload hvalidator
    rw [← hjoin] at hg'
    exact settled_data (m := m') hq.opcode hq.loaded rfl hg' hjoins (Or.inr (Nat.not_lt.mp hfits))
      (hpossible.mp hjudge)
  · rw [heat] at hprocess
    refine ⟨_, _, ?_, ?_, goOn_of_processPayload hq hprocess⟩
    · apply Settled.raises
      apply not_receives_of_not_possible hq.opcode hjoins
      rintro ⟨-, hpossible'⟩
      rw [hpossible.mpr hpossible'] at hjudge
      cases hjudge
    · intro hok
      cases hok

/-- The payload of a data frame, behind its header. -/
theorem settled_beginPayload {m : DataMessage} {g g' : Begun} (hp : p.Sound)
    (hdata : f.header.opcode.isControl = false) (hloaded : f.header.Loaded p.header)
    (hg : Represents m g) (hjoins : Joins pool b f g')
    (hjoin : g' = ⟨g.opcode, g.payload ++ f.payload⟩) (rest : List UInt8) :
    ∃ out rest', Settled pool b f out ∧ (out.2 = .ok () → rest' = rest) ∧
      goOn pool (maskFrom f.key 0 f.payload ++ rest) (p.beginPayload m) =
        goOn pool rest' out := by
  have hkey : p.header.getMaskingKey = f.key := FrameHeader.getMaskingKey_eq hloaded.fills
  have hsize : p.header.payloadSize = f.payload.length := by
    rw [hloaded.payloadSize, f.length_eq]
  rw [beginPayload, hkey, hsize]
  simp only
  by_cases hnil : f.payload.length = 0
  · have hpayload : f.payload = [] := List.eq_nil_of_length_eq_zero hnil
    have hsame : g' = g := by
      rw [hjoin, hpayload, List.append_nil]
    rw [hsame] at hjoins
    have hmasked : maskFrom f.key 0 f.payload ++ rest = rest := by
      rw [hpayload]
      rfl
    rw [if_pos hnil, hmasked]
    refine ⟨_, rest, settled_data (p := { p with
      dataMessage := some m, payloadLeft := f.payload.length }) hdata hloaded rfl hg hjoins
      (Or.inl hpayload) ?_, fun _ => rfl, rfl⟩
    exact fun htext => (Validator.decodeBytes_reset_iff _).mp (hg.possible htext)
  rw [if_neg hnil]
  have hbefore : BeforePayload { p with
      state := .readPayload, dataMessage := some (m.setMaskingKey f.key),
      payloadLeft := f.payload.length } f (m.setMaskingKey f.key) :=
    ⟨hp, rfl, hdata, hloaded, rfl, rfl⟩
  have hg₁ := hg.setMaskingKey f.key
  by_cases hbig : DataMessage.payloadSizeMax < g'.payload.length % 2 ^ 64
  · have hne : f.payload ≠ [] := by
      intro hempty
      exact hnil (by rw [hempty]; rfl)
    exact settled_tooBig hbefore hg₁ hjoins hjoin hne hbig rest
  · exact settled_payload hbefore hg₁ (m.at_setMaskingKey f.key) hjoins hjoin hbig rest

/-- The header of a data frame, and its payload. -/
theorem settled_processDataHeader (hp : p.Sound) (hdata : f.header.opcode.isControl = false)
    (hloaded : f.header.Loaded p.header) (hb : p.Holds b) (rest : List UInt8) :
    ∃ out rest', Settled pool b f out ∧ (out.2 = .ok () → rest' = rest) ∧
      goOn pool (maskFrom f.key 0 f.payload ++ rest) (p.processDataHeader pool) =
        goOn pool rest' out := by
  have hopcode := FrameHeader.getOpcode_eq (FrameHeader.begins_of_fills hloaded.fills)
  have hraises : ∀ e, (∀ g, ¬ Joins pool b f g) → ∃ out rest', Settled pool b f out ∧
      (out.2 = .ok () → rest' = rest) ∧
      goOn pool (maskFrom f.key 0 f.payload ++ rest) (p, .error e) = goOn pool rest' out := by
    intro e hnone
    refine ⟨(p, .error e), _, Settled.raises (fun b' d hreceives => ?_), nofun, rfl⟩
    rcases receives_data hdata hreceives with ⟨g, hjoins, -⟩
    exact hnone g hjoins
  unfold processDataHeader
  rw [hopcode]
  cases b with
  | none =>
    have hnone : p.dataMessage = none := hb
    simp only [hnone]
    by_cases hcontinuation : f.header.opcode = .continuation
    · simp only [hcontinuation, if_true]
      apply hraises
      intro g hjoins
      cases hjoins with
      | begins hpool hop => exact hop hcontinuation
    · simp only [hcontinuation, if_false]
      cases pool with
      | some e =>
        apply hraises
        intro g hjoins
        cases hjoins with
        | begins hpool hop => cases hpool
      | none =>
        exact settled_beginPayload hp hdata hloaded (represents_reset f.header.opcode)
          (.begins rfl hcontinuation) (by rw [List.nil_append]) rest
  | some g =>
    rcases hb with ⟨m, hm, hg⟩
    simp only [hm]
    by_cases hcontinuation : f.header.opcode = .continuation
    · simp only [hcontinuation, ne_eq, not_true_eq_false, if_false]
      exact settled_beginPayload hp hdata hloaded hg (.continues hcontinuation) rfl rest
    · simp only [hcontinuation, ne_eq, not_false_eq_true, if_true]
      apply hraises
      intro g' hjoins
      cases hjoins with
      | continues hop => exact hcontinuation hop

/-- A whole frame. -/
theorem consume_frame (hp : p.Fresh) (hb : p.Holds b) (pool : Option Failure) (f : WireFrame)
    (rest : List UInt8) :
    ∃ out rest', Settled pool b f out ∧ (out.2 = .ok () → rest' = rest) ∧
      p.consume pool (f.bytes ++ rest) = goOn pool rest' out := by
  rcases consume_header hp pool f.header (maskFrom f.key 0 f.payload ++ rest) with
    ⟨r, hloaded, hconsume⟩
  have hsound : Sound { p with header := r } :=
    HybiHeader.sound_of_ne (by rw [hloaded.state]; exact nofun)
  have hholds : Holds { p with header := r } b := by
    cases b with
    | none => exact hb
    | some g => exact hb
  have hisControl := FrameHeader.isControl_eq (FrameHeader.begins_of_fills hloaded.fills)
  rw [WireFrame.bytes, List.append_assoc, hconsume, enter]
  cases hcontrol : f.header.opcode.isControl with
  | true =>
    simp only [hisControl.trans hcontrol, if_true]
    exact settled_processControlHeader (p := { p with header := r }) hsound hcontrol hloaded
      hholds rest
  | false =>
    simp only [hisControl.trans hcontrol, Bool.false_eq_true, if_false]
    exact settled_processDataHeader (p := { p with header := r }) hsound hcontrol hloaded
      hholds rest

end Frames

/-- Nothing is read behind a message. -/
theorem consume_of_ready {p : Hybi} (hready : p.state = .ready) (pool : Option Failure)
    (input : List UInt8) : p.consume pool input = (p, input, .stopped) := by
  have hstopped : (reader pool).stopped p = true := decide_eq_true hready
  rw [consume, Feed.Reader.read, Feed.Reader.bound, Feed.Reader.readWithin, if_pos hstopped]

/-- A frame that goes on, one that completes a message, and one that is not allowed. -/
theorem frame_cases {p : Hybi} {b : Option Begun} (hp : p.Fresh) (hb : p.Holds b)
    (pool : Option Failure) (f : WireFrame) (rest : List UInt8) :
    (∃ (p' : Hybi) (b' : Option Begun), Receives pool b f b' none ∧ p'.Fresh ∧ p'.Holds b' ∧
      p.consume pool (f.bytes ++ rest) = p'.consume pool rest) ∨
    (∃ (p' : Hybi) (b' : Option Begun) (d : Delivery), Receives pool b f b' (some d) ∧
      p'.Delivers b' d ∧
      p.consume pool (f.bytes ++ rest) = (p', rest, .stopped)) ∨
    ((∀ b' d, ¬ Receives pool b f b' d) ∧
      ∃ e, (p.consume pool (f.bytes ++ rest)).2.2 = .raised e) := by
  rcases consume_frame hp hb pool f rest with ⟨out, rest', hsettled, hrest, hconsume⟩
  cases hsettled with
  | goes hreceives hfresh hholds =>
    rw [hrest rfl] at hconsume
    exact Or.inl ⟨_, _, hreceives, hfresh, hholds, hconsume⟩
  | stops hreceives hdelivers =>
    rw [hrest rfl] at hconsume
    refine Or.inr (Or.inl ⟨_, _, _, hreceives, hdelivers, ?_⟩)
    rw [hconsume]
    exact consume_of_ready hdelivers.state pool rest
  | @raises p' e hnot =>
    refine Or.inr (Or.inr ⟨hnot, e, ?_⟩)
    rw [hconsume]
    rfl

/-- Behind the header of a frame with a payload, the payload is awaited. -/
theorem enter_ok {p p' : Hybi} {pool : Option Failure} (hsize : p.header.payloadSize ≠ 0)
    (h : p.enter pool = (p', .ok ())) :
    p'.state = .readPayload ∧ p'.payloadLeft = p.header.payloadSize ∧ p'.header = p.header := by
  have hbegin : ∀ m, p.beginPayload m = (p', .ok ()) →
      p'.state = .readPayload ∧ p'.payloadLeft = p.header.payloadSize ∧ p'.header = p.header := by
    intro m hm
    rw [beginPayload] at hm
    simp only [hsize, if_false] at hm
    rw [← (Prod.mk.inj hm).1]
    exact ⟨rfl, rfl, rfl⟩
  unfold enter at h
  split at h
  · rw [processControlHeader] at h
    simp only [hsize, if_false] at h
    rw [← (Prod.mk.inj h).1]
    exact ⟨rfl, rfl, rfl⟩
  · unfold processDataHeader at h
    split at h
    · split at h
      · cases h
      split at h
      · cases h
      · exact hbegin _ h
    · split at h
      · cases h
      · exact hbegin _ h

/-- Where the processor comes to a message, the stream starts with a frame. -/
theorem frame_of_consume {p : Hybi} (hp : p.Fresh) {pool : Option Failure} {input : List UInt8}
    (hstopped : (p.consume pool input).2.2 = .stopped) :
    ∃ (f : WireFrame) (rest : List UInt8), input = f.bytes ++ rest := by
  rcases header_of_consume hp hstopped with ⟨l, rest, hinput⟩
  by_cases hlong : l.size ≤ rest.length
  · have htake : (rest.take l.size).length = l.size := by
      rw [List.length_take]
      exact Nat.min_eq_left hlong
    rcases WireFrame.exists_of_header l htake with ⟨f, -, hf⟩
    refine ⟨f, rest.drop l.size, ?_⟩
    rw [hinput, ← hf, List.append_assoc, List.take_append_drop]
  · rcases consume_header hp pool l rest with ⟨r, hloaded, hconsume⟩
    have hsize : r.payloadSize ≠ 0 := by
      rw [hloaded.payloadSize]
      omega
    rw [hinput, hconsume] at hstopped
    rcases henter : enter { p with header := r } pool with ⟨p', e | u⟩
    · rw [henter] at hstopped
      cases hstopped
    · rw [henter] at hstopped
      rcases enter_ok (p := { p with header := r }) hsize henter with ⟨hstate, hleft, hheader⟩
      have hsound : p'.Sound := by
        apply HybiHeader.sound_of_ne
        rw [hheader]
        exact hloaded.state ▸ nofun
      have hready : p'.state ≠ .ready := by
        rw [hstate]
        exact nofun
      have hshort : rest.length < p'.wanted := by
        rw [wanted_readPayload hstate, hleft]
        exact hloaded.payloadSize ▸ Nat.not_le.mp hlong
      exact absurd hstopped (consume_ne_stopped hsound hready hshort)

end Hybi

/-! ### Whole streams -/

/-- The bytes of some frames. -/
def wireBytes (frames : List WireFrame) : List UInt8 := frames.flatMap WireFrame.bytes

theorem wireBytes_cons (f : WireFrame) (frames : List WireFrame) :
    wireBytes (f :: frames) = f.bytes ++ wireBytes frames := List.flatMap_cons

theorem WireFrame.bytes_ne_nil (f : WireFrame) : f.bytes ≠ [] := by
  rw [bytes, FrameHeader.bytes, List.cons_append]
  exact List.cons_ne_nil _ _

namespace Hybi

/-- The message that frames say is the message the processor comes to. -/
theorem consume_of_receivesAll {p : Hybi} {pool : Option Failure} {b b' : Option Begun}
    {frames : List WireFrame} {d : Delivery} (hp : p.Fresh) (hb : p.Holds b)
    (h : ReceivesAll pool b frames b' d) (rest : List UInt8) :
    ∃ p' : Hybi, p'.Delivers b' d ∧
      p.consume pool (wireBytes frames ++ rest) = (p', rest, .stopped) := by
  induction h generalizing p with
  | @last b b' f d hreceives =>
    have hbytes : wireBytes [f] ++ rest = f.bytes ++ rest := by
      rw [wireBytes_cons]
      exact congrArg (· ++ rest) (List.append_nil _)
    rw [hbytes]
    rcases frame_cases hp hb pool f rest with
      ⟨p₁, b₁, hgoes, -⟩ | ⟨p₁, b₁, d₁, hstops, hdelivers, hconsume⟩ | ⟨hnot, -⟩
    · exact absurd (receives_unique hreceives hgoes).2 nofun
    · rcases receives_unique hreceives hstops with ⟨rfl, hd⟩
      cases hd
      exact ⟨p₁, hdelivers, hconsume⟩
    · exact absurd hreceives (hnot _ _)
  | @more b b₁ b' f frames d hreceives hall ih =>
    rw [wireBytes_cons, List.append_assoc]
    rcases frame_cases hp hb pool f (wireBytes frames ++ rest) with
      ⟨p₁, b₁', hgoes, hfresh, hholds, hconsume⟩ | ⟨p₁, b₁', d₁, hstops, -⟩ | ⟨hnot, -⟩
    · rcases receives_unique hreceives hgoes with ⟨rfl, -⟩
      rw [hconsume]
      exact ih hfresh hholds
    · exact absurd (receives_unique hreceives hstops).2 nofun
    · exact absurd hreceives (hnot _ _)

/-- The message the processor comes to is one that the frames of the stream say. -/
theorem receivesAll_of_consume {p p' : Hybi} {pool : Option Failure} {b : Option Begun}
    {input rest : List UInt8} (hp : p.Fresh) (hb : p.Holds b)
    (h : p.consume pool input = (p', rest, .stopped)) :
    ∃ frames b' d, input = wireBytes frames ++ rest ∧ ReceivesAll pool b frames b' d ∧
      p'.Delivers b' d := by
  induction hn : input.length using Nat.strongRecOn generalizing p b input with
  | ind n ih =>
    rcases frame_of_consume hp (congrArg (fun o => o.2.2) h) with ⟨f, rest₁, hinput⟩
    rw [hinput] at h
    rcases frame_cases hp hb pool f rest₁ with
      ⟨p₁, b₁, hreceives, hfresh, hholds, hconsume⟩ | ⟨p₁, b₁, d, hreceives, hdelivers, hconsume⟩ |
      ⟨-, e, hraised⟩
    · rw [hconsume] at h
      have hless : rest₁.length < n := by
        have hpos := List.length_pos_iff.mpr f.bytes_ne_nil
        rw [← hn, hinput, List.length_append]
        omega
      rcases ih _ hless hfresh hholds h rfl with ⟨frames, b', d, hrest, hall, hdelivers⟩
      refine ⟨f :: frames, b', d, ?_, .more hreceives hall, hdelivers⟩
      rw [hinput, hrest, wireBytes_cons, List.append_assoc]
    · rw [hconsume] at h
      cases h
      refine ⟨[f], b₁, d, ?_, .last hreceives, hdelivers⟩
      rw [hinput]
      rw [wireBytes_cons]
      exact congrArg (· ++ rest) (List.append_nil _).symm
    · rw [h] at hraised
      cases hraised

/-- A processor has one message to hand out. -/
theorem delivers_unique {p : Hybi} {b b' : Option Begun} {d d' : Delivery}
    (h : p.Delivers b d) (h' : p.Delivers b' d') : b = b' ∧ d = d' := by
  have hmessage : ∀ (op op' : FrameOpcode) (payload payload' : List UInt8),
      op = d.opcode → payload = d.payload → op' = d'.opcode → payload' = d'.payload →
      op = op' → payload = payload' → d = d' := by
    rintro op op' payload payload' rfl rfl rfl rfl hop hpayload
    cases d
    cases d'
    exact congrArg₂ Delivery.mk hop hpayload
  cases hcontrol : p.isControl with
  | true =>
    rcases h.control hcontrol with ⟨hb, m, hm, hop, hpayload⟩
    rcases h'.control hcontrol with ⟨hb', m', hm', hop', hpayload'⟩
    rw [hm] at hm'
    cases hm'
    refine ⟨?_, hmessage _ _ _ _ hop hpayload hop' hpayload' rfl rfl⟩
    cases b with
    | none =>
      cases b' with
      | none => rfl
      | some g' =>
        rcases hb' with ⟨m', hm', -⟩
        exact absurd ((show p.dataMessage = none from hb).symm.trans hm') nofun
    | some g =>
      rcases hb with ⟨m₁, hm₁, hg⟩
      cases b' with
      | none => exact absurd ((show p.dataMessage = none from hb').symm.trans hm₁) nofun
      | some g' =>
        rcases hb' with ⟨m₂, hm₂, hg'⟩
        rw [hm₁] at hm₂
        cases hm₂
        cases g
        cases g'
        exact congrArg some (congrArg₂ Begun.mk (hg.opcode.symm.trans hg'.opcode)
          (hg.payload.symm.trans hg'.payload))
  | false =>
    rcases h.data hcontrol with ⟨hb, m, hm, hop, hpayload⟩
    rcases h'.data hcontrol with ⟨hb', m', hm', hop', hpayload'⟩
    rw [hm] at hm'
    cases hm'
    exact ⟨hb.trans hb'.symm, hmessage _ _ _ _ hop hpayload hop' hpayload' rfl rfl⟩

/-- The processor when its message has been taken. -/
theorem taken_delivers {p : Hybi} {b : Option Begun} {d : Delivery} (h : p.Delivers b d) :
    p.taken.Fresh ∧ p.taken.Holds b := by
  unfold taken
  cases hcontrol : p.isControl with
  | true =>
    rw [if_pos rfl]
    refine ⟨fresh_reset _, ?_⟩
    have hb := (h.control hcontrol).1
    cases b with
    | none => exact hb
    | some g => exact hb
  | false =>
    rw [if_neg Bool.false_ne_true]
    refine ⟨fresh_reset _, ?_⟩
    rw [(h.data hcontrol).1]
    rfl

end Hybi

/-- **What the processor makes of a stream.**  Between two frames it comes to a message, with so
    many bytes left, exactly when the bytes before these are those of frames the protocol
    allows, the last of which completes this message; and into what pieces the bytes are cut
    makes no difference. -/
theorem delivered_iff {p : Hybi} {b b' : Option Begun} (hp : p.Fresh) (hb : p.Holds b)
    (pool : Option Failure) {pieces : List (List UInt8)} (hpieces : pieces ≠ [])
    (rest : List UInt8) (d : Delivery) :
    (∃ p', p.feed pool pieces = (p', rest, .stopped) ∧ p'.Delivers b' d) ↔
      ∃ frames, pieces.flatten = wireBytes frames ++ rest ∧ ReceivesAll pool b frames b' d := by
  have hwhole : ∀ p', p.feed pool pieces = (p', rest, .stopped) ↔
      p.consume pool pieces.flatten = (p', rest, .stopped) := by
    intro p'
    rcases Hybi.feed_cases hp.sound pool hpieces with hsame | ⟨e, hfeed, hconsume, -⟩
    · rw [hsame]
    · constructor
      · intro h
        rw [h] at hfeed
        cases hfeed
      · intro h
        rw [h] at hconsume
        cases hconsume
  constructor
  · rintro ⟨p', hfeed, hdelivers⟩
    rcases Hybi.receivesAll_of_consume hp hb ((hwhole p').mp hfeed) with
      ⟨frames, b₁, d₁, hinput, hall, hdelivers₁⟩
    rcases Hybi.delivers_unique hdelivers₁ hdelivers with ⟨rfl, rfl⟩
    exact ⟨frames, hinput, hall⟩
  · rintro ⟨frames, hinput, hall⟩
    rcases Hybi.consume_of_receivesAll hp hb hall rest with ⟨p', hdelivers, hconsume⟩
    rw [← hinput] at hconsume
    exact ⟨p', (hwhole p').mpr hconsume, hdelivers⟩

theorem delivered_iff_text :
    (∃ p', Hybi.initial.feed none [[0x81], [0x01, 0x61]] = (p', [], .stopped) ∧
        p'.Delivers none ⟨.text, [0x61]⟩) ↔
      ∃ frames, [[0x81], [0x01, 0x61]].flatten = wireBytes frames ++ [] ∧
        ReceivesAll none none frames none ⟨.text, [0x61]⟩ :=
  delivered_iff Hybi.fresh_initial (show Hybi.initial.Holds none from rfl) none
    (List.cons_ne_nil _ _) [] ⟨.text, [0x61]⟩

end SocketIOStress
