import Mathlib.Data.List.Forall2
import SocketIOStress.Hybi.Writer

/-!
# From one processor to another

The loop that hands out the messages of a stream, in the order in which they are
complete, and what comes of the messages one side prepares: the other side comes to
these messages, in this order, wherever the stream is cut.
-/

namespace SocketIOStress

namespace Hybi

/-- What the message that is ready says. -/
def delivery (p : Hybi) : Option Delivery :=
  if p.isControl then p.controlMessage.map (fun m => ⟨m.opcode, m.payload⟩)
  else p.dataMessage.map (fun m => ⟨m.opcode, m.payload⟩)

/-- The messages of a piece of the stream: the loop of `handle_read_frame` as far as the
    processor goes.  Every message takes a byte. -/
def hearWithin (pool : Option Failure) :
    Nat → Hybi → List UInt8 → List Delivery × Feed.Outcome Hybi UInt8 Raised
  | 0, p, input => ([], (p, input, .starved))
  | bound + 1, p, input =>
      if input = [] then ([], (p, [], .starved))
      else
        match p.consume pool input with
        | (p', rest, .stopped) =>
            let heard := hearWithin pool bound p'.taken rest
            (p'.delivery.toList ++ heard.1, heard.2)
        | (p', rest, .starved) => ([], (p', rest, .starved))
        | (p', rest, .raised e) => ([], (p', rest, .raised e))

def hear (p : Hybi) (pool : Option Failure) (input : List UInt8) :
    List Delivery × Feed.Outcome Hybi UInt8 Raised :=
  hearWithin pool (input.length + 1) p input

/-- The messages of a stream in pieces. -/
def hearPieces (pool : Option Failure) :
    Hybi → List (List UInt8) → List Delivery × Feed.Outcome Hybi UInt8 Raised
  | p, [] => ([], (p, [], .starved))
  | p, piece :: pieces =>
      match p.hear pool piece with
      | (ds, (p', _, .starved)) =>
          let heard := hearPieces pool p' pieces
          (ds ++ heard.1, heard.2)
      | (ds, (p', rest, .stopped)) => (ds, (p', rest ++ pieces.flatten, .stopped))
      | (ds, (p', rest, .raised e)) => (ds, (p', rest ++ pieces.flatten, .raised e))

theorem delivery_eq {p : Hybi} {b : Option Begun} {d : Delivery} (h : p.Delivers b d) :
    p.delivery = some d := by
  unfold delivery
  cases hcontrol : p.isControl with
  | true =>
    rcases h.control hcontrol with ⟨-, m, hm, hop, hpayload⟩
    rw [hm, if_pos rfl, Option.map_some, hop, hpayload]
  | false =>
    rcases h.data hcontrol with ⟨-, m, hm, hop, hpayload⟩
    rw [hm, if_neg Bool.false_ne_true, Option.map_some, hop, hpayload]

/-- The processor waits for bytes. -/
structure Awaiting (p : Hybi) : Prop where
  sound : p.Sound
  state : p.state ≠ .ready
  wanted : 0 < p.wanted

theorem Fresh.awaiting {p : Hybi} (hp : p.Fresh) : p.Awaiting := by
  refine ⟨hp.sound, ?_, ?_⟩
  · rw [hp.state]
    decide
  · rw [wanted_readHeader hp.state (by rw [hp.header.state]; decide), hp.header.bytesNeeded]
    decide

theorem taken_fresh (p : Hybi) : p.taken.Fresh := by
  unfold taken
  split
  · exact fresh_reset _
  · exact fresh_reset _

/-- A processor that has run out of bytes waits for more. -/
theorem awaiting_of_starved {p p' : Hybi} {pool : Option Failure} {input rest : List UInt8}
    (hp : p.Sound) (h : p.consume pool input = (p', rest, .starved)) :
    p'.Awaiting ∧ rest = [] ∧ ∀ ys, Feed.Reader.Agree SameButLeft
      (p.consume pool (input ++ ys)) (p'.consume pool ys) := by
  rcases (reader_lawful pool).read_append_of_starved hp h with
    ⟨hp', hrest, ⟨hstopped, hwanted⟩, -, hagree⟩
  exact ⟨⟨hp', of_decide_eq_false hstopped, hwanted⟩, hrest, hagree⟩

/-- A message takes at least a byte. -/
theorem length_of_stopped {p p' : Hybi} {pool : Option Failure} {input rest : List UInt8}
    (hp : p.Awaiting) (h : p.consume pool input = (p', rest, .stopped)) :
    rest.length < input.length := by
  have hless := (reader_lawful pool).length_of_read hp.sound (decide_eq_false hp.state) h
  have hwanted : 0 < (reader pool).wanted p := hp.wanted
  omega

theorem hearWithin_eq {p : Hybi} {pool : Option Failure} {n m : Nat} {input : List UInt8}
    (hp : p.Awaiting) (hn : input.length < n) (hm : input.length < m) :
    hearWithin pool n p input = hearWithin pool m p input := by
  induction n generalizing m p input with
  | zero => exact absurd hn (Nat.not_lt_zero _)
  | succ n ih =>
    cases m with
    | zero => exact absurd hm (Nat.not_lt_zero _)
    | succ m =>
      rw [hearWithin, hearWithin]
      by_cases hnil : input = []
      · rw [if_pos hnil, if_pos hnil]
      rw [if_neg hnil, if_neg hnil]
      rcases hconsume : p.consume pool input with ⟨p', rest, o⟩
      cases o with
      | starved => rfl
      | raised e => rfl
      | stopped =>
        have hless := length_of_stopped hp hconsume
        simp only
        rw [ih p'.taken_fresh.awaiting (Nat.lt_of_lt_of_le hless (Nat.le_of_lt_succ hn))
          (Nat.lt_of_lt_of_le hless (Nat.le_of_lt_succ hm))]

/-- The recursion equation of the loop. -/
theorem hear_eq {p : Hybi} (hp : p.Awaiting) (pool : Option Failure) (input : List UInt8) :
    p.hear pool input =
      if input = [] then ([], (p, [], .starved))
      else
        match p.consume pool input with
        | (p', rest, .stopped) =>
            (p'.delivery.toList ++ (p'.taken.hear pool rest).1, (p'.taken.hear pool rest).2)
        | (p', rest, .starved) => ([], (p', rest, .starved))
        | (p', rest, .raised e) => ([], (p', rest, .raised e)) := by
  rw [hear, hearWithin]
  by_cases hnil : input = []
  · rw [if_pos hnil, if_pos hnil]
  rw [if_neg hnil, if_neg hnil]
  rcases hconsume : p.consume pool input with ⟨p', rest, o⟩
  cases o with
  | starved => rfl
  | raised e => rfl
  | stopped =>
    have hless := length_of_stopped hp hconsume
    simp only [hear]
    rw [hearWithin_eq p'.taken_fresh.awaiting hless (Nat.lt_succ_self _)]

/-- The loop ends when the bytes have run out, or with an exception; then what is added to the
    stream is left.  When the bytes have run out, it goes on with what comes. -/
theorem hear_append {p p' : Hybi} {pool : Option Failure} {xs rest : List UInt8}
    {ds : List Delivery} {o : Feed.Ending Raised} (hp : p.Awaiting)
    (h : p.hear pool xs = (ds, (p', rest, o))) :
    (o = .starved ∧ rest = [] ∧ p'.Awaiting ∧ ∀ ys, (p.hear pool (xs ++ ys)).1 =
      ds ++ (p'.hear pool ys).1 ∧ Feed.Reader.Agree SameButLeft (p.hear pool (xs ++ ys)).2
        (p'.hear pool ys).2) ∨
    ∃ e, o = .raised e ∧ ∀ ys, p.hear pool (xs ++ ys) = (ds, (p', rest ++ ys, o)) := by
  induction hn : xs.length using Nat.strongRecOn generalizing p xs ds with
  | ind n ih =>
    rw [hear_eq hp] at h
    by_cases hnil : xs = []
    · rw [if_pos hnil] at h
      cases h
      refine Or.inl ⟨rfl, rfl, hp, fun ys => ?_⟩
      rw [hnil, List.nil_append]
      exact ⟨rfl, Or.inl rfl⟩
    rw [if_neg hnil] at h
    have hnil' : ∀ ys, xs ++ ys ≠ [] := fun ys happend =>
      hnil (List.append_eq_nil_iff.mp happend).1
    rcases hconsume : p.consume pool xs with ⟨p₁, rest₁, o₁⟩
    rw [hconsume] at h
    cases o₁ with
    | raised e =>
      cases h
      refine Or.inr ⟨e, rfl, fun ys => ?_⟩
      have hmore : p.consume pool (xs ++ ys) = (p', rest ++ ys, .raised e) :=
        (reader_lawful pool).read_append_of_ended hp.sound hconsume nofun ys
      rw [hear_eq hp, if_neg (hnil' ys), hmore]
    | starved =>
      cases h
      rcases awaiting_of_starved hp.sound hconsume with ⟨hp', hrest, hagree⟩
      refine Or.inl ⟨rfl, hrest, hp', fun ys => ?_⟩
      rw [List.nil_append, hear_eq hp, if_neg (hnil' ys), hear_eq hp']
      by_cases hys : ys = []
      · rw [if_pos hys, hys, List.append_nil, hconsume, hrest]
        exact ⟨rfl, Or.inl rfl⟩
      rw [if_neg hys]
      rcases hagree ys with hsame | ⟨e, hwhole, hcut, hback, hsame⟩
      · rw [hsame]
        exact ⟨rfl, Or.inl rfl⟩
      · rcases hall : p.consume pool (xs ++ ys) with ⟨p₁, back₁, o₁⟩
        rcases hrest' : p'.consume pool ys with ⟨p₂, back₂, o₂⟩
        rw [hall] at hwhole hback hsame
        rw [hrest'] at hcut hback hsame
        simp only at hwhole hcut
        rw [hwhole, hcut]
        exact ⟨rfl, Or.inr ⟨e, rfl, rfl, hback, hsame⟩⟩
    | stopped =>
      have hless := length_of_stopped hp hconsume
      rcases hnext : p₁.taken.hear pool rest₁ with ⟨ds₁, p₂, rest₂, o₂⟩
      simp only [hnext] at h
      cases h
      have hmore : ∀ ys, p.consume pool (xs ++ ys) = (p₁, rest₁ ++ ys, .stopped) := fun ys =>
        (reader_lawful pool).read_append_of_ended hp.sound hconsume nofun ys
      rcases ih _ (hn ▸ hless) p₁.taken_fresh.awaiting hnext rfl with
        ⟨ho, hrest, hp', hstarved⟩ | ⟨e, ho, hraised⟩
      · refine Or.inl ⟨ho, hrest, hp', fun ys => ?_⟩
        rcases hstarved ys with ⟨hds, hagree⟩
        rw [hear_eq hp, if_neg (hnil' ys), hmore]
        simp only
        exact ⟨by rw [hds, List.append_assoc], hagree⟩
      · refine Or.inr ⟨e, ho, fun ys => ?_⟩
        rw [hear_eq hp, if_neg (hnil' ys), hmore]
        simp only [hraised ys]

/-- The messages of a stream are the messages of its pieces. -/
theorem hearPieces_agrees {p : Hybi} {pool : Option Failure} (hp : p.Awaiting)
    (pieces : List (List UInt8)) :
    (hearPieces pool p pieces).1 = (p.hear pool pieces.flatten).1 ∧
      Feed.Reader.Agree SameButLeft (p.hear pool pieces.flatten).2
        (hearPieces pool p pieces).2 := by
  induction pieces generalizing p with
  | nil =>
    rw [List.flatten_nil, hear_eq hp, if_pos rfl]
    exact ⟨rfl, Or.inl rfl⟩
  | cons piece pieces ih =>
    rw [List.flatten_cons, hearPieces]
    rcases hhear : p.hear pool piece with ⟨ds, p', rest, o⟩
    rcases hear_append hp hhear with ⟨rfl, hrest, hp', hmore⟩ | ⟨e, rfl, hmore⟩
    · rcases hmore pieces.flatten with ⟨hds, hagree⟩
      rcases ih hp' with ⟨hds', hagree'⟩
      simp only
      exact ⟨by rw [hds, hds'], (reader_lawful pool).agree_trans hagree hagree'⟩
    · rw [hmore]
      exact ⟨rfl, Or.inl rfl⟩

end Hybi

/-- What frames say, message by message. -/
inductive Says (pool : Option Failure) :
    Option Begun → List WireFrame → List Delivery → Option Begun → Prop
  | nothing {b : Option Begun} : Says pool b [] [] b
  | message {b b' b'' : Option Begun} {frames more : List WireFrame} {d : Delivery}
      {ds : List Delivery} : ReceivesAll pool b frames b' d → Says pool b' more ds b'' →
      Says pool b (frames ++ more) (d :: ds) b''

namespace Hybi

theorem wireBytes_append (frames more : List WireFrame) :
    wireBytes (frames ++ more) = wireBytes frames ++ wireBytes more := List.flatMap_append

theorem receivesAll_ne_nil {pool : Option Failure} {b b' : Option Begun}
    {frames : List WireFrame} {d : Delivery} (h : ReceivesAll pool b frames b' d) :
    wireBytes frames ≠ [] := by
  cases h with
  | @last b b' f d hlast =>
    rw [wireBytes_cons]
    exact fun hnil => f.bytes_ne_nil (List.append_eq_nil_iff.mp hnil).1
  | @more b b₁ b' f frames d hmore hall =>
    rw [wireBytes_cons]
    exact fun hnil => f.bytes_ne_nil (List.append_eq_nil_iff.mp hnil).1

/-- The messages that frames say are the messages that are heard. -/
theorem hear_of_says {p : Hybi} {pool : Option Failure} {b b' : Option Begun}
    {frames : List WireFrame} {ds : List Delivery} (hp : p.Fresh) (hb : p.Holds b)
    (h : Says pool b frames ds b') :
    ∃ p' : Hybi, p'.Fresh ∧ p'.Holds b' ∧
      p.hear pool (wireBytes frames) = (ds, (p', [], .starved)) := by
  induction h generalizing p with
  | nothing =>
    refine ⟨p, hp, hb, ?_⟩
    rw [hear_eq hp.awaiting]
    exact if_pos rfl
  | @message b b₁ b' frames more d ds hall hmore ih =>
    rcases consume_of_receivesAll hp hb hall (wireBytes more) with ⟨p₁, hdelivers, hconsume⟩
    rcases taken_delivers hdelivers with ⟨hfresh, hholds⟩
    rcases ih hfresh hholds with ⟨p', hp', hb', hrest⟩
    refine ⟨p', hp', hb', ?_⟩
    have hnil : wireBytes frames ++ wireBytes more ≠ [] := fun hnil =>
      receivesAll_ne_nil hall (List.append_eq_nil_iff.mp hnil).1
    rw [wireBytes_append, hear_eq hp.awaiting, if_neg hnil, hconsume]
    simp only [hrest, delivery_eq hdelivers]
    rfl

end Hybi

/-! ### The other side -/

/-- A message that is sent and can be received. -/
structure Receivable (op : FrameOpcode) (payload : List UInt8) : Prop where
  preparable : Preparable op payload
  opcode : op ≠ .continuation
  size : op.isControl = false → payload.length ≤ DataMessage.payloadSizeMax
  close : op = .close → ∃ code reason, completeClose (textOf payload) = .ok (code, reason)

/-- A message is one frame, which may stand anywhere between the messages. -/
theorem receivesAll_ofMessage {op : FrameOpcode} {payload : List UInt8}
    (h : Receivable op payload) (key : Option MaskingKey) :
    ReceivesAll none none [WireFrame.ofMessage h.preparable key] none ⟨op, payload⟩ := by
  apply ReceivesAll.last
  cases hcontrol : op.isControl with
  | true => exact .control hcontrol h.close
  | false =>
    have hfits : Fits ⟨op, payload⟩ (WireFrame.ofMessage h.preparable key) := by
      right
      exact Nat.le_trans (Nat.mod_le _ _) (h.size hcontrol)
    exact .last hcontrol (.begins rfl h.opcode) hfits h.preparable.text rfl

/-- The messages of frames are heard wherever the stream is cut. -/
theorem hearPieces_of_says {frames : List WireFrame} {ds : List Delivery}
    {pieces : List (List UInt8)} (hframes : Says none none frames ds none)
    (hpieces : pieces.flatten = wireBytes frames) :
    ∃ p : Hybi, p.Fresh ∧ p.Holds none ∧
      Hybi.hearPieces none .initial pieces = (ds, (p, [], .starved)) := by
  have hnothing : Hybi.initial.Holds none := rfl
  rcases Hybi.hear_of_says Hybi.fresh_initial hnothing hframes with ⟨p, hfresh, hholds, hhear⟩
  rw [← hpieces] at hhear
  refine ⟨p, hfresh, hholds, ?_⟩
  rcases Hybi.hearPieces_agrees Hybi.fresh_initial.awaiting pieces with ⟨hds, hagree⟩
  rw [hhear] at hds hagree
  rcases hagree with hsame | ⟨e, hstarved, -⟩
  · exact Prod.ext hds hsame.symm
  · cases hstarved

/-- What one side prepares are the frames of its messages. -/
theorem says_of_prepared (server : Bool) {messages : List (FrameOpcode × List UInt8)}
    {prepared : List DataMessage}
    (hreceivable : ∀ message ∈ messages, Receivable message.1 message.2)
    (hprepared : List.Forall₂ (fun message m => ∃ key w,
      Hybi.prepareFrame server key w (Hybi.outgoing message.1 message.2) = .ok m)
        messages prepared) :
    ∃ frames, prepared.flatMap Hybi.written = wireBytes frames ∧
      Says none none frames (messages.map (fun message => ⟨message.1, message.2⟩)) none := by
  induction hprepared with
  | nil => exact ⟨[], rfl, .nothing⟩
  | @cons message m messages prepared hm hrest ih =>
    rcases hm with ⟨key, w, hm⟩
    have hmessage := hreceivable message List.mem_cons_self
    rcases ih (fun other hother => hreceivable other (List.mem_cons_of_mem _ hother)) with
      ⟨frames, hbytes, hsays⟩
    rcases Hybi.prepareFrame_ok server key w hmessage.preparable with ⟨m', hm', -, hwritten⟩
    rw [hm] at hm'
    cases hm'
    refine ⟨_ :: frames, ?_, .message (receivesAll_ofMessage hmessage
      (if !server then some key else none)) hsays⟩
    rw [List.flatMap_cons, hbytes, hwritten]
    exact (wireBytes_cons _ _).symm

/-- **From one processor to another.**  The messages one side prepares, with whatever keys, are
    the messages the other side hears, in the same order and with the same bytes, however the
    stream is cut; and behind them it waits for the next frame. -/
theorem hear_prepared (server : Bool) {messages : List (FrameOpcode × List UInt8)}
    {prepared : List DataMessage} {pieces : List (List UInt8)}
    (hreceivable : ∀ message ∈ messages, Receivable message.1 message.2)
    (hprepared : List.Forall₂ (fun message m => ∃ key w,
      Hybi.prepareFrame server key w (Hybi.outgoing message.1 message.2) = .ok m) messages prepared)
    (hpieces : pieces.flatten = prepared.flatMap Hybi.written) :
    ∃ p : Hybi, p.Fresh ∧ p.Holds none ∧ Hybi.hearPieces none .initial pieces =
      (messages.map (fun message => ⟨message.1, message.2⟩), (p, [], .starved)) := by
  rcases says_of_prepared server hreceivable hprepared with ⟨frames, hbytes, hsays⟩
  exact hearPieces_of_says hsays (hpieces.trans hbytes)

theorem receivable_hi : Receivable .text [0x68, 0x69] := by
  refine ⟨⟨by decide, fun h => ?_, fun _ => ⟨['h', 'i'], by decide +kernel⟩, by decide⟩,
    by decide, fun _ => by decide, fun h => ?_⟩
  · cases h
  · cases h

/-- A text of two letters, with its key, in two pieces. -/
theorem hear_prepared_hi : ∃ p : Hybi, p.Fresh ∧ p.Holds none ∧
    Hybi.hearPieces none .initial [[0x81, 0x82, 1], [2, 3, 4, 0x69, 0x6B]] =
      ([⟨.text, [0x68, 0x69]⟩], (p, [], .starved)) := by
  rcases Hybi.prepareFrame_ok false ⟨[1, 2, 3, 4], rfl⟩ .initial receivable_hi.preparable with
    ⟨m, hm, -, hwritten⟩
  refine @hear_prepared false [(.text, [0x68, 0x69])] [m] _ ?_ (.cons ⟨_, _, hm⟩ .nil) ?_
  · intro message hmem
    rw [List.mem_singleton.mp hmem]
    exact receivable_hi
  · rw [List.flatMap_singleton, hwritten]
    decide +kernel

/-! ### Close frames -/

/-- A code that may be sent, with a reason that fits behind it; or no code. -/
inductive Closable : Nat → List UInt8 → Prop where
  | silent : Closable CloseStatus.noStatus []
  | coded {code : Nat} {reason : List UInt8} (allowed : CloseStatus.invalid code = false)
      (free : CloseStatus.reserved code = false) (utf8 : Utf8Bytes reason)
      (size : reason.length + 2 ≤ HybiHeader.payloadSizeBasic) : Closable code reason

theorem Closable.lt {code : Nat} {reason : List UInt8} (h : Closable code reason) :
    code < 2 ^ 16 := by
  cases h with
  | silent => decide
  | coded hallowed hfree hutf8 hsize =>
    simp only [CloseStatus.invalid, Bool.or_eq_false_iff, decide_eq_false_iff_not] at hallowed
    omega

/-- What is read from the payload of a close frame is what it was made of. -/
theorem completeClose_closePayload {code : Nat} {reason : List UInt8}
    (h : Closable code reason) :
    completeClose (textOf (Hybi.closePayload code reason)) = .ok (code, textOf reason) := by
  rw [Hybi.textOf_closePayload h.lt, closeFrame]
  cases h with
  | silent => rfl
  | coded hallowed hfree hutf8 hsize =>
    have hlt := (Closable.coded hallowed hfree hutf8 hsize).lt
    have hnone : code ≠ CloseStatus.noStatus := by
      rintro rfl
      cases hallowed
    have htoNat : ∀ n, n < 256 → (Char.ofNat n).toNat = n := by
      intro n hn
      have hbyte := toNat_ofNat_byte (UInt8.ofNat n)
      rwa [UInt8.toNat_ofNat', Nat.mod_eq_of_lt hn] at hbyte
    have hcode : (Char.ofNat (code / 256)).toNat * 256 + (Char.ofNat (code % 256)).toNat =
        code := by
      rw [htoNat _ (by omega), htoNat _ (by omega)]
      omega
    have hvalid := (validate_textOf_iff reason).mpr hutf8
    simp only [if_neg hnone, completeClose, hcode, hallowed, hfree, hvalid, Bool.false_eq_true,
      if_false, if_true]

theorem receivable_close {code : Nat} {reason : List UInt8} (h : Closable code reason) :
    Receivable .close (Hybi.closePayload code reason) where
  preparable :=
    { not_reserved := rfl
      control := by
        intro _
        cases h with
        | silent => decide
        | coded hallowed hfree hutf8 hsize =>
          rw [Hybi.closePayload]
          split
          · decide
          · rw [List.length_append, Octets.length_bigEndian]
            omega
      text := by
        intro hop
        cases hop
      size := by
        cases h with
        | silent => decide
        | coded hallowed hfree hutf8 hsize =>
          have hjumbo : HybiHeader.payloadSizeBasic ≤ HybiHeader.payloadSizeJumbo := by decide
          rw [Hybi.closePayload]
          split
          · decide
          · rw [List.length_append, Octets.length_bigEndian]
            omega }
  opcode := by decide
  size := by
    intro hop
    cases hop
  close := fun _ => ⟨code, textOf reason, completeClose_closePayload h⟩

/-- **A close frame arrives.**  What one side prepares for a code and a reason, and queues as
    the close frame of the two, the other side hears as one close message, from which it reads
    this code and this reason. -/
theorem hear_closeFrame (server : Bool) {key : MaskingKey} {w : HybiHeader} {code : Nat}
    {reason : List UInt8} {m : DataMessage} {pieces : List (List UInt8)}
    (hclosable : Closable code reason)
    (hprepared : Hybi.prepareCloseFrame server key w (DataMessage.reset .close) code reason =
      .ok m)
    (hpieces : pieces.flatten = Hybi.written m) :
    ∃ (p : Hybi) (payload : List UInt8), p.Fresh ∧
      Hybi.hearPieces none .initial pieces = ([⟨.close, payload⟩], (p, [], .starved)) ∧
      textOf payload = (closeFrame code (textOf reason)).payload ∧
      completeClose (textOf payload) = .ok (code, textOf reason) := by
  rw [Hybi.prepareCloseFrame_eq] at hprepared
  have hreceivable : ∀ message ∈ [(FrameOpcode.close, Hybi.closePayload code reason)],
      Receivable message.1 message.2 := by
    intro message hmem
    rw [List.mem_singleton.mp hmem]
    exact receivable_close hclosable
  rcases says_of_prepared server hreceivable (.cons ⟨key, w, hprepared⟩ .nil) with
    ⟨frames, hbytes, hsays⟩
  rw [List.flatMap_singleton] at hbytes
  rcases hearPieces_of_says hsays (hpieces.trans hbytes) with ⟨p, hfresh, -, hhear⟩
  exact ⟨p, _, hfresh, hhear, Hybi.textOf_closePayload hclosable.lt reason,
    completeClose_closePayload hclosable⟩

theorem closable_normal : Closable CloseStatus.normal [] :=
  .coded (by decide) (by decide) ⟨[], rfl⟩ (by decide)

/-- The frame of a normal close, cut behind its header. -/
theorem hear_closeFrame_normal : ∃ (p : Hybi) (payload : List UInt8), p.Fresh ∧
    Hybi.hearPieces none .initial [[0x88, 0x82, 1, 2, 3, 4], [0x02, 0xEA]] =
      ([⟨.close, payload⟩], (p, [], .starved)) ∧
    textOf payload = (closeFrame CloseStatus.normal []).payload ∧
    completeClose (textOf payload) = .ok (CloseStatus.normal, []) := by
  rcases Hybi.prepareFrame_ok false ⟨[1, 2, 3, 4], rfl⟩ .initial
    (receivable_close closable_normal).preparable with ⟨m, hm, -, hwritten⟩
  rw [← Hybi.prepareCloseFrame_eq] at hm
  refine @hear_closeFrame false _ _ CloseStatus.normal [] m _ closable_normal hm ?_
  rw [hwritten]
  decide +kernel

end SocketIOStress
