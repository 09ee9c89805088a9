import PageSpeed.Wire.Fed
import PageSpeed.Spec.WsFrame

/-!
# Frames in any segmentation

The parser is fed a stream in pieces. A turn of its loop takes one byte, except in the payload,
where it takes what there is; so a call on two pieces at once does what the calls on each of them do
(`fed`), and the answer is that of the whole stream.

* `feed_encode`: a frame in one of the length forms is returned at its last byte, with its payload.
* `feed_refusedAt`: a header that breaks a rule is refused at its last byte.
-/

namespace PageSpeed.WsFrameParser

open Wire List

variable {p q : WsFrameParser} {byte b₀ b₁ : UInt8} {rest data left : Bytes}
  {r : WsParseResult} {n : ℕ}

/-- A parser that waits for more of a frame. -/
def Waiting (p : WsFrameParser) : Prop :=
  match p.state with
  | .payload => p.frame.payload.length < p.payloadLen
  | .done => False
  | _ => p.frame.payload = []

/-! ## Turns that take one byte -/

/-- The turn leaves what follows its byte: it returns an answer, or goes on as a parser that
waits. -/
def TakesByte (turn : Bytes → Turn × WsFrameParser) : Prop :=
  ∃ (result : Option WsParseResult) (q : WsFrameParser), result ≠ some .needMore ∧
    (result = none → Waiting q) ∧ ∀ rest, turn rest = (result.elim (.again rest) (.ret · rest), q)

namespace TakesByte

variable {f g : Bytes → Turn × WsFrameParser} {c : Prop} [Decidable c]

theorem again (hq : Waiting q) : TakesByte fun rest => (.again rest, q) :=
  ⟨none, q, by simp, fun _ => hq, fun _ => rfl⟩

theorem ret (hr : r ≠ .needMore) (q : WsFrameParser) : TakesByte fun rest => (.ret r rest, q) :=
  ⟨some r, q, by simpa using hr, by simp, fun _ => rfl⟩

theorem ite (hf : TakesByte f) (hg : TakesByte g) : TakesByte fun rest => if c then f rest
    else g rest := by
  by_cases h : c
  · simpa [h] using hf
  · simpa [h] using hg

end TakesByte

/-- The start of a payload takes the byte. -/
theorem takesByte_startPayload (hp : p.frame.payload = []) : TakesByte (startPayload p) := by
  unfold startPayload
  by_cases hlen : p.payloadLen > 0
  · simp only [if_pos hlen]
    exact .again (by simpa [Waiting, hp] using hlen)
  · simp only [if_neg hlen]
    exact .ret (by decide) _

theorem takesByte_turnHeader (hp : p.frame.payload = []) (hstate : p.state = .header)
    (byte : UInt8) :
    TakesByte (turnHeader p byte) := by
  refine .ite (.again (by simp [Waiting, hstate, hp])) (.ite (.ret (by decide) _) ?_)
  refine .ite (.ret (by decide) _) (.ite (.ret (by decide) _) ?_)
  refine .ite (.again (by simp [Waiting, hp])) (.ite (.again (by simp [Waiting, hp])) ?_)
  exact .ite (.again (by simp [Waiting, hp]))
    (.ite (.ret (by decide) _) (takesByte_startPayload hp))

theorem takesByte_turnExtLen (hp : p.frame.payload = []) (hwait : Waiting p) (byte : UInt8) :
    TakesByte (turnExtLen p byte) := by
  refine .ite (.again (by simpa [Waiting] using hwait)) (.ite (.ret (by decide) _) ?_)
  exact .ite (.again (by simp [Waiting, hp])) (takesByte_startPayload hp)

theorem takesByte_turnMaskKey (hp : p.frame.payload = []) (hwait : Waiting p) (byte : UInt8) :
    TakesByte (turnMaskKey p byte) :=
  .ite (.again (by simpa [Waiting] using hwait)) (takesByte_startPayload hp)

/-- Outside of the payload every turn takes one byte. -/
theorem takesByte_turn (hp : Waiting p) (hstate : p.state ≠ .payload) (byte : UInt8) :
    TakesByte (turn p byte) := by
  unfold turn
  cases h : p.state with
  | header => exact takesByte_turnHeader (by simpa [Waiting, h] using hp) h byte
  | extLen16 | extLen64 => exact takesByte_turnExtLen (by simpa [Waiting, h] using hp) hp byte
  | maskKey => exact takesByte_turnMaskKey (by simpa [Waiting, h] using hp) hp byte
  | payload => exact absurd h hstate
  | done => simp [Waiting, h] at hp

/-! ## The payload -/

/-- How much of the payload is still to come. -/
def missing (p : WsFrameParser) : ℕ := p.payloadLen - p.frame.payload.length

/-- The parser with more of the payload. -/
def absorb (p : WsFrameParser) (bytes : Bytes) : WsFrameParser :=
  let bytes := if p.masked then unmask p.maskKey p.frame.payload.length bytes else bytes
  { p with frame := { p.frame with payload := p.frame.payload ++ bytes } }

@[simp] theorem length_unmask (key : Bytes) (offset : ℕ) (bytes : Bytes) :
    (unmask key offset bytes).length = bytes.length := by
  simp [unmask]

/-- Unmasking goes on where it was. -/
theorem unmask_append (key : Bytes) (offset : ℕ) (a b : Bytes) :
    unmask key offset (a ++ b) = unmask key offset a ++ unmask key (offset + a.length) b := by
  simp only [unmask, mapIdx_append, append_cancel_left_eq]
  congr 1
  funext i c
  rw [Nat.add_comm i, Nat.add_assoc]

@[simp] theorem length_absorb (p : WsFrameParser) (bytes : Bytes) :
    (absorb p bytes).frame.payload.length = p.frame.payload.length + bytes.length := by
  cases hm : p.masked <;> simp [absorb, hm]

theorem absorb_nil (p : WsFrameParser) : absorb p [] = p := by
  have hnil : (if p.masked then unmask p.maskKey p.frame.payload.length [] else []) = [] := by
    split_ifs <;> rfl
  rw [absorb, hnil, append_nil]

/-- A payload in two parts. -/
theorem absorb_absorb (p : WsFrameParser) (a b : Bytes) :
    absorb (absorb p a) b = absorb p (a ++ b) := by
  cases hm : p.masked <;> simp [absorb, hm, unmask_append]

/-- What is missing afterwards. -/
theorem missing_absorb (p : WsFrameParser) (data : Bytes) :
    (absorb p data).missing = p.missing - data.length := by
  rw [missing, length_absorb, ← Nat.sub_sub]
  rfl

/-- Data that does not complete the payload. -/
theorem turnPayload_short (h : data.length < p.missing) :
    turnPayload p data = (.again [], absorb p data) := by
  have hne : (absorb p data).frame.payload.length ≠ p.payloadLen := by
    rw [length_absorb]
    unfold missing at h
    omega
  unfold turnPayload
  rw [← missing]
  simp only [min_eq_right h.le, take_length, drop_length]
  exact if_neg hne

/-- Data that does. -/
theorem turnPayload_whole (hp : 0 < p.missing) (h : p.missing ≤ data.length) :
    turnPayload p data = finishPayload (absorb p (data.take p.missing)) (data.drop p.missing) := by
  have hlen := length_absorb p (data.take p.missing)
  rw [length_take, min_eq_left h, missing,
    Nat.add_sub_of_le (Nat.lt_of_sub_pos hp).le, ← missing] at hlen
  unfold turnPayload
  rw [← missing]
  simp only [min_eq_left h]
  exact if_pos hlen

section

variable (hstate : p.state = .payload)
include hstate

theorem turn_payload (byte : UInt8) (rest : Bytes) :
    turn p byte rest = turnPayload p (byte :: rest) := by
  rw [turn, hstate]

theorem waiting_payload : Waiting p ↔ 0 < p.missing := by
  simp [Waiting, hstate, missing]

theorem waiting_absorb (h : data.length < p.missing) : Waiting (absorb p data) := by
  rw [waiting_payload (show (absorb p data).state = .payload from hstate), missing_absorb]
  exact Nat.sub_pos_of_lt h

end

/-- The end of a payload is an answer. -/
theorem finishPayload_ret (p : WsFrameParser) :
    ∃ r q, r ≠ .needMore ∧ ∀ rest, finishPayload p rest = (.ret r rest, q) := by
  unfold finishPayload
  split_ifs <;> exact ⟨_, _, by decide, fun _ => rfl⟩

/-! ## Calls -/

@[simp] theorem feed_nil (p : WsFrameParser) : feed p [] = (.needMore, [], p) := rfl

/-- A turn that does not return takes a byte, and leaves a parser that waits. -/
theorem waiting_of_again (hp : Waiting p) (h : turn p byte rest = (.again left, q)) :
    left.length ≤ rest.length ∧ Waiting q := by
  by_cases hstate : p.state = .payload
  · rw [turn_payload hstate] at h
    by_cases hshort : (byte :: rest).length < p.missing
    · rw [turnPayload_short hshort] at h
      cases h
      exact ⟨Nat.zero_le _, waiting_absorb hstate hshort⟩
    · obtain ⟨r, q', -, hfinish⟩ := finishPayload_ret (absorb p ((byte :: rest).take p.missing))
      rw [turnPayload_whole ((waiting_payload hstate).1 hp) (by omega), hfinish] at h
      cases h
  · obtain ⟨result, q', -, hwait, hturn⟩ := takesByte_turn hp hstate byte
    rw [hturn] at h
    cases result <;> cases h
    exact ⟨le_rfl, hwait rfl⟩

/-- As many turns as there are bytes are enough. -/
theorem feedUpTo_eq (hp : Waiting p) (hn : data.length ≤ n) : feedUpTo n p data = feed p data := by
  induction n using Nat.strong_induction_on generalizing p data with
  | _ n ih =>
    cases data with
    | nil => cases n <;> rfl
    | cons byte rest =>
      obtain ⟨m, rfl⟩ : ∃ m, n = m + 1 := ⟨n - 1, by simp at hn; omega⟩
      rw [length_cons] at hn
      rw [feed, length_cons, feedUpTo, feedUpTo]
      rcases hturn : turn p byte rest with ⟨left | ⟨r, left⟩, q⟩
      · obtain ⟨hle, hq⟩ := waiting_of_again hp hturn
        show feedUpTo m q left = feedUpTo rest.length q left
        rw [ih m (by omega) hq (by omega)]
        by_cases hlt : rest.length < m + 1
        · rw [ih rest.length hlt hq hle]
        · rw [show rest.length = m by omega, ih m (by omega) hq (by omega)]
      · rfl

/-- A turn that goes on. -/
theorem feed_again (hp : Waiting p) (h : turn p byte rest = (.again left, q)) :
    feed p (byte :: rest) = feed q left := by
  obtain ⟨hle, hq⟩ := waiting_of_again hp h
  rw [feed, length_cons, feedUpTo, h]
  exact feedUpTo_eq hq hle

/-- A turn that returns. -/
theorem feed_ret (h : turn p byte rest = (.ret r left, q)) :
    feed p (byte :: rest) = (r, left, q) := by
  rw [feed, length_cons, feedUpTo, h]

section

variable (hstate : p.state = .payload)
include hstate

/-- A call that does not complete the payload. -/
theorem feed_payload_short (hp : Waiting p) (h : data.length < p.missing) : 
    feed p data = (.needMore, [], absorb p data) := by
  cases data with
  | nil => rw [feed_nil, absorb_nil]
  | cons byte rest =>
    rw [feed_again hp ((turn_payload hstate byte rest).trans (turnPayload_short h)), feed_nil]

/-- Once the payload is whole, the call returns, and leaves what follows. -/
theorem feed_payload_whole (hp : Waiting p) (h : p.missing ≤ data.length)
    (hret : ∀ rest, finishPayload (absorb p (data.take p.missing)) rest = (.ret r rest, q)) :
    feed p data = (r, data.drop p.missing, q) := by
  have hlt := (waiting_payload hstate).1 hp
  cases data with
  | nil => exact absurd h (not_le.2 hlt)
  | cons byte rest =>
    exact feed_ret ((turn_payload hstate byte rest).trans
      ((turnPayload_whole hlt h).trans (hret _)))

/-- Taking a part of the payload first makes no difference. -/
theorem feed_absorb (hp : Waiting p) (h : data.length < p.missing) (more : Bytes) :
    feed p (data ++ more) = feed (absorb p data) more := by
  have hwait := waiting_absorb hstate h
  have hstate' : (absorb p data).state = .payload := hstate
  have hremain := missing_absorb p data
  by_cases hshort : (data ++ more).length < p.missing
  · rw [feed_payload_short hstate hp hshort, feed_payload_short hstate' hwait, absorb_absorb]
    rw [length_append] at hshort
    omega
  · rw [length_append] at hshort
    obtain ⟨r, q, -, hret⟩ := finishPayload_ret (absorb p ((data ++ more).take p.missing))
    rw [feed_payload_whole hstate hp (by rw [length_append]; omega) hret]
    rw [take_append, take_of_length_le h.le, ← hremain, ← absorb_absorb] at hret
    rw [feed_payload_whole hstate' hwait (by omega) hret, drop_append,
      drop_eq_nil_of_le h.le, ← hremain]
    rfl

end

/-- What a call does about the data that come after its own: it waits for them, or leaves them. -/
theorem feed_cases (hp : Waiting p) (data : Bytes) :
    (∃ q, Waiting q ∧ ∀ more, feed p (data ++ more) = feed q more) ∨
      ∃ r left q, r ≠ .needMore ∧ left.length < data.length ∧ ∀ more,
        feed p (data ++ more) = (r, left ++ more, q) := by
  induction data generalizing p with
  | nil => exact .inl ⟨p, hp, fun _ => rfl⟩
  | cons byte rest ih =>
    -- payload bytes are taken in one piece, header bytes one at a time
    by_cases hstate : p.state = .payload
    · have hlt := (waiting_payload hstate).1 hp
      by_cases hshort : (byte :: rest).length < p.missing
      · exact .inl ⟨absorb p (byte :: rest), waiting_absorb hstate hshort,
          feed_absorb hstate hp hshort⟩
      · -- the payload is complete within `data`, so that more bytes change nothing
        obtain ⟨r, q, hr, hret⟩ := finishPayload_ret (absorb p ((byte :: rest).take p.missing))
        refine .inr ⟨r, (byte :: rest).drop p.missing, q, hr, ?_, fun more => ?_⟩
        · rw [length_drop]
          omega
        · have htake : (byte :: rest ++ more).take p.missing = (byte :: rest).take p.missing :=
            take_append_of_le_length (by omega)
          rw [← htake] at hret
          rw [feed_payload_whole hstate hp (by rw [length_append]; omega) hret,
            drop_append_of_le_length (by omega)]
    · obtain ⟨result, q, hr, hwait, hturn⟩ := takesByte_turn hp hstate byte
      cases result with
      | some r =>
        exact .inr ⟨r, rest, q, by simpa using hr, by simp,
          fun more => feed_ret (hturn (rest ++ more))⟩
      | none =>
        have hnext : ∀ more, feed p (byte :: rest ++ more) = feed q (rest ++ more) :=
          fun more => feed_again hp (hturn (rest ++ more))
        rcases ih (hwait rfl) with ⟨u, hu, hmore⟩ | ⟨r, left, u, hr, hlt, hmore⟩
        · exact .inl ⟨u, hu, fun more => (hnext more).trans (hmore more)⟩
        · exact .inr ⟨r, left, u, hr, by rw [length_cons]; omega,
            fun more => (hnext more).trans (hmore more)⟩

/-- **A call on two pieces at once is the call on one, and then on the other.** -/
theorem fed : Fed .needMore feed Waiting := ⟨feed_nil, fun data hp => feed_cases hp data⟩

/-- The calls wait up to the one that brings the `n`-th byte. That one returns `result`, leaves what
follows this byte, and leaves the parser as `q`. -/
def ReturnsAt (pieces : List Bytes) (n : ℕ) (result : WsParseResult) (q : WsFrameParser) : Prop :=
  ∃ before piece after p left, pieces = before ++ piece :: after ∧
    Waits .needMore feed reset before p ∧
    feed p piece = (result, left, q) ∧ left ++ after.flatten = pieces.flatten.drop n ∧
    before.flatten.length < n ∧ n ≤ (before ++ [piece]).flatten.length

/-- A result on the whole stream is one on its pieces. -/
theorem returnsAt_of_feed {pieces : List Bytes} {start tail : Bytes} (hr : r ≠ .needMore)
    (hpieces : pieces.flatten = start ++ tail) (h : feed reset (start ++ tail) = (r, tail, q)) :
    ReturnsAt pieces start.length r q := by
  rw [← hpieces] at h
  obtain ⟨before, piece, after, p, left, rfl, hwaits, hcall, hleft, hlt⟩ :=
    fed.answers (by rfl) hr pieces h
  have hlen : (before.flatten ++ piece ++ after.flatten).length = (start ++ tail).length := by
    rw [← hpieces]
    simp
  rw [← hleft] at hlen
  simp only [length_append] at hlen
  refine ⟨before, piece, after, p, left, rfl, hwaits, hcall, ?_, by omega, ?_⟩
  · rw [hpieces, drop_left, hleft]
  · simp only [flatten_append, flatten_singleton, length_append]
    omega

/-! ## Frames of a client -/

/-- How a length is written: in the header, or behind it in two or in eight bytes. -/
inductive LengthForm
  | short
  | ext16
  | ext64
  deriving DecidableEq

/-- The lengths that a form has room for. -/
def LengthForm.fits (n : ℕ) : LengthForm → Bool
  | .short => n ≤ 125
  | .ext16 => n < 256 ^ 2
  | .ext64 => n < 256 ^ 8

/-- The seven bits of the header. -/
def LengthForm.field (n : ℕ) : LengthForm → UInt8
  | .short => UInt8.ofNat n
  | .ext16 => 126
  | .ext64 => 127

/-- The bytes of the longer length. -/
def LengthForm.extension (n : ℕ) : LengthForm → Bytes
  | .short => []
  | .ext16 => beBytes 2 n
  | .ext64 => beBytes 8 n

/-- A frame as a client may send it. -/
structure ClientFrame where
  fin : Bool
  opcode : WsOpcode
  mask : Bytes
  payload : Bytes
  opcode_lt : opcode < 16
  mask_length : mask.length = 4
  payload_le : payload.length ≤ kMaxPayloadSize
  control : isControl opcode → payload.length ≤ 125 ∧ fin
  close : opcode = kClose → payload.length ≠ 1

namespace ClientFrame

variable (f : ClientFrame) (form : LengthForm)

/-- The start of a frame in front of the key. -/
def header : Bytes :=
  [(if f.fin then 0x80 else 0) ||| f.opcode, 0x80 ||| form.field f.payload.length] ++
    form.extension f.payload.length

/-- The frame on the wire. -/
def encode : Bytes := f.header form ++ (f.mask ++ unmask f.mask 0 f.payload)

/-- What the parser hands out: a close frame with a payload begins with its code. -/
def decoded : WsFrame :=
  if f.opcode = kClose ∧ f.payload ≠ [] then
    { fin := f.fin, opcode := f.opcode, payload := f.payload.drop 2
      closeCode := (f.payload.getD 0 0).toUInt16 <<< 8 ||| (f.payload.getD 1 0).toUInt16 }
  else { fin := f.fin, opcode := f.opcode, payload := f.payload }

end ClientFrame

/-! ## The header -/

/-- The rules of a header that has no extension yet: the reserved bits, the mask, and control
frames. -/
def BadHeader (b₀ b₁ : UInt8) : Prop :=
  b₀ &&& 0x70 ≠ 0 ∨ b₁ &&& 0x80 = 0 ∨ isControl (b₀ &&& 0x0F) ∧
    ((b₁ &&& 0x7F).toNat > 125 ∨ b₀ &&& 0x80 = 0)

/-- The parser behind the two bytes of a header. -/
def opened (b₀ b₁ : UInt8) : WsFrameParser :=
  { header := [b₀, b₁]
    frame := { fin := b₀ &&& 0x80 ≠ 0, opcode := b₀ &&& 0x0F }
    masked := b₁ &&& 0x80 ≠ 0
    payloadLen := (b₁ &&& 0x7F).toNat }

theorem turn_header (b₀ b₁ : UInt8) (rest : Bytes) : turn { header := [b₀] } b₁ rest =
    if b₀ &&& 0x70 ≠ 0 then (.ret .error rest, { header := [b₀, b₁] })
    else if (opened b₀ b₁).masked = false then (.ret .error rest, opened b₀ b₁)
    else if isControl (b₀ &&& 0x0F) ∧
        ((b₁ &&& 0x7F).toNat > 125 ∨ (opened b₀ b₁).frame.fin = false) then
      (.ret .error rest, opened b₀ b₁)
    else if (b₁ &&& 0x7F).toNat = 126 then
      (.again rest, { opened b₀ b₁ with state := .extLen16, extLenNeeded := 2 })
    else if (b₁ &&& 0x7F).toNat = 127 then
      (.again rest, { opened b₀ b₁ with state := .extLen64, extLenNeeded := 8 })
    else if (opened b₀ b₁).masked then (.again rest, { opened b₀ b₁ with state := .maskKey })
    else if (b₁ &&& 0x7F).toNat > kMaxPayloadSize then (.ret .error rest, opened b₀ b₁)
    else startPayload (opened b₀ b₁) rest := rfl

theorem waiting_reset : Waiting reset := by simp [Waiting, reset]

theorem waiting_header (b₀ : UInt8) : Waiting { header := [b₀] } := by simp [Waiting]

/-- The two bytes at the start. -/
theorem feed_header (b₀ b₁ : UInt8) (rest : Bytes) :
    feed reset (b₀ :: b₁ :: rest) = feed { header := [b₀] } (b₁ :: rest) :=
  feed_again waiting_reset rfl

theorem fin_opened (b₀ b₁ : UInt8) : (opened b₀ b₁).frame.fin = false ↔ b₀ &&& 0x80 = 0 := by
  simp [opened]

theorem masked_opened (b₀ b₁ : UInt8) : (opened b₀ b₁).masked = false ↔ b₁ &&& 0x80 = 0 := by
  simp [opened]

/-- **A header that breaks a rule is refused**, and nothing is taken of what follows it. -/
theorem feed_badHeader (h : BadHeader b₀ b₁) (rest : Bytes) :
    ∃ q, feed reset (b₀ :: b₁ :: rest) = (.error, rest, q) := by
  rw [feed_header]
  have hturn := turn_header b₀ b₁ rest
  rw [BadHeader, ← fin_opened b₀ b₁, ← masked_opened b₀ b₁] at h
  by_cases hrsv : b₀ &&& 0x70 ≠ 0
  · rw [if_pos hrsv] at hturn
    exact ⟨_, feed_ret hturn⟩
  rw [if_neg hrsv] at hturn
  by_cases hmask : (opened b₀ b₁).masked = false
  · rw [if_pos hmask] at hturn
    exact ⟨_, feed_ret hturn⟩
  · rw [if_neg hmask, if_pos ((h.resolve_left hrsv).resolve_left hmask)] at hturn
    exact ⟨_, feed_ret hturn⟩

/-- The state that the bits of the length lead to. -/
def lengthState (b₀ b₁ : UInt8) : WsFrameParser :=
  if (b₁ &&& 0x7F).toNat = 126 then { opened b₀ b₁ with state := .extLen16, extLenNeeded := 2 }
  else if (b₁ &&& 0x7F).toNat = 127 then { opened b₀ b₁ with state := .extLen64, extLenNeeded := 8 }
  else { opened b₀ b₁ with state := .maskKey }

/-- A header that is accepted leads to its length. -/
theorem feed_goodHeader (h : ¬ BadHeader b₀ b₁) (rest : Bytes) :
    feed reset (b₀ :: b₁ :: rest) = feed (lengthState b₀ b₁) rest := by
  rw [BadHeader, ← fin_opened b₀ b₁, ← masked_opened b₀ b₁] at h
  obtain ⟨hrsv, hmask, hcontrol⟩ := not_or.1 h |>.imp_right not_or.1
  have hmasked : (opened b₀ b₁).masked = true := by simpa using hmask
  rw [feed_header]
  refine feed_again (waiting_header b₀) ((turn_header b₀ b₁ rest).trans ?_)
  rw [if_neg hrsv, if_neg hmask, if_neg hcontrol, if_pos hmasked, lengthState]
  split_ifs <;> rfl

/-! ## Length and key -/

theorem foldl_beNat (buf : Bytes) : buf.foldl (fun n b => n * 256 + b.toNat) 0 = beNat buf := by
  induction buf using reverseRecOn with
  | nil => rfl
  | append_singleton buf b ih =>
    rw [foldl_append, foldl_cons, foldl_nil, ih, beNat, beNat, reverse_append]
    simp only [reverse_singleton, singleton_append, leNat]
    omega

/-- The parser in front of a length of so many bytes. -/
structure ReadsLength (p : WsFrameParser) : Prop where
  state : p.state = .extLen16 ∨ p.state = .extLen64
  masked : p.masked = true
  payload : p.frame.payload = []

theorem ReadsLength.waiting (h : ReadsLength p) : Waiting p := by
  rcases h.state with hs | hs <;> simp [Waiting, hs, h.payload]

/-- The turns of the longer length. -/
theorem ReadsLength.turn (h : ReadsLength p) (byte : UInt8) (rest : Bytes) :
    turn p byte rest = turnExtLen p byte rest := by
  rcases h.state with hs | hs <;> rw [WsFrameParser.turn, hs]

/-- All bytes of a length or a key but the last go into its buffer. -/
theorem feed_collect {P : Bytes → WsFrameParser} {need : ℕ} (hwait : ∀ b, Waiting (P b))
    (hturn : ∀ b byte rest, (b ++ [byte]).length < need → turn (P b) byte rest =
      (.again rest, P (b ++ [byte])))
    {b ext : Bytes} (hne : ext ≠ []) (hlen : (b ++ ext).length = need) (rest : Bytes) :
    ∃ buf byte, b ++ ext = buf ++ [byte] ∧
      feed (P b) (ext ++ rest) = feed (P buf) (byte :: rest) := by
  induction ext generalizing b with
  | nil => exact absurd rfl hne
  | cons byte ext ih =>
    by_cases hlast : ext = []
    · subst hlast
      exact ⟨b, byte, rfl, rfl⟩
    · rw [append_cons] at hlen ⊢
      obtain ⟨buf, last, hbuf, hfeed⟩ := ih hlast hlen
      have hpos := length_pos_iff.2 hlast
      rw [length_append] at hlen
      exact ⟨buf, last,
        hbuf, by rw [cons_append, feed_again (hwait b) (hturn b byte _ (by omega)), hfeed]⟩

/-- A length is refused beyond the cap, and the key follows it otherwise. -/
theorem feed_extLen (h : ReadsLength p) {ext : Bytes} (hne : ext ≠ [])
    (hlen : (p.extLenBuf ++ ext).length = p.extLenNeeded) (rest : Bytes) :
    feed p (ext ++ rest) =
      let q := { p with extLenBuf := p.extLenBuf ++ ext, payloadLen := beNat (p.extLenBuf ++ ext) }
      if beNat (p.extLenBuf ++ ext) > kMaxPayloadSize then (.error, rest, q)
      else feed { q with state := .maskKey, maskKey := [] } rest := by
  have hr : ∀ b, ReadsLength { p with extLenBuf := b } := fun b => { h with }
  obtain ⟨buf, byte, hbuf, hfeed⟩ := feed_collect (fun b => (hr b).waiting)
    (fun b byte rest hlt => ((hr b).turn byte rest).trans (if_pos hlt)) hne hlen rest
  rw [hbuf] at hlen ⊢
  have hturn : turn { p with extLenBuf := buf } byte rest =
      let q := { p with extLenBuf := buf ++ [byte], payloadLen := beNat (buf ++ [byte]) }
      if beNat (buf ++ [byte]) > kMaxPayloadSize then (.ret .error rest, q)
      else (.again rest, { q with state := .maskKey, maskKey := [] }) := by
    rw [(hr buf).turn, turnExtLen, foldl_beNat]
    simp only
    rw [if_neg hlen.not_lt, if_pos h.masked]
  refine hfeed.trans ?_
  simp only at hturn ⊢
  split_ifs at hturn ⊢
  · exact feed_ret hturn
  · exact feed_again (hr buf).waiting hturn

/-- The four bytes of a key. -/
theorem feed_maskKey (hstate : p.state = .maskKey) (hpayload : p.frame.payload = []) {key : Bytes}
    (hne : key ≠ []) (hlen : (p.maskKey ++ key).length = 4) (rest : Bytes) :
    feed p (key ++ rest) =
      let q := { p with maskKey := p.maskKey ++ key }
      if p.payloadLen > 0 then feed { q with state := .payload } rest
      else (.frame, rest, { q with state := .done }) := by
  have hwait : ∀ b, Waiting { p with maskKey := b } := fun b => by simp [Waiting, hstate, hpayload]
  have hturn b byte rest : turn { p with maskKey := b } byte rest =
      turnMaskKey { p with maskKey := b } byte rest := by
    rw [turn, hstate]
  obtain ⟨buf, byte, hbuf, hfeed⟩ := feed_collect hwait
    (fun b byte rest hlt => (hturn b byte rest).trans (if_pos hlt)) hne hlen rest
  rw [hbuf] at hlen ⊢
  have hturn : turn { p with maskKey := buf } byte rest =
      startPayload { p with maskKey := buf ++ [byte] } rest :=
    (hturn buf byte rest).trans (if_neg hlen.not_lt)
  refine hfeed.trans ?_
  rw [startPayload] at hturn
  simp only at hturn ⊢
  split_ifs at hturn ⊢
  · exact feed_again (hwait buf) hturn
  · exact feed_ret hturn

/-! ## Whole frames -/

/-- Unmasking undoes masking. -/
theorem unmask_unmask (key : Bytes) (offset : ℕ) (bytes : Bytes) :
    unmask key offset (unmask key offset bytes) = bytes := by
  rw [unmask, unmask, mapIdx_mapIdx]
  refine ext_getElem (by simp) fun i _ _ => ?_
  simp [UInt8.xor_assoc]

namespace ClientFrame

variable (f : ClientFrame) (form : LengthForm)

/-- The opcode and the final bit share the first byte. -/
theorem first_byte : ∀ (fin : Bool) (opcode : UInt8), opcode < 16 →
    ((if fin then 0x80 else 0) ||| opcode) &&& 0x70 = 0 ∧
      ((if fin then 0x80 else 0) ||| opcode) &&& 0x0F = opcode ∧
      (((if fin then 0x80 else 0) ||| opcode) &&& 0x80 = 0 ↔ fin = false) := by decide +kernel

/-- The mask bit and the length share the second byte. -/
theorem second_byte : ∀ n : UInt8, n < 128 → (0x80 ||| n) &&& 0x80 ≠ 0 ∧
    (0x80 ||| n) &&& 0x7F = n := by decide +kernel

variable {form : LengthForm}

theorem field_lt (h : form.fits n) : form.field n < 128 := by
  cases form with
  | short =>
    have hn : n ≤ 125 := by simpa [LengthForm.fits] using h
    rw [UInt8.lt_iff_toNat_lt, LengthForm.field, UInt8.toNat_ofNat_of_lt' (hn.trans_lt (by decide))]
    exact hn.trans_lt (by decide)
  | ext16 => exact show (126 : UInt8) < 128 by decide
  | ext64 => exact show (127 : UInt8) < 128 by decide

variable {f : ClientFrame}

/-- A frame of a client breaks no rule, if it is written in a form that its opcode admits. -/
theorem not_badHeader (hfits : form.fits f.payload.length)
    (hform : isControl f.opcode → form = .short) :
    ¬ BadHeader ((if f.fin then 0x80 else 0) ||| f.opcode)
      (0x80 ||| form.field f.payload.length) := by
  obtain ⟨hrsv, hopcode, hfin⟩ := first_byte f.fin f.opcode f.opcode_lt
  obtain ⟨hmask, hfield⟩ := second_byte _ (field_lt hfits)
  rw [BadHeader, hrsv, hopcode, hfin, hfield]
  rintro (h | h | ⟨hcontrol, h | h⟩)
  · exact h rfl
  · exact hmask h
  · have hle := (f.control hcontrol).1
    rw [hform hcontrol, LengthForm.field, UInt8.toNat_ofNat_of_lt' (hle.trans_lt (by decide))] at h
    omega
  · rw [(f.control hcontrol).2] at h
    cases h

/-- The parser in front of the key of a frame. -/
structure AtKey (f : ClientFrame) (p : WsFrameParser) : Prop where
  state : p.state = .maskKey
  masked : p.masked = true
  maskKey : p.maskKey = []
  frame : p.frame = { fin := f.fin, opcode := f.opcode }
  payloadLen : p.payloadLen = f.payload.length

/-- The flags of a frame are read back. -/
theorem opened_frame (f : ClientFrame) (b₁ : UInt8) :
    (opened ((if f.fin then 0x80 else 0) ||| f.opcode) b₁).frame =
      { fin := f.fin, opcode := f.opcode } := by
  obtain ⟨-, hopcode, hfin⟩ := first_byte f.fin f.opcode f.opcode_lt
  have hbit : decide (((if f.fin then 0x80 else 0) ||| f.opcode) &&& 0x80 ≠ 0) = f.fin := by
    rw [Bool.eq_iff_iff, decide_eq_true_iff, ne_eq, hfin, Bool.not_eq_false]
  rw [opened, hopcode, hbit]

/-- The longer length is read back. -/
theorem feed_extension (h : ReadsLength p) (hbuf : p.extLenBuf = [])
    (hframe : p.frame = { fin := f.fin, opcode := f.opcode }) {k : ℕ} (hk : 0 < k)
      (hneed : p.extLenNeeded = k)
    (hlt : f.payload.length < 256 ^ k) : ∃ q, AtKey f q ∧ ∀ rest,
      feed p (beBytes k f.payload.length ++ rest) = feed q rest := by
  have hnat : beNat (p.extLenBuf ++ beBytes k f.payload.length) = f.payload.length := by
    rw [hbuf, nil_append, beNat_beBytes, Nat.mod_eq_of_lt hlt]
  have hne : beBytes k f.payload.length ≠ [] := by
    rw [← length_pos_iff, length_beBytes]
    exact hk
  refine ⟨_, ?_, fun rest => (feed_extLen h hne (by simp [hbuf, hneed]) rest).trans (if_neg ?_)⟩
  · exact ⟨rfl, h.masked, rfl, hframe, hnat⟩
  · rw [hnat]
    exact f.payload_le.not_gt

/-- Behind the header the parser knows all but the key and the payload. -/
theorem feed_clientHeader (hfits : form.fits f.payload.length)
    (hform : isControl f.opcode → form = .short) :
    ∃ p, AtKey f p ∧ ∀ rest, feed reset (f.header form ++ rest) = feed p rest := by
  have hgood := not_badHeader hfits hform
  obtain ⟨hbit, hfield⟩ := second_byte _ (field_lt hfits)
  have hfeed : ∀ rest, feed reset (f.header form ++ rest) =
      feed (lengthState _ _) (form.extension f.payload.length ++ rest) :=
        fun rest => feed_goodHeader hgood _
  have hframe := opened_frame f (0x80 ||| form.field f.payload.length)
  rw [lengthState, hfield] at hfeed
  generalize ho : opened ((if f.fin then 0x80 else 0) ||| f.opcode)
    (0x80 ||| form.field f.payload.length) = o at *
  have hmasked : o.masked = true := by simpa [← ho, opened] using hbit
  have hlen : o.payloadLen = (form.field f.payload.length).toNat := by rw [← ho, opened, hfield]
  have hread {s : State} {k : ℕ} (hs : s = .extLen16 ∨ s = .extLen64) (hk : 0 < k)
      (hlt : f.payload.length < 256 ^ k) :=
    feed_extension (p := { o with state := s, extLenNeeded := k }) ⟨hs, hmasked, by rw [hframe]⟩
      (by rw [← ho]; rfl) hframe hk rfl hlt
  cases form with
  | short =>
    have hn : f.payload.length ≤ 125 := by simpa [LengthForm.fits] using hfits
    have hto : (LengthForm.field f.payload.length .short).toNat = f.payload.length :=
      UInt8.toNat_ofNat_of_lt' (hn.trans_lt (by decide))
    rw [hto, if_neg (by omega), if_neg (by omega)] at hfeed
    exact ⟨{ o with state := .maskKey },
      ⟨rfl, hmasked, by rw [← ho]; rfl, hframe, hlen.trans hto⟩, hfeed⟩
  | ext16 =>
    obtain ⟨q, hq, hext⟩ := hread (.inl rfl) two_pos (of_decide_eq_true hfits)
    exact ⟨q, hq, fun rest => (hfeed rest).trans (hext rest)⟩
  | ext64 =>
    obtain ⟨q, hq, hext⟩ := hread (.inr rfl) (show 0 < 8 by decide) (of_decide_eq_true hfits)
    exact ⟨q, hq, fun rest => (hfeed rest).trans (hext rest)⟩

/-- The end of the payload of a frame. -/
theorem finishPayload_client
    (hframe : p.frame = { fin := f.fin, opcode := f.opcode, payload := f.payload }) :
    ∃ q, q.frame = f.decoded ∧ ∀ rest, finishPayload p rest = (.ret .frame rest, q) := by
  refine ⟨{ p with state := .done, frame := f.decoded }, rfl, fun rest => ?_⟩
  rw [finishPayload, hframe]
  by_cases hclose : f.opcode = kClose
  · have hone := f.close hclose
    by_cases hnil : f.payload = []
    · simp [decoded, hclose, hnil]
    · have hpos := length_pos_iff.2 hnil
      have htwo : 2 ≤ f.payload.length := by omega
      simp [decoded, hclose, hnil, hone, htwo]
  · simp [decoded, hclose]

/-- Key and payload, behind the header. -/
theorem feed_body (h : AtKey f p) (tail : Bytes) :
    ∃ q, q.frame = f.decoded ∧ feed p (f.mask ++ unmask f.mask 0 f.payload ++ tail) =
      (.frame, tail, q) := by
  have hne : f.mask ≠ [] := by
    rw [← length_pos_iff, f.mask_length]
    decide
  rw [append_assoc, feed_maskKey h.state (by rw [h.frame]) hne
    (by rw [h.maskKey]; exact f.mask_length)]
  by_cases hpos : p.payloadLen > 0
  · simp only [if_pos hpos]
    set p' : WsFrameParser := { p with maskKey := p.maskKey ++ f.mask, state := .payload } with hp'
    have hwait : Waiting p' := by simpa [Waiting, hp', h.frame] using hpos
    have hremain : p'.missing = (unmask f.mask 0 f.payload).length := by
      simp [missing, hp', h.frame, h.payloadLen]
    have habsorb : (absorb p' (unmask f.mask 0 f.payload)).frame =
        { fin := f.fin, opcode := f.opcode, payload := f.payload } := by
      simp [absorb, hp', h.frame, h.masked, h.maskKey, unmask_unmask]
    obtain ⟨q, hq, hret⟩ := finishPayload_client habsorb
    have hcall := feed_payload_whole (p := p') (q := q) rfl hwait
      (show _ ≤ (unmask f.mask 0 f.payload ++ tail).length by rw [hremain]; simp)
      (by rw [hremain, take_left]; exact hret)
    rw [hremain, drop_left] at hcall
    exact ⟨q, hq, hcall⟩
  · have hnil : f.payload = [] := length_eq_zero_iff.1 (by rw [← h.payloadLen]; omega)
    simp only [if_neg hpos]
    refine ⟨_, ?_, by rw [hnil]; rfl⟩
    simp [decoded, h.frame, hnil]

/-- **The frame is returned with its payload, and what follows it is left.** -/
theorem feed_encode (hfits : form.fits f.payload.length)
    (hform : isControl f.opcode → form = .short) (tail : Bytes) :
    ∃ q, q.frame = f.decoded ∧ feed reset (f.encode form ++ tail) = (.frame, tail, q) := by
  obtain ⟨p, hp, hheader⟩ := feed_clientHeader hfits hform
  obtain ⟨q, hq, hbody⟩ := feed_body hp tail
  refine ⟨q, hq, ?_⟩
  rw [encode, append_assoc, hheader, hbody]

end ClientFrame

/-! ## Refusals -/

/-- The stream begins with a header that breaks a rule, which shows in its first `n` bytes: in the
first two, or in a length beyond the cap. -/
inductive RefusedAt : Bytes → ℕ → Prop
  | header {b₀ b₁ : UInt8} (rest : Bytes) : BadHeader b₀ b₁ → RefusedAt (b₀ :: b₁ :: rest) 2
  | size {b₀ b₁ : UInt8} {ext : Bytes} (rest : Bytes) : ¬ BadHeader b₀ b₁ → b₁ &&& 0x7F = 127 →
      ext.length = 8 → kMaxPayloadSize < beNat ext → RefusedAt (b₀ :: b₁ :: (ext ++ rest)) 10

/-- A stream is refused where its frame is bad. -/
theorem feed_refusedAt {stream : Bytes} (h : RefusedAt stream n) :
    ∃ start tail q, stream = start ++ tail ∧ start.length = n ∧
      feed reset stream = (.error, tail, q) := by
  cases h with
  | @header b₀ b₁ rest hbad =>
    obtain ⟨q, hq⟩ := feed_badHeader hbad rest
    exact ⟨[b₀, b₁], rest, q, rfl, rfl, hq⟩
  | @size b₀ b₁ ext rest hgood hlen hext hcap =>
    have hread : ReadsLength { opened b₀ b₁ with state := .extLen64, extLenNeeded := 8 } := by
      refine ⟨.inr rfl, ?_, rfl⟩
      rw [← Bool.not_eq_false]
      exact fun hmask => hgood (.inr (.inl ((masked_opened b₀ b₁).1 hmask)))
    have hne : ext ≠ [] := by
      rw [← length_pos_iff, hext]
      decide
    have hfeed := feed_goodHeader hgood (ext ++ rest)
    rw [lengthState, hlen, if_neg (by decide), if_pos (by rfl)] at hfeed
    have hcall := hfeed.trans (feed_extLen hread hne (by simpa [opened] using hext) rest)
    simp only [show (opened b₀ b₁).extLenBuf = [] from rfl, nil_append, if_pos hcap] at hcall
    exact ⟨b₀ :: b₁ :: ext, rest, _, rfl, by simp [hext], hcall⟩

/-! ## Any segmentation -/

/-- **Frames and refusals do not depend on the segmentation.** A frame of a client, in any of the
forms that have room for its length (a control frame: in the short form), is returned by the call
that brings its last byte; a header that breaks a rule is refused by the call that brings the byte
that shows it. -/
theorem returnsAt_frame_and_error :
    (∀ (f : ClientFrame) (form : LengthForm) (tail : Bytes) (pieces : List Bytes),
      form.fits f.payload.length →
      (isControl f.opcode → form = .short) → pieces.flatten = f.encode form ++ tail →
        ∃ q, q.frame = f.decoded ∧ ReturnsAt pieces (f.encode form).length .frame q) ∧
    ∀ (n : ℕ) (pieces : List Bytes), RefusedAt pieces.flatten n → ∃ q,
      ReturnsAt pieces n .error q := by
  constructor
  · intro f form tail pieces hfits hform hpieces
    obtain ⟨q, hq, hfeed⟩ := f.feed_encode hfits hform tail
    exact ⟨q, hq, returnsAt_of_feed (by decide) hpieces hfeed⟩
  · intro n pieces h
    obtain ⟨start, tail, q, hstream, rfl, hfeed⟩ := feed_refusedAt h
    exact ⟨q, returnsAt_of_feed (by decide) hstream (hstream ▸ hfeed)⟩

/-- A text frame. -/
def greeting : ClientFrame where
  fin := true
  opcode := kText
  mask := [1, 2, 3, 4]
  payload := lit "Hello"
  opcode_lt := by decide
  mask_length := rfl
  payload_le := by decide
  control h := absurd h (by decide)
  close h := absurd h (by decide)

theorem returnsAt_greeting : ∃ q, q.frame = { payload := lit "Hello" } ∧
    ReturnsAt [[0x81], [0xFE, 0], [5, 1, 2], [3, 4, 73, 103], [111, 104, 110, 0x89]] 13 .frame q :=
  returnsAt_frame_and_error.1 greeting .ext16 [0x89] _ (by decide) (by decide) (by decide)

/-- A ping without a payload. -/
def ping : ClientFrame where
  fin := true
  opcode := kPing
  mask := [1, 2, 3, 4]
  payload := []
  opcode_lt := by decide
  mask_length := rfl
  payload_le := by decide
  control _ := ⟨by decide, rfl⟩
  close _ := by decide

/-- The length of a ping has room in two bytes, but a control frame is refused in that form. -/
theorem not_returnsAt_long_ping : LengthForm.ext16.fits ping.payload.length ∧
    ¬ ∃ q, ReturnsAt [ping.encode .ext16] (ping.encode .ext16).length .frame q := by
  refine ⟨by decide, ?_⟩
  rintro ⟨q, before, piece, after, p, left, hpieces, hwaits, hcall, -⟩
  obtain ⟨rfl, rfl, rfl⟩ : before = [] ∧ piece = ping.encode .ext16 ∧ after = [] := by
    cases before with
    | nil => simpa [eq_comm] using hpieces
    | cons b bs => simp at hpieces
  obtain rfl : reset = p := hwaits
  have herror : (feed reset (ping.encode .ext16)).1 = .error := by decide
  rw [hcall] at herror
  cases herror

end PageSpeed.WsFrameParser
