import RctPower.Protocol.Completion

/-!
# Encoding and decoding

The bodies that `make_frame` builds have one layout, `frameBody`: a command byte, a
length field that counts the rest, the rest and the CRC. The parser computes the frame
length of such a body as the true one plus four when the command byte has the plant bit
(`bodyFrameLength_frameBody`).

## What is proved

* `StdFrame` is a frame of the standard type: a command the parser accepts and a payload
  that fits the length field. `parses_makeFrame`: what `make_frame` makes of it is parsed
  back to it, at the last byte and not before, behind any bytes without a start token.
* `makesSoundFrame_iff`: without the bound on the payload, `make_frame` still succeeds,
  or panics in a debug build, and its length field is wrong for every payload that does not
  fit. It has no error path.
-/

namespace RctPower

open RctPower.Lib.Rust RctPower.Lib.EarlyExit RctPower.Lib.Stuffing

/-! ### The layout of a frame -/

/-- The length field for a count. -/
def lengthBytes (command : Command) (k : ℕ) : List UInt8 :=
  if command.isLong then u16ToBe (UInt16.ofNat k) else [UInt8.ofNat k]

/-- What a length field can count up to. -/
def lengthBound (command : Command) : ℕ := if command.isLong then 2 ^ 16 else 2 ^ 8

/-- The body of a frame with command byte `b`: the length field counts what is between it
and the CRC. -/
def frameBody (b : UInt8) (command : Command) (rest : List UInt8) : List UInt8 :=
  withCrc (b :: (lengthBytes command rest.length ++ rest))

theorem length_lengthBytes (command : Command) (k : ℕ) :
    (lengthBytes command k).length = 1 + (if command.isLong then 1 else 0) := by
  rw [lengthBytes]
  split <;> rfl

@[simp] theorem bodyContent_withCrc (content : List UInt8) : bodyContent (withCrc content) = content := by
  simp [bodyContent, withCrc]

@[simp] theorem bodyCrc_withCrc (content : List UInt8) : bodyCrc (withCrc content) = crc16 content := by
  have h₁ : (withCrc content).getD content.length 0 = UInt8.ofNat ((crc16 content).toNat / 2 ^ 8) := by
    simp [withCrc, u16ToBe]
  have h₂ : (withCrc content).getD (content.length + 1) 0 = UInt8.ofNat (crc16 content).toNat := by
    simp [withCrc, u16ToBe]
  have hlen : (withCrc content).length = content.length + 2 := by simp [withCrc]
  rw [bodyCrc]
  rw [hlen, Nat.add_sub_cancel, show content.length + 2 - 1 = content.length + 1 from rfl, h₁, h₂, u16OfBe_toBe]

section FrameBody

variable {b : UInt8} {cmd : Command} (hb : Command.fromByte b = some cmd) {rest : List UInt8}

theorem headD_frameBody : (frameBody b cmd rest).headD 0 = b := rfl

theorem length_frameBody : (frameBody b cmd rest).length = 4 + (if cmd.isLong then 1 else 0) + rest.length := by
  simp only [frameBody, withCrc, List.cons_append, List.length_cons, List.length_append, length_lengthBytes,
    length_u16ToBe]
  omega

include hb

theorem longByte_of_fromByte : longByte b = cmd.isLong := by
  rw [longByte]
  rw [hb, Option.any_some]

theorem bodyHeader_frameBody :
    bodyHeader (frameBody b cmd rest) =
      7 + (if Command.isPlantByte b then 4 else 0) + (if cmd.isLong then 1 else 0) := by
  rw [bodyHeader, headD_frameBody, headerLength, longByte_of_fromByte hb]

theorem bodyLength_frameBody (hrest : rest.length < lengthBound cmd) :
    bodyLength (frameBody b cmd rest) = rest.length := by
  rw [bodyLength]
  rw [headD_frameBody, longByte_of_fromByte hb]
  rw [lengthBound] at hrest
  unfold frameBody lengthBytes
  cases hl : cmd.isLong with
  | true =>
    rw [hl, if_pos rfl] at hrest
    simp only [if_true, withCrc, u16ToBe, List.cons_append, List.nil_append, List.getD_cons_succ, List.getD_cons_zero]
    rw [u16OfBe_toBe, UInt16.toNat_ofNat', Nat.mod_eq_of_lt hrest]
  | false =>
    simp only [hl, Bool.false_eq_true, if_false] at hrest
    simp only [Bool.false_eq_true, if_false, withCrc, List.cons_append, List.nil_append, List.getD_cons_succ,
      List.getD_cons_zero]
    rw [UInt8.toNat_ofNat', Nat.mod_eq_of_lt hrest]

/-- **The frame length the parser computes** for a frame is its length, and four more if the
command byte has the plant bit. -/
theorem bodyFrameLength_frameBody (hrest : rest.length < lengthBound cmd) :
    bodyFrameLength (frameBody b cmd rest) =
      (frameBody b cmd rest).length + 1 + (if Command.isPlantByte b then 4 else 0) := by
  rw [bodyFrameLength]
  rw [bodyLength_frameBody hb hrest, bodyHeader_frameBody hb, length_frameBody]
  omega

/-- The first four bytes after the length field are taken for the id. -/
theorem bodyId_frameBody {i : UInt32} {tail : List UInt8} (hrest : rest = u32ToBe i ++ tail) :
    bodyId (frameBody b cmd rest) = i := by
  subst hrest
  unfold bodyId bodyBe
  rw [headD_frameBody, longByte_of_fromByte hb]
  have hi := u32OfBe_toBe i
  unfold frameBody lengthBytes
  cases cmd.isLong <;>
    simpa only [if_true, Bool.false_eq_true, if_false, withCrc, u16ToBe, u32ToBe, List.cons_append, List.nil_append,
      List.getD_cons_succ, List.getD_cons_zero] using hi

/-- What follows them is taken for the payload, if the command byte has no plant bit. -/
theorem bodyData_frameBody (hplant : Command.isPlantByte b = false) :
    bodyData (frameBody b cmd rest) = rest.drop 4 := by
  rw [bodyData]
  rw [bodyHeader_frameBody hb, hplant, frameBody, bodyContent_withCrc]
  rw [lengthBytes]
  cases cmd.isLong <;> simp [u16ToBe, List.drop_succ_cons]

theorem wellFormed_frameBody (hplant : Command.isPlantByte b = false) (hext : cmd ≠ .extension)
    (hrest : rest.length < lengthBound cmd) (h4 : 4 ≤ rest.length) :
    ReceiveFrame.WellFormed (frameBody b cmd rest) where
  command := ⟨cmd, hb, hext⟩
  header := by
    rw [bodyHeader_frameBody hb, hplant, length_frameBody]
    simp only [Bool.false_eq_true, if_false]
    omega
  length := by
    rw [bodyFrameLength_frameBody hb hrest, hplant]
    simp
  crc := by
    rw [frameBody]
    rw [bodyContent_withCrc, bodyCrc_withCrc]

end FrameBody

/-! ### What the parser hands out -/

namespace ReceiveFrame

/-- A complete frame with a right CRC and these fields. -/
structure Parsed (rx : ReceiveFrame) (command : Command) (id address : UInt32) (data : List UInt8) : Prop where
  /-- `complete()`. -/
  complete : rx.complete = true
  /-- `crc_ok()`. -/
  crcOk : rx.crcOk = true
  /-- `command()`. -/
  command : rx.command = some command
  /-- `id()`. -/
  id : rx.id = id
  /-- `address()`. -/
  address : rx.address = address
  /-- `data()`. -/
  data : rx.data = data

/-- However the stream is cut, a fresh parser is not complete and not in error before its
last byte, and with it has taken the whole stream and hands out these fields. -/
def ParsesTo (s : List UInt8) (command : Command) (id address : UInt32) (data : List UInt8) : Prop :=
  (∀ chunks : List (List UInt8), chunks.flatten <+: s → chunks.flatten ≠ s →
    ∃ rx, (new false).feed chunks = .ok (rx, .ok ()) ∧ rx.complete = false) ∧
    ∀ chunks : List (List UInt8), chunks.flatten = s →
      ∃ rx, (new false).feed chunks = .ok (rx, .ok ()) ∧ rx.Parsed command id address data ∧
        rx.consumedBytes = s.length

/-- The fields of a completed frame: the id and the payload are taken from what follows the
length field, four bytes and the rest. -/
theorem parsed_completed {b : UInt8} {cmd : Command} (hb : Command.fromByte b = some cmd)
    (hplant : Command.isPlantByte b = false) {i : UInt32} {tail : List UInt8} (ign : Bool) (n : ℕ)
    (raw : List UInt8) :
    (completed ign n raw (frameBody b cmd (u32ToBe i ++ tail))).Parsed cmd i 0 tail where
  complete := rfl
  crcOk := by
    simp [completed, frameBody]
  command := by
    have hne : frameBody b cmd (u32ToBe i ++ tail) ≠ [] := by simp [frameBody, withCrc]
    simp only [completed, reading, if_neg hne, headD_frameBody, hb]
  id := by
    have hlen :
        bodyHeader (frameBody b cmd (u32ToBe i ++ tail)) ≤ (frameBody b cmd (u32ToBe i ++ tail)).length + 1 := by
      rw [bodyHeader_frameBody hb, hplant, length_frameBody, List.length_append, length_u32ToBe]
      simp only [Bool.false_eq_true, if_false]
      omega
    simp only [completed, reading, if_pos hlen, bodyId_frameBody hb rfl]
  address := rfl
  data := by
    simp [completed, bodyData_frameBody hb hplant, u32ToBe]

end ReceiveFrame

/-! ### Standard frames -/

/-- The longest payload a standard frame has room for. -/
def capacity (command : Command) : ℕ := if command.isLong then 65531 else 251

theorem lengthBound_eq (command : Command) : lengthBound command = capacity command + 5 := by
  unfold lengthBound capacity
  split <;> rfl

/-- A frame of the standard type. -/
structure StdFrame where
  /-- The command. -/
  command : Command
  /-- The object id. -/
  id : UInt32
  /-- The payload. -/
  payload : List UInt8
  /-- The command is one the parser accepts. -/
  parseable : command ≠ .extension
  /-- The payload fits the length field. -/
  fits : payload.length ≤ capacity command
  /-- A read has no payload. -/
  ofRead : command = .read → payload = []

namespace StdFrame

theorem response_parseable : Command.response ≠ .extension := by decide

theorem four_le_capacity : 4 ≤ capacity .response := by decide

/-- A response with a payload of at most four bytes. -/
def response (id : UInt32) (payload : List UInt8) (short : payload.length ≤ 4) : StdFrame :=
  ⟨.response, id, payload, response_parseable, short.trans four_le_capacity, fun hread => by cases hread⟩

variable (f : StdFrame)

/-- The unescaped bytes of the frame after the start token. -/
def body : List UInt8 := frameBody f.command.byte f.command (u32ToBe f.id ++ f.payload)

/-- The bytes of the frame on the wire. -/
def bytes : List UInt8 := wire f.body

theorem rest_lt : (u32ToBe f.id ++ f.payload).length < lengthBound f.command := by
  have := f.fits
  rw [lengthBound_eq, List.length_append, length_u32ToBe]
  omega

theorem wellFormed_body : ReceiveFrame.WellFormed f.body :=
  wellFormed_frameBody (Command.fromByte_byte _) (Command.not_isPlantByte_byte _) f.parseable f.rest_lt (by simp)

end StdFrame

/-- The reader of a wire undoes the escapes. -/
theorem unstuff_wire (body : List UInt8) : unstuff ESCAPE_TOKEN false (wire body).tail = (body, false) :=
  unstuff_stuff (by decide) body

/-- The length field of a frame that fits. -/
theorem makeLength_of_fits {command : Command} {payload : List UInt8} (ft : FrameType)
    (h : ft.value + payload.length < lengthBound command) (prof : Profile) :
    makeLength prof command payload ft = .ok (lengthBytes command (ft.value + payload.length)) := by
  rw [lengthBound] at h
  unfold makeLength lengthBytes
  cases hl : command.isLong with
  | true =>
    rw [hl, if_pos rfl] at h
    have hadd : (UInt16.ofNat ft.value).toNat + (UInt16.ofNat payload.length).toNat < 2 ^ 16 := by
      simp only [UInt16.toNat_ofNat']
      omega
    rw [if_pos rfl, if_pos rfl, addU16, if_pos (.inl hadd), ← UInt16.ofNat_add]
    rfl
  | false =>
    simp only [hl, Bool.false_eq_true, if_false] at h
    have hadd : (UInt8.ofNat ft.value).toNat + (UInt8.ofNat payload.length).toNat < 2 ^ 8 := by
      simp only [UInt8.toNat_ofNat']
      omega
    rw [if_neg (by simp), if_neg (by simp), addU8, if_pos (.inl hadd), ← UInt8.ofNat_add]
    rfl

/-- **What `make_frame` makes of a standard frame.** -/
theorem makeFrame_standard (f : StdFrame) (prof : Profile) (address : UInt32) :
    makeFrame prof f.command f.id f.payload address .standard = .ok (.ok f.bytes) := by
  have hlen := f.rest_lt
  rw [List.length_append, length_u32ToBe] at hlen
  have hpayload : (if f.command = .read then [] else f.payload) = f.payload := by
    split_ifs with hread
    · exact (f.ofRead hread).symm
    · rfl
  rw [makeFrame]
  rw [makeLength_of_fits .standard hlen, hpayload]
  simp only [Except.map, reduceCtorEq, if_false, StdFrame.bytes, StdFrame.body, frameBody, frameContent,
    List.append_nil, List.append_assoc, List.length_append, length_u32ToBe, FrameType.value]

namespace ReceiveFrame

/-- Any stream that carries the body of a standard frame, escaped one way or another, completes
with its fields and its bytes. -/
theorem completes_standard (f : StdFrame) {t g : List UInt8} (ht : unstuff ESCAPE_TOKEN false t = (f.body, false))
    (hg : START_TOKEN ∉ g) :
    ∃ rx, Completes (g ++ START_TOKEN :: t) rx ∧ rx.Parsed f.command f.id 0 f.payload ∧
      rx.wireBytes = START_TOKEN :: t ∧ rx.consumedBytes = (g ++ START_TOKEN :: t).length := by
  refine ⟨_, completes_body f.wellFormed_body ht hg,
    parsed_completed (Command.fromByte_byte _) (Command.not_isPlantByte_byte _) _ _ _, rfl, ?_⟩
  simp only [completed, reading, List.length_append, List.length_cons]
  omega

/-- The bytes of a standard frame are such a stream. -/
theorem completes_bytes (f : StdFrame) {g : List UInt8} (hg : START_TOKEN ∉ g) :
    ∃ rx, Completes (g ++ f.bytes) rx ∧ rx.Parsed f.command f.id 0 f.payload ∧ rx.wireBytes = f.bytes ∧
      rx.consumedBytes = (g ++ f.bytes).length :=
  completes_standard f (unstuff_wire f.body) hg

theorem Completes.parsesTo {s : List UInt8} {rx : ReceiveFrame} (h : Completes s rx) {command : Command}
    {id address : UInt32} {data : List UInt8} (hp : rx.Parsed command id address data)
    (hn : rx.consumedBytes = s.length) : ParsesTo s command id address data :=
  ⟨h.receives.1, fun chunks hs => ⟨rx, h.receives.2 chunks hs, hp, hn⟩⟩

/-- A standard frame behind bytes without a start token is parsed back. -/
theorem parsesTo_bytes (f : StdFrame) {g : List UInt8} (hg : START_TOKEN ∉ g) :
    ParsesTo (g ++ f.bytes) f.command f.id 0 f.payload := by
  obtain ⟨rx, h, hp, -, hn⟩ := completes_bytes f hg
  exact h.parsesTo hp hn

/-- **Decoding undoes encoding** for standard frames, behind any bytes without a start
token and however the stream is cut. -/
theorem parses_makeFrame (f : StdFrame) (prof : Profile) :
    ∃ s, makeFrame prof f.command f.id f.payload 0 .standard = .ok (.ok s) ∧
      ∀ g, START_TOKEN ∉ g → ParsesTo (g ++ s) f.command f.id 0 f.payload :=
  ⟨f.bytes, makeFrame_standard f prof 0, fun _ hg => parsesTo_bytes f hg⟩

/-- A write whose payload holds both tokens, behind an escape token. -/
theorem parses_makeFrame_tokens :
    ∃ s, makeFrame .debug .write 0x11223344 [0x2b, 0x2d, 0x01] 0 .standard = .ok (.ok s) ∧
      ParsesTo ([0x00, 0x2d] ++ s) .write 0x11223344 0 [0x2b, 0x2d, 0x01] := by
  obtain ⟨s, hs, h⟩ :=
    parses_makeFrame ⟨.write, 0x11223344, [0x2b, 0x2d, 0x01], by decide, by decide, by decide⟩ .debug
  exact ⟨s, hs, h [0x00, 0x2d] (by decide)⟩

end ReceiveFrame

/-! ### Payloads of any length -/

/-- The length field of a stream that starts with a frame. -/
def wireLength (s : List UInt8) : ℕ := bodyLength (unstuff ESCAPE_TOKEN false s.tail).1

/-- `make_frame` does not panic, and what it returns, if not an error, has the right length
field and is parsed back. -/
def MakesSoundFrame (prof : Profile) (command : Command) (id : UInt32) (payload : List UInt8) : Prop :=
  ∃ r, makeFrame prof command id payload 0 .standard = .ok r ∧
    ∀ s, r = .ok s → wireLength s = 4 + payload.length ∧ ReceiveFrame.ParsesTo s command id 0 payload

/-- A length field is below its bound. -/
theorem bodyLength_lt {u : List UInt8} {cmd : Command} (hcmd : Command.fromByte (u.headD 0) = some cmd) :
    bodyLength u < lengthBound cmd := by
  unfold bodyLength lengthBound
  rw [longByte_of_fromByte hcmd]
  cases cmd.isLong with
  | true => exact UInt16.toNat_lt _
  | false => exact UInt8.toNat_lt _

/-- `make_frame` has no error path, and its length field is below its bound. -/
theorem makeFrame_ok {prof : Profile} {command : Command} {id address : UInt32} {payload : List UInt8}
    {ft : FrameType} {r : Except RctError (List UInt8)} (h : makeFrame prof command id payload address ft = .ok r) :
    ∃ s, r = .ok s ∧ wireLength s < lengthBound command := by
  rw [makeFrame] at h
  obtain ⟨length, -, rfl⟩ := of_map_eq_ok h
  refine ⟨_, rfl, ?_⟩
  rw [wireLength, unstuff_wire]
  exact bodyLength_lt (Command.fromByte_byte command)

/-- **`make_frame` is sound exactly on the payloads that fit.** -/
theorem makesSoundFrame_iff (prof : Profile) {command : Command} (hread : command ≠ .read)
    (hext : command ≠ .extension) (id : UInt32) (payload : List UInt8) :
    MakesSoundFrame prof command id payload ↔ payload.length ≤ capacity command := by
  constructor
  · rintro ⟨r, hr, h⟩
    obtain ⟨s, hs, hlt⟩ := makeFrame_ok hr
    have := (h s hs).1
    rw [lengthBound_eq] at hlt
    omega
  · intro hfits
    let f : StdFrame := ⟨command, id, payload, hext, hfits, fun h => absurd h hread⟩
    refine ⟨.ok f.bytes, makeFrame_standard f prof 0, ?_⟩
    rintro s hs
    obtain rfl : f.bytes = s := by simpa using hs
    refine ⟨?_, ReceiveFrame.parsesTo_bytes f (g := []) (by simp)⟩
    unfold wireLength StdFrame.bytes
    rw [unstuff_wire, StdFrame.body, bodyLength_frameBody (Command.fromByte_byte _) f.rest_lt, List.length_append,
      length_u32ToBe]

/-- A write of three bytes, in a debug build. -/
theorem makesSoundFrame_three : MakesSoundFrame .debug .write 0x11223344 [0x2b, 0x2d, 0x01] :=
  (makesSoundFrame_iff .debug (by decide) (by decide) 0x11223344 [0x2b, 0x2d, 0x01]).mpr (by decide)

/-- A write of 256 bytes gets the length field of an empty one. -/
theorem makeFrame_write_256 :
    (∃ s, makeFrame .debug .write 0 (List.replicate 256 0) 0 .standard = .ok (.ok s) ∧ wireLength s = 4) ∧
      ¬ MakesSoundFrame .debug .write 0 (List.replicate 256 0) := by
  have hlength : makeLength .debug .write (List.replicate 256 0) .standard = .ok [4] := by
    rw [makeLength]
    rw [List.length_replicate]
    rfl
  have hmake : makeFrame .debug .write 0 (List.replicate 256 0) 0 .standard =
      .ok (.ok (wire (withCrc (frameContent .write [4] [] 0 (List.replicate 256 0))))) := by
    rw [makeFrame]
    rw [hlength]
    rfl
  refine ⟨⟨_, hmake, ?_⟩, ?_⟩
  · rw [wireLength]
    rw [unstuff_wire]
    rfl
  · rintro ⟨r, hr, h⟩
    obtain ⟨s, hs, hlt⟩ := makeFrame_ok hr
    have := (h s hs).1
    rw [List.length_replicate] at this
    have : lengthBound .write = 2 ^ 8 := rfl
    omega

end RctPower
