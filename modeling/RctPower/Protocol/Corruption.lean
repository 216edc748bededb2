import RctPower.Protocol.Crc
import RctPower.Protocol.RoundTrip

/-!
# Corrupted frames

A standard frame is altered by an error pattern, byte by byte, before it is escaped. Where the
pattern leaves the command and the length field alone, the parser still finds the end of the frame,
and its answer is the checksum's.

`corruption_caught`: a pattern that is confined to 16 consecutive bits of the id and the payload, or
to the checksum itself, is always seen. Bits are counted as the checksum takes them, in each byte
from the highest to the lowest.
-/

namespace RctPower

open RctPower.Lib RctPower.Lib.Rust RctPower.Lib.EarlyExit RctPower.Lib.Stuffing

/-! ### Error patterns -/

/-- The length of what is in front of the id: the command byte and the length field. -/
def frontLength (command : Command) : ℕ := 2 + (if command.isLong then 1 else 0)

/-- The error patterns of a body with `front` bytes before the id and `rest` bytes from the id to the
checksum. -/
inductive Corrupts (front rest : ℕ) : List UInt8 → Prop where
  /-- Errors in at most 16 consecutive bits of the id and the payload. -/
  | burst {e : List UInt8} (hlen : e.length = rest) (h : Gf2.Burst 16 (messageNumber e)) :
    Corrupts front rest (List.replicate front 0 ++ e ++ [0, 0])
  /-- Errors in the checksum. -/
  | crc {a b : UInt8} (h : a ≠ 0 ∨ b ≠ 0) : Corrupts front rest (List.replicate (front + rest) 0 ++ [a, b])

/-- The parser reports a mismatch at the last byte of the wire, and that the checksum is wrong. -/
def Caught (body : List UInt8) : Prop :=
  ∃ rx received calculated,
    (ReceiveFrame.new false).consume (wire body) =
        .ok (rx, .error (.frameCrcMismatch received calculated (wire body).length)) ∧
      rx.crcOk = false

/-! ### What the parser makes of an altered body -/

section Content

variable {command : Command} {rest : List UInt8}

/-- The content of a body: the command byte, the length field and what it counts. -/
def content (command : Command) (rest : List UInt8) : List UInt8 :=
  command.byte :: (lengthBytes command rest.length ++ rest)

theorem content_eq (command : Command) (rest : List UInt8) :
    content command rest = (command.byte :: lengthBytes command rest.length) ++ rest := rfl

theorem length_front (command : Command) (k : ℕ) :
    (command.byte :: lengthBytes command k).length = frontLength command := by
  rw [List.length_cons, length_lengthBytes, frontLength]
  omega

@[simp] theorem bodyContent_concat (content : List UInt8) (x y : UInt8) :
    bodyContent (content ++ [x, y]) = content := by
  simp [bodyContent]

@[simp] theorem bodyCrc_concat (content : List UInt8) (x y : UInt8) : bodyCrc (content ++ [x, y]) = u16OfBe x y := by
  simp [bodyCrc]

/-- A content with anything for a checksum is a framed body. -/
theorem framed_content (hext : command ≠ .extension) (h4 : 4 ≤ rest.length) (hrest : rest.length < lengthBound command)
    (x y : UInt8) : ReceiveFrame.Framed (content command rest ++ [x, y]) := by
  have hframe := (wellFormed_frameBody (Command.fromByte_byte command) (Command.not_isPlantByte_byte command) hext hrest
    h4).framed.lengths
  have hne : content command rest ≠ [] := List.cons_ne_nil _ _
  have hlen : (content command rest).length = 2 + (if command.isLong then 1 else 0) + rest.length := by
    rw [content_eq, List.length_append, length_front, frontLength]
  have hbody : frameBody command.byte command rest =
      content command rest ++ u16ToBe (crc16 (content command rest)) := rfl
  rw [hbody, bodyHeader_append hne, bodyFrameLength_append (by omega), List.length_append, length_u16ToBe] at hframe
  refine ReceiveFrame.framed_of_lengths ⟨command, Command.fromByte_byte command, hext⟩ ?_ ?_
  · rw [bodyHeader_append hne, List.length_append]
    exact hframe.2.1
  · rw [bodyFrameLength_append (by omega), List.length_append]
    exact hframe.2.2.symm

/-- A checksum that is not the one of the content is caught. -/
theorem caught_of_ne (hext : command ≠ .extension) (h4 : 4 ≤ rest.length) (hrest : rest.length < lengthBound command)
    {x y : UInt8} (hne : u16OfBe x y ≠ crc16 (content command rest)) : Caught (content command rest ++ [x, y]) := by
  have hpasses : ¬ ReceiveFrame.Passes false (content command rest ++ [x, y]) := by
    rw [ReceiveFrame.Passes, bodyCrc_concat, bodyContent_concat]
    simpa using hne
  have hmismatch := (framed_content hext h4 hrest x y).mismatch hpasses (unstuff_wire _) (g := []) (by simp)
  refine ⟨_, _, _, hmismatch, ?_⟩
  simpa [ReceiveFrame.completed] using hne

end Content

/-- **Corruption is caught.** -/
theorem corruption_caught {command : Command} (hext : command ≠ .extension) (id : UInt32) {payload : List UInt8}
    (hfits : payload.length ≤ capacity command) {e : List UInt8}
    (he : Corrupts (frontLength command) (4 + payload.length) e) :
    Caught (xorBytes (frameBody command.byte command (u32ToBe id ++ payload)) e) := by
  have hlen : (u32ToBe id ++ payload).length = 4 + payload.length := by rw [List.length_append, length_u32ToBe]
  have hbound : (u32ToBe id ++ payload).length < lengthBound command := by
    rw [hlen, lengthBound_eq]
    omega
  obtain ⟨rest, hrest⟩ : ∃ rest, u32ToBe id ++ payload = rest := ⟨_, rfl⟩
  have hbody : frameBody command.byte command rest =
      content command rest ++ u16ToBe (crc16 (content command rest)) := rfl
  have hcontent : (content command rest).length = frontLength command + rest.length := by
    rw [content_eq, List.length_append, length_front]
  rw [hrest] at hlen hbound
  rw [hrest, hbody]
  obtain ⟨x, y, hxy, hcrc⟩ : ∃ x y, u16ToBe (crc16 (content command rest)) = [x, y] ∧
      u16OfBe x y = crc16 (content command rest) := ⟨_, _, rfl, u16OfBe_toBe _⟩
  cases he with
  | @burst e hlene hburst =>
    -- the altered content has another checksum
    have hzeros : (List.replicate (frontLength command) (0 : UInt8)).length = frontLength command :=
      List.length_replicate
    have hfront := length_front command rest.length
    have haltered : xorBytes (content command rest) (List.replicate (frontLength command) 0 ++ e) =
        content command (xorBytes rest e) := by
      rw [content_eq, xorBytes_append (by rw [hfront, hzeros]), ← hfront, xorBytes_zeros, content_eq,
        length_xorBytes (by omega)]
    have hne : crc16 (xorBytes (content command rest) (List.replicate (frontLength command) 0 ++ e)) ≠
        crc16 (content command rest) := crc16_xorBytes_ne (by simp; omega) (by rwa [messageNumber_zeros])
    have hlength : (xorBytes rest e).length = rest.length := length_xorBytes (by omega)
    rw [haltered] at hne
    have hcrcZeros : xorBytes [x, y] [0, 0] = [x, y] := xorBytes_zeros [x, y]
    rw [xorBytes_append (by simp; omega), haltered, hxy, hcrcZeros]
    exact caught_of_ne hext (by omega) (by omega) (hcrc ▸ hne.symm)
  | @crc a b hab =>
    rw [← hlen, ← hcontent, xorBytes_append (by simp), xorBytes_zeros, hxy]
    refine caught_of_ne hext (by omega) hbound fun heq => ?_
    -- the same checksum has the same bytes
    have hbytes : [x ^^^ a, y ^^^ b] = [x, y] := by rw [← u16ToBe_ofBe, ← u16ToBe_ofBe, heq, hcrc]
    rw [List.cons.injEq, List.cons.injEq] at hbytes
    rcases hab with ha | hb
    · exact ha ((UInt8.xor_right_inj x).mp (hbytes.1.trans UInt8.xor_zero.symm))
    · exact hb ((UInt8.xor_right_inj y).mp (hbytes.2.1.trans UInt8.xor_zero.symm))

/-- A response whose id is altered across a byte boundary, and whose checksum is. -/
theorem corruption_caught_response :
    Caught (xorBytes (frameBody 0x05 .response (u32ToBe 0x11223344 ++ [0x2b])) [0, 0, 0, 0xff, 0xff, 0, 0, 0, 0]) ∧
      Caught (xorBytes (frameBody 0x05 .response (u32ToBe 0x11223344 ++ [0x2b])) [0, 0, 0, 0, 0, 0, 0, 0, 1]) := by
  have hburst : Gf2.Burst 16 (messageNumber [0, 0xff, 0xff, 0, 0]) :=
    (Gf2.burst_of_lt (n := 0xffff) (by norm_num) (by norm_num)).mul_two_pow 16
  exact ⟨@corruption_caught .response (by decide) 0x11223344 [0x2b] (by decide) _ (.burst rfl hburst),
    @corruption_caught .response (by decide) 0x11223344 [0x2b] (by decide) _ (.crc (.inr (by decide)))⟩

end RctPower
