import RctPower.Protocol.RoundTrip

/-!
# The grammar of standard frames

What `ReceiveFrame` accepts, when the first command byte of the stream has no plant bit, is a
language: bytes without a start token, the start token, and bytes that unescape to a command byte,
a length field, an id, a payload and the CRC of these (`Sentence`). The escapes are the sender's
choice: any byte may have one, and a start token within the frame need not.

## What is proved

`consume_complete_iff`: a stream completes a fresh parser exactly when it starts with a sentence,
and the parser then holds the sentence's fields and has taken its bytes. The hard part is that
nothing else completes: a `WellFormed` body without a plant bit has the layout of a frame
(`WellFormed.exists_frameBody`).
-/

namespace RctPower

open RctPower.Lib.Rust RctPower.Lib.EarlyExit RctPower.Lib.Stuffing

/-- A stream that starts with a sentence of the grammar: `g` is skipped, `w` are the bytes of
the frame after the start token, and `rest` is what follows them. -/
structure Sentence (s g w rest : List UInt8) (command : Command) (id : UInt32) (data : List UInt8) : Prop where
  /-- The pieces. -/
  split : s = g ++ START_TOKEN :: (w ++ rest)
  /-- The start token is the first. -/
  skipped : START_TOKEN ∉ g
  /-- The command is not an extension. -/
  parseable : command ≠ .extension
  /-- The length field can count the id and the payload. -/
  fits : 4 + data.length < lengthBound command
  /-- With the escapes removed, `w` is the command byte, the length field, the id, the payload and
  the CRC. -/
  unescapes : unstuff ESCAPE_TOKEN false w = (frameBody command.byte command (u32ToBe id ++ data), false)

/-- The first byte after the first start token, with escapes removed. -/
def firstCommand (s : List UInt8) : Option UInt8 :=
  (unstuff ESCAPE_TOKEN false (s.dropWhile (· ≠ START_TOKEN)).tail).1.head?

theorem firstCommand_append {g : List UInt8} (hg : START_TOKEN ∉ g) (t : List UInt8) :
    firstCommand (g ++ START_TOKEN :: t) = (unstuff ESCAPE_TOKEN false t).1.head? := by
  rw [firstCommand, ReceiveFrame.dropWhile_start hg, List.tail_cons]

/-! ### Bodies without a plant bit -/

/-- A command byte without the plant bit is the byte of its command. -/
theorem byte_of_fromByte {b : UInt8} {cmd : Command} (hb : Command.fromByte b = some cmd)
    (hplant : Command.isPlantByte b = false) : cmd.byte = b := by
  have hbits : ∀ x : BitVec 8, x &&& 0x40#8 = 0#8 → x &&& ~~~0x40#8 = x := by decide
  have hbase : b &&& ~~~Command.PLANT_BIT = b := by
    apply UInt8.toBitVec_inj.mp
    apply hbits
    simpa [Command.isPlantByte, Command.PLANT_BIT, ← UInt8.toBitVec_inj] using hplant
  unfold Command.fromByte at hb
  simp only [hbase] at hb
  split_ifs at hb with h₁ h₂ h₃ h₄ h₅ h₆ h₇ <;> cases hb <;> simp [Command.byte, *]

/-- What ends with its CRC. -/
theorem eq_withCrc {v : List UInt8} (h2 : 2 ≤ v.length) (hcrc : bodyCrc v = crc16 (bodyContent v)) :
    v = withCrc (bodyContent v) := by
  have hend : v.drop (v.length - 2) = [v.getD (v.length - 2) 0, v.getD (v.length - 1) 0] := by
    rw [List.getD_eq_getElem _ _ (by omega), List.getD_eq_getElem _ _ (by omega),
      List.drop_eq_getElem_cons (by omega), List.drop_eq_getElem_cons (by omega), List.drop_of_length_le (by omega)]
    simp only [show v.length - 2 + 1 = v.length - 1 by omega]
  rw [withCrc, ← hcrc, bodyCrc, u16ToBe_ofBe, ← hend, bodyContent, List.take_append_drop]

/-- The content of a body, as command byte, length field, id and payload. -/
theorem exists_content {b : UInt8} {cmd : Command} {u : List UInt8} (hb : Command.fromByte b = some cmd)
    (hlen : 6 + (if cmd.isLong then 1 else 0) ≤ (b :: u).length)
    (hlength : bodyLength (b :: u) + 2 + (if cmd.isLong then 1 else 0) = (b :: u).length) :
    ∃ id data, b :: u = b :: (lengthBytes cmd (u32ToBe id ++ data).length ++ (u32ToBe id ++ data)) ∧
      4 + data.length < lengthBound cmd := by
  have hbound := bodyLength_lt (u := b :: u) hb
  have hlong : longByte b = cmd.isLong := longByte_of_fromByte hb
  cases hl : cmd.isLong with
  | true =>
    simp only [hl, if_true] at hlen hlength
    obtain _ | ⟨l₀, _ | ⟨l₁, _ | ⟨i₀, _ | ⟨i₁, _ | ⟨i₂, _ | ⟨i₃, data⟩⟩⟩⟩⟩⟩ := u
    all_goals simp only [List.length_cons, List.length_nil] at hlen
    any_goals omega
    have hcount : bodyLength (b :: l₀ :: l₁ :: i₀ :: i₁ :: i₂ :: i₃ :: data) = (u16OfBe l₀ l₁).toNat := by
      rw [bodyLength, List.headD_cons, hlong, hl]
      rfl
    simp only [List.length_cons] at hlength
    refine ⟨u32OfBe i₀ i₁ i₂ i₃, data, ?_, by omega⟩
    rw [List.length_append, length_u32ToBe, u32ToBe_ofBe, lengthBytes, hl, if_pos rfl,
      show 4 + data.length = (u16OfBe l₀ l₁).toNat by omega, UInt16.ofNat_toNat, u16ToBe_ofBe]
    rfl
  | false =>
    simp only [hl, Bool.false_eq_true, if_false] at hlen hlength
    obtain _ | ⟨l₀, _ | ⟨i₀, _ | ⟨i₁, _ | ⟨i₂, _ | ⟨i₃, data⟩⟩⟩⟩⟩ := u
    all_goals simp only [List.length_cons, List.length_nil] at hlen
    any_goals omega
    have hcount : bodyLength (b :: l₀ :: i₀ :: i₁ :: i₂ :: i₃ :: data) = l₀.toNat := by
      rw [bodyLength, List.headD_cons, hlong, hl]
      rfl
    simp only [List.length_cons] at hlength
    refine ⟨u32OfBe i₀ i₁ i₂ i₃, data, ?_, by omega⟩
    rw [List.length_append, length_u32ToBe, u32ToBe_ofBe, lengthBytes, hl, if_neg (by simp),
      show 4 + data.length = l₀.toNat by omega, UInt8.ofNat_toNat]
    rfl

namespace ReceiveFrame

/-- **A well-formed body without a plant bit is that of a frame.** -/
theorem WellFormed.exists_frameBody {v : List UInt8} (h : WellFormed v)
    (hplant : Command.isPlantByte (v.headD 0) = false) :
    ∃ command id data, command ≠ .extension ∧ 4 + data.length < lengthBound command ∧
      v = frameBody command.byte command (u32ToBe id ++ data) := by
  obtain ⟨cmd, hcmd, hext⟩ := h.command
  have hheader := h.header
  have hlength := h.length
  have hdef : bodyHeader v = 7 + (if cmd.isLong then 1 else 0) := by
    rw [bodyHeader, headerLength, hplant, longByte_of_fromByte hcmd]
    rfl
  have hv := eq_withCrc (by omega) h.crc
  have hcontent : (bodyContent v).length = v.length - 2 := by
    rw [bodyContent, List.length_take]
    omega
  cases hb : bodyContent v with
  | nil =>
    rw [hb, List.length_nil] at hcontent
    omega
  | cons b u =>
    have hhead : v.headD 0 = b := by
      rw [hv, hb]
      rfl
    rw [hhead] at hcmd hplant
    have hbl : bodyLength v = bodyLength (b :: u) := by
      rw [hv, hb, withCrc, bodyLength_append (by rw [← hb]; omega)]
    rw [hb] at hcontent
    rw [bodyFrameLength, hdef, hbl] at hlength
    obtain ⟨id, data, hlayout, hfits⟩ := exists_content (u := u) hcmd (by omega) (by omega)
    refine ⟨cmd, id, data, hext, hfits, ?_⟩
    rw [hv, hb, hlayout, byte_of_fromByte hcmd hplant]
    rfl

/-! ### The language of the parser -/

/-- What a call of `consume` that completes the frame has taken. -/
theorem completes_of_consume {s : List UInt8} {rx : ReceiveFrame} {n : ℕ}
    (h : (new false).consume s = .ok (rx, .ok n)) (hcomplete : rx.complete = true) :
    ∃ s' rest, s = s' ++ rest ∧ Completes s' rx := by
  rcases consume_ok h with hpass | ⟨a, c, b, rx₁, rfl, hpass, hstep, -⟩
  · rw [complete_of_pass hpass] at hcomplete
    cases hcomplete
  · exact ⟨a ++ [c], b, by simp, a, c, rx₁, rfl, hpass, hstep, hcomplete⟩

/-- A stream that starts with one that completes is taken that far. -/
theorem Completes.consume {s : List UInt8} {rx : ReceiveFrame} (h : Completes s rx) (rest : List UInt8) :
    (new false).consume (s ++ rest) = .ok (rx, .ok s.length) := by
  obtain ⟨s₀, c, rx₀, rfl, hpass, hstep, -⟩ := h
  rw [List.append_assoc, List.singleton_append, consume_stop hpass hstep, List.length_append]
  rfl

/-- A sentence is taken to its end, and gives its fields. -/
theorem consume_sentence {s g w rest : List UInt8} {command : Command} {id : UInt32} {data : List UInt8}
    (h : Sentence s g w rest command id data) :
    ∃ rx, (new false).consume s = .ok (rx, .ok (g.length + 1 + w.length)) ∧ rx.Parsed command id 0 data := by
  have hbyte := Command.not_isPlantByte_byte command
  have hlen : (u32ToBe id ++ data).length = 4 + data.length := by rw [List.length_append, length_u32ToBe]
  have hwf := wellFormed_frameBody (Command.fromByte_byte command) hbyte h.parseable (hlen ▸ h.fits) (by omega)
  have hcompletes := completes_body hwf h.unescapes h.skipped
  have hsplit : s = (g ++ START_TOKEN :: w) ++ rest := by rw [h.split, List.append_assoc, List.cons_append]
  have hcount : (g ++ START_TOKEN :: w).length = g.length + 1 + w.length := by
    rw [List.length_append, List.length_cons]
    omega
  have hconsume := hcompletes.consume rest
  rw [← hsplit, hcount] at hconsume
  exact ⟨_, hconsume, parsed_completed (Command.fromByte_byte command) hbyte _ _ _⟩

/-- **The parser accepts its grammar, and nothing else**, on streams whose first command byte has no
plant bit: it completes exactly when the stream starts with a sentence, holds then the fields of
the sentence, and has taken its bytes. -/
theorem consume_complete_iff {s : List UInt8} (hstandard : ∀ b ∈ firstCommand s, Command.isPlantByte b = false) :
    ((∃ rx n, (new false).consume s = .ok (rx, .ok n) ∧ rx.complete = true) ↔
        ∃ g w rest command id data, Sentence s g w rest command id data) ∧
      ∀ g w rest command id data, Sentence s g w rest command id data →
        ∀ rx n, (new false).consume s = .ok (rx, .ok n) →
          rx.Parsed command id 0 data ∧ n = g.length + 1 + w.length := by
  refine ⟨⟨?_, ?_⟩, ?_⟩
  · rintro ⟨rx, n, hconsume, hcomplete⟩
    obtain ⟨s', rest, rfl, hcompletes⟩ := completes_of_consume hconsume hcomplete
    obtain ⟨g, w, v, rfl, hg, hw, hwf, -⟩ := hcompletes.exists_body
    have hplant : Command.isPlantByte (v.headD 0) = false := by
      rw [List.append_assoc, List.cons_append, firstCommand_append hg, unstuff_append, hw] at hstandard
      cases v with
      | nil => rfl
      | cons b u => exact hstandard b rfl
    obtain ⟨command, id, data, hext, hfits, rfl⟩ := hwf.exists_frameBody hplant
    exact ⟨g, w, rest, command, id, data, by simp, hg, hext, hfits, hw⟩
  · rintro ⟨g, w, rest, command, id, data, h⟩
    obtain ⟨rx, hconsume, hparsed⟩ := consume_sentence h
    exact ⟨rx, _, hconsume, hparsed.complete⟩
  · intro g w rest command id data h rx n hconsume
    obtain ⟨rx', hconsume', hparsed⟩ := consume_sentence h
    rw [hconsume', Except.ok.injEq, Prod.mk.injEq, Except.ok.injEq] at hconsume
    obtain ⟨rfl, rfl⟩ := hconsume
    exact ⟨hparsed, rfl⟩

/-- A frame with an escape that it does not need and a start token without one, between bytes that
are not part of it. -/
theorem consume_complete_iff_unescaped :
    ∃ rx n, (new false).consume [0x00, 0x2d, 0x2b, 0x2d, 0x05, 0x05, 0x2b, 0x00, 0x00, 0x07, 0x04, 0xbf, 0xd9, 0x2b] =
      .ok (rx, .ok n) ∧ rx.complete = true := by
  refine (consume_complete_iff (by decide +kernel)).1.mpr
    ⟨[0x00, 0x2d], [0x2d, 0x05, 0x05, 0x2b, 0x00, 0x00, 0x07, 0x04, 0xbf, 0xd9], [0x2b], .response, 0x2b000007, [0x04],
      rfl, by decide, by decide, by decide, ?_⟩
  decide +kernel

end ReceiveFrame

end RctPower
