import Mathlib.Tactic.NormNum.Prime
import RctPower.Lib.Period
import RctPower.Protocol.Corruption

/-!
# The errors that go unseen

A standard frame is altered in its id, its payload and its checksum, by any error pattern. The bits of
the pattern, as the checksum takes them, are a polynomial (`errorBits`).

## What is proved

* `caught_iff`: the error is caught exactly if the generator does not divide that polynomial. What is not
  caught is the frame of the altered id and payload.
* `fewBits_caught`: so an odd number of altered bits is caught, whatever the length of the frame, and so are two
  if the frame is no longer than the period of the generator (`orderOf_generator`).
-/

namespace RctPower

open Polynomial RctPower.Lib RctPower.Lib.Rust RctPower.Lib.Stuffing RctPower.Lib.Gf2

/-! ### The generator -/

/-- **The period of the generator** is `2 ^ 15 - 1`. -/
theorem orderOf_generator : orderOf (shift GENERATOR) = 32767 := by
  have hone : power 16 GENERATOR 15 32767 = 1 := by decide +kernel
  refine orderOf_shift generator_crc (by norm_num) (by norm_num) (by norm_num) hone fun p hp hdvd => ?_
  have hprimes : p = 7 ∨ p = 31 ∨ p = 151 := by
    rw [show 32767 = 7 * (31 * 151) by norm_num, hp.dvd_mul, hp.dvd_mul, Nat.prime_dvd_prime_iff_eq hp (by norm_num),
      Nat.prime_dvd_prime_iff_eq hp (by norm_num), Nat.prime_dvd_prime_iff_eq hp (by norm_num)] at hdvd
    exact hdvd
  rcases hprimes with rfl | rfl | rfl <;> decide +kernel

/-- The generator has an even number of terms. -/
theorem eval_one_generator : (bitPoly GENERATOR).eval 1 = 0 := by
  rw [bitPoly_generator]
  simp only [eval_add, eval_pow, eval_X, one_pow, eval_one]
  rfl

/-! ### The checksum of an altered message -/

theorem messageNumber_two (a b : UInt8) : messageNumber [a, b] = a.toNat * 2 ^ 8 + b.toNat := by
  have hnumber := messageNumber_concat [a] b
  rwa [show messageNumber [a] = a.toNat from Nat.zero_add _] at hnumber

theorem messageNumber_append (as : List UInt8) (a b : UInt8) :
    messageNumber (as ++ [a, b]) = messageNumber as * 2 ^ 16 + messageNumber [a, b] := by
  rw [show as ++ [a, b] = as ++ [a] ++ [b] by simp, messageNumber_concat, messageNumber_concat, messageNumber_two]
  ring

theorem messageNumber_two_lt (a b : UInt8) : messageNumber [a, b] < 2 ^ 16 := by
  have ha := a.toNat_lt
  have hb := b.toNat_lt
  rw [messageNumber_two]
  omega

theorem toNat_u16OfBe (a b : UInt8) : (u16OfBe a b).toNat = messageNumber [a, b] := by
  have hlt := messageNumber_two_lt a b
  rw [messageNumber_two] at hlt ⊢
  exact UInt16.toNat_ofNat_of_lt' hlt

/-- The residue of a message, by its bits. -/
theorem mk_messageBits (data : List UInt8) :
    AdjoinRoot.mk (bitPoly GENERATOR) (bitsPoly (messageBits data)) = residue GENERATOR (messageNumber data) := by
  rw [messageBits, bitsPoly_flatMap_bits (digits_lt data)]
  rfl

/-- **What an error does to the checksum**: it adds the checksum of the error, from a register that starts with
zeros. -/
theorem residue_crc16_xorBytes {as e : List UInt8} (hlen : as.length = e.length) :
    residue GENERATOR ((crc16 (xorBytes as e)).toNat ^^^ (crc16 as).toNat) =
      shift GENERATOR ^ 16 * residue GENERATOR (messageNumber (e ++ padding e)) := by
  have hpadding : padding (xorBytes as e) = padding e ∧ padding as = padding e := by
    simp only [padding, length_xorBytes hlen, hlen, and_self]
  have hzeros : xorBytes (padding e) (padding e) = padding e := by
    rw [padding]
    split_ifs <;> rfl
  have hmessage : messageNumber (xorBytes as e ++ padding e) =
      messageNumber (as ++ padding e) ^^^ messageNumber (e ++ padding e) := by
    rw [← messageNumber_xorBytes (by simp [hlen]), xorBytes_append hlen, hzeros]
  have hcount : (digits (xorBytes as e ++ padding e)).length = (digits (as ++ padding e)).length := by
    simp [digits, length_xorBytes hlen]
  rw [toNat_crc16, toNat_crc16, residue_xor, residue_foldl_feed (by norm_num) _ _ (digits_lt _),
    residue_foldl_feed (by norm_num) _ _ (digits_lt _), hpadding.1, hpadding.2, hcount]
  change _ + _ * residue GENERATOR (messageNumber _) + (_ + _ * residue GENERATOR (messageNumber _)) = _
  rw [hmessage, residue_xor]
  -- what is there twice is zero
  have htwice : ∀ x : AdjoinRoot (bitPoly GENERATOR), x + x = 0 := fun x => by
    rw [← two_mul, show (2 : AdjoinRoot (bitPoly GENERATOR)) = AdjoinRoot.of _ 2 from (map_ofNat _ 2).symm,
      show (2 : ZMod 2) = 0 from rfl, map_zero, zero_mul]
  linear_combination htwice (shift GENERATOR ^ (8 * (digits (as ++ padding e)).length) * residue GENERATOR 0xFFFF) +
    htwice (shift GENERATOR ^ 16 * residue GENERATOR (messageNumber (as ++ padding e)))

/-- The bits of an error in a message and in its checksum, with the zero byte that the checksum puts between them
if the message has odd length. -/
def errorBits (e : List UInt8) (a b : UInt8) : List Bool := messageBits (e ++ padding e ++ [a, b])

/-- **An error goes unseen** exactly if the generator divides it. -/
theorem crc16_xorBytes_eq_iff {as e : List UInt8} (hlen : as.length = e.length) {x y : UInt8}
    (hcrc : u16OfBe x y = crc16 as) (a b : UInt8) :
    u16OfBe (x ^^^ a) (y ^^^ b) = crc16 (xorBytes as e) ↔
      AdjoinRoot.mk (bitPoly GENERATOR) (bitsPoly (errorBits e a b)) = 0 := by
  have hbytes : messageNumber [x ^^^ a, y ^^^ b] = messageNumber [x, y] ^^^ messageNumber [a, b] :=
    @messageNumber_xorBytes [x, y] [a, b] rfl
  have hresidue : AdjoinRoot.mk (bitPoly GENERATOR) (bitsPoly (errorBits e a b)) =
      residue GENERATOR (((crc16 (xorBytes as e)).toNat ^^^ (crc16 as).toNat) ^^^ messageNumber [a, b]) := by
    rw [errorBits, mk_messageBits, messageNumber_append, residue_digit _ _ (messageNumber_two_lt a b), residue_xor,
      residue_crc16_xorBytes hlen]
  have hlt : (crc16 (xorBytes as e)).toNat ^^^ (crc16 as).toNat ^^^ messageNumber [a, b] < 2 ^ 16 :=
    Nat.xor_lt_two_pow (Nat.xor_lt_two_pow (UInt16.toNat_lt _) (UInt16.toNat_lt _)) (messageNumber_two_lt a b)
  rw [hresidue, ← UInt16.toNat_inj, toNat_u16OfBe, hbytes, ← toNat_u16OfBe x y, hcrc]
  constructor
  · intro heq
    rw [← heq, Nat.xor_comm (crc16 as).toNat, Nat.xor_assoc, Nat.xor_assoc, ← Nat.xor_assoc (crc16 as).toNat,
      Nat.xor_self, Nat.zero_xor, Nat.xor_self, residue_zero]
  · intro hzero
    rw [← residue_zero GENERATOR] at hzero
    have hxor := residue_injOn generator_crc hlt (by norm_num) hzero
    rw [Nat.xor_assoc, Nat.xor_eq_zero_iff] at hxor
    exact hxor.symm

/-! ### Frames -/

section Frame

variable {command : Command} {id : UInt32} {payload e : List UInt8}

/-- The body of a frame, altered in the id and the payload by `e`, and in the checksum. -/
def altered (command : Command) (id : UInt32) (payload e : List UInt8) (a b : UInt8) : List UInt8 :=
  xorBytes (frameBody command.byte command (u32ToBe id ++ payload))
    (List.replicate (frontLength command) 0 ++ e ++ [a, b])

/-- The bits of such an error, from the first byte of the id on. -/
def alteredBits (command : Command) (e : List UInt8) (a b : UInt8) : List Bool :=
  messageBits (e ++ padding (List.replicate (frontLength command) 0 ++ e) ++ [a, b])

/-- What is in front of the id is not altered, and counts for nothing. -/
theorem bitsPoly_alteredBits (command : Command) (e : List UInt8) (a b : UInt8) :
    bitsPoly (alteredBits command e a b) = bitsPoly (errorBits (List.replicate (frontLength command) 0 ++ e) a b) := by
  rw [alteredBits, errorBits, messageBits, messageBits, bitsPoly_flatMap_bits (digits_lt _),
    bitsPoly_flatMap_bits (digits_lt _), List.append_assoc, List.append_assoc, List.append_assoc]
  exact congrArg bitPoly (messageNumber_zeros _ _).symm

/-- An error behind the length field alters what the length field counts. -/
theorem xorBytes_content {rest : List UInt8} (hlen : rest.length = e.length) :
    xorBytes (content command rest) (List.replicate (frontLength command) 0 ++ e) =
      content command (xorBytes rest e) := by
  have hfront := length_front command rest.length
  rw [content_eq, xorBytes_append (by rw [hfront, List.length_replicate]), ← hfront, xorBytes_zeros, content_eq,
    length_xorBytes hlen]

/-- **An error is caught unless the generator divides it.** What it then makes of the frame is the frame of the
altered id and payload, which the parser takes. -/
theorem caught_iff (hext : command ≠ .extension) (hfits : payload.length ≤ capacity command)
    (hlen : e.length = 4 + payload.length) (a b : UInt8) :
    (Caught (altered command id payload e a b) ↔ ¬ bitPoly GENERATOR ∣ bitsPoly (alteredBits command e a b)) ∧
      (bitPoly GENERATOR ∣ bitsPoly (alteredBits command e a b) →
        altered command id payload e a b = frameBody command.byte command (xorBytes (u32ToBe id ++ payload) e) ∧
          ∃ rx, ReceiveFrame.Receives (wire (altered command id payload e a b)) rx ∧ rx.complete = true ∧
            rx.crcOk = true) := by
  obtain ⟨rest, hrest⟩ : ∃ rest, u32ToBe id ++ payload = rest := ⟨_, rfl⟩
  have hcount : rest.length = e.length := by rw [← hrest, List.length_append, length_u32ToBe, hlen]
  have hnew : (xorBytes rest e).length = e.length := (length_xorBytes hcount).trans hcount
  have hbound : (xorBytes rest e).length < lengthBound command := by
    rw [hnew, lengthBound_eq]
    omega
  obtain ⟨x, y, hxy, hcrc⟩ : ∃ x y, u16ToBe (crc16 (content command rest)) = [x, y] ∧
      u16OfBe x y = crc16 (content command rest) := ⟨_, _, rfl, u16OfBe_toBe _⟩
  have hcontent : (content command rest).length = (List.replicate (frontLength command) (0 : UInt8) ++ e).length := by
    rw [content_eq, List.length_append, length_front, List.length_append, List.length_replicate, hcount]
  have haltered : altered command id payload e a b = content command (xorBytes rest e) ++ [x ^^^ a, y ^^^ b] := by
    have hbody : frameBody command.byte command rest = content command rest ++ [x, y] := by
      rw [← hxy]
      rfl
    rw [altered, hrest, hbody, xorBytes_append hcontent, xorBytes_content hcount]
    rfl
  have hunseen := crc16_xorBytes_eq_iff hcontent hcrc a b
  rw [xorBytes_content hcount] at hunseen
  have htaken : u16OfBe (x ^^^ a) (y ^^^ b) = crc16 (content command (xorBytes rest e)) →
      altered command id payload e a b = frameBody command.byte command (xorBytes rest e) ∧
        ∃ rx, ReceiveFrame.Receives (wire (altered command id payload e a b)) rx ∧ rx.complete = true ∧
          rx.crcOk = true := by
    intro heq
    have hbody : altered command id payload e a b = frameBody command.byte command (xorBytes rest e) := by
      have hbytes := u16ToBe_ofBe (x ^^^ a) (y ^^^ b)
      rw [heq] at hbytes
      rw [haltered, ← hbytes]
      rfl
    have hwell := wellFormed_frameBody (Command.fromByte_byte command) (Command.not_isPlantByte_byte command) hext
      hbound (by omega)
    have hcompletes := ReceiveFrame.completes_body hwell (unstuff_wire _) (g := []) (by simp)
    rw [hbody]
    exact ⟨rfl, _, hcompletes.receives, rfl, decide_eq_true hwell.crc⟩
  rw [← AdjoinRoot.mk_eq_zero, hrest, bitsPoly_alteredBits, ← hunseen]
  refine ⟨⟨?_, ?_⟩, htaken⟩
  · rintro ⟨rx, received, calculated, hcaught, -⟩ heq
    obtain ⟨-, rx', hreceives, -, -⟩ := htaken heq
    have hfeed := hreceives.2 [wire (altered command id payload e a b)] (by simp)
    have hnew : (ReceiveFrame.new false).complete = false := rfl
    simp [ReceiveFrame.feed, hcaught, hnew] at hfeed
  · intro hne
    rw [haltered]
    exact caught_of_ne hext (by omega) hbound hne

/-- The generator itself, in the last byte of the payload and the checksum, makes another frame of a response. -/
theorem caught_iff_generator :
    ¬ Caught (altered .response 0x11223344 [0x2b, 0x2c] [0, 0, 0, 0, 0, 1] 0x10 0x21) ∧
      altered .response 0x11223344 [0x2b, 0x2c] [0, 0, 0, 0, 0, 1] 0x10 0x21 =
        frameBody 0x05 .response [0x11, 0x22, 0x33, 0x44, 0x2b, 0x2d] := by
  have hbits : alteredBits .response [0, 0, 0, 0, 0, 1] 0x10 0x21 = messageBits [0, 0, 0, 0, 0, 1, 0x10, 0x21] := rfl
  have hnumber : messageNumber [0, 0, 0, 0, 0, 1, 0x10, 0x21] = GENERATOR := by decide
  have hdvd : bitPoly GENERATOR ∣ bitsPoly (alteredBits .response [0, 0, 0, 0, 0, 1] 0x10 0x21) := by
    rw [← AdjoinRoot.mk_eq_zero, hbits, mk_messageBits, hnumber, residue_self]
  have h := @caught_iff .response 0x11223344 [0x2b, 0x2c] [0, 0, 0, 0, 0, 1] (by decide) (by decide) rfl 0x10 0x21
  exact ⟨fun hcaught => h.1.mp hcaught hdvd, (h.2 hdvd).1⟩

/-- How many bits an error alters. -/
def flips (e : List UInt8) (a b : UInt8) : ℕ := (messageBits (e ++ [a, b])).count true

theorem messageBits_append (as bs : List UInt8) : messageBits (as ++ bs) = messageBits as ++ messageBits bs := by
  rw [messageBits, digits, List.map_append, List.flatMap_append]
  rfl

theorem length_messageBits (data : List UInt8) : (messageBits data).length = 8 * data.length := by
  rw [messageBits, List.length_flatMap]
  simp [digits, Function.comp_def, Nat.mul_comm]

/-- The zero byte that the checksum puts in has no bits. -/
theorem count_alteredBits (command : Command) (e : List UInt8) (a b : UInt8) :
    (alteredBits command e a b).count true = flips e a b := by
  have hpadding : ∀ data : List UInt8, (messageBits (padding data)).count true = 0 := by
    intro data
    rw [padding]
    split_ifs <;> rfl
  simp only [alteredBits, flips, messageBits_append, List.count_append, hpadding, Nat.add_zero]

/-- **Errors in few bits are caught**: in an odd number of them always, and in two of them in frames with payloads of
up to 4088 bytes. -/
theorem fewBits_caught (hext : command ≠ .extension) (hfits : payload.length ≤ capacity command)
    (hlen : e.length = 4 + payload.length) {a b : UInt8}
    (hfew : flips e a b % 2 = 1 ∨ flips e a b = 2 ∧ payload.length ≤ 4088) :
    Caught (altered command id payload e a b) := by
  refine (caught_iff hext hfits hlen a b).1.mpr ?_
  rw [← AdjoinRoot.mk_eq_zero]
  rw [← count_alteredBits command] at hfew
  rcases hfew with hodd | ⟨htwo, hshort⟩
  · exact mk_ne_zero_of_odd eval_one_generator hodd
  · refine mk_ne_zero_of_two generator_crc ?_ htwo
    have hpadding : (padding (List.replicate (frontLength command) 0 ++ e)).length ≤ 1 := by
      rw [padding]
      split_ifs <;> simp
    rw [orderOf_generator, alteredBits, length_messageBits]
    simp only [List.length_append, List.length_cons, List.length_nil]
    omega

/-- Three bits of a response, in the id, the payload and the checksum; and two of them. -/
theorem fewBits_caught_response :
    Caught (altered .response 0x11223344 [0x2b] [0x80, 0, 0, 0, 1] 0 0x10) ∧
      Caught (altered .response 0x11223344 [0x2b] [0x80, 0, 0, 0, 1] 0 0) :=
  ⟨@fewBits_caught .response 0x11223344 [0x2b] [0x80, 0, 0, 0, 1] (by decide) (by decide) rfl 0 0x10
      (.inl (by decide)),
    @fewBits_caught .response 0x11223344 [0x2b] [0x80, 0, 0, 0, 1] (by decide) (by decide) rfl 0 0
      (.inr (by decide))⟩

end Frame

end RctPower
