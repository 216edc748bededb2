import RctPower.Lib.Gf2
import RctPower.Protocol.Codec

/-!
# The checksum as a shift register

`crc16` (`codec.rs`) is the shift register of width 16 with the generator
`X ^ 16 + X ^ 12 + X ^ 5 + 1`, fed with the bytes of the message as digits of eight bits
(`toNat_crc16`). The accumulator of the code has 32 bits, and its mask `0x7FFF0000` asks for all
but one of those above the register; between two steps none of them is set, and after the shift at
most the lowest, which is the bit that leaves the register (`Lossless`).

## What is proved

A message of odd length gets a zero byte behind it. What comes out is the remainder of that message
and of the sixteen ones that the register starts with (`crc16_eq_remainder`).

`crc16_xorBytes_ne`: a message that is altered by a burst of at most 16 bits has another checksum. The zero
byte behind it leaves a burst a burst.
-/

namespace RctPower

open Polynomial RctPower.Lib RctPower.Lib.Gf2

/-- The generator, `X ^ 16 + X ^ 12 + X ^ 5 + 1`. -/
def GENERATOR : ℕ := 0x11021

theorem generator_crc : Generator 16 GENERATOR := ⟨by decide, by decide, by decide⟩

/-! ### One step -/

/-- The next inner step loses no bit of the accumulator. -/
structure Lossless (crcsum : UInt32) : Prop where
  /-- There is none above the register. -/
  bound : crcsum.toNat < 2 ^ 16
  /-- The shift doubles. -/
  shift : (crcsum <<< 1).toNat = crcsum.toNat * 2
  /-- The mask sees whatever is then above the register. -/
  mask : crcsum <<< 1 &&& 0x7FFF0000 ≠ 0 ↔ 2 ^ 16 ≤ (crcsum <<< 1).toNat

/-- The mask asks for the bit that leaves the register. -/
theorem mask_eq_zero_iff {n : ℕ} (hn : n < 2 ^ 17) : n &&& 0x7FFF0000 = 0 ↔ n.testBit 16 = false := by
  have hmask : ∀ i, Nat.testBit 0x7FFF0000 i = (decide (16 ≤ i) && Nat.testBit 0x7FFF (i - 16)) := fun i => by
    rw [show 0x7FFF0000 = 0x7FFF * 2 ^ 16 from rfl, Nat.testBit_mul_two_pow]
  constructor
  · intro h
    have h16 := congrArg (Nat.testBit · 16) h
    simpa [Nat.testBit_and, hmask] using h16
  · intro h
    refine Nat.eq_of_testBit_eq fun i => ?_
    rw [Nat.testBit_and, hmask, Nat.zero_testBit]
    rcases Nat.lt_trichotomy i 16 with hi | rfl | hi
    · simp [Nat.not_le.mpr hi]
    · rw [h, Bool.false_and]
    · rw [Nat.testBit_lt_two_pow (hn.trans_le (Nat.pow_le_pow_right two_pos hi)), Bool.false_and]

/-- Below the register, the generator is what the code adds. -/
theorem reduce_eq {n : ℕ} (hn : n < 2 ^ 17) (h : n.testBit 16 = true) :
    (n &&& 0xFFFF) ^^^ 0x1021 = n ^^^ GENERATOR := by
  have hlow : n &&& 0xFFFF = n ^^^ 2 ^ 16 := by
    refine Nat.eq_of_testBit_eq fun i => ?_
    rw [show 0xFFFF = 2 ^ 16 - 1 from rfl, Nat.testBit_and, Nat.testBit_two_pow_sub_one, Nat.testBit_xor,
      Nat.testBit_two_pow]
    rcases Nat.lt_trichotomy i 16 with hi | rfl | hi
    · simp [hi, hi.ne']
    · simp [h]
    · simp [Nat.testBit_lt_two_pow (hn.trans_le (Nat.pow_le_pow_right two_pos hi)), hi.not_gt, hi.ne]
  rw [hlow, Nat.xor_assoc]
  rfl

section Step

variable {c : UInt32} (hc : c.toNat < 2 ^ 16)

include hc

/-- The shift doubles. -/
theorem toNat_shift : (c <<< 1).toNat = c.toNat * 2 := by
  rw [UInt32.toNat_shiftLeft, Nat.shiftLeft_eq]
  exact Nat.mod_eq_of_lt (by simp; omega)

theorem mask_ne_zero_iff : c <<< 1 &&& 0x7FFF0000 ≠ 0 ↔ (c.toNat * 2).testBit 16 = true := by
  have hlt : c.toNat * 2 < 2 ^ 17 := by omega
  rw [Ne, ← UInt32.toNat_inj, UInt32.toNat_and, toNat_shift hc]
  simpa using (mask_eq_zero_iff hlt).not

/-- **One inner step of `crc16`** is a step of the register. -/
theorem toNat_crcStep : (crcStep c).toNat = shiftStep 16 GENERATOR c.toNat := by
  rw [crcStep, shiftStep]
  split_ifs with h₁ h₂ h₂
  · rw [UInt32.toNat_xor, UInt32.toNat_and, toNat_shift hc]
    exact reduce_eq (by omega) h₂
  · exact absurd ((mask_ne_zero_iff hc).mp h₁) h₂
  · exact absurd ((mask_ne_zero_iff hc).mpr h₂) h₁
  · exact toNat_shift hc

/-- An inner step from an accumulator that is within the register loses no bit. -/
theorem lossless_of_lt : Lossless c := by
  refine ⟨hc, toNat_shift hc, (mask_ne_zero_iff hc).trans ?_⟩
  rw [toNat_shift hc, Nat.testBit_eq_decide_div_mod_eq, decide_eq_true_iff]
  omega

end Step

theorem toNat_crcSteps {c : UInt32} (hc : c.toNat < 2 ^ 16) (k : ℕ) :
    (crcStep^[k] c).toNat = (shiftStep 16 GENERATOR)^[k] c.toNat := by
  induction k with
  | zero => rfl
  | succ k ih =>
    have hlt := shiftSteps_lt generator_crc hc k
    rw [Function.iterate_succ_apply', Function.iterate_succ_apply', toNat_crcStep (ih ▸ hlt), ih]

/-- A byte is added at the left end of the register. -/
theorem toNat_xor_byte (c : UInt32) (b : UInt8) :
    (c ^^^ b.toUInt32 <<< 8).toNat = c.toNat ^^^ b.toNat * 2 ^ (16 - 8) := by
  have hb := b.toNat_lt
  have hshift : (b.toUInt32 <<< 8).toNat = b.toNat * 2 ^ (16 - 8) := by
    rw [UInt32.toNat_shiftLeft, Nat.shiftLeft_eq]
    exact Nat.mod_eq_of_lt (by simp; omega)
  rw [UInt32.toNat_xor, hshift]

theorem xor_byte_lt {c : UInt32} (hc : c.toNat < 2 ^ 16) (b : UInt8) : (c ^^^ b.toUInt32 <<< 8).toNat < 2 ^ 16 := by
  rw [toNat_xor_byte]
  exact Nat.xor_lt_two_pow hc (digit_lt (w := 16) (d := 8) (by norm_num) b.toNat_lt)

/-- **What `crc16` does with one byte**: it is fed to the register. -/
theorem toNat_crcByte {c : UInt32} (hc : c.toNat < 2 ^ 16) (b : UInt8) :
    (crcByte c b).toNat = feed 16 GENERATOR 8 c.toNat b.toNat := by
  rw [crcByte, toNat_crcSteps (xor_byte_lt hc b), toNat_xor_byte, feed]

/-! ### A message -/

/-- The bytes of a message as digits. -/
def digits (data : List UInt8) : List ℕ := data.map UInt8.toNat

theorem digits_lt (data : List UInt8) : ∀ b ∈ digits data, b < 2 ^ 8 := by
  intro b hb
  obtain ⟨x, -, rfl⟩ := List.mem_map.mp hb
  exact x.toNat_lt

/-- The accumulator of `crc16` stays within the register, byte by byte. -/
theorem toNat_foldl_crcByte (data : List UInt8) {c : UInt32} (hc : c.toNat < 2 ^ 16) :
    (data.foldl crcByte c).toNat = (digits data).foldl (feed 16 GENERATOR 8) c.toNat ∧
      (data.foldl crcByte c).toNat < 2 ^ 16 := by
  induction data generalizing c with
  | nil => exact ⟨rfl, hc⟩
  | cons b data ih =>
    have hbyte := toNat_crcByte hc b
    have hlt : (crcByte c b).toNat < 2 ^ 16 := hbyte ▸ feed_lt generator_crc (by norm_num) hc b.toNat_lt
    obtain ⟨hfold, hbound⟩ := ih hlt
    rw [hbyte] at hfold
    exact ⟨hfold, hbound⟩

/-- What is behind a message of odd length. -/
def padding (data : List UInt8) : List UInt8 := if data.length % 2 = 1 then [0] else []

/-- **`crc16` is the register after the message**, which starts with ones. -/
theorem toNat_crc16 (data : List UInt8) :
    (crc16 data).toNat = (digits (data ++ padding data)).foldl (feed 16 GENERATOR 8) 0xFFFF := by
  have hpadded : crc16 data = ((data ++ padding data).foldl crcByte 0xFFFF).toUInt16 := by
    rw [crc16, padding]
    split_ifs
    · rfl
    · rw [List.append_nil]
  obtain ⟨hfold, hbound⟩ := toNat_foldl_crcByte (data ++ padding data) (c := 0xFFFF) (by decide)
  rw [hpadded, UInt32.toNat_toUInt16, Nat.mod_eq_of_lt hbound, hfold]
  rfl

/-! ### The remainder -/

/-- `crcsum` before the byte that follows `front`. -/
def crcsum (front : List UInt8) : UInt32 := front.foldl crcByte 0xFFFF

/-- `crcsum` after `k` of the inner steps for the byte that follows `front`. -/
def crcsumIn (front : List UInt8) (byte : UInt8) (k : ℕ) : UInt32 :=
  crcStep^[k] (crcsum front ^^^ byte.toUInt32 <<< 8)

theorem crcsum_lt (front : List UInt8) : (crcsum front).toNat < 2 ^ 16 := (toNat_foldl_crcByte front (by decide)).2

theorem crcsumIn_lt (front : List UInt8) (byte : UInt8) (k : ℕ) : (crcsumIn front byte k).toNat < 2 ^ 16 := by
  have hlt := xor_byte_lt (crcsum_lt front) byte
  rw [crcsumIn, toNat_crcSteps hlt]
  exact shiftSteps_lt generator_crc hlt k

/-- The bits of a message, each byte from its highest. -/
def messageBits (data : List UInt8) : List Bool := (digits data).flatMap (bits 8)

theorem bitPoly_generator : bitPoly GENERATOR = X ^ 16 + X ^ 12 + X ^ 5 + 1 := by
  have hxor : GENERATOR = 2 ^ 16 ^^^ 2 ^ 12 ^^^ 2 ^ 5 ^^^ 1 := by decide
  rw [hxor, bitPoly_xor, bitPoly_xor, bitPoly_xor, bitPoly_two_pow, bitPoly_two_pow, bitPoly_two_pow, bitPoly_one]

/-- **`crc16` is a remainder**, and its accumulator loses no bit on the way: not to the shift, not to the
mask, and not to the cast. -/
theorem crc16_eq_remainder (d : List UInt8) :
    bitPoly (crc16 d).toNat =
        (X ^ 16 * bitsPoly (messageBits (d ++ padding d)) +
            X ^ (messageBits (d ++ padding d)).length * ∑ i ∈ Finset.range 16, X ^ i) %
          (X ^ 16 + X ^ 12 + X ^ 5 + 1) ∧
      (∀ front byte rest, d ++ padding d = front ++ byte :: rest →
        (crcsum front).toNat < 2 ^ 16 ∧ ∀ k ≤ 8, Lossless (crcsumIn front byte k)) ∧
      (crc16 d).toNat = (crcsum (d ++ padding d)).toNat := by
  have hfold := toNat_crc16 d
  refine ⟨?_, fun front byte _ _ => ⟨crcsum_lt front, fun k _ => lossless_of_lt (crcsumIn_lt front byte k)⟩, ?_⟩
  · have hones : (0xFFFF : ℕ) = 2 ^ 16 - 1 := rfl
    rw [hfold, bitPoly_foldl_feed generator_crc (by norm_num) (by norm_num) (digits_lt _), hones, bitPoly_ones,
      bitPoly_generator]
    rfl
  · rw [hfold, crcsum, (toNat_foldl_crcByte _ (by decide)).1]
    rfl

/-! ### Bursts -/

/-- A message as a number, the first byte the highest. -/
def messageNumber (data : List UInt8) : ℕ := number 8 (digits data)

theorem messageNumber_concat (data : List UInt8) (b : UInt8) :
    messageNumber (data ++ [b]) = messageNumber data * 2 ^ 8 + b.toNat := by
  rw [messageNumber, digits, List.map_append, List.map_singleton, number_concat]
  rfl

/-- Two messages, byte by byte. -/
def xorBytes (as bs : List UInt8) : List UInt8 := as.zipWith (· ^^^ ·) bs

@[simp] theorem length_xorBytes {as bs : List UInt8} (hlen : as.length = bs.length) :
    (xorBytes as bs).length = as.length := by
  rw [xorBytes, List.length_zipWith, hlen, Nat.min_self]

theorem messageNumber_xorBytes {as bs : List UInt8} (hlen : as.length = bs.length) :
    messageNumber (xorBytes as bs) = messageNumber as ^^^ messageNumber bs := by
  have hdigits : digits (xorBytes as bs) = (digits as).zipWith (· ^^^ ·) (digits bs) := by
    rw [digits, xorBytes, digits, digits, List.map_zipWith, List.zipWith_map]
    simp only [UInt8.toNat_xor]
  rw [messageNumber, hdigits, number_xor (digits_lt as) (digits_lt bs) (by simpa [digits] using hlen)]
  rfl

theorem xorBytes_append {as bs cs ds : List UInt8} (hlen : as.length = cs.length) :
    xorBytes (as ++ bs) (cs ++ ds) = xorBytes as cs ++ xorBytes bs ds :=
  List.zipWith_append hlen

/-- Zeros alter nothing. -/
theorem xorBytes_zeros (as : List UInt8) : xorBytes as (List.replicate as.length 0) = as := by
  induction as with
  | nil => rfl
  | cons a as ih =>
    rw [List.length_cons, List.replicate_succ, xorBytes, List.zipWith_cons_cons, UInt8.xor_zero]
    exact congrArg (a :: ·) ih

/-- Zeros in front count for nothing. -/
theorem messageNumber_zeros (k : ℕ) (bs : List UInt8) :
    messageNumber (List.replicate k 0 ++ bs) = messageNumber bs := by
  induction k with
  | zero => rfl
  | succ k ih =>
    rw [← ih, List.replicate_succ, List.cons_append]
    rfl

/-- Messages that differ by a burst have different checksums. -/
theorem crc16_ne {as bs : List UInt8} (hlen : as.length = bs.length)
    (h : Burst 16 (messageNumber as ^^^ messageNumber bs)) : crc16 as ≠ crc16 bs := by
  intro heq
  have hnat := congrArg UInt16.toNat heq
  rw [toNat_crc16, toNat_crc16] at hnat
  have hpadding : padding as = padding bs := by rw [padding, padding, hlen]
  refine foldl_feed_ne generator_crc (by norm_num) 0xFFFF (digits_lt _) (digits_lt _) (by simp [digits, hpadding, hlen])
    ?_ hnat
  change Burst 16 (messageNumber (as ++ padding as) ^^^ messageNumber (bs ++ padding bs))
  rw [hpadding, padding]
  split_ifs
  · rw [messageNumber_concat, messageNumber_concat, UInt8.toNat_zero, Nat.add_zero, Nat.add_zero]
    have := h.mul_two_pow 8
    rwa [← Nat.shiftLeft_eq, Nat.shiftLeft_xor_distrib, Nat.shiftLeft_eq, Nat.shiftLeft_eq] at this
  · rwa [List.append_nil, List.append_nil]

/-- **The checksum sees every burst.** -/
theorem crc16_xorBytes_ne {as e : List UInt8} (hlen : as.length = e.length) (h : Burst 16 (messageNumber e)) :
    crc16 (xorBytes as e) ≠ crc16 as := by
  refine crc16_ne (length_xorBytes hlen) ?_
  rw [messageNumber_xorBytes hlen, Nat.xor_comm, ← Nat.xor_assoc, Nat.xor_self, Nat.zero_xor]
  exact h

end RctPower
