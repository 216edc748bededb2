import Mathlib.GroupTheory.OrderOfElement
import RctPower.Lib.Gf2

/-!
# Errors in few bits

Which errors a generator divides, by the number of their bits. A generator with an even number of
terms divides no error in an odd number of bits (`mk_ne_zero_of_odd`). One whose period, the order of
`X` modulo the generator, is at least the length of a message divides no error in two bits of it
(`mk_ne_zero_of_two`).

The period is found by computing in the register: `multiply` and `power` are the product of residues
and the powers of `X`, by shift steps (`orderOf_shift`).
-/

namespace RctPower.Lib.Gf2

open Polynomial

variable {w g : ℕ}

/-! ### Powers in the register -/

/-- What is in the register times `b`, by the `d` low bits of `b`. -/
def multiply (w g : ℕ) : ℕ → ℕ → ℕ → ℕ
  | 0, _, _ => 0
  | d + 1, s, b => (if b.testBit 0 then s else 0) ^^^ multiply w g d (shiftStep w g s) (b / 2)

/-- `X ^ n` in the register, for a number `n` of `d` bits. -/
def power (w g : ℕ) : ℕ → ℕ → ℕ
  | 0, _ => 1
  | d + 1, n =>
    let s := power w g d (n / 2)
    let square := multiply w g w s s
    if n.testBit 0 then shiftStep w g square else square

theorem residue_multiply (w g : ℕ) {d s b : ℕ} (hb : b < 2 ^ d) :
    residue g (multiply w g d s b) = residue g s * residue g b := by
  induction d generalizing s b with
  | zero =>
    obtain rfl : b = 0 := by simpa using hb
    rw [multiply, residue_zero, mul_zero]
  | succ d ih =>
    have hhalf : b / 2 < 2 ^ d := by
      rw [pow_succ] at hb
      omega
    have hsplit : residue g b = shift g * residue g (b / 2) + residue g (b % 2) := by
      have hdigit := residue_digit g (b / 2) (k := 1) (n := b % 2) (Nat.mod_lt _ two_pos)
      rwa [pow_one, pow_one, Nat.div_add_mod' b 2] at hdigit
    have hlow : residue g (if b.testBit 0 then s else 0) = residue g s * residue g (b % 2) := by
      rw [Nat.testBit_zero]
      rcases Nat.mod_two_eq_zero_or_one b with h | h
      · simp [h]
      · simp [h, residue]
    rw [multiply, residue_xor, ih hhalf, residue_shiftStep, hlow, hsplit]
    ring

theorem multiply_lt (hg : Generator w g) {s : ℕ} (hs : s < 2 ^ w) (d b : ℕ) : multiply w g d s b < 2 ^ w := by
  induction d generalizing s b with
  | zero => exact Nat.two_pow_pos w
  | succ d ih =>
    refine Nat.xor_lt_two_pow ?_ (ih (shiftStep_lt hg hs) _)
    split_ifs
    · exact hs
    · exact Nat.two_pow_pos w

theorem power_lt (hg : Generator w g) (hw : 0 < w) (d n : ℕ) : power w g d n < 2 ^ w := by
  induction d generalizing n with
  | zero => exact Nat.one_lt_two_pow hw.ne'
  | succ d ih =>
    have hsquare := multiply_lt hg (ih (n / 2)) w (power w g d (n / 2))
    rw [power]
    split_ifs
    · exact shiftStep_lt hg hsquare
    · exact hsquare

/-- **The powers of `X`** by squaring. -/
theorem residue_power (hg : Generator w g) (hw : 0 < w) {d n : ℕ} (hn : n < 2 ^ d) :
    residue g (power w g d n) = shift g ^ n := by
  induction d generalizing n with
  | zero =>
    obtain rfl : n = 0 := by simpa using hn
    rw [power, residue, bitPoly_one, map_one, pow_zero]
  | succ d ih =>
    have hhalf : n / 2 < 2 ^ d := by
      rw [pow_succ] at hn
      omega
    have hsquare :
        residue g (multiply w g w (power w g d (n / 2)) (power w g d (n / 2))) = shift g ^ (2 * (n / 2)) := by
      rw [residue_multiply w g (power_lt hg hw d _), ih hhalf, ← pow_add, two_mul]
    rw [power]
    rw [Nat.testBit_zero]
    rcases Nat.mod_two_eq_zero_or_one n with h | h
    · rw [if_neg (by simp [h]), hsquare]
      congr 1
      omega
    · rw [if_pos (by simp [h]), residue_shiftStep, hsquare, ← pow_succ']
      congr 1
      omega

/-- Numbers of the width of the register are residues. -/
theorem residue_injOn (hg : Generator w g) {m n : ℕ} (hm : m < 2 ^ w) (hn : n < 2 ^ w)
    (h : residue g m = residue g n) : m = n := by
  by_contra hne
  have hxor : m ^^^ n ≠ 0 := fun hzero => hne (Nat.xor_eq_zero_iff.mp hzero)
  refine (burst_of_lt hxor (Nat.xor_lt_two_pow hm hn)).residue_ne_zero hg ?_
  rw [residue_xor, h, ← residue_xor, Nat.xor_self, residue_zero]

/-- **The period of a generator**, by what the register holds after it and after its quotients by primes. -/
theorem orderOf_shift (hg : Generator w g) (hw : 0 < w) {d n : ℕ} (hpos : 0 < n) (hn : n < 2 ^ d)
    (hone : power w g d n = 1) (hprime : ∀ p, p.Prime → p ∣ n → power w g d (n / p) ≠ 1) : orderOf (shift g) = n := by
  have hresidue : residue g 1 = 1 := by rw [residue, bitPoly_one, map_one]
  refine orderOf_eq_of_pow_and_pow_div_prime hpos ?_ fun p hp hdvd hpow => hprime p hp hdvd ?_
  · rw [← residue_power hg hw hn, hone, hresidue]
  · have hlt : n / p < 2 ^ d := (Nat.div_le_self n p).trans_lt hn
    rw [← residue_power hg hw hlt, ← hresidue] at hpow
    exact residue_injOn hg (power_lt hg hw d _) (Nat.one_lt_two_pow hw.ne') hpow

/-! ### Errors by the number of their bits -/

/-- At one, a polynomial is the parity of its bits. -/
theorem eval_one_bitsPoly (bs : List Bool) : (bitsPoly bs).eval 1 = (bs.count true : ZMod 2) := by
  induction bs using List.reverseRecOn with
  | nil => simp [bitsPoly]
  | append_singleton bs b ih => cases b <;> simp [bitsPoly_concat, ih]

/-- **An odd number of bits** is not divided by a generator with an even number of terms. -/
theorem mk_ne_zero_of_odd (heven : (bitPoly g).eval 1 = 0) {bs : List Bool} (hodd : bs.count true % 2 = 1) :
    AdjoinRoot.mk (bitPoly g) (bitsPoly bs) ≠ 0 := by
  intro hzero
  have heval := eval_dvd (x := 1) (AdjoinRoot.mk_eq_zero.mp hzero)
  rw [heven, zero_dvd_iff, eval_one_bitsPoly, ZMod.natCast_eq_zero_iff] at heval
  omega

theorem bitsPoly_of_count_zero {bs : List Bool} (h : bs.count true = 0) : bitsPoly bs = 0 := by
  induction bs using List.reverseRecOn with
  | nil => rfl
  | append_singleton bs b ih =>
    cases b with
    | true => simp at h
    | false => simp [bitsPoly_concat, ih (by simpa using h)]

/-- One bit. -/
theorem bitsPoly_of_count_one {bs : List Bool} (h : bs.count true = 1) : ∃ i < bs.length, bitsPoly bs = X ^ i := by
  induction bs using List.reverseRecOn with
  | nil => cases h
  | append_singleton bs b ih =>
    cases b with
    | true =>
      refine ⟨0, by simp, ?_⟩
      rw [bitsPoly_concat, bitsPoly_of_count_zero (by simpa using h)]
      simp
    | false =>
      obtain ⟨i, hi, hbits⟩ := ih (by simpa using h)
      refine ⟨i + 1, by simpa using hi, ?_⟩
      rw [bitsPoly_concat, hbits, pow_succ']
      simp

/-- Two bits. -/
theorem bitsPoly_of_count_two {bs : List Bool} (h : bs.count true = 2) :
    ∃ i j, i < j ∧ j < bs.length ∧ bitsPoly bs = X ^ i + X ^ j := by
  induction bs using List.reverseRecOn with
  | nil => cases h
  | append_singleton bs b ih =>
    cases b with
    | true =>
      obtain ⟨i, hi, hbits⟩ := bitsPoly_of_count_one (show bs.count true = 1 by simpa using h)
      refine ⟨0, i + 1, Nat.succ_pos i, by simpa using hi, ?_⟩
      rw [bitsPoly_concat, hbits, pow_succ', pow_zero, if_pos rfl, add_comm]
    | false =>
      obtain ⟨i, j, hij, hj, hbits⟩ := ih (by simpa using h)
      refine ⟨i + 1, j + 1, Nat.succ_lt_succ hij, by simpa using hj, ?_⟩
      rw [bitsPoly_concat, hbits, pow_succ', pow_succ', ← mul_add]
      simp

/-- **Two bits** of a message that is no longer than the period are not divided. -/
theorem mk_ne_zero_of_two (hg : Generator w g) {bs : List Bool} (hlen : bs.length ≤ orderOf (shift g))
    (htwo : bs.count true = 2) : AdjoinRoot.mk (bitPoly g) (bitsPoly bs) ≠ 0 := by
  obtain ⟨i, j, hij, hj, hbits⟩ := bitsPoly_of_count_two htwo
  intro hzero
  -- `X ^ i` and `X ^ j` have one residue, so `X ^ (j - i)` has that of one
  have hsum : shift g ^ i * (1 + shift g ^ (j - i)) = 0 := by
    rw [mul_add, mul_one, ← pow_add, Nat.add_sub_cancel' hij.le]
    rw [hbits, map_add, map_pow, map_pow, AdjoinRoot.mk_X] at hzero
    exact hzero
  have hone : shift g ^ (j - i) = 1 := by
    have htwice : (1 : AdjoinRoot (bitPoly g)) + 1 = 0 := by
      rw [← map_one (AdjoinRoot.mk (bitPoly g)), ← map_add, CharTwo.add_self_eq_zero, map_zero]
    exact (add_left_cancel ((hg.eq_zero_of_shift hsum).trans htwice.symm))
  have hle := Nat.le_of_dvd (Nat.sub_pos_of_lt hij) (orderOf_dvd_of_pow_eq_one hone)
  omega

end RctPower.Lib.Gf2
