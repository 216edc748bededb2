import Mathlib.Algebra.Field.ZMod
import Mathlib.Data.Nat.Bitwise
import Mathlib.RingTheory.AdjoinRoot

/-!
# Cyclic redundancy checks

A natural number is read as a polynomial over the field of two elements: bit `i` is the
coefficient of `X ^ i` (`bitPoly`). Exclusive or is then addition, and a shift to the left is
multiplication by a power of `X`. A list of bits is read from the highest to the lowest (`bitsPoly`).

A shift register of width `w` multiplies by `X` and takes the generator `g` off whenever a bit
leaves the register (`shiftStep`). Bits of a message are added at the left end; `feed` takes a digit
of `d` bits in `d` steps. In the ring of residues modulo the generator, `residue_foldl_feed` says
what a message does to the register. What is in the register is a residue of least degree, so it is the
remainder itself (`bitPoly_foldl_feed`).

The residue of an error that fits in as many bits as the register has is not zero
(`Burst.residue_ne_zero`), so a message with such an error leaves another register.
-/

namespace RctPower.Lib.Gf2

open Polynomial

noncomputable section

/-! ### Numbers as polynomials -/

/-- The polynomial whose coefficients are the bits of a number. -/
def bitPoly (n : ℕ) : (ZMod 2)[X] := ∑ i ∈ Finset.range n, if n.testBit i then X ^ i else 0

theorem coeff_bitPoly (n i : ℕ) : (bitPoly n).coeff i = if n.testBit i then 1 else 0 := by
  have hterm : ∀ j, (if n.testBit j then (X : (ZMod 2)[X]) ^ j else 0).coeff i =
      if j = i then (if n.testBit i then 1 else 0) else 0 := by
    intro j
    by_cases hji : j = i
    · subst hji
      rw [if_pos rfl]
      split_ifs <;> simp
    · rw [if_neg hji]
      split_ifs
      · rw [coeff_X_pow, if_neg (Ne.symm hji)]
      · rw [coeff_zero]
  rw [bitPoly, finsetSum_coeff, Finset.sum_congr rfl fun j _ => hterm j, Finset.sum_ite_eq']
  split_ifs with hmem hbit
  · rfl
  · rfl
  · -- a bit that is set is below the number
    exact absurd (Finset.mem_range.mpr ((Nat.lt_two_pow_self).trans_le (Nat.ge_two_pow_of_testBit ‹_›))) hmem
  · rfl

@[simp] theorem bitPoly_zero : bitPoly 0 = 0 := rfl

theorem bitPoly_injective : Function.Injective bitPoly := by
  intro m n h
  refine Nat.eq_of_testBit_eq fun i => ?_
  have hi := congrArg (fun p => p.coeff i) h
  simp only [coeff_bitPoly] at hi
  cases hm : m.testBit i <;> cases hn : n.testBit i <;> simp only [hm, hn] at hi ⊢
  · exact absurd hi (by decide)
  · exact absurd hi (by decide)

theorem bitPoly_eq_zero_iff {n : ℕ} : bitPoly n = 0 ↔ n = 0 :=
  ⟨fun h => bitPoly_injective (h.trans bitPoly_zero.symm), fun h => h ▸ bitPoly_zero⟩

/-- Exclusive or is addition. -/
theorem bitPoly_xor (m n : ℕ) : bitPoly (m ^^^ n) = bitPoly m + bitPoly n := by
  ext i
  rw [coeff_add, coeff_bitPoly, coeff_bitPoly, coeff_bitPoly, Nat.testBit_xor]
  cases m.testBit i <;> cases n.testBit i <;> decide

/-- Digits are coefficients of a power of `X`. -/
theorem bitPoly_digit (m : ℕ) {k n : ℕ} (hn : n < 2 ^ k) :
    bitPoly (m * 2 ^ k + n) = X ^ k * bitPoly m + bitPoly n := by
  ext i
  rw [coeff_add, coeff_X_pow_mul', coeff_bitPoly, coeff_bitPoly, coeff_bitPoly, Nat.mul_comm,
    Nat.testBit_two_pow_mul_add _ hn]
  by_cases hi : i < k
  · simp only [hi, Nat.not_le.mpr hi, if_true, if_false, zero_add]
  · have hik := Nat.le_of_not_lt hi
    rw [Nat.testBit_lt_two_pow (hn.trans_le (Nat.pow_le_pow_right two_pos hik))]
    simp [hi, hik]

/-- A shift to the left is multiplication by a power of `X`. -/
theorem bitPoly_mul_two_pow (m k : ℕ) : bitPoly (m * 2 ^ k) = X ^ k * bitPoly m := by
  have := bitPoly_digit m (Nat.two_pow_pos k)
  rwa [Nat.add_zero, bitPoly_zero, add_zero] at this

@[simp] theorem bitPoly_one : bitPoly 1 = 1 := by
  rw [bitPoly, Finset.sum_range_one]
  rfl

theorem bitPoly_two_pow (k : ℕ) : bitPoly (2 ^ k) = X ^ k := by
  have := bitPoly_mul_two_pow 1 k
  rwa [Nat.one_mul, bitPoly_one, mul_one] at this

/-- The number of `k` ones. -/
theorem bitPoly_ones (k : ℕ) : bitPoly (2 ^ k - 1) = ∑ i ∈ Finset.range k, X ^ i := by
  induction k with
  | zero => rfl
  | succ k ih =>
    have hpos := Nat.two_pow_pos k
    have hsucc : 2 ^ (k + 1) - 1 = 1 * 2 ^ k + (2 ^ k - 1) := by
      rw [pow_succ]
      omega
    rw [hsucc, bitPoly_digit 1 (Nat.sub_lt hpos one_pos), bitPoly_one, mul_one, ih, Finset.sum_range_succ, add_comm]

theorem degree_bitPoly_lt {n k : ℕ} (hn : n < 2 ^ k) : (bitPoly n).degree < k := by
  rw [degree_lt_iff_coeff_zero]
  intro i hi
  rw [coeff_bitPoly, Nat.testBit_lt_two_pow (hn.trans_le (Nat.pow_le_pow_right two_pos hi))]
  rfl

/-! ### Bits -/

/-- The `d` low bits of a number, the highest first. -/
def bits : ℕ → ℕ → List Bool
  | 0, _ => []
  | d + 1, n => n.testBit d :: bits d n

@[simp] theorem length_bits (d n : ℕ) : (bits d n).length = d := by
  induction d with
  | zero => rfl
  | succ d ih => rw [bits, List.length_cons, ih]

/-- The polynomial of bits, the highest first. -/
def bitsPoly (bs : List Bool) : (ZMod 2)[X] := bs.foldl (fun p b => X * p + if b then 1 else 0) 0

theorem bitsPoly_concat (bs : List Bool) (b : Bool) :
    bitsPoly (bs ++ [b]) = X * bitsPoly bs + if b then 1 else 0 := by
  rw [bitsPoly, List.foldl_append]
  rfl

theorem bitsPoly_append (as bs : List Bool) : bitsPoly (as ++ bs) = X ^ bs.length * bitsPoly as + bitsPoly bs := by
  induction bs using List.reverseRecOn with
  | nil => simp [bitsPoly]
  | append_singleton bs b ih =>
    rw [← List.append_assoc, bitsPoly_concat, ih, bitsPoly_concat, List.length_append, List.length_singleton, pow_succ]
    ring

/-- The low bits of a number are the polynomial of what is left of it. -/
theorem bitsPoly_bits (d n : ℕ) : bitsPoly (bits d n) = bitPoly (n % 2 ^ d) := by
  induction d with
  | zero =>
    rw [pow_zero, Nat.mod_one]
    rfl
  | succ d ih =>
    have hbit : bitsPoly [n.testBit d] = bitPoly (n / 2 ^ d % 2) := by
      rw [← Nat.toNat_testBit]
      cases n.testBit d <;> simp [bitsPoly]
    have hdigit : n % 2 ^ (d + 1) = n / 2 ^ d % 2 * 2 ^ d + n % 2 ^ d := by
      rw [Nat.mod_pow_succ]
      ring
    rw [bits, ← List.singleton_append, bitsPoly_append, length_bits, hbit, ih, hdigit,
      bitPoly_digit _ (Nat.mod_lt _ (Nat.two_pow_pos d))]

/-! ### Generators -/

/-- A generator of width `w`: its highest term is `X ^ w`, and it has a constant term. -/
structure Generator (w g : ℕ) : Prop where
  /-- The highest term. -/
  high : g.testBit w = true
  /-- There is none above. -/
  bound : g < 2 ^ (w + 1)
  /-- The constant term. -/
  low : g.testBit 0 = true

variable {w g : ℕ}

/-- The residue of a number modulo a generator. -/
def residue (g n : ℕ) : AdjoinRoot (bitPoly g) := AdjoinRoot.mk (bitPoly g) (bitPoly n)

/-- The residue of `X`. -/
def shift (g : ℕ) : AdjoinRoot (bitPoly g) := AdjoinRoot.root (bitPoly g)

@[simp] theorem residue_self (g : ℕ) : residue g g = 0 := AdjoinRoot.mk_self

@[simp] theorem residue_zero (g : ℕ) : residue g 0 = 0 := by
  rw [residue, bitPoly_zero, map_zero]

theorem residue_xor (g m n : ℕ) : residue g (m ^^^ n) = residue g m + residue g n := by
  rw [residue, bitPoly_xor, map_add]
  rfl

theorem residue_digit (g m : ℕ) {k n : ℕ} (hn : n < 2 ^ k) :
    residue g (m * 2 ^ k + n) = shift g ^ k * residue g m + residue g n := by
  rw [residue, bitPoly_digit m hn, map_add, map_mul, map_pow]
  rfl

theorem residue_mul_two_pow (g m k : ℕ) : residue g (m * 2 ^ k) = shift g ^ k * residue g m := by
  rw [residue, bitPoly_mul_two_pow, map_mul, map_pow]
  rfl

theorem Generator.degree (hg : Generator w g) : (bitPoly g).degree = w := by
  refine le_antisymm (Order.lt_succ_iff.mp ?_) (le_degree_of_ne_zero ?_)
  · exact degree_bitPoly_lt hg.bound
  · rw [coeff_bitPoly, hg.high]
    decide

/-- A shift can be undone: the generator has a constant term. -/
theorem Generator.isUnit_shift (hg : Generator w g) : IsUnit (shift g) := by
  have hconst : (bitPoly g).coeff 0 = 1 := by rw [coeff_bitPoly, hg.low, if_pos rfl]
  -- the generator is `X` times a polynomial, and one
  have hself : AdjoinRoot.mk (bitPoly g) ((bitPoly g).divX * X + C 1) = 0 := by
    rw [← hconst, divX_mul_X_add, AdjoinRoot.mk_self]
  rw [map_one, map_add, map_mul, AdjoinRoot.mk_X, map_one] at hself
  refine IsUnit.of_mul_eq_one (-AdjoinRoot.mk (bitPoly g) (bitPoly g).divX) ?_
  rw [mul_neg, mul_comm]
  exact (eq_neg_of_add_eq_zero_right hself).symm

/-- What is zero after shifts was zero. -/
theorem Generator.eq_zero_of_shift (hg : Generator w g) {k : ℕ} {x : AdjoinRoot (bitPoly g)}
    (h : shift g ^ k * x = 0) : x = 0 :=
  (hg.isUnit_shift.pow k).mul_right_eq_zero.mp h

/-! ### The shift register -/

/-- One step of a register of width `w`: what leaves it on the left is taken off as a multiple of the
generator. -/
def shiftStep (w g s : ℕ) : ℕ := if (s * 2).testBit w then (s * 2) ^^^ g else s * 2

/-- A digit of `d` bits, added at the left end of the register. -/
def feed (w g d s b : ℕ) : ℕ := (shiftStep w g)^[d] (s ^^^ (b * 2 ^ (w - d)))

/-- Digits of `d` bits as one number, the first the highest. -/
def number (d : ℕ) (bs : List ℕ) : ℕ := bs.foldl (fun n b => n * 2 ^ d + b) 0

theorem number_concat (d : ℕ) (bs : List ℕ) (b : ℕ) : number d (bs ++ [b]) = number d bs * 2 ^ d + b := by
  rw [number, List.foldl_append]
  rfl

/-- Digits as bits, and as one number. -/
theorem bitsPoly_flatMap_bits {d : ℕ} {bs : List ℕ} (hbs : ∀ b ∈ bs, b < 2 ^ d) :
    bitsPoly (bs.flatMap (bits d)) = bitPoly (number d bs) := by
  induction bs using List.reverseRecOn with
  | nil => rfl
  | append_singleton bs b ih =>
    have hb : b < 2 ^ d := hbs b (by simp)
    rw [List.flatMap_append, List.flatMap_singleton, bitsPoly_append, length_bits,
      ih fun c hc => hbs c (List.mem_append_left _ hc), bitsPoly_bits, Nat.mod_eq_of_lt hb, number_concat,
      bitPoly_digit _ hb]

theorem shiftStep_lt (hg : Generator w g) {s : ℕ} (hs : s < 2 ^ w) : shiftStep w g s < 2 ^ w := by
  have hdouble : s * 2 < 2 ^ (w + 1) := by
    rw [pow_succ]
    omega
  -- nothing above the register, and its highest bit is taken off
  refine Nat.lt_pow_two_of_testBit _ fun i hi => ?_
  have habove : w < i → (s * 2).testBit i = false ∧ g.testBit i = false := fun hlt =>
    ⟨Nat.testBit_lt_two_pow (hdouble.trans_le (Nat.pow_le_pow_right two_pos hlt)),
      Nat.testBit_lt_two_pow (hg.bound.trans_le (Nat.pow_le_pow_right two_pos hlt))⟩
  rw [shiftStep]
  rcases hi.eq_or_lt with rfl | hlt
  · split_ifs with hbit
    · rw [Nat.testBit_xor, hbit, hg.high]
      rfl
    · simpa using hbit
  · split_ifs
    · rw [Nat.testBit_xor, (habove hlt).1, (habove hlt).2]
      rfl
    · exact (habove hlt).1

theorem residue_shiftStep (w g s : ℕ) : residue g (shiftStep w g s) = shift g * residue g s := by
  have hdouble : residue g (s * 2) = shift g * residue g s := by
    have := residue_mul_two_pow g s 1
    rwa [pow_one, pow_one] at this
  rw [shiftStep]
  split_ifs
  · rw [residue_xor, residue_self, add_zero, hdouble]
  · exact hdouble

theorem shiftSteps_lt (hg : Generator w g) {s : ℕ} (hs : s < 2 ^ w) (k : ℕ) : (shiftStep w g)^[k] s < 2 ^ w := by
  induction k with
  | zero => exact hs
  | succ k ih =>
    rw [Function.iterate_succ_apply']
    exact shiftStep_lt hg ih

theorem residue_shiftSteps (w g s k : ℕ) : residue g ((shiftStep w g)^[k] s) = shift g ^ k * residue g s := by
  induction k with
  | zero => rw [Function.iterate_zero_apply, pow_zero, one_mul]
  | succ k ih => rw [Function.iterate_succ_apply', residue_shiftStep, ih, pow_succ', mul_assoc]

/-- A digit fits the left end of the register. -/
theorem digit_lt {d b : ℕ} (hd : d ≤ w) (hb : b < 2 ^ d) : b * 2 ^ (w - d) < 2 ^ w := by
  calc b * 2 ^ (w - d) < 2 ^ d * 2 ^ (w - d) := Nat.mul_lt_mul_of_pos_right hb (Nat.two_pow_pos _)
    _ = 2 ^ w := by rw [← pow_add, Nat.add_sub_cancel' hd]

theorem feed_lt (hg : Generator w g) {d s b : ℕ} (hd : d ≤ w) (hs : s < 2 ^ w) (hb : b < 2 ^ d) :
    feed w g d s b < 2 ^ w :=
  shiftSteps_lt hg (Nat.xor_lt_two_pow hs (digit_lt hd hb)) d

/-- **What a digit does to the register.** -/
theorem residue_feed {d : ℕ} (hd : d ≤ w) (g s b : ℕ) :
    residue g (feed w g d s b) = shift g ^ d * residue g s + shift g ^ w * residue g b := by
  rw [feed, residue_shiftSteps, residue_xor, residue_mul_two_pow, mul_add, ← mul_assoc, ← pow_add,
    Nat.add_sub_cancel' hd]

/-- **What a message does to the register.** -/
theorem residue_foldl_feed {d : ℕ} (hd : d ≤ w) (g s : ℕ) {bs : List ℕ} (hbs : ∀ b ∈ bs, b < 2 ^ d) :
    residue g (bs.foldl (feed w g d) s) =
      shift g ^ (d * bs.length) * residue g s + shift g ^ w * residue g (number d bs) := by
  induction bs using List.reverseRecOn with
  | nil => simp [number]
  | append_singleton bs b ih =>
    have hb : b < 2 ^ d := hbs b (by simp)
    rw [List.foldl_append, List.foldl_cons, List.foldl_nil, residue_feed hd,
      ih fun c hc => hbs c (List.mem_append_left _ hc), number_concat, residue_digit g _ hb, List.length_append,
      List.length_singleton, Nat.mul_succ, pow_add]
    ring

theorem foldl_feed_lt (hg : Generator w g) {d s : ℕ} (hd : d ≤ w) (hs : s < 2 ^ w) {bs : List ℕ}
    (hbs : ∀ b ∈ bs, b < 2 ^ d) : bs.foldl (feed w g d) s < 2 ^ w := by
  induction bs using List.reverseRecOn with
  | nil => exact hs
  | append_singleton bs b ih =>
    rw [List.foldl_append]
    exact feed_lt hg hd (ih fun c hc => hbs c (List.mem_append_left _ hc)) (hbs b (by simp))

/-- **The register holds a remainder**: that of the message, shifted by the width of the register, and of
what the register held before, shifted by the length of the message. -/
theorem bitPoly_foldl_feed (hg : Generator w g) {d s : ℕ} (hd : d ≤ w) (hs : s < 2 ^ w) {bs : List ℕ}
    (hbs : ∀ b ∈ bs, b < 2 ^ d) :
    bitPoly (bs.foldl (feed w g d) s) =
      (X ^ w * bitsPoly (bs.flatMap (bits d)) + X ^ (bs.flatMap (bits d)).length * bitPoly s) % bitPoly g := by
  have hlength : (bs.flatMap (bits d)).length = d * bs.length := by
    rw [List.length_flatMap]
    simp [Nat.mul_comm]
  have hresidue := residue_foldl_feed hd g s hbs
  rw [bitsPoly_flatMap_bits hbs, hlength, add_comm]
  -- the two are congruent, and the register has the lower degree
  have hmk : AdjoinRoot.mk (bitPoly g) (bitPoly (bs.foldl (feed w g d) s)) =
      AdjoinRoot.mk (bitPoly g) (X ^ (d * bs.length) * bitPoly s + X ^ w * bitPoly (number d bs)) := by
    rw [map_add, map_mul, map_mul, map_pow, map_pow]
    exact hresidue
  rw [← mod_eq_of_dvd_sub (AdjoinRoot.mk_eq_mk.mp hmk)]
  refine ((mod_eq_self_iff fun hzero => ?_).mpr ?_).symm
  · have hne := hg.degree
    rw [hzero, degree_zero] at hne
    cases hne
  · rw [hg.degree]
    exact degree_bitPoly_lt (foldl_feed_lt hg hd hs hbs)

/-! ### Errors -/

/-- An error that is not zero and fits in `w` consecutive bits. -/
structure Burst (w e : ℕ) : Prop where
  /-- There is an error. -/
  ne_zero : e ≠ 0
  /-- Its bits are in a window. -/
  window : ∃ k, ∀ i, e.testBit i = true → k ≤ i ∧ i < k + w

/-- A burst is a number of the width of the register, shifted. -/
theorem Burst.exists_shift {e : ℕ} (h : Burst w e) : ∃ k n, e = n * 2 ^ k ∧ n < 2 ^ w ∧ n ≠ 0 := by
  obtain ⟨hne, k, hwindow⟩ := h
  have hshift : e = (e >>> k) * 2 ^ k := by
    refine Nat.eq_of_testBit_eq fun i => ?_
    rw [Nat.testBit_mul_two_pow, Nat.testBit_shiftRight]
    by_cases hi : k ≤ i
    · simp [hi]
    · cases hbit : e.testBit i with
      | true => exact absurd (hwindow i hbit).1 hi
      | false => simp [hi]
  refine ⟨k, e >>> k, hshift, Nat.lt_pow_two_of_testBit _ fun i hi => ?_, ?_⟩
  · rw [Nat.testBit_shiftRight]
    cases hbit : e.testBit (k + i) with
    | true => exact absurd (hwindow _ hbit).2 (by omega)
    | false => rfl
  · intro hzero
    rw [hzero, Nat.zero_mul] at hshift
    exact hne hshift

/-- A number of the width of the register is a burst. -/
theorem burst_of_lt {n : ℕ} (hne : n ≠ 0) (hn : n < 2 ^ w) : Burst w n := by
  refine ⟨hne, 0, fun i hi => ⟨Nat.zero_le i, ?_⟩⟩
  by_contra hlt
  rw [Nat.testBit_lt_two_pow (hn.trans_le (Nat.pow_le_pow_right two_pos (by omega)))] at hi
  cases hi

/-- A burst that is followed by more bits is a burst. -/
theorem Burst.mul_two_pow {e : ℕ} (h : Burst w e) (k : ℕ) : Burst w (e * 2 ^ k) := by
  obtain ⟨hne, j, hwindow⟩ := h
  refine ⟨Nat.mul_ne_zero hne (Nat.two_pow_pos k).ne', j + k, fun i hi => ?_⟩
  rw [Nat.testBit_mul_two_pow, Bool.and_eq_true, decide_eq_true_iff] at hi
  have := hwindow _ hi.2
  omega

/-- **The residue of a burst is not zero.** -/
theorem Burst.residue_ne_zero (hg : Generator w g) {e : ℕ} (h : Burst w e) : residue g e ≠ 0 := by
  obtain ⟨k, n, rfl, hn, hne⟩ := h.exists_shift
  intro hzero
  rw [residue_mul_two_pow] at hzero
  have hdvd := AdjoinRoot.mk_eq_zero.mp (hg.eq_zero_of_shift hzero)
  -- the generator does not divide what has a lower degree
  refine hne (bitPoly_eq_zero_iff.mp (eq_zero_of_dvd_of_degree_lt hdvd ?_))
  rw [hg.degree]
  exact degree_bitPoly_lt hn

/-- **Messages that differ by a burst** leave different registers, whatever was in it before. -/
theorem foldl_feed_ne (hg : Generator w g) {d : ℕ} (hd : d ≤ w) (s : ℕ) {as bs : List ℕ} (has : ∀ b ∈ as, b < 2 ^ d)
    (hbs : ∀ b ∈ bs, b < 2 ^ d) (hlen : as.length = bs.length) (h : Burst w (number d as ^^^ number d bs)) :
    as.foldl (feed w g d) s ≠ bs.foldl (feed w g d) s := by
  intro heq
  have hresidue := congrArg (residue g) heq
  rw [residue_foldl_feed hd g s has, residue_foldl_feed hd g s hbs, hlen, add_right_inj] at hresidue
  have hzero : shift g ^ w * residue g (number d as ^^^ number d bs) = 0 := by
    rw [residue_xor, mul_add, hresidue, ← mul_add, ← residue_xor, Nat.xor_self, residue_zero, mul_zero]
  exact h.residue_ne_zero hg (hg.eq_zero_of_shift hzero)

/-- Exclusive or, digit by digit. -/
theorem number_xor {d : ℕ} {as bs : List ℕ} (has : ∀ b ∈ as, b < 2 ^ d) (hbs : ∀ b ∈ bs, b < 2 ^ d)
    (hlen : as.length = bs.length) : number d (as.zipWith (· ^^^ ·) bs) = number d as ^^^ number d bs := by
  induction as using List.reverseRecOn generalizing bs with
  | nil =>
    rw [List.length_nil] at hlen
    rw [List.eq_nil_of_length_eq_zero hlen.symm]
    simp [number]
  | append_singleton as a ih =>
    rcases List.eq_nil_or_concat' bs with rfl | ⟨bs, b, rfl⟩
    · simp at hlen
    · have hlen' : as.length = bs.length := by simpa using hlen
      have ha : a < 2 ^ d := has a (by simp)
      have hb : b < 2 ^ d := hbs b (by simp)
      have hzip : (as ++ [a]).zipWith (· ^^^ ·) (bs ++ [b]) = as.zipWith (· ^^^ ·) bs ++ [a ^^^ b] := by
        rw [List.zipWith_append hlen']
        rfl
      rw [hzip, number_concat, number_concat, number_concat,
        ih (fun c hc => has c (List.mem_append_left _ hc)) (fun c hc => hbs c (List.mem_append_left _ hc)) hlen']
      apply bitPoly_injective
      rw [bitPoly_xor, bitPoly_digit _ ha, bitPoly_digit _ hb, bitPoly_digit _ (Nat.xor_lt_two_pow ha hb), bitPoly_xor,
        bitPoly_xor]
      ring

end

end RctPower.Lib.Gf2
