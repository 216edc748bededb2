import Mathlib.Algebra.Order.Field.Power
import Mathlib.Algebra.Order.Floor.Ring
import Mathlib.Data.Rat.Floor
import Mathlib.Tactic.FieldSimp
import Mathlib.Tactic.Linarith
import Mathlib.Tactic.NormNum
import Mathlib.Tactic.Positivity
import Mathlib.Tactic.Ring

/-!
# Binary32

The single-precision floats of IEEE 754 as bit patterns, what they denote, and
the conversions a program makes with them: from integers and decimal fractions
(to nearest, ties to even), to integers (truncating and saturating), and to
decimal text (the fewest digits that still determine the float).

A bit pattern without its sign is a natural number, its *magnitude*, and
magnitudes are in the order of what they denote (`magnitude`). So a float's
neighbours are the magnitudes one below and one above, and rounding can be
written as arithmetic on the magnitude, carries into the exponent included.

What a float denotes is a `Datum`: a rational, an infinity, or not a number. A
double that comes from a single, or from an integer of at most 32 bits, is exact,
so a `Datum` also serves as its value.

Proved here: integers below `2 ^ 24` convert exactly (`datum_ofInt`), larger ones
to something at least `2 ^ 24` in size (`datum_ofInt_large`), and the text of a finite
float that does not denote an integer has a decimal point (`exists_fraction_display`).
-/

namespace RctPower.Lib.Binary32

/-- What a float denotes. The sign of zero is not part of it. -/
inductive Datum where
  /-- Not a number. -/
  | nan
  /-- An infinity. -/
  | inf (neg : Bool)
  /-- A number. -/
  | num (q : ℚ)
  deriving DecidableEq

/-- The order of IEEE 754: nothing compares with a value that is not a number. -/
def Datum.le : Datum → Datum → Bool
  | .nan, _ | _, .nan => false
  | .inf true, _ | _, .inf false => true
  | .inf false, _ | _, .inf true => false
  | .num a, .num b => decide (a ≤ b)

/-- A single-precision float: its bit pattern. -/
structure F32 where
  /-- Sign, exponent and fraction, from the most significant bit down. -/
  bits : UInt32
  deriving DecidableEq

/-- The magnitude of the infinities; larger ones are not numbers. -/
def infMagnitude : ℕ := 255 * 2 ^ 23

/-- What a magnitude denotes; `infMagnitude` itself is given the value the next
exponent would have. -/
def magnitude (b : ℕ) : ℚ :=
  if b < 2 ^ 23 then b * (2 : ℚ) ^ (-149 : ℤ)
  else (2 ^ 23 + b % 2 ^ 23 : ℕ) * (2 : ℚ) ^ ((b / 2 ^ 23 : ℕ) - 150 : ℤ)

namespace F32

/-- The sign bit. -/
def neg (f : F32) : Bool := decide (2 ^ 31 ≤ f.bits.toNat)

/-- The bit pattern without the sign. -/
def mag (f : F32) : ℕ := f.bits.toNat % 2 ^ 31

/-- What the float denotes. -/
def datum (f : F32) : Datum :=
  if f.mag < infMagnitude then .num (if f.neg then -magnitude f.mag else magnitude f.mag)
  else if f.mag = infMagnitude then .inf f.neg
  else .nan

/-- `==` of floats: what is not a number equals nothing, and the two zeros are equal. -/
def eq (f g : F32) : Bool := decide (f.datum ≠ .nan ∧ f.datum = g.datum)

/-- The float of a sign and a magnitude. -/
def ofMag (neg : Bool) (b : ℕ) : F32 := ⟨UInt32.ofNat ((if neg then 2 ^ 31 else 0) + b)⟩

theorem mag_ofMag {neg : Bool} {b : ℕ} (h : b < 2 ^ 31) : (ofMag neg b).mag = b := by
  unfold mag ofMag
  rw [UInt32.toNat_ofNat']
  split <;> omega

theorem neg_ofMag {neg : Bool} {b : ℕ} (h : b < 2 ^ 31) : (ofMag neg b).neg = neg := by
  unfold F32.neg ofMag
  rw [UInt32.toNat_ofNat']
  cases neg <;> simp <;> omega

end F32

/-- A pattern is a sign and a magnitude. -/
theorem F32.ext_mag {f g : F32} (hneg : f.neg = g.neg) (hmag : f.mag = g.mag) : f = g := by
  have hf := f.bits.toNat_lt
  have hg := g.bits.toNat_lt
  unfold F32.neg at hneg
  unfold F32.mag at hmag
  have hbits : f.bits.toNat = g.bits.toNat := by
    rw [decide_eq_decide] at hneg
    omega
  cases f
  cases g
  exact congrArg F32.mk (UInt32.toNat.inj hbits)

/-! ### Rounding -/

/-- The nearest natural number, ties to even, of a number that is not negative. -/
def roundHalfEven (x : ℚ) : ℕ :=
  let k := ⌊x⌋.toNat
  if 2 * (x - k) < 1 then k else if 1 < 2 * (x - k) then k + 1 else k + k % 2

/-- The `e` with `2 ^ e ≤ x < 2 ^ (e + 1)`, of a positive number. The bit lengths of
numerator and denominator leave two candidates. -/
def floorLog2 (x : ℚ) : ℤ :=
  let e : ℤ := x.num.natAbs.log2 - x.den.log2
  if x < (2 : ℚ) ^ e then e - 1 else e

/-- The magnitude nearest to a positive number. Below `2 ^ (-126)` the spacing stays
that of the subnormals; a mantissa rounded up to `2 ^ 24` carries into the exponent. -/
def roundMagnitude (x : ℚ) : ℕ :=
  if x = 0 then 0
  else
    let e := max (floorLog2 x) (-126)
    min ((e + 126).toNat * 2 ^ 23 + roundHalfEven (x / (2 : ℚ) ^ (e - 23))) infMagnitude

/-- The float nearest to a rational. -/
def F32.ofRat (neg : Bool) (x : ℚ) : F32 := .ofMag neg (roundMagnitude x)

/-- The float nearest to an integer: the cast of a 64-bit integer. -/
def F32.ofInt (n : ℤ) : F32 := .ofRat (decide (n < 0)) n.natAbs

theorem roundHalfEven_natCast (k : ℕ) : roundHalfEven k = k := by
  simp [roundHalfEven]

theorem le_roundHalfEven {k : ℕ} {x : ℚ} (h : (k : ℚ) ≤ x) : k ≤ roundHalfEven x := by
  have hk : k ≤ ⌊x⌋.toNat := by
    have : (k : ℤ) ≤ ⌊x⌋ := Int.le_floor.mpr (by exact_mod_cast h)
    omega
  unfold roundHalfEven
  dsimp only
  split_ifs <;> omega

theorem floorLog2_natCast {n : ℕ} (hn : n ≠ 0) : floorLog2 n = n.log2 := by
  have hle : (2 : ℚ) ^ ((n.log2 : ℕ) : ℤ) ≤ n := by
    rw [zpow_natCast]
    exact_mod_cast Nat.log2_self_le hn
  have hone : Nat.log2 1 = 0 := by decide
  simp only [floorLog2, Rat.num_natCast, Int.natAbs_natCast, Rat.den_natCast, hone, Nat.cast_zero, sub_zero,
    if_neg (not_lt.mpr hle)]

theorem roundMagnitude_le (x : ℚ) : roundMagnitude x ≤ infMagnitude := by
  rw [roundMagnitude]
  split
  · exact Nat.zero_le _
  · exact min_le_right _ _

theorem infMagnitude_lt : infMagnitude < 2 ^ 31 := by decide

/-- The magnitude of an integer below `2 ^ 24`, split into exponent and fraction. -/
theorem roundMagnitude_small {n : ℕ} (hn : n ≠ 0) (h : n < 2 ^ 24) :
    roundMagnitude n = (n.log2 + 127) * 2 ^ 23 + (n * 2 ^ (23 - n.log2) - 2 ^ 23) ∧
      2 ^ 23 ≤ n * 2 ^ (23 - n.log2) ∧ n * 2 ^ (23 - n.log2) < 2 ^ 24 := by
  have hlog : n.log2 ≤ 23 := by
    have := (Nat.log2_lt hn).mpr h
    omega
  have hlow : 2 ^ 23 ≤ n * 2 ^ (23 - n.log2) := by
    calc 2 ^ 23 = 2 ^ n.log2 * 2 ^ (23 - n.log2) := by rw [← pow_add]; congr 1; omega
      _ ≤ n * 2 ^ (23 - n.log2) := Nat.mul_le_mul_right _ (Nat.log2_self_le hn)
  have hhigh : n * 2 ^ (23 - n.log2) < 2 ^ 24 := by
    calc n * 2 ^ (23 - n.log2) < 2 ^ (n.log2 + 1) * 2 ^ (23 - n.log2) :=
          Nat.mul_lt_mul_of_pos_right Nat.lt_log2_self (by positivity)
      _ = 2 ^ 24 := by rw [← pow_add]; congr 1; omega
  have hquot : (n : ℚ) / (2 : ℚ) ^ ((n.log2 : ℤ) - 23) = ((n * 2 ^ (23 - n.log2) : ℕ) : ℚ) := by
    rw [div_eq_mul_inv, ← zpow_neg, show -((n.log2 : ℤ) - 23) = ((23 - n.log2 : ℕ) : ℤ) by omega, zpow_natCast]
    push_cast
    ring
  refine ⟨?_, hlow, hhigh⟩
  rw [roundMagnitude]
  rw [if_neg (by exact_mod_cast hn)]
  dsimp only
  rw [floorLog2_natCast hn, max_eq_left (by omega), hquot, roundHalfEven_natCast, min_eq_left]
  · have : ((n.log2 : ℤ) + 126).toNat = n.log2 + 126 := by omega
    rw [this]
    omega
  · have : ((n.log2 : ℤ) + 126).toNat = n.log2 + 126 := by omega
    rw [this]
    rw [infMagnitude]
    omega

/-- An integer below `2 ^ 24` is denoted exactly. -/
theorem magnitude_roundMagnitude {n : ℕ} (h : n < 2 ^ 24) :
    magnitude (roundMagnitude n) = n ∧ roundMagnitude n < infMagnitude := by
  rcases eq_or_ne n 0 with rfl | hn
  · constructor <;> decide +kernel
  · obtain ⟨hb, hlow, hhigh⟩ := roundMagnitude_small hn h
    have hlog : n.log2 ≤ 23 := by
      have := (Nat.log2_lt hn).mpr h
      omega
    refine ⟨?_, by rw [hb]; unfold infMagnitude; omega⟩
    have hdiv : roundMagnitude n / 2 ^ 23 = n.log2 + 127 := by omega
    have hmod : roundMagnitude n % 2 ^ 23 = n * 2 ^ (23 - n.log2) - 2 ^ 23 := by omega
    rw [magnitude]
    rw [if_neg (by omega), hdiv, hmod, Nat.add_sub_cancel' hlow]
    have hexp : ((n.log2 + 127 : ℕ) : ℤ) - 150 = -((23 - n.log2 : ℕ) : ℤ) := by omega
    rw [hexp, zpow_neg, zpow_natCast]
    push_cast
    field_simp

/-- **Integers below `2 ^ 24` in size convert exactly.** -/
theorem datum_ofInt {n : ℤ} (h : n.natAbs < 2 ^ 24) : (F32.ofInt n).datum = .num n := by
  obtain ⟨hval, hlt⟩ := magnitude_roundMagnitude h
  have hbound := lt_trans hlt infMagnitude_lt
  unfold F32.ofInt F32.ofRat F32.datum
  rw [F32.mag_ofMag hbound, F32.neg_ofMag hbound, if_pos hlt, hval]
  by_cases hn : n < 0
  · have : ((n.natAbs : ℤ) : ℚ) = -n := by rw [Int.ofNat_natAbs_of_nonpos hn.le]; push_cast; ring
    simp only [hn, decide_true, if_true]
    rw [← Int.cast_natCast, this, neg_neg]
  · have : ((n.natAbs : ℤ) : ℚ) = n := by rw [Int.natAbs_of_nonneg (by omega)]
    simp only [hn, decide_false, Bool.false_eq_true, if_false]
    rw [← Int.cast_natCast, this]

/-- A magnitude with a large exponent denotes something large. -/
theorem le_magnitude {b : ℕ} (h : 151 * 2 ^ 23 ≤ b) : (2 : ℚ) ^ 24 ≤ magnitude b := by
  have hexp : (1 : ℤ) ≤ (b / 2 ^ 23 : ℕ) - 150 := by omega
  rw [magnitude]
  rw [if_neg (by omega)]
  calc (2 : ℚ) ^ 24 = (2 ^ 23 : ℕ) * (2 : ℚ) ^ (1 : ℤ) := by norm_num
    _ ≤ (2 ^ 23 + b % 2 ^ 23 : ℕ) * (2 : ℚ) ^ ((b / 2 ^ 23 : ℕ) - 150 : ℤ) := by
        gcongr
        · exact Nat.le_add_right _ _
        · norm_num

/-- **Integers of size `2 ^ 24` or more convert to a number at least that large, of
the same sign, or to an infinity.** -/
theorem datum_ofInt_large {n : ℤ} (h : 2 ^ 24 ≤ n.natAbs) :
    (∃ neg, (F32.ofInt n).datum = .inf neg) ∨
      ∃ q, (F32.ofInt n).datum = .num q ∧ ((0 < n ∧ 2 ^ 24 ≤ q) ∨ (n < 0 ∧ q ≤ -2 ^ 24)) := by
  have hn : n.natAbs ≠ 0 := by omega
  have hlog : 24 ≤ n.natAbs.log2 := (Nat.le_log2 hn).mpr h
  have hbig : 151 * 2 ^ 23 ≤ roundMagnitude n.natAbs := by
    rw [roundMagnitude]
    rw [if_neg (by exact_mod_cast hn)]
    dsimp only
    rw [floorLog2_natCast hn, max_eq_left (by omega)]
    have hmant : 2 ^ 23 ≤ roundHalfEven ((n.natAbs : ℚ) / (2 : ℚ) ^ ((n.natAbs.log2 : ℤ) - 23)) := by
      apply le_roundHalfEven
      rw [le_div_iff₀ (by positivity)]
      calc ((2 ^ 23 : ℕ) : ℚ) * (2 : ℚ) ^ ((n.natAbs.log2 : ℤ) - 23) = (2 : ℚ) ^ (n.natAbs.log2 : ℤ) := by
            rw [Nat.cast_pow, Nat.cast_ofNat, ← zpow_natCast, ← zpow_add₀ (by norm_num)]
            congr 1
            omega
        _ ≤ n.natAbs := by
            rw [zpow_natCast]
            exact_mod_cast Nat.log2_self_le hn
    have hexp : ((n.natAbs.log2 : ℤ) + 126).toNat = n.natAbs.log2 + 126 := by omega
    rw [hexp, le_min_iff]
    rw [infMagnitude]
    omega
  have hbound := lt_of_le_of_lt (roundMagnitude_le n.natAbs) infMagnitude_lt
  unfold F32.ofInt F32.ofRat F32.datum
  rw [F32.mag_ofMag hbound, F32.neg_ofMag hbound]
  rcases (roundMagnitude_le n.natAbs).lt_or_eq with hlt | heq
  · right
    rw [if_pos hlt]
    have hval := le_magnitude hbig
    by_cases hneg : n < 0
    · exact ⟨_, rfl, .inr ⟨hneg, by simp only [hneg, decide_true, if_true]; linarith⟩⟩
    · refine ⟨_, rfl, .inl ⟨by omega, ?_⟩⟩
      simpa only [hneg, decide_false, Bool.false_eq_true, if_false] using hval
  · left
    rw [if_neg (by omega), if_pos heq]
    exact ⟨_, rfl⟩

/-! ### Casting to integers -/

/-- Towards zero. -/
def truncate (q : ℚ) : ℤ := if 0 ≤ q then ⌊q⌋ else ⌈q⌉

/-- The cast to an integer type of range `lo` to `hi`: truncating, saturating, and
taking what is not a number to `0`. -/
def Datum.toInt (lo hi : ℤ) : Datum → ℤ
  | .nan => 0
  | .inf true => lo
  | .inf false => hi
  | .num q => max lo (min hi (truncate q))

/-! ### Decimal text -/

/-- The reals that round to a positive finite magnitude: those between the midpoints
to its neighbours, the midpoints themselves when it is even. -/
def RoundsTo (b : ℕ) (x : ℚ) : Prop :=
  let lo := (magnitude (b - 1) + magnitude b) / 2
  let hi := (magnitude b + magnitude (b + 1)) / 2
  (lo < x ∧ x < hi) ∨ (b % 2 = 0 ∧ (x = lo ∨ x = hi))

instance (b : ℕ) (x : ℚ) : Decidable (RoundsTo b x) := by
  rw [RoundsTo]
  infer_instance

/-- The multiple of the unit `u` nearest to the magnitude's number, among those that
round to it. -/
def nearestMultiple (b : ℕ) (u : ℚ) : Option ℕ :=
  let x := magnitude b
  let d := ⌊x / u⌋.toNat
  match decide (RoundsTo b (d * u)), decide (RoundsTo b ((d + 1 : ℕ) * u)) with
  | true, true => if x - d * u < (d + 1 : ℕ) * u - x then some d else some (d + 1)
  | true, false => some d
  | false, true => some (d + 1)
  | false, false => none

/-- The shortest decimal of a magnitude, as digits and a power of ten: the largest
power of ten with a multiple that rounds to it. The powers tried go from `10 ^ e`
down, `n` of them. -/
def shortest (b : ℕ) : ℕ → ℤ → Option (ℕ × ℤ)
  | 0, _ => none
  | n + 1, e =>
    match nearestMultiple b ((10 : ℚ) ^ e) with
    | some d => some (d, e)
    | none => shortest b n (e - 1)

/-- `d` times the power of ten `e`, in positional notation. -/
def decimal (d : ℕ) (e : ℤ) : List Char :=
  if 0 ≤ e then Nat.toDigits 10 (d * 10 ^ e.toNat)
  else
    let m := (-e).toNat
    let frac := Nat.toDigits 10 (d % 10 ^ m)
    Nat.toDigits 10 (d / 10 ^ m) ++ '.' :: (List.replicate (m - frac.length) '0' ++ frac)

/-- The text of a finite magnitude. Binary32 ranges from below `10 ^ 39` to multiples of
`10 ^ (-149)`. -/
def displayMag (b : ℕ) : List Char :=
  if b = 0 then ['0']
  else
    match shortest b 188 38 with
    | some (d, e) => decimal d e
    | none => []

/-- The text of a float, without exponent and without a fraction that is zero. -/
def F32.display (f : F32) : List Char :=
  if f.mag < infMagnitude then (if f.neg then ['-'] else []) ++ displayMag f.mag
  else if f.mag = infMagnitude then (if f.neg then ['-'] else []) ++ "inf".toList
  else "NaN".toList

/-! ### Neighbouring magnitudes -/

theorem magnitude_lt_succ (b : ℕ) : magnitude b < magnitude (b + 1) := by
  unfold magnitude
  rcases lt_trichotomy (b + 1) (2 ^ 23) with h | h | h
  · rw [if_pos (by omega), if_pos h]
    gcongr
    exact Nat.lt_succ_self b
  · rw [if_pos (by omega), if_neg (by omega), show (b + 1) / 2 ^ 23 = 1 by omega, show (b + 1) % 2 ^ 23 = 0 by omega]
    rw [show (((1 : ℕ) : ℤ) - 150) = -149 by norm_num]
    gcongr
    omega
  · rw [if_neg (by omega), if_neg (by omega)]
    by_cases hcarry : b % 2 ^ 23 + 1 < 2 ^ 23
    · rw [show (b + 1) / 2 ^ 23 = b / 2 ^ 23 by omega, show (b + 1) % 2 ^ 23 = b % 2 ^ 23 + 1 by omega]
      gcongr
      omega
    · -- the fraction is full: the next magnitude has the next exponent and fraction zero
      rw [show (b + 1) / 2 ^ 23 = b / 2 ^ 23 + 1 by omega, show (b + 1) % 2 ^ 23 = 0 by omega]
      have hexp : (((b / 2 ^ 23 + 1 : ℕ) : ℤ) - 150) = ((b / 2 ^ 23 : ℕ) - 150) + 1 := by push_cast; ring
      rw [hexp, zpow_add₀ (by norm_num), zpow_one]
      have hfrac : 2 ^ 23 + b % 2 ^ 23 < (2 ^ 23 + 0) * 2 := by omega
      calc ((2 ^ 23 + b % 2 ^ 23 : ℕ) : ℚ) * 2 ^ (((b / 2 ^ 23 : ℕ) : ℤ) - 150)
          < (((2 ^ 23 + 0) * 2 : ℕ) : ℚ) * 2 ^ (((b / 2 ^ 23 : ℕ) : ℤ) - 150) := by gcongr
        _ = ((2 ^ 23 + 0 : ℕ) : ℚ) * (2 ^ (((b / 2 ^ 23 : ℕ) : ℤ) - 150) * 2) := by rw [Nat.cast_mul]; ring

/-- A positive magnitude's own number rounds to it. -/
theorem roundsTo_magnitude {b : ℕ} (hb : b ≠ 0) : RoundsTo b (magnitude b) := by
  have hlow : magnitude (b - 1) < magnitude b := by
    have := magnitude_lt_succ (b - 1)
    rwa [Nat.sub_add_cancel (Nat.pos_of_ne_zero hb)] at this
  have hhigh := magnitude_lt_succ b
  exact .inl ⟨by linarith, by linarith⟩

/-- A magnitude whose number is a multiple of the unit has one. -/
theorem nearestMultiple_of_eq {b d : ℕ} {u : ℚ} (hb : b ≠ 0) (hu : 0 < u) (h : magnitude b = d * u) :
    nearestMultiple b u ≠ none := by
  have hround := roundsTo_magnitude hb
  have hquot : magnitude b / u = d := by rw [h, mul_div_cancel_right₀ _ hu.ne']
  have hown : RoundsTo b (d * u) := h ▸ hround
  intro hnone
  simp only [nearestMultiple, hquot, Int.floor_natCast, Int.toNat_natCast, hown, decide_true] at hnone
  split at hnone
  · split at hnone <;> cases hnone
  · cases hnone
  · rename_i h₀ _
    exact absurd h₀ (by decide)
  · rename_i h₀ _
    exact absurd h₀ (by decide)

theorem dot_notMem_toDigits (n : ℕ) : '.' ∉ Nat.toDigits 10 n := by
  intro h
  have := Nat.isDigit_of_mem_toDigits (by norm_num) (by norm_num) h
  exact absurd this (by decide)

/-! ### Only integers are printed without a decimal point -/

theorem magnitude_strictMono : StrictMono magnitude := strictMono_nat_of_lt_succ magnitude_lt_succ

/-- From `2 ^ 23` on, where the spacing is at least `1`, there are only integers. -/
theorem lt_of_not_natCast {b : ℕ} (h : ∀ k : ℕ, magnitude b ≠ k) : b < 150 * 2 ^ 23 := by
  by_contra hle
  apply h ((2 ^ 23 + b % 2 ^ 23) * 2 ^ (b / 2 ^ 23 - 150))
  have hexp : ((b / 2 ^ 23 : ℕ) : ℤ) - 150 = ((b / 2 ^ 23 - 150 : ℕ) : ℤ) := by omega
  rw [magnitude]
  rw [if_neg (by omega), hexp, zpow_natCast]
  push_cast
  ring

/-- Below that, the only magnitude an integer rounds to is its own. -/
theorem magnitude_eq_of_roundsTo {b m : ℕ} (hb : b ≠ 0) (hlt : b < 150 * 2 ^ 23) (h : RoundsTo b m) :
    magnitude b = m := by
  have hlow : magnitude (b - 1) < magnitude b := magnitude_strictMono (Nat.sub_one_lt hb)
  have hhigh : magnitude b < magnitude (b + 1) := magnitude_lt_succ b
  have hbounds : magnitude (b - 1) < m ∧ (m : ℚ) < magnitude (b + 1) := by
    rcases h with ⟨hlo, hhi⟩ | ⟨-, heq | heq⟩
    · exact ⟨by linarith, by linarith⟩
    · exact ⟨by linarith, by linarith⟩
    · exact ⟨by linarith, by linarith⟩
  have hmax : magnitude (150 * 2 ^ 23) = 2 ^ 23 := by norm_num [magnitude]
  have hsmall : (m : ℚ) < 2 ^ 23 := by
    calc (m : ℚ) < magnitude (b + 1) := hbounds.2
      _ ≤ magnitude (150 * 2 ^ 23) := magnitude_strictMono.monotone hlt
      _ = 2 ^ 23 := hmax
  have hnat : m < 2 ^ 23 := by exact_mod_cast hsmall
  obtain ⟨hround, -⟩ := magnitude_roundMagnitude (show m < 2 ^ 24 by omega)
  rw [← hround, magnitude_strictMono.lt_iff_lt, magnitude_strictMono.lt_iff_lt] at hbounds
  rw [← hround, show roundMagnitude m = b by omega]

/-- A multiple that is chosen rounds to the magnitude. -/
theorem roundsTo_of_nearestMultiple {b d : ℕ} {u : ℚ} (h : nearestMultiple b u = some d) : RoundsTo b (d * u) := by
  unfold nearestMultiple at h
  dsimp only at h
  split at h
  · rename_i h₀ h₁
    split at h <;> cases h
    · exact of_decide_eq_true h₀
    · exact of_decide_eq_true h₁
  · rename_i h₀ _
    cases h
    exact of_decide_eq_true h₀
  · rename_i _ h₁
    cases h
    exact of_decide_eq_true h₁
  · cases h

/-- All magnitudes are multiples of the least power of ten tried. -/
theorem magnitude_eq_mul_pow_ten (b : ℕ) : ∃ d : ℕ, magnitude b = d * (10 : ℚ) ^ (-149 : ℤ) := by
  have hten : (2 : ℚ) ^ (-149 : ℤ) = (5 ^ 149 : ℕ) * (10 : ℚ) ^ (-149 : ℤ) := by
    rw [zpow_neg, zpow_neg, show (10 : ℚ) = 2 * 5 by norm_num, mul_zpow]
    push_cast
    field_simp
  by_cases hb : b < 2 ^ 23
  · exact ⟨b * 5 ^ 149, by rw [magnitude, if_pos hb, hten]; push_cast; ring⟩
  · refine ⟨(2 ^ 23 + b % 2 ^ 23) * 2 ^ (b / 2 ^ 23 - 1) * 5 ^ 149, ?_⟩
    have hexp : ((b / 2 ^ 23 : ℕ) : ℤ) - 150 = ((b / 2 ^ 23 - 1 : ℕ) : ℤ) + -149 := by omega
    rw [magnitude, if_neg hb, hexp, zpow_add₀ (by norm_num), hten, zpow_natCast]
    push_cast
    ring

/-- When the magnitude is not an integer, the search ends below the unit `1`. -/
theorem shortest_of_not_natCast {b : ℕ} (hb : b ≠ 0) (h : ∀ k : ℕ, magnitude b ≠ k) (n : ℕ) (e : ℤ) (he : -149 ≤ e)
    (hn : e < n - 149) : ∃ d e', shortest b n e = some (d, e') ∧ e' < 0 := by
  induction n generalizing e with
  | zero => omega
  | succ n ih =>
    rw [shortest]
    cases hm : nearestMultiple b ((10 : ℚ) ^ e) with
    | some d =>
      refine ⟨d, e, rfl, ?_⟩
      by_contra hpos
      -- a multiple of a power of ten from `1` on is an integer, and none of them rounds to `b`
      have hround := roundsTo_of_nearestMultiple hm
      rw [show e = (e.toNat : ℤ) by omega, zpow_natCast] at hround
      apply h (d * 10 ^ e.toNat)
      exact magnitude_eq_of_roundsTo hb (lt_of_not_natCast h) (by exact_mod_cast hround)
    | none =>
      by_cases hlast : e = -149
      · obtain ⟨d, hd⟩ := magnitude_eq_mul_pow_ten b
        exact absurd (hlast ▸ hm) (nearestMultiple_of_eq hb (by positivity) hd)
      · exact ih (e - 1) (by omega) (by omega)

/-- **The text of a float that denotes no integer has digits after a decimal point.** -/
theorem exists_fraction_display {f : F32} {q : ℚ} (h : f.datum = .num q) (hq : ∀ n : ℤ, q ≠ n) :
    ∃ whole frac, f.display = whole ++ '.' :: frac ∧ '.' ∉ whole ∧ frac ≠ [] := by
  rw [F32.datum] at h
  split at h
  case isFalse => split at h <;> cases h
  rename_i hfin
  rw [Datum.num.injEq] at h
  have hnat : ∀ k : ℕ, magnitude f.mag ≠ k := by
    intro k hk
    rw [hk] at h
    split at h
    · exact hq (-k) (by rw [← h]; push_cast; rfl)
    · exact hq k (by rw [← h]; push_cast; rfl)
  have hb : f.mag ≠ 0 := fun h0 => hnat 0 (by rw [h0]; norm_num [magnitude])
  obtain ⟨d, e, hs, he⟩ := shortest_of_not_natCast hb hnat 188 38 (by norm_num) (by norm_num)
  have htext : displayMag f.mag = decimal d e := by rw [displayMag, if_neg hb, hs]
  rw [decimal, if_neg (not_le.mpr he)] at htext
  let frac := Nat.toDigits 10 (d % 10 ^ (-e).toNat)
  refine ⟨(if f.neg then ['-'] else []) ++ Nat.toDigits 10 (d / 10 ^ (-e).toNat),
    List.replicate ((-e).toNat - frac.length) '0' ++ frac, ?_, ?_, ?_⟩
  · rw [F32.display, if_pos hfin, htext, List.append_assoc]
  · rw [List.mem_append, not_or]
    refine ⟨?_, dot_notMem_toDigits _⟩
    split <;> decide
  · exact List.append_ne_nil_of_right_ne_nil _ (Nat.toDigits_ne_nil)

/-! ### Floats of one value -/

theorem magnitude_pos {b : ℕ} (hb : b ≠ 0) : 0 < magnitude b := by
  have hzero : magnitude 0 = 0 := by norm_num [magnitude]
  rw [← hzero]
  exact magnitude_strictMono (Nat.pos_of_ne_zero hb)

/-- **A number but zero has one pattern**, and so has each infinity. -/
theorem eq_of_datum_eq {f g : F32} (h : f.datum = g.datum) (hnan : f.datum ≠ .nan) (hzero : f.datum ≠ .num 0) :
    f = g := by
  unfold F32.datum at h hnan hzero
  by_cases hf : f.mag < infMagnitude
  · have hg : g.mag < infMagnitude := by
      by_contra hg
      rw [if_pos hf, if_neg hg] at h
      split_ifs at h
    rw [if_pos hf, if_pos hg, Datum.num.injEq] at h
    rw [if_pos hf] at hzero
    have hmag : f.mag ≠ 0 := fun h0 => hzero (by rw [h0]; norm_num [magnitude])
    have hmag' : g.mag ≠ 0 := by
      intro h0
      apply hzero
      rw [h, h0]
      norm_num [magnitude]
    have hpos := magnitude_pos hmag
    have hpos' := magnitude_pos hmag'
    have hneg : f.neg = g.neg := by
      cases hfn : f.neg <;> cases hgn : g.neg <;> simp only [hfn, hgn, if_true, Bool.false_eq_true, if_false] at h <;>
        first | rfl | linarith
    refine F32.ext_mag hneg (magnitude_strictMono.injective ?_)
    rw [hneg] at h
    split_ifs at h
    · exact neg_injective h
    · exact h
  · rw [if_neg hf] at h hnan
    have hinf : f.mag = infMagnitude := by
      by_contra hne
      exact hnan (if_neg hne)
    rw [if_pos hinf] at h
    split_ifs at h with hg hg'
    exact F32.ext_mag (Datum.inf.inj h) (hinf.trans hg'.symm)

end RctPower.Lib.Binary32
