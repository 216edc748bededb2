import RctPower.Lib.Rounding
import RctPower.Lib.Text

/-!
# Decimal fractions and floats

The text of a decimal fraction (`Fraction`) and what parsing makes of it (`parseF32_chars`), and the text
of a float: whether it has a decimal point, how many digits are behind it (`fractionDigits_display_le_iff`),
and that it is read back (`parseF32_display`).
-/

namespace RctPower.Lib.Rust

open RctPower.Lib.Binary32

/-! ### Decimal fractions -/

/-- A sign as it is written. -/
inductive Sign where
  | none | plus | minus
  deriving DecidableEq

/-- How it is written. -/
def Sign.chars : Sign → List Char
  | .none => []
  | .plus => ['+']
  | .minus => ['-']

/-- A decimal fraction as it is written: digits, a point, and digits. -/
structure Fraction where
  /-- The sign. -/
  sign : Sign
  /-- The digits before the point. -/
  whole : List Char
  /-- The digits after it. -/
  frac : List Char
  /-- They are digits. -/
  digits : ∀ c ∈ whole ++ frac, c.isDigit = true
  /-- There is one. -/
  nonempty : whole ++ frac ≠ []

namespace Fraction

/-- How it is written without its sign. -/
def unsigned (t : Fraction) : List Char := t.whole ++ '.' :: t.frac

/-- How it is written. -/
def chars (t : Fraction) : List Char := t.sign.chars ++ t.unsigned

/-- It is negative. -/
def negative (t : Fraction) : Bool := decide (t.sign = .minus)

/-- Its size. -/
def magnitude (t : Fraction) : ℚ := (Nat.ofDigitChars 10 (t.whole ++ t.frac) 0 : ℕ) * (10 : ℚ) ^ (-(t.frac.length : ℤ))

/-- The number. -/
def number (t : Fraction) : ℚ := if t.negative then -t.magnitude else t.magnitude

variable (t : Fraction)

theorem magnitude_nonneg : 0 ≤ t.magnitude := by
  unfold magnitude
  positivity

theorem dot_notMem_of_digits {cs : List Char} (hdigits : ∀ c ∈ cs, c.isDigit = true) : '.' ∉ cs := by
  intro hmem
  exact absurd (hdigits _ hmem) (by decide)

theorem whole_digits : ∀ c ∈ t.whole, c.isDigit = true := fun c hc => t.digits c (List.mem_append_left _ hc)

theorem frac_digits : ∀ c ∈ t.frac, c.isDigit = true := fun c hc => t.digits c (List.mem_append_right _ hc)

/-- What is cut at the point. -/
theorem cut_unsigned {p : Char → Bool} (hp : ∀ c, p c = decide (c ≠ '.')) :
    t.unsigned.takeWhile p = t.whole ∧ t.unsigned.dropWhile p = '.' :: t.frac := by
  have hwhole : ∀ c ∈ t.whole, p c = true := by
    intro c hc
    rw [hp, decide_eq_true_iff]
    rintro rfl
    exact dot_notMem_of_digits t.whole_digits hc
  have hdot : p '.' = false := by simp [hp]
  rw [unsigned]
  constructor
  · rw [List.takeWhile_append_of_pos hwhole]
    simp [hdot]
  · rw [List.dropWhile_append_of_pos hwhole]
    simp [hdot]

theorem parseDecimal_unsigned :
    parseDecimal t.unsigned = some (Nat.ofDigitChars 10 (t.whole ++ t.frac) 0, t.frac.length) := by
  obtain ⟨htake, hdrop⟩ := t.cut_unsigned (p := (· ≠ '.')) fun _ => rfl
  simp only [parseDecimal, htake, hdrop, List.drop_succ_cons, List.drop_zero,
    parseDigits_of_digits t.digits t.nonempty, Option.map_some]

/-- There are only digits and the point. -/
theorem isDigit_or_eq_of_mem {c : Char} (hc : c ∈ t.unsigned) : c.isDigit = true ∨ c = '.' := by
  rcases List.mem_append.mp hc with hc | hc
  · exact .inl (t.whole_digits c hc)
  · rcases List.mem_cons.mp hc with rfl | hc
    · exact .inr rfl
    · exact .inl (t.frac_digits c hc)

/-- Other characters do not occur. -/
theorem notMem_unsigned {c : Char} (hdigit : c.isDigit = false) (hdot : c ≠ '.') : c ∉ t.unsigned := by
  intro hmem
  rcases t.isDigit_or_eq_of_mem hmem with h | h
  · rw [hdigit] at h
    cases h
  · exact hdot h

theorem parseSign_chars : parseSign t.chars = (t.negative, t.unsigned) := by
  have hplain : parseSign t.unsigned = (false, t.unsigned) := by
    unfold parseSign
    split
    · next cs heq => exact absurd (heq ▸ List.mem_cons_self) (t.notMem_unsigned (c := '-') (by decide) (by decide))
    · next cs heq => exact absurd (heq ▸ List.mem_cons_self) (t.notMem_unsigned (c := '+') (by decide) (by decide))
    · rfl
  unfold chars negative
  cases t.sign
  · exact hplain
  · rfl
  · rfl

/-- **A decimal fraction is parsed as the float nearest to it.** -/
theorem parseF32_chars : parseF32 (String.ofList t.chars) = some (.ofRat t.negative t.magnitude) := by
  have hdot : '.' ∈ t.unsigned.map Char.toLower :=
    List.mem_map.mpr ⟨'.', List.mem_append_right _ List.mem_cons_self, rfl⟩
  have hname : ∀ name : List Char, '.' ∉ name → t.unsigned.map Char.toLower ≠ name := by
    rintro name hname rfl
    exact hname hdot
  have hexp : ∀ c ∈ t.unsigned, (decide (c = 'e') || decide (c = 'E')) = false := by
    intro c hc
    rw [Bool.or_eq_false_iff, decide_eq_false_iff_not, decide_eq_false_iff_not]
    constructor
    · rintro rfl
      exact t.notMem_unsigned (by decide) (by decide) hc
    · rintro rfl
      exact t.notMem_unsigned (by decide) (by decide) hc
  have htake : t.unsigned.takeWhile (fun c => !(decide (c = 'e') || decide (c = 'E'))) = t.unsigned :=
    List.takeWhile_eq_self_iff.mpr fun c hc => by rw [hexp c hc]; rfl
  have hany : t.unsigned.any (fun c => decide (c = 'e') || decide (c = 'E')) = false := by
    rw [List.any_eq_false]
    intro c hc
    rw [hexp c hc]
    exact Bool.false_ne_true
  simp only [parseF32, String.toList_ofList, parseSign_chars, hname "inf".toList (by decide),
    hname "infinity".toList (by decide), hname "nan".toList (by decide), or_self, if_false, hany, htake,
    parseDecimal_unsigned, Bool.false_eq_true, zero_sub, magnitude]

end Fraction

/-! ### The text of a float -/

/-- The digits after the decimal point of a text. -/
def fractionDigits (cs : List Char) : List Char := (cs.dropWhile (· ≠ '.')).drop 1

theorem fractionDigits_of_notMem {cs : List Char} (h : '.' ∉ cs) : fractionDigits cs = [] := by
  have hdrop : cs.dropWhile (fun c => decide (c ≠ '.')) = [] := by
    rw [List.dropWhile_eq_nil_iff]
    intro c hc
    rw [decide_eq_true_iff]
    rintro rfl
    exact h hc
  rw [fractionDigits, hdrop]
  rfl

theorem Fraction.fractionDigits_chars (t : Fraction) : fractionDigits t.chars = t.frac := by
  have hsign : ∀ c ∈ t.sign.chars, decide (c ≠ '.') = true := by
    cases t.sign <;> simp [Sign.chars]
  obtain ⟨-, hdrop⟩ := t.cut_unsigned (p := (· ≠ '.')) fun _ => rfl
  rw [fractionDigits, chars, List.dropWhile_append_of_pos hsign, hdrop]
  rfl

/-- The digits of an integer are read back, with a sign before them. -/
theorem parseInt_signed (neg : Bool) (n : ℕ) :
    parseInt ((if neg then ['-'] else []) ++ Nat.toDigits 10 n) = some (if neg then -(n : ℤ) else n) := by
  have hdigits : parseDigits (Nat.toDigits 10 n) = some n := parseDigits_formatNat n
  have hplain : parseSign (Nat.toDigits 10 n) = (false, Nat.toDigits 10 n) := by
    unfold parseSign
    split
    · next cs heq =>
      have hmem : '-' ∈ Nat.toDigits 10 n := heq ▸ List.mem_cons_self
      exact absurd (isDigit_of_mem_formatNat hmem) (by decide)
    · next cs heq =>
      have hmem : '+' ∈ Nat.toDigits 10 n := heq ▸ List.mem_cons_self
      exact absurd (isDigit_of_mem_formatNat hmem) (by decide)
    · rfl
  cases neg with
  | true => simp [parseInt, parseSign, hdigits]
  | false => simp [parseInt, hplain, hdigits]

/-- The text of an integer is read back. -/
theorem parseInt_toString (n : ℤ) : parseInt (toString n).toList = some n := by
  cases n with
  | ofNat m =>
    have htext : (toString (Int.ofNat m)).toList = Nat.toDigits 10 m := by
      simp [toString, Int.repr, Nat.repr]
    rw [htext]
    exact parseInt_signed false m
  | negSucc m =>
    have htext : (toString (Int.negSucc m)).toList = '-' :: Nat.toDigits 10 (m + 1) := by
      simp [toString, Int.repr, Nat.repr]
    rw [htext]
    exact parseInt_signed true (m + 1)

/-- **A multiple of a negative power of ten** is written as a decimal fraction, with as many digits
after the point as the power has. -/
theorem exists_fraction_decimal (sign : Sign) (d : ℕ) {e : ℤ} (he : e < 0) :
    ∃ t : Fraction, t.sign = sign ∧ decimal d e = t.unsigned ∧ t.magnitude = d * (10 : ℚ) ^ e ∧
      t.frac.length = (-e).toNat := by
  have hm : 0 < (-e).toNat := by omega
  have hlt : d % 10 ^ (-e).toNat < 10 ^ (-e).toNat := Nat.mod_lt _ (by positivity)
  have hlength := (Nat.length_toDigits_le_iff (by norm_num) hm).mpr hlt
  let whole := Nat.toDigits 10 (d / 10 ^ (-e).toNat)
  let rest := Nat.toDigits 10 (d % 10 ^ (-e).toNat)
  let frac := List.replicate ((-e).toNat - rest.length) '0' ++ rest
  have hfrac : frac.length = (-e).toNat := by
    rw [List.length_append, List.length_replicate]
    exact Nat.sub_add_cancel hlength
  have hdigits : ∀ c ∈ whole ++ frac, c.isDigit = true := by
    intro c hc
    rcases List.mem_append.mp hc with hc | hc
    · exact isDigit_of_mem_formatNat hc
    · rcases List.mem_append.mp hc with hc | hc
      · rw [List.eq_of_mem_replicate hc]
        decide
      · exact isDigit_of_mem_formatNat hc
  have hvalue : Nat.ofDigitChars 10 (whole ++ frac) 0 = d := by
    rw [Nat.ofDigitChars_append, Nat.ofDigitChars_ten_toDigits, Nat.ofDigitChars_append,
      Nat.ofDigitChars_replicate_zero, Nat.ofDigitChars_eq_ofDigitChars_zero, Nat.ofDigitChars_ten_toDigits,
      ← Nat.mul_assoc, ← Nat.pow_add, Nat.add_sub_cancel' hlength]
    exact Nat.div_add_mod d _
  refine ⟨⟨sign, whole, frac, hdigits, List.append_ne_nil_of_left_ne_nil Nat.toDigits_ne_nil _⟩, rfl, ?_, ?_, hfrac⟩
  · rw [decimal, if_neg (not_le.mpr he)]
    rfl
  · rw [Fraction.magnitude]
    dsimp only
    rw [hvalue, hfrac, Int.toNat_of_nonneg (by omega), neg_neg]

/-- Every decimal number is written as a decimal fraction. -/
theorem exists_fraction (sign : Sign) (n k : ℕ) :
    ∃ t : Fraction, t.sign = sign ∧ t.frac.length = k ∧ t.magnitude = n * (10 : ℚ) ^ (-(k : ℤ)) := by
  rcases Nat.eq_zero_or_pos k with rfl | hk
  · have hdigits : ∀ c ∈ Nat.toDigits 10 n ++ [], c.isDigit = true := by
      rw [List.append_nil]
      exact fun c hc => isDigit_of_mem_formatNat hc
    refine ⟨⟨sign, Nat.toDigits 10 n, [], hdigits, ?_⟩, rfl, rfl, ?_⟩
    · rw [List.append_nil]
      exact Nat.toDigits_ne_nil
    · rw [Fraction.magnitude]
      dsimp only
      rw [List.append_nil, Nat.ofDigitChars_ten_toDigits, List.length_nil]
  · obtain ⟨t, hsign, -, hvalue, hlength⟩ := exists_fraction_decimal sign n (e := -(k : ℤ)) (by omega)
    exact ⟨t, hsign, by omega, hvalue⟩

section Display

variable {f : F32}

/-- The sign of a float as it is written. -/
def signOf (f : F32) : Sign := if f.neg then .minus else .none

/-- What the text of a magnitude is made of: the shortest decimal that rounds to it. -/
theorem exists_shortest {b : ℕ} (hb : b ≠ 0) :
    ∃ d e, shortest b 188 38 = some (d, e) ∧ -149 ≤ e ∧ RoundsTo b (d * (10 : ℚ) ^ e) ∧ displayMag b = decimal d e := by
  obtain ⟨m, hm⟩ := magnitude_eq_mul_pow_ten b
  have hmultiple := nearestMultiple_of_eq hb (by positivity) hm
  obtain ⟨d, e, hshortest, he, hround⟩ := shortest_of_multiple hmultiple 188 38 (by norm_num) (by norm_num)
  exact ⟨d, e, hshortest, he, hround, by rw [displayMag, if_neg hb, hshortest]⟩

/-- The digits after the point are those of the power of ten. -/
theorem fractionDigits_display (hfinite : f.mag < infMagnitude) (hb : f.mag ≠ 0) {d : ℕ} {e : ℤ}
    (hshortest : shortest f.mag 188 38 = some (d, e)) :
    (fractionDigits f.display).length = (-e).toNat ∧ ∀ c ∈ fractionDigits f.display, c.isDigit = true := by
  have htext : f.display = (signOf f).chars ++ decimal d e := by
    rw [F32.display, if_pos hfinite, displayMag, if_neg hb, hshortest, signOf]
    cases f.neg <;> rfl
  rcases lt_or_ge e 0 with he | he
  · obtain ⟨t, hsign, htext', -, hlength⟩ := exists_fraction_decimal (signOf f) d he
    rw [htext, htext', ← hsign, show t.sign.chars ++ t.unsigned = t.chars from rfl, t.fractionDigits_chars]
    exact ⟨hlength, t.frac_digits⟩
  · have hdot : '.' ∉ f.display := by
      rw [htext, decimal, if_pos he, List.mem_append, not_or]
      refine ⟨?_, dot_notMem_toDigits _⟩
      cases signOf f <;> decide
    rw [fractionDigits_of_notMem hdot, List.length_nil]
    exact ⟨by omega, fun c hc => absurd hc List.not_mem_nil⟩

/-- The text of zero has no digits after a point. -/
theorem fractionDigits_display_zero (hb : f.mag = 0) : fractionDigits f.display = [] := by
  have hfinite : f.mag < infMagnitude := by
    rw [hb]
    decide
  rw [F32.display, if_pos hfinite, displayMag, if_pos hb]
  cases f.neg <;> rfl

/-- What is after the point of a finite float's text are digits. -/
theorem isDigit_of_mem_fractionDigits (hfinite : f.mag < infMagnitude) :
    ∀ c ∈ fractionDigits f.display, c.isDigit = true := by
  by_cases hb : f.mag = 0
  · rw [fractionDigits_display_zero hb]
    exact fun c hc => absurd hc List.not_mem_nil
  · obtain ⟨d, e, hshortest, -⟩ := exists_shortest hb
    exact (fractionDigits_display hfinite hb hshortest).2

/-- **The text of a float has at most `k` digits after its point** exactly when a decimal with `k`
digits there has this float as the nearest. -/
theorem fractionDigits_display_le_iff (hfinite : f.mag < infMagnitude) (hb : f.mag ≠ 0) (k : ℕ) :
    (fractionDigits f.display).length ≤ k ↔ ∃ n : ℕ, RoundsTo f.mag (n * (10 : ℚ) ^ (-(k : ℤ))) := by
  obtain ⟨d, e, hshortest, he, hround, -⟩ := exists_shortest hb
  rw [(fractionDigits_display hfinite hb hshortest).1]
  constructor
  · intro hk
    refine ⟨d * 10 ^ (e + k).toNat, ?_⟩
    have hpow : (d * 10 ^ (e + k).toNat : ℕ) * (10 : ℚ) ^ (-(k : ℤ)) = d * (10 : ℚ) ^ e := by
      push_cast
      rw [mul_assoc, ← zpow_natCast, ← zpow_add₀ (by norm_num)]
      congr 2
      omega
    rwa [hpow]
  · rintro ⟨n, hn⟩
    rcases lt_or_ge k 150 with hk | hk
    · have hmultiple := nearestMultiple_ne_none hb (by positivity) hn
      obtain ⟨d', e', hshortest', he', -⟩ := shortest_of_multiple hmultiple 188 38 (by omega) (by omega)
      rw [hshortest, Option.some.injEq, Prod.mk.injEq] at hshortest'
      omega
    · omega

/-- What rounds to a positive magnitude is positive. -/
theorem pos_of_roundsTo {b : ℕ} {x : ℚ} (hb : b ≠ 0) (h : RoundsTo b x) : 0 < x := by
  have hzero : magnitude 0 ≤ magnitude (b - 1) := magnitude_strictMono.monotone (Nat.zero_le _)
  have hpos := magnitude_pos hb
  linarith [h.bounds.1, magnitude_zero]

/-- The float nearest to a number that rounds to the float's magnitude. -/
theorem ofRat_eq_of_roundsTo (hfinite : f.mag < infMagnitude) (hb : f.mag ≠ 0) {x : ℚ} (h : RoundsTo f.mag x) :
    F32.ofRat f.neg x = f := by
  have hround := (roundMagnitude_eq_iff (pos_of_roundsTo hb h) hfinite).mpr h
  have hlt := lt_trans hfinite infMagnitude_lt
  rw [F32.ofRat, hround]
  exact F32.ext_mag (F32.neg_ofMag hlt) (F32.mag_ofMag hlt)

theorem neg_ofRat (neg : Bool) (x : ℚ) : (F32.ofRat neg x).neg = neg :=
  F32.neg_ofMag (lt_of_le_of_lt (roundMagnitude_le x) infMagnitude_lt)

theorem mag_ofRat (neg : Bool) (x : ℚ) : (F32.ofRat neg x).mag = roundMagnitude x :=
  F32.mag_ofMag (lt_of_le_of_lt (roundMagnitude_le x) infMagnitude_lt)

/-- **The text of a finite float has at most `k` digits after its point** exactly when some fraction with at
most `k` digits there is parsed as this float. -/
theorem fractionDigits_display_le_iff_exists (hfinite : f.mag < infMagnitude) (k : ℕ) :
    (fractionDigits f.display).length ≤ k ↔
      ∃ t : Fraction, t.frac.length ≤ k ∧ parseF32 (String.ofList t.chars) = some f := by
  have hnegative : ∀ t : Fraction, t.sign = signOf f → t.negative = f.neg := by
    intro t hsign
    rw [Fraction.negative, hsign, signOf]
    cases f.neg <;> rfl
  by_cases hb : f.mag = 0
  · rw [fractionDigits_display_zero hb]
    obtain ⟨t, hsign, hlength, hvalue⟩ := exists_fraction (signOf f) 0 0
    refine iff_of_true (Nat.zero_le k) ⟨t, by omega, ?_⟩
    rw [t.parseF32_chars, hvalue, hnegative t hsign, Nat.cast_zero, zero_mul]
    refine congrArg some (F32.ext_mag (neg_ofRat _ _) ?_)
    rw [mag_ofRat, roundMagnitude_zero, hb]
  · rw [fractionDigits_display_le_iff hfinite hb]
    constructor
    · rintro ⟨n, hn⟩
      obtain ⟨t, hsign, hlength, hvalue⟩ := exists_fraction (signOf f) n k
      refine ⟨t, hlength.le, ?_⟩
      rw [t.parseF32_chars, hvalue, hnegative t hsign, ofRat_eq_of_roundsTo hfinite hb hn]
    · rintro ⟨t, hlength, hparse⟩
      rw [t.parseF32_chars, Option.some.injEq] at hparse
      have hround : roundMagnitude t.magnitude = f.mag := by rw [← hparse, mag_ofRat]
      have hpos : 0 < t.magnitude := by
        refine t.magnitude_nonneg.lt_of_ne' fun hzero => hb ?_
        rw [← hround, hzero, roundMagnitude_zero]
      have hto := (roundMagnitude_eq_iff hpos hfinite).mp hround
      refine ⟨Nat.ofDigitChars 10 (t.whole ++ t.frac) 0 * 10 ^ (k - t.frac.length), ?_⟩
      have hpow : (10 : ℚ) ^ (k - t.frac.length) * (10 : ℚ) ^ (-(k : ℤ)) = (10 : ℚ) ^ (-(t.frac.length : ℤ)) := by
        rw [← zpow_natCast, ← zpow_add₀ (by norm_num)]
        congr 1
        omega
      push_cast
      rwa [mul_assoc, hpow]

/-! ### What a number is rounded to -/

/-- The halfway point between the greatest finite float and `2 ^ 128`. -/
def overflowThreshold : ℚ := (magnitude (infMagnitude - 1) + magnitude infMagnitude) / 2

/-- The float that a number is rounded to, given its sign and its size: the nearest one, the even one of two that
are equally near, and infinity from the threshold on. -/
structure IsRounded (neg : Bool) (x : ℚ) (f : F32) : Prop where
  /-- The sign is kept. -/
  sign : f.neg = neg
  /-- Below the threshold, the number rounds to a finite float. -/
  finite : x < overflowThreshold → f.mag < infMagnitude ∧ RoundsTo f.mag x
  /-- From it on, to infinity. -/
  infinite : overflowThreshold ≤ x → f.mag = infMagnitude

/-- The finite magnitudes are those that numbers below the threshold round to. -/
theorem finite_iff_of_roundsTo {b : ℕ} {x : ℚ} (h : RoundsTo b x) : b < infMagnitude ↔ x < overflowThreshold := by
  rw [overflowThreshold]
  constructor
  · intro hb
    have hle : magnitude b ≤ magnitude (infMagnitude - 1) := magnitude_strictMono.monotone (by omega)
    have hle' : magnitude (b + 1) ≤ magnitude infMagnitude := magnitude_strictMono.monotone hb
    refine lt_of_le_of_ne (by linarith [h.bounds.2]) fun heq => ?_
    -- the greatest finite magnitude is odd, and the halfway point above it does not round to it
    have heven := h.even (.inr (by linarith [h.bounds.2]))
    obtain rfl : b = infMagnitude - 1 := magnitude_strictMono.injective (by linarith [h.bounds.2])
    revert heven
    decide
  · intro hx
    by_contra hb
    have hle : magnitude (infMagnitude - 1) ≤ magnitude (b - 1) := magnitude_strictMono.monotone (by omega)
    have hle' : magnitude infMagnitude ≤ magnitude b := magnitude_strictMono.monotone (by omega)
    linarith [h.bounds.1]

/-- Zero rounds to zero. -/
theorem roundsTo_zero : RoundsTo 0 0 := .inr ⟨rfl, .inl (by norm_num [magnitude_zero])⟩

/-- What `ofRat` makes of the size of a number. -/
theorem roundsTo_roundMagnitude {x : ℚ} (hx : 0 ≤ x) :
    ∃ b, RoundsTo b x ∧ roundMagnitude x = min b infMagnitude := by
  rcases hx.eq_or_lt with rfl | hx
  · exact ⟨0, roundsTo_zero, roundMagnitude_zero⟩
  · exact ⟨_, roundsTo_roundUnbounded hx, roundMagnitude_eq_min hx⟩

/-- **`ofRat` is correct**: what a number is rounded to is the float that it computes, and no other. -/
theorem isRounded_iff (neg : Bool) {x : ℚ} (hx : 0 ≤ x) : IsRounded neg x f ↔ f = .ofRat neg x := by
  obtain ⟨b, hb, hround⟩ := roundsTo_roundMagnitude hx
  constructor
  · intro h
    refine F32.ext_mag (h.sign.trans (neg_ofRat neg x).symm) ?_
    rw [mag_ofRat, hround]
    by_cases hlt : x < overflowThreshold
    · obtain ⟨hfinite, hto⟩ := h.finite hlt
      rw [hto.unique hb] at hfinite ⊢
      exact (min_eq_left hfinite.le).symm
    · rw [h.infinite (not_lt.mp hlt), min_eq_right (not_lt.mp (mt (finite_iff_of_roundsTo hb).mp hlt))]
  · rintro rfl
    refine ⟨neg_ofRat neg x, ?_, ?_⟩
    · intro hlt
      have hfinite := (finite_iff_of_roundsTo hb).mpr hlt
      rw [mag_ofRat, hround, min_eq_left hfinite.le]
      exact ⟨hfinite, hb⟩
    · intro hle
      rw [mag_ofRat, hround, min_eq_right (not_lt.mp (mt (finite_iff_of_roundsTo hb).mp (not_lt.mpr hle)))]

/-- No float is nearer to the number. -/
def IsNearest (q : ℚ) (f : F32) : Prop := ∃ x, f.datum = .num x ∧ ∀ g y, F32.datum g = .num y → |q - x| ≤ |q - y|

/-- The number of a finite float. -/
theorem datum_of_finite (hfinite : f.mag < infMagnitude) :
    f.datum = .num (if f.neg then -magnitude f.mag else magnitude f.mag) := if_pos hfinite

theorem finite_of_datum {q : ℚ} (h : f.datum = .num q) :
    f.mag < infMagnitude ∧ (if f.neg then -magnitude f.mag else magnitude f.mag) = q := by
  by_cases hfinite : f.mag < infMagnitude
  · rw [datum_of_finite hfinite, Datum.num.injEq] at h
    exact ⟨hfinite, h⟩
  · rw [F32.datum, if_neg hfinite] at h
    split at h <;> cases h

theorem datum_ofRat (neg : Bool) {x : ℚ} (hx : 0 ≤ x) (hfinite : roundMagnitude x < infMagnitude) :
    (F32.ofRat neg x).datum = .num (nearestValue (if neg then -x else x)) := by
  rw [datum_of_finite (by rwa [mag_ofRat]), neg_ofRat, mag_ofRat, nearestValue_signed neg hx]

/-- **Rounding gives a nearest float**, among all of both signs. -/
theorem isNearest_ofRat (neg : Bool) {x : ℚ} (hx : 0 ≤ x) (hfinite : (F32.ofRat neg x).mag < infMagnitude) :
    IsNearest (if neg then -x else x) (.ofRat neg x) := by
  refine ⟨_, datum_of_finite hfinite, fun g y hy => ?_⟩
  rw [mag_ofRat] at hfinite
  rw [neg_ofRat, mag_ofRat]
  have hbest : |x - magnitude (roundMagnitude x)| ≤ |x - magnitude g.mag| := by
    rcases hx.eq_or_lt with rfl | hx
    · rw [roundMagnitude_zero, magnitude_zero, sub_zero, abs_zero]
      exact abs_nonneg _
    · exact abs_sub_roundMagnitude_le hx hfinite _
  have hsize : |y| = magnitude g.mag := by
    obtain ⟨-, rfl⟩ := finite_of_datum hy
    cases g.neg
    · exact abs_of_nonneg (magnitude_nonneg _)
    · simp [abs_of_nonneg (magnitude_nonneg _)]
  have hown : |if neg then -x else x| = x := by
    cases neg
    · exact abs_of_nonneg hx
    · simp [abs_of_nonneg hx]
  calc |(if neg then -x else x) - if neg then -magnitude (roundMagnitude x) else magnitude (roundMagnitude x)|
      = |x - magnitude (roundMagnitude x)| := by
        cases neg
        · rfl
        · rw [if_pos rfl, if_pos rfl, neg_sub_neg, abs_sub_comm]
    _ ≤ |x - magnitude g.mag| := hbest
    _ = |(|if neg then -x else x| - |y|)| := by rw [hown, hsize]
    _ ≤ |(if neg then -x else x) - y| := abs_abs_sub_abs_le _ _

/-- **The text of a float with a decimal point is read back.** -/
theorem parseF32_display (hfinite : f.mag < infMagnitude) (hdot : '.' ∈ f.display) :
    parseF32 (String.ofList f.display) = some f := by
  have hb : f.mag ≠ 0 := by
    intro hzero
    rw [F32.display, if_pos hfinite, displayMag, if_pos hzero] at hdot
    revert hdot
    cases f.neg <;> decide
  obtain ⟨d, e, -, -, hround, htext⟩ := exists_shortest hb
  have hdisplay : f.display = (signOf f).chars ++ decimal d e := by
    rw [F32.display, if_pos hfinite, htext, signOf]
    cases f.neg <;> rfl
  have he : e < 0 := by
    by_contra he
    rw [hdisplay, decimal, if_pos (not_lt.mp he), List.mem_append] at hdot
    rcases hdot with hdot | hdot
    · revert hdot
      cases signOf f <;> decide
    · exact dot_notMem_toDigits _ hdot
  obtain ⟨t, hsign, htext', hvalue, -⟩ := exists_fraction_decimal (signOf f) d he
  have hnegative : t.negative = f.neg := by
    rw [Fraction.negative, hsign, signOf]
    cases f.neg <;> rfl
  rw [hdisplay, htext', ← hsign, show t.sign.chars ++ t.unsigned = t.chars from rfl, t.parseF32_chars, hnegative,
    hvalue, ofRat_eq_of_roundsTo hfinite hb hround]

/-- **The text of a float without a decimal point** is that of an integer that rounds to it. -/
theorem parseInt_display (hfinite : f.mag < infMagnitude) (hdot : '.' ∉ f.display) :
    ∃ n : ℕ, parseInt f.display = some (if f.neg then -(n : ℤ) else n) ∧
      (f.mag = 0 ∧ n = 0 ∨ f.mag ≠ 0 ∧ RoundsTo f.mag n) := by
  rw [F32.display, if_pos hfinite] at hdot ⊢
  by_cases hb : f.mag = 0
  · refine ⟨0, ?_, .inl ⟨hb, rfl⟩⟩
    rw [displayMag, if_pos hb]
    exact parseInt_signed f.neg 0
  · obtain ⟨d, e, -, -, hround, htext⟩ := exists_shortest hb
    rw [htext] at hdot ⊢
    have he : 0 ≤ e := by
      by_contra he
      rw [decimal, if_neg he] at hdot
      simp at hdot
    rw [decimal, if_pos he]
    refine ⟨d * 10 ^ e.toNat, parseInt_signed f.neg _, .inr ⟨hb, ?_⟩⟩
    rw [← Int.toNat_of_nonneg he, zpow_natCast] at hround
    exact_mod_cast hround

/-- A float below `2 ^ 24` in size whose text has no decimal point is the integer that the text is parsed
as, and so is what that integer is converted to, but for the sign of zero. -/
theorem parseInt_display_small {q : ℚ} (hq : f.datum = .num q) (hlo : -2 ^ 24 < q) (hhi : q < 2 ^ 24)
    (hdot : '.' ∉ f.display) :
    ∃ n : ℤ, parseInt f.display = some n ∧ q = n ∧ (f.mag ≠ 0 → F32.ofInt n = f) := by
  obtain ⟨hfinite, hvalue⟩ := finite_of_datum hq
  obtain ⟨m, hparse, hcases⟩ := parseInt_display hfinite hdot
  refine ⟨_, hparse, ?_⟩
  rcases hcases with ⟨hzero, rfl⟩ | ⟨hb, hround⟩
  · refine ⟨?_, fun hb => absurd hzero hb⟩
    rw [← hvalue, hzero, magnitude_zero]
    simp
  · have hpos : (0 : ℚ) < m := pos_of_roundsTo hb hround
    have hself := (roundMagnitude_eq_iff hpos hfinite).mpr hround
    -- an integer that rounds to something below `2 ^ 24` is below it too
    have hsmall : magnitude f.mag < 2 ^ 24 := by
      rw [← hvalue] at hlo hhi
      split_ifs at hlo hhi <;> linarith
    have htop : magnitude (151 * 2 ^ 23) = 2 ^ 24 := by norm_num [magnitude]
    have hlt : m < 2 ^ 24 := by
      have hnext : magnitude (f.mag + 1) ≤ 2 ^ 24 := by
        rw [← htop] at hsmall ⊢
        exact magnitude_strictMono.monotone (magnitude_strictMono.lt_iff_lt.mp hsmall)
      have : (m : ℚ) < 2 ^ 24 := by linarith [hround.bounds.2]
      exact_mod_cast this
    have hexact : magnitude f.mag = m := by rw [← hself, (magnitude_roundMagnitude hlt).1]
    have hm : 0 < m := by exact_mod_cast hpos
    constructor
    · rw [← hvalue, hexact]
      split <;> simp
    · intro _
      have hofInt : F32.ofInt (if f.neg then -(m : ℤ) else m) = F32.ofRat f.neg m := by
        rw [F32.ofInt]
        cases f.neg
        · have : ¬ ((m : ℤ) < 0) := by omega
          simp [this]
        · simp [hm]
      rw [hofInt]
      exact ofRat_eq_of_roundsTo hfinite hb hround

end Display

end RctPower.Lib.Rust
