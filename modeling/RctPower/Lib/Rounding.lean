import RctPower.Lib.Binary32

/-!
# Rounding and decimal text of binary32

What the two conversions between decimal fractions and floats come to. `roundMagnitude` computes the
float nearest to a number from its exponent and its mantissa; `RoundsTo` says what the numbers are that
a float is nearest to, ties to even. They agree (`roundMagnitude_eq_iff`), so a number has one nearest
float, and no float is nearer (`abs_sub_roundMagnitude_le`).

The text of a float is the shortest one. If a multiple of a power of ten has the float as its nearest, the
text is a multiple of that power or of a higher one (`nearestMultiple_ne_none`, `shortest_of_multiple`).
-/

namespace RctPower.Lib.Binary32

/-! ### The exponent of a number -/

/-- `floorLog2` is the exponent of a positive number. -/
theorem floorLog2_spec {x : ℚ} (hx : 0 < x) : (2 : ℚ) ^ floorLog2 x ≤ x ∧ x < (2 : ℚ) ^ (floorLog2 x + 1) := by
  have hnum : x.num.natAbs ≠ 0 := by
    rw [Int.natAbs_ne_zero]
    exact (Rat.num_pos.mpr hx).ne'
  have hquot : x = (x.num.natAbs : ℚ) / x.den := by
    have hcast : ((x.num.natAbs : ℤ) : ℚ) = x.num := by
      rw [Int.natAbs_of_nonneg (Rat.num_pos.mpr hx).le]
    rw [← Int.cast_natCast, hcast, Rat.num_div_den]
  have hden : (0 : ℚ) < x.den := by exact_mod_cast x.den_pos
  -- the bit lengths of numerator and denominator
  have hnum₁ : (2 : ℚ) ^ x.num.natAbs.log2 ≤ x.num.natAbs := by exact_mod_cast Nat.log2_self_le hnum
  have hnum₂ : (x.num.natAbs : ℚ) < 2 ^ (x.num.natAbs.log2 + 1) := by exact_mod_cast Nat.lt_log2_self
  have hden₁ : (2 : ℚ) ^ x.den.log2 ≤ x.den := by exact_mod_cast Nat.log2_self_le x.den_pos.ne'
  have hden₂ : (x.den : ℚ) < 2 ^ (x.den.log2 + 1) := by exact_mod_cast Nat.lt_log2_self
  have htwo : (2 : ℚ) ≠ 0 := two_ne_zero
  have hlow : (2 : ℚ) ^ ((x.num.natAbs.log2 : ℤ) - x.den.log2 - 1) ≤ x := by
    refine ((le_div_iff₀ hden).mpr ?_).trans_eq hquot.symm
    calc (2 : ℚ) ^ ((x.num.natAbs.log2 : ℤ) - x.den.log2 - 1) * x.den
        ≤ (2 : ℚ) ^ ((x.num.natAbs.log2 : ℤ) - x.den.log2 - 1) * 2 ^ (x.den.log2 + 1) := by gcongr
      _ = 2 ^ x.num.natAbs.log2 := by
          rw [← zpow_natCast, ← zpow_natCast, ← zpow_add₀ htwo]
          congr 1
          push_cast
          ring
      _ ≤ x.num.natAbs := hnum₁
  have hhigh : x < (2 : ℚ) ^ ((x.num.natAbs.log2 : ℤ) - x.den.log2 + 1) := by
    refine hquot.trans_lt ((div_lt_iff₀ hden).mpr ?_)
    calc (x.num.natAbs : ℚ) < 2 ^ (x.num.natAbs.log2 + 1) := hnum₂
      _ = (2 : ℚ) ^ ((x.num.natAbs.log2 : ℤ) - x.den.log2 + 1) * 2 ^ x.den.log2 := by
          rw [← zpow_natCast, ← zpow_natCast, ← zpow_add₀ htwo]
          congr 1
          push_cast
          ring
      _ ≤ (2 : ℚ) ^ ((x.num.natAbs.log2 : ℤ) - x.den.log2 + 1) * x.den := by gcongr
  unfold floorLog2
  dsimp only
  split_ifs with hlt
  · exact ⟨hlow, by simpa using hlt⟩
  · exact ⟨not_lt.mp hlt, hhigh⟩

/-! ### Rounding to a natural number -/

/-- The nearest natural number is at most a half off, and even if it is a half. -/
theorem roundHalfEven_spec {y : ℚ} (hy : 0 ≤ y) :
    ((roundHalfEven y : ℚ) - 1 / 2 < y ∧ y < roundHalfEven y + 1 / 2) ∨
      (roundHalfEven y % 2 = 0 ∧ (y = roundHalfEven y - 1 / 2 ∨ y = roundHalfEven y + 1 / 2)) := by
  have hcast : ((⌊y⌋.toNat : ℕ) : ℚ) = ⌊y⌋ := by
    have : ((⌊y⌋.toNat : ℕ) : ℤ) = ⌊y⌋ := Int.toNat_of_nonneg (Int.floor_nonneg.mpr hy)
    exact_mod_cast this
  have hlow : ((⌊y⌋.toNat : ℕ) : ℚ) ≤ y := hcast ▸ Int.floor_le y
  have hhigh : y < (⌊y⌋.toNat : ℕ) + 1 := hcast ▸ Int.lt_floor_add_one y
  unfold roundHalfEven
  dsimp only
  generalize ⌊y⌋.toNat = k at hlow hhigh
  split_ifs with h₁ h₂
  · exact .inl ⟨by linarith, by linarith⟩
  · refine .inl ⟨?_, ?_⟩
    · push_cast
      linarith
    · push_cast
      linarith
  · have hhalf : y = k + 1 / 2 := by linarith
    rcases Nat.mod_two_eq_zero_or_one k with heven | hodd
    · rw [heven, Nat.add_zero]
      exact .inr ⟨heven, .inr hhalf⟩
    · rw [hodd]
      refine .inr ⟨by omega, .inl ?_⟩
      push_cast
      linarith

theorem roundHalfEven_le {y : ℚ} {k : ℕ} (h : y < k) : roundHalfEven y ≤ k := by
  have hfloor : ⌊y⌋.toNat + 1 ≤ k ∨ k = 0 := by
    have : ⌊y⌋ < k := Int.floor_lt.mpr (by exact_mod_cast h)
    omega
  unfold roundHalfEven
  dsimp only
  rcases hfloor with hfloor | rfl
  · split_ifs <;> omega
  · have hneg : ⌊y⌋.toNat = 0 := Int.toNat_eq_zero.mpr (Int.floor_lt.mpr (by exact_mod_cast h)).le
    have hy : y < 0 := by exact_mod_cast h
    rw [hneg, if_pos (by push_cast; linarith)]

/-! ### The magnitudes of one exponent -/

/-- With the biased exponent `e` and the mantissa `k` of up to 24 bits, a magnitude denotes `k` units;
`2 ^ 24` carries into the exponent. -/
theorem magnitude_at {e k : ℕ} (hnormal : e = 0 ∨ 2 ^ 23 ≤ k) (hk : k ≤ 2 ^ 24) :
    magnitude (e * 2 ^ 23 + k) = k * (2 : ℚ) ^ ((e : ℤ) - 149) := by
  rcases lt_or_ge k (2 ^ 23) with hsub | hlow
  · obtain rfl : e = 0 := hnormal.resolve_right (not_le.mpr hsub)
    rw [magnitude, if_pos (by omega)]
    norm_num
  rcases hk.lt_or_eq with hlt | rfl
  · have hdiv : (e * 2 ^ 23 + k) / 2 ^ 23 = e + 1 := by omega
    have hmod : (e * 2 ^ 23 + k) % 2 ^ 23 = k - 2 ^ 23 := by omega
    rw [magnitude, if_neg (by omega), hdiv, hmod, Nat.add_sub_cancel' hlow,
      show ((e + 1 : ℕ) : ℤ) - 150 = (e : ℤ) - 149 by omega]
  · -- the carry
    have hdiv : (e * 2 ^ 23 + 2 ^ 24) / 2 ^ 23 = e + 2 := by omega
    have hmod : (e * 2 ^ 23 + 2 ^ 24) % 2 ^ 23 = 0 := by omega
    rw [magnitude, if_neg (by omega), hdiv, hmod, show ((e + 2 : ℕ) : ℤ) - 150 = ((e : ℤ) - 149) + 1 by omega,
      zpow_add₀ two_ne_zero]
    push_cast
    ring

/-- The unit of the biased exponent `e`. -/
def unit (e : ℕ) : ℚ := (2 : ℚ) ^ ((e : ℤ) - 149)

theorem unit_pos (e : ℕ) : 0 < unit e := zpow_pos two_pos _

theorem unit_succ (e : ℕ) : unit (e + 1) = 2 * unit e := by
  rw [unit, unit, show ((e + 1 : ℕ) : ℤ) - 149 = 1 + ((e : ℤ) - 149) by push_cast; ring, zpow_add₀ two_ne_zero,
    zpow_one]

section Neighbours

variable {e m : ℕ}

/-- The next magnitude is a unit away, or more after a carry. -/
theorem magnitude_next (hnormal : e = 0 ∨ 2 ^ 23 ≤ m) (hm : m ≤ 2 ^ 24) :
    (m + 1) * unit e ≤ magnitude (e * 2 ^ 23 + m + 1) ∧
      (m < 2 ^ 24 → magnitude (e * 2 ^ 23 + m + 1) = (m + 1) * unit e) := by
  rcases hm.lt_or_eq with hlt | rfl
  · have hnext : magnitude (e * 2 ^ 23 + m + 1) = (m + 1) * unit e := by
      rw [Nat.add_assoc, magnitude_at (by omega) (by omega), unit]
      push_cast
      rfl
    exact ⟨hnext.ge, fun _ => hnext⟩
  · have hnext : magnitude (e * 2 ^ 23 + 2 ^ 24 + 1) = ((2 ^ 23 + 1 : ℕ) : ℚ) * unit (e + 1) := by
      rw [show e * 2 ^ 23 + 2 ^ 24 + 1 = (e + 1) * 2 ^ 23 + (2 ^ 23 + 1) by omega,
        magnitude_at (by omega) (by omega), unit]
    refine ⟨?_, fun h => absurd h (lt_irrefl _)⟩
    rw [hnext, unit_succ]
    push_cast
    linarith [unit_pos e]

/-- The magnitude before is a unit away, or half of one below the least mantissa. -/
theorem magnitude_before (hnormal : e = 0 ∨ 2 ^ 23 ≤ m) (hm : m ≤ 2 ^ 24) :
    magnitude (e * 2 ^ 23 + m - 1) = (m - 1) * unit e ∨ (m = 0 ∧ e = 0) ∨
      (m = 2 ^ 23 ∧ e ≠ 0 ∧ magnitude (e * 2 ^ 23 + m - 1) = (m - 1 / 2) * unit e) := by
  rcases Nat.eq_zero_or_pos m with rfl | hpos
  · exact .inr (.inl ⟨rfl, by omega⟩)
  by_cases hleast : m = 2 ^ 23 ∧ e ≠ 0
  · obtain ⟨rfl, he⟩ := hleast
    obtain ⟨e, rfl⟩ := Nat.exists_eq_succ_of_ne_zero he
    refine .inr (.inr ⟨rfl, he, ?_⟩)
    rw [show (e + 1) * 2 ^ 23 + 2 ^ 23 - 1 = e * 2 ^ 23 + (2 ^ 24 - 1) by omega, magnitude_at (by omega) (by omega),
      ← unit, unit_succ]
    norm_num
    ring
  · refine .inl ?_
    obtain ⟨k, rfl⟩ := Nat.exists_eq_succ_of_ne_zero hpos.ne'
    rw [Nat.succ_eq_add_one, ← Nat.add_assoc, Nat.add_sub_cancel, magnitude_at (by omega) (by omega), unit]
    push_cast
    ring

/-- A mantissa that is at most half a unit too small is below the midpoint above, or on it if it is even. -/
theorem le_midpoint_above (hnormal : e = 0 ∨ 2 ^ 23 ≤ m) (hm : m ≤ 2 ^ 24) {y : ℚ} (hhigh : y < 2 ^ 24)
    (hy : y < m + 1 / 2 ∨ (m % 2 = 0 ∧ y = m + 1 / 2)) :
    y * unit e < (magnitude (e * 2 ^ 23 + m) + magnitude (e * 2 ^ 23 + m + 1)) / 2 ∨
      (m % 2 = 0 ∧ y * unit e = (magnitude (e * 2 ^ 23 + m) + magnitude (e * 2 ^ 23 + m + 1)) / 2) := by
  obtain ⟨hnext, hexact⟩ := magnitude_next hnormal hm
  have hself : magnitude (e * 2 ^ 23 + m) = m * unit e := magnitude_at hnormal hm
  rcases hy with hlt | ⟨heven, heq⟩
  · left
    rw [hself]
    calc y * unit e < (m + 1 / 2) * unit e := mul_lt_mul_of_pos_right hlt (unit_pos e)
      _ = (m * unit e + (m + 1) * unit e) / 2 := by ring
      _ ≤ (m * unit e + magnitude (e * 2 ^ 23 + m + 1)) / 2 := by gcongr
  · right
    have hlt : m < 2 ^ 24 := by
      have : (m : ℚ) < 2 ^ 24 := by linarith
      exact_mod_cast this
    rw [hself, hexact hlt, heq]
    exact ⟨heven, by ring⟩

/-- One that is at most half a unit too great is above the midpoint below, or on it if it is even. -/
theorem midpoint_below_le (hnormal : e = 0 ∨ 2 ^ 23 ≤ m) (hm : m ≤ 2 ^ 24) {y : ℚ} (hpos : 0 < y)
    (hlow : e = 0 ∨ 2 ^ 23 ≤ y) (hy : m - 1 / 2 < y ∨ (m % 2 = 0 ∧ y = m - 1 / 2)) :
    (magnitude (e * 2 ^ 23 + m - 1) + magnitude (e * 2 ^ 23 + m)) / 2 < y * unit e ∨
      (m % 2 = 0 ∧ y * unit e = (magnitude (e * 2 ^ 23 + m - 1) + magnitude (e * 2 ^ 23 + m)) / 2) := by
  have hself : magnitude (e * 2 ^ 23 + m) = m * unit e := magnitude_at hnormal hm
  rcases magnitude_before hnormal hm with hbefore | ⟨rfl, rfl⟩ | ⟨hleast, he, hbefore⟩
  · rw [hself, hbefore]
    rcases hy with hlt | ⟨heven, heq⟩
    · left
      have := mul_lt_mul_of_pos_right hlt (unit_pos e)
      linarith
    · right
      rw [heq]
      exact ⟨heven, by ring⟩
  · left
    simpa [magnitude] using mul_pos hpos (unit_pos 0)
  · -- below the least mantissa the midpoint is nearer than half a unit
    left
    have hy₂ : (m : ℚ) ≤ y := by
      rw [hleast]
      exact_mod_cast hlow.resolve_left he
    have := mul_le_mul_of_nonneg_right hy₂ (unit_pos e).le
    have := unit_pos e
    rw [hself, hbefore]
    linarith

end Neighbours

/-! ### Rounding is to nearest -/

/-- The biased exponent of a positive number; the numbers below the least one share it. -/
def biasedExponent (x : ℚ) : ℕ := (max (floorLog2 x) (-126) + 126).toNat

/-- The magnitude nearest to a positive number, as if the exponents had no end. -/
def roundUnbounded (x : ℚ) : ℕ := biasedExponent x * 2 ^ 23 + roundHalfEven (x / unit (biasedExponent x))

section Round

variable {x : ℚ} {b : ℕ}

theorem roundMagnitude_eq_min (hx : 0 < x) : roundMagnitude x = min (roundUnbounded x) infMagnitude := by
  have hexp : max (floorLog2 x) (-126) - 23 = (biasedExponent x : ℤ) - 149 := by
    rw [biasedExponent]
    omega
  rw [roundMagnitude, if_neg hx.ne', roundUnbounded, unit]
  dsimp only
  rw [hexp]
  rfl

/-- The mantissa of a positive number is below `2 ^ 24`, and has its leading bit unless the exponent is
the least one. -/
theorem mantissa_bounds (hx : 0 < x) :
    x / unit (biasedExponent x) < 2 ^ 24 ∧ (biasedExponent x = 0 ∨ 2 ^ 23 ≤ x / unit (biasedExponent x)) := by
  obtain ⟨hlow, hhigh⟩ := floorLog2_spec hx
  have hunit := unit_pos (biasedExponent x)
  rw [div_lt_iff₀ hunit, le_div_iff₀ hunit]
  rcases le_or_gt (floorLog2 x) (-126) with hsub | hnormal
  · have hzero : biasedExponent x = 0 := by
      rw [biasedExponent]
      omega
    refine ⟨?_, .inl hzero⟩
    calc x < (2 : ℚ) ^ (floorLog2 x + 1) := hhigh
      _ ≤ (2 : ℚ) ^ (-125 : ℤ) := zpow_le_zpow_right₀ (by norm_num) (by omega)
      _ = 2 ^ 24 * unit (biasedExponent x) := by rw [hzero, unit]; norm_num
  · have hexp : floorLog2 x = 23 + ((biasedExponent x : ℤ) - 149) := by
      rw [biasedExponent]
      omega
    rw [hexp, zpow_add₀ two_ne_zero] at hlow
    rw [hexp, show (23 : ℤ) + ((biasedExponent x : ℤ) - 149) + 1 = 24 + ((biasedExponent x : ℤ) - 149) by ring,
      zpow_add₀ two_ne_zero] at hhigh
    exact ⟨by exact_mod_cast hhigh, .inr (by exact_mod_cast hlow)⟩

/-- **What is computed from exponent and mantissa is a nearest magnitude.** -/
theorem roundsTo_roundUnbounded (hx : 0 < x) : RoundsTo (roundUnbounded x) x := by
  obtain ⟨hhigh, hlow⟩ := mantissa_bounds hx
  have hunit := unit_pos (biasedExponent x)
  have hm : roundHalfEven (x / unit (biasedExponent x)) ≤ 2 ^ 24 := roundHalfEven_le (by exact_mod_cast hhigh)
  have hnormal : biasedExponent x = 0 ∨ 2 ^ 23 ≤ roundHalfEven (x / unit (biasedExponent x)) :=
    hlow.imp_right fun h => le_roundHalfEven (by exact_mod_cast h)
  have hhalf := roundHalfEven_spec (div_pos hx hunit).le
  obtain ⟨y, hy⟩ : ∃ y, x / unit (biasedExponent x) = y := ⟨_, rfl⟩
  have hxy : x = y * unit (biasedExponent x) := by rw [← hy, div_mul_cancel₀ _ hunit.ne']
  have hpos : 0 < y := hy ▸ div_pos hx hunit
  rw [roundUnbounded]
  rw [hy] at hhigh hlow hm hnormal hhalf ⊢
  generalize roundHalfEven y = m at hm hnormal hhalf ⊢
  generalize biasedExponent x = e at hlow hnormal hxy ⊢
  have hparity : (e * 2 ^ 23 + m) % 2 = m % 2 := by omega
  have hupper : y < m + 1 / 2 ∨ (m % 2 = 0 ∧ y = m + 1 / 2) := by
    rcases hhalf with ⟨-, hlt⟩ | ⟨heven, heq | heq⟩
    · exact .inl hlt
    · exact .inl (by linarith)
    · exact .inr ⟨heven, heq⟩
  have hlower : (m : ℚ) - 1 / 2 < y ∨ (m % 2 = 0 ∧ y = m - 1 / 2) := by
    rcases hhalf with ⟨hlt, -⟩ | ⟨heven, heq | heq⟩
    · exact .inl hlt
    · exact .inr ⟨heven, heq⟩
    · exact .inl (by linarith)
  rw [RoundsTo, hparity, hxy]
  rcases midpoint_below_le hnormal hm hpos hlow hlower with hbelow | hbelow
  · rcases le_midpoint_above hnormal hm hhigh hupper with habove | habove
    · exact .inl ⟨hbelow, habove⟩
    · exact .inr ⟨habove.1, .inr habove.2⟩
  · exact .inr ⟨hbelow.1, .inl hbelow.2⟩

/-- The numbers that round to a magnitude lie between its midpoints. -/
theorem RoundsTo.bounds (h : RoundsTo b x) :
    (magnitude (b - 1) + magnitude b) / 2 ≤ x ∧ x ≤ (magnitude b + magnitude (b + 1)) / 2 := by
  have hlow : magnitude (b - 1) ≤ magnitude b := magnitude_strictMono.monotone (Nat.sub_le b 1)
  have hhigh := magnitude_lt_succ b
  rcases h with ⟨hlo, hhi⟩ | ⟨-, rfl | rfl⟩
  · exact ⟨hlo.le, hhi.le⟩
  · exact ⟨le_rfl, by linarith⟩
  · exact ⟨by linarith, le_rfl⟩

/-- A midpoint rounds to the magnitude that is even. -/
theorem RoundsTo.even (h : RoundsTo b x)
    (hx : x = (magnitude (b - 1) + magnitude b) / 2 ∨ x = (magnitude b + magnitude (b + 1)) / 2) : b % 2 = 0 := by
  rcases h with ⟨hlo, hhi⟩ | ⟨heven, -⟩
  · rcases hx with rfl | rfl
    · exact absurd hlo (lt_irrefl _)
    · exact absurd hhi (lt_irrefl _)
  · exact heven

/-- **A number rounds to one magnitude only.** -/
theorem RoundsTo.unique {b' : ℕ} (h : RoundsTo b x) (h' : RoundsTo b' x) : b = b' := by
  -- of two, neither is below the other
  have hlt : ∀ {b b' : ℕ}, RoundsTo b x → RoundsTo b' x → ¬ b < b' := by
    intro b b' h h' hlt
    have hle : magnitude b ≤ magnitude (b' - 1) := magnitude_strictMono.monotone (by omega)
    have hle' : magnitude (b + 1) ≤ magnitude b' := magnitude_strictMono.monotone hlt
    have hhigh := h.bounds.2
    have hlow := h'.bounds.1
    have heven := h.even (.inr (by linarith))
    have heven' := h'.even (.inl (by linarith))
    have hadjacent : b = b' - 1 := magnitude_strictMono.injective (by linarith)
    omega
  exact le_antisymm (not_lt.mp (hlt h' h)) (not_lt.mp (hlt h h'))

/-- **Rounding is correct**: a finite magnitude is what a positive number is rounded to exactly when the
number is one of those that are nearest to it, ties to even. -/
theorem roundMagnitude_eq_iff (hx : 0 < x) (hb : b < infMagnitude) : roundMagnitude x = b ↔ RoundsTo b x := by
  have hround := roundsTo_roundUnbounded hx
  rw [roundMagnitude_eq_min hx]
  constructor
  · intro h
    obtain rfl : roundUnbounded x = b := by omega
    exact hround
  · intro h
    rw [hround.unique h]
    exact min_eq_left hb.le

/-- **Rounding keeps the order.** -/
theorem roundMagnitude_mono {y : ℚ} (hx : 0 ≤ x) (hxy : x ≤ y) : roundMagnitude x ≤ roundMagnitude y := by
  rcases hx.eq_or_lt with rfl | hx
  · rw [roundMagnitude, if_pos rfl]
    exact Nat.zero_le _
  have hy := hx.trans_le hxy
  rw [roundMagnitude_eq_min hx, roundMagnitude_eq_min hy]
  refine min_le_min_right _ ?_
  by_contra hlt
  rw [not_le] at hlt
  have hxround := roundsTo_roundUnbounded hx
  have hyround := roundsTo_roundUnbounded hy
  -- the midpoint above the lesser is not above the midpoint below the greater
  have hle : magnitude (roundUnbounded y) ≤ magnitude (roundUnbounded x - 1) := magnitude_strictMono.monotone (by omega)
  have hle' : magnitude (roundUnbounded y + 1) ≤ magnitude (roundUnbounded x) := magnitude_strictMono.monotone hlt
  obtain rfl : x = y := le_antisymm hxy (by linarith [hxround.bounds.1, hyround.bounds.2])
  exact absurd hlt (lt_irrefl _)

/-- **No float is nearer** than the one a number is rounded to. -/
theorem abs_sub_roundMagnitude_le (hx : 0 < x) (hfinite : roundMagnitude x < infMagnitude) (b : ℕ) :
    |x - magnitude (roundMagnitude x)| ≤ |x - magnitude b| := by
  obtain ⟨hlow, hhigh⟩ := ((roundMagnitude_eq_iff hx hfinite).mp rfl).bounds
  generalize roundMagnitude x = r at hlow hhigh ⊢
  rcases lt_trichotomy b r with hlt | rfl | hgt
  · have hle : magnitude b ≤ magnitude (r - 1) := magnitude_strictMono.monotone (by omega)
    have hle' : magnitude (r - 1) ≤ magnitude r := magnitude_strictMono.monotone (Nat.sub_le r 1)
    calc |x - magnitude r| ≤ x - magnitude b := abs_le.mpr ⟨by linarith, by linarith⟩
      _ ≤ |x - magnitude b| := le_abs_self _
  · exact le_rfl
  · have hle : magnitude (r + 1) ≤ magnitude b := magnitude_strictMono.monotone hgt
    have hle' := magnitude_lt_succ r
    calc |x - magnitude r| ≤ magnitude b - x := abs_le.mpr ⟨by linarith, by linarith⟩
      _ ≤ |x - magnitude b| := by rw [abs_sub_comm]; exact le_abs_self _

end Round

theorem magnitude_zero : magnitude 0 = 0 := by norm_num [magnitude]

theorem roundMagnitude_zero : roundMagnitude 0 = 0 := if_pos rfl

theorem magnitude_nonneg (b : ℕ) : 0 ≤ magnitude b := by
  unfold magnitude
  split <;> positivity

/-- What the float nearest to a number denotes, if it is finite. -/
def nearestValue (q : ℚ) : ℚ :=
  if q < 0 then -magnitude (roundMagnitude (-q)) else magnitude (roundMagnitude q)

theorem nearestValue_mono {p q : ℚ} (h : p ≤ q) : nearestValue p ≤ nearestValue q := by
  unfold nearestValue
  rcases lt_or_ge p 0 with hp | hp
  · rw [if_pos hp]
    rcases lt_or_ge q 0 with hq | hq
    · rw [if_pos hq, neg_le_neg_iff]
      exact magnitude_strictMono.monotone (roundMagnitude_mono (by linarith) (by linarith))
    · rw [if_neg (not_lt.mpr hq)]
      linarith [magnitude_nonneg (roundMagnitude (-p)), magnitude_nonneg (roundMagnitude q)]
  · rw [if_neg (not_lt.mpr hp), if_neg (not_lt.mpr (hp.trans h))]
    exact magnitude_strictMono.monotone (roundMagnitude_mono hp h)

theorem nearestValue_signed (neg : Bool) {x : ℚ} (hx : 0 ≤ x) :
    nearestValue (if neg then -x else x) =
      if neg then -magnitude (roundMagnitude x) else magnitude (roundMagnitude x) := by
  cases neg with
  | false => exact if_neg (not_lt.mpr hx)
  | true =>
    rcases hx.eq_or_lt with rfl | hx
    · simp [nearestValue, roundMagnitude_zero, magnitude_zero]
    · simp [nearestValue, hx]

/-! ### The shortest text -/

section Text

variable {b : ℕ}

/-- Between a number that rounds to a magnitude and the magnitude's own, all do. -/
theorem RoundsTo.convex {x y : ℚ} (h : RoundsTo b x)
    (hy : (x ≤ y ∧ y ≤ magnitude b) ∨ (magnitude b ≤ y ∧ y ≤ x)) (hb : b ≠ 0) : RoundsTo b y := by
  have hlow : magnitude (b - 1) < magnitude b := magnitude_strictMono (Nat.sub_one_lt hb)
  have hhigh := magnitude_lt_succ b
  obtain ⟨hlo, hhi⟩ := h.bounds
  rcases hy with ⟨hxy, hy⟩ | ⟨hy, hyx⟩
  · rcases (hlo.trans hxy).lt_or_eq with hlt | heq
    · exact .inl ⟨hlt, by linarith⟩
    · exact .inr ⟨h.even (.inl (by linarith)), .inl heq.symm⟩
  · rcases (hyx.trans hhi).lt_or_eq with hlt | heq
    · exact .inl ⟨by linarith, hlt⟩
    · exact .inr ⟨h.even (.inr (by linarith)), .inr heq⟩

/-- **If a multiple of a unit rounds to a magnitude**, one next to its number does. -/
theorem nearestMultiple_ne_none {u : ℚ} (hb : b ≠ 0) (hu : 0 < u) {n : ℕ} (h : RoundsTo b (n * u)) :
    nearestMultiple b u ≠ none := by
  have hfloor : ((⌊magnitude b / u⌋.toNat : ℕ) : ℚ) = ⌊magnitude b / u⌋ := by
    have hnonneg : 0 ≤ ⌊magnitude b / u⌋ := Int.floor_nonneg.mpr (div_pos (magnitude_pos hb) hu).le
    have : ((⌊magnitude b / u⌋.toNat : ℕ) : ℤ) = ⌊magnitude b / u⌋ := Int.toNat_of_nonneg hnonneg
    exact_mod_cast this
  have hlow : ((⌊magnitude b / u⌋.toNat : ℕ) : ℚ) * u ≤ magnitude b := by
    rw [hfloor, ← le_div_iff₀ hu]
    exact Int.floor_le _
  have hhigh : magnitude b < ((⌊magnitude b / u⌋.toNat + 1 : ℕ) : ℚ) * u := by
    push_cast
    rw [hfloor, ← div_lt_iff₀ hu]
    exact Int.lt_floor_add_one _
  have hone : RoundsTo b ((⌊magnitude b / u⌋.toNat : ℕ) * u) ∨ RoundsTo b ((⌊magnitude b / u⌋.toNat + 1 : ℕ) * u) := by
    rcases Nat.lt_or_ge ⌊magnitude b / u⌋.toNat n with hlt | hge
    · refine .inr (h.convex (.inr ⟨hhigh.le, ?_⟩) hb)
      gcongr
      exact hlt
    · refine .inl (h.convex (.inl ⟨?_, hlow⟩) hb)
      gcongr
  unfold nearestMultiple
  dsimp only
  intro hnone
  rcases hone with h₀ | h₁
  · rw [decide_eq_true h₀] at hnone
    split at hnone
    · split at hnone <;> cases hnone
    · cases hnone
    · rename_i heq _
      cases heq
    · rename_i heq _
      cases heq
  · rw [decide_eq_true h₁] at hnone
    split at hnone
    · split at hnone <;> cases hnone
    · rename_i _ heq
      cases heq
    · cases hnone
    · rename_i _ heq
      cases heq

/-- The search does not go below a power of ten that has a multiple. -/
theorem shortest_of_multiple {k : ℤ} (h : nearestMultiple b ((10 : ℚ) ^ k) ≠ none) (n : ℕ) (e : ℤ) (hk : k ≤ e)
    (hn : e < n + k) : ∃ d e', shortest b n e = some (d, e') ∧ k ≤ e' ∧ RoundsTo b (d * (10 : ℚ) ^ e') := by
  induction n generalizing e with
  | zero => omega
  | succ n ih =>
    rw [shortest]
    cases hm : nearestMultiple b ((10 : ℚ) ^ e) with
    | some d => exact ⟨d, e, rfl, hk, roundsTo_of_nearestMultiple hm⟩
    | none =>
      have hne : k ≠ e := by
        rintro rfl
        exact h hm
      exact ih (e - 1) (by omega) (by omega)

end Text

end RctPower.Lib.Binary32
