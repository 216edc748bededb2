import RctPower.Protocol.Codec

/-!
# Values and their payloads

What `encode_for` and `decode_value` do to the number of a value, for the types that have one:
the truth values, the integers, the enumerations and the floats.

An integer reaches its type by a cast, so what is written is the integer of the type's range
that is congruent to it (`Wraps`). No integer is refused (`encodeFor_wraps`).

`roundTrips_iff` says for which types the two functions undo each other. They do not agree about an
enumeration: it is written as one byte and read as four.
-/

namespace RctPower

open RctPower.Lib.Rust RctPower.Lib.Binary32

/-! ### Numbers -/

/-- The integer of a value of an integer type. -/
def intOf : DataValue → Option ℤ
  | .i8 i => some i.toInt
  | .u8 i => some i.toNat
  | .i16 i => some i.toInt
  | .u16 i => some i.toNat
  | .i32 i => some i.toInt
  | .u32 i => some i.toNat
  | _ => none

/-- A number that a value can have. Floats are told apart by their bits. -/
inductive Number where
  /-- An integer. -/
  | int (n : ℤ)
  /-- A float. -/
  | float (f : F32)
  deriving DecidableEq

/-- The number of a value; a truth value counts as `0` or `1`. -/
def number : DataValue → Option Number
  | .bool b => some (.int (if b then 1 else 0))
  | .f32 f => some (.float f)
  | v => (intOf v).map .int

theorem number_of_intOf {v : DataValue} {n : ℤ} (h : intOf v = some n) : number v = some (.int n) := by
  cases v <;> first | exact congrArg (Option.map Number.int) h | cases h

/-- The integers of a type, from the first to below the second; an enumeration is written as an
unsigned byte. -/
def DataType.range : DataType → Option (ℤ × ℤ)
  | .uint8 | .enum => some (0, 2 ^ 8)
  | .int8 => some (-2 ^ 7, 2 ^ 7)
  | .uint16 => some (0, 2 ^ 16)
  | .int16 => some (-2 ^ 15, 2 ^ 15)
  | .uint32 => some (0, 2 ^ 32)
  | .int32 => some (-2 ^ 31, 2 ^ 31)
  | _ => none

/-- The integer that bytes denote, written in a type. -/
def wireInt : DataType → List UInt8 → Option ℤ
  | .uint8, [b] | .enum, [b] => some b.toNat
  | .int8, [b] => some b.toInt8.toInt
  | .uint16, [b₀, b₁] => some (u16OfBe b₀ b₁).toNat
  | .int16, [b₀, b₁] => some (u16OfBe b₀ b₁).toInt16.toInt
  | .uint32, [b₀, b₁, b₂, b₃] => some (u32OfBe b₀ b₁ b₂ b₃).toNat
  | .int32, [b₀, b₁, b₂, b₃] => some (u32OfBe b₀ b₁ b₂ b₃).toInt32.toInt
  | _, _ => none

/-- `m` is the integer from `lo` to below `hi` that is congruent to `n`. -/
def Wraps (lo hi n m : ℤ) : Prop := lo ≤ m ∧ m < hi ∧ hi - lo ∣ m - n

/-- Only an integer outside the range changes. -/
theorem Wraps.eq_iff {lo hi n m : ℤ} (h : Wraps lo hi n m) : m = n ↔ lo ≤ n ∧ n < hi := by
  obtain ⟨hlo, hhi, hdvd⟩ := h
  constructor
  · rintro rfl
    exact ⟨hlo, hhi⟩
  · rintro ⟨hlo', hhi'⟩
    have habs : |m - n| < hi - lo := abs_lt.mpr ⟨by omega, by omega⟩
    exact sub_eq_zero.mp (Int.eq_zero_of_abs_lt_dvd hdvd habs)

/-- A cast to an unsigned type. -/
theorem wraps_emod (n : ℤ) {k : ℤ} (hk : 0 < k) : Wraps 0 k n (n % k) :=
  ⟨Int.emod_nonneg _ hk.ne', Int.emod_lt_of_pos _ hk, by rw [sub_zero]; exact Int.dvd_emod_sub_self⟩

/-- A cast to a signed type. -/
theorem wraps_bmod (n : ℤ) {k : ℕ} (hk : 0 < k) : Wraps (-k) k n (n.bmod (2 * k)) := by
  have hlo : -(((2 * k : ℕ) : ℤ) / 2) ≤ n.bmod (2 * k) := Int.le_bmod (by omega)
  have hhi : n.bmod (2 * k) < (((2 * k : ℕ) : ℤ) + 1) / 2 := Int.bmod_lt (by omega)
  have hdvd : ((2 * k : ℕ) : ℤ) ∣ n.bmod (2 * k) - n := Int.dvd_bmod_sub_self
  refine ⟨by omega, by omega, ?_⟩
  rwa [show (k : ℤ) - -k = (2 * k : ℕ) by push_cast; ring]

/-! ### Writing an integer -/

/-- `to_i64` keeps an integer: all the integer types are narrower. -/
theorem toI64_of_intOf {v : DataValue} {n : ℤ} (h : intOf v = some n) : ∃ i, toI64 v = .ok i ∧ i.toInt = n := by
  have hfit : ∀ {k : ℤ}, -2 ^ 31 ≤ k → k < 2 ^ 32 → (Int64.ofInt k).toInt = k := fun hlo hhi =>
    Int64.toInt_ofInt_of_le (by omega) (by omega)
  cases v <;> simp only [intOf, Option.some.injEq, reduceCtorEq] at h <;> subst h
  case i8 v => exact ⟨_, rfl, hfit (by have := v.le_toInt; omega) (by have := v.toInt_lt; omega)⟩
  case u8 v => exact ⟨_, rfl, hfit (by have := Int.natCast_nonneg v.toNat; omega) (by have := v.toNat_lt; omega)⟩
  case i16 v => exact ⟨_, rfl, hfit (by have := v.le_toInt; omega) (by have := v.toInt_lt; omega)⟩
  case u16 v => exact ⟨_, rfl, hfit (by have := Int.natCast_nonneg v.toNat; omega) (by have := v.toNat_lt; omega)⟩
  case i32 v => exact ⟨_, rfl, hfit (by have := v.le_toInt; omega) (by have := v.toInt_lt; omega)⟩
  case u32 v => exact ⟨_, rfl, hfit (by have := Int.natCast_nonneg v.toNat; omega) (by have := v.toNat_lt; omega)⟩

section Integers

variable {dt : DataType} {v : DataValue} {lo hi n : ℤ}

/-- What is written for an integer, in an integer type. -/
theorem encodeFor_integer (hrange : dt.range = some (lo, hi)) (hv : intOf v = some n) :
    ∃ bytes m, encodeFor dt v = .ok bytes ∧ wireInt dt bytes = some m ∧ Wraps lo hi n m := by
  obtain ⟨i, hi64, hin⟩ := toI64_of_intOf hv
  cases dt <;> simp only [DataType.range, Option.some.injEq, Prod.mk.injEq, reduceCtorEq] at hrange <;>
    obtain ⟨rfl, rfl⟩ := hrange <;> simp only [encodeFor, normalizeFor, hi64, Except.map, hin, encodeValue]
  case uint8 | enum => exact ⟨_, _, rfl, rfl, toNat_ofInt8 n ▸ wraps_emod n (by norm_num)⟩
  case uint16 => exact ⟨_, _, rfl, by rw [u16ToBe, wireInt, u16OfBe_toBe, toNat_ofInt16], wraps_emod n (by norm_num)⟩
  case uint32 => exact ⟨_, _, rfl, by rw [u32ToBe, wireInt, u32OfBe_toBe, toNat_ofInt32], wraps_emod n (by norm_num)⟩
  case int8 =>
    exact ⟨_, _, rfl, by rw [wireInt, Int8.toInt8_toUInt8, Int8.toInt_ofInt], wraps_bmod n (k := 2 ^ 7) (by norm_num)⟩
  case int16 =>
    refine ⟨_, _, rfl, ?_, wraps_bmod n (k := 2 ^ 15) (by norm_num)⟩
    rw [u16ToBe, wireInt, u16OfBe_toBe, Int16.toInt16_toUInt16, Int16.toInt_ofInt]
  case int32 =>
    refine ⟨_, _, rfl, ?_, wraps_bmod n (k := 2 ^ 31) (by norm_num)⟩
    rw [u32ToBe, wireInt, u32OfBe_toBe, Int32.toInt32_toUInt32, Int32.toInt_ofInt]

/-- **No integer is refused: what is written is the integer of the type congruent to it**, the
integer itself exactly when that is in range. -/
theorem encodeFor_wraps (hrange : dt.range = some (lo, hi)) (hv : intOf v = some n) :
    ∃ bytes m, encodeFor dt v = .ok bytes ∧ wireInt dt bytes = some m ∧ Wraps lo hi n m ∧
      (m = n ↔ lo ≤ n ∧ n < hi) := by
  obtain ⟨bytes, m, henc, hwire, hwraps⟩ := encodeFor_integer hrange hv
  exact ⟨bytes, m, henc, hwire, hwraps, hwraps.eq_iff⟩

theorem encodeFor_wraps_256 :
    ∃ bytes m, encodeFor .uint8 (.i32 256) = .ok bytes ∧ wireInt .uint8 bytes = some m ∧ Wraps 0 (2 ^ 8) 256 m ∧
      (m = 256 ↔ (0 : ℤ) ≤ 256 ∧ (256 : ℤ) < 2 ^ 8) :=
  encodeFor_wraps rfl rfl

/-- `256` is not refused as a byte: it is written as `0`. -/
theorem encodeFor_not_refused :
    ¬ ∀ (dt : DataType) (v : DataValue) (lo hi n : ℤ), dt.range = some (lo, hi) → intOf v = some n →
      ((∃ bytes, encodeFor dt v = .ok bytes) ↔ lo ≤ n ∧ n < hi) := by
  intro h
  have henc : encodeFor .uint8 (.i32 256) = .ok [0] := by decide
  have hrange := (h .uint8 (.i32 256) _ _ 256 rfl rfl).mp ⟨_, henc⟩
  omega

/-! ### Reading it back -/

theorem decodeValue_of_need {need : ℕ} {data : List UInt8} {w : DataValue} (hneed : decodeNeed dt = some need)
    (hlen : need ≤ data.length) (h : decodeNative dt data = .ok w) : decodeValue dt data = .ok (.ok w) := by
  simp only [decodeValue, hneed, if_neg (not_lt.mpr hlen), h, Except.map]

/-- What bytes denote is read back, whatever follows them. -/
theorem decodeValue_of_wireInt (he : dt ≠ .enum) {bytes : List UInt8} (hwire : wireInt dt bytes = some n)
    (extra : List UInt8) : ∃ w, decodeValue dt (bytes ++ extra) = .ok (.ok w) ∧ intOf w = some n := by
  unfold wireInt at hwire
  split at hwire <;> simp only [Option.some.injEq, reduceCtorEq, ne_eq, not_true_eq_false] at hwire he <;> subst hwire
  all_goals
    refine ⟨_, decodeValue_of_need rfl (by simp) rfl, rfl⟩

/-- A payload as wide as its type denotes an integer of the type. -/
theorem wireInt_of_need (hrange : dt.range = some (lo, hi)) (he : dt ≠ .enum) {payload : List UInt8}
    (hlen : decodeNeed dt = some payload.length) : ∃ m, wireInt dt payload = some m ∧ lo ≤ m ∧ m < hi := by
  cases dt <;> simp only [DataType.range, Option.some.injEq, Prod.mk.injEq, reduceCtorEq] at hrange <;>
    obtain ⟨rfl, rfl⟩ := hrange <;> simp only [decodeNeed, Option.some.injEq] at hlen
  case enum => exact absurd rfl he
  case uint8 =>
    obtain ⟨b, rfl⟩ := List.length_eq_one_iff.mp hlen.symm
    exact ⟨_, rfl, Int.natCast_nonneg _, by have := b.toNat_lt; omega⟩
  case int8 =>
    obtain ⟨b, rfl⟩ := List.length_eq_one_iff.mp hlen.symm
    exact ⟨_, rfl, Int8.le_toInt _, Int8.toInt_lt _⟩
  case uint16 =>
    obtain ⟨b₀, b₁, rfl⟩ := List.length_eq_two.mp hlen.symm
    exact ⟨_, rfl, Int.natCast_nonneg _, by have := (u16OfBe b₀ b₁).toNat_lt; omega⟩
  case int16 =>
    obtain ⟨b₀, b₁, rfl⟩ := List.length_eq_two.mp hlen.symm
    exact ⟨_, rfl, Int16.le_toInt _, Int16.toInt_lt _⟩
  case uint32 =>
    obtain ⟨b₀, b₁, b₂, b₃, rfl⟩ := List.length_eq_four.mp hlen.symm
    exact ⟨_, rfl, Int.natCast_nonneg _, by have := (u32OfBe b₀ b₁ b₂ b₃).toNat_lt; omega⟩
  case int32 =>
    obtain ⟨b₀, b₁, b₂, b₃, rfl⟩ := List.length_eq_four.mp hlen.symm
    exact ⟨_, rfl, Int32.le_toInt _, Int32.toInt_lt _⟩

/-- The integer that bytes denote is written as these bytes. -/
theorem encodeFor_of_wireInt {bytes : List UInt8} (hwire : wireInt dt bytes = some n) (hv : intOf v = some n) :
    encodeFor dt v = .ok bytes := by
  obtain ⟨i, hi64, rfl⟩ := toI64_of_intOf hv
  unfold wireInt at hwire
  split at hwire <;> simp only [Option.some.injEq, reduceCtorEq] at hwire <;>
    simp only [encodeFor, normalizeFor, hi64, Except.map, ← hwire, encodeValue]
  · rw [ofInt8_toNat]
  · rw [ofInt8_toNat]
  · rw [Int8.ofInt_toInt, UInt8.toUInt8_toInt8]
  · rw [ofInt16_toNat, u16ToBe_ofBe]
  · rw [Int16.ofInt_toInt, UInt16.toUInt16_toInt16, u16ToBe_ofBe]
  · rw [ofInt32_toNat, u32ToBe_ofBe]
  · rw [Int32.ofInt_toInt, UInt32.toUInt32_toInt32, u32ToBe_ofBe]

end Integers

/-! ### Widths -/

/-- The types whose values are numbers. -/
def DataType.isNumeric : DataType → Bool
  | .bool | .uint8 | .int8 | .uint16 | .int16 | .uint32 | .int32 | .enum | .float => true
  | _ => false

/-- How many bytes a value is written as. -/
def DataType.width : DataType → ℕ
  | .bool | .uint8 | .int8 | .enum => 1
  | .uint16 | .int16 => 2
  | _ => 4

/-- The variant of the values that are written in a type, and read from it. -/
def Variant : DataType → DataValue → Prop
  | .bool, .bool _ | .uint8, .u8 _ | .int8, .i8 _ | .uint16, .u16 _ | .int16, .i16 _ | .uint32, .u32 _
  | .int32, .i32 _ | .float, .f32 _ => True
  | _, _ => False

/-- A value is written as what it is normalized to. -/
theorem normalizeFor_of_encodeFor {dt : DataType} {v : DataValue} {payload : List UInt8}
    (h : encodeFor dt v = .ok payload) : ∃ w, normalizeFor dt v = .ok w ∧ encodeValue w = payload := by
  rw [encodeFor] at h
  exact of_map_eq_ok h

/-- A cast gives a value of the type that it is to. -/
theorem exists_cast {v w : DataValue} {f : Int64 → DataValue} (h : (toI64 v).map f = .ok w) : ∃ i, f i = w := by
  obtain ⟨i, -, hw⟩ := of_map_eq_ok h
  exact ⟨i, hw⟩

/-- What a value is normalized to is of the type's variant; an enumeration is normalized to a byte. -/
theorem variant_of_normalizeFor {dt : DataType} (hdt : dt.isNumeric = true) {v w : DataValue}
    (h : normalizeFor dt v = .ok w) : Variant (if dt = .enum then .uint8 else dt) w := by
  cases dt <;> simp only [DataType.isNumeric, Bool.false_eq_true] at hdt <;> simp only [normalizeFor] at h
  case bool => split at h <;> cases h <;> trivial
  case float =>
    split at h
    · cases h
      trivial
    · obtain ⟨i, rfl⟩ := exists_cast h
      trivial
  all_goals
    obtain ⟨i, rfl⟩ := exists_cast h
    trivial

/-- A value of the type's variant is written as it is. -/
theorem normalizeFor_of_variant {dt : DataType} {v : DataValue} (h : Variant dt v) : normalizeFor dt v = .ok v := by
  unfold Variant at h
  split at h
  case h_1 => rfl
  case h_2 j =>
    obtain ⟨i, hi, hn⟩ := toI64_of_intOf (v := .u8 j) rfl
    simp only [normalizeFor, hi, Except.map, hn, ofInt8_toNat]
  case h_3 j =>
    obtain ⟨i, hi, hn⟩ := toI64_of_intOf (v := .i8 j) rfl
    simp only [normalizeFor, hi, Except.map, hn, Int8.ofInt_toInt]
  case h_4 j =>
    obtain ⟨i, hi, hn⟩ := toI64_of_intOf (v := .u16 j) rfl
    simp only [normalizeFor, hi, Except.map, hn, ofInt16_toNat]
  case h_5 j =>
    obtain ⟨i, hi, hn⟩ := toI64_of_intOf (v := .i16 j) rfl
    simp only [normalizeFor, hi, Except.map, hn, Int16.ofInt_toInt]
  case h_6 j =>
    obtain ⟨i, hi, hn⟩ := toI64_of_intOf (v := .u32 j) rfl
    simp only [normalizeFor, hi, Except.map, hn, ofInt32_toNat]
  case h_7 j =>
    obtain ⟨i, hi, hn⟩ := toI64_of_intOf (v := .i32 j) rfl
    simp only [normalizeFor, hi, Except.map, hn, Int32.ofInt_toInt]
  case h_8 => rfl
  case h_9 => exact absurd h id

/-- A value of the type's variant is read as it is written. -/
theorem decodeValue_of_variant {dt : DataType} {w : DataValue} (h : Variant dt w) :
    decodeValue dt (encodeValue w) = .ok (.ok w) := by
  unfold Variant at h
  split at h
  case h_1 b => cases b <;> rfl
  case h_2 | h_3 => rfl
  case h_9 => exact absurd h id
  all_goals refine decodeValue_of_need rfl le_rfl ?_
  case h_4 v => exact congrArg (fun n => Except.ok (DataValue.u16 n)) (u16OfBe_toBe v)
  case h_5 v => exact congrArg (fun n : UInt16 => Except.ok (DataValue.i16 n.toInt16)) (u16OfBe_toBe v.toUInt16)
  case h_6 v => exact congrArg (fun n => Except.ok (DataValue.u32 n)) (u32OfBe_toBe v)
  case h_7 v => exact congrArg (fun n : UInt32 => Except.ok (DataValue.i32 n.toInt32)) (u32OfBe_toBe v.toUInt32)
  case h_8 f => exact congrArg (fun n => Except.ok (DataValue.f32 ⟨n⟩)) (u32OfBe_toBe f.bits)

theorem length_encodeFor {dt : DataType} (hdt : dt.isNumeric = true) {v : DataValue} {payload : List UInt8}
    (h : encodeFor dt v = .ok payload) : payload.length = dt.width := by
  obtain ⟨w, hw, rfl⟩ := normalizeFor_of_encodeFor h
  have hvariant := variant_of_normalizeFor hdt hw
  unfold Variant at hvariant
  cases dt <;> simp only [DataType.isNumeric, Bool.false_eq_true] at hdt <;> split at hvariant <;>
    first | rfl | exact absurd hvariant id | contradiction

/-- What is written is long enough to be read, but for an enumeration. -/
theorem decodeNeed_width {dt : DataType} (hdt : dt.isNumeric = true) :
    decodeNeed dt = some (if dt = .enum then 4 else dt.width) := by
  cases dt <;> first | rfl | cases hdt

/-- **What is written is read as what it was normalized to**, but for an enumeration, for which it is too
short. -/
theorem decodeValue_encodeFor {dt : DataType} (hdt : dt.isNumeric = true) {v : DataValue} {payload : List UInt8}
    (h : encodeFor dt v = .ok payload) :
    decodeValue dt payload =
      .ok (if dt = .enum then .error (.payloadTooShort "ENUM" 1 4) else normalizeFor dt v) := by
  have hlength := length_encodeFor hdt h
  have hneed := decodeNeed_width hdt
  obtain ⟨w, hw, rfl⟩ := normalizeFor_of_encodeFor h
  have hvariant := variant_of_normalizeFor hdt hw
  split_ifs at hvariant ⊢ with he
  · subst he
    simp only [decodeValue, hneed, hlength]
    rfl
  · rw [hw]
    exact decodeValue_of_variant hvariant

/-- **Which values are equal to what they are normalized to**: those of the type's variant that are equal
to themselves. -/
theorem eq_normalized_iff {dt : DataType} (hdt : dt.isNumeric = true) (he : dt ≠ .enum) {v w : DataValue}
    (h : normalizeFor dt v = .ok w) : v.eq w = true ↔ Variant dt v ∧ v.eq v = true := by
  constructor
  · intro heq
    have hvariant : Variant dt v := by
      have hw := variant_of_normalizeFor hdt h
      rw [if_neg he] at hw
      unfold DataValue.eq at heq
      split at heq
      · unfold Variant at hw ⊢
        cases dt <;> exact hw
      · rwa [of_decide_eq_true heq]
    obtain rfl : v = w := Except.ok.inj ((normalizeFor_of_variant hvariant).symm.trans h)
    exact ⟨hvariant, heq⟩
  · rintro ⟨hvariant, heq⟩
    obtain rfl : v = w := Except.ok.inj ((normalizeFor_of_variant hvariant).symm.trans h)
    exact heq

/-! ### Round trips -/

/-- The number of a value is one that is written in a type as it is. -/
def Representable (dt : DataType) (v : DataValue) : Prop :=
  match dt with
  | .bool => v = .bool true ∨ v = .bool false ∨ v = .u8 0 ∨ v = .u8 1 ∨ v = .i8 0 ∨ v = .i8 1
  | .float => ∃ f, v = .f32 f
  | dt => ∃ lo hi n, dt.range = some (lo, hi) ∧ intOf v = some n ∧ lo ≤ n ∧ n < hi

/-- The value is written, and its number read back whatever follows what is written. -/
def ReadsBack (dt : DataType) (v : DataValue) : Prop :=
  ∃ bytes, encodeFor dt v = .ok bytes ∧
    ∀ extra, ∃ w, decodeValue dt (bytes ++ extra) = .ok (.ok w) ∧ number w = number v

/-- A payload in its normal form: any byte but zero is true. -/
def normalPayload (dt : DataType) (payload : List UInt8) : List UInt8 :=
  if dt = .bool then payload.map fun b => if b = 0 then 0 else 1 else payload

/-- The payload is read, and written back. -/
def WritesBack (dt : DataType) (payload : List UInt8) : Prop :=
  ∃ w, decodeValue dt payload = .ok (.ok w) ∧ encodeFor dt w = .ok (normalPayload dt payload)

section RoundTrips

variable {dt : DataType} {v : DataValue} {lo hi : ℤ} {payload : List UInt8}

theorem readsBack_integer (hrange : dt.range = some (lo, hi)) (he : dt ≠ .enum) {n : ℤ} (hv : intOf v = some n)
    (hlo : lo ≤ n) (hhi : n < hi) : ReadsBack dt v := by
  obtain ⟨bytes, m, henc, hwire, hwraps⟩ := encodeFor_integer hrange hv
  obtain rfl : m = n := hwraps.eq_iff.mpr ⟨hlo, hhi⟩
  refine ⟨bytes, henc, fun extra => ?_⟩
  obtain ⟨w, hdec, hw⟩ := decodeValue_of_wireInt he hwire extra
  exact ⟨w, hdec, (number_of_intOf hw).trans (number_of_intOf hv).symm⟩

theorem readsBack_bool (h : Representable .bool v) : ReadsBack .bool v := by
  have hread : ∀ (b : UInt8) (extra : List UInt8), decodeValue .bool ([b] ++ extra) = .ok (.ok (.bool (b ≠ 0))) :=
    fun b extra => decodeValue_of_need rfl (Nat.le_add_left 1 extra.length) rfl
  rcases h with rfl | rfl | rfl | rfl | rfl | rfl <;> exact ⟨_, rfl, fun extra => ⟨_, hread _ extra, rfl⟩⟩

theorem readsBack_float (f : F32) : ReadsBack .float (.f32 f) := by
  refine ⟨_, rfl, fun extra => ⟨.f32 f, decodeValue_of_need rfl ?_ ?_, rfl⟩⟩
  · exact Nat.le_add_left 4 extra.length
  · change Except.ok (DataValue.f32 ⟨u32OfBe _ _ _ _⟩) = Except.ok (DataValue.f32 f)
    rw [u32OfBe_toBe]

theorem writesBack_integer (hrange : dt.range = some (lo, hi)) (he : dt ≠ .enum) (hb : dt ≠ .bool)
    (hlen : decodeNeed dt = some payload.length) : WritesBack dt payload := by
  obtain ⟨m, hwire, -, -⟩ := wireInt_of_need hrange he hlen
  obtain ⟨w, hdec, hw⟩ := decodeValue_of_wireInt he hwire []
  rw [List.append_nil] at hdec
  exact ⟨w, hdec, by rw [normalPayload, if_neg hb]; exact encodeFor_of_wireInt hwire hw⟩

theorem writesBack_bool (hlen : decodeNeed .bool = some payload.length) : WritesBack .bool payload := by
  obtain ⟨b, rfl⟩ := List.length_eq_one_iff.mp (Option.some.inj hlen).symm
  refine ⟨.bool (b ≠ 0), decodeValue_of_need rfl le_rfl rfl, ?_⟩
  by_cases hb : b = 0 <;> simp [encodeFor, normalizeFor, Except.map, encodeValue, normalPayload, hb]

theorem writesBack_float (hlen : decodeNeed .float = some payload.length) : WritesBack .float payload := by
  obtain ⟨b₀, b₁, b₂, b₃, rfl⟩ := List.length_eq_four.mp (Option.some.inj hlen).symm
  refine ⟨.f32 ⟨u32OfBe b₀ b₁ b₂ b₃⟩, decodeValue_of_need rfl le_rfl rfl, ?_⟩
  exact congrArg Except.ok (u32ToBe_ofBe b₀ b₁ b₂ b₃)

/-- An enumeration is written as one byte, which is too short to be read. -/
theorem not_readsBack_enum (h : Representable .enum v) : ¬ ReadsBack .enum v := by
  rintro ⟨bytes, henc, hread⟩
  obtain ⟨lo, hi, n, hrange, hv, -, -⟩ := h
  obtain ⟨bytes', m, henc', hwire, -⟩ := encodeFor_integer hrange hv
  obtain rfl : bytes' = bytes := Except.ok.inj (henc'.symm.trans henc)
  obtain ⟨b, rfl⟩ : ∃ b, bytes' = [b] := by
    rcases bytes' with _ | ⟨b, _ | ⟨c, bs⟩⟩
    · cases hwire
    · exact ⟨b, rfl⟩
    · cases hwire
  obtain ⟨w, hdec, -⟩ := hread []
  cases hdec

/-- Four bytes are read, and one is written back. -/
theorem not_writesBack_enum (hlen : decodeNeed .enum = some payload.length) : ¬ WritesBack .enum payload := by
  rintro ⟨w, hdec, henc⟩
  obtain ⟨b₀, b₁, b₂, b₃, rfl⟩ := List.length_eq_four.mp (Option.some.inj hlen).symm
  have hw : decodeValue .enum [b₀, b₁, b₂, b₃] = .ok (.ok (.u32 (u32OfBe b₀ b₁ b₂ b₃))) :=
    decodeValue_of_need rfl le_rfl rfl
  obtain rfl : w = .u32 (u32OfBe b₀ b₁ b₂ b₃) := by simpa using hdec.symm.trans hw
  have hone := congrArg (Except.map List.length) henc
  exact absurd (Except.ok.inj hone) (by decide : (1 : ℕ) ≠ 4)

/-- **The two functions undo each other for every type but `ENUM`**: a value that fits is read
back, and a payload as wide as its type is written back. -/
theorem roundTrips_iff (hdt : dt.isNumeric = true) :
    (∀ v, Representable dt v → (ReadsBack dt v ↔ dt ≠ .enum)) ∧
      ∀ payload, decodeNeed dt = some payload.length → (WritesBack dt payload ↔ dt ≠ .enum) := by
  by_cases he : dt = .enum
  · subst he
    exact ⟨fun v hv => iff_of_false (not_readsBack_enum hv) (not_not.mpr rfl),
      fun payload hlen => iff_of_false (not_writesBack_enum hlen) (not_not.mpr rfl)⟩
  · refine ⟨fun v hv => iff_of_true ?_ he, fun payload hlen => iff_of_true ?_ he⟩
    · cases dt <;> simp only [DataType.isNumeric, Bool.false_eq_true] at hdt
      case bool => exact readsBack_bool hv
      case float =>
        obtain ⟨f, rfl⟩ := hv
        exact readsBack_float f
      all_goals
        obtain ⟨lo, hi, n, hrange, hint, hlo, hhi⟩ := hv
        exact readsBack_integer hrange he hint hlo hhi
    · cases dt <;> simp only [DataType.isNumeric, Bool.false_eq_true] at hdt
      case bool => exact writesBack_bool hlen
      case float => exact writesBack_float hlen
      all_goals exact writesBack_integer rfl he (by decide) hlen

theorem roundTrips_iff_int16 : ReadsBack .int16 (.u8 7) ∧ WritesBack .int16 [0xff, 0xfe] := by
  have hnumeric : DataType.int16.isNumeric = true := rfl
  exact ⟨((roundTrips_iff hnumeric).1 _ ⟨_, _, 7, rfl, rfl, by decide, by decide⟩).mpr (by decide),
    ((roundTrips_iff hnumeric).2 _ rfl).mpr (by decide)⟩

/-- The enumeration value `2` is written as one byte, which is not read back. -/
theorem enum_not_readsBack : Representable .enum (.u8 2) ∧ ¬ ReadsBack .enum (.u8 2) := by
  refine ⟨⟨_, _, 2, rfl, rfl, by decide, by decide⟩, ?_⟩
  rintro ⟨bytes, henc, hread⟩
  obtain rfl : [2] = bytes := Except.ok.inj henc
  obtain ⟨w, hdec, -⟩ := hread []
  cases hdec

end RoundTrips

end RctPower
