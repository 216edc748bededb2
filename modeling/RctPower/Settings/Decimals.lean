import Mathlib.Data.String.Basic
import RctPower.Lib.FloatText
import RctPower.Settings.Validated

/-!
# Numbers as text

A value meets text twice on its way to the device: `parse_value` reads what an operator typed, and
`validate` prints the value again to count the digits after the point. Between the two is the rounding to
single precision.

## What is proved

`writes_fraction` follows a decimal fraction that is typed for a parameter of type `FLOAT`. It is written as
the float it is rounded to, and whether it is accepted is a matter of this float and not of the digits that
were typed: the float has to be in range, and some fraction with no more digits than the rule allows has to be
parsed as it too.

`retypes` is the way back: a value that is valid can be printed, typed again and written, with the same
bytes on the wire. The one exception is the negative zero, which comes back without its sign.
-/

namespace RctPower

open RctPower.Lib.Rust RctPower.Lib.Binary32

/-- The number of a value is in the range of the rule. -/
def Rule.InRange (rule : Rule) (x : Datum) : Prop := rule.min.le x = true ∧ x.le rule.max = true

instance (rule : Rule) (x : Datum) : Decidable (rule.InRange x) := by
  unfold Rule.InRange
  infer_instance

/-- The bounds of the rule stay in range when they are rounded to single precision. -/
def Rule.BoundsRound (rule : Rule) : Prop :=
  match rule.min, rule.max with
  | .num a, .num b => a ≤ nearestValue a ∧ nearestValue b ≤ b
  | _, _ => True

instance : DecidablePred Rule.BoundsRound
  | ⟨_, .num a, .num b, _⟩ => inferInstanceAs (Decidable (a ≤ nearestValue a ∧ nearestValue b ≤ b))
  | ⟨_, .nan, _, _⟩ | ⟨_, .inf _, _, _⟩ | ⟨_, .num _, .nan, _⟩ | ⟨_, .num _, .inf _, _⟩ => instDecidableTrue

/-! ### Digits that are counted -/

theorem fraction_ofList (cs : List Char) :
    fraction (String.ofList cs) = if '.' ∈ cs then some (fractionDigits cs) else none := by
  rw [fraction, String.toList_ofList, fractionDigits]

/-- A digit is one byte. -/
theorem utf8ByteSize_of_digits {cs : List Char} (h : ∀ c ∈ cs, c.isDigit = true) :
    (String.ofList cs).utf8ByteSize = cs.length := by
  rw [String.utf8ByteSize_ofList]
  induction cs with
  | nil => rfl
  | cons c cs ih =>
    obtain ⟨hc, hcs⟩ := List.forall_mem_cons.mp h
    have hsize : c.utf8Size = 1 := by
      rw [Char.utf8Size_eq_one_iff]
      simp only [Char.isDigit, Bool.and_eq_true, decide_eq_true_eq] at hc
      exact UInt32.le_trans hc.2 (by decide)
    rw [String.utf8Len_cons, ih hcs, hsize, List.length_cons]

section Floats

variable {name : String} {rule : Rule} {obj : ObjectInfo} {f : F32}

/-- Of a float, `validate` checks the range, and the digits of its text. -/
theorem validate_f32_iff (hrule : ruleFor name = some rule) (hobj : writableRows.getByName name = some obj)
    (hmin : rule.min ≠ .nan) (hfinite : f.mag < infMagnitude) :
    validate name (.f32 f) = .ok () ↔ rule.InRange f.datum ∧ (fractionDigits f.display).length ≤ rule.decimals := by
  have hsize := utf8ByteSize_of_digits (isDigit_of_mem_fractionDigits hfinite)
  unfold validate
  simp only [hrule, hobj, hmin, if_false, numeric, DataValue.display, fraction_ofList, Rule.InRange]
  by_cases hrange : rule.min.le f.datum = true ∧ f.datum.le rule.max = true
  · rw [if_neg (not_not.mpr hrange)]
    by_cases hdot : '.' ∈ f.display
    · simp only [hdot, if_true, hsize, hrange, and_self, true_and]
      split_ifs with hmany
      · exact iff_of_false (by rintro ⟨⟩) (not_le.mpr hmany)
      · exact iff_of_true rfl (not_lt.mp hmany)
    · simp only [hdot, if_false, hrange, and_self, fractionDigits_of_notMem hdot, List.length_nil, Nat.zero_le]
  · rw [if_pos hrange]
    exact iff_of_false (by rintro ⟨⟩) fun h => hrange h.1

end Floats

/-! ### Fractions that are typed -/

/-- A rule for numbers has bounds, well within single precision. -/
theorem Rule.FitsType.exists_bounds {rule : Rule} {dt : DataType} (h : rule.FitsType dt) (hne : dt ≠ .bool) :
    ∃ a b, rule.min = .num a ∧ rule.max = .num b ∧ -2 ^ 24 < a ∧ b < 2 ^ 24 := by
  cases dt with
  | bool => exact absurd rfl hne
  | enum => exact ⟨0, 5, h.1, h.2, by norm_num, by norm_num⟩
  | float => exact h.exists_float
  | _ => exact absurd h not_false

theorem Rule.FitsType.min_ne_nan {rule : Rule} {dt : DataType} (h : rule.FitsType dt) (hne : dt ≠ .bool) :
    rule.min ≠ .nan := by
  obtain ⟨a, b, hmin, -⟩ := h.exists_bounds hne
  simp [hmin]

theorem writable_boundsRound : ∀ rule ∈ WRITABLE, rule.BoundsRound := by
  decide +kernel

section Typed

variable {name : String} {rule : Rule} {obj : ObjectInfo}

/-- What `parse_value` makes of a decimal fraction. -/
theorem parseValue_fraction (hrule : ruleFor name = some rule) (hobj : writableRows.getByName name = some obj)
    (htype : obj.requestDataType ≠ .bool) (t : Fraction) :
    parseValue name (String.ofList t.chars) = .ok (.ok (.f32 (.ofRat t.negative t.magnitude))) := by
  have hdot : '.' ∈ t.chars := List.mem_append_right _ (List.mem_append_right _ List.mem_cons_self)
  rw [parseValue]
  simp only [hrule, hobj, unwrap, Except.map, htype, if_false, String.toList_ofList, hdot, if_true, t.parseF32_chars]

/-- A float in range is finite. -/
theorem finite_of_inRange {f : F32} (hfits : rule.FitsType obj.requestDataType) (htype : obj.requestDataType ≠ .bool)
    (h : rule.InRange f.datum) : ∃ q, f.datum = .num q ∧ -2 ^ 24 < q ∧ q < 2 ^ 24 := by
  obtain ⟨a, b, hmin, hmax, ha, hb⟩ := hfits.exists_bounds htype
  obtain ⟨hlo, hhi⟩ := h
  rw [hmin] at hlo
  rw [hmax] at hhi
  obtain ⟨q, hq, hqa, hqb⟩ := exists_num_of_le hlo hhi
  exact ⟨q, hq, by linarith, by linarith⟩

/-- A number in range is rounded to a float in range. -/
theorem inRange_ofRat (hrule : ruleFor name = some rule) (hfits : rule.FitsType obj.requestDataType)
    (htype : obj.requestDataType ≠ .bool) (neg : Bool) {x : ℚ} (hx : 0 ≤ x)
    (h : rule.InRange (.num (if neg then -x else x))) : rule.InRange (F32.ofRat neg x).datum := by
  obtain ⟨a, b, hmin, hmax, ha, hb⟩ := hfits.exists_bounds htype
  have hround := writable_boundsRound rule (List.mem_of_find?_eq_some hrule)
  rw [Rule.BoundsRound, hmin, hmax] at hround
  rw [Rule.InRange, hmin, hmax, Datum.le, Datum.le, decide_eq_true_iff, decide_eq_true_iff] at h
  have hlt : x ≤ (2 ^ 24 : ℕ) := by
    push_cast
    cases neg
    · rw [if_neg Bool.false_ne_true] at h
      linarith [h.2]
    · rw [if_pos rfl] at h
      linarith [h.1]
  have hfinite : roundMagnitude x < infMagnitude :=
    calc roundMagnitude x ≤ roundMagnitude (2 ^ 24 : ℕ) := roundMagnitude_mono hx hlt
      _ < infMagnitude := by decide +kernel
  rw [Rule.InRange, hmin, hmax, datum_ofRat neg hx hfinite, Datum.le, Datum.le, decide_eq_true_iff,
    decide_eq_true_iff]
  exact ⟨hround.1.trans (nearestValue_mono h.1), (nearestValue_mono h.2).trans hround.2⟩

/-- A valid float was typed as a fraction below the threshold. -/
theorem lt_overflowThreshold_of_validate (hrule : ruleFor name = some rule)
    (hobj : writableRows.getByName name = some obj) (htype : obj.requestDataType ≠ .bool) {t : Fraction}
    (h : validate name (.f32 (.ofRat t.negative t.magnitude)) = .ok ()) : t.magnitude < overflowThreshold := by
  have hfits := fitsType_of_ruleFor hrule hobj
  have hnan := hfits.min_ne_nan htype
  obtain ⟨q, hq, -⟩ := finite_of_inRange hfits htype (range_of_validate hrule hnan rfl h)
  have hfinite := (finite_of_datum hq).1
  by_contra hle
  have hrounded := (isRounded_iff t.negative t.magnitude_nonneg).mpr rfl
  rw [hrounded.infinite (not_lt.mp hle)] at hfinite
  exact absurd hfinite (lt_irrefl _)

/-- No float is nearer to a fraction below the threshold than the one it is parsed as. -/
theorem isNearest_of_lt {t : Fraction} (h : t.magnitude < overflowThreshold) :
    IsNearest t.number (.ofRat t.negative t.magnitude) :=
  have hrounded := (isRounded_iff t.negative t.magnitude_nonneg).mpr rfl
  isNearest_ofRat t.negative t.magnitude_nonneg (hrounded.finite h).1

/-- **A fraction that is typed is accepted for the float it is rounded to**, and written as this float. Below
the threshold no float is nearer to it; of two that are equally near it is the even one; and from the threshold
on it is infinity. It is accepted exactly when the float is in range, and some fraction with no more digits than
the rule allows is parsed as the same float. Nothing in range with so few digits is refused. -/
theorem writes_fraction (hrule : ruleFor name = some rule) (hobj : writableRows.getByName name = some obj)
    (htype : obj.requestDataType ≠ .bool) (t : Fraction) :
    ∃ f, parseValue name (String.ofList t.chars) = .ok (.ok (.f32 f)) ∧ IsRounded t.negative t.magnitude f ∧
      (t.magnitude < overflowThreshold → IsNearest t.number f) ∧
      (validate name (.f32 f) = .ok () ↔ rule.InRange f.datum ∧
        ∃ t' : Fraction, t'.frac.length ≤ rule.decimals ∧ parseF32 (String.ofList t'.chars) = some f) ∧
      (validate name (.f32 f) = .ok () → t.magnitude < overflowThreshold ∧
        ∃ payload, encodeFor obj.requestDataType (.f32 f) = .ok payload ∧
          Denotes obj.requestDataType payload (.f32 f)) ∧
      (rule.InRange (.num t.number) → t.frac.length ≤ rule.decimals → validate name (.f32 f) = .ok ()) := by
  have hfits := fitsType_of_ruleFor hrule hobj
  have hnan := hfits.min_ne_nan htype
  let f := F32.ofRat t.negative t.magnitude
  have hiff : validate name (.f32 f) = .ok () ↔ rule.InRange f.datum ∧
      ∃ t' : Fraction, t'.frac.length ≤ rule.decimals ∧ parseF32 (String.ofList t'.chars) = some f := by
    by_cases hrange : rule.InRange f.datum
    · obtain ⟨q, hq, -⟩ := finite_of_inRange hfits htype hrange
      have hfinite := (finite_of_datum hq).1
      rw [validate_f32_iff hrule hobj hnan hfinite, fractionDigits_display_le_iff_exists hfinite]
    · exact iff_of_false (fun h => hrange (range_of_validate hrule hnan rfl h)) fun h => hrange h.1
  have hrounded : IsRounded t.negative t.magnitude f := (isRounded_iff t.negative t.magnitude_nonneg).mpr rfl
  refine ⟨f, parseValue_fraction hrule hobj htype t, hrounded, isNearest_of_lt, hiff, ?_, ?_⟩
  · intro hvalid
    exact ⟨lt_overflowThreshold_of_validate hrule hobj htype hvalid, exists_payload_of_validate hrule hobj hvalid⟩
  · intro hnumber hdigits
    exact hiff.mpr ⟨inRange_ofRat hrule hfits htype t.negative t.magnitude_nonneg hnumber, t, hdigits, t.parseF32_chars⟩

end Typed

/-- A share of the battery is typed with two digits. -/
theorem writes_fraction_target :
    ∃ f, parseValue "power_mng.soc_target_set" "0.55" = .ok (.ok (.f32 f)) ∧
      validate "power_mng.soc_target_set" (.f32 f) = .ok () ∧ IsNearest (55 * 10 ^ (-2 : ℤ)) f := by
  let t : Fraction := ⟨.none, ['0'], ['5', '5'], by simp, by simp⟩
  obtain ⟨f, hparse, -, hnearest, -, -, haccept⟩ :=
    @writes_fraction "power_mng.soc_target_set" _ _ rfl rfl (by decide) t
  have hlt : t.magnitude < overflowThreshold := by decide +kernel
  exact ⟨f, hparse, haccept (by decide +kernel) (by decide), hnearest hlt⟩

/-- Nine digits are typed, and the float is that of two: a fraction is accepted that has more digits than
the rule allows. -/
example : parseValue "power_mng.soc_target_set" "0.550000001" = parseValue "power_mng.soc_target_set" "0.55" := by
  decide +kernel

/-! ### Values that are printed and typed again -/

section Printed

variable {name : String} {rule : Rule} {obj : ObjectInfo} {v : DataValue}

/-- The text of an integer value is the text of the integer. -/
theorem parseInt_of_intOf {n : ℤ} (hn : intOf v = some n) : parseInt v.display.toList = some n := by
  cases v <;> simp only [intOf, Option.some.injEq, reduceCtorEq] at hn <;> subst hn
  case i8 | i16 | i32 => exact parseInt_toString _
  all_goals exact parseInt_toString (Int.ofNat _)

/-- The text of a number without a decimal point is the text of the integer it is. -/
theorem parseInt_of_numeric {q : ℚ} (hq : numeric v = some (.num q)) (hlo : -2 ^ 24 < q) (hhi : q < 2 ^ 24)
    (hdot : '.' ∉ v.display.toList) :
    ∃ n : ℤ, parseInt v.display.toList = some n ∧ q = n ∧ ∀ f, v = .f32 f → f.mag ≠ 0 → F32.ofInt n = f := by
  rcases numeric_cases hq with ⟨f, rfl, hf⟩ | ⟨n, hn, hnq⟩
  · rw [DataValue.display, String.toList_ofList] at hdot ⊢
    obtain ⟨n, hparse, hqn, hback⟩ := parseInt_display_small hf hlo hhi hdot
    refine ⟨n, hparse, hqn, ?_⟩
    rintro g ⟨⟩ hmag
    exact hback hmag
  · refine ⟨n, parseInt_of_intOf hn, Datum.num.inj hnq, ?_⟩
    rintro f rfl
    cases hn

/-- A whole number in range is valid as a float. -/
theorem validate_ofInt (hrule : ruleFor name = some rule) (hobj : writableRows.getByName name = some obj)
    (hmin : rule.min ≠ .nan) {n : ℤ} (hn : n.natAbs < 2 ^ 24) (h : rule.InRange (.num n)) :
    validate name (.f32 (F32.ofInt n)) = .ok () := by
  have hdatum := datum_ofInt hn
  have hfinite := (finite_of_datum hdatum).1
  rw [validate_f32_iff hrule hobj hmin hfinite, fractionDigits_display_le_iff_exists hfinite, hdatum]
  obtain ⟨t, hsign, hlength, hvalue⟩ := exists_fraction (if n < 0 then .minus else .none) n.natAbs 0
  have hnegative : t.negative = decide (n < 0) := by
    rw [Fraction.negative, hsign]
    split <;> simp [*]
  refine ⟨h, t, by omega, ?_⟩
  rw [t.parseF32_chars, hvalue, hnegative, F32.ofInt]
  simp

/-- What an integer in range is written as, for a parameter of type `FLOAT`. -/
theorem encodeFor_float_int {n : ℤ} (hn : intOf v = some n) :
    encodeFor .float v = .ok (u32ToBe (F32.ofInt n).bits) := by
  obtain ⟨i, hi64, hin⟩ := toI64_of_intOf hn
  cases v <;> simp only [intOf, reduceCtorEq] at hn <;>
    simp only [encodeFor, normalizeFor, hi64, Except.map, hin, encodeValue]

/-- What a whole number is written as, for an enumeration. -/
theorem encodeFor_enum_int {n : ℤ} (hrange : -2 ^ 63 ≤ n ∧ n < 2 ^ 63) (hn : numeric v = some (.num n)) :
    encodeFor .enum v = .ok [UInt8.ofInt n] := by
  obtain ⟨i, hi64, hin⟩ := toI64_of_numeric hrange hn
  simp only [encodeFor, normalizeFor, hi64, Except.map, hin, encodeValue]

/-- The two zeros differ in their sign. -/
theorem eq_ofInt_zero {f : F32} (hmag : f.mag = 0) (hneg : f ≠ .ofMag true 0) : F32.ofInt 0 = f := by
  have hsign : f.neg = false := by
    by_contra hsign
    rw [Bool.not_eq_false] at hsign
    refine hneg (F32.ext_mag ?_ ?_)
    · rw [hsign, F32.neg_ofMag (by norm_num)]
    · rw [hmag, F32.mag_ofMag (by norm_num)]
  refine F32.ext_mag ?_ ?_
  · rw [F32.ofInt, neg_ofRat, hsign]
    rfl
  · rw [F32.ofInt, mag_ofRat, hmag]
    exact roundMagnitude_zero

/-- What comes of the text of a value: a value with the same number that is valid and, unless the first is
the negative zero, is written with the same bytes. -/
def Retypes (name : String) (dt : DataType) (v : DataValue) : Prop :=
  ∃ w, parseValue name v.display = .ok (.ok w) ∧ validate name w = .ok () ∧ numeric w = numeric v ∧
    (v ≠ .f32 (.ofMag true 0) → encodeFor dt w = encodeFor dt v)

theorem retypes_bool (hrule : ruleFor name = some rule) (hobj : writableRows.getByName name = some obj)
    (htype : obj.requestDataType = .bool) (h : validate name v = .ok ()) : Retypes name .bool v := by
  have hfits := fitsType_of_ruleFor hrule hobj
  rw [htype] at hfits
  obtain ⟨b, rfl⟩ := bool_of_validate hrule hfits h
  refine ⟨.bool b, ?_, h, rfl, fun _ => rfl⟩
  rw [parseValue]
  simp only [hrule, hobj, unwrap, Except.map, htype, if_true, DataValue.display]
  have htrue : "true".toLower = "true" := by decide +kernel
  have hfalse : "false".toLower = "false" := by decide +kernel
  cases b with
  | true => simp [htrue]
  | false => simp [hfalse]

/-- A text with a decimal point is that of a float, and is read back. -/
theorem retypes_dot (hrule : ruleFor name = some rule) (hobj : writableRows.getByName name = some obj)
    (htype : obj.requestDataType ≠ .bool) (h : validate name v = .ok ()) {q : ℚ} (hq : numeric v = some (.num q))
    (hdot : '.' ∈ v.display.toList) (dt : DataType) : Retypes name dt v := by
  rcases numeric_cases hq with ⟨f, rfl, hf⟩ | ⟨n, hn, -⟩
  · refine ⟨.f32 f, ?_, h, rfl, fun _ => rfl⟩
    have hback : parseF32 (DataValue.f32 f).display = some f := by
      rw [DataValue.display, String.toList_ofList] at hdot
      exact parseF32_display (finite_of_datum hf).1 hdot
    rw [parseValue]
    simp only [hrule, hobj, unwrap, Except.map, htype, if_false, hdot, if_true, hback]
  · exact absurd hdot (dot_notMem_of_parseInt (parseInt_of_intOf hn))

section Whole

variable {q : ℚ} (hrule : ruleFor name = some rule) (hobj : writableRows.getByName name = some obj)
  (h : validate name v = .ok ()) (hq : numeric v = some (.num q)) (hdot : '.' ∉ v.display.toList)

include hrule hobj h hq hdot

/-- For an enumeration, the text of an integer is read as a byte. -/
theorem retypes_enum (htype : obj.requestDataType = .enum) : Retypes name .enum v := by
  have hfits := fitsType_of_ruleFor hrule hobj
  rw [htype] at hfits
  have hnan : rule.min ≠ .nan := by simp [hfits.1]
  have hrange : rule.InRange (.num q) := range_of_validate hrule hnan hq h
  have hbounds := hrange
  rw [Rule.InRange, hfits.1, hfits.2, Datum.le, Datum.le, decide_eq_true_iff, decide_eq_true_iff] at hbounds
  obtain ⟨n, hparse, rfl, -⟩ := parseInt_of_numeric hq (by linarith [hbounds.1]) (by linarith [hbounds.2]) hdot
  have hn : 0 ≤ n ∧ n ≤ 5 := ⟨by exact_mod_cast hbounds.1, by exact_mod_cast hbounds.2⟩
  have hn64 : -2 ^ 63 ≤ n ∧ n < 2 ^ 63 := by omega
  have hbyte : ((UInt8.ofInt n).toNat : ℤ) = n := by
    have := toNat_ofInt8 n
    omega
  have hnum : numeric (.u8 (UInt8.ofInt n)) = some (.num n) := by
    rw [numeric, ← hbyte, Int.cast_natCast]
    rw [hbyte]
  refine ⟨.u8 (UInt8.ofInt n), ?_, ?_, hnum.trans hq.symm, fun _ => ?_⟩
  · rw [parseValue_enum hrule hobj htype hparse, if_pos hn64]
  · exact validate_of_range hrule hobj hnan hnum hrange (dot_notMem_display_u8 _)
  · rw [encodeFor_enum_int hn64 hnum, encodeFor_enum_int hn64 hq]

/-- For a float, it is read as the float of the integer. -/
theorem retypes_float (htype : obj.requestDataType = .float) : Retypes name .float v := by
  have hfits := fitsType_of_ruleFor hrule hobj
  obtain ⟨a, b, hmin, hmax, ha, hb⟩ := hfits.exists_bounds (htype ▸ by decide)
  have hnan : rule.min ≠ .nan := by simp [hmin]
  have hrange : rule.InRange (.num q) := range_of_validate hrule hnan hq h
  have hbounds := hrange
  rw [Rule.InRange, hmin, hmax, Datum.le, Datum.le, decide_eq_true_iff, decide_eq_true_iff] at hbounds
  obtain ⟨n, hparse, rfl, hback⟩ := parseInt_of_numeric hq (by linarith [hbounds.1]) (by linarith [hbounds.2]) hdot
  have hlow : -2 ^ 24 < n := by exact_mod_cast ha.trans_le hbounds.1
  have hhigh : n < 2 ^ 24 := by exact_mod_cast hbounds.2.trans_lt hb
  have hdatum : (F32.ofInt n).datum = .num n := datum_ofInt (by omega)
  refine ⟨.f32 (F32.ofInt n), ?_, validate_ofInt hrule hobj hnan (by omega) hrange, ?_, fun hneg => ?_⟩
  · rw [parseValue_float hrule hobj htype hparse, if_pos (by omega)]
  · rw [hq, numeric, hdatum]
  · rcases numeric_cases hq with ⟨f, rfl, hf⟩ | ⟨m, hm, hnm⟩
    · by_cases hmag : f.mag = 0
      · obtain rfl : n = 0 := by
          have hzero := (finite_of_datum hf).2
          rw [hmag, magnitude_zero, neg_zero, ite_self] at hzero
          exact_mod_cast hzero.symm
        rw [eq_ofInt_zero hmag fun heq => hneg (congrArg _ heq)]
      · rw [hback f rfl hmag]
    · obtain rfl : n = m := by simpa using hnm
      rw [encodeFor_float_int hm]
      rfl

end Whole

/-- **A valid value can be printed and typed again**: its text is parsed as a valid value with the same
number, and what is written is the same, except that the negative zero loses its sign. -/
theorem retypes (h : validate name v = .ok ()) :
    ∃ obj, writableRows.getByName name = some obj ∧ Retypes name obj.requestDataType v := by
  obtain ⟨rule, obj, hrule, hobj⟩ := exists_rule_of_validate h
  refine ⟨obj, hobj, ?_⟩
  by_cases hbool : obj.requestDataType = .bool
  · rw [hbool]
    exact retypes_bool hrule hobj hbool h
  have hfits := fitsType_of_ruleFor hrule hobj
  have hnan := hfits.min_ne_nan hbool
  obtain ⟨x, hx⟩ := numeric_of_validate hrule hnan h
  obtain ⟨a, b, hmin, hmax, -⟩ := hfits.exists_bounds hbool
  obtain ⟨hlo, hhi⟩ := range_of_validate hrule hnan hx h
  rw [hmin] at hlo
  rw [hmax] at hhi
  obtain ⟨q, rfl, -⟩ := exists_num_of_le hlo hhi
  by_cases hdot : '.' ∈ v.display.toList
  · exact retypes_dot hrule hobj hbool h hx hdot _
  · rcases (type_of_ruleFor hrule hobj).resolve_left hbool with henum | hfloat
    · rw [henum]
      exact retypes_enum hrule hobj h hx hdot henum
    · rw [hfloat]
      exact retypes_float hrule hobj h hx hdot hfloat

/-- The strategy `3`, given as a float. -/
theorem retypes_strategy :
    ∃ obj, writableRows.getByName "power_mng.soc_strategy" = some obj ∧
      Retypes "power_mng.soc_strategy" obj.requestDataType (.f32 (F32.ofInt 3)) :=
  retypes (by decide +kernel)

end Printed

end RctPower
