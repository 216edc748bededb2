import RctPower.Protocol.ValueCodec
import RctPower.Settings.Writable

/-!
# Validated values

`validate` looks at the number of a value and at the digits of its text; `encode_for` makes bytes of
the value with casts that wrap, truncate and round. `validate_encodes` says that they agree: a value
that is valid has a payload, and the payload denotes the value itself (`Denotes`).

An enumeration takes a float too, whose cast truncates. It is the digits that settle this case: the
rule allows none after the decimal point, and a float without any is an integer
(`exists_fraction_display`).
-/

namespace RctPower

open RctPower.Lib.Rust RctPower.Lib.Binary32

/-- The payload of a value, for the types a parameter can have: the truth value as a byte, the byte
equal to the number, or the float equal to the number, with the same bits when the value is a
float. -/
def Denotes (dt : DataType) (payload : List UInt8) (v : DataValue) : Prop :=
  match dt with
  | .bool => ∃ b, v = .bool b ∧ payload = [if b then 1 else 0]
  | .enum => ∃ b : UInt8, payload = [b] ∧ numeric v = some (.num b.toNat)
  | .float =>
    ∃ f : F32, payload = u32ToBe f.bits ∧ (∃ q, f.datum = .num q ∧ numeric v = some (.num q)) ∧
      ∀ g, v = .f32 g → g = f
  | _ => False

/-! ### The number of a value -/

/-- A value that has a number is a float or an integer. -/
theorem numeric_cases {v : DataValue} {x : Datum} (h : numeric v = some x) :
    (∃ f, v = .f32 f ∧ f.datum = x) ∨ ∃ n : ℤ, intOf v = some n ∧ x = .num n := by
  cases v <;> simp only [numeric, Option.some.injEq, reduceCtorEq] at h <;> subst h
  case f32 f => exact .inl ⟨f, rfl, rfl⟩
  all_goals exact .inr ⟨_, rfl, by simp⟩

/-- A number between two others is finite. -/
theorem exists_num_of_le {a b : ℚ} {x : Datum} (hlo : (Datum.num a).le x = true) (hhi : x.le (.num b) = true) :
    ∃ q, x = .num q ∧ a ≤ q ∧ q ≤ b := by
  cases x with
  | nan => cases hlo
  | inf neg =>
    cases neg
    · cases hhi
    · cases hlo
  | num q => exact ⟨q, rfl, of_decide_eq_true hlo, of_decide_eq_true hhi⟩

theorem truncate_intCast (n : ℤ) : truncate (n : ℚ) = n := by
  rw [truncate, Int.floor_intCast, Int.ceil_intCast, ite_self]

/-- A number that is a 64-bit integer is cast to that integer. -/
theorem toI64_of_numeric {v : DataValue} {n : ℤ} (hn : -2 ^ 63 ≤ n ∧ n < 2 ^ 63) (h : numeric v = some (.num n)) :
    ∃ i, toI64 v = .ok i ∧ i.toInt = n := by
  rcases numeric_cases h with ⟨f, rfl, hf⟩ | ⟨m, hm, hnm⟩
  · refine ⟨_, rfl, ?_⟩
    have hcast : f.datum.toInt (-2 ^ 63) (2 ^ 63 - 1) = n := by
      rw [hf, Datum.toInt, truncate_intCast]
      omega
    rw [hcast, toInt_ofInt64 hn]
  · obtain rfl : n = m := by simpa using hnm
    exact toI64_of_intOf hm

/-! ### What `validate` checks -/

section Rules

variable {name : String} {rule : Rule} {obj : ObjectInfo} {v : DataValue}

/-- There is a rule and an object for a name that has valid values. -/
theorem exists_rule_of_validate (h : validate name v = .ok ()) :
    ∃ rule obj, ruleFor name = some rule ∧ writableRows.getByName name = some obj := by
  unfold validate at h
  cases hrule : ruleFor name with
  | none => rw [hrule] at h; cases h
  | some rule =>
    cases hobj : writableRows.getByName name with
    | none => rw [hrule, hobj] at h; cases h
    | some obj => exact ⟨rule, obj, rfl, rfl⟩

/-- The digits after the decimal point of a valid number are no more than the rule allows. -/
theorem decimals_of_validate (hrule : ruleFor name = some rule) (hmin : rule.min ≠ .nan) {x : Datum}
    (hx : numeric v = some x) (h : validate name v = .ok ()) {frac : List Char}
    (hfrac : fraction v.display = some frac) :
    (String.ofList frac).utf8ByteSize ≤ rule.decimals := by
  unfold validate at h
  simp only [hrule, hmin, if_false, hx, hfrac] at h
  split at h
  · cases h
  · by_contra hmany
    rw [if_pos (not_le.mp hmany)] at h
    split at h <;> cases h

/-- A parameter without a range takes truth values only. -/
theorem bool_of_validate (hrule : ruleFor name = some rule) (hmin : rule.min = .nan) (h : validate name v = .ok ()) :
    ∃ b, v = .bool b := by
  unfold validate at h
  simp only [hrule, hmin, if_true] at h
  split at h
  · cases h
  · split at h
    · exact ⟨_, rfl⟩
    · cases h

/-- A parameter with a range takes numbers only. -/
theorem numeric_of_validate (hrule : ruleFor name = some rule) (hmin : rule.min ≠ .nan)
    (h : validate name v = .ok ()) : ∃ x, numeric v = some x := by
  unfold validate at h
  cases hx : numeric v with
  | some x => exact ⟨x, rfl⟩
  | none =>
    simp only [hrule, hmin, if_false, hx] at h
    split at h <;> cases h

/-- The rule of an enumeration allows no digits after the decimal point. -/
theorem decimals_of_enum (hrule : ruleFor name = some rule) (hobj : writableRows.getByName name = some obj)
    (htype : obj.requestDataType = .enum) : rule.decimals = 0 := by
  have hname : rule.name = name := by simpa using List.find?_some hrule
  have htable : ∀ r ∈ WRITABLE, ∀ o ∈ writableRows.getByName r.name, o.requestDataType = .enum → r.decimals = 0 := by
    decide +kernel
  exact htable rule (List.mem_of_find?_eq_some hrule) obj (hname ▸ hobj) htype

/-- A float whose text has no digits after a decimal point is an integer. -/
theorem exists_int_of_fraction {f : F32} {q : ℚ} (hf : f.datum = .num q)
    (h : ∀ frac, fraction (DataValue.f32 f).display = some frac → (String.ofList frac).utf8ByteSize ≤ 0) :
    ∃ n : ℤ, q = n := by
  by_contra hint
  obtain ⟨whole, frac, htext, hwhole, hne⟩ := exists_fraction_display hf (not_exists.mp hint)
  have hdrop : ∀ {cs : List Char}, '.' ∉ cs → (cs ++ '.' :: frac).dropWhile (· ≠ '.') = '.' :: frac := by
    intro cs hcs
    rw [List.dropWhile_append_of_pos]
    · rfl
    · intro c hc
      simp only [ne_eq, decide_not, Bool.not_eq_true', decide_eq_false_iff_not]
      rintro rfl
      exact hcs hc
  have hfrac : fraction (DataValue.f32 f).display = some frac := by
    simp only [fraction, DataValue.display, String.toList_ofList, htext, hdrop hwhole, List.mem_append,
      List.mem_cons, true_or, or_true, if_true, List.drop_succ_cons, List.drop_zero]
  have hempty := String.utf8ByteSize_eq_zero_iff.mp (Nat.le_zero.mp (h frac hfrac))
  exact hne (by simpa using congrArg String.toList hempty)

/-! ### The payload of a valid value -/

theorem denotes_bool (hrule : ruleFor name = some rule) (hobj : writableRows.getByName name = some obj)
    (htype : obj.requestDataType = .bool) (h : validate name v = .ok ()) :
    ∃ payload, encodeFor .bool v = .ok payload ∧ Denotes .bool payload v := by
  have hmin : rule.min = .nan := by
    have hfits := fitsType_of_ruleFor hrule hobj
    rwa [htype] at hfits
  obtain ⟨b, rfl⟩ := bool_of_validate hrule hmin h
  exact ⟨_, rfl, b, rfl, rfl⟩

theorem denotes_enum (hrule : ruleFor name = some rule) (hobj : writableRows.getByName name = some obj)
    (htype : obj.requestDataType = .enum) (h : validate name v = .ok ()) :
    ∃ payload, encodeFor .enum v = .ok payload ∧ Denotes .enum payload v := by
  have hfits := fitsType_of_ruleFor hrule hobj
  rw [htype] at hfits
  obtain ⟨hmin, hmax⟩ := hfits
  have hnan : rule.min ≠ .nan := by simp [hmin]
  obtain ⟨x, hx⟩ := numeric_of_validate hrule hnan h
  obtain ⟨hlo, hhi⟩ := range_of_validate hrule hnan hx h
  rw [hmin] at hlo
  rw [hmax] at hhi
  obtain ⟨q, rfl, hq0, hq5⟩ := exists_num_of_le hlo hhi
  obtain ⟨n, rfl⟩ : ∃ n : ℤ, q = n := by
    rcases numeric_cases hx with ⟨f, rfl, hf⟩ | ⟨n, -, hn⟩
    · refine exists_int_of_fraction hf fun frac hfrac => ?_
      exact decimals_of_enum hrule hobj htype ▸ decimals_of_validate hrule hnan hx h hfrac
    · exact ⟨n, Datum.num.inj hn⟩
  have hn0 : 0 ≤ n := by exact_mod_cast hq0
  have hn5 : n ≤ 5 := by exact_mod_cast hq5
  obtain ⟨i, hi64, hin⟩ := toI64_of_numeric (by omega) hx
  have hbyte := toNat_ofInt8 n
  have hself : ((UInt8.ofInt n).toNat : ℤ) = n := by omega
  refine ⟨[UInt8.ofInt n], ?_, UInt8.ofInt n, rfl, ?_⟩
  · simp only [encodeFor, normalizeFor, hi64, Except.map, hin, encodeValue]
  · have hcast : (((UInt8.ofInt n).toNat : ℤ) : ℚ) = n := by rw [hself]
    rw [hx, ← hcast, Int.cast_natCast]

/-- The bounds of the rules are well within the integers that single precision has all of. -/
theorem denotes_float (hrule : ruleFor name = some rule) (hobj : writableRows.getByName name = some obj)
    (htype : obj.requestDataType = .float) (h : validate name v = .ok ()) :
    ∃ payload, encodeFor .float v = .ok payload ∧ Denotes .float payload v := by
  have hfits := fitsType_of_ruleFor hrule hobj
  rw [htype] at hfits
  obtain ⟨a, b, hmin, hmax, ha, hb⟩ := hfits.exists_float
  have hnan : rule.min ≠ .nan := by simp [hmin]
  obtain ⟨x, hx⟩ := numeric_of_validate hrule hnan h
  obtain ⟨hlo, hhi⟩ := range_of_validate hrule hnan hx h
  rw [hmin] at hlo
  rw [hmax] at hhi
  obtain ⟨q, rfl, hqa, hqb⟩ := exists_num_of_le hlo hhi
  rcases numeric_cases hx with ⟨f, rfl, hf⟩ | ⟨n, hn, hnq⟩
  · exact ⟨_, rfl, f, rfl, ⟨q, hf, hx⟩, fun g hg => (DataValue.f32.inj hg).symm⟩
  · obtain rfl : q = n := Datum.num.inj hnq
    have hlow : -2 ^ 24 < n := by exact_mod_cast lt_of_lt_of_le ha hqa
    have hhigh : n < 2 ^ 24 := by exact_mod_cast lt_of_le_of_lt hqb hb
    have hexact : (F32.ofInt n).datum = .num n := datum_ofInt (by omega)
    obtain ⟨i, hi64, hin⟩ := toI64_of_intOf hn
    refine ⟨u32ToBe (F32.ofInt n).bits, ?_, F32.ofInt n, rfl, ⟨n, hexact, hx⟩, ?_⟩
    · cases v <;> simp only [intOf, reduceCtorEq] at hn <;>
        simp only [encodeFor, normalizeFor, hi64, Except.map, hin, encodeValue]
    · rintro g rfl
      cases hn

/-- A valid value has a payload that denotes it. -/
theorem exists_payload_of_validate (hrule : ruleFor name = some rule) (hobj : writableRows.getByName name = some obj)
    (h : validate name v = .ok ()) :
    ∃ payload, encodeFor obj.requestDataType v = .ok payload ∧ Denotes obj.requestDataType payload v := by
  rcases type_of_ruleFor hrule hobj with htype | htype | htype
  · rw [htype]
    exact denotes_bool hrule hobj htype h
  · rw [htype]
    exact denotes_enum hrule hobj htype h
  · rw [htype]
    exact denotes_float hrule hobj htype h

/-- **A valid value is encoded without loss**: it has a payload in the type of its parameter, and the
payload denotes it. -/
theorem validate_encodes (h : validate name v = .ok ()) :
    ∃ obj payload, writableRows.getByName name = some obj ∧ encodeFor obj.requestDataType v = .ok payload ∧
      Denotes obj.requestDataType payload v := by
  obtain ⟨rule, obj, hrule, hobj⟩ := exists_rule_of_validate h
  obtain ⟨payload, hencode, hdenotes⟩ := exists_payload_of_validate hrule hobj h
  exact ⟨obj, payload, hobj, hencode, hdenotes⟩

/-- A whole number of watts, given as an integer, for a float. -/
theorem validate_encodes_minus6000 :
    ∃ obj payload, writableRows.getByName "power_mng.battery_power_extern" = some obj ∧
      encodeFor obj.requestDataType (.i32 (-6000)) = .ok payload ∧
      Denotes obj.requestDataType payload (.i32 (-6000)) :=
  validate_encodes (by decide +kernel)

end Rules

end RctPower
