import RctPower.Protocol.Codec
import RctPower.Settings.Registry

/-!
# Writing a parameter

The rules for the parameters that can be written, and the way of a value from the
text an operator types to the payload of a frame (`writable.rs`): `parse_value` makes a
native value of the text, `validate` checks it against its rule, `encode_for` makes
the payload. Bounds are double-precision floats; `Datum` has them exactly.

## What is proved

`writesTyped_iff` says for which integers the three together keep the promise that
what is written is what was typed, and is in range. For the parameters of type
`FLOAT` it is all of them. For a parameter of type `ENUM` the text is parsed as a 64-bit
integer and cast to a byte before it is checked, so the check sees the low eight bits:
the integers that fail are those whose low byte is in range and which are not
themselves a byte.
-/

namespace RctPower

open RctPower.Lib.Rust RctPower.Lib.Binary32

/-- The rule for a parameter. -/
structure Rule where
  /-- The name of the parameter. -/
  name : String
  /-- The least value; not a number for a parameter that is a truth value. -/
  min : Datum
  /-- The greatest value. -/
  max : Datum
  /-- How many digits may follow the decimal point. -/
  decimals : ℕ
  deriving DecidableEq

/-- The double nearest to `0.05`. -/
def doubleTwentieth : ℚ := 3602879701896397 / 2 ^ 56

/-- Parameters accepted by the write-support tool with their validation rules. -/
def WRITABLE : List Rule :=
  [⟨"power_mng.soc_strategy", .num 0, .num 5, 0⟩,
   ⟨"power_mng.soc_target_set", .num 0, .num 1, 2⟩,
   ⟨"power_mng.battery_power_extern", .num (-6000), .num 6000, 2⟩,
   ⟨"power_mng.soc_min", .num doubleTwentieth, .num 1, 2⟩,
   ⟨"power_mng.soc_max", .num 0, .num 1, 2⟩,
   ⟨"power_mng.soc_charge_power", .num (-999999), .num 999999, 2⟩,
   ⟨"power_mng.soc_charge", .num (-999999), .num 999999, 2⟩,
   ⟨"p_rec_lim[1]", .num 0, .num 6000, 2⟩,
   ⟨"power_mng.use_grid_power_enable", .nan, .nan, 0⟩,
   ⟨"buf_v_control.power_reduction", .num 0, .num 1, 3⟩]

/-- The rule for a name. -/
def ruleFor (name : String) : Option Rule := WRITABLE.find? (·.name = name)

/-- The number of a value, as a double. -/
def numeric : DataValue → Option Datum
  | .f32 f => some f.datum
  | .i8 i => some (.num i.toInt)
  | .u8 i => some (.num i.toNat)
  | .i16 i => some (.num i.toInt)
  | .u16 i => some (.num i.toNat)
  | .i32 i => some (.num i.toInt)
  | .u32 i => some (.num i.toNat)
  | _ => none

/-- What follows the decimal point in the text of a value. -/
def fraction (s : String) : Option (List Char) :=
  if '.' ∈ s.toList then some ((s.toList.dropWhile (· ≠ '.')).drop 1) else none

/-- Validate a value against the rules and resolve it via the registry. -/
def validate (name : String) (value : DataValue) : Except RctError Unit :=
  match ruleFor name with
  | none => .error (.invalidValue name value.display)
  | some rule =>
    match writableRows.getByName name with
    | none => .error (.invalidValue name value.display)
    | some _ =>
      if rule.min = .nan then
        match value with
        | .bool _ => .ok ()
        | _ => .error (.invalidValue name value.display)
      else
        match numeric value with
        | none => .error (.invalidValue name value.display)
        | some v =>
          if ¬ (rule.min.le v ∧ v.le rule.max) then .error (.valueOutOfRange name v rule.min rule.max)
          else
            -- decimal precision check: count decimals of the text
            match fraction value.display with
            | some frac =>
              if rule.decimals < (String.ofList frac).utf8ByteSize then .error (.invalidValue name value.display)
              else .ok ()
            | none => .ok ()

/-- Parse a CLI string value for a parameter. The casts keep the low bits. -/
def parseValue (name raw : String) : Checked (Except RctError DataValue) :=
  match ruleFor name with
  | none => .ok (.error (.invalidValue name raw))
  | some _ => (unwrap (writableRows.getByName name)).map fun obj =>
    if obj.requestDataType = .bool then
      if raw.toLower = "true" then .ok (.bool true)
      else if raw.toLower = "false" then .ok (.bool false)
      else .error (.invalidValue name raw)
    else if '.' ∈ raw.toList then
      match parseF32 raw with
      | none => .error (.invalidValue name raw)
      | some f => .ok (.f32 f)
    else
      match parseI64 raw with
      | none => .error (.invalidValue name raw)
      | some i =>
        .ok (match obj.requestDataType with
          | .float => .f32 (F32.ofInt i.toInt)
          | .enum | .uint8 => .u8 (UInt8.ofInt i.toInt)
          | .int8 => .i8 (Int8.ofInt i.toInt)
          | .uint16 => .u16 (UInt16.ofInt i.toInt)
          | .int16 => .i16 (Int16.ofInt i.toInt)
          | .uint32 => .u32 (UInt32.ofInt i.toInt)
          | _ => .i32 (Int32.ofInt i.toInt))

/-! ### The rules and the registry -/

/-- How the rule of a parameter fits its type: a truth value has no range, an enumeration
has that of `soc_strategy`, and a float has one that single precision is exact in. -/
def Rule.FitsType (rule : Rule) : DataType → Prop
  | .bool => rule.min = .nan
  | .enum => rule.min = .num 0 ∧ rule.max = .num 5
  | .float =>
    match rule.min, rule.max with
    | .num a, .num b => -2 ^ 24 < a ∧ b < 2 ^ 24
    | _, _ => False
  | _ => False

instance (rule : Rule) (dt : DataType) : Decidable (rule.FitsType dt) := by
  unfold Rule.FitsType
  split <;> first | infer_instance | (split <;> infer_instance)

theorem Rule.FitsType.exists_float {rule : Rule} (h : rule.FitsType .float) :
    ∃ a b, rule.min = .num a ∧ rule.max = .num b ∧ -2 ^ 24 < a ∧ b < 2 ^ 24 := by
  rcases rule with ⟨name, min, max, decimals⟩
  cases min <;> cases max <;> first | exact absurd h not_false | exact ⟨_, _, rfl, rfl, h⟩

/-- Every rule is for an object of the registry, and fits its type. -/
theorem writable_fitsType :
    ∀ rule ∈ WRITABLE, ∃ obj, writableRows.getByName rule.name = some obj ∧ rule.FitsType obj.requestDataType := by
  decide +kernel

theorem fitsType_of_ruleFor {name : String} {rule : Rule} {obj : ObjectInfo} (hrule : ruleFor name = some rule)
    (hobj : writableRows.getByName name = some obj) : rule.FitsType obj.requestDataType := by
  have hname : rule.name = name := by simpa using List.find?_some hrule
  obtain ⟨obj', hobj', hfits⟩ := writable_fitsType rule (List.mem_of_find?_eq_some hrule)
  rw [hname, hobj, Option.some.injEq] at hobj'
  exact hobj' ▸ hfits

/-- A parameter that can be written is a truth value, an enumeration or a float. -/
theorem type_of_ruleFor {name : String} {rule : Rule} {obj : ObjectInfo} (hrule : ruleFor name = some rule)
    (hobj : writableRows.getByName name = some obj) :
    obj.requestDataType = .bool ∨ obj.requestDataType = .enum ∨ obj.requestDataType = .float := by
  have hfits := fitsType_of_ruleFor hrule hobj
  revert hfits
  cases obj.requestDataType <;> simp [Rule.FitsType]

/-! ### Texts of integers -/

/-- The text of an integer has no decimal point. -/
theorem dot_notMem_of_parseInt {cs : List Char} {n : ℤ} (h : parseInt cs = some n) : '.' ∉ cs := by
  obtain ⟨k, hk, -⟩ := Option.map_eq_some_iff.mp h
  have hdigits : ((parseSign cs).2).all Char.isDigit = true := by
    rw [parseDigits] at hk
    split_ifs at hk with hd
    exact hd.2
  have hrest : '.' ∉ (parseSign cs).2 := fun hmem => absurd (List.all_eq_true.mp hdigits _ hmem) (by decide)
  unfold parseSign at hrest
  split at hrest
  · simpa using hrest
  · simpa using hrest
  · exact hrest

/-- A 64-bit integer is parsed from the text of an integer in its range, and from no other. -/
theorem parseI64_of_parseInt {raw : String} {n : ℤ} (h : parseInt raw.toList = some n) :
    parseI64 raw = if -2 ^ 63 ≤ n ∧ n < 2 ^ 63 then some (Int64.ofInt n) else none := by
  rw [parseI64]
  rw [h, Option.bind_some]

theorem toInt_ofInt64 {n : ℤ} (h : -2 ^ 63 ≤ n ∧ n < 2 ^ 63) : (Int64.ofInt n).toInt = n :=
  Int64.toInt_ofInt_of_le h.1 h.2

section Pipeline

variable {name raw : String} {rule : Rule} {obj : ObjectInfo} {n : ℤ}

/-- What `parse_value` makes of the text of an integer, for an enumeration. -/
theorem parseValue_enum (hrule : ruleFor name = some rule) (hobj : writableRows.getByName name = some obj)
    (htype : obj.requestDataType = .enum) (hraw : parseInt raw.toList = some n) :
    parseValue name raw =
      .ok (if -2 ^ 63 ≤ n ∧ n < 2 ^ 63 then .ok (.u8 (UInt8.ofInt n)) else .error (.invalidValue name raw)) := by
  rw [parseValue]
  simp only [hrule, hobj, unwrap, Except.map, htype, reduceCtorEq, if_false, dot_notMem_of_parseInt hraw,
    parseI64_of_parseInt hraw]
  split_ifs with hn
  · simp only [toInt_ofInt64 hn]
  · rfl

/-- And for a float. -/
theorem parseValue_float (hrule : ruleFor name = some rule) (hobj : writableRows.getByName name = some obj)
    (htype : obj.requestDataType = .float) (hraw : parseInt raw.toList = some n) :
    parseValue name raw =
      .ok (if -2 ^ 63 ≤ n ∧ n < 2 ^ 63 then .ok (.f32 (F32.ofInt n)) else .error (.invalidValue name raw)) := by
  rw [parseValue]
  simp only [hrule, hobj, unwrap, Except.map, htype, reduceCtorEq, if_false, dot_notMem_of_parseInt hraw,
    parseI64_of_parseInt hraw]
  split_ifs with hn
  · simp only [toInt_ofInt64 hn]
  · rfl

/-- A number that passes validation is in the range of its rule. -/
theorem range_of_validate (hrule : ruleFor name = some rule) (hmin : rule.min ≠ .nan) {value : DataValue} {v : Datum}
    (hv : numeric value = some v) (h : validate name value = .ok ()) : rule.min.le v = true ∧ v.le rule.max = true := by
  unfold validate at h
  simp only [hrule, hmin, if_false, hv] at h
  split at h
  · cases h
  · by_contra hout
    rw [if_pos hout] at h
    cases h

/-- A number in range whose text has no decimal point passes. -/
theorem validate_of_range (hrule : ruleFor name = some rule) (hobj : writableRows.getByName name = some obj)
    (hmin : rule.min ≠ .nan) {value : DataValue} {v : Datum} (hv : numeric value = some v)
    (hrange : rule.min.le v = true ∧ v.le rule.max = true) (hdot : '.' ∉ value.display.toList) :
    validate name value = .ok () := by
  unfold validate
  simp only [hrule, hobj, hmin, if_false, hv, hrange, and_self, not_true_eq_false, fraction, hdot]

end Pipeline

/-- The text of a byte has no decimal point. -/
theorem dot_notMem_display_u8 (b : UInt8) : '.' ∉ (DataValue.u8 b).display.toList := by
  have : (DataValue.u8 b).display.toList = Nat.toDigits 10 b.toNat := by
    simp [DataValue.display, toString, Nat.repr]
  rw [this]
  exact dot_notMem_toDigits _

/-- A byte is encoded as itself for an enumeration. -/
theorem encodeFor_enum_u8 (b : UInt8) : encodeFor .enum (.u8 b) = .ok [b] := by
  have hb := b.toNat_lt
  have hcast : UInt8.ofInt (Int64.ofInt b.toNat).toInt = b := by
    rw [toInt_ofInt64 (by omega), ofInt8_toNat]
  simp only [encodeFor, normalizeFor, toI64, Except.map, hcast, encodeValue]

/-! ### What is written is what was typed -/

/-- The payload carries the integer: as the unsigned byte for an enumeration, as the float
of the integer, which denotes it exactly, for a float. -/
def Carries (dt : DataType) (payload : List UInt8) (n : ℤ) : Prop :=
  match dt with
  | .enum => ∃ b : UInt8, payload = [b] ∧ (b.toNat : ℤ) = n
  | .float => payload = u32ToBe (F32.ofInt n).bits ∧ (F32.ofInt n).datum = .num n
  | _ => False

/-- If the text is parsed to a value that is valid, the integer `n` is in the range of the
rule, and the payload of the value carries it. -/
def WritesTyped (name raw : String) (rule : Rule) (obj : ObjectInfo) (n : ℤ) : Prop :=
  ∀ v, parseValue name raw = .ok (.ok v) → validate name v = .ok () →
    (rule.min.le (.num n) = true ∧ (Datum.num n).le rule.max = true) ∧
      ∃ payload, encodeFor obj.requestDataType v = .ok payload ∧ Carries obj.requestDataType payload n

/-- A 64-bit integer that is not a byte, and whose low byte is a value of the enumeration. -/
def WrapsIntoRange (n : ℤ) : Prop := (-2 ^ 63 ≤ n ∧ n < 2 ^ 63) ∧ ¬ (0 ≤ n ∧ n < 2 ^ 8) ∧ n % 2 ^ 8 ≤ 5

section Results

variable {name raw : String} {rule : Rule} {obj : ObjectInfo} {n : ℤ}

/-- For an enumeration, the checked number is the low byte. -/
theorem writesTyped_enum_iff (hrule : ruleFor name = some rule) (hobj : writableRows.getByName name = some obj)
    (htype : obj.requestDataType = .enum) (hraw : parseInt raw.toList = some n) :
    WritesTyped name raw rule obj n ↔ ¬ WrapsIntoRange n := by
  have hfits := fitsType_of_ruleFor hrule hobj
  rw [htype] at hfits
  obtain ⟨hmin, hmax⟩ := hfits
  have hnan : rule.min ≠ .nan := by simp [hmin]
  have hparse := parseValue_enum hrule hobj htype hraw
  have hle : ∀ k : ℤ, rule.min.le (.num k) = true ∧ (Datum.num k).le rule.max = true ↔ 0 ≤ k ∧ k ≤ 5 := fun k => by
    rw [hmin, hmax, Datum.le, Datum.le, decide_eq_true_iff, decide_eq_true_iff]
    exact and_congr Int.cast_nonneg_iff (by exact_mod_cast Iff.rfl)
  have hbyte := toNat_ofInt8 n
  have hnum : numeric (.u8 (UInt8.ofInt n)) = some (.num ((UInt8.ofInt n).toNat : ℤ)) := by simp [numeric]
  unfold WritesTyped WrapsIntoRange
  rw [hparse, htype]
  by_cases hn : -2 ^ 63 ≤ n ∧ n < 2 ^ 63
  · rw [if_pos hn]
    constructor
    · rintro h ⟨-, hout, hlow⟩
      have hvalid := validate_of_range hrule hobj hnan hnum ((hle _).mpr (by omega)) (dot_notMem_display_u8 _)
      obtain ⟨hrange, -⟩ := h _ rfl hvalid
      have := (hle n).mp hrange
      omega
    · rintro h v hv hvalid
      obtain rfl : DataValue.u8 (UInt8.ofInt n) = v := by simpa using hv
      have hchecked := (hle _).mp (range_of_validate hrule hnan hnum hvalid)
      have hself : ((UInt8.ofInt n).toNat : ℤ) = n := by omega
      rw [hself] at hchecked
      exact ⟨(hle n).mpr hchecked, [UInt8.ofInt n], encodeFor_enum_u8 _, _, rfl, hself⟩
  · rw [if_neg hn]
    exact iff_of_true (by rintro v ⟨⟩) fun h => hn h.1

/-- For a float, nothing is lost: the rules end well below where single precision stops
being exact. -/
theorem writesTyped_float (hrule : ruleFor name = some rule) (hobj : writableRows.getByName name = some obj)
    (htype : obj.requestDataType = .float) (hraw : parseInt raw.toList = some n) :
    WritesTyped name raw rule obj n := by
  have hfits := fitsType_of_ruleFor hrule hobj
  rw [htype] at hfits
  intro v hv hvalid
  rw [parseValue_float hrule hobj htype hraw, Except.ok.injEq] at hv
  split_ifs at hv with hn
  obtain rfl : DataValue.f32 (F32.ofInt n) = v := by simpa using hv
  obtain ⟨a, b, hmin, hmax, ha, hb⟩ := hfits.exists_float
  have hrange := range_of_validate hrule (by simp [hmin]) (v := (F32.ofInt n).datum) rfl hvalid
  rw [hmin, hmax] at hrange ⊢
  have hexact : n.natAbs < 2 ^ 24 := by
    by_contra hlarge
    rcases datum_ofInt_large (not_lt.mp hlarge) with ⟨neg, hinf⟩ | ⟨q, hq, hlarge⟩
    · rw [hinf] at hrange
      cases neg <;> simp [Datum.le] at hrange
    · rw [hq, Datum.le, Datum.le, decide_eq_true_iff, decide_eq_true_iff] at hrange
      rcases hlarge with ⟨-, hlarge⟩ | ⟨-, hlarge⟩ <;> linarith
  rw [datum_ofInt hexact] at hrange
  rw [htype]
  exact ⟨hrange, _, rfl, rfl, datum_ofInt hexact⟩

/-- **The write pipeline writes the integer that was typed**, or writes nothing, for every
parameter that is not a truth value, unless the parameter is an enumeration and the
integer wraps into its range. -/
theorem writesTyped_iff (hrule : ruleFor name = some rule) (hobj : writableRows.getByName name = some obj)
    (htype : obj.requestDataType ≠ .bool) (hraw : parseInt raw.toList = some n) :
    WritesTyped name raw rule obj n ↔ ¬ (obj.requestDataType = .enum ∧ WrapsIntoRange n) := by
  rcases type_of_ruleFor hrule hobj with hbool | henum | hfloat
  · exact absurd hbool htype
  · simp only [henum, true_and]
    exact writesTyped_enum_iff hrule hobj henum hraw
  · simp only [hfloat, reduceCtorEq, false_and, not_false_eq_true, iff_true]
    exact writesTyped_float hrule hobj hfloat hraw

end Results

/-- A value of the enumeration is written as it was typed. -/
theorem writesTyped_strategy_four :
    ∃ rule obj, ruleFor "power_mng.soc_strategy" = some rule ∧
      writableRows.getByName "power_mng.soc_strategy" = some obj ∧
      WritesTyped "power_mng.soc_strategy" "4" rule obj 4 :=
  ⟨_, _, rfl, rfl, (writesTyped_iff rfl rfl (by decide) (by decide +kernel)).mpr fun h => h.2.2.1 (by decide)⟩

/-- The integer `257` is typed, and the strategy `1` is written. -/
theorem parseValue_strategy_257 :
    parseValue "power_mng.soc_strategy" "257" = .ok (.ok (.u8 1)) ∧
      validate "power_mng.soc_strategy" (.u8 1) = .ok () ∧
      encodeFor .enum (.u8 1) = .ok [1] ∧
      ∃ rule obj, ruleFor "power_mng.soc_strategy" = some rule ∧
        writableRows.getByName "power_mng.soc_strategy" = some obj ∧ parseInt "257".toList = some 257 ∧
        ¬ WritesTyped "power_mng.soc_strategy" "257" rule obj 257 := by
  have hparse : parseValue "power_mng.soc_strategy" "257" = .ok (.ok (.u8 1)) := by decide +kernel
  have hvalid : validate "power_mng.soc_strategy" (.u8 1) = .ok () := by decide +kernel
  refine ⟨hparse, hvalid, encodeFor_enum_u8 1, _, _, rfl, rfl, by decide +kernel, ?_⟩
  intro h
  obtain ⟨⟨-, hmax⟩, -⟩ := h _ hparse hvalid
  exact absurd hmax (by decide +kernel)

end RctPower
