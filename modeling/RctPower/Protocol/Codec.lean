import RctPower.Protocol.Types

/-!
# CRC and value encoding

The checksum of a frame and the encoding of values in payloads (`codec.rs`).

`decodeValue` is the only place where the codec indexes bytes it did not make. It
asks for a minimum length first, and `decodeValue_checked` says that this is
enough: it never panics, whatever the data type and the bytes.
-/

namespace RctPower

open RctPower.Lib.Rust RctPower.Lib.Binary32

/-! ### CRC -/

/-- One of the eight inner steps of `crc16`. -/
def crcStep (crcsum : UInt32) : UInt32 :=
  let crcsum := crcsum <<< 1
  if crcsum &&& 0x7FFF0000 ≠ 0 then (crcsum &&& 0x0000FFFF) ^^^ 0x1021 else crcsum

/-- What `crc16` does with one byte. -/
def crcByte (crcsum : UInt32) (byte : UInt8) : UInt32 := crcStep^[8] (crcsum ^^^ (byte.toUInt32 <<< 8))

/-- CRC16 CCITT; an odd-length input gets a zero byte appended before calculation. -/
def crc16 (data : List UInt8) : UInt16 :=
  let padded := if data.length % 2 = 1 then data ++ [0] else data
  (padded.foldl crcByte 0xFFFF).toUInt16

example : crc16 [0x02, 0x04, 0x00, 0x00, 0xc0, 0xde] = 0x30b1 := by decide +kernel

/-! ### Encoding -/

/-- Encode a value into wire bytes, big-endian. -/
def encodeValue : DataValue → List UInt8
  | .bool b => [if b then 1 else 0]
  | .u8 v => [v]
  | .i8 v => [v.toUInt8]
  | .u16 v => u16ToBe v
  | .i16 v => u16ToBe v.toUInt16
  | .u32 v => u32ToBe v
  | .i32 v => u32ToBe v.toUInt32
  | .f32 v => u32ToBe v.bits
  | .str s => s.toUTF8.toList
  | .raw b => b

/-- The error of a value that has no number. -/
def invalidValue (v : DataValue) : RctError := .invalidValue "" v.display

/-- The number of a value, as an `i64`. -/
def toI64 : DataValue → Except RctError Int64
  | .bool b => .ok (if b then 1 else 0)
  | .i8 i => .ok (Int64.ofInt i.toInt)
  | .u8 i => .ok (Int64.ofInt i.toNat)
  | .i16 i => .ok (Int64.ofInt i.toInt)
  | .u16 i => .ok (Int64.ofInt i.toNat)
  | .i32 i => .ok (Int64.ofInt i.toInt)
  | .u32 i => .ok (Int64.ofInt i.toNat)
  | .f32 f => .ok (Int64.ofInt (f.datum.toInt (-2 ^ 63) (2 ^ 63 - 1)))
  | v => .error (invalidValue v)

/-- The wire representation of a value in a data type. The casts are Rust's `as`: they
keep the low bits. -/
def normalizeFor (dataType : DataType) (value : DataValue) : Except RctError DataValue :=
  match dataType with
  | .bool =>
    match value with
    | .bool b => .ok (.bool b)
    | .i8 i => .ok (.bool (i ≠ 0))
    | .u8 i => .ok (.bool (i ≠ 0))
    | other => .error (invalidValue other)
  | .uint8 | .enum => (toI64 value).map fun i => .u8 (UInt8.ofInt i.toInt)
  | .int8 => (toI64 value).map fun i => .i8 (Int8.ofInt i.toInt)
  | .uint16 => (toI64 value).map fun i => .u16 (UInt16.ofInt i.toInt)
  | .int16 => (toI64 value).map fun i => .i16 (Int16.ofInt i.toInt)
  | .uint32 => (toI64 value).map fun i => .u32 (UInt32.ofInt i.toInt)
  | .int32 => (toI64 value).map fun i => .i32 (Int32.ofInt i.toInt)
  | .float =>
    match value with
    | .f32 f => .ok (.f32 f)
    | other => (toI64 other).map fun i => .f32 (F32.ofInt i.toInt)
  | .string =>
    match value with
    | .str s => .ok (.str s)
    | other => .error (invalidValue other)
  | other => .error (.unknownDataType other.name)

/-- Encode a native value for a given wire data type. -/
def encodeFor (dataType : DataType) (value : DataValue) : Except RctError (List UInt8) :=
  (normalizeFor dataType value).map encodeValue

/-! ### Decoding -/

/-- The least length of a payload that `decode_value` reads; `none` for the composite
types, which it returns raw. -/
def decodeNeed : DataType → Option ℕ
  | .bool | .uint8 | .int8 => some 1
  | .uint16 | .int16 => some 2
  | .enum | .uint32 | .int32 | .float => some 4
  | .string => some 1
  | _ => none

/-- `u16::from_be_bytes([data[0], data[1]])`. -/
def beU16 (data : List UInt8) : Checked UInt16 := do
  return u16OfBe (← index data 0) (← index data 1)

/-- `u32::from_be_bytes([data[0], data[1], data[2], data[3]])`. -/
def beU32 (data : List UInt8) : Checked UInt32 := do
  return u32OfBe (← index data 0) (← index data 1) (← index data 2) (← index data 3)

/-- The native value in a payload that is long enough. -/
def decodeNative (dataType : DataType) (data : List UInt8) : Checked DataValue :=
  match dataType with
  | .bool => do return .bool ((← index data 0) ≠ 0)
  | .uint8 => do return .u8 (← index data 0)
  | .int8 => do return .i8 (← index data 0).toInt8
  | .uint16 => do return .u16 (← beU16 data)
  | .int16 => do return .i16 (← beU16 data).toInt16
  | .enum | .uint32 => do return .u32 (← beU32 data)
  | .int32 => do return .i32 (← beU32 data).toInt32
  | .float => do return .f32 ⟨← beU32 data⟩
  | .string => do
    let fin := (data.findIdx? (· = 0)).getD data.length
    return .str (String.ofList (utf8Lossy none (← slice data 0 fin)))
  | _ => .error .unreachable

/-- Decode a payload per data type. -/
def decodeValue (dataType : DataType) (data : List UInt8) : Checked (Except RctError DataValue) :=
  match decodeNeed dataType with
  | none => .ok (.ok (.raw data))
  | some need =>
    if data.length < need then .ok (.error (.payloadTooShort dataType.name data.length need))
    else (decodeNative dataType data).map .ok

/-- A payload as long as its type needs has a native value. -/
theorem decodeNative_checked {dt : DataType} {need : ℕ} (hneed : decodeNeed dt = some need) {data : List UInt8}
    (h : need ≤ data.length) : ∃ v, decodeNative dt data = .ok v := by
  cases dt <;> simp only [decodeNeed, Option.some.injEq, reduceCtorEq] at hneed <;> subst hneed
  case string =>
    have hfin : (data.findIdx? (· = 0)).getD data.length ≤ data.length := by
      cases hf : data.findIdx? (· = 0) with
      | none => exact le_rfl
      | some i => exact (List.findIdx?_eq_some_iff_getElem.mp hf).1.le
    simp only [decodeNative, slice_of_le (Nat.zero_le _) hfin]
    exact ⟨_, rfl⟩
  all_goals
    rcases data with _ | ⟨b₀, _ | ⟨b₁, _ | ⟨b₂, _ | ⟨b₃, bs⟩⟩⟩⟩ <;>
      simp only [List.length_nil, List.length_cons] at h <;>
      first
        | omega
        | exact ⟨_, rfl⟩

/-- **`decode_value` never panics.** -/
theorem decodeValue_checked (dt : DataType) (data : List UInt8) : ∃ r, decodeValue dt data = .ok r := by
  unfold decodeValue
  cases hneed : decodeNeed dt with
  | none => exact ⟨_, rfl⟩
  | some need =>
    by_cases h : data.length < need
    · exact ⟨_, if_pos h⟩
    · obtain ⟨v, hv⟩ := decodeNative_checked hneed (not_lt.mp h)
      exact ⟨.ok v, by simp only [if_neg h, hv]; rfl⟩

end RctPower
