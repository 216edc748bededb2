import RctPower.Lib.Rust

/-!
# Types of the protocol

The commands, the wire data types, the values and the errors of the RCT Power
serial protocol (`types.rs`, `error.rs`).

A command byte has two forms: the base value, and the base value with the plant
bit `0x40` set. `Command.fromByte` strips the bit, so a `Command` no longer says
which form it came from, and `Command.byte` gives back the base value. No base
value has the bit set (`not_isPlantByte_byte`): a question asked of
`Command.byte` about plant communication is always answered no.
-/

namespace RctPower

open RctPower.Lib.Rust RctPower.Lib.Binary32

/-- Commands that can be used with send and receive frames. -/
inductive Command where
  /-- Read command. -/
  | read
  /-- Write command. -/
  | write
  /-- Long write command. -/
  | longWrite
  /-- Response to a read or write command. -/
  | response
  /-- Long response. -/
  | longResponse
  /-- Periodic reading. -/
  | readPeriodically
  /-- Extension, not parseable by `ReceiveFrame`. -/
  | extension
  deriving DecidableEq, Repr

namespace Command

/-- Bit 6 is set on plant commands. -/
def PLANT_BIT : UInt8 := 0x40

/-- Raw byte value of the command. -/
def byte : Command → UInt8
  | .read => 0x01
  | .write => 0x02
  | .longWrite => 0x03
  | .response => 0x05
  | .longResponse => 0x06
  | .readPeriodically => 0x08
  | .extension => 0x3c

/-- Decode a raw command byte, with or without the plant bit. -/
def fromByte (b : UInt8) : Option Command :=
  let base := b &&& ~~~PLANT_BIT
  if base = 0x01 then some .read
  else if base = 0x02 then some .write
  else if base = 0x03 then some .longWrite
  else if base = 0x05 then some .response
  else if base = 0x06 then some .longResponse
  else if base = 0x08 then some .readPeriodically
  else if base = 0x3c then some .extension
  else none

/-- Whether this raw command byte belongs to plant communication. -/
def isPlantByte (b : UInt8) : Bool := b &&& PLANT_BIT != 0

/-- Whether the length field has two bytes. -/
def isLong : Command → Bool
  | .longWrite | .longResponse => true
  | _ => false

/-- Whether it answers a read or a write. -/
def isResponse : Command → Bool
  | .response | .longResponse => true
  | _ => false

@[simp] theorem fromByte_byte (c : Command) : fromByte c.byte = some c := by
  cases c <;> decide

@[simp] theorem fromByte_plant (c : Command) : fromByte (c.byte ||| PLANT_BIT) = some c := by
  cases c <;> decide

/-- No base value has the plant bit. -/
@[simp] theorem not_isPlantByte_byte (c : Command) : isPlantByte c.byte = false := by
  cases c <;> decide

@[simp] theorem isPlantByte_plant (c : Command) : isPlantByte (c.byte ||| PLANT_BIT) = true := by
  cases c <;> decide

end Command

/-- Frame types; the value is what the length field counts besides the payload. -/
inductive FrameType where
  /-- Object id only. -/
  | standard
  /-- Plant address and object id. -/
  | plant
  deriving DecidableEq

/-- The discriminant of a frame type. -/
def FrameType.value : FrameType → ℕ
  | .standard => 4
  | .plant => 8

/-- Wire data types used to select the encode/decode mechanism. -/
inductive DataType where
  | unknown | bool | uint8 | int8 | uint16 | int16 | uint32 | int32 | enum | float | string
  | timeseries | eventTable | batteryModuleStatus | batteryModuleStatistics | batteryModuleResistance
  deriving DecidableEq

/-- The name of a data type in the registry and in errors. -/
def DataType.name : DataType → String
  | .unknown => "UNKNOWN"
  | .bool => "BOOL"
  | .uint8 => "UINT8"
  | .int8 => "INT8"
  | .uint16 => "UINT16"
  | .int16 => "INT16"
  | .uint32 => "UINT32"
  | .int32 => "INT32"
  | .enum => "ENUM"
  | .float => "FLOAT"
  | .string => "STRING"
  | .timeseries => "TIMESERIES"
  | .eventTable => "EVENT_TABLE"
  | .batteryModuleStatus => "BATTERY_MODULE_STATUS"
  | .batteryModuleStatistics => "BATTERY_MODULE_STATISTICS"
  | .batteryModuleResistance => "BATTERY_MODULE_RESISTANCE"

/-- The data type with a name. -/
def DataType.fromStrName : String → Option DataType
  | "UNKNOWN" => some .unknown
  | "BOOL" => some .bool
  | "UINT8" => some .uint8
  | "INT8" => some .int8
  | "UINT16" => some .uint16
  | "INT16" => some .int16
  | "UINT32" => some .uint32
  | "INT32" => some .int32
  | "ENUM" => some .enum
  | "FLOAT" => some .float
  | "STRING" => some .string
  | "TIMESERIES" => some .timeseries
  | "EVENT_TABLE" => some .eventTable
  | "BATTERY_MODULE_STATUS" => some .batteryModuleStatus
  | "BATTERY_MODULE_STATISTICS" => some .batteryModuleStatistics
  | "BATTERY_MODULE_RESISTANCE" => some .batteryModuleResistance
  | _ => none

/-- The names of the data types are read back. -/
theorem DataType.fromStrName_eq_some_iff {s : String} {t : DataType} : fromStrName s = some t ↔ t.name = s := by
  constructor
  · intro h
    unfold fromStrName at h
    split at h
    case h_17 => cases h
    all_goals
      obtain rfl := Option.some.inj h
      rfl
  · rintro rfl
    cases t <;> rfl

/-- A decoded/encodable protocol value. -/
inductive DataValue where
  | bool (b : Bool)
  | i8 (v : Int8)
  | u8 (v : UInt8)
  | i16 (v : Int16)
  | u16 (v : UInt16)
  | i32 (v : Int32)
  | u32 (v : UInt32)
  | f32 (v : F32)
  | str (s : String)
  /-- Raw payload for composite types not yet decoded. -/
  | raw (b : List UInt8)
  deriving DecidableEq

/-- `==`, as it is derived: values of different variants differ, and floats compare as floats. -/
def DataValue.eq : DataValue → DataValue → Bool
  | .f32 f, .f32 g => f.eq g
  | v, w => decide (v = w)

/-- Two hexadecimal digits a byte. -/
def hex (bs : List UInt8) : String :=
  String.ofList (bs.flatMap fun b => [Nat.digitChar (b.toNat / 16), Nat.digitChar (b.toNat % 16)])

/-- `to_string`. -/
def DataValue.display : DataValue → String
  | .bool b => if b then "true" else "false"
  | .i8 v => toString v.toInt
  | .u8 v => toString v.toNat
  | .i16 v => toString v.toInt
  | .u16 v => toString v.toNat
  | .i32 v => toString v.toInt
  | .u32 v => toString v.toNat
  | .f32 v => String.ofList v.display
  | .str s => s
  | .raw b => "0x" ++ hex b

/-- The kinds of I/O error the code tells apart, and the others, numbered. -/
inductive IoError where
  /-- A read that timed out on a blocking socket. -/
  | wouldBlock
  /-- Any other error. -/
  | other (code : ℕ)
  deriving DecidableEq

/-- The errors of the crate. -/
inductive RctError where
  /-- I/O error. -/
  | io (e : IoError)
  /-- Frame CRC mismatch. -/
  | frameCrcMismatch (received calculated : UInt16) (consumed : ℕ)
  /-- Frame consumed more bytes than its length. -/
  | frameLengthExceeded (consumed : ℕ)
  /-- Invalid command byte. -/
  | invalidCommand (cmd : UInt8) (consumed : ℕ)
  /-- Unknown data type. -/
  | unknownDataType (name : String)
  /-- Payload too short for data type. -/
  | payloadTooShort (ty : String) (len need : ℕ)
  /-- Value for a parameter is out of range. -/
  | valueOutOfRange (name : String) (value min max : Datum)
  /-- Invalid value for a parameter. -/
  | invalidValue (name value : String)
  /-- Response timeout. -/
  | timeout
  /-- No response payload. -/
  | emptyPayload
  deriving DecidableEq

end RctPower
