import RctPower.Protocol.Types

/-!
# The object registry

The objects of a device, by name (`registry.rs`, `data/registry.csv`).

A row has its group, which is read from a table of names (`ObjectGroup.fromString`). The
registry is a list of rows; `get_by_name` looks the name up in a map that the
rows were inserted into in order, so the last row with a name is the one found.
Of the rows of `data/registry.csv`, `writableRows` has those for the parameters that
can be written. No two rows of the file have the same name.
-/

namespace RctPower

/-- Grouping information for object ids. -/
inductive ObjectGroup where
  | rb485 | energy | gridMon | temperature | battery | csNeg | hwTest | gSync | logger | wifi | adc | net | accConv
  | dcConv | nsm | ioBoard | flashRtc | powerMng | bufVControl | db | switchOnCond | pRec | modbus | batMngStruct
  | isoStruct | gridLt | canBus | displayStruct | flashParam | fault | primSm | csMap | lineMon | others
  | batteryPlaceholder | frt | partition
  deriving DecidableEq

namespace ObjectGroup

/-- The names of the groups. -/
def NAMES : List String :=
  ["RB485", "ENERGY", "GRID_MON", "TEMPERATURE", "BATTERY", "CS_NEG", "HW_TEST", "G_SYNC", "LOGGER", "WIFI", "ADC",
   "NET", "ACC_CONV", "DC_CONV", "NSM", "IO_BOARD", "FLASH_RTC", "POWER_MNG", "BUF_V_CONTROL", "DB", "SWITCH_ON_COND",
   "P_REC", "MODBUS", "BAT_MNG_STRUCT", "ISO_STRUCT", "GRID_LT", "CAN_BUS", "DISPLAY_STRUCT", "FLASH_PARAM", "FAULT",
   "PRIM_SM", "CS_MAP", "LINE_MON", "OTHERS", "BATTERY_PLACEHOLDER", "FRT", "PARTITION"]

/-- The groups, by their discriminants. -/
def VALUES : List ObjectGroup :=
  [rb485, energy, gridMon, temperature, battery, csNeg, hwTest, gSync, logger, wifi, adc, net, accConv, dcConv, nsm,
   ioBoard, flashRtc, powerMng, bufVControl, db, switchOnCond, pRec, modbus, batMngStruct, isoStruct, gridLt, canBus,
   displayStruct, flashParam, fault, primSm, csMap, lineMon, others, batteryPlaceholder, frt, partition]

/-- The group with a discriminant. -/
def fromU8 (v : UInt8) : Option ObjectGroup := if v ≤ 36 then VALUES[v.toNat]? else none

/-- The group with a name. -/
def fromString (entry : String) : Option ObjectGroup :=
  match NAMES.findIdx? (· = entry) with
  | some e => fromU8 (UInt8.ofNat e)
  | none => none

/-- `to_string`: there is a name for every discriminant. -/
def display (g : ObjectGroup) : String := NAMES.getD (VALUES.idxOf g) ""

/-- The names of the groups are read back. -/
theorem fromString_eq_some_iff {s : String} {g : ObjectGroup} : fromString s = some g ↔ g.display = s := by
  have hback : ∀ g : ObjectGroup, fromString g.display = some g := by
    intro g
    cases g <;> decide
  have hnames : ∀ s ∈ NAMES, ∃ g ∈ VALUES, g.display = s := by decide
  constructor
  · intro h
    have hmem : s ∈ NAMES := by
      rw [fromString] at h
      split at h
      · next e he =>
        obtain ⟨hlt, hs, -⟩ := List.findIdx?_eq_some_iff_getElem.mp he
        exact of_decide_eq_true hs ▸ List.getElem_mem hlt
      · cases h
    obtain ⟨g', -, rfl⟩ := hnames s hmem
    rw [Option.some.inj (h.symm.trans (hback g'))]
  · rintro rfl
    exact hback g

end ObjectGroup

/-- A row of the registry. -/
structure ObjectInfo where
  /-- The group. -/
  group : ObjectGroup
  /-- The id in frames. -/
  objectId : UInt32
  /-- The position in the source of the registry. -/
  index : Int32
  /-- The name. -/
  name : String
  /-- The type of what is written. -/
  requestDataType : DataType
  /-- The type of what is read. -/
  responseDataType : DataType
  /-- The unit. -/
  unit : String
  /-- A text about the object. -/
  description : String
  /-- The names of the values of an enumeration, `"0=Foo|1=Bar"`. -/
  enumMapRaw : String
  deriving DecidableEq

/-- The rows of a registry, in order. -/
abbrev Registry := List ObjectInfo

/-- The last row with a name. -/
def Registry.getByName (r : Registry) (name : String) : Option ObjectInfo := r.reverse.find? (·.name = name)

/-- The last row with an id. -/
def Registry.getById (r : Registry) (id : UInt32) : Option ObjectInfo := r.reverse.find? (·.objectId = id)

/-- The rows of `data/registry.csv` for the parameters that can be written. -/
def writableRows : Registry :=
  [⟨.powerMng, 0x1D2994EA, 98, "power_mng.soc_charge_power", .float, .float, "W", "Maintenance charge power", ""⟩,
   ⟨.powerMng, 0x36A9E9A6, 184, "power_mng.use_grid_power_enable", .bool, .bool, "",
      "Utilize external Inverter energy", ""⟩,
   ⟨.pRec, 0x54829753, 294, "p_rec_lim[1]", .float, .float, "W", "Max. battery to grid power", ""⟩,
   ⟨.powerMng, 0x97997C93, 552, "power_mng.soc_max", .float, .float, "", "Max SOC target", ""⟩,
   ⟨.powerMng, 0xBD008E29, 667, "power_mng.battery_power_extern", .float, .float, "W",
      "Battery target power (positive = discharge)", ""⟩,
   ⟨.powerMng, 0xBD3A23C3, 668, "power_mng.soc_charge", .float, .float, "", "SOC min maintenance charge", ""⟩,
   ⟨.powerMng, 0xCE266F0F, 731, "power_mng.soc_min", .float, .float, "", "Min SOC target", ""⟩,
   ⟨.powerMng, 0xD1DFC969, 740, "power_mng.soc_target_set", .float, .float, "", "Force SOC target", ""⟩,
   ⟨.powerMng, 0xF168B748, 835, "power_mng.soc_strategy", .enum, .enum, "", "SOC target selection",
      "0=SOC target = SOC|1=Constant|2=External|3=Middle battery voltage|4=Internal|5=Schedule"⟩,
   ⟨.bufVControl, 0xFE1AA500, 890, "buf_v_control.power_reduction", .float, .float, "",
      "External power reduction based on solar plant peak power [0..1]", ""⟩]

end RctPower
