import RctPower.Lib.Text
import RctPower.Settings.Registry

/-!
# The names of the values of an enumeration

`ObjectInfo::enum_str` (`registry.rs`) looks up a value in a text such as `"0=Foo|1=Bar"`, which
`tools/generate_registry.py` has joined. An entry is found by its start, the number of the value and the
`=`, and its name is what is after the first `=`. The number has no `=` in it, so the two are the same.

## What is proved

The look-up does not panic for any row (`enumStr_eq`), and in a text that the generator has joined it finds
the first entry with the key, and no other (`enumStr_enumMap`).
-/

namespace RctPower

open RctPower.Lib.Rust

/-- The name of a value, if the object is an enumeration that has one for it. -/
def ObjectInfo.enumStr (obj : ObjectInfo) (value : UInt32) : Checked (Option String) :=
  if obj.requestDataType ≠ .enum ∨ obj.enumMapRaw = "" then .ok none
  else
    match (obj.enumMapRaw.toList.splitOn '|').find? fun p => (formatNat value.toNat ++ ['=']).isPrefixOf p with
    | none => .ok none
    | some p => (unwrap (p.findIdx? (· = '='))).map fun i => some (String.ofList (p.drop (i + 1)))

/-- A value and its name. -/
structure EnumEntry where
  /-- The value. -/
  key : UInt32
  /-- The name. -/
  label : String
  /-- The name can be joined with others. -/
  plain : '|' ∉ label.toList

/-- `f"{k}={v}"`. -/
def EnumEntry.chars (e : EnumEntry) : List Char := formatNat e.key.toNat ++ '=' :: e.label.toList

/-- The join of the entries. -/
def enumMap (entries : List EnumEntry) : String := String.ofList (['|'].intercalate (entries.map EnumEntry.chars))

/-! ### Keys -/

/-- What is no digit is not in a number. -/
theorem not_mem_formatNat {c : Char} (h : c.isDigit = false) (n : ℕ) : c ∉ formatNat n := by
  intro hmem
  cases h.symm.trans (isDigit_of_mem_formatNat hmem)

/-- The first `=` is after the number. -/
theorem findIdx?_formatNat (n : ℕ) (label : List Char) :
    (formatNat n ++ '=' :: label).findIdx? (· = '=') = some (formatNat n).length := by
  have hnone : (formatNat n).findIdx? (· = '=') = none := by
    refine List.findIdx?_eq_none_iff.mpr fun c hc => decide_eq_false ?_
    rintro rfl
    exact not_mem_formatNat (by decide) n hc
  rw [List.findIdx?_append, hnone, List.findIdx?_cons]
  simp

/-- Entries that start in the same way have the same key. -/
theorem isPrefixOf_chars (value : UInt32) (e : EnumEntry) :
    (formatNat value.toNat ++ ['=']).isPrefixOf e.chars = decide (e.key = value) := by
  rw [Bool.eq_iff_iff, List.isPrefixOf_iff_prefix, decide_eq_true_iff]
  constructor
  · rintro ⟨label, hlabel⟩
    rw [EnumEntry.chars, List.append_assoc, List.singleton_append] at hlabel
    -- the parts before the first `=` are the numbers
    have hsplit := congrArg (List.splitOn '=') hlabel
    rw [List.splitOn_append_cons_self_of_not_mem (not_mem_formatNat (by decide) _),
      List.splitOn_append_cons_self_of_not_mem (not_mem_formatNat (by decide) _)] at hsplit
    exact (UInt32.toNat.inj (formatNat_injective (List.cons.inj hsplit).1)).symm
  · rintro rfl
    exact ⟨e.label.toList, by rw [EnumEntry.chars, List.append_assoc, List.singleton_append]⟩

/-- What is after the number and the `=`. -/
theorem drop_chars (e : EnumEntry) : e.chars.drop ((formatNat e.key.toNat).length + 1) = e.label.toList := by
  rw [EnumEntry.chars, List.drop_append]
  simp

theorem not_mem_chars (e : EnumEntry) : '|' ∉ e.chars := by
  rw [EnumEntry.chars, List.mem_append, List.mem_cons, not_or, not_or]
  exact ⟨not_mem_formatNat (by decide) _, by decide, e.plain⟩

/-! ### The look-up -/

/-- **The look-up never panics**: a name is what is after the number and the `=`. -/
theorem enumStr_eq (obj : ObjectInfo) (value : UInt32) :
    obj.enumStr value = .ok (if obj.requestDataType = .enum then
      ((obj.enumMapRaw.toList.splitOn '|').find? fun p => (formatNat value.toNat ++ ['=']).isPrefixOf p).map
        fun p => String.ofList (p.drop ((formatNat value.toNat).length + 1)) else none) := by
  rw [ObjectInfo.enumStr]
  by_cases htype : obj.requestDataType = .enum
  · by_cases hraw : obj.enumMapRaw = ""
    · -- in an empty text there is no entry
      have hstart : (formatNat value.toNat ++ ['=']).isPrefixOf [] = false := by
        rw [Bool.eq_false_iff, ne_eq, List.isPrefixOf_iff_prefix, List.prefix_nil]
        simp
      simp [htype, hraw, hstart]
    · rw [if_neg (by simp [htype, hraw]), if_pos htype]
      cases hfind : (obj.enumMapRaw.toList.splitOn '|').find?
          fun p => (formatNat value.toNat ++ ['=']).isPrefixOf p with
      | none => rfl
      | some p =>
        obtain ⟨label, rfl⟩ := List.isPrefixOf_iff_prefix.mp (List.find?_some hfind)
        simp only [List.append_assoc, List.singleton_append, findIdx?_formatNat, unwrap, Except.map, Option.map_some]
  · rw [if_pos (.inl htype), if_neg htype]

/-- **The look-up inverts the join**: the name of a value is that of the first entry with its key. -/
theorem enumStr_enumMap (obj : ObjectInfo) (entries : List EnumEntry) (value : UInt32) :
    ObjectInfo.enumStr { obj with requestDataType := .enum, enumMapRaw := enumMap entries } value =
      .ok ((entries.find? (·.key = value)).map EnumEntry.label) := by
  cases entries with
  | nil => rfl
  | cons e entries =>
    have hplain : ∀ l ∈ (e :: entries).map EnumEntry.chars, '|' ∉ l := by
      intro l hl
      obtain ⟨e', -, rfl⟩ := List.mem_map.mp hl
      exact not_mem_chars e'
    rw [enumStr_eq, if_pos rfl, enumMap, String.toList_ofList, List.splitOn_intercalate '|' hplain (by simp),
      List.find?_map]
    simp only [Function.comp_def, isPrefixOf_chars, Option.map_map]
    cases hfind : (e :: entries).find? (·.key = value) with
    | none => rfl
    | some e' =>
      obtain rfl : e'.key = value := by simpa using List.find?_some hfind
      simp only [Option.map_some, drop_chars, String.ofList_toList]

end RctPower
