import RctPower.Lib.Text
import RctPower.Settings.Registry

/-!
# Loading the registry

`build` (`registry.rs`) makes the registry of `data/registry.csv`, which `tools/generate_registry.py`
writes: a header, and a line of fields joined with `;` for each row. The two texts that are compiled into
the crate are parameters here.

`Row` is a row as the generator has it. It writes no quotes, so that the two programs understand each
other as long as no field needs them; `Row` says this of each field, what the id is written with, and
that the index fits.

## What is proved

What was written is read back, row by row, whatever the lines end in (`build_registryCsv`). Where the
file has a name more than once, or an id, the last row is the one that is found.
-/

namespace RctPower

open RctPower.Lib.Rust

/-! ### The loader -/

/-- `get`: the field in the column with a name. There has to be the column. -/
def field (cols f : List (List Char)) (c : String) : Checked (List Char) :=
  (unwrap (cols.findIdx? (· = c.toList))).map fun i => (f[i]?).getD []

/-- A line of the file. -/
def readEntry (cols : List (List Char)) (line : List Char) : Checked ObjectInfo := do
  -- simple CSV split: our generator never quotes (values have no ';')
  let f := (line.splitOn ';').map (trimEndMatches '\r')
  let group ← field cols f "group"
  let objectId ← (field cols f "object_id").bind fun s => unwrap (u32FromHex (trimStart0x s))
  let index ← field cols f "index"
  let name ← field cols f "name"
  let reqType ← field cols f "req_type"
  let respType ← field cols f "resp_type"
  let unit ← field cols f "unit"
  let description ← field cols f "description"
  let enumMap ← field cols f "enum_map"
  return {
    group := (ObjectGroup.fromString (String.ofList group)).getD .others
    objectId
    index := (parseI32 index).getD (-1)
    name := String.ofList name
    requestDataType := (DataType.fromStrName (String.ofList reqType)).getD .unknown
    responseDataType := (DataType.fromStrName (String.ofList respType)).getD .unknown
    unit := String.ofList unit
    description := String.ofList description
    enumMapRaw := String.ofList enumMap }

/-- The lines after the header, but for the empty ones. -/
def readEntries (cols : List (List Char)) : List (List Char) → Checked (List ObjectInfo)
  | [] => .ok []
  | line :: rest =>
    if line = [] then readEntries cols rest
    else do
      let entry ← readEntry cols line
      let entries ← readEntries cols rest
      return entry :: entries

/-- `"count": N`: the first line with a number after its first colon. -/
def metaCount (text : List Char) : ℕ :=
  ((lines text).findSome? fun l =>
    ((l.splitOn ':')[1]?).bind fun v => parseUsize (trimEndMatches ',' (trim v))).getD 0

/-- `"source_commit": "..."`. -/
def metaCommit (text : List Char) : String :=
  (((lines text).find? fun l => decide ("source_commit".toList <:+: l)).bind fun l =>
    (l.splitOn '"')[3]?.map String.ofList).getD "unknown"

/-- The registry that is loaded. -/
structure LoadedRegistry where
  /-- The rows by their names. -/
  byName : Std.HashMap String ObjectInfo
  /-- The rows by their ids. -/
  byId : Std.HashMap UInt32 ObjectInfo
  /-- The rows, in order. -/
  all : Registry
  /-- The commit of the source that the file was generated from. -/
  sourceCommit : String
  /-- The number of rows that were generated. -/
  count : ℕ

/-- `build`, with the texts of `data/registry.csv` and `data/registry_meta.json`. -/
def build (csv metaText : String) : Checked LoadedRegistry :=
  match lines csv.toList with
  | [] => .error .unwrapNone
  | header :: rest =>
    (readEntries (header.splitOn ';') rest).map fun entries => {
      byName := mapBy ObjectInfo.name entries
      byId := mapBy ObjectInfo.objectId entries
      all := entries
      sourceCommit := metaCommit metaText.toList
      count := metaCount metaText.toList }

namespace LoadedRegistry

/-- `get_by_name`. -/
def getByName (r : LoadedRegistry) (name : String) : Option ObjectInfo := r.byName[name]?

/-- `get_by_id`. -/
def getById (r : LoadedRegistry) (id : UInt32) : Option ObjectInfo := r.byId[id]?

/-- `group`. -/
def group (r : LoadedRegistry) (g : ObjectGroup) : List ObjectInfo := r.all.filter (·.group = g)

end LoadedRegistry

/-! ### The generator -/

/-- A text that is written without quotes. -/
def Plain (cs : List Char) : Prop := ∀ c ∈ cs, c ≠ ';' ∧ c ≠ '"' ∧ c ≠ '\r' ∧ c ≠ '\n'

instance (cs : List Char) : Decidable (Plain cs) := List.decidableBAll _ cs

/-- A field that is a text. -/
abbrev TextField : Type := { s : String // Plain s.toList }

/-- A row as the generator has it. -/
structure Row where
  /-- The name of the group. -/
  group : TextField
  /-- The digits of the id. -/
  objectId : List HexDigit
  /-- There are one to eight of them. -/
  objectId_length : 1 ≤ objectId.length ∧ objectId.length ≤ 8
  /-- The index. -/
  index : Decimal
  /-- It fits. -/
  index_fits : -2 ^ 31 ≤ index.value ∧ index.value < 2 ^ 31
  /-- The name. -/
  name : TextField
  /-- The name of the type of what is written. -/
  reqType : TextField
  /-- The name of the type of what is read. -/
  respType : TextField
  /-- The unit. -/
  unit : TextField
  /-- A text about the object. -/
  description : TextField
  /-- The names of the values of an enumeration. -/
  enumMap : TextField

/-- The fields of a row, in the order of the columns. -/
def Row.fields (row : Row) : List (List Char) :=
  [row.group.1.toList, '0' :: 'x' :: row.objectId.map HexDigit.char, row.index.chars, row.name.1.toList,
   row.reqType.1.toList, row.respType.1.toList, row.unit.1.toList, row.description.1.toList, row.enumMap.1.toList]

/-- The columns, `fieldnames`. -/
def COLUMNS : List (List Char) :=
  ["group", "object_id", "index", "name", "req_type", "resp_type", "unit", "description", "enum_map"].map String.toList

/-- A line of the file. -/
def csvLine (fields : List (List Char)) : List Char := [';'].intercalate fields

/-- The file. -/
def registryCsv (header : LineEnding) (rows : List (Row × LineEnding)) : String :=
  String.ofList (((csvLine COLUMNS, header) :: rows.map fun row => (csvLine row.1.fields, row.2)).flatMap
    fun line => line.1 ++ line.2.chars)

/-! ### What is read back -/

/-- A name is read as what has it, and as the default if nothing has. -/
def ReadAs {α : Type} (display : α → String) (default : α) (name : String) (a : α) : Prop :=
  display a = name ∨ (∀ b, display b ≠ name) ∧ a = default

/-- An entry of the registry has what is in the row. -/
structure Row.Matches (row : Row) (entry : ObjectInfo) : Prop where
  /-- An unknown group is read as the others. -/
  group : ReadAs ObjectGroup.display .others row.group entry.group
  /-- The id is the number of its digits. -/
  objectId : entry.objectId.toNat = Nat.ofDigits 16 (row.objectId.map fun d => d.value.val).reverse
  /-- The index. -/
  index : entry.index.toInt = row.index.value
  /-- The name. -/
  name : entry.name = row.name
  /-- An unknown type is read as such. -/
  reqType : ReadAs DataType.name .unknown row.reqType entry.requestDataType
  /-- So is the other one. -/
  respType : ReadAs DataType.name .unknown row.respType entry.responseDataType
  /-- The unit. -/
  unit : entry.unit = row.unit
  /-- The text about the object. -/
  description : entry.description = row.description
  /-- The names of the values. -/
  enumMap : entry.enumMapRaw = row.enumMap

/-- It is the last entry of the kind, or there is none. -/
def IsLast (kind : ObjectInfo → Prop) (all : List ObjectInfo) : Option ObjectInfo → Prop
  | some o => ∃ before after, all = before ++ o :: after ∧ kind o ∧ ∀ o' ∈ after, ¬ kind o'
  | none => ∀ o ∈ all, ¬ kind o

theorem readAs_getD {α : Type} {display : α → String} {read : String → Option α}
    (h : ∀ {s a}, read s = some a ↔ display a = s) (default : α) (name : String) :
    ReadAs display default name ((read name).getD default) := by
  cases hread : read name with
  | some a => exact .inl (h.mp hread)
  | none =>
    refine .inr ⟨fun b hb => ?_, rfl⟩
    cases hread.symm.trans (h.mpr hb)

theorem isLast_find? (kind : ObjectInfo → Prop) [DecidablePred kind] (all : List ObjectInfo) :
    IsLast kind all (all.reverse.find? (kind ·)) := by
  cases hfind : all.reverse.find? (kind ·) with
  | none =>
    intro o ho
    simpa using List.find?_eq_none.mp hfind o (List.mem_reverse.mpr ho)
  | some o =>
    obtain ⟨hkind, after, before, heq, hafter⟩ := List.find?_eq_some_iff_append.mp hfind
    refine ⟨before.reverse, after.reverse, ?_, by simpa using hkind, fun o' ho' => ?_⟩
    · rw [← List.reverse_reverse all, heq]
      simp
    · simpa using hafter o' (List.mem_reverse.mp ho')

/-! ### Lines and fields -/

theorem Plain.not_mem {cs : List Char} (h : Plain cs) : ';' ∉ cs ∧ '\r' ∉ cs ∧ '\n' ∉ cs :=
  ⟨fun hc => (h _ hc).1 rfl, fun hc => (h _ hc).2.2.1 rfl, fun hc => (h _ hc).2.2.2 rfl⟩

theorem plain_hexDigits (ds : List HexDigit) : Plain (ds.map HexDigit.char) := by
  have hall : ∀ (v : Fin 16) (u : Bool), HexDigit.char ⟨v, u⟩ ≠ ';' ∧ HexDigit.char ⟨v, u⟩ ≠ '"' ∧
      HexDigit.char ⟨v, u⟩ ≠ '\r' ∧ HexDigit.char ⟨v, u⟩ ≠ '\n' := by decide
  exact List.forall_mem_map.mpr fun d _ => hall d.value d.upper

theorem plain_decimal (d : Decimal) : Plain d.chars := by
  have hdigits : Plain d.digitChars := by
    intro c hc
    have hdigit := Decimal.isDigit_of_mem hc
    refine ⟨?_, ?_, ?_, ?_⟩
    all_goals
      rintro rfl
      exact absurd hdigit (by decide)
  rw [Decimal.chars]
  split
  · exact List.forall_mem_cons.mpr ⟨by decide, hdigits⟩
  · exact hdigits

/-- No field of a row needs quotes. -/
theorem Row.plain_fields (row : Row) : ∀ f ∈ row.fields, Plain f := by
  have hid : Plain ('0' :: 'x' :: row.objectId.map HexDigit.char) := by
    exact List.forall_mem_cons.mpr ⟨by decide, List.forall_mem_cons.mpr ⟨by decide, plain_hexDigits _⟩⟩
  intro f hf
  simp only [fields, List.mem_cons, List.not_mem_nil, or_false] at hf
  rcases hf with rfl | rfl | rfl | rfl | rfl | rfl | rfl | rfl | rfl
  · exact row.group.2
  · exact hid
  · exact plain_decimal _
  · exact row.name.2
  · exact row.reqType.2
  · exact row.respType.2
  · exact row.unit.2
  · exact row.description.2
  · exact row.enumMap.2

theorem not_mem_csvLine {c : Char} (hc : c ≠ ';') {fields : List (List Char)} (h : ∀ f ∈ fields, c ∉ f) :
    c ∉ csvLine fields := by
  induction fields with
  | nil => exact List.not_mem_nil
  | cons f fields ih =>
    obtain ⟨hf, hfields⟩ := List.forall_mem_cons.mp h
    cases fields with
    | nil => simpa [csvLine] using hf
    | cons g fields =>
      rw [csvLine, List.intercalate_cons_cons, List.append_assoc, List.mem_append, List.singleton_append,
        List.mem_cons, not_or, not_or]
      exact ⟨hf, hc, ih hfields⟩

theorem plain_COLUMNS : ∀ f ∈ COLUMNS, Plain f := by decide

/-- The fields of a line are read back. -/
theorem splitOn_csvLine {fields : List (List Char)} (hne : fields ≠ []) (h : ∀ f ∈ fields, Plain f) :
    (csvLine fields).splitOn ';' = fields :=
  List.splitOn_intercalate ';' (fun f hf => (h f hf).not_mem.1) hne

theorem Row.splitOn_line (row : Row) : (csvLine row.fields).splitOn ';' = row.fields :=
  splitOn_csvLine (List.cons_ne_nil _ _) row.plain_fields

/-- **A row is read back.** -/
theorem readEntry_fields (row : Row) :
    ∃ entry, readEntry COLUMNS (csvLine row.fields) = .ok entry ∧ row.Matches entry := by
  have hfields : ((csvLine row.fields).splitOn ';').map (trimEndMatches '\r') = row.fields := by
    have htrim : ∀ f ∈ row.fields, trimEndMatches '\r' f = id f := fun f hf =>
      trimEndMatches_eq_self (row.plain_fields f hf).not_mem.2.1
    rw [row.splitOn_line, List.map_congr_left htrim, List.map_id]
  have hcolumn : ∀ f c i, COLUMNS.findIdx? (· = c.toList) = some i → field COLUMNS f c = .ok ((f[i]?).getD []) := by
    intro f c i hi
    rw [field, hi]
    rfl
  obtain ⟨id, hid, hidNat⟩ := u32FromHex_chars (List.ne_nil_of_length_pos row.objectId_length.1) row.objectId_length.2
  obtain ⟨index, hindex, hindexInt⟩ := Decimal.parseI32_chars row.index_fits
  have hread : readEntry COLUMNS (csvLine row.fields) = .ok {
      group := (ObjectGroup.fromString row.group).getD .others
      objectId := id
      index
      name := row.name
      requestDataType := (DataType.fromStrName row.reqType).getD .unknown
      responseDataType := (DataType.fromStrName row.respType).getD .unknown
      unit := row.unit
      description := row.description
      enumMapRaw := row.enumMap } := by
    simp only [readEntry, hfields, hcolumn row.fields "group" 0 (by decide),
      hcolumn row.fields "object_id" 1 (by decide), hcolumn row.fields "index" 2 (by decide),
      hcolumn row.fields "name" 3 (by decide), hcolumn row.fields "req_type" 4 (by decide),
      hcolumn row.fields "resp_type" 5 (by decide), hcolumn row.fields "unit" 6 (by decide),
      hcolumn row.fields "description" 7 (by decide), hcolumn row.fields "enum_map" 8 (by decide)]
    simp [Row.fields, unwrap, trimStart0x_chars, hid, hindex, bind, Except.bind, pure, Except.pure]
  exact ⟨_, hread, readAs_getD ObjectGroup.fromString_eq_some_iff _ _, hidNat, hindexInt, rfl,
    readAs_getD DataType.fromStrName_eq_some_iff _ _, readAs_getD DataType.fromStrName_eq_some_iff _ _, rfl, rfl, rfl⟩

/-- The line of a row is not empty. -/
theorem Row.line_ne_nil (row : Row) : csvLine row.fields ≠ [] := by
  intro hnil
  have hsplit := row.splitOn_line
  rw [hnil, List.splitOn_nil, Row.fields, List.cons.injEq] at hsplit
  exact List.cons_ne_nil _ _ hsplit.2.symm

/-- **All rows are read back.** -/
theorem readEntries_lines (rows : List Row) :
    ∃ entries, readEntries COLUMNS (rows.map fun row => csvLine row.fields) = .ok entries ∧
      List.Forall₂ Row.Matches rows entries := by
  induction rows with
  | nil => exact ⟨[], rfl, .nil⟩
  | cons row rows ih =>
    obtain ⟨entry, hentry, hmatches⟩ := readEntry_fields row
    obtain ⟨entries, hentries, hrest⟩ := ih
    refine ⟨entry :: entries, ?_, .cons hmatches hrest⟩
    simp only [List.map_cons, readEntries, if_neg row.line_ne_nil, hentry, hentries]
    rfl

/-- The lines of the file are read back. -/
theorem lines_registryCsv (header : LineEnding) (rows : List (Row × LineEnding)) :
    lines (registryCsv header rows).toList =
      csvLine COLUMNS :: (rows.map Prod.fst).map fun row => csvLine row.fields := by
  have hline : ∀ l ∈ (csvLine COLUMNS, header) :: rows.map (fun row => (csvLine row.1.fields, row.2)),
      ∃ fields, l.1 = csvLine fields ∧ ∀ f ∈ fields, Plain f := by
    refine List.forall_mem_cons.mpr ⟨⟨COLUMNS, rfl, plain_COLUMNS⟩, ?_⟩
    exact List.forall_mem_map.mpr fun row _ => ⟨row.1.fields, rfl, row.1.plain_fields⟩
  rw [registryCsv, String.toList_ofList, lines_flatMap]
  · rw [List.map_cons, List.map_map, List.map_map]
    rfl
  · intro l hl
    obtain ⟨fields, hfields, hplain⟩ := hline l hl
    exact hfields ▸ not_mem_csvLine (by decide) fun f hf => (hplain f hf).not_mem.2.2
  · intro l hl
    obtain ⟨fields, hfields, hplain⟩ := hline l hl
    exact hfields ▸ not_mem_csvLine (by decide) fun f hf => (hplain f hf).not_mem.2.1

/-! ### The registry -/

/-- The maps agree with the rows: a look-up is that of the rows. -/
theorem lookups_of_build {csv metaText : String} {r : LoadedRegistry} (h : build csv metaText = .ok r) :
    (∀ name, r.getByName name = r.all.getByName name) ∧ ∀ id, r.getById id = r.all.getById id := by
  rw [build] at h
  split at h
  · cases h
  · next header rest hlines =>
    obtain ⟨entries, -, rfl⟩ := of_map_eq_ok h
    exact ⟨getElem?_mapBy _ _, getElem?_mapBy _ _⟩

/-- The entries of a group are the entries that are of the group, each as often and in the order of the file. -/
structure IsGroup (all : List ObjectInfo) (g : ObjectGroup) (entries : List ObjectInfo) : Prop where
  /-- They are in the order of the file. -/
  sublist : entries.Sublist all
  /-- They are all of the group, and of no other. -/
  count : ∀ o, entries.count o = if o.group = g then all.count o else 0

theorem LoadedRegistry.isGroup (r : LoadedRegistry) (g : ObjectGroup) : IsGroup r.all g (r.group g) where
  sublist := List.filter_sublist
  count o := by
    rw [group]
    split
    · next hg => exact List.count_filter (by simpa using hg)
    · next hg => exact List.count_eq_zero.mpr fun hmem => hg (by simpa using (List.mem_filter.mp hmem).2)

/-- **The loader reads back what the generator writes**, and finds the last row with a name or an id. -/
theorem build_registryCsv (header : LineEnding) (rows : List (Row × LineEnding)) (metaText : String) :
    ∃ r, build (registryCsv header rows) metaText = .ok r ∧
      List.Forall₂ Row.Matches (rows.map Prod.fst) r.all ∧
      (∀ name, IsLast (·.name = name) r.all (r.getByName name)) ∧
      (∀ id, IsLast (·.objectId = id) r.all (r.getById id)) ∧
      ∀ g, IsGroup r.all g (r.group g) := by
  obtain ⟨entries, hentries, hmatches⟩ := readEntries_lines (rows.map Prod.fst)
  have hcolumns : (csvLine COLUMNS).splitOn ';' = COLUMNS := splitOn_csvLine (List.cons_ne_nil _ _) plain_COLUMNS
  obtain ⟨r, hr, hall⟩ : ∃ r, build (registryCsv header rows) metaText = .ok r ∧ r.all = entries := by
    rw [build]
    rw [lines_registryCsv]
    simp only [hcolumns, hentries, Except.map, Except.ok.injEq, exists_eq_left']
  obtain ⟨hname, hid⟩ := lookups_of_build hr
  refine ⟨r, hr, hall ▸ hmatches, fun name => ?_, fun id => ?_, r.isGroup⟩
  · rw [hname]
    exact isLast_find? (·.name = name) r.all
  · rw [hid]
    exact isLast_find? (·.objectId = id) r.all

end RctPower
