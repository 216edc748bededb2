import RctPower.Settings.Loader

/-!
# The registry that is generated

`tools/generate_registry.py` sorts the rows it has found by their ids and writes them, and beside them a text
in JSON with the number of the rows and the commit that they are from. `build` reads both; of the JSON it
reads single lines, by the colons and the quotes in them.

## What is proved

`build_generated` is about the two files together, for all rows and commits. The number that is read is that
of the rows, and of the entries. The entries are in the order of their ids. Where an id occurs more than once,
the loader finds the row that came last in the source, because the sort is stable; where a name does, the one
with the greatest id.
-/

namespace RctPower

open RctPower.Lib.Rust

/-! ### What is written -/

/-- `int(r["object_id"], 16)`. -/
def Row.idNat (row : Row) : ℕ := Nat.ofDigits 16 (row.objectId.map fun d => d.value.val).reverse

/-- `out.sort(key=...)`, which is stable. -/
def sortRows (rows : List Row) : List Row := rows.mergeSort fun a b => decide (a.idNat ≤ b.idNat)

/-- A text that `json.dumps` writes as it is. -/
def JsonPlain (cs : List Char) : Prop := ∀ c ∈ cs, (' ' ≤ c ∧ c ≤ '~') ∧ c ≠ '"' ∧ c ≠ '\\'

instance (cs : List Char) : Decidable (JsonPlain cs) := List.decidableBAll _ cs

/-- The lines of `json.dumps(meta, indent=2)`. -/
def metaLines (commit : List Char) (count : ℕ) : List (List Char) :=
  ["\x7b".toList, "  \"source\": \"python-rctclient registry.py\",".toList,
   "  \"source_commit\": \"".toList ++ commit ++ "\",".toList, "  \"count\": ".toList ++ formatNat count, "\x7d".toList]

/-- `data/registry_meta.json`. -/
def registryMeta (eol : LineEnding) (commit : List Char) (count : ℕ) : String :=
  String.ofList ((metaLines commit count).flatMap fun l => l ++ eol.chars)

/-! ### Sorting -/

section Sorting

variable {α : Type} (key : α → ℕ)

theorem keyLe_trans (a b c : α) (hab : decide (key a ≤ key b) = true) (hbc : decide (key b ≤ key c) = true) :
    decide (key a ≤ key c) = true := by
  rw [decide_eq_true_iff] at *
  exact hab.trans hbc

theorem keyLe_total (a b : α) : (decide (key a ≤ key b) || decide (key b ≤ key a)) = true := by
  rw [Bool.or_eq_true, decide_eq_true_iff, decide_eq_true_iff]
  exact le_total _ _

/-- **A stable sort keeps the order of what has one key.** -/
theorem filter_mergeSort (l : List α) (k : ℕ) :
    (l.mergeSort fun a b => decide (key a ≤ key b)).filter (key · = k) = l.filter (key · = k) := by
  have hsorted : (l.filter (key · = k)).Pairwise fun a b => decide (key a ≤ key b) = true := by
    refine List.pairwise_of_forall_mem_list fun a ha b hb => ?_
    rw [List.mem_filter, decide_eq_true_iff] at ha hb
    rw [decide_eq_true_iff, ha.2, hb.2]
  have hsub : (l.filter (key · = k)).Sublist
      ((l.mergeSort fun a b => decide (key a ≤ key b)).filter (key · = k)) := by
    have h := List.sublist_mergeSort (keyLe_trans key) (keyLe_total key) hsorted List.filter_sublist
    simpa only [List.filter_filter, Bool.and_self] using h.filter (key · = k)
  exact (hsub.eq_of_length ((List.mergeSort_perm l _).filter _).length_eq.symm).symm

/-- The keys ascend. -/
theorem pairwise_mergeSort_key (l : List α) :
    (l.mergeSort fun a b => decide (key a ≤ key b)).Pairwise fun a b => key a ≤ key b :=
  (List.pairwise_mergeSort (keyLe_trans key) (keyLe_total key) l).imp fun hab => of_decide_eq_true hab

end Sorting

/-! ### The lines of the JSON -/

theorem JsonPlain.notMem {cs : List Char} (h : JsonPlain cs) : '"' ∉ cs ∧ '\r' ∉ cs ∧ '\n' ∉ cs := by
  refine ⟨fun hc => (h _ hc).2.1 rfl, fun hc => ?_, fun hc => ?_⟩
  · exact absurd (h _ hc).1.1 (by decide)
  · exact absurd (h _ hc).1.1 (by decide)

theorem mem_dropWhile_of_mem {p : Char → Bool} {c : Char} {l : List Char} (hc : c ∈ l) (hp : p c = false) :
    c ∈ l.dropWhile p := by
  rw [← List.takeWhile_append_dropWhile (p := p) (l := l), List.mem_append] at hc
  refine hc.resolve_left fun htake => ?_
  rw [List.mem_takeWhile_imp htake] at hp
  cases hp

theorem mem_rdropWhile_of_mem {p : Char → Bool} {c : Char} {l : List Char} (hc : c ∈ l) (hp : p c = false) :
    c ∈ l.rdropWhile p :=
  List.mem_reverse.mpr (mem_dropWhile_of_mem (List.mem_reverse.mpr hc) hp)

/-- A text with a quote is not a number. -/
theorem parseUsize_of_quote {v : List Char} (h : '"' ∈ v) : parseUsize (trimEndMatches ',' (trim v)) = none := by
  have htrim : '"' ∈ trimEndMatches ',' (trim v) := by
    refine mem_rdropWhile_of_mem (mem_rdropWhile_of_mem (mem_dropWhile_of_mem h ?_) ?_) ?_
    · decide
    · decide
    · decide
  have hplus : '"' ∈ stripPlus (trimEndMatches ',' (trim v)) := by
    unfold stripPlus
    split
    · next cs heq => simpa [heq] using htrim
    · exact htrim
  rw [parseUsize, parseDigits, if_neg]
  · rfl
  · rintro ⟨-, hall⟩
    exact absurd (List.all_eq_true.mp hall _ hplus) (by decide)

/-- The number is read, with a comma after it or without one. -/
theorem parseUsize_formatNat {n : ℕ} (hn : n < 2 ^ 64) :
    parseUsize (trimEndMatches ',' (trim (' ' :: formatNat n))) = some n := by
  have hdigit : ∀ {c : Char}, c.isDigit = false → c ∉ formatNat n := by
    intro c hc hmem
    rw [isDigit_of_mem_formatNat hmem] at hc
    cases hc
  have hspace : ∀ c ∈ formatNat n, isWhitespace c = false := by
    intro c hc
    have hc := isDigit_of_mem_formatNat hc
    simp only [Char.isDigit, Bool.and_eq_true, decide_eq_true_eq, ge_iff_le, UInt32.le_iff_toNat_le] at hc
    have hc : 48 ≤ c.toNat ∧ c.toNat ≤ 57 := hc
    simp only [isWhitespace, Bool.or_eq_false_iff, Bool.and_eq_false_iff, decide_eq_false_iff_not, beq_eq_false_iff_ne]
    omega
  have htrim : trim (' ' :: formatNat n) = formatNat n := by
    have hdrop : (' ' :: formatNat n).dropWhile isWhitespace = formatNat n := by
      rw [List.dropWhile_cons_of_pos (by decide), List.dropWhile_eq_self_iff]
      intro hl
      rw [hspace _ (List.getElem_mem hl)]
      exact Bool.false_ne_true
    rw [trim, hdrop, List.rdropWhile_eq_self_iff]
    intro hl
    rw [hspace _ (List.getLast_mem hl)]
    exact Bool.false_ne_true
  have hplus : stripPlus (formatNat n) = formatNat n := by
    unfold stripPlus
    split
    · next cs heq => exact absurd (heq ▸ List.mem_cons_self) (hdigit (c := '+') (by decide))
    · rfl
  rw [htrim, trimEndMatches_eq_self (hdigit (by decide)), parseUsize, hplus, parseDigits_formatNat, Option.bind_some,
    if_pos hn]

/-- A character of the lines is in the commit, or is a digit, or in every such text. -/
theorem notMem_metaLines {c : Char} {commit : List Char} (hcommit : c ∉ commit) (hdigit : c.isDigit = false)
    (hfixed : ∀ l ∈ metaLines [] 0, c ∉ l) (n : ℕ) : ∀ l ∈ metaLines commit n, c ∉ l := by
  have hcount : c ∉ formatNat n := by
    intro hmem
    rw [isDigit_of_mem_formatNat hmem] at hdigit
    cases hdigit
  simp only [metaLines, List.forall_mem_cons, List.mem_append, not_or] at hfixed ⊢
  obtain ⟨hopen, hsource, ⟨⟨hkey, -⟩, hend⟩, ⟨hkey', -⟩, hclose, hnil⟩ := hfixed
  exact ⟨hopen, hsource, ⟨⟨hkey, hcommit⟩, hend⟩, ⟨hkey', hcount⟩, hclose, hnil⟩

/-- The lines are read back. -/
theorem lines_registryMeta (eol : LineEnding) {commit : List Char} (hcommit : JsonPlain commit) (n : ℕ) :
    lines (registryMeta eol commit n).toList = metaLines commit n := by
  obtain ⟨-, hcr, hlf⟩ := hcommit.notMem
  have hlines := @lines_flatMap ((metaLines commit n).map fun l => (l, eol)) ?_ ?_
  · rw [List.flatMap_map, List.map_map] at hlines
    rw [registryMeta, String.toList_ofList]
    exact hlines.trans (List.map_id _)
  · exact List.forall_mem_map.mpr (notMem_metaLines hlf (by decide) (by decide) n)
  · exact List.forall_mem_map.mpr (notMem_metaLines hcr (by decide) (by decide) n)

/-- **The number of rows is read back**: no line before it has a number after its first colon. -/
theorem metaCount_registryMeta (eol : LineEnding) {commit : List Char} (hcommit : JsonPlain commit) {n : ℕ}
    (hn : n < 2 ^ 64) : metaCount (registryMeta eol commit n).toList = n := by
  let number : List Char → Option ℕ := fun l =>
    ((l.splitOn ':')[1]?).bind fun v => parseUsize (trimEndMatches ',' (trim v))
  have hopen : number "\x7b".toList = none := by decide +kernel
  have hsource : number "  \"source\": \"python-rctclient registry.py\",".toList = none := by decide +kernel
  have hcommitLine : number ("  \"source_commit\": \"".toList ++ commit ++ "\",".toList) = none := by
    have hcut : "  \"source_commit\": \"".toList ++ commit ++ "\",".toList =
        "  \"source_commit\"".toList ++ ':' :: (' ' :: '"' :: (commit ++ "\",".toList)) := by simp
    obtain ⟨first, rest, hfirst⟩ := List.exists_cons_of_ne_nil (List.splitOn_ne_nil ':' (commit ++ "\",".toList))
    have hsplit : (' ' :: '"' :: (commit ++ "\",".toList)).splitOn ':' = (' ' :: '"' :: first) :: rest := by
      rw [List.splitOn_cons_eq_if_modifyHead, if_neg (by decide), List.splitOn_cons_eq_if_modifyHead,
        if_neg (by decide), hfirst]
      rfl
    have hnumber : number ("  \"source_commit\": \"".toList ++ commit ++ "\",".toList) =
        parseUsize (trimEndMatches ',' (trim (' ' :: '"' :: first))) := by
      dsimp only [number]
      rw [hcut, List.splitOn_append_cons_self_of_not_mem (by decide), hsplit]
      rfl
    rw [hnumber]
    exact parseUsize_of_quote (by simp)
  have hcount : number ("  \"count\": ".toList ++ formatNat n) = some n := by
    have hcut : "  \"count\": ".toList ++ formatNat n = "  \"count\"".toList ++ ':' :: (' ' :: formatNat n) := by simp
    have hdigits : ':' ∉ ' ' :: formatNat n := by
      rw [List.mem_cons, not_or]
      exact ⟨by decide, fun hmem => absurd (isDigit_of_mem_formatNat hmem) (by decide)⟩
    have hnumber : number ("  \"count\": ".toList ++ formatNat n) =
        parseUsize (trimEndMatches ',' (trim (' ' :: formatNat n))) := by
      dsimp only [number]
      rw [hcut, List.splitOn_append_cons_self_of_not_mem (by decide), List.splitOn_eq_singleton hdigits]
      rfl
    rw [hnumber, parseUsize_formatNat hn]
  have hfind : metaCount (registryMeta eol commit n).toList = ((metaLines commit n).findSome? number).getD 0 := by
    rw [metaCount, lines_registryMeta eol hcommit]
  rw [hfind, metaLines, List.findSome?_cons, hopen]
  dsimp only
  rw [List.findSome?_cons, hsource]
  dsimp only
  rw [List.findSome?_cons, hcommitLine]
  dsimp only
  rw [List.findSome?_cons, hcount]
  rfl

/-- **The commit is read back**, from between the quotes of its line. -/
theorem metaCommit_registryMeta (eol : LineEnding) {commit : List Char} (hcommit : JsonPlain commit) (n : ℕ) :
    metaCommit (registryMeta eol commit n).toList = String.ofList commit := by
  let named : List Char → Bool := fun l => decide ("source_commit".toList <:+: l)
  have hopen : named "\x7b".toList = false := by decide +kernel
  have hsource : named "  \"source\": \"python-rctclient registry.py\",".toList = false := by decide +kernel
  have hcommitLine : named ("  \"source_commit\": \"".toList ++ commit ++ "\",".toList) = true :=
    decide_eq_true ⟨"  \"".toList, "\": \"".toList ++ commit ++ "\",".toList, by simp⟩
  have hquote : '"' ∉ commit := hcommit.notMem.1
  have hsplit : ("  \"source_commit\": \"".toList ++ commit ++ "\",".toList).splitOn '"' =
      ["  ".toList, "source_commit".toList, ": ".toList, commit, ",".toList] := by
    have hcut : "  \"source_commit\": \"".toList ++ commit ++ "\",".toList =
        "  ".toList ++ '"' :: ("source_commit".toList ++ '"' ::
          (": ".toList ++ '"' :: (commit ++ '"' :: ",".toList))) := by
      simp
    rw [hcut, List.splitOn_append_cons_self_of_not_mem (by decide),
      List.splitOn_append_cons_self_of_not_mem (by decide), List.splitOn_append_cons_self_of_not_mem (by decide),
      List.splitOn_append_cons_self_of_not_mem hquote, List.splitOn_eq_singleton (by decide)]
  have hfind : (metaLines commit n).find? named =
      some ("  \"source_commit\": \"".toList ++ commit ++ "\",".toList) := by
    rw [metaLines, List.find?_cons_of_neg (Bool.eq_false_iff.mp hopen),
      List.find?_cons_of_neg (Bool.eq_false_iff.mp hsource), List.find?_cons_of_pos hcommitLine]
  have hcommitOf : metaCommit (registryMeta eol commit n).toList =
      (((metaLines commit n).find? named).bind fun l => (l.splitOn '"')[3]?.map String.ofList).getD "unknown" := by
    rw [metaCommit, lines_registryMeta eol hcommit]
  rw [hcommitOf, hfind, Option.bind_some, hsplit]
  rfl

/-! ### The registry -/

/-- What is found is the entry of the last of the rows with a property, or there is none. -/
def FindsLast (rows : List Row) (p : Row → Bool) (found : Option ObjectInfo) : Prop :=
  Option.Rel Row.Matches (rows.reverse.find? p) found

theorem rel_find? {p : Row → Bool} {q : ObjectInfo → Bool} (hpq : ∀ row entry, Row.Matches row entry → p row = q entry)
    {rows : List Row} {entries : List ObjectInfo} (h : List.Forall₂ Row.Matches rows entries) :
    Option.Rel Row.Matches (rows.find? p) (entries.find? q) := by
  induction h with
  | nil => exact .none
  | @cons row entry rows entries hrow hrest ih =>
    rw [List.find?_cons, List.find?_cons, hpq row entry hrow]
    split
    · exact .some hrow
    · exact ih

/-- After a stable sort, the last row with an id is the same. -/
theorem find?_sortRows (rows : List Row) (k : ℕ) :
    (sortRows rows).reverse.find? (·.idNat = k) = rows.reverse.find? (·.idNat = k) := by
  rw [← List.getLast?_filter, ← List.getLast?_filter, sortRows, filter_mergeSort Row.idNat]

theorem Row.Matches.idNat_eq {row : Row} {entry : ObjectInfo} (h : row.Matches entry) :
    row.idNat = entry.objectId.toNat := h.objectId.symm

/-- The entries ascend as the rows do. -/
theorem pairwise_of_matches {rows : List Row} {entries : List ObjectInfo} (h : List.Forall₂ Row.Matches rows entries)
    (hrows : rows.Pairwise fun a b => a.idNat ≤ b.idNat) : entries.Pairwise fun a b => a.objectId ≤ b.objectId := by
  have hkeys : rows.map Row.idNat = entries.map (·.objectId.toNat) := by
    rw [← List.forall₂_eq_eq_eq, List.forall₂_map_left_iff, List.forall₂_map_right_iff]
    exact h.imp fun _ _ hrow => hrow.idNat_eq
  have hids : (entries.map (·.objectId.toNat)).Pairwise (· ≤ ·) := by
    rw [← hkeys, List.pairwise_map]
    exact hrows
  rw [List.pairwise_map] at hids
  exact hids.imp fun hle => UInt32.le_iff_toNat_le.mpr hle

/-- What is made of the two files. -/
theorem exists_build (header : LineEnding) (rows : List (Row × LineEnding)) (metaText : String) :
    ∃ r, build (registryCsv header rows) metaText = .ok r ∧ List.Forall₂ Row.Matches (rows.map Prod.fst) r.all ∧
      r.count = metaCount metaText.toList ∧ r.sourceCommit = metaCommit metaText.toList := by
  obtain ⟨entries, hentries, hmatches⟩ := readEntries_lines (rows.map Prod.fst)
  have hcolumns : (csvLine COLUMNS).splitOn ';' = COLUMNS := splitOn_csvLine (List.cons_ne_nil _ _) plain_COLUMNS
  rw [build]
  rw [lines_registryCsv]
  simp only [hcolumns, hentries, Except.map, Except.ok.injEq, exists_eq_left', and_true]
  exact hmatches

/-- **What the generator writes is what the program knows**: the number of the entries and the commit are
read back, the entries ascend by their ids, and of the rows with one id the last one of the source is found. -/
theorem build_generated (rows : List Row) (eol metaEol : LineEnding) {commit : List Char} (hcommit : JsonPlain commit)
    (hcount : rows.length < 2 ^ 64) :
    ∃ r, build (registryCsv eol ((sortRows rows).map fun row => (row, eol))) (registryMeta metaEol commit rows.length) =
        .ok r ∧
      r.count = rows.length ∧ r.all.length = r.count ∧ r.sourceCommit = String.ofList commit ∧
      (r.all.Pairwise fun a b => a.objectId ≤ b.objectId) ∧
      (∀ id : UInt32, FindsLast rows (·.idNat = id.toNat) (r.getById id)) ∧
      ∀ name, FindsLast (sortRows rows) (·.name.1 = name) (r.getByName name) := by
  obtain ⟨r, hr, hmatches, hrcount, hrcommit⟩ := exists_build eol ((sortRows rows).map fun row => (row, eol))
    (registryMeta metaEol commit rows.length)
  obtain ⟨hname, hid⟩ := lookups_of_build hr
  rw [List.map_map, show (Prod.fst ∘ fun row : Row => (row, eol)) = id from rfl, List.map_id] at hmatches
  rw [metaCount_registryMeta metaEol hcommit hcount] at hrcount
  rw [metaCommit_registryMeta metaEol hcommit] at hrcommit
  refine ⟨r, hr, hrcount, ?_, hrcommit, ?_, fun id => ?_, fun name => ?_⟩
  · rw [hrcount, ← hmatches.length_eq, sortRows, List.length_mergeSort]
  · exact pairwise_of_matches hmatches (pairwise_mergeSort_key Row.idNat rows)
  · rw [FindsLast, ← find?_sortRows, hid]
    refine rel_find? (fun row entry h => ?_) (List.forall₂_reverse_iff.mpr hmatches)
    rw [decide_eq_decide, h.idNat_eq, UInt32.toNat_inj]
  · rw [FindsLast, hname]
    refine rel_find? (fun row entry h => ?_) (List.forall₂_reverse_iff.mpr hmatches)
    rw [decide_eq_decide, h.name]

/-- Two rows with one id: the second one is found. -/
theorem build_generated_battery :
    let row (unit : TextField) : Row :=
      ⟨⟨"BATTERY", by decide⟩, [9, 5, 9, 9, 3, 0, 11, 15].map fun v => ⟨v, true⟩, by decide,
       ⟨false, [2, 5], by decide⟩, by decide, ⟨"battery.soc", by decide⟩, ⟨"FLOAT", by decide⟩, ⟨"FLOAT", by decide⟩,
       unit, ⟨"SOC", by decide⟩, ⟨"", by decide⟩⟩
    let rows := [row ⟨"", by decide⟩, row ⟨"%", by decide⟩]
    ∃ r, build (registryCsv .crlf ((sortRows rows).map fun row => (row, .crlf)))
        (registryMeta .lf "636aabf".toList rows.length) = .ok r ∧ r.count = 2 ∧ r.sourceCommit = "636aabf" ∧
      ∃ o, r.getById 0x959930BF = some o ∧ o.unit = "%" := by
  intro row rows
  obtain ⟨r, hr, hcount, -, hcommit, -, hid, -⟩ :=
    @build_generated rows .crlf .lf "636aabf".toList (by decide) (by decide)
  refine ⟨r, hr, hcount, hcommit.trans (by decide), ?_⟩
  have hfound := hid 0x959930BF
  rw [FindsLast, show rows.reverse.find? _ = some (row ⟨"%", by decide⟩) from rfl] at hfound
  cases hfind : r.getById 0x959930BF with
  | none =>
    rw [hfind] at hfound
    cases hfound
  | some o =>
    rw [hfind] at hfound
    obtain ⟨⟩ := hfound
    next hmatches => exact ⟨o, rfl, hmatches.unit⟩

end RctPower
