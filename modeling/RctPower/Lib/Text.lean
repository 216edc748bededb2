import Mathlib.Data.List.DropRight
import Mathlib.Data.List.Infix
import Mathlib.Data.Nat.Digits.Lemmas
import RctPower.Lib.Rust

/-!
# What Rust's text operations do

The operations of `str` that a reader of small text formats leans on, on lists of characters: the
lines of a text, trimming, and the parsing of numbers. Splitting is `List.splitOn`.

An index into a `str` counts bytes. It counts characters here, which makes no difference to code that
slices only at an index that it has found.

Each operation comes with the texts that it reads back: lines that end in `\n` or `\r\n`
(`lines_flatMap`), the digits of a number in base 16 (`u32FromHex_chars`), and the digits of an integer
in base 10 (`parseInt_chars`, `formatNat_injective`).
-/

namespace RctPower.Lib.Rust

/-! ### Lines -/

/-- A line without the carriage return at its end. -/
def stripCr (line : List Char) : List Char := if line.getLast? = some '\r' then line.dropLast else line

/-- `str::lines`: what is after the last newline is a line if it is not empty, and keeps a carriage return. -/
def lines (cs : List Char) : List (List Char) :=
  let parts := cs.splitOn '\n'
  parts.dropLast.map stripCr ++ (parts.getLast?.filter (· ≠ [])).toList

/-- How a line ends. -/
inductive LineEnding where
  /-- `\n`. -/
  | lf
  /-- `\r\n`. -/
  | crlf
  deriving DecidableEq

/-- The characters of a line ending. -/
def LineEnding.chars : LineEnding → List Char
  | .lf => ['\n']
  | .crlf => ['\r', '\n']

/-- A line, and what is after it. -/
theorem lines_append_cons {line : List Char} (h : '\n' ∉ line) (cs : List Char) :
    lines (line ++ '\n' :: cs) = stripCr line :: lines cs := by
  have hne := List.splitOn_ne_nil '\n' cs
  simp only [lines, List.splitOn_append_cons_self_of_not_mem h, List.dropLast_cons_of_ne_nil hne, List.map_cons,
    List.getLast?_cons_of_ne_nil hne, List.cons_append]

theorem stripCr_eq_self {line : List Char} (h : '\r' ∉ line) : stripCr line = line := by
  rw [stripCr, if_neg]
  exact fun hlast => h (List.mem_of_getLast? hlast)

/-- A line that ends in one way or the other is read back. -/
theorem lines_cons {line : List Char} (hlf : '\n' ∉ line) (hcr : '\r' ∉ line) (ending : LineEnding) (cs : List Char) :
    lines (line ++ (ending.chars ++ cs)) = line :: lines cs := by
  cases ending with
  | lf =>
    simp only [LineEnding.chars, List.singleton_append]
    rw [lines_append_cons hlf, stripCr_eq_self hcr]
  | crlf =>
    have hlf' : '\n' ∉ line ++ ['\r'] := by simp [hlf]
    have hassoc : line ++ (LineEnding.crlf.chars ++ cs) = line ++ ['\r'] ++ '\n' :: cs := by simp [LineEnding.chars]
    rw [hassoc, lines_append_cons hlf', stripCr, if_pos (by simp), List.dropLast_concat]

/-- **Lines are read back.** -/
theorem lines_flatMap {ls : List (List Char × LineEnding)} (hlf : ∀ l ∈ ls, '\n' ∉ l.1) (hcr : ∀ l ∈ ls, '\r' ∉ l.1) :
    lines (ls.flatMap fun l => l.1 ++ l.2.chars) = ls.map Prod.fst := by
  induction ls with
  | nil => rfl
  | cons l ls ih =>
    obtain ⟨hlf, hlfs⟩ := List.forall_mem_cons.mp hlf
    obtain ⟨hcr, hcrs⟩ := List.forall_mem_cons.mp hcr
    rw [List.flatMap_cons, List.append_assoc, lines_cons hlf hcr, ih hlfs hcrs, List.map_cons]

/-! ### Trimming -/

/-- `trim_end_matches` of a character. -/
def trimEndMatches (c : Char) (cs : List Char) : List Char := cs.rdropWhile (· = c)

theorem trimEndMatches_eq_self {c : Char} {cs : List Char} (h : c ∉ cs) : trimEndMatches c cs = cs := by
  refine List.rdropWhile_eq_self_iff.mpr fun hne => ?_
  rw [decide_eq_true_iff]
  exact fun heq => h (heq ▸ List.getLast_mem hne)

/-- `trim_start_matches("0x")`. -/
def trimStart0x : List Char → List Char
  | '0' :: 'x' :: cs => trimStart0x cs
  | cs => cs

/-- The characters with the property `White_Space`. -/
def isWhitespace (c : Char) : Bool :=
  let n := c.toNat
  (9 ≤ n && n ≤ 13) || n == 0x20 || n == 0x85 || n == 0xA0 || n == 0x1680 || (0x2000 ≤ n && n ≤ 0x200A) || n == 0x2028
    || n == 0x2029 || n == 0x202F || n == 0x205F || n == 0x3000

/-- `trim`. -/
def trim (cs : List Char) : List Char := (cs.dropWhile isWhitespace).rdropWhile isWhitespace

/-! ### Numbers in base 16 -/

/-- `char::to_digit(16)`. -/
def toDigit16 (c : Char) : Option ℕ :=
  if '0' ≤ c ∧ c ≤ '9' then some (c.toNat - '0'.toNat)
  else if 'a' ≤ c ∧ c ≤ 'f' then some (c.toNat - 'a'.toNat + 10)
  else if 'A' ≤ c ∧ c ≤ 'F' then some (c.toNat - 'A'.toNat + 10)
  else none

/-- An unsigned number has no sign but `+`. -/
def stripPlus : List Char → List Char
  | '+' :: cs => cs
  | cs => cs

/-- `u32::from_str_radix(_, 16)`. -/
def u32FromHex (cs : List Char) : Option UInt32 :=
  let digits := stripPlus cs
  if digits = [] then none
  else (digits.mapM toDigit16).bind fun ds =>
    let n := ds.foldl (fun n d => 16 * n + d) 0
    if n < 2 ^ 32 then some (UInt32.ofNat n) else none

/-- A digit in base 16. -/
structure HexDigit where
  /-- The number it stands for. -/
  value : Fin 16
  /-- It is written in upper case. -/
  upper : Bool

/-- How it is written. -/
def HexDigit.char (d : HexDigit) : Char := if d.upper then (Nat.digitChar d.value).toUpper else Nat.digitChar d.value

@[simp] theorem toDigit16_char (d : HexDigit) : toDigit16 d.char = some d.value.val := by
  have hall : ∀ (v : Fin 16) (u : Bool), toDigit16 (HexDigit.char ⟨v, u⟩) = some v.val := by decide
  exact hall d.value d.upper

theorem HexDigit.char_ne (d : HexDigit) : d.char ≠ '+' ∧ d.char ≠ 'x' := by
  have hall : ∀ (v : Fin 16) (u : Bool), HexDigit.char ⟨v, u⟩ ≠ '+' ∧ HexDigit.char ⟨v, u⟩ ≠ 'x' := by decide
  exact hall d.value d.upper

/-- Reading the digits of a number from the first to the last. -/
theorem foldl_digits (b : ℕ) (ds : List ℕ) : ds.foldl (fun n d => b * n + d) 0 = Nat.ofDigits b ds.reverse := by
  induction ds using List.reverseRecOn with
  | nil => rfl
  | append_singleton ds d ih =>
    rw [List.foldl_append, List.foldl_cons, List.foldl_nil, ih, List.reverse_append, List.reverse_singleton,
      List.singleton_append, Nat.ofDigits_cons, add_comm]

theorem mapM_toDigit16 (ds : List HexDigit) :
    (ds.map HexDigit.char).mapM toDigit16 = some (ds.map fun d => d.value.val) := by
  induction ds with
  | nil => rfl
  | cons d ds ih =>
    rw [List.map_cons, List.mapM_cons, toDigit16_char, ih]
    rfl

theorem stripPlus_chars (ds : List HexDigit) : stripPlus (ds.map HexDigit.char) = ds.map HexDigit.char := by
  unfold stripPlus
  split
  · next cs heq =>
    obtain ⟨d, -, hd⟩ := List.mem_map.mp (heq ▸ List.mem_cons_self : '+' ∈ ds.map HexDigit.char)
    exact absurd hd d.char_ne.1
  · rfl

/-- A text that starts with a digit and no `x` after it keeps its start. -/
theorem trimStart0x_chars (ds : List HexDigit) : trimStart0x ('0' :: 'x' :: ds.map HexDigit.char) =
    ds.map HexDigit.char := by
  rw [trimStart0x]
  unfold trimStart0x
  split
  · next cs heq =>
    obtain ⟨d, -, hd⟩ := List.mem_map.mp
      (heq ▸ List.mem_cons_of_mem _ List.mem_cons_self : 'x' ∈ ds.map HexDigit.char)
    exact absurd hd d.char_ne.2
  · rfl

/-- **Digits in base 16 are read back.** -/
theorem u32FromHex_chars {ds : List HexDigit} (hne : ds ≠ []) (hlength : ds.length ≤ 8) :
    ∃ n : UInt32, u32FromHex (ds.map HexDigit.char) = some n ∧
      n.toNat = Nat.ofDigits 16 (ds.map fun d => d.value.val).reverse := by
  have hlt : Nat.ofDigits 16 (ds.map fun d => d.value.val).reverse < 2 ^ 32 := by
    calc Nat.ofDigits 16 (ds.map fun d => d.value.val).reverse
        < 16 ^ (ds.map fun d => d.value.val).reverse.length := by
          refine Nat.ofDigits_lt_base_pow_length (by norm_num) fun n hn => ?_
          obtain ⟨d, -, rfl⟩ := List.mem_map.mp (List.mem_reverse.mp hn)
          exact d.value.isLt
      _ ≤ 16 ^ 8 := Nat.pow_le_pow_right (by norm_num) (by simpa using hlength)
      _ = 2 ^ 32 := by norm_num
  refine ⟨UInt32.ofNat (Nat.ofDigits 16 (ds.map fun d => d.value.val).reverse), ?_, UInt32.toNat_ofNat_of_lt' hlt⟩
  have hchars : ds.map HexDigit.char ≠ [] := by simpa using hne
  simp only [u32FromHex, stripPlus_chars, if_neg hchars, mapM_toDigit16, Option.bind_some, foldl_digits, if_pos hlt]

/-! ### Numbers in base 10 -/

/-- `str::parse::<i32>`. -/
def parseI32 (cs : List Char) : Option Int32 :=
  (parseInt cs).bind fun n => if -2 ^ 31 ≤ n ∧ n < 2 ^ 31 then some (Int32.ofInt n) else none

/-- `str::parse::<usize>`, on a machine with 64 bits. -/
def parseUsize (cs : List Char) : Option ℕ :=
  (parseDigits (stripPlus cs)).bind fun n => if n < 2 ^ 64 then some n else none

/-- An integer as it is written in base 10: a sign or none, and digits. -/
structure Decimal where
  /-- There is a sign. -/
  negative : Bool
  /-- The digits. -/
  digits : List (Fin 10)
  /-- There is a digit. -/
  nonempty : digits ≠ []

namespace Decimal

/-- The characters of the digits. -/
def digitChars (d : Decimal) : List Char := d.digits.map fun n : Fin 10 => Nat.digitChar n.val

/-- How it is written. -/
def chars (d : Decimal) : List Char := if d.negative then '-' :: d.digitChars else d.digitChars

/-- The number of the digits. -/
def magnitude (d : Decimal) : ℕ := Nat.ofDigits 10 (d.digits.map Fin.val).reverse

/-- The integer. -/
def value (d : Decimal) : ℤ := if d.negative then -(d.magnitude : ℤ) else d.magnitude

theorem digitChar_spec (n : Fin 10) :
    (Nat.digitChar n.val).isDigit = true ∧ (Nat.digitChar n.val).toNat - '0'.toNat = n.val := by
  revert n
  decide

theorem isDigit_of_mem {d : Decimal} {c : Char} (h : c ∈ d.digitChars) : c.isDigit = true := by
  obtain ⟨n, -, rfl⟩ := List.mem_map.mp h
  exact (digitChar_spec n).1

theorem parseDigits_digitChars (d : Decimal) : parseDigits d.digitChars = some d.magnitude := by
  have hne : d.digitChars ≠ [] := List.map_eq_nil_iff.not.mpr d.nonempty
  rw [parseDigits, if_pos ⟨hne, List.all_eq_true.mpr fun c hc => isDigit_of_mem hc⟩, magnitude, ← foldl_digits,
    digitChars, List.foldl_map, List.foldl_map]
  simp only [(digitChar_spec _).2]

/-- The digits have no sign before them. -/
theorem parseSign_digitChars (d : Decimal) : parseSign d.digitChars = (false, d.digitChars) := by
  unfold parseSign
  split
  · next cs heq => exact absurd (isDigit_of_mem (heq ▸ List.mem_cons_self : '-' ∈ d.digitChars)) (by decide)
  · next cs heq => exact absurd (isDigit_of_mem (heq ▸ List.mem_cons_self : '+' ∈ d.digitChars)) (by decide)
  · rfl

/-- **The digits of an integer are read back.** -/
theorem parseInt_chars (d : Decimal) : parseInt d.chars = some d.value := by
  cases hneg : d.negative with
  | true =>
    simp only [parseInt, chars, hneg, if_true, parseSign, parseDigits_digitChars, Option.map_some, value]
  | false =>
    simp only [parseInt, chars, hneg, Bool.false_eq_true, if_false, parseSign_digitChars, parseDigits_digitChars,
      Option.map_some, value]

theorem parseI32_chars {d : Decimal} (h : -2 ^ 31 ≤ d.value ∧ d.value < 2 ^ 31) :
    ∃ n : Int32, parseI32 d.chars = some n ∧ n.toInt = d.value := by
  refine ⟨Int32.ofInt d.value, ?_, Int32.toInt_ofInt_of_le h.1 h.2⟩
  rw [parseI32, parseInt_chars, Option.bind_some, if_pos h]

end Decimal

/-- `format!("{n}")` of an unsigned integer. -/
def formatNat (n : ℕ) : List Char := Nat.toDigits 10 n

theorem isDigit_of_mem_formatNat {n : ℕ} {c : Char} (h : c ∈ formatNat n) : c.isDigit = true :=
  Nat.isDigit_of_mem_toDigits (by norm_num) (by norm_num) h

theorem parseDigits_of_digits {cs : List Char} (hdigits : ∀ c ∈ cs, c.isDigit = true) (hne : cs ≠ []) :
    parseDigits cs = some (Nat.ofDigitChars 10 cs 0) := by
  rw [parseDigits, if_pos ⟨hne, List.all_eq_true.mpr hdigits⟩, Nat.ofDigitChars_eq_foldl]

/-- **A number is read back.** -/
theorem parseDigits_formatNat (n : ℕ) : parseDigits (formatNat n) = some n := by
  rw [parseDigits_of_digits (fun c hc => isDigit_of_mem_formatNat hc) Nat.toDigits_ne_nil, formatNat,
    Nat.ofDigitChars_ten_toDigits]

/-- **Numbers that are written in the same way are equal.** -/
theorem formatNat_injective : Function.Injective formatNat := by
  intro m n h
  rw [← Nat.ofDigitChars_ten_toDigits (n := m), ← Nat.ofDigitChars_ten_toDigits (n := n)]
  exact congrArg (Nat.ofDigitChars 10 · 0) h

end RctPower.Lib.Rust
