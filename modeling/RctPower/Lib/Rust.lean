import Mathlib.Data.List.Basic
import Mathlib.Data.List.Induction
import RctPower.Lib.Binary32

/-!
# What Rust's built-in operations do

The operations of the language and its standard library that a protocol crate
leans on, as functions: indexing and slicing, which panic out of range; integer
addition, which panics or wraps by the build profile; big-endian bytes; lossy
UTF-8; and the parsing of numbers.

Code that may panic returns a `Checked` value. A panic is not an error value: no
caller sees it, and the theorems that rule it out say so of the whole `Checked`
computation.
-/

namespace RctPower.Lib.Rust

open RctPower.Lib.Binary32

/-- Why a thread panics. -/
inductive Panic where
  /-- An index that is not below the length. -/
  | index
  /-- A slice range that starts after it ends. -/
  | sliceOrder
  /-- A slice range that ends after the length. -/
  | sliceEnd
  /-- An arithmetic overflow or underflow. -/
  | overflow
  /-- `unwrap` of `None`. -/
  | unwrapNone
  /-- `unreachable!()`. -/
  | unreachable
  deriving DecidableEq, Repr

/-- The value of code that may panic. -/
abbrev Checked (α : Type*) := Except Panic α

/-- A computation in two steps that does not panic does not panic in the first. -/
theorem Checked.of_bind_eq_ok {α β : Type*} {x : Checked α} {k : α → Checked β} {b : β}
    (h : Except.bind x k = .ok b) : ∃ a, x = .ok a ∧ k a = .ok b := by
  cases x with
  | ok a => exact ⟨a, rfl, h⟩
  | error p => cases h

/-- A result that is made of the result of a computation. -/
theorem of_map_eq_ok {ε α β : Type*} {x : Except ε α} {f : α → β} {b : β} (h : x.map f = .ok b) :
    ∃ a, x = .ok a ∧ f a = b := by
  cases x with
  | error e => cases h
  | ok a => exact ⟨a, rfl, Except.ok.inj h⟩

/-- The same of a computation that may give nothing. -/
theorem Checked.of_map_eq_some {α β : Type*} {x : Checked (Option α)} {f : α → β} {b : β}
    (h : (x.map fun o => o.map f) = .ok (some b)) : ∃ a, x = .ok (some a) ∧ f a = b := by
  obtain ⟨o, rfl, ho⟩ := of_map_eq_ok h
  cases o with
  | none => cases ho
  | some a => exact ⟨a, rfl, Option.some.inj ho⟩

/-- The build profile, which decides what integer overflow does. -/
inductive Profile where
  /-- Overflow panics. -/
  | debug
  /-- Overflow wraps. -/
  | release
  deriving DecidableEq

/-! ### Sequences -/

variable {α : Type*}

/-- `xs[i]`. -/
def index (xs : List α) (i : ℕ) : Checked α :=
  match xs[i]? with
  | some x => .ok x
  | none => .error .index

/-- `xs[a..b]`. -/
def slice (xs : List α) (a b : ℕ) : Checked (List α) :=
  if b < a then .error .sliceOrder
  else if xs.length < b then .error .sliceEnd
  else .ok ((xs.take b).drop a)

theorem index_of_getElem? {xs : List α} {i : ℕ} {x : α} (h : xs[i]? = some x) : index xs i = .ok x := by
  simp only [index, h]

theorem slice_of_le {xs : List α} {a b : ℕ} (hab : a ≤ b) (hb : b ≤ xs.length) :
    slice xs a b = .ok ((xs.take b).drop a) := by
  simp only [slice, if_neg (not_lt.mpr hab), if_neg (not_lt.mpr hb)]

theorem slice_of_lt {xs : List α} {a b : ℕ} (h : b < a) : slice xs a b = .error .sliceOrder := by
  simp only [slice, if_pos h]

/-- `unwrap`. -/
def unwrap : Option α → Checked α
  | some x => .ok x
  | none => .error .unwrapNone

/-- `a - b` on `usize`. -/
def usizeSub (a b : ℕ) : Checked ℕ := if b ≤ a then .ok (a - b) else .error .overflow

theorem usizeSub_of_le {a b : ℕ} (h : b ≤ a) : usizeSub a b = .ok (a - b) := if_pos h

/-- `a + b` on `u8`. -/
def addU8 (prof : Profile) (a b : UInt8) : Checked UInt8 :=
  if a.toNat + b.toNat < 2 ^ 8 ∨ prof = .release then .ok (a + b) else .error .overflow

/-- `a + b` on `u16`. -/
def addU16 (prof : Profile) (a b : UInt16) : Checked UInt16 :=
  if a.toNat + b.toNat < 2 ^ 16 ∨ prof = .release then .ok (a + b) else .error .overflow

/-! ### Maps -/

/-- A `HashMap` that some values are inserted into, one after the other, each under its key. -/
def mapBy {κ : Type*} [BEq κ] [Hashable κ] (key : α → κ) (xs : List α) : Std.HashMap κ α :=
  xs.foldl (fun m x => m.insert (key x) x) ∅

/-- A key has the last value that was inserted under it. -/
theorem getElem?_mapBy {κ : Type*} [DecidableEq κ] [Hashable κ] (key : α → κ) (xs : List α) (k : κ) :
    (mapBy key xs)[k]? = xs.reverse.find? (key · = k) := by
  induction xs using List.reverseRecOn with
  | nil => exact Std.HashMap.getElem?_empty
  | append_singleton xs x ih =>
    rw [mapBy, List.foldl_append, List.foldl_cons, List.foldl_nil, Std.HashMap.getElem?_insert, List.reverse_append,
      List.reverse_singleton, List.singleton_append, List.find?_cons]
    by_cases hk : key x = k
    · simp [hk]
    · simpa [hk, mapBy] using ih

/-! ### Casts to unsigned integers -/

/-- The cast to a byte keeps the low eight bits. -/
theorem toNat_ofInt8 (n : ℤ) : ((UInt8.ofInt n).toNat : ℤ) = n % 2 ^ 8 := by
  rw [UInt8.ofInt]
  rw [UInt8.toNat_ofNat']
  omega

theorem toNat_ofInt16 (n : ℤ) : ((UInt16.ofInt n).toNat : ℤ) = n % 2 ^ 16 := by
  rw [UInt16.ofInt]
  rw [UInt16.toNat_ofNat']
  omega

theorem toNat_ofInt32 (n : ℤ) : ((UInt32.ofInt n).toNat : ℤ) = n % 2 ^ 32 := by
  rw [UInt32.ofInt]
  rw [UInt32.toNat_ofNat']
  omega

theorem ofInt8_toNat (b : UInt8) : UInt8.ofInt b.toNat = b := by
  have := b.toNat_lt
  have := toNat_ofInt8 b.toNat
  exact UInt8.toNat.inj (by omega)

theorem ofInt16_toNat (n : UInt16) : UInt16.ofInt n.toNat = n := by
  have := n.toNat_lt
  have := toNat_ofInt16 n.toNat
  exact UInt16.toNat.inj (by omega)

theorem ofInt32_toNat (n : UInt32) : UInt32.ofInt n.toNat = n := by
  have := n.toNat_lt
  have := toNat_ofInt32 n.toNat
  exact UInt32.toNat.inj (by omega)

/-! ### Big-endian bytes -/

/-- `u16::to_be_bytes`. -/
def u16ToBe (n : UInt16) : List UInt8 := [UInt8.ofNat (n.toNat / 2 ^ 8), UInt8.ofNat n.toNat]

/-- `u32::to_be_bytes`. -/
def u32ToBe (n : UInt32) : List UInt8 :=
  [UInt8.ofNat (n.toNat / 2 ^ 24), UInt8.ofNat (n.toNat / 2 ^ 16), UInt8.ofNat (n.toNat / 2 ^ 8), UInt8.ofNat n.toNat]

/-- `u16::from_be_bytes`. -/
def u16OfBe (b₀ b₁ : UInt8) : UInt16 := UInt16.ofNat (b₀.toNat * 2 ^ 8 + b₁.toNat)

/-- `u32::from_be_bytes`. -/
def u32OfBe (b₀ b₁ b₂ b₃ : UInt8) : UInt32 :=
  UInt32.ofNat (b₀.toNat * 2 ^ 24 + b₁.toNat * 2 ^ 16 + b₂.toNat * 2 ^ 8 + b₃.toNat)

@[simp] theorem length_u16ToBe (n : UInt16) : (u16ToBe n).length = 2 := rfl

@[simp] theorem length_u32ToBe (n : UInt32) : (u32ToBe n).length = 4 := rfl

theorem u16OfBe_toBe (n : UInt16) :
    u16OfBe (UInt8.ofNat (n.toNat / 2 ^ 8)) (UInt8.ofNat n.toNat) = n := by
  have := n.toNat_lt
  apply UInt16.toNat.inj
  simp only [u16OfBe, UInt16.toNat_ofNat', UInt8.toNat_ofNat']
  omega

theorem u32OfBe_toBe (n : UInt32) :
    u32OfBe (UInt8.ofNat (n.toNat / 2 ^ 24)) (UInt8.ofNat (n.toNat / 2 ^ 16)) (UInt8.ofNat (n.toNat / 2 ^ 8))
      (UInt8.ofNat n.toNat) = n := by
  have := n.toNat_lt
  apply UInt32.toNat.inj
  simp only [u32OfBe, UInt32.toNat_ofNat', UInt8.toNat_ofNat']
  omega

theorem u32ToBe_injective : Function.Injective u32ToBe := by
  intro x y h
  simp only [u32ToBe, List.cons.injEq, and_true] at h
  obtain ⟨h₀, h₁, h₂, h₃⟩ := h
  rw [← u32OfBe_toBe x, ← u32OfBe_toBe y, h₀, h₁, h₂, h₃]

theorem u16ToBe_ofBe (b₀ b₁ : UInt8) : u16ToBe (u16OfBe b₀ b₁) = [b₀, b₁] := by
  have h₀ := b₀.toNat_lt
  have h₁ := b₁.toNat_lt
  have hnat : (u16OfBe b₀ b₁).toNat = b₀.toNat * 2 ^ 8 + b₁.toNat := by
    rw [u16OfBe, UInt16.toNat_ofNat']
    omega
  rw [u16ToBe, hnat]
  congr 2
  · apply UInt8.toNat.inj
    rw [UInt8.toNat_ofNat']
    omega
  · apply UInt8.toNat.inj
    rw [UInt8.toNat_ofNat']
    omega

theorem u32ToBe_ofBe (b₀ b₁ b₂ b₃ : UInt8) : u32ToBe (u32OfBe b₀ b₁ b₂ b₃) = [b₀, b₁, b₂, b₃] := by
  have h₀ := b₀.toNat_lt
  have h₁ := b₁.toNat_lt
  have h₂ := b₂.toNat_lt
  have h₃ := b₃.toNat_lt
  have hnat : (u32OfBe b₀ b₁ b₂ b₃).toNat =
      b₀.toNat * 2 ^ 24 + b₁.toNat * 2 ^ 16 + b₂.toNat * 2 ^ 8 + b₃.toNat := by
    rw [u32OfBe, UInt32.toNat_ofNat']
    omega
  have hbyte : ∀ (k : ℕ) (b : UInt8), k % 2 ^ 8 = b.toNat → UInt8.ofNat k = b := by
    intro k b hk
    apply UInt8.toNat.inj
    rw [UInt8.toNat_ofNat']
    exact hk
  rw [u32ToBe, hnat, hbyte _ b₀ (by omega), hbyte _ b₁ (by omega), hbyte _ b₂ (by omega), hbyte _ b₃ (by omega)]

/-! ### Lossy UTF-8 -/

/-- A multi-byte character under way: how many bytes are to come, the range of the next
one, and the bits so far. -/
structure Utf8Pending where
  /-- Bytes to come. -/
  left : ℕ
  /-- Least next byte. -/
  lo : ℕ
  /-- Greatest next byte. -/
  hi : ℕ
  /-- The bits so far. -/
  acc : ℕ

/-- The replacement character. -/
def replacementChar : Char := Char.ofNat 0xFFFD

/-- The first byte of a character: what is complete at once, and what is under way. The
ranges leave out overlong forms, surrogates and what is above U+10FFFF. -/
def utf8Start (b : UInt8) : List Char × Option Utf8Pending :=
  let n := b.toNat
  if n < 0x80 then ([Char.ofNat n], none)
  else if 0xC2 ≤ n ∧ n ≤ 0xDF then ([], some ⟨1, 0x80, 0xBF, n - 0xC0⟩)
  else if 0xE0 ≤ n ∧ n ≤ 0xEF then
    ([], some ⟨2, if n = 0xE0 then 0xA0 else 0x80, if n = 0xED then 0x9F else 0xBF, n - 0xE0⟩)
  else if 0xF0 ≤ n ∧ n ≤ 0xF4 then
    ([], some ⟨3, if n = 0xF0 then 0x90 else 0x80, if n = 0xF4 then 0x8F else 0xBF, n - 0xF0⟩)
  else ([replacementChar], none)

/-- `String::from_utf8_lossy`: each maximal piece that is no character becomes one
replacement character. -/
def utf8Lossy : Option Utf8Pending → List UInt8 → List Char
  | none, [] => []
  | some _, [] => [replacementChar]
  | none, b :: bs => (utf8Start b).1 ++ utf8Lossy (utf8Start b).2 bs
  | some p, b :: bs =>
    if p.lo ≤ b.toNat ∧ b.toNat ≤ p.hi then
      let acc := p.acc * 64 + (b.toNat - 0x80)
      if p.left = 1 then Char.ofNat acc :: utf8Lossy none bs
      else utf8Lossy (some ⟨p.left - 1, 0x80, 0xBF, acc⟩) bs
    else replacementChar :: (utf8Start b).1 ++ utf8Lossy (utf8Start b).2 bs

/-! ### Parsing numbers -/

/-- The number of a nonempty string of decimal digits. -/
def parseDigits (cs : List Char) : Option ℕ :=
  if cs ≠ [] ∧ cs.all Char.isDigit then some (cs.foldl (fun n c => 10 * n + (c.toNat - '0'.toNat)) 0) else none

/-- A sign, and what is after it. -/
def parseSign : List Char → Bool × List Char
  | '-' :: cs => (true, cs)
  | '+' :: cs => (false, cs)
  | cs => (false, cs)

/-- The integer of an optional sign and decimal digits. -/
def parseInt (cs : List Char) : Option ℤ :=
  (parseDigits (parseSign cs).2).map fun k : ℕ => if (parseSign cs).1 then -(k : ℤ) else (k : ℤ)

/-- `str::parse::<i64>`. -/
def parseI64 (s : String) : Option Int64 :=
  (parseInt s.toList).bind fun n => if -2 ^ 63 ≤ n ∧ n < 2 ^ 63 then some (Int64.ofInt n) else none

/-- The digits of a decimal fraction as one number, and how many of them are after the
point. At least one digit is needed, on either side. -/
def parseDecimal (cs : List Char) : Option (ℕ × ℕ) :=
  let whole := cs.takeWhile (· ≠ '.')
  let frac := (cs.dropWhile (· ≠ '.')).drop 1
  (parseDigits (whole ++ frac)).map fun n => (n, frac.length)

/-- `str::parse::<f32>`: a decimal fraction with an optional exponent, or the name of a
special value. -/
def parseF32 (s : String) : Option F32 :=
  let (neg, cs) := parseSign s.toList
  let lower := cs.map Char.toLower
  if lower = "inf".toList ∨ lower = "infinity".toList then some (.ofMag neg infMagnitude)
  else if lower = "nan".toList then some (.ofMag neg (infMagnitude + 2 ^ 22))
  else
    let isExp : Char → Bool := fun c => c = 'e' || c = 'E'
    let expo := if cs.any isExp then parseInt ((cs.dropWhile (! isExp ·)).drop 1) else some 0
    match parseDecimal (cs.takeWhile (! isExp ·)), expo with
    | some (n, k), some e => some (.ofRat neg (n * (10 : ℚ) ^ (e - k)))
    | _, _ => none

end RctPower.Lib.Rust
