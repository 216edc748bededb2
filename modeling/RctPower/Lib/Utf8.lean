import RctPower.Lib.Rust

/-!
# Texts as UTF-8

The encoding of a text, character by character, against `utf8Lossy`, the reader that never refuses.

The reader takes one byte at a time, so each character is followed through it by its first byte: a byte
below `0x80` is a character by itself, and any other says how many are to come (`utf8Lossy_lead₁` and the
like). What is encoded is read back, whatever follows (`utf8Lossy_cons`, `utf8Lossy_utf8Bytes`).

All bytes of a character of more than one byte are at least `0x80`. A zero byte is therefore the
character `NUL`, and a cut at the first zero byte is a cut at the first `NUL` (`takeWhile_utf8Bytes`).
-/

namespace RctPower.Lib.Rust

open String (utf8EncodeChar)

/-- The UTF-8 encoding of a text. -/
def utf8Bytes (cs : List Char) : List UInt8 := cs.flatMap utf8EncodeChar

@[simp] theorem utf8Bytes_nil : utf8Bytes [] = [] := rfl

@[simp] theorem utf8Bytes_cons (c : Char) (cs : List Char) :
    utf8Bytes (c :: cs) = utf8EncodeChar c ++ utf8Bytes cs := rfl

/-- A text that has no bytes is empty. -/
theorem utf8Bytes_eq_nil_iff {cs : List Char} : utf8Bytes cs = [] ↔ cs = [] := by
  cases cs with
  | nil => simp
  | cons c cs => simp [String.utf8EncodeChar_ne_nil]

/-! ### The bytes of a string -/

theorem toList_toByteArray (bs : List UInt8) : bs.toByteArray.toList = bs := by
  have hloop : ∀ (k i : ℕ) (acc : List UInt8), i + k = bs.length →
      ByteArray.toList.loop bs.toByteArray i acc = acc.reverse ++ bs.drop i := by
    intro k
    induction k with
    | zero =>
      intro i acc hi
      rw [ByteArray.toList.loop, if_neg (by simp; omega), List.drop_eq_nil_of_le (by omega), List.append_nil]
    | succ k ih =>
      intro i acc hi
      have hlt : i < bs.length := by omega
      rw [ByteArray.toList.loop, if_pos (by simp; omega), ih (i + 1) _ (by omega), List.drop_eq_getElem_cons hlt]
      simp [ByteArray.get!, hlt]
  rw [ByteArray.toList, hloop bs.length 0 [] (Nat.zero_add _)]
  rfl

/-- The bytes of a string are those of its characters. -/
theorem toUTF8_toList (s : String) : s.toUTF8.toList = utf8Bytes s.toList := by
  rw [String.toUTF8_eq_toByteArray, ← String.utf8Encode_toList]
  exact toList_toByteArray _

/-! ### Reading -/

/-- The last byte of a character. -/
theorem utf8Lossy_last {lo hi acc : ℕ} {b : UInt8} (hlo : lo ≤ b.toNat) (hhi : b.toNat ≤ hi) (bs : List UInt8) :
    utf8Lossy (some ⟨1, lo, hi, acc⟩) (b :: bs) = Char.ofNat (acc * 64 + (b.toNat - 0x80)) :: utf8Lossy none bs := by
  rw [utf8Lossy, if_pos ⟨hlo, hhi⟩]
  rfl

/-- A byte within a character. -/
theorem utf8Lossy_next {k lo hi acc : ℕ} {b : UInt8} (hlo : lo ≤ b.toNat) (hhi : b.toNat ≤ hi) (bs : List UInt8) :
    utf8Lossy (some ⟨k + 2, lo, hi, acc⟩) (b :: bs) =
      utf8Lossy (some ⟨k + 1, 0x80, 0xBF, acc * 64 + (b.toNat - 0x80)⟩) bs := by
  rw [utf8Lossy, if_pos ⟨hlo, hhi⟩]
  rfl

/-- A character of one byte. -/
theorem utf8Lossy_ascii {b : UInt8} (h : b.toNat < 0x80) (bs : List UInt8) :
    utf8Lossy none (b :: bs) = Char.ofNat b.toNat :: utf8Lossy none bs := by
  rw [utf8Lossy, utf8Start, if_pos h]
  rfl

/-- One more byte is to come. -/
theorem utf8Lossy_lead₁ {b : UInt8} (hlo : 0xC2 ≤ b.toNat) (hhi : b.toNat ≤ 0xDF) (bs : List UInt8) :
    utf8Lossy none (b :: bs) = utf8Lossy (some ⟨1, 0x80, 0xBF, b.toNat - 0xC0⟩) bs := by
  rw [utf8Lossy, utf8Start, if_neg (by omega), if_pos ⟨hlo, hhi⟩]
  rfl

/-- Two more bytes are to come. -/
theorem utf8Lossy_lead₂ {b : UInt8} (hlo : 0xE0 ≤ b.toNat) (hhi : b.toNat ≤ 0xEF) (bs : List UInt8) :
    utf8Lossy none (b :: bs) = utf8Lossy (some ⟨2, if b.toNat = 0xE0 then 0xA0 else 0x80,
      if b.toNat = 0xED then 0x9F else 0xBF, b.toNat - 0xE0⟩) bs := by
  rw [utf8Lossy, utf8Start, if_neg (by omega), if_neg (by omega), if_pos ⟨hlo, hhi⟩]
  rfl

/-- Three more bytes are to come. -/
theorem utf8Lossy_lead₃ {b : UInt8} (hlo : 0xF0 ≤ b.toNat) (hhi : b.toNat ≤ 0xF4) (bs : List UInt8) :
    utf8Lossy none (b :: bs) = utf8Lossy (some ⟨3, if b.toNat = 0xF0 then 0x90 else 0x80,
      if b.toNat = 0xF4 then 0x8F else 0xBF, b.toNat - 0xF0⟩) bs := by
  rw [utf8Lossy, utf8Start, if_neg (by omega), if_neg (by omega), if_neg (by omega), if_pos ⟨hlo, hhi⟩]
  rfl

theorem toNat_ofNat_of_lt {n : ℕ} (h : n < 2 ^ 8) : (UInt8.ofNat n).toNat = n := by
  rw [UInt8.toNat_ofNat']
  exact Nat.mod_eq_of_lt h

/-- **A character is read back.** -/
theorem utf8Lossy_cons (c : Char) (bs : List UInt8) :
    utf8Lossy none (utf8EncodeChar c ++ bs) = c :: utf8Lossy none bs := by
  obtain ⟨n, hn⟩ : ∃ n, c.val.toNat = n := ⟨_, rfl⟩
  have hc : Char.ofNat n = c := hn ▸ Char.ofNat_toNat c
  -- the surrogates and what is above are what the ranges of the second byte leave out
  have hvalid : n < 0xD800 ∨ 0xDFFF < n ∧ n < 0x110000 := hn ▸ c.valid
  rw [utf8EncodeChar]
  simp only [hn]
  split_ifs with h₁ h₂ h₃
  · have hb := toNat_ofNat_of_lt (n := n) (by omega)
    rw [List.singleton_append, utf8Lossy_ascii (by omega), hb, hc]
  · have hb₀ := toNat_ofNat_of_lt (n := n / 64 % 0x20 + 0xC0) (by omega)
    have hb₁ := toNat_ofNat_of_lt (n := n % 0x40 + 0x80) (by omega)
    have hval : (n / 64 % 0x20 + 0xC0 - 0xC0) * 64 + (n % 0x40 + 0x80 - 0x80) = n := by omega
    rw [List.cons_append, List.singleton_append, utf8Lossy_lead₁ (by omega) (by omega),
      utf8Lossy_last (by omega) (by omega), hb₀, hb₁, hval, hc]
  · have hb₀ := toNat_ofNat_of_lt (n := n / 4096 % 0x10 + 0xE0) (by omega)
    have hb₁ := toNat_ofNat_of_lt (n := n / 64 % 0x40 + 0x80) (by omega)
    have hb₂ := toNat_ofNat_of_lt (n := n % 0x40 + 0x80) (by omega)
    have hval : ((n / 4096 % 0x10 + 0xE0 - 0xE0) * 64 + (n / 64 % 0x40 + 0x80 - 0x80)) * 64 + (n % 0x40 + 0x80 - 0x80) =
        n := by omega
    rw [List.cons_append, List.cons_append, List.singleton_append, utf8Lossy_lead₂ (by omega) (by omega),
      utf8Lossy_next (by split_ifs <;> omega) (by split_ifs <;> omega), utf8Lossy_last (by omega) (by omega), hb₀, hb₁,
      hb₂, hval, hc]
  · have hb₀ := toNat_ofNat_of_lt (n := n / 262144 % 0x08 + 0xF0) (by omega)
    have hb₁ := toNat_ofNat_of_lt (n := n / 4096 % 0x40 + 0x80) (by omega)
    have hb₂ := toNat_ofNat_of_lt (n := n / 64 % 0x40 + 0x80) (by omega)
    have hb₃ := toNat_ofNat_of_lt (n := n % 0x40 + 0x80) (by omega)
    have hval : (((n / 262144 % 0x08 + 0xF0 - 0xF0) * 64 + (n / 4096 % 0x40 + 0x80 - 0x80)) * 64 +
        (n / 64 % 0x40 + 0x80 - 0x80)) * 64 + (n % 0x40 + 0x80 - 0x80) = n := by omega
    rw [List.cons_append, List.cons_append, List.cons_append, List.singleton_append,
      utf8Lossy_lead₃ (by omega) (by omega), utf8Lossy_next (by split_ifs <;> omega) (by split_ifs <;> omega),
      utf8Lossy_next (by omega) (by omega), utf8Lossy_last (by omega) (by omega), hb₀, hb₁, hb₂, hb₃, hval, hc]

/-- **A text is read back.** -/
theorem utf8Lossy_utf8Bytes (cs : List Char) : utf8Lossy none (utf8Bytes cs) = cs := by
  induction cs with
  | nil => rfl
  | cons c cs ih => rw [utf8Bytes_cons, utf8Lossy_cons, ih]

/-! ### Zero bytes -/

/-- A byte of a character is the character itself, or at least `0x80`. -/
theorem of_mem_utf8EncodeChar {c : Char} {b : UInt8} (h : b ∈ utf8EncodeChar c) :
    b.toNat = c.toNat ∨ 0x80 ≤ b.toNat := by
  have hhigh : ∀ {k : ℕ}, 0x80 ≤ k → k < 2 ^ 8 → 0x80 ≤ (UInt8.ofNat k).toNat := fun hlo hhi => by
    rwa [toNat_ofNat_of_lt hhi]
  rw [utf8EncodeChar] at h
  split_ifs at h with h₁
  · rw [List.mem_singleton] at h
    rw [h, toNat_ofNat_of_lt (by omega)]
    exact .inl rfl
  all_goals
    simp only [List.mem_cons, List.not_mem_nil, or_false] at h
    refine .inr ?_
  · rcases h with rfl | rfl <;> exact hhigh (by omega) (by omega)
  · rcases h with rfl | rfl | rfl <;> exact hhigh (by omega) (by omega)
  · rcases h with rfl | rfl | rfl | rfl <;> exact hhigh (by omega) (by omega)

/-- A zero byte is the character `NUL`. -/
theorem zero_mem_utf8EncodeChar_iff {c : Char} : 0 ∈ utf8EncodeChar c ↔ c = '\x00' := by
  constructor
  · intro h
    rcases of_mem_utf8EncodeChar h with hc | hhigh
    · exact Char.toNat_inj.mp hc.symm
    · exact absurd hhigh (by decide)
  · rintro rfl
    decide

/-- Bytes that begin with a zero byte, if there are any. -/
def Padding (bs : List UInt8) : Prop := bs = [] ∨ ∃ rest, bs = 0 :: rest

/-- **A cut at the first zero byte is a cut at the first `NUL`.** -/
theorem takeWhile_utf8Bytes (cs : List Char) {bs : List UInt8} (h : Padding bs) :
    (utf8Bytes cs ++ bs).takeWhile (· ≠ 0) = utf8Bytes (cs.takeWhile (· ≠ '\x00')) := by
  induction cs with
  | nil =>
    rw [utf8Bytes_nil, List.nil_append, List.takeWhile_nil, utf8Bytes_nil]
    rcases h with rfl | ⟨rest, rfl⟩
    · exact List.takeWhile_nil
    · exact List.takeWhile_cons_of_neg (by simp)
  | cons c cs ih =>
    rw [utf8Bytes_cons, List.append_assoc]
    by_cases hc : c = '\x00'
    · subst hc
      rw [List.takeWhile_cons_of_neg (by simp)]
      exact List.takeWhile_cons_of_neg (by simp)
    · have hbytes : ∀ b ∈ utf8EncodeChar c, decide (b ≠ 0) = true := by
        intro b hb
        rw [decide_eq_true_iff]
        rintro rfl
        exact hc (zero_mem_utf8EncodeChar_iff.mp hb)
      rw [List.takeWhile_append_of_pos hbytes, ih, List.takeWhile_cons_of_pos (by simpa using hc), utf8Bytes_cons]

end RctPower.Lib.Rust
