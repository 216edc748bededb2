import Mathlib.Data.List.TakeWhile
import RctPower.Lib.Utf8
import RctPower.Protocol.Codec

/-!
# Strings and their payloads

What `encode_for` and `decode_value` (`codec.rs`) do to a string. It is written as its UTF-8 encoding, with
nothing behind it; a payload is read up to its first zero byte, because a device fills what is left of
its buffer with zeros, and what it does not fill it leaves as it was.

A string is therefore read back, with or without padding, exactly if there is no `NUL` in it, and if
there is at least one byte to read (`decodeValue_string_iff`).
-/

namespace RctPower

open RctPower.Lib.Rust

/-- A string is written as it is encoded. -/
theorem encodeFor_string (s : String) : encodeFor .string (.str s) = .ok (utf8Bytes s.toList) := by
  rw [← toUTF8_toList]
  rfl

/-- Nothing is read from an empty payload. -/
theorem decodeValue_string_nil : decodeValue .string [] = .ok (.error (.payloadTooShort "STRING" 0 1)) := rfl

/-- **What a string is read from**: the bytes before the first that is zero. -/
theorem decodeValue_string {data : List UInt8} (h : data ≠ []) :
    decodeValue .string data = .ok (.ok (.str (String.ofList (utf8Lossy none (data.takeWhile (· ≠ 0)))))) := by
  have hlen : ¬ data.length < 1 := by simpa using h
  have hfin : (data.findIdx? (· = 0)).getD data.length = data.findIdx (· = 0) := List.findIdx_eq_getD_findIdx?.symm
  have hle : data.findIdx (· = 0) ≤ data.length := List.findIdx_le_length
  have hcut : data.take (data.findIdx (· = 0)) = data.takeWhile (· ≠ 0) := by
    rw [List.takeWhile_eq_take_findIdx_not]
    congr 2
    funext b
    simp
  rw [decodeValue]
  simp only [decodeNeed, if_neg hlen, decodeNative, hfin, slice_of_le (Nat.zero_le _) hle, List.drop_zero, hcut]
  rfl

/-- A string is read up to its first `NUL`, whatever its padding. -/
theorem decodeValue_utf8Bytes (s : String) {t : List UInt8} (ht : Padding t) (hne : s ≠ "" ∨ t ≠ []) :
    decodeValue .string (utf8Bytes s.toList ++ t) =
      .ok (.ok (.str (String.ofList (s.toList.takeWhile (· ≠ '\x00'))))) := by
  have hdata : utf8Bytes s.toList ++ t ≠ [] := by
    rw [Ne, List.append_eq_nil_iff, utf8Bytes_eq_nil_iff, String.toList_eq_nil_iff]
    tauto
  rw [decodeValue_string hdata, takeWhile_utf8Bytes _ ht, utf8Lossy_utf8Bytes]

/-- **Which strings are read back** from their encoding and a padding. -/
theorem decodeValue_string_iff (s : String) {t : List UInt8} (ht : Padding t) :
    decodeValue .string (utf8Bytes s.toList ++ t) = .ok (.ok (.str s)) ↔ '\x00' ∉ s.toList ∧ (s ≠ "" ∨ t ≠ []) := by
  have hcut : s.toList.takeWhile (· ≠ '\x00') = s.toList ↔ '\x00' ∉ s.toList := by
    simp only [List.takeWhile_eq_self_iff, decide_eq_true_iff, ne_eq, List.forall_mem_ne']
  constructor
  · intro h
    have hne : s ≠ "" ∨ t ≠ [] := by
      by_contra hempty
      obtain ⟨rfl, rfl⟩ : s = "" ∧ t = [] := by tauto
      have hdata : utf8Bytes "".toList ++ [] = [] := by simp
      rw [hdata, decodeValue_string_nil] at h
      cases h
    rw [decodeValue_utf8Bytes s ht hne] at h
    refine ⟨hcut.mp ?_, hne⟩
    have hs : String.ofList (s.toList.takeWhile (· ≠ '\x00')) = s := by simpa using h
    simpa using congrArg String.toList hs
  · rintro ⟨hs, hne⟩
    rw [decodeValue_utf8Bytes s ht hne, hcut.mpr hs, String.ofList_toList]

/-- **Strings survive the wire**, with the padding of a device. -/
theorem string_survives {s : String} (hs : '\x00' ∉ s.toList) {t : List UInt8} (ht : Padding t)
    (hne : s ≠ "" ∨ t ≠ []) :
    encodeFor .string (.str s) = .ok (utf8Bytes s.toList) ∧
      decodeValue .string (utf8Bytes s.toList ++ t) = .ok (.ok (.str s)) :=
  ⟨encodeFor_string s, (decodeValue_string_iff s ht).mpr ⟨hs, hne⟩⟩

/-- A string with characters of two, three and four bytes, and a padding that was used before. -/
theorem string_survives_padded :
    encodeFor .string (.str "é€😀") = .ok [0xc3, 0xa9, 0xe2, 0x82, 0xac, 0xf0, 0x9f, 0x98, 0x80] ∧
      decodeValue .string [0xc3, 0xa9, 0xe2, 0x82, 0xac, 0xf0, 0x9f, 0x98, 0x80, 0, 0x42] =
        .ok (.ok (.str "é€😀")) := by
  have hbytes : utf8Bytes "é€😀".toList = [0xc3, 0xa9, 0xe2, 0x82, 0xac, 0xf0, 0x9f, 0x98, 0x80] := by decide
  have h := string_survives (s := "é€😀") (by decide) (t := [0, 0x42]) (Or.inr ⟨_, rfl⟩) (.inl (by decide))
  rwa [hbytes] at h

end RctPower
