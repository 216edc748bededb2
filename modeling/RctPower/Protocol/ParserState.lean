import Mathlib.Data.List.GetD
import RctPower.Protocol.Frame

/-!
# The state of a parser

What a fresh `ReceiveFrame` holds after it has taken some bytes is a function of
those bytes alone, and this module gives it: `ReceiveFrame.reading`, of the bytes
taken, the raw bytes since the start token, whether an escape is pending, and the
*body*, the unescaped bytes after the start token.

The header length, the frame length and the id are read off the body
(`bodyHeader`, `bodyFrameLength`, `bodyId`). A body is `Open` as long as the
parser has not returned within it. `push_*` say what one more byte of body does:
it keeps the body open, or is a bad command byte, or is the last byte of the frame,
or exceeds the frame length, or makes `consume` panic. `pass_reading` then gives the
state after any piece of input whose body stays open.
-/

namespace RctPower

open RctPower.Lib.Rust RctPower.Lib.EarlyExit RctPower.Lib.Stuffing

/-! ### Reading a body -/

/-- The command byte is one the parser accepts. -/
def AcceptedCommand (b : UInt8) : Prop := ∃ cmd, Command.fromByte b = some cmd ∧ cmd ≠ .extension

/-- The command byte announces a two-byte length field. -/
def longByte (b : UInt8) : Bool := (Command.fromByte b).any Command.isLong

/-- The header length that a command byte announces, start token included. -/
def headerLength (b : UInt8) : ℕ := 7 + (if Command.isPlantByte b then 4 else 0) + (if longByte b then 1 else 0)

/-- The header length of a body. -/
def bodyHeader (u : List UInt8) : ℕ := headerLength (u.headD 0)

/-- The length field of a body. -/
def bodyLength (u : List UInt8) : ℕ :=
  if longByte (u.headD 0) then (u16OfBe (u.getD 1 0) (u.getD 2 0)).toNat else (u.getD 1 0).toNat

/-- The frame length the parser computes from a body: the plant bit counts in the
header length, and is forgotten when the four bytes of an id are taken off. -/
def bodyFrameLength (u : List UInt8) : ℕ := bodyHeader u - 4 + bodyLength u + 2

/-- The four bytes of a body from index `k` on. -/
def bodyBe (u : List UInt8) (k : ℕ) : UInt32 :=
  u32OfBe (u.getD k 0) (u.getD (k + 1) 0) (u.getD (k + 2) 0) (u.getD (k + 3) 0)

/-- The id the parser reads from a body: the four bytes after the length field. -/
def bodyId (u : List UInt8) : UInt32 := bodyBe u (if longByte (u.headD 0) then 3 else 2)

/-- The CRC at the end of a body. -/
def bodyCrc (u : List UInt8) : UInt16 := u16OfBe (u.getD (u.length - 2) 0) (u.getD (u.length - 1) 0)

/-- What the CRC of a body is about. -/
def bodyContent (u : List UInt8) : List UInt8 := u.take (u.length - 2)

/-- The payload of a body, between the header and the CRC. -/
def bodyData (u : List UInt8) : List UInt8 := (bodyContent u).drop (bodyHeader u - 1)

theorem le_headerLength (b : UInt8) : 7 ≤ headerLength b := by
  rw [headerLength]
  omega

@[simp] theorem bodyHeader_nil : bodyHeader [] = 7 := by decide

/-- The parser has not returned within the body. -/
def Open (u : List UInt8) : Prop :=
  u ≠ [] → AcceptedCommand (u.headD 0) ∧ (u.length + 1 ≤ bodyHeader u ∨ u.length + 1 < bodyFrameLength u)

theorem open_nil : Open [] := fun h => absurd rfl h

theorem headD_append {u : List UInt8} (hu : u ≠ []) (v : List UInt8) : (u ++ v).headD 0 = u.headD 0 := by
  cases u with
  | nil => exact absurd rfl hu
  | cons b t => rfl

theorem bodyHeader_append {u : List UInt8} (hu : u ≠ []) (v : List UInt8) : bodyHeader (u ++ v) = bodyHeader u := by
  unfold bodyHeader
  rw [headD_append hu]

theorem bodyFrameLength_append {u : List UInt8} (hu : 3 ≤ u.length) (v : List UInt8) :
    bodyFrameLength (u ++ v) = bodyFrameLength u := by
  rcases u with _ | ⟨b, _ | ⟨l₀, _ | ⟨l₁, t⟩⟩⟩ <;> simp at hu
  rfl

theorem bodyBe_append {u : List UInt8} {k : ℕ} (hk : k + 3 < u.length) (v : List UInt8) :
    bodyBe (u ++ v) k = bodyBe u k := by
  unfold bodyBe
  rw [List.getD_append _ _ _ _ (by omega), List.getD_append _ _ _ _ (by omega), List.getD_append _ _ _ _ (by omega),
    List.getD_append _ _ _ _ (by omega)]

/-- Where the id starts, with its four bytes, is inside the header. -/
theorem idIndex_lt (b : UInt8) : (if longByte b then 3 else 2) + 4 < headerLength b := by
  rw [headerLength]
  split <;> split <;> omega

theorem bodyId_append {u : List UInt8} (hu : u ≠ []) (hlen : bodyHeader u ≤ u.length + 1) (v : List UInt8) :
    bodyId (u ++ v) = bodyId u := by
  have := idIndex_lt (u.headD 0)
  rw [bodyId]
  rw [headD_append hu]
  rw [bodyHeader] at hlen
  exact bodyBe_append (by omega) v

/-- A prefix of an open body is open. -/
theorem Open.left {u : List UInt8} {c : UInt8} (h : Open (u ++ [c])) : Open u := by
  intro hu
  obtain ⟨hcmd, hlen⟩ := h (by simp)
  refine ⟨headD_append hu [c] ▸ hcmd, ?_⟩
  rw [bodyHeader_append hu, List.length_append, List.length_singleton] at hlen
  by_cases hshort : u.length + 1 ≤ bodyHeader u
  · exact .inl hshort
  · have : 7 ≤ bodyHeader u := le_headerLength _
    rw [bodyFrameLength_append (by omega)] at hlen
    exact .inr (by omega)

/-- The command of an open body. -/
theorem Open.command {u : List UInt8} (h : Open u) (hu : u ≠ []) : ∃ cmd, Command.fromByte (u.headD 0) = some cmd := by
  obtain ⟨⟨cmd, hcmd, -⟩, -⟩ := h hu
  exact ⟨cmd, hcmd⟩

theorem ne_nil_of_header {u : List UInt8} (h : bodyHeader u ≤ u.length + 1) : u ≠ [] := by
  rintro rfl
  simp at h

/-! ### The states -/

namespace ReceiveFrame

/-- A parser that has taken `n` bytes and no start token. -/
def idle (ign : Bool) (n : ℕ) : ReceiveFrame := { new ign with consumedBytes := n }

/-- A parser that has taken `n` bytes, and from the start token on the bytes `raw`, whose
body is `u`; `esc` says whether an escape is pending. -/
def reading (ign : Bool) (n : ℕ) (raw : List UInt8) (esc : Bool) (u : List UInt8) : ReceiveFrame :=
  { new ign with
    escaping := esc
    consumedBytes := n
    raw
    buffer := START_TOKEN :: u
    command := if u = [] then none else Command.fromByte (u.headD 0)
    frameHeaderLength := bodyHeader u
    frameLength := if bodyHeader u ≤ u.length + 1 then bodyFrameLength u else 0
    id := if bodyHeader u ≤ u.length + 1 then bodyId u else 0 }

/-- A parser that has completed the frame of body `u`. -/
def completed (ign : Bool) (n : ℕ) (raw : List UInt8) (u : List UInt8) : ReceiveFrame :=
  { reading ign n raw false u with
    complete := true
    crc16Recv := bodyCrc u
    crcOk := decide (bodyCrc u = crc16 (bodyContent u))
    data := bodyData u }

theorem idle_zero (ign : Bool) : idle ign 0 = new ign := rfl

/-- Bytes before the start token are skipped, escape tokens among them. -/
theorem step_idle {c : UInt8} (hc : c ≠ START_TOKEN) (ign : Bool) (n : ℕ) :
    (idle ign n).step c = .next (idle ign (n + 1)) := by
  simp [step, idle, new, hc]

theorem step_start (ign : Bool) (n : ℕ) :
    (idle ign n).step START_TOKEN = .next (reading ign (n + 1) [START_TOKEN] false []) := by
  simp [step, idle, new, reading, bodyHeader, headerLength, longByte, Command.fromByte, Command.isPlantByte]

theorem step_reading_escape (ign : Bool) (n : ℕ) (raw u : List UInt8) :
    (reading ign n raw false u).step ESCAPE_TOKEN =
      .next (reading ign (n + 1) (raw ++ [ESCAPE_TOKEN]) true u) := by
  simp [step, reading]

/-- A byte that is taken literally is pushed on the buffer. -/
theorem step_reading_literal {esc : Bool} {c : UInt8} (h : esc = true ∨ c ≠ ESCAPE_TOKEN) (ign : Bool) (n : ℕ)
    (raw u : List UInt8) :
    (reading ign n raw esc u).step c = (reading ign (n + 1) (raw ++ [c]) false u).push c := by
  rcases h with rfl | h
  · simp [step, reading]
  · cases esc <;> simp [step, reading, h]

/-! ### What one more byte of body does -/

theorem index_buffer (u : List UInt8) {i : ℕ} (hi : i < u.length) :
    index (START_TOKEN :: u) (i + 1) = .ok (u.getD i 0) := by
  apply index_of_getElem?
  rw [List.getElem?_cons_succ, List.getElem?_eq_getElem hi, List.getD_eq_getElem _ _ hi]

/-- What the header branch does. -/
theorem onHeader_eq {rx : ReceiveFrame} {cmd : Command} {v : List UInt8} (hbuf : rx.buffer = START_TOKEN :: v)
    (hhdr : rx.frameHeaderLength = bodyHeader v) (hcmd : Command.fromByte (v.headD 0) = some cmd)
    (hlen : bodyHeader v ≤ v.length + 1) :
    rx.onHeader cmd = .next { rx with frameLength := bodyFrameLength v, id := bodyId v } := by
  have hidx := idIndex_lt (v.headD 0)
  have h4 : 4 ≤ bodyHeader v := le_trans (by norm_num) (le_headerLength _)
  rw [bodyHeader] at hlen
  have hbe : ∀ k, k + 3 < v.length → rx.beAt (k + 1) = .ok (bodyBe v k) := fun k hk => by
    unfold beAt bodyBe
    rw [hbuf, index_buffer v (by omega), index_buffer v (by omega), index_buffer v (by omega),
      index_buffer v (by omega)]
    rfl
  unfold onHeader lengthField
  rw [hhdr, usizeSub_of_le h4, Command.not_isPlantByte_byte, hbuf]
  unfold bodyFrameLength bodyLength bodyId longByte at *
  rw [hcmd] at hidx ⊢
  cases hl : cmd.isLong with
  | true =>
    simp only [Option.any_some, hl, if_true] at hidx ⊢
    rw [index_buffer v (i := 1) (by omega), index_buffer v (i := 2) (by omega)]
    have := hbe 3 (by omega)
    simp only [bind, Except.bind, pure, Except.pure, this, Bool.false_eq_true, if_false, Flow.after_ok]
  | false =>
    simp only [Option.any_some, hl, Bool.false_eq_true, if_false] at hidx ⊢
    rw [index_buffer v (i := 1) (by omega)]
    have := hbe 2 (by omega)
    simp only [bind, Except.bind, pure, Except.pure, this, Flow.after_ok]

/-- The state after the last byte, before its CRC is looked at. -/
def lastState (rx : ReceiveFrame) (v : List UInt8) : ReceiveFrame :=
  { rx with
    complete := true
    crc16Recv := bodyCrc v
    crcOk := decide (bodyCrc v = crc16 (bodyContent v))
    data := bodyData v }

/-- A slice of the buffer that leaves out the start token and the CRC. -/
theorem slice_buffer {v : List UInt8} {k : ℕ} (hk : k + 2 ≤ v.length) :
    slice (START_TOKEN :: v) (k + 1) (v.length - 1) = .ok ((bodyContent v).drop k) := by
  obtain ⟨m, hm⟩ : ∃ m, v.length = m + 2 := ⟨v.length - 2, by omega⟩
  rw [slice_of_le (by omega) (by rw [List.length_cons]; omega), bodyContent, hm]
  rfl

/-- The bytes of the CRC, as the last-byte branch reads them. -/
theorem index_crc {v : List UInt8} (h2 : 2 ≤ v.length) :
    index (START_TOKEN :: v) (v.length - 1) = .ok (v.getD (v.length - 2) 0) ∧
      index (START_TOKEN :: v) v.length = .ok (v.getD (v.length - 1) 0) := by
  have h₁ := index_buffer v (i := v.length - 2) (by omega)
  have h₂ := index_buffer v (i := v.length - 1) (by omega)
  rw [show v.length - 2 + 1 = v.length - 1 by omega] at h₁
  rw [show v.length - 1 + 1 = v.length by omega] at h₂
  exact ⟨h₁, h₂⟩

/-- What the last-byte branch does when there is room for a header and a CRC. -/
theorem onLast_eq {rx : ReceiveFrame} {v : List UInt8} (hbuf : rx.buffer = START_TOKEN :: v)
    (hhdr : rx.frameHeaderLength = bodyHeader v) (hlen : bodyHeader v + 1 ≤ v.length) :
    rx.onLast =
      if bodyCrc v = crc16 (bodyContent v) ∨ rx.ignoreCrcMismatch then .ret (rx.lastState v) .ok
      else .ret (rx.lastState v) fun i => .error (.frameCrcMismatch (bodyCrc v) (crc16 (bodyContent v)) i) := by
  have h7 : 7 ≤ bodyHeader v := le_headerLength _
  obtain ⟨h₁, h₂⟩ := index_crc (v := v) (by omega)
  have h₃ := slice_buffer (v := v) (k := 0) (by omega)
  have h₄ := slice_buffer (v := v) (k := bodyHeader v - 1) (by omega)
  rw [show bodyHeader v - 1 + 1 = bodyHeader v by omega] at h₄
  have hs₁ : usizeSub (v.length + 1) 1 = .ok v.length := usizeSub_of_le (by omega)
  have hs₂ : usizeSub (v.length + 1) 2 = .ok (v.length - 1) := usizeSub_of_le (by omega)
  have hread : rx.readLast = .ok (bodyCrc v, crc16 (bodyContent v), bodyData v) := by
    rw [readLast]
    simp only [hbuf, hhdr, List.length_cons, hs₁, hs₂, bind, Except.bind, pure, Except.pure, h₁, h₂, h₃, h₄,
      List.drop_zero]
    rfl
  rw [onLast]
  rw [hread]
  by_cases hcrc : bodyCrc v = crc16 (bodyContent v) <;> cases hign : rx.ignoreCrcMismatch <;>
    simp [lastState, hcrc, hign]

/-- It panics when there is room for a CRC but not for the header in front of it. -/
theorem onLast_panics {rx : ReceiveFrame} {v : List UInt8} (hbuf : rx.buffer = START_TOKEN :: v)
    (hhdr : rx.frameHeaderLength = bodyHeader v) (hlen : v.length < bodyHeader v + 1) (h2 : 2 ≤ v.length) :
    rx.onLast = .panics .sliceOrder := by
  obtain ⟨h₁, h₂⟩ := index_crc h2
  have h₃ := slice_buffer (v := v) (k := 0) (by omega)
  have h₄ : slice (START_TOKEN :: v) (bodyHeader v) (v.length - 1) = .error .sliceOrder := slice_of_lt (by omega)
  have hs₁ : usizeSub (v.length + 1) 1 = .ok v.length := usizeSub_of_le (by omega)
  have hs₂ : usizeSub (v.length + 1) 2 = .ok (v.length - 1) := usizeSub_of_le (by omega)
  unfold onLast readLast
  simp only [hbuf, hhdr, List.length_cons, hs₁, hs₂, bind, Except.bind, h₁, h₂, h₃, h₄, Flow.after_error]

/-- The state right after a byte of body is pushed on the buffer. -/
def pushed (ign : Bool) (n : ℕ) (raw u : List UInt8) (c : UInt8) : ReceiveFrame :=
  { reading ign n raw false u with buffer := START_TOKEN :: (u ++ [c]) }

/-- The next state of a body, against the state right after the push. -/
theorem reading_concat {u : List UInt8} (hu : u ≠ []) (ign : Bool) (n : ℕ) (raw : List UInt8) (c : UInt8) :
    reading ign n raw false (u ++ [c]) =
      { pushed ign n raw u c with
        frameLength := if bodyHeader u ≤ u.length + 2 then bodyFrameLength (u ++ [c]) else 0
        id := if bodyHeader u ≤ u.length + 2 then bodyId (u ++ [c]) else 0 } := by
  have hne : u ++ [c] ≠ [] := by simp
  simp only [pushed, reading, hne, hu, if_false, headD_append hu, bodyHeader_append hu, List.length_append,
    List.length_singleton]

/-- The branches of `consume` after the command byte. -/
theorem push_reading {u : List UInt8} {cmd : Command} (hu : u ≠ []) (hcmd : Command.fromByte (u.headD 0) = some cmd)
    (ign : Bool) (n : ℕ) (raw : List UInt8) (c : UInt8) :
    (reading ign n raw false u).push c =
      if u.length + 2 = bodyHeader u then (pushed ign n raw u c).onHeader cmd
      else if bodyHeader u ≤ u.length + 1 ∧ u.length + 2 = bodyFrameLength u then (pushed ign n raw u c).onLast
      else if bodyHeader u ≤ u.length + 1 ∧ bodyFrameLength u < u.length + 2 then
        .ret (pushed ign n raw u c) fun i => .error (.frameLengthExceeded i)
      else .next (pushed ign n raw u c) := by
  have hpos : 0 < u.length := List.length_pos_iff.mpr hu
  have hfl : 0 < bodyFrameLength u := by unfold bodyFrameLength; omega
  have hpush : { reading ign n raw false u with buffer := (reading ign n raw false u).buffer ++ [c] } =
      pushed ign n raw u c := rfl
  have hlen : (pushed ign n raw u c).buffer.length = u.length + 2 := by simp [pushed]
  have hhdr : (pushed ign n raw u c).frameHeaderLength = bodyHeader u := rfl
  have hsome : (pushed ign n raw u c).command = some cmd := by
    unfold pushed reading
    rw [if_neg hu, hcmd]
  have hflen : (pushed ign n raw u c).frameLength = if bodyHeader u ≤ u.length + 1 then bodyFrameLength u else 0 := rfl
  have h2 : ¬ u.length + 2 = 2 := by omega
  rw [push]
  rw [hpush]
  simp only [hlen, hhdr, hsome, hflen, Option.isSome_some, unwrap, Flow.after_ok, true_and, h2, if_false]
  by_cases hread : bodyHeader u ≤ u.length + 1
  · have hne : ¬ u.length + 2 = bodyHeader u := by omega
    have hne' : ¬ bodyFrameLength u = 0 := by omega
    simp only [hread, hne, hne', hfl, if_true, if_false, true_and, and_false]
  · simp only [hread, if_false, false_and, lt_irrefl, and_true]

/-- A command byte the parser accepts. -/
theorem push_command {c : UInt8} (hc : AcceptedCommand c) (ign : Bool) (n : ℕ) (raw : List UInt8) :
    (reading ign n raw false []).push c = .next (reading ign n raw false [c]) := by
  obtain ⟨cmd, hcmd, hext⟩ := hc
  have hh : headerLength c = 7 + (if Command.isPlantByte c then 4 else 0) + (if cmd.isLong then 1 else 0) := by
    simp only [headerLength, longByte, hcmd, Option.any_some]
  have h7 := le_headerLength c
  have hone : ¬ bodyHeader [c] ≤ 1 + 1 := by
    rw [show bodyHeader [c] = headerLength c from rfl]
    omega
  simp only [push, reading, onCommand, List.cons_append, List.nil_append, List.length_cons, List.length_nil,
    index_of_getElem? (show (START_TOKEN :: [c])[1]? = some c from rfl), Flow.after_ok, hcmd, hext, if_true, if_false,
    hone, Flow.next.injEq]
  rw [show bodyHeader [c] = headerLength c from rfl, hh]
  simp [hcmd]

/-- A command byte the parser does not accept. -/
theorem push_badCommand {c : UInt8} (hc : ¬ AcceptedCommand c) (ign : Bool) (n : ℕ) (raw : List UInt8) :
    ∃ rx, (reading ign n raw false []).push c = .ret rx fun i => .error (.invalidCommand c i) := by
  simp only [push, reading, onCommand, List.cons_append, List.nil_append, List.length_cons, List.length_nil,
    index_of_getElem? (show (START_TOKEN :: [c])[1]? = some c from rfl), Flow.after_ok, if_true]
  cases hcmd : Command.fromByte c with
  | none => exact ⟨_, rfl⟩
  | some cmd =>
    have hext : cmd = .extension := by
      by_contra hne
      exact hc ⟨cmd, hcmd, hne⟩
    simp only [hext, if_true]
    exact ⟨_, rfl⟩

/-- A byte that leaves the body open. -/
theorem push_open {u : List UInt8} {c : UInt8} (h : Open (u ++ [c])) (ign : Bool) (n : ℕ) (raw : List UInt8) :
    (reading ign n raw false u).push c = .next (reading ign n raw false (u ++ [c])) := by
  obtain ⟨hacc, hlen⟩ := h (by simp)
  by_cases hu : u = []
  · subst hu
    exact push_command hacc ign n raw
  · rw [headD_append hu] at hacc
    rw [bodyHeader_append hu, List.length_append, List.length_singleton] at hlen
    obtain ⟨cmd, hcmd, -⟩ := hacc
    have h7 : 7 ≤ bodyHeader u := le_headerLength _
    rw [push_reading hu hcmd]
    by_cases hhdr : u.length + 2 = bodyHeader u
    · -- the header is complete with this byte: frame length and id are set
      rw [if_pos hhdr, onHeader_eq (v := u ++ [c]) rfl (bodyHeader_append hu [c]).symm
        (by rw [headD_append hu]; exact hcmd) (by rw [bodyHeader_append hu]; simp; omega), reading_concat hu]
      rw [if_pos (by omega), if_pos (by omega)]
    · rw [if_neg hhdr]
      by_cases hread : bodyHeader u ≤ u.length + 1
      · -- past the header, and not yet at the end of the frame
        have hfl := bodyFrameLength_append (u := u) (by omega) [c]
        rw [hfl] at hlen
        rw [if_neg (by omega), if_neg (by omega), reading_concat hu, if_pos (by omega), if_pos (by omega), hfl,
          bodyId_append hu hread]
        simp only [pushed, reading, hread, if_true]
      · rw [if_neg (by omega), if_neg (by omega), reading_concat hu, if_neg (by omega), if_neg (by omega)]
        simp only [pushed, reading, hread, if_false]

/-- The last byte of a frame with room for its header. -/
theorem push_last {u : List UInt8} (h : Open u) (c : UInt8) (hread : bodyHeader u ≤ u.length)
    (hlast : u.length + 2 = bodyFrameLength u) (ign : Bool) (n : ℕ) (raw : List UInt8) :
    (reading ign n raw false u).push c =
      if bodyCrc (u ++ [c]) = crc16 (bodyContent (u ++ [c])) ∨ ign then .ret (completed ign n raw (u ++ [c])) .ok
      else .ret (completed ign n raw (u ++ [c])) fun i =>
        .error (.frameCrcMismatch (bodyCrc (u ++ [c])) (crc16 (bodyContent (u ++ [c]))) i) := by
  have hread' : bodyHeader u ≤ u.length + 1 := by omega
  have hu := ne_nil_of_header hread'
  obtain ⟨cmd, hcmd⟩ := h.command hu
  have h7 : 7 ≤ bodyHeader u := le_headerLength _
  have hstate : (pushed ign n raw u c).lastState (u ++ [c]) = completed ign n raw (u ++ [c]) := by
    unfold completed lastState
    rw [reading_concat hu, if_pos (by omega), if_pos (by omega), bodyFrameLength_append (by omega),
      bodyId_append hu hread']
    simp only [pushed, reading, hread', if_true]
  rw [push_reading hu hcmd, if_neg (by omega), if_pos ⟨hread', hlast⟩, onLast_eq (v := u ++ [c]) rfl
    (bodyHeader_append hu [c]).symm (by rw [bodyHeader_append hu]; simp; omega), hstate]
  rfl

/-- The last byte of a frame whose header would reach into the CRC. -/
theorem push_panics {u : List UInt8} (h : Open u) (c : UInt8) (hread : bodyHeader u = u.length + 1)
    (hlast : u.length + 2 = bodyFrameLength u) (ign : Bool) (n : ℕ) (raw : List UInt8) :
    (reading ign n raw false u).push c = .panics .sliceOrder := by
  have hu := ne_nil_of_header hread.le
  obtain ⟨cmd, hcmd⟩ := h.command hu
  have h7 : 7 ≤ bodyHeader u := le_headerLength _
  rw [push_reading hu hcmd, if_neg (by omega), if_pos ⟨hread.le, hlast⟩, onLast_panics (v := u ++ [c]) rfl
    (bodyHeader_append hu [c]).symm (by rw [bodyHeader_append hu]; simp; omega) (by simp; omega)]

/-- A byte past the end of a frame that is no longer than its header. -/
theorem push_exceeds {u : List UInt8} (h : Open u) (c : UInt8) (hread : bodyHeader u = u.length + 1)
    (hlast : bodyFrameLength u < u.length + 2) (ign : Bool) (n : ℕ) (raw : List UInt8) :
    ∃ rx, (reading ign n raw false u).push c = .ret rx fun i => .error (.frameLengthExceeded i) := by
  have hu := ne_nil_of_header hread.le
  obtain ⟨cmd, hcmd⟩ := h.command hu
  rw [push_reading hu hcmd, if_neg (by omega), if_neg (by omega), if_pos ⟨hread.le, hlast⟩]
  exact ⟨_, rfl⟩

/-- **What a byte of body can do**: it leaves the body open; it is a command byte the
parser does not accept; or the header is read, and it is the last byte of the frame,
with room for the header or without, or one past a frame shorter than its header. -/
theorem push_cases {u : List UInt8} (h : Open u) (c : UInt8) :
    Open (u ++ [c]) ∨ (u = [] ∧ ¬ AcceptedCommand c) ∨
      (bodyHeader u ≤ u.length ∧ u.length + 2 = bodyFrameLength u) ∨
      (bodyHeader u = u.length + 1 ∧ u.length + 2 = bodyFrameLength u) ∨
      (bodyHeader u = u.length + 1 ∧ bodyFrameLength u < u.length + 2) := by
  by_cases hu : u = []
  · subst hu
    by_cases hc : AcceptedCommand c
    · refine .inl fun _ => ⟨hc, .inl ?_⟩
      have := le_headerLength c
      simp only [List.nil_append, bodyHeader, List.headD_cons, List.length_singleton]
      omega
    · exact .inr (.inl ⟨rfl, hc⟩)
  · obtain ⟨hacc, hlen⟩ := h hu
    have h7 : 7 ≤ bodyHeader u := le_headerLength _
    by_cases hopen : Open (u ++ [c])
    · exact .inl hopen
    · have hclosed : ¬ (u.length + 2 ≤ bodyHeader u ∨ u.length + 2 < bodyFrameLength (u ++ [c])) := by
        intro hl
        refine hopen fun _ => ⟨by rwa [headD_append hu], ?_⟩
        rwa [bodyHeader_append hu, List.length_append, List.length_singleton]
      rw [not_or] at hclosed
      rw [bodyFrameLength_append (by omega)] at hclosed
      omega

/-! ### Whole pieces of input -/

/-- Bytes with no start token among them are skipped. -/
theorem pass_idle {g : List UInt8} (hg : START_TOKEN ∉ g) (ign : Bool) (n : ℕ) :
    passed step (idle ign n) g = some (idle ign (n + g.length)) := by
  induction g generalizing n with
  | nil => rfl
  | cons c g ih =>
    rw [List.mem_cons, not_or] at hg
    rw [pass_cons_next step (step_idle (Ne.symm hg.1) ign n), ih hg.2, List.length_cons]
    congr 2
    omega

/-- **The state after any input whose body stays open**, from right after the start token. -/
theorem pass_reading {t : List UInt8} (h : Open (unstuff ESCAPE_TOKEN false t).1) (ign : Bool) (n : ℕ)
    (raw : List UInt8) :
    passed step (reading ign n raw false []) t =
      some (reading ign (n + t.length) (raw ++ t) (unstuff ESCAPE_TOKEN false t).2
        (unstuff ESCAPE_TOKEN false t).1) := by
  induction t using List.reverseRecOn with
  | nil => simp
  | append_singleton t c ih =>
    by_cases hlit : (unstuff ESCAPE_TOKEN false t).2 = true ∨ c ≠ ESCAPE_TOKEN
    · rw [unstuff_concat_literal hlit] at h ⊢
      rw [pass_concat_next step (ih h.left) ((step_reading_literal hlit ign _ _ _).trans (push_open h ign _ _))]
      simp [Nat.add_assoc]
    · rw [not_or, Bool.not_eq_true, not_not] at hlit
      obtain ⟨hesc, rfl⟩ := hlit
      rw [unstuff_concat_escape hesc] at h ⊢
      have := ih h
      rw [hesc] at this
      rw [pass_concat_next step this (step_reading_escape ign _ _ _)]
      simp [Nat.add_assoc]

/-- The state of a fresh parser after skipped bytes, a start token, and input whose body
stays open. -/
theorem pass_new {g t : List UInt8} (hg : START_TOKEN ∉ g) (h : Open (unstuff ESCAPE_TOKEN false t).1) (ign : Bool) :
    passed step (new ign) (g ++ START_TOKEN :: t) =
      some (reading ign (g.length + 1 + t.length) (START_TOKEN :: t) (unstuff ESCAPE_TOKEN false t).2
        (unstuff ESCAPE_TOKEN false t).1) := by
  have hidle := pass_idle hg ign 0
  rw [idle_zero, Nat.zero_add] at hidle
  rw [pass_append_of step hidle, pass_cons_next step (step_start ign g.length), pass_reading h]
  rfl

end ReceiveFrame

end RctPower
