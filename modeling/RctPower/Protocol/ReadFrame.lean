import RctPower.Protocol.Grammar

/-!
# Frames of reads

A read has no payload. `make_frame` takes one all the same, and says that it ignores it: the
payload is left out of the body, and with it out of the CRC. It is not left out of the length
field, which is computed before the command is asked for.

`ignoresReadPayload_iff`: two payloads make no difference exactly when the byte that counts them
does not see them, which is when both lengths are multiples of 256. With any other length the
frame announces bytes that do not follow, or fewer than it has, and is not parsed back; in a debug
build the addition may overflow.
-/

namespace RctPower

open RctPower.Lib.Rust RctPower.Lib.Stuffing

/-- The payload of a read makes no difference: both payloads give the same bytes, and these are
parsed back as a read of the id, at the last byte and not before. -/
def IgnoresReadPayload (prof : Profile) (id : UInt32) (p q : List UInt8) : Prop :=
  ∃ s, makeFrame prof .read id p 0 .standard = .ok (.ok s) ∧ makeFrame prof .read id q 0 .standard = .ok (.ok s) ∧
    ReceiveFrame.ParsesTo s .read id 0 []

/-- The body of a read with the length field `l`. -/
def readBody (l : UInt8) (id : UInt32) : List UInt8 := withCrc (Command.read.byte :: l :: u32ToBe id)

/-- **What `make_frame` makes of a read**: the length field is the payload length in a byte, plus
four, unless the addition overflows. -/
theorem makeFrame_read (prof : Profile) (id : UInt32) (p : List UInt8) :
    makeFrame prof .read id p 0 .standard =
      (addU8 prof 4 (UInt8.ofNat p.length)).map fun l => .ok (wire (readBody l id)) := by
  have hlength : makeLength prof .read p .standard = (addU8 prof 4 (UInt8.ofNat p.length)).map fun l => [l] := rfl
  rw [makeFrame, hlength]
  cases addU8 prof 4 (UInt8.ofNat p.length) <;> rfl

/-- The frame length that the parser computes for the body of a read. -/
theorem bodyFrameLength_readBody (l : UInt8) (id : UInt32) : bodyFrameLength (readBody l id) = 5 + l.toNat := by
  have hheader : bodyHeader (readBody l id) = 7 := @bodyHeader_frameBody _ _ (Command.fromByte_byte .read) []
  have hlong : longByte ((readBody l id).headD 0) = false := longByte_of_fromByte (Command.fromByte_byte .read)
  have hlength : bodyLength (readBody l id) = l.toNat := by
    rw [bodyLength, hlong]
    rfl
  rw [bodyFrameLength, hheader, hlength]
  omega

theorem length_readBody (l : UInt8) (id : UInt32) : (readBody l id).length = 8 := rfl

namespace ReceiveFrame

/-- What is parsed completes. -/
theorem ParsesTo.completes {s : List UInt8} {command : Command} {id address : UInt32} {data : List UInt8}
    (h : ParsesTo s command id address data) : ∃ rx, Completes s rx := by
  obtain ⟨rx, hfeed, hparsed, hcount⟩ := h.2 [s] (by simp)
  have hconsume : ∃ n, (new false).consume s = .ok (rx, .ok n) := by
    rw [feed, if_neg (by decide)] at hfeed
    split at hfeed
    · cases hfeed
    · cases hfeed
    · next rx' n hc =>
      rw [feed, Except.ok.injEq, Prod.mk.injEq] at hfeed
      exact ⟨n, hfeed.1 ▸ hc⟩
  obtain ⟨n, hconsume⟩ := hconsume
  obtain ⟨s', rest, rfl, hcompletes⟩ := completes_of_consume hconsume hparsed.complete
  rw [hcompletes.consumedBytes, List.length_append] at hcount
  obtain rfl : rest = [] := List.length_eq_zero_iff.mp (by omega)
  exact ⟨rx, by rwa [List.append_nil]⟩

/-- A stream that is a wire completes only if the body on it ends where its length field says. -/
theorem Completes.length_wire {body : List UInt8} {rx : ReceiveFrame} (h : Completes (wire body) rx) :
    body.length + 1 = bodyFrameLength body := by
  obtain ⟨g, t, v, hs, hg, ht, hwf, -⟩ := h.exists_body
  have htail : (wire body).tail = t := eq_of_first (g := []) (by simp) hg hs
  have hbody := unstuff_wire body
  rw [htail, ht, Prod.mk.injEq] at hbody
  exact hbody.1 ▸ hwf.length

end ReceiveFrame

/-- The length field of a read that is parsed back is the one of an empty payload. -/
theorem dvd_of_parsesTo_read {prof : Profile} {id : UInt32} {p s : List UInt8}
    (h : makeFrame prof .read id p 0 .standard = .ok (.ok s)) (hparses : ReceiveFrame.ParsesTo s .read id 0 []) :
    256 ∣ p.length := by
  rw [makeFrame_read, addU8] at h
  split_ifs at h
  · simp only [Except.map, Except.ok.injEq] at h
    subst h
    obtain ⟨rx, hcompletes⟩ := hparses.completes
    have hlength := hcompletes.length_wire
    rw [length_readBody, bodyFrameLength_readBody, UInt8.toNat_add, UInt8.toNat_ofNat'] at hlength
    simp only [UInt8.reduceToNat] at hlength
    omega
  · simp [Except.map] at h

/-- A payload that the length field does not see. -/
theorem makeFrame_read_of_dvd {p : List UInt8} (h : 256 ∣ p.length) (prof : Profile) (id : UInt32) :
    makeFrame prof .read id p 0 .standard = .ok (.ok (wire (readBody 4 id))) := by
  have hcast : UInt8.ofNat p.length = 0 := by
    rw [← UInt8.toNat_inj, UInt8.toNat_ofNat']
    exact Nat.mod_eq_zero_of_dvd h
  rw [makeFrame_read, hcast, addU8, if_pos (.inl (by simp))]
  rfl

/-- **`make_frame` ignores the payload of a read exactly when its length is a multiple of 256.** -/
theorem ignoresReadPayload_iff (prof : Profile) (id : UInt32) (p q : List UInt8) :
    IgnoresReadPayload prof id p q ↔ 256 ∣ p.length ∧ 256 ∣ q.length := by
  constructor
  · rintro ⟨s, hp, hq, hparses⟩
    exact ⟨dvd_of_parsesTo_read hp hparses, dvd_of_parsesTo_read hq hparses⟩
  · rintro ⟨hp, hq⟩
    let f : StdFrame := ⟨.read, id, [], by decide, Nat.zero_le _, fun _ => rfl⟩
    have hbytes : wire (readBody 4 id) = f.bytes := by
      simp [f, StdFrame.bytes, StdFrame.body, frameBody, readBody, lengthBytes, Command.isLong]
    refine ⟨_, makeFrame_read_of_dvd hp prof id, makeFrame_read_of_dvd hq prof id, ?_⟩
    rw [hbytes]
    exact ReceiveFrame.parsesTo_bytes f (g := []) (by simp)

/-- A read with a payload of one byte announces a byte that does not follow. -/
theorem makeFrame_read_one :
    makeFrame .release .read 0x09 [0x00] 0 .standard ≠ makeFrame .release .read 0x09 [] 0 .standard ∧
      ¬ IgnoresReadPayload .release 0x09 [0x00] [] := by
  refine ⟨by decide +kernel, ?_⟩
  rintro ⟨s, hp, -, hparses⟩
  have := dvd_of_parsesTo_read hp hparses
  simp at this

end RctPower
