import RctPower.Protocol.RoundTrip

/-!
# Plant frames

A plant frame has the plant bit in its command byte and the address of a plant in
front of the object id, and its length field counts both. `frame.rs` means to build
and to parse such frames, and does neither:

* The parser notes the plant bit in the header length, and then asks
  `is_plant_byte(cmd.byte())`, of the command without its plant bit. The answer is no:
  it takes the address for the id, and computes a frame length that is four bytes more
  than the frame has (`feed_plantBytes`).
* `make_frame` computes the plant bit of `command.byte()`, which is never set, and emits
  the bare command byte. The parser takes its frame for a standard one: the address is
  the id, and the id is the start of the payload (`feed_makeFrame_plant`).
-/

namespace RctPower

open RctPower.Lib.Rust RctPower.Lib.EarlyExit RctPower.Lib.Stuffing

/-- A frame of the plant type. -/
structure PlantFrame where
  /-- The command. -/
  command : Command
  /-- The plant address. -/
  address : UInt32
  /-- The object id. -/
  id : UInt32
  /-- The payload. -/
  payload : List UInt8
  /-- The command is one the parser accepts. -/
  parseable : command ≠ .extension
  /-- Address, id and payload fit the length field. -/
  fits : 8 + payload.length < lengthBound command

namespace PlantFrame

variable (f : PlantFrame)

/-- What is between the length field and the CRC. -/
def rest : List UInt8 := u32ToBe f.address ++ (u32ToBe f.id ++ f.payload)

/-- The bytes of the frame on the wire, the plant bit in its command byte. -/
def bytes : List UInt8 := wire (frameBody (f.command.byte ||| Command.PLANT_BIT) f.command f.rest)

theorem length_rest : f.rest.length = 8 + f.payload.length := by
  simp only [rest, List.length_append, length_u32ToBe]
  omega

theorem rest_lt : f.rest.length < lengthBound f.command := by
  rw [length_rest]
  exact f.fits

/-- The parser has not returned at the end of the body. -/
theorem isOpen_body : Open (frameBody (f.command.byte ||| Command.PLANT_BIT) f.command f.rest) := by
  intro
  refine ⟨⟨f.command, Command.fromByte_plant _, f.parseable⟩, .inr ?_⟩
  rw [bodyFrameLength_frameBody (Command.fromByte_plant _) f.rest_lt, Command.isPlantByte_plant, if_pos rfl]
  omega

end PlantFrame

/-- The chunks make a fresh parser complete with these fields. -/
def ReceivedAs (chunks : List (List UInt8)) (command : Command) (id address : UInt32) (data : List UInt8) : Prop :=
  ∃ rx, (ReceiveFrame.new false).feed chunks = .ok (rx, .ok ()) ∧ rx.Parsed command id address data

/-! ### Parsing -/

/-- A parser that has been fed a plant frame, however cut, is still receiving. -/
theorem feed_plantBytes (f : PlantFrame) (chunks : List (List UInt8)) (hs : chunks.flatten = f.bytes) :
    ∃ rx, (ReceiveFrame.new false).feed chunks = .ok (rx, .ok ()) ∧ rx.complete = false := by
  have hopen := f.isOpen_body
  have hbody := unstuff_wire (frameBody (f.command.byte ||| Command.PLANT_BIT) f.command f.rest)
  have hpass := ReceiveFrame.pass_new (g := []) (t := f.bytes.tail) (by simp) (by
    rw [PlantFrame.bytes, hbody]
    exact hopen) false
  rw [List.nil_append, show START_TOKEN :: f.bytes.tail = f.bytes from rfl, ← hs] at hpass
  exact ⟨_, ReceiveFrame.feed_pass rfl hpass, rfl⟩

/-- **No plant frame is parsed**, however it is cut. -/
theorem not_receivedAs_plantBytes (f : PlantFrame) (chunks : List (List UInt8)) (hs : chunks.flatten = f.bytes) :
    ¬ ReceivedAs chunks f.command f.id f.address f.payload := by
  rintro ⟨rx, hfeed, hp⟩
  obtain ⟨rx', hfeed', hcomplete⟩ := feed_plantBytes f chunks hs
  rw [hfeed, Except.ok.injEq, Prod.mk.injEq] at hfeed'
  rw [← hfeed'.1, hp.complete] at hcomplete
  cases hcomplete

/-- A read with address `1` and id `2`. -/
theorem not_receivedAs_plantRead :
    ¬ ReceivedAs [PlantFrame.bytes ⟨.read, 1, 2, [], by decide, by decide⟩] .read 2 1 [] :=
  not_receivedAs_plantBytes ⟨.read, 1, 2, [], by decide, by decide⟩ _ (by simp)

/-- A fresh parser that has taken all of a plant read of id `2` at address `1` is not
complete. -/
theorem feed_plantRead :
    PlantFrame.bytes ⟨.read, 1, 2, [], by decide, by decide⟩ =
        [0x2b, 0x41, 0x08, 0x00, 0x00, 0x00, 0x01, 0x00, 0x00, 0x00, 0x02, 0x5f, 0x8a] ∧
      ¬ ReceivedAs [[0x2b, 0x41, 0x08, 0x00, 0x00, 0x00, 0x01, 0x00, 0x00, 0x00, 0x02, 0x5f, 0x8a]] .read 2 1 [] := by
  have hbytes : PlantFrame.bytes ⟨.read, 1, 2, [], by decide, by decide⟩ =
      [0x2b, 0x41, 0x08, 0x00, 0x00, 0x00, 0x01, 0x00, 0x00, 0x00, 0x02, 0x5f, 0x8a] := by decide +kernel
  refine ⟨hbytes, ?_⟩
  rintro ⟨rx, hfeed, hp⟩
  obtain ⟨rx', hfeed', hcomplete⟩ := feed_plantBytes ⟨.read, 1, 2, [], by decide, by decide⟩
    [[0x2b, 0x41, 0x08, 0x00, 0x00, 0x00, 0x01, 0x00, 0x00, 0x00, 0x02, 0x5f, 0x8a]]
    (by rw [hbytes, List.flatten_singleton])
  rw [hfeed, Except.ok.injEq, Prod.mk.injEq] at hfeed'
  rw [← hfeed'.1, hp.complete] at hcomplete
  cases hcomplete

/-! ### Building -/

/-- **What `make_frame` makes of a plant frame** is a frame without the plant bit. -/
theorem makeFrame_plant (f : PlantFrame) (hread : f.command = .read → f.payload = []) (prof : Profile) :
    makeFrame prof f.command f.id f.payload f.address .plant =
      .ok (.ok (wire (frameBody f.command.byte f.command f.rest))) := by
  have hpayload : (if f.command = .read then [] else f.payload) = f.payload := by
    split_ifs with h
    · exact (hread h).symm
    · rfl
  unfold makeFrame
  rw [makeLength_of_fits .plant f.fits, hpayload, frameBody, f.length_rest]
  simp only [Except.map, if_true, frameContent, PlantFrame.rest, List.append_assoc, FrameType.value]

/-- The parser takes the address for the id, and the id for a part of the payload. -/
theorem feed_makeFrame_plant (f : PlantFrame) (chunks : List (List UInt8))
    (hs : chunks.flatten = wire (frameBody f.command.byte f.command f.rest)) :
    ∃ rx, (ReceiveFrame.new false).feed chunks = .ok (rx, .ok ()) ∧
      rx.Parsed f.command f.address 0 (u32ToBe f.id ++ f.payload) := by
  have hwf : ReceiveFrame.WellFormed (frameBody f.command.byte f.command f.rest) :=
    wellFormed_frameBody (Command.fromByte_byte _) (Command.not_isPlantByte_byte _) f.parseable f.rest_lt
      (by rw [f.length_rest]; omega)
  have h := ReceiveFrame.completes_body hwf (unstuff_wire _) (g := []) (by simp)
  exact ⟨_, h.receives.2 chunks hs,
    ReceiveFrame.parsed_completed (Command.fromByte_byte _) (Command.not_isPlantByte_byte _) _ _ _⟩

/-- **No frame that `make_frame` builds for a plant is parsed back**, however it is cut. -/
theorem not_receivedAs_makeFrame_plant (f : PlantFrame) (hread : f.command = .read → f.payload = [])
    (prof : Profile) :
    ∃ s, makeFrame prof f.command f.id f.payload f.address .plant = .ok (.ok s) ∧
      ∀ chunks : List (List UInt8), chunks.flatten = s → ¬ ReceivedAs chunks f.command f.id f.address f.payload := by
  refine ⟨_, makeFrame_plant f hread prof, ?_⟩
  rintro chunks hs ⟨rx, hfeed, hp⟩
  obtain ⟨rx', hfeed', hp'⟩ := feed_makeFrame_plant f chunks hs
  rw [hfeed, Except.ok.injEq, Prod.mk.injEq] at hfeed'
  have hdata := hp'.data
  rw [← hfeed'.1, hp.data] at hdata
  have := congrArg List.length hdata
  rw [List.length_append, length_u32ToBe] at this
  omega

/-- A read of id `2` at address `1`. -/
theorem not_receivedAs_makeFrame_plantRead :
    ∃ s, makeFrame .debug .read 2 [] 1 .plant = .ok (.ok s) ∧ ¬ ReceivedAs [s] .read 2 1 [] := by
  obtain ⟨s, hs, h⟩ := not_receivedAs_makeFrame_plant ⟨.read, 1, 2, [], by decide, by decide⟩ (fun _ => rfl) .debug
  exact ⟨s, hs, h [s] List.flatten_singleton⟩

/-- The parser hands out the frame for id `2` at address `1` as one of id `1`, at no address,
with the id as its payload. -/
theorem feed_makeFrame_plantRead :
    makeFrame .debug .read 2 [] 1 .plant =
        .ok (.ok [0x2b, 0x01, 0x08, 0x00, 0x00, 0x00, 0x01, 0x00, 0x00, 0x00, 0x02, 0x2d, 0x2d, 0x90]) ∧
      ReceivedAs [[0x2b, 0x01, 0x08, 0x00, 0x00, 0x00, 0x01, 0x00, 0x00, 0x00, 0x02, 0x2d, 0x2d, 0x90]] .read 1 0
        [0, 0, 0, 2] ∧
      ¬ ReceivedAs [[0x2b, 0x01, 0x08, 0x00, 0x00, 0x00, 0x01, 0x00, 0x00, 0x00, 0x02, 0x2d, 0x2d, 0x90]] .read 2 1
        [] := by
  have hbytes : wire (frameBody 0x01 .read (PlantFrame.rest ⟨.read, 1, 2, [], by decide, by decide⟩)) =
      [0x2b, 0x01, 0x08, 0x00, 0x00, 0x00, 0x01, 0x00, 0x00, 0x00, 0x02, 0x2d, 0x2d, 0x90] := by decide +kernel
  obtain ⟨rx, hfeed, hp⟩ := feed_makeFrame_plant ⟨.read, 1, 2, [], by decide, by decide⟩
    [[0x2b, 0x01, 0x08, 0x00, 0x00, 0x00, 0x01, 0x00, 0x00, 0x00, 0x02, 0x2d, 0x2d, 0x90]]
    (by rw [List.flatten_singleton]; exact hbytes.symm)
  refine ⟨?_, ⟨rx, hfeed, hp⟩, ?_⟩
  · rw [← hbytes]
    exact makeFrame_plant ⟨.read, 1, 2, [], by decide, by decide⟩ (fun _ => rfl) .debug
  · rintro ⟨rx', hfeed', hp'⟩
    rw [hfeed, Except.ok.injEq, Prod.mk.injEq] at hfeed'
    have hid := hp'.id
    rw [← hfeed'.1, hp.id] at hid
    exact absurd hid (by decide)

end RctPower
