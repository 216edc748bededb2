import RctPower.Lib.EarlyExit
import RctPower.Lib.Stuffing
import RctPower.Protocol.Codec

/-!
# Frame construction and incremental receive parsing

`make_frame` and `ReceiveFrame` (`frame.rs`).

`ReceiveFrame.consume` is a loop over the bytes it is handed, with one parser
state across calls. `ReceiveFrame.step` is the body of that loop: it goes on,
returns from `consume`, or panics (`EarlyExit.Flow`); what it returns is given the
loop's byte count `i`. `ReceiveFrame.feed` is the loop of every caller,
`while !rx.complete() { rx.consume(chunk)?; }`, over the chunks that arrive.
-/

namespace RctPower

open RctPower.Lib RctPower.Lib.Rust RctPower.Lib.EarlyExit RctPower.Lib.Stuffing

/-- Token that starts a frame, `'+'`. -/
def START_TOKEN : UInt8 := 0x2b

/-- Token that escapes the next value, `'-'`. -/
def ESCAPE_TOKEN : UInt8 := 0x2d

/-- The bytes `make_frame` escapes. -/
def isToken (b : UInt8) : Bool := b == START_TOKEN || b == ESCAPE_TOKEN

/-! ### Construction -/

/-- The length field of `make_frame`: the payload length is cast to the width of the
field, then the frame type's count is added in that width. -/
def makeLength (prof : Profile) (command : Command) (payload : List UInt8) (ft : FrameType) : Checked (List UInt8) :=
  if command.isLong then
    (addU16 prof (UInt16.ofNat ft.value) (UInt16.ofNat payload.length)).map u16ToBe
  else
    (addU8 prof (UInt8.ofNat ft.value) (UInt8.ofNat payload.length)).map fun len => [len]

/-- The unescaped bytes of a frame between the start token and the CRC. -/
def frameContent (command : Command) (length : List UInt8) (address : List UInt8) (id : UInt32)
    (payload : List UInt8) : List UInt8 :=
  command.byte :: (length ++ address ++ u32ToBe id ++ payload)

/-- The CRC of a frame's content behind it. -/
def withCrc (content : List UInt8) : List UInt8 := content ++ u16ToBe (crc16 content)

/-- A body on the wire: behind a start token, tokens escaped. -/
def wire (body : List UInt8) : List UInt8 := START_TOKEN :: stuff isToken ESCAPE_TOKEN body

/-- Build the escaped byte stream for a frame, ready to send. The payload is ignored for
`Read`, the address for standard frames. -/
def makeFrame (prof : Profile) (command : Command) (id : UInt32) (payload : List UInt8) (address : UInt32)
    (ft : FrameType) : Checked (Except RctError (List UInt8)) :=
  (makeLength prof command payload ft).map fun length =>
    let address := if ft = .plant then u32ToBe address else []
    let payload := if command = .read then [] else payload
    .ok (wire (withCrc (frameContent command length address id payload)))

/-! ### The parser -/

/-- Incremental receive-frame parser, one frame per instance. -/
structure ReceiveFrame where
  /-- The frame is complete. -/
  complete : Bool
  /-- The received CRC is the calculated one. -/
  crcOk : Bool
  /-- An escape is pending. -/
  escaping : Bool
  /-- The received CRC. -/
  crc16Recv : UInt16
  /-- Length of the whole frame, `0` until the header is read. -/
  frameLength : ℕ
  /-- The command, without the plant bit. -/
  command : Option Command
  /-- The frame so far, escapes removed. -/
  buffer : List UInt8
  /-- Raw wire bytes of the current frame including start and escape tokens. -/
  raw : List UInt8
  /-- Bytes taken by all calls. -/
  consumedBytes : ℕ
  /-- Length of the header. -/
  frameHeaderLength : ℕ
  /-- The object id. -/
  id : UInt32
  /-- The plant address. -/
  address : UInt32
  /-- The payload. -/
  data : List UInt8
  /-- Accept a frame with a wrong CRC. -/
  ignoreCrcMismatch : Bool
  deriving DecidableEq

namespace ReceiveFrame

/-- A fresh parser. -/
def new (ignoreCrcMismatch : Bool) : ReceiveFrame where
  complete := false
  crcOk := false
  escaping := false
  crc16Recv := 0
  frameLength := 0
  command := none
  buffer := []
  raw := []
  consumedBytes := 0
  -- start(1) + command(1) + length(1) + no address + id(4)
  frameHeaderLength := 1 + 1 + 1 + 4
  id := 0
  address := 0
  data := []
  ignoreCrcMismatch

/-- Raw wire bytes of the current frame, escaping included. -/
def wireBytes (rx : ReceiveFrame) : List UInt8 := rx.raw

/-- No bytes are buffered yet: the parser is at a frame start. -/
def noBytes (rx : ReceiveFrame) : Bool := rx.buffer.isEmpty

/-- What the body of the loop of `consume` does with a byte. -/
abbrev Step := Flow ReceiveFrame (ℕ → Except RctError ℕ) Panic

/-- The branch for the command byte, `blen == 2`. -/
def onCommand (rx : ReceiveFrame) : Step :=
  .after (index rx.buffer 1) fun raw =>
    match Command.fromByte raw with
    | none => .ret rx fun i => .error (.invalidCommand raw i)
    | some cmd =>
      if cmd = .extension then .ret rx fun i => .error (.invalidCommand raw i)
      else
        let header := rx.frameHeaderLength + (if Command.isPlantByte raw then 4 else 0)
        .next { rx with command := some cmd, frameHeaderLength := header + (if cmd.isLong then 1 else 0) }

/-- Four bytes of the buffer as a big-endian number. -/
def beAt (rx : ReceiveFrame) (i : ℕ) : Checked UInt32 := do
  return u32OfBe (← index rx.buffer i) (← index rx.buffer (i + 1)) (← index rx.buffer (i + 2))
    (← index rx.buffer (i + 3))

/-- The length field, and where the address or the id starts. -/
def lengthField (rx : ReceiveFrame) (cmd : Command) : Checked (ℕ × ℕ) :=
  if cmd.isLong then do return ((u16OfBe (← index rx.buffer 2) (← index rx.buffer 3)).toNat, 4)
  else do return ((← index rx.buffer 2).toNat, 3)

/-- The branch for the header, `blen == frame_header_length`. The question whether this
is a plant frame is asked of the command without its plant bit. -/
def onHeader (rx : ReceiveFrame) (cmd : Command) : Step :=
  .after (do
    let (dataLength, oidIdx) ← rx.lengthField cmd
    if Command.isPlantByte cmd.byte then
      -- length field includes address + id (8 bytes)
      let header ← usizeSub rx.frameHeaderLength 8
      let address ← rx.beAt oidIdx
      let id ← rx.beAt (oidIdx + 4)
      return { rx with frameLength := header + dataLength + 2, address, id }
    else
      -- length field includes id (4 bytes)
      let header ← usizeSub rx.frameHeaderLength 4
      let id ← rx.beAt oidIdx
      return { rx with frameLength := header + dataLength + 2, id }) .next

/-- What the branch for the last byte reads from the buffer: the received CRC, the
calculated CRC and the payload. -/
def readLast (rx : ReceiveFrame) : Checked (UInt16 × UInt16 × List UInt8) := do
  let blen := rx.buffer.length
  let received := u16OfBe (← index rx.buffer (← usizeSub blen 2)) (← index rx.buffer (← usizeSub blen 1))
  let calculated := crc16 (← slice rx.buffer 1 (← usizeSub blen 2))
  let data ← slice rx.buffer rx.frameHeaderLength (← usizeSub blen 2)
  return (received, calculated, data)

/-- The branch for the last byte, `blen == frame_length`. -/
def onLast (rx : ReceiveFrame) : Step :=
  .after rx.readLast fun (received, calculated, data) =>
    let rx := { rx with complete := true, crc16Recv := received, crcOk := decide (received = calculated), data }
    if !rx.crcOk && !rx.ignoreCrcMismatch then .ret rx fun i => .error (.frameCrcMismatch received calculated i)
    else .ret rx .ok

/-- What follows `self.buffer.push(c)`. -/
def push (rx : ReceiveFrame) (c : UInt8) : Step :=
  let rx := { rx with buffer := rx.buffer ++ [c] }
  let blen := rx.buffer.length
  if blen = 2 then rx.onCommand
  else if blen = rx.frameHeaderLength ∧ rx.command.isSome ∧ rx.frameLength = 0 then
    .after (unwrap rx.command) rx.onHeader
  else if 0 < rx.frameLength ∧ blen = rx.frameLength then rx.onLast
  else if 0 < rx.frameLength ∧ rx.frameLength < blen then .ret rx fun i => .error (.frameLengthExceeded i)
  else .next rx

/-- The body of the loop of `consume`. -/
def step (rx : ReceiveFrame) (c : UInt8) : Step :=
  let rx := { rx with consumedBytes := rx.consumedBytes + 1 }
  if rx.buffer = [] then
    -- sync to start token
    if c = START_TOKEN then .next { rx with raw := [c], buffer := [c] } else .next rx
  else
    let rx := { rx with raw := rx.raw ++ [c] }
    if rx.escaping then { rx with escaping := false }.push c
    else if c = ESCAPE_TOKEN then .next { rx with escaping := true }
    else rx.push c

/-- Feed received bytes; the result is the consumed count, or an error that carries it. -/
def consume (rx : ReceiveFrame) (data : List UInt8) : Checked (ReceiveFrame × Except RctError ℕ) :=
  (loop step rx data).map fun out =>
    match out with
    | (rx', none) => (rx', .ok data.length)
    | (rx', some (result, i)) => (rx', result i)

/-- Feed chunks one after the other until the frame is complete or `consume` returns an
error. -/
def feed (rx : ReceiveFrame) : List (List UInt8) → Checked (ReceiveFrame × Except RctError Unit)
  | [] => .ok (rx, .ok ())
  | chunk :: chunks =>
    if rx.complete then .ok (rx, .ok ())
    else
      match rx.consume chunk with
      | .error p => .error p
      | .ok (rx', .error e) => .ok (rx', .error e)
      | .ok (rx', .ok _) => rx'.feed chunks

end ReceiveFrame

end RctPower
