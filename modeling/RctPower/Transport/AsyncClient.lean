import RctPower.Transport.Client

/-!
# The asynchronous client

`AsyncClient` (`async_client.rs`): the calls of the synchronous client on asynchronous
sockets. Each socket operation has the timeout to itself; there is no deadline for the
whole answer. A try that fails in any way drops the connection.

What the runtime does for one try is an `AsyncTry`. An operation under a timer gives
its result, an I/O error, or nothing in time (`Timed`).
-/

namespace RctPower

open RctPower.Lib.Rust RctPower.Lib.EarlyExit

/-- What an operation under a timer gives; `.error none` if the timer was first. -/
abbrev Timed (α : Type) := Except (Option IoError) α

/-- The error of an operation under a timer. -/
def timedError : Option IoError → RctError
  | none => .timeout
  | some e => .io e

/-- What the runtime does for one try of the asynchronous client. -/
structure AsyncTry where
  /-- `TcpStream::connect`. -/
  connected : Timed Unit
  /-- `write_all`. -/
  written : Timed Unit
  /-- The reads. -/
  reads : List (ReadEvent (Option IoError))

namespace AsyncClient

/-- The receive loop: no deadline, and every failed read ends it. -/
def policy : ReadPolicy (Option IoError) where
  expired _ := false
  failure e := some (timedError e)

/-- The turn gives bytes. -/
def hears (ev : ReadEvent (Option IoError)) : Bool :=
  match ev.got with
  | .ok bytes => !bytes.isEmpty
  | .error _ => false

/-- These are the turns in which the loop does not give up. -/
theorem hears_policy : policy.hears = hears := by
  funext ev
  rcases ev with ⟨now, e | (_ | ⟨c, cs⟩)⟩ <;> rfl

/-- What is made of a complete frame. -/
def finish (respType : DataType) (rx : ReceiveFrame) : Checked (Except RctError DataValue) :=
  if rx.data = [] then .ok (.error .emptyPayload) else decodeValue respType rx.data

/-- One exchange on a connection. -/
def exchangeOn (respType : DataType) (env : AsyncTry) : Checked (Option (Except RctError DataValue)) :=
  match env.written with
  | .error e => .ok (some (.error (timedError e)))
  | .ok () =>
    match receive policy env.reads with
    | .error p => .error p
    | .ok none => .ok none
    | .ok (some (.error e)) => .ok (some (.error e))
    | .ok (some (.ok rx)) => (finish respType rx).map some

/-- One try: a connection that may be in an unknown state is dropped. -/
def tryExchange (frame : List UInt8) (respType : DataType) (pooled : Bool) (env : AsyncTry) :
    Checked (Option (Outcome DataValue)) :=
  match (if pooled then .ok () else env.connected : Timed Unit) with
  | .error e => .ok (some ⟨false, [], .error (timedError e)⟩)
  | .ok () => (exchangeOn respType env).map fun result => result.map fun r => ⟨r.isOk, [frame], r⟩

/-- A call: up to `retries` tries. -/
def exchange (cfg : ClientConfig) (frame : List UInt8) (respType : DataType) (pooled : Bool) (envs : List AsyncTry) :
    Checked (Option (Outcome DataValue)) :=
  attempts (tryExchange frame respType) (max cfg.retries 1) .timeout pooled envs

/-- Read an object. -/
def read (prof : Profile) (cfg : ClientConfig) (obj : ObjectInfo) (pooled : Bool) (envs : List AsyncTry) :
    Checked (Option (Outcome DataValue)) :=
  withRequest (readRequest prof obj) pooled fun frame => exchange cfg frame obj.responseDataType pooled envs

/-- Write a value; the device answers with the stored value. -/
def write (prof : Profile) (cfg : ClientConfig) (obj : ObjectInfo) (value : DataValue) (pooled : Bool)
    (envs : List AsyncTry) : Checked (Option (Outcome DataValue)) :=
  withRequest (writeRequest prof obj value) pooled fun frame => exchange cfg frame obj.responseDataType pooled envs

section Try

variable {frame : List UInt8} {respType : DataType} {pooled : Bool} {env : AsyncTry} {out : Outcome DataValue}
  {v : DataValue}

/-- How an exchange on a connection ends. -/
inductive ExchangeEnds (respType : DataType) (env : AsyncTry) : Except RctError DataValue → Prop where
  /-- The request is not written. -/
  | unwritten {e : Option IoError} (written : env.written = .error e) :
    ExchangeEnds respType env (.error (timedError e))
  /-- No frame is received. -/
  | failed {e : RctError} (written : env.written = .ok ())
    (received : receive policy env.reads = .ok (some (.error e))) : ExchangeEnds respType env (.error e)
  /-- A frame is received, and something is made of it. -/
  | finished {rx : ReceiveFrame} {value : Except RctError DataValue} (written : env.written = .ok ())
    (received : receive policy env.reads = .ok (some (.ok rx))) (finished : finish respType rx = .ok value) :
    ExchangeEnds respType env value

theorem exchangeEnds_of_ok {r : Except RctError DataValue} (h : exchangeOn respType env = .ok (some r)) :
    ExchangeEnds respType env r := by
  rw [exchangeOn] at h
  split at h
  · next hwritten =>
    cases h
    exact .unwritten hwritten
  next hwritten =>
  split at h
  · cases h
  · cases h
  · next hreceived =>
    cases h
    exact .failed hwritten hreceived
  · next rx hreceived =>
    obtain ⟨value, hfinish, hvalue⟩ := of_map_eq_ok h
    exact .finished hwritten hreceived (Option.some.inj hvalue ▸ hfinish)

theorem ends_of_ok (h : tryExchange frame respType pooled env = .ok (some out)) :
    PoolEnds frame pooled env.connected timedError (exchangeOn respType env) out := by
  refine .of_ok (Eq.trans ?_ h)
  rw [tryExchange]
  cases pooled <;> cases env.connected <;> rfl

/-- The device answers the request of a try with a value, in time. -/
structure Answers (respType : DataType) (pooled : Bool) (env : AsyncTry) (v : DataValue) : Prop where
  /-- There is a connection. -/
  connected : pooled = true ∨ env.connected = .ok ()
  /-- The request is written. -/
  written : env.written = .ok ()
  /-- The value is that of the first frame which arrives. -/
  decoded : DecodedFromFirst (ReadEvent.bytesWhile hears env.reads) respType v

/-- The loop hands a value on exactly if it arrives. -/
theorem decoded_iff :
    DecodedFromFirst (ReadEvent.bytesWhile hears env.reads) respType v ↔
      ∃ rx, receive policy env.reads = .ok (some (.ok rx)) ∧ rx.data ≠ [] ∧
        decodeValue respType rx.data = .ok (.ok v) := by
  simp only [decodedFromFirst_iff, ← hears_policy, receive_ok_iff]

/-- An exchange succeeds when the device answers. -/
theorem exchangeOn_ok_iff :
    exchangeOn respType env = .ok (some (.ok v)) ↔
      env.written = .ok () ∧ DecodedFromFirst (ReadEvent.bytesWhile hears env.reads) respType v := by
  rw [decoded_iff]
  constructor
  · intro h
    cases exchangeEnds_of_ok h with
    | @finished rx value hwritten hreceived hfinish =>
      rw [finish] at hfinish
      split_ifs at hfinish with hdata
      · cases hfinish
      · exact ⟨hwritten, rx, hreceived, hdata, hfinish⟩
  · rintro ⟨hwritten, rx, hreceive, hdata, hdecode⟩
    simp only [exchangeOn, hwritten, hreceive, finish, if_neg hdata, hdecode, Except.map]

/-- **A try succeeds** when the device answers. -/
theorem answers_iff :
    Answers respType pooled env v ↔
      ∃ out, tryExchange frame respType pooled env = .ok (some out) ∧ out.result = .ok v := by
  constructor
  · rintro ⟨hconnected, hwritten, hdecoded⟩
    refine ⟨⟨true, [frame], .ok v⟩, ?_, rfl⟩
    have hconnect : (if pooled then .ok () else env.connected : Timed Unit) = .ok () := by
      cases pooled with
      | true => rfl
      | false => exact hconnected.resolve_left Bool.false_ne_true
    simp only [tryExchange, hconnect, exchangeOn_ok_iff.mpr ⟨hwritten, hdecoded⟩, Except.map, Option.map_some,
      Except.isOk, Except.toBool]
  · rintro ⟨out, h, hv⟩
    cases ends_of_ok h with
    | unconnected => cases hv
    | exchanged hconnected hexchanged =>
      obtain rfl := hv
      obtain ⟨hwritten, hdecoded⟩ := exchangeOn_ok_iff.mp hexchanged
      exact ⟨hconnected, hwritten, hdecoded⟩

/-- **A try that succeeds** has decoded the first frame that it received. -/
theorem tryExchange_ok (h : tryExchange frame respType pooled env = .ok (some out)) (hv : out.result = .ok v) :
    ∃ rx, FirstComplete (ReadEvent.allBytes env.reads) rx ∧ rx.data ≠ [] ∧
      decodeValue respType rx.data = .ok (.ok v) := by
  obtain ⟨rx, hreceive, hdecode⟩ := decoded_iff.mp (answers_iff.mpr ⟨out, h, hv⟩).decoded
  exact ⟨rx, receive_ok hreceive, hdecode⟩

end Try

end AsyncClient

end RctPower
