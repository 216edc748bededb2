import RctPower.Settings.Registry
import RctPower.Transport.Arrival

/-!
# The synchronous client

`Client` (`client.rs`): one connection, kept in a pool of one between calls, and a call
as up to `retries` tries on it.

What the operating system does for one try is a `SyncTry`: the results of looking up
the address, connecting, setting the timeouts and writing, the clock after that, and the
reads. Name lookup, ports and the delay between tries have no other part in the model.

Of all errors, only one that `decode_value` gives empties the pool. Every other leaves
the connection in it.
-/

namespace RctPower

open RctPower.Lib.Rust RctPower.Lib.EarlyExit

/-- The configuration of both clients and the proxy. -/
structure ClientConfig where
  /-- The timeout of each socket operation, and of the answer to a request. -/
  timeout : ℕ
  /-- The number of tries; none counts as one. -/
  retries : ℕ

/-- What the operating system does for one try of the synchronous client, up to the reads. -/
structure SyncOpening where
  /-- The lookup of the address: whether there is one. -/
  resolved : Except IoError Bool
  /-- `TcpStream::connect_timeout`. -/
  connected : Except IoError Unit
  /-- `set_read_timeout`. -/
  readTimeoutSet : Except IoError Unit
  /-- `set_write_timeout`. -/
  writeTimeoutSet : Except IoError Unit
  /-- `write_all`. -/
  written : Except IoError Unit
  /-- The clock after it. -/
  start : ℕ

/-- What it does for one try. -/
structure SyncTry extends SyncOpening where
  /-- The reads. -/
  reads : List (ReadEvent IoError)

/-- The frame of a read of an object. -/
def readRequest (prof : Profile) (obj : ObjectInfo) : Checked (Except RctError (List UInt8)) :=
  makeFrame prof .read obj.objectId [] 0 .standard

/-- The frame of a write of an object. -/
def writeRequest (prof : Profile) (obj : ObjectInfo) (value : DataValue) : Checked (Except RctError (List UInt8)) :=
  match encodeFor obj.requestDataType value with
  | .error e => .ok (.error e)
  | .ok payload => makeFrame prof .write obj.objectId payload 0 .standard

/-- A call with a request: nothing is sent when there is no frame. -/
def withRequest {α : Type} (request : Checked (Except RctError (List UInt8))) (pooled : Bool)
    (exchange : List UInt8 → Checked (Option (Outcome α))) : Checked (Option (Outcome α)) :=
  match request with
  | .error p => .error p
  | .ok (.error e) => .ok (some ⟨pooled, [], .error e⟩)
  | .ok (.ok frame) => exchange frame

namespace Client

/-- Take the pooled connection, or make one. -/
def connect (pooled : Bool) (env : SyncOpening) : Except RctError Unit :=
  if pooled then .ok ()
  else
    match env.resolved with
    | .error e => .error (.io e)
    | .ok false => .error .timeout
    | .ok true => env.connected.mapError .io

/-- Set the timeouts of the socket. -/
def prepare (env : SyncOpening) : Except RctError Unit :=
  match env.readTimeoutSet with
  | .error e => .error (.io e)
  | .ok () => env.writeTimeoutSet.mapError .io

/-- The receive loop: a deadline, and a read that times out is tried again. -/
def policy (cfg : ClientConfig) (start : ℕ) : ReadPolicy IoError where
  expired now := decide (start + cfg.timeout < now)
  failure e := if e = .wouldBlock then none else some (.io e)

/-- The turn begins by the deadline, and its read gives bytes or would block. -/
def hears (deadline : ℕ) (ev : ReadEvent IoError) : Bool :=
  decide (ev.now ≤ deadline) &&
    match ev.got with
    | .ok bytes => !bytes.isEmpty
    | .error e => decide (e = .wouldBlock)

/-- These are the turns in which the loop does not give up. -/
theorem hears_policy (cfg : ClientConfig) (start : ℕ) : (policy cfg start).hears = hears (start + cfg.timeout) := by
  funext ev
  rcases ev with ⟨now, e | (_ | ⟨c, cs⟩)⟩ <;> by_cases htime : now ≤ start + cfg.timeout
  all_goals simp [hears, policy, ReadPolicy.hears, ReadPolicy.givesUp, htime, not_lt.mpr, not_le.mp]
  by_cases he : e = .wouldBlock <;> simp [he]

/-- What is made of a complete frame: whether the connection stays in the pool, and the value. -/
def finish (respType : DataType) (rx : ReceiveFrame) : Checked (Bool × Except RctError DataValue) :=
  if rx.data = [] then .ok (true, .error .emptyPayload)
  else (decodeValue respType rx.data).map fun value =>
    -- unknown frame state: force reconnect on next call
    (value.isOk, value)

/-- One try. -/
def tryExchange (cfg : ClientConfig) (frame : List UInt8) (respType : DataType) (pooled : Bool) (env : SyncTry) :
    Checked (Option (Outcome DataValue)) :=
  match connect pooled env.toSyncOpening with
  | .error e => .ok (some ⟨false, [], .error e⟩)
  | .ok () =>
    match prepare env.toSyncOpening with
    | .error e => .ok (some ⟨true, [], .error e⟩)
    | .ok () =>
      match env.written with
      | .error e => .ok (some ⟨true, [frame], .error (.io e)⟩)
      | .ok () =>
        match receive (policy cfg env.start) env.reads with
        | .error p => .error p
        | .ok none => .ok none
        | .ok (some (.error e)) => .ok (some ⟨true, [frame], .error e⟩)
        | .ok (some (.ok rx)) => (finish respType rx).map fun (pooled, value) => some ⟨pooled, [frame], value⟩

/-- A call: up to `retries` tries. -/
def exchange (cfg : ClientConfig) (frame : List UInt8) (respType : DataType) (pooled : Bool) (envs : List SyncTry) :
    Checked (Option (Outcome DataValue)) :=
  attempts (tryExchange cfg frame respType) (max cfg.retries 1) .timeout pooled envs

/-- Read an object. -/
def read (prof : Profile) (cfg : ClientConfig) (obj : ObjectInfo) (pooled : Bool) (envs : List SyncTry) :
    Checked (Option (Outcome DataValue)) :=
  withRequest (readRequest prof obj) pooled fun frame => exchange cfg frame obj.responseDataType pooled envs

/-- Write a value; the device answers with the stored value. -/
def write (prof : Profile) (cfg : ClientConfig) (obj : ObjectInfo) (value : DataValue) (pooled : Bool)
    (envs : List SyncTry) : Checked (Option (Outcome DataValue)) :=
  withRequest (writeRequest prof obj value) pooled fun frame => exchange cfg frame obj.responseDataType pooled envs

/-- A value comes from the payload of a complete frame. -/
theorem finish_ok {respType : DataType} {rx : ReceiveFrame} {keep : Bool} {v : DataValue}
    (h : finish respType rx = .ok (keep, .ok v)) :
    rx.data ≠ [] ∧ decodeValue respType rx.data = .ok (.ok v) := by
  unfold finish at h
  split_ifs at h with hdata
  · cases h
  · obtain ⟨value, hdecode, hvalue⟩ := of_map_eq_ok h
    rw [Prod.mk.injEq] at hvalue
    exact ⟨hdata, hvalue.2 ▸ hdecode⟩

section Try

variable {cfg : ClientConfig} {frame : List UInt8} {respType : DataType} {pooled : Bool} {env : SyncTry}
  {out : Outcome DataValue} {v : DataValue}

/-- How a try ends. -/
inductive Ends (cfg : ClientConfig) (frame : List UInt8) (respType : DataType) (pooled : Bool) (env : SyncTry) :
    Outcome DataValue → Prop where
  /-- There is no connection. -/
  | unconnected {e : RctError} (connected : connect pooled env.toSyncOpening = .error e) :
    Ends cfg frame respType pooled env ⟨false, [], .error e⟩
  /-- Its timeouts cannot be set. -/
  | unprepared {e : RctError} (connected : connect pooled env.toSyncOpening = .ok ())
    (prepared : prepare env.toSyncOpening = .error e) : Ends cfg frame respType pooled env ⟨true, [], .error e⟩
  /-- The request is not written. -/
  | unwritten {e : IoError} (connected : connect pooled env.toSyncOpening = .ok ())
    (prepared : prepare env.toSyncOpening = .ok ()) (written : env.written = .error e) :
    Ends cfg frame respType pooled env ⟨true, [frame], .error (.io e)⟩
  /-- No frame is received. -/
  | failed {e : RctError} (connected : connect pooled env.toSyncOpening = .ok ())
    (prepared : prepare env.toSyncOpening = .ok ()) (written : env.written = .ok ())
    (received : receive (policy cfg env.start) env.reads = .ok (some (.error e))) :
    Ends cfg frame respType pooled env ⟨true, [frame], .error e⟩
  /-- A frame is received, and something is made of it. -/
  | finished {rx : ReceiveFrame} {keep : Bool} {value : Except RctError DataValue}
    (connected : connect pooled env.toSyncOpening = .ok ()) (prepared : prepare env.toSyncOpening = .ok ())
    (written : env.written = .ok ()) (received : receive (policy cfg env.start) env.reads = .ok (some (.ok rx)))
    (finished : finish respType rx = .ok (keep, value)) : Ends cfg frame respType pooled env ⟨keep, [frame], value⟩

theorem ends_iff :
    tryExchange cfg frame respType pooled env = .ok (some out) ↔ Ends cfg frame respType pooled env out := by
  constructor
  · intro h
    rw [tryExchange] at h
    split at h
    · next hconnected =>
      cases h
      exact .unconnected hconnected
    next hconnected =>
    split at h
    · next hprepared =>
      cases h
      exact .unprepared hconnected hprepared
    next hprepared =>
    split at h
    · next hwritten =>
      cases h
      exact .unwritten hconnected hprepared hwritten
    next hwritten =>
    split at h
    · cases h
    · cases h
    · next hreceived =>
      cases h
      exact .failed hconnected hprepared hwritten hreceived
    · next rx hreceived =>
      obtain ⟨⟨keep, value⟩, hfinish, hout⟩ := of_map_eq_ok h
      cases hout
      exact .finished hconnected hprepared hwritten hreceived hfinish
  · intro h
    cases h with
    | unconnected hconnected => simp only [tryExchange, hconnected]
    | unprepared hconnected hprepared => simp only [tryExchange, hconnected, hprepared]
    | unwritten hconnected hprepared hwritten => simp only [tryExchange, hconnected, hprepared, hwritten]
    | failed hconnected hprepared hwritten hreceived =>
      simp only [tryExchange, hconnected, hprepared, hwritten, hreceived]
    | finished hconnected hprepared hwritten hreceived hfinish =>
      simp only [tryExchange, hconnected, hprepared, hwritten, hreceived, hfinish, Except.map]

/-- The device answers the request of a try with a value, in time. -/
structure Answers (cfg : ClientConfig) (respType : DataType) (pooled : Bool) (env : SyncTry) (v : DataValue) :
    Prop where
  /-- There is a connection. -/
  connected : connect pooled env.toSyncOpening = .ok ()
  /-- Its timeouts can be set. -/
  prepared : prepare env.toSyncOpening = .ok ()
  /-- The request is written. -/
  written : env.written = .ok ()
  /-- The value is that of the first frame which arrives by the deadline. -/
  decoded : DecodedFromFirst (ReadEvent.bytesWhile (hears (env.start + cfg.timeout)) env.reads) respType v

/-- The loop hands a value on exactly if it arrives by the deadline. -/
theorem decoded_iff :
    DecodedFromFirst (ReadEvent.bytesWhile (hears (env.start + cfg.timeout)) env.reads) respType v ↔
      ∃ rx, receive (policy cfg env.start) env.reads = .ok (some (.ok rx)) ∧ rx.data ≠ [] ∧
        decodeValue respType rx.data = .ok (.ok v) := by
  simp only [decodedFromFirst_iff, ← hears_policy, receive_ok_iff]

/-- **A try succeeds** when the device answers. -/
theorem answers_iff :
    Answers cfg respType pooled env v ↔
      ∃ out, tryExchange cfg frame respType pooled env = .ok (some out) ∧ out.result = .ok v := by
  constructor
  · rintro ⟨hconnected, hprepared, hwritten, hdecoded⟩
    obtain ⟨rx, hreceived, hdata, hdecode⟩ := decoded_iff.mp hdecoded
    have hfinish : finish respType rx = .ok (true, .ok v) := by
      rw [finish, if_neg hdata, hdecode]
      rfl
    exact ⟨_, ends_iff.mpr (.finished hconnected hprepared hwritten hreceived hfinish), rfl⟩
  · rintro ⟨out, h, hv⟩
    cases ends_iff.mp h with
    | unconnected | unprepared | unwritten | failed => cases hv
    | finished hconnected hprepared hwritten hreceived hfinish =>
      obtain rfl := hv
      exact ⟨hconnected, hprepared, hwritten, decoded_iff.mpr ⟨_, hreceived, finish_ok hfinish⟩⟩

/-- What is answered on a new connection is answered on the pooled one. -/
theorem Answers.any (h : Answers cfg respType false env v) (pooled : Bool) : Answers cfg respType pooled env v := by
  cases pooled with
  | false => exact h
  | true => exact ⟨rfl, h.prepared, h.written, h.decoded⟩

/-- A try that succeeds has transmitted its frame. -/
theorem sent_of_ok (h : tryExchange cfg frame respType pooled env = .ok (some out)) (hv : out.result = .ok v) :
    out.sent = [frame] := by
  cases ends_iff.mp h with
  | unconnected | unprepared | unwritten | failed => cases hv
  | finished => rfl

/-- **A try that succeeds** has decoded the first frame that it received. -/
theorem tryExchange_ok (h : tryExchange cfg frame respType pooled env = .ok (some out)) (hv : out.result = .ok v) :
    ∃ rx, FirstComplete (ReadEvent.allBytes env.reads) rx ∧ rx.data ≠ [] ∧
      decodeValue respType rx.data = .ok (.ok v) := by
  obtain ⟨rx, hreceive, hdecode⟩ := decoded_iff.mp (answers_iff.mpr ⟨out, h, hv⟩).decoded
  exact ⟨rx, receive_ok hreceive, hdecode⟩

end Try

end Client

end RctPower
