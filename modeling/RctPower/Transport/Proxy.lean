import RctPower.Transport.AsyncClient

/-!
# The proxy's exchange

`exchange` of the proxy (`proxy.rs`): one request, as it came from a downstream client,
on the one upstream connection, and the bytes of the answer as they came back. An exchange
that fails in any way drops the connection.

What the runtime does for one exchange is a `ProxyTry`. Connecting is under no timer.
-/

namespace RctPower

open RctPower.Lib.Rust RctPower.Lib.EarlyExit

/-- What the runtime does for one exchange of the proxy. -/
structure ProxyTry where
  /-- `TcpStream::connect`. -/
  connected : Except IoError Unit
  /-- `write_all`. -/
  written : Timed Unit
  /-- The clock after it. -/
  start : ℕ
  /-- The reads. -/
  reads : List (ReadEvent (Option IoError))

namespace Proxy

/-- The receive loop: a deadline, and every failed read ends it. -/
def policy (cfg : ClientConfig) (start : ℕ) : ReadPolicy (Option IoError) where
  expired now := decide (start + cfg.timeout < now)
  failure e := some (timedError e)

/-- One exchange on a connection: the bytes of the answer. -/
def exchangeOn (cfg : ClientConfig) (env : ProxyTry) : Checked (Option (Except RctError (List UInt8))) :=
  match env.written with
  | .error e => .ok (some (.error (timedError e)))
  | .ok () => (receive (policy cfg env.start) env.reads).map fun out => out.map fun r => r.map ReceiveFrame.wireBytes

/-- One exchange, on the shared connection or a new one. -/
def exchange (cfg : ClientConfig) (wireRequest : List UInt8) (pooled : Bool) (env : ProxyTry) :
    Checked (Option (Outcome (List UInt8))) :=
  match (if pooled then .ok () else env.connected : Except IoError Unit) with
  | .error e => .ok (some ⟨false, [], .error (.io e)⟩)
  | .ok () => (exchangeOn cfg env).map fun result => result.map fun r => ⟨r.isOk, [wireRequest], r⟩

section Exchange

variable {cfg : ClientConfig} {wireRequest : List UInt8} {pooled : Bool} {env : ProxyTry} {out : Outcome (List UInt8)}

/-- How an exchange on a connection ends. -/
inductive ExchangeEnds (cfg : ClientConfig) (env : ProxyTry) : Except RctError (List UInt8) → Prop where
  /-- The request is not written. -/
  | unwritten {e : Option IoError} (written : env.written = .error e) : ExchangeEnds cfg env (.error (timedError e))
  /-- The receive loop gives a frame, or an error. -/
  | received {r : Except RctError ReceiveFrame} (written : env.written = .ok ())
    (received : receive (policy cfg env.start) env.reads = .ok (some r)) :
    ExchangeEnds cfg env (r.map ReceiveFrame.wireBytes)

theorem exchangeEnds_of_ok {r : Except RctError (List UInt8)} (h : exchangeOn cfg env = .ok (some r)) :
    ExchangeEnds cfg env r := by
  rw [exchangeOn] at h
  split at h
  · next hwritten =>
    cases h
    exact .unwritten hwritten
  · next hwritten =>
    obtain ⟨r, hreceived, rfl⟩ := Checked.of_map_eq_some h
    exact .received hwritten hreceived

theorem ends_of_ok (h : exchange cfg wireRequest pooled env = .ok (some out)) :
    PoolEnds wireRequest pooled env.connected .io (exchangeOn cfg env) out := by
  refine .of_ok (Eq.trans ?_ h)
  rw [exchange]
  cases pooled <;> cases env.connected <;> rfl

/-- What an exchange can return: an error, or the bytes of a frame that a parser has
completed. -/
def Returnable (r : Except RctError (List UInt8)) : Prop :=
  ∀ resp, r = .ok resp → ∃ bytes rx, FirstComplete bytes rx ∧ rx.wireBytes = resp

/-- **An exchange that succeeds** returns the bytes of the first frame that it received. -/
theorem exchange_ok {resp : List UInt8} (h : exchange cfg wireRequest pooled env = .ok (some out))
    (hresp : out.result = .ok resp) :
    ∃ rx, FirstComplete (ReadEvent.allBytes env.reads) rx ∧ rx.wireBytes = resp := by
  cases ends_of_ok h with
  | unconnected => cases hresp
  | exchanged hconnected hexchanged =>
    cases exchangeEnds_of_ok hexchanged with
    | unwritten => cases hresp
    | @received r hwritten hreceived =>
      cases r with
      | error e => cases hresp
      | ok rx =>
        cases hresp
        exact ⟨rx, receive_ok hreceived, rfl⟩

/-- What an exchange returns can be returned. -/
theorem returnable_exchange (h : exchange cfg wireRequest pooled env = .ok (some out)) : Returnable out.result := by
  intro resp hresp
  obtain ⟨rx, hrx, hwire⟩ := exchange_ok h hresp
  exact ⟨_, rx, hrx, hwire⟩

end Exchange

end Proxy

end RctPower
