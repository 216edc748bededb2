import Mathlib.Data.List.Forall2
import RctPower.Protocol.Chunking
import RctPower.Transport.LostAcks
import RctPower.Transport.Proxy

/-!
# The receive loops agree

There are three receive loops, one for each of the two clients and one for the proxy, and they differ:
two look at a clock, one goes on after a read that would block, and each has its own reads. `verdict` is
what all three of them stand for: one call of `consume` over all the bytes that came, with no clock, no
pieces and no connection.

## What is proved

`receive_of_sends`: a loop that gets bytes in time, in pieces of any size, and then nothing more, ends
with the verdict on them, up to the offset in an error, which counts from the last piece.

`calls_agree`: the two clients are one, and what a call returns and transmits is that of a reference call
that knows nothing of its tries but the bytes that came in each of them. The connections do not matter,
although one client keeps its connection over an error and the other does not.
-/

namespace RctPower

open RctPower.Lib.Rust RctPower.Lib.EarlyExit ReceiveFrame

/-! ### The verdict on a stream -/

/-- What comes in a try. -/
structure Stream where
  /-- All the bytes. -/
  bytes : List UInt8
  /-- What a receive loop gives up with after them. -/
  ending : RctError

/-- **The verdict** on what comes in a try. -/
def verdict (stream : Stream) : Checked (Except RctError ReceiveFrame) :=
  ((ReceiveFrame.new false).consume stream.bytes).map fun out =>
    match outcome out.2 with
    | .error e => .error e
    | .ok () => if out.1.complete then .ok out.1 else settled (.error stream.ending)

/-! ### The loops -/

section Loop

variable {ε : Type} {policy : ReadPolicy ε}

/-- The bytes arrive before the loop gives up, in pieces of any size, and after them nothing does. -/
inductive Sends (policy : ReadPolicy ε) : List (ReadEvent ε) → Stream → Prop
  /-- Nothing more. -/
  | silence {ev : ReadEvent ε} {ending : RctError} (rest : List (ReadEvent ε))
    (hends : policy.givesUp ev = some ending) : Sends policy (ev :: rest) ⟨[], ending⟩
  /-- A piece of them. -/
  | piece {ev : ReadEvent ε} {evs : List (ReadEvent ε)} {chunk bytes : List UInt8} {ending : RctError}
    (htime : policy.expired ev.now = false) (hgot : ev.got = .ok chunk) (hne : chunk ≠ [])
    (hrest : Sends policy evs ⟨bytes, ending⟩) : Sends policy (ev :: evs) ⟨chunk ++ bytes, ending⟩
  /-- A turn without any. -/
  | wait {ev : ReadEvent ε} {evs : List (ReadEvent ε)} {e : ε} {stream : Stream}
    (htime : policy.expired ev.now = false) (hgot : ev.got = .error e) (hfailure : policy.failure e = none)
    (hrest : Sends policy evs stream) : Sends policy (ev :: evs) stream

/-- All in one piece. -/
theorem Sends.one {ev last : ReadEvent ε} {chunk : List UInt8} {ending : RctError} (rest : List (ReadEvent ε))
    (htime : policy.expired ev.now = false) (hgot : ev.got = .ok chunk) (hne : chunk ≠ [])
    (hends : policy.givesUp last = some ending) : Sends policy (ev :: last :: rest) ⟨chunk, ending⟩ := by
  simpa using Sends.piece htime hgot hne (.silence rest hends)

/-- What is sent is what arrives. -/
theorem Sends.arrives {reads : List (ReadEvent ε)} {stream : Stream} (h : Sends policy reads stream) :
    ReadEvent.bytesWhile policy.hears reads = stream.bytes ∧ reads.findSome? policy.givesUp = some stream.ending := by
  induction h with
  | silence rest hends => simp [ReadEvent.bytesWhile, ReadEvent.allBytes, ReadPolicy.hears, hends]
  | @piece ev evs chunk bytes ending htime hgot hne hrest ih =>
    have hup : policy.givesUp ev = none := by
      cases chunk with
      | nil => exact absurd rfl hne
      | cons c cs => simp [ReadPolicy.givesUp, htime, hgot]
    simpa [ReadEvent.bytesWhile, ReadEvent.allBytes, ReadPolicy.hears, hup, ReadEvent.bytes, hgot] using ih
  | @wait ev evs e stream htime hgot hfailure hrest ih =>
    have hup : policy.givesUp ev = none := by simp [ReadPolicy.givesUp, htime, hgot, hfailure]
    simpa [ReadEvent.bytesWhile, ReadEvent.allBytes, ReadPolicy.hears, hup, ReadEvent.bytes, hgot] using ih

/-- **A loop that gets some bytes and no more** ends with the verdict on them. -/
theorem receive_of_sends {reads : List (ReadEvent ε)} {stream : Stream} (h : Sends policy reads stream) :
    (receive policy reads).map (·.map settled) = (verdict stream).map some := by
  obtain ⟨hbytes, hending⟩ := h.arrives
  rw [receive_eq_consume, hbytes, hending, heardFrom, verdict]
  cases (ReceiveFrame.new false).consume stream.bytes with
  | error p => rfl
  | ok out =>
    simp only [Except.map]
    cases outcome out.2 with
    | error e => rfl
    | ok u => split_ifs <;> rfl

/-- The same case by case. -/
theorem receive_cases {reads : List (ReadEvent ε)} {stream : Stream} (h : Sends policy reads stream) :
    (∃ p, receive policy reads = .error p ∧ verdict stream = .error p) ∨
      (∃ e, receive policy reads = .ok (some (.error e)) ∧ verdict stream = .ok (.error (e.mapConsumed fun _ => 0))) ∨
      ∃ rx, receive policy reads = .ok (some (.ok rx)) ∧ verdict stream = .ok (.ok rx) := by
  have hloop := receive_of_sends h
  rcases hx : receive policy reads with p | (_ | (e | rx)) <;> rcases hy : verdict stream with q | r <;>
    simp only [hx, hy, Except.map, Option.map_none, Option.map_some, settled_error, settled_ok, Except.error.injEq,
      Except.ok.injEq, reduceCtorEq, Option.some.injEq] at hloop
  · exact .inl ⟨p, rfl, by rw [hloop]⟩
  · exact .inr (.inl ⟨e, rfl, by rw [hloop]⟩)
  · exact .inr (.inr ⟨rx, rfl, by rw [hloop]⟩)

end Loop

/-! ### The calls -/

/-- What is seen of a call: the frames transmitted and the result. -/
abbrev Seen (α : Type) := Checked (Option (List (List UInt8) × Except RctError α))

/-- What a caller sees of a call, apart from the connection and from offsets. -/
def observe {α : Type} (call : Checked (Option (Outcome α))) : Seen α :=
  call.map fun tried => tried.map fun out => (out.sent, settled out.result)

/-- **Two calls of which the same is seen** differ in the connection and in offsets only. -/
theorem observe_cases {α : Type} {x y : Checked (Option (Outcome α))} (h : observe x = observe y) :
    (∃ p, x = .error p ∧ y = .error p) ∨ (x = .ok none ∧ y = .ok none) ∨
      ∃ out out', x = .ok (some out) ∧ y = .ok (some out') ∧ out.sent = out'.sent ∧
        settled out.result = settled out'.result := by
  rcases x with p | (_ | out) <;> rcases y with q | (_ | out') <;>
    simp only [observe, Except.map, Option.map_none, Option.map_some, Except.error.injEq, Except.ok.injEq, reduceCtorEq,
      Option.some.injEq, Prod.mk.injEq] at h
  · exact .inl ⟨p, rfl, by rw [h]⟩
  · exact .inr (.inl ⟨rfl, rfl⟩)
  · exact .inr (.inr ⟨out, out', rfl, rfl, h⟩)

/-- Two results with the same values. -/
theorem values_cases {α : Type} {r r' : Except RctError α} (h : ∀ v, settled r' = .ok v ↔ settled r = .ok v) :
    (∃ v, r = .ok v ∧ r' = .ok v) ∨ ∃ e e', r = .error e ∧ r' = .error e' := by
  rcases r with e | v
  · rcases r' with e' | v'
    · exact .inr ⟨e, e', rfl, rfl⟩
    · cases (h v').mp rfl
  · rcases r' with e' | v'
    · cases (h v).mpr rfl
    · exact .inl ⟨v, rfl, by rw [Except.ok.inj ((h v).mpr rfl)]⟩

/-- An offset and the connection are not seen. -/
theorem observe_error {α : Type} (pooled pooled' : Bool) (sent : List (List UInt8)) (e : RctError) :
    observe (.ok (some (⟨pooled, sent, .error e⟩ : Outcome α))) =
      observe (.ok (some ⟨pooled', sent, .error (e.mapConsumed fun _ => 0)⟩)) := by
  have hsettled : settled (.error (e.mapConsumed fun _ => 0) : Except RctError α) = settled (.error e) := by
    rw [← settled_error, settled_settled]
  simp only [observe, Except.map, Option.map_some, hsettled]

/-- What is seen when these frames have been transmitted before. -/
def Seen.after {α : Type} (sent : List (List UInt8)) (seen : Seen α) : Seen α :=
  seen.map fun call => call.map fun out => (sent ++ out.1, out.2)

/-- What is seen of a retry loop, from its first try on. -/
theorem observe_attempts {α κ : Type} (f : Bool → κ → Checked (Option (Outcome α))) (n : ℕ) (e : RctError)
    (pooled : Bool) (env : κ) (envs : List κ) :
    observe (attempts f (n + 1) e pooled (env :: envs)) =
      match f pooled env with
      | .error p => .error p
      | .ok none => .ok none
      | .ok (some out) =>
        match out.result with
        | .ok v => .ok (some (out.sent, .ok v))
        | .error err => (observe (attempts f n err out.pooled envs)).after out.sent := by
  rw [attempts]
  rcases f pooled env with p | (_ | out)
  · rfl
  · rfl
  dsimp only
  cases hresult : out.result with
  | ok v => simp only [observe, Except.map, Option.map_some, hresult, settled_ok]
  | error err =>
    dsimp only
    rcases attempts f n err out.pooled envs with p | (_ | last) <;> rfl

/-- **Retry loops over tries that agree agree**, whatever the tries do to the pool. -/
theorem attempts_agree {α κ κ' : Type} {f : Bool → κ → Checked (Option (Outcome α))}
    {g : Bool → κ' → Checked (Option (Outcome α))} {R : κ → κ' → Prop}
    (hfg : ∀ pooled pooled' env env', R env env' → observe (f pooled env) = observe (g pooled' env'))
    {envs : List κ} {envs' : List κ'} (henvs : List.Forall₂ R envs envs') (n : ℕ) {e e' : RctError}
    (he : settled (.error e : Except RctError α) = settled (.error e')) (pooled pooled' : Bool) :
    observe (attempts f n e pooled envs) = observe (attempts g n e' pooled' envs') := by
  induction n generalizing envs envs' e e' pooled pooled' with
  | zero => simp only [attempts, observe, Except.map, Option.map_some, he]
  | succ n ih =>
    cases henvs with
    | nil => rfl
    | @cons env env' envs envs' henv henvs =>
      rw [observe_attempts, observe_attempts]
      obtain ⟨p, hx, hy⟩ | ⟨hx, hy⟩ | ⟨out, out', hx, hy, hsent, hresult⟩ :=
          observe_cases (hfg pooled pooled' env env' henv)
      · rw [hx, hy]
      · rw [hx, hy]
      rw [hx, hy]
      dsimp only
      obtain ⟨v, hv, hv'⟩ | ⟨err, err', herr, herr'⟩ := @values_cases _ out.result out'.result fun v => by rw [hresult]
      · -- both tries succeed
        rw [hv, hv', hsent]
      · -- both fail, and both loops go on
        rw [herr, herr'] at hresult ⊢
        dsimp only
        rw [hsent, ih henvs hresult]

namespace Reference

/-- A try that knows only what came. -/
def tryExchange (frame : List UInt8) (respType : DataType) (_ : Bool) (stream : Stream) :
    Checked (Option (Outcome DataValue)) :=
  match verdict stream with
  | .error p => .error p
  | .ok (.error e) => .ok (some ⟨false, [frame], .error e⟩)
  | .ok (.ok rx) => (AsyncClient.finish respType rx).map fun r => some ⟨false, [frame], r⟩

/-- A call: the streams are what comes in each of its tries. -/
def exchange (cfg : ClientConfig) (frame : List UInt8) (respType : DataType) (streams : List Stream) :
    Checked (Option (Outcome DataValue)) :=
  attempts (tryExchange frame respType) (max cfg.retries 1) .timeout false streams

/-- Read an object. -/
def read (prof : Profile) (cfg : ClientConfig) (obj : ObjectInfo) (streams : List Stream) :
    Checked (Option (Outcome DataValue)) :=
  withRequest (readRequest prof obj) false fun frame => exchange cfg frame obj.responseDataType streams

/-- Write a value. -/
def write (prof : Profile) (cfg : ClientConfig) (obj : ObjectInfo) (value : DataValue)
    (streams : List Stream) : Checked (Option (Outcome DataValue)) :=
  withRequest (writeRequest prof obj value) false fun frame => exchange cfg frame obj.responseDataType streams

end Reference

/-- Calls with one request agree if they agree on what they exchange it for. -/
theorem withRequest_agree {α : Type} (request : Checked (Except RctError (List UInt8))) (pooled pooled' : Bool)
    {f g : List UInt8 → Checked (Option (Outcome α))} (hfg : ∀ frame, observe (f frame) = observe (g frame)) :
    observe (withRequest request pooled f) = observe (withRequest request pooled' g) := by
  rcases request with p | (e | frame)
  · rfl
  · rfl
  · exact hfg frame

/-! ### The synchronous client -/

namespace Client

/-- In a try the request is written, on a new connection if need be, and this comes. -/
structure Receives (cfg : ClientConfig) (env : SyncTry) (stream : Stream) : Prop where
  /-- The request is written. -/
  opens : Opens false env
  /-- This comes, and then nothing. -/
  sends : Sends (policy cfg env.start) env.reads stream

variable {cfg : ClientConfig} {env : SyncTry}

/-- What can be done on a new connection can be done on the pooled one. -/
theorem Opens.any (h : Opens false env) (pooled : Bool) : Opens pooled env := by
  cases pooled with
  | false => exact h
  | true => exact ⟨rfl, h.prepared, h.written⟩

/-- Only the connection tells what this client makes of a frame from what the other one does. -/
theorem finish_map (respType : DataType) (rx : ReceiveFrame) :
    (finish respType rx).map Prod.snd = AsyncClient.finish respType rx := by
  rw [finish, AsyncClient.finish]
  split_ifs
  · rfl
  · cases decodeValue respType rx.data <;> rfl

/-- A try agrees with the reference. -/
theorem tryExchange_agrees (frame : List UInt8) (respType : DataType) (pooled pooled' : Bool) {stream : Stream}
    (h : Receives cfg env stream) :
    observe (tryExchange cfg frame respType pooled env) =
      observe (Reference.tryExchange frame respType pooled' stream) := by
  obtain ⟨hopens, hsends⟩ := h
  have hconnected := (hopens.any pooled).connected
  obtain ⟨p, hreceive, hverdict⟩ | ⟨e, hreceive, hverdict⟩ | ⟨rx, hreceive, hverdict⟩ := receive_cases hsends
  · simp only [tryExchange, hconnected, hopens.prepared, hopens.written, hreceive, Reference.tryExchange, hverdict]
  · simp only [tryExchange, hconnected, hopens.prepared, hopens.written, hreceive, Reference.tryExchange, hverdict]
    exact observe_error _ _ _ e
  · simp only [tryExchange, hconnected, hopens.prepared, hopens.written, hreceive, Reference.tryExchange, hverdict]
    rw [← finish_map]
    cases finish respType rx <;> rfl

/-- So does a call. -/
theorem exchange_agrees (frame : List UInt8) (respType : DataType) (pooled : Bool) {envs : List SyncTry}
    {streams : List Stream} (h : List.Forall₂ (Receives cfg) envs streams) :
    observe (exchange cfg frame respType pooled envs) = observe (Reference.exchange cfg frame respType streams) :=
  attempts_agree (R := Receives cfg) (fun _ _ _ _ => tryExchange_agrees frame respType _ _) h _ rfl _ _

end Client

/-! ### The asynchronous client -/

namespace AsyncClient

/-- In a try the request is written, on a new connection if need be, and this comes. -/
structure Receives (env : AsyncTry) (stream : Stream) : Prop where
  /-- The request is written. -/
  opens : Opens false env
  /-- This comes, and then nothing. -/
  sends : Sends policy env.reads stream

variable {env : AsyncTry}

/-- A try agrees with the reference. -/
theorem tryExchange_agrees (frame : List UInt8) (respType : DataType) (pooled pooled' : Bool) {stream : Stream}
    (h : Receives env stream) :
    observe (tryExchange frame respType pooled env) =
      observe (Reference.tryExchange frame respType pooled' stream) := by
  obtain ⟨⟨hconnected, hwritten⟩, hsends⟩ := h
  have hconnect : (if pooled then .ok () else env.connected : Timed Unit) = .ok () := by
    rw [hconnected.resolve_left Bool.false_ne_true, ite_self]
  obtain ⟨p, hreceive, hverdict⟩ | ⟨e, hreceive, hverdict⟩ | ⟨rx, hreceive, hverdict⟩ := receive_cases hsends
  · simp only [tryExchange, hconnect, exchangeOn, hwritten, hreceive, Reference.tryExchange, hverdict, Except.map]
  · simp only [tryExchange, hconnect, exchangeOn, hwritten, hreceive, Reference.tryExchange, hverdict, Except.map,
      Option.map_some]
    exact observe_error _ _ _ e
  · simp only [tryExchange, hconnect, exchangeOn, hwritten, hreceive, Reference.tryExchange, hverdict]
    cases finish respType rx <;> rfl

/-- So does a call. -/
theorem exchange_agrees (cfg : ClientConfig) (frame : List UInt8) (respType : DataType) (pooled : Bool)
    {envs : List AsyncTry} {streams : List Stream} (h : List.Forall₂ Receives envs streams) :
    observe (exchange cfg frame respType pooled envs) = observe (Reference.exchange cfg frame respType streams) :=
  attempts_agree (R := Receives) (fun _ _ _ _ => tryExchange_agrees frame respType _ _) h _ rfl _ _

end AsyncClient

/-! ### The proxy -/

namespace Proxy

/-- In an exchange the request is written, on a new connection if need be, and this comes. -/
structure Receives (cfg : ClientConfig) (env : ProxyTry) (stream : Stream) : Prop where
  /-- There is a connection. -/
  connected : env.connected = .ok ()
  /-- The request is written. -/
  written : env.written = .ok ()
  /-- This comes, and then nothing. -/
  sends : Sends (policy cfg env.start) env.reads stream

variable {cfg : ClientConfig} {env : ProxyTry} {stream : Stream}

/-- How an exchange ends, by the verdict. -/
theorem exchange_cases (frame : List UInt8) (pooled : Bool) (h : Receives cfg env stream) :
    (∃ p, exchange cfg frame pooled env = .error p ∧ verdict stream = .error p) ∨
      (∃ e, exchange cfg frame pooled env = .ok (some ⟨false, [frame], .error e⟩) ∧
        verdict stream = .ok (.error (e.mapConsumed fun _ => 0))) ∨
      ∃ rx, exchange cfg frame pooled env = .ok (some ⟨true, [frame], .ok rx.wireBytes⟩) ∧
        verdict stream = .ok (.ok rx) := by
  obtain ⟨hconnected, hwritten, hsends⟩ := h
  have hconnect : (if pooled then .ok () else env.connected : Except IoError Unit) = .ok () := by
    rw [hconnected, ite_self]
  obtain ⟨p, hreceive, hverdict⟩ | ⟨e, hreceive, hverdict⟩ | ⟨rx, hreceive, hverdict⟩ := receive_cases hsends
  · refine .inl ⟨p, ?_, hverdict⟩
    simp only [exchange, hconnect, exchangeOn, hwritten, hreceive, Except.map]
  · refine .inr (.inl ⟨e, ?_, hverdict⟩)
    simp only [exchange, hconnect, exchangeOn, hwritten, hreceive, Except.map, Option.map_some]
    rfl
  · refine .inr (.inr ⟨rx, ?_, hverdict⟩)
    simp only [exchange, hconnect, exchangeOn, hwritten, hreceive, Except.map, Option.map_some]
    rfl

/-- An exchange gives the verdict, as the bytes of the frame. -/
theorem exchange_agrees (frame : List UInt8) (pooled : Bool) (h : Receives cfg env stream) :
    observe (exchange cfg frame pooled env) =
      (verdict stream).map fun r => some ([frame], r.map ReceiveFrame.wireBytes) := by
  obtain ⟨p, hexchange, hverdict⟩ | ⟨e, hexchange, hverdict⟩ | ⟨rx, hexchange, hverdict⟩ :=
      exchange_cases frame pooled h
  all_goals
    rw [hexchange, hverdict]
    rfl

end Proxy

/-! ### All three -/

section Agree

variable {cfg : ClientConfig} {syncs : List SyncTry} {asyncs : List AsyncTry} {streams : List Stream}

/-- **The two clients and the proxy agree.** A receive loop of any of the three ends with the verdict on what
comes, however that is cut. If the same bytes come in the tries of both clients, then whatever the pools hold, both
transmit and return what the reference call does; and an exchange of the proxy gives the verdict on its bytes. -/
theorem calls_agree (hsyncs : List.Forall₂ (Client.Receives cfg) syncs streams)
    (hasyncs : List.Forall₂ AsyncClient.Receives asyncs streams) (prof : Profile) (obj : ObjectInfo)
    (pooled pooled' : Bool) :
    (∀ (ε : Type) (policy : ReadPolicy ε) (reads : List (ReadEvent ε)) (stream : Stream), Sends policy reads stream →
      (receive policy reads).map (·.map settled) = (verdict stream).map some) ∧
    (observe (Client.read prof cfg obj pooled syncs) = observe (Reference.read prof cfg obj streams) ∧
      observe (AsyncClient.read prof cfg obj pooled' asyncs) = observe (Reference.read prof cfg obj streams)) ∧
    (∀ value,
      observe (Client.write prof cfg obj value pooled syncs) = observe (Reference.write prof cfg obj value streams) ∧
        observe (AsyncClient.write prof cfg obj value pooled' asyncs) =
          observe (Reference.write prof cfg obj value streams)) ∧
    ∀ stream env frame, Proxy.Receives cfg env stream →
      observe (Proxy.exchange cfg frame pooled env) =
        (verdict stream).map fun r => some ([frame], r.map ReceiveFrame.wireBytes) := by
  refine ⟨fun ε policy reads stream h => receive_of_sends h, ⟨?_, ?_⟩, fun value => ⟨?_, ?_⟩,
    fun stream env frame h => Proxy.exchange_agrees frame pooled h⟩
  · exact withRequest_agree _ _ _ fun frame => Client.exchange_agrees frame _ _ hsyncs
  · exact withRequest_agree _ _ _ fun frame => AsyncClient.exchange_agrees cfg frame _ _ hasyncs
  · exact withRequest_agree _ _ _ fun frame => Client.exchange_agrees frame _ _ hsyncs
  · exact withRequest_agree _ _ _ fun frame => AsyncClient.exchange_agrees cfg frame _ _ hasyncs

/-- A wrong command byte, in two pieces for one client and in one for the other, and then the value. -/
theorem calls_agree_soc :
    let obj : ObjectInfo := ⟨.battery, 0x959930BF, 545, "battery.soc", .float, .float, "", "", ""⟩
    let resp : Response := .ofFrame ⟨.response, 0x959930BF, [0x3f, 0, 0, 0], by decide, by decide, by decide⟩ rfl
    let opening : SyncOpening := ⟨.ok true, .ok (), .ok (), .ok (), .ok (), 0⟩
    observe (Client.read .debug ⟨5, 2⟩ obj false
        [⟨opening, [⟨0, .ok [0x2b]⟩, ⟨1, .error .wouldBlock⟩, ⟨2, .ok [0xff]⟩, ⟨6, .ok []⟩]⟩,
          ⟨opening, [⟨3, .ok resp.bytes⟩, ⟨3, .ok []⟩]⟩]) =
      observe (AsyncClient.read .debug ⟨5, 2⟩ obj false
        [⟨.ok (), .ok (), [⟨0, .ok [0x2b, 0xff]⟩, ⟨9, .error none⟩]⟩,
          ⟨.ok (), .ok (), [⟨0, .ok resp.bytes⟩, ⟨9, .error none⟩]⟩]) := by
  intro obj resp opening
  have hne : resp.bytes ≠ [] := by decide +kernel
  have hsyncs : List.Forall₂ (Client.Receives ⟨5, 2⟩)
      [⟨opening, [⟨0, .ok [0x2b]⟩, ⟨1, .error .wouldBlock⟩, ⟨2, .ok [0xff]⟩, ⟨6, .ok []⟩]⟩,
        ⟨opening, [⟨3, .ok resp.bytes⟩, ⟨3, .ok []⟩]⟩] [⟨[0x2b, 0xff], .timeout⟩, ⟨resp.bytes, .timeout⟩] := by
    refine .cons ⟨⟨rfl, rfl, rfl⟩, ?_⟩ (.cons ⟨⟨rfl, rfl, rfl⟩, .one [] rfl rfl hne (by decide)⟩ .nil)
    exact .piece rfl rfl (List.cons_ne_nil 0x2b []) (.wait rfl rfl rfl
      (.one [] rfl rfl (List.cons_ne_nil 0xff []) (by decide)))
  have hasyncs : List.Forall₂ AsyncClient.Receives
      [⟨.ok (), .ok (), [⟨0, .ok [0x2b, 0xff]⟩, ⟨9, .error none⟩]⟩,
        ⟨.ok (), .ok (), [⟨0, .ok resp.bytes⟩, ⟨9, .error none⟩]⟩]
      [⟨[0x2b, 0xff], .timeout⟩, ⟨resp.bytes, .timeout⟩] :=
    .cons ⟨⟨.inr rfl, rfl⟩, .one [] rfl rfl (List.cons_ne_nil _ _) rfl⟩
      (.cons ⟨⟨.inr rfl, rfl⟩, .one [] rfl rfl hne rfl⟩ .nil)
  obtain ⟨-, ⟨hread, hread'⟩, -⟩ := calls_agree hsyncs hasyncs .debug obj false false
  exact hread.trans hread'.symm

end Agree

end RctPower
