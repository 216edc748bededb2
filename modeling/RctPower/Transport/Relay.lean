import RctPower.Protocol.Reachable
import RctPower.Transport.Feeding
import RctPower.Transport.LostAcks

/-!
# A client behind the proxy

The clients can be pointed at the proxy instead of the device. A request then passes two receive loops on
its way, the one of `serve_client` and the one of the device, and the answer passes two as well, the one
of `exchange_on` and the one of the client.

## What is proved

`relays`: what a client reads from the device directly it reads through the proxy as well, if the answer
is delivered in time on both ways, however the bytes are cut anywhere.
-/

namespace RctPower

open RctPower.Lib.Rust RctPower.Lib.EarlyExit RctPower.Lib.Stuffing ReceiveFrame

/-! ### The request -/

/-- A task that is handed a frame in pieces asks for its exchange, and for nothing else. -/
theorem Session.run_pieces {chunks : List (List UInt8)} (hchunks : [] ∉ chunks) {rx rx' t : ReceiveFrame}
    (hrx : rx.complete = false) {s₀ : List UInt8} {evs : List SessionEvent} {c : UInt8}
    (hpass : passed ReceiveFrame.step rx s₀ = some rx') (hstep : rx'.step c = .ret t .ok) (ht : t.complete = true)
    (hbytes : chunks.flatten = s₀ ++ [c]) :
    Session.run (.reading rx) (chunks.map (fun chunk => .read (.ok chunk)) ++ evs) =
      (Session.run (.exchanging t.wireBytes []) evs).map fun out => (out.1, t.wireBytes :: out.2) := by
  induction chunks generalizing rx s₀ with
  | nil => simp at hbytes
  | cons chunk chunks ih =>
    obtain ⟨hne, hrest⟩ : chunk ≠ [] ∧ [] ∉ chunks := by
      rw [List.mem_cons, not_or] at hchunks
      exact ⟨Ne.symm hchunks.1, hchunks.2⟩
    have hread : Session.step (.reading rx) (.read (.ok chunk)) = some (Session.forward rx chunk) := by
      cases chunk with
      | nil => exact absurd rfl hne
      | cons => rfl
    rw [List.flatten_cons] at hbytes
    rcases List.eq_nil_or_concat' chunks.flatten with hlast | ⟨more, d, hmore⟩
    · -- the last piece
      obtain rfl : chunks = [] := by
        refine List.eq_nil_iff_forall_not_mem.mpr fun piece hpiece => hrest ?_
        exact List.flatten_eq_nil_iff.mp hlast piece hpiece ▸ hpiece
      obtain rfl : chunk = s₀ ++ [c] := by simpa using hbytes
      rw [List.map_cons, List.cons_append, Session.run, hread, forward_append hrx hpass, forward_complete hstep ht]
      rfl
    · have hcut : chunk ++ more = s₀ ∧ d = c := by
        rw [hmore, ← List.append_assoc] at hbytes
        obtain ⟨hs₀, hd⟩ := List.append_inj' hbytes rfl
        exact ⟨hs₀, by simpa using hd⟩
      obtain ⟨rfl, rfl⟩ := hcut
      obtain ⟨rx₁, h₁, h₂⟩ := pass_left ReceiveFrame.step hpass
      have hforward : Session.forward rx chunk = .reading rx₁ := by
        simpa [Session.forward] using forward_append hrx h₁ []
      rw [List.map_cons, List.cons_append, Session.run, hread, hforward, Option.bind_some,
        ih hrest ((complete_of_pass h₁).trans hrx) h₂ hmore, Option.map_map]
      rfl

/-- **A request reaches the exchange** as the client wrote it, and the response is handed on. -/
theorem Session.run_request (f : StdFrame) {chunks : List (List UInt8)} (hchunks : [] ∉ chunks)
    (hbytes : chunks.flatten = f.bytes) {resp : List UInt8} (hresp : Proxy.Returnable (.ok resp)) :
    Session.start.run (chunks.map (fun chunk => .read (.ok chunk)) ++ [.exchanged (.ok resp)]) =
      some (.responding resp [], [f.bytes]) := by
  obtain ⟨rx, ⟨s₀, c, rx₀, hs, hpass, hstep, hcomplete⟩, -, hwire, -⟩ := completes_bytes f (g := []) (by simp)
  obtain ⟨out, hout⟩ := consume_returnable hresp
  have hexchanged : Session.step (.exchanging f.bytes []) (.exchanged (.ok resp)) = some (.responding resp []) := by
    simp only [Session.step, Session.onExchanged, hout]
  rw [Session.start, run_pieces hchunks rfl hpass hstep hcomplete (hbytes.trans hs), hwire, Session.run, hexchanged]
  rfl

/-! ### The answer -/

/-- The bytes of a completed frame complete to the same frame. -/
theorem ReceiveFrame.Completes.again {s : List UInt8} {rx : ReceiveFrame} (h : Completes s rx) :
    ∃ rx', Completes rx.wireBytes rx' ∧ SameFrame rx rx' := by
  obtain ⟨g, t, v, -, -, ht, hv, rfl⟩ := h.exists_body
  have hcrc : decide (bodyCrc v = crc16 (bodyContent v)) = true := decide_eq_true hv.crc
  exact ⟨_, completes_body hv ht (g := []) (by simp), ⟨rfl, hcrc⟩, rfl, rfl, rfl, rfl, rfl⟩

namespace Client

variable {cfg : ClientConfig} {frame : List UInt8} {respType : DataType} {pooled : Bool} {env : SyncTry}
  {rx : ReceiveFrame}

/-- A try that receives a frame makes of it what its payload gives. -/
theorem tryExchange_of_receive (hopens : Opens pooled env)
    (hreceive : receive (policy cfg env.start) env.reads = .ok (some (.ok rx))) :
    tryExchange cfg frame respType pooled env =
      (finish respType rx).map fun (pooled, value) => some ⟨pooled, [frame], value⟩ := by
  simp only [tryExchange, hopens.connected, hopens.prepared, hopens.written, hreceive]

end Client

namespace AsyncClient

variable {frame : List UInt8} {respType : DataType} {pooled : Bool} {env : AsyncTry} {rx : ReceiveFrame}

/-- So does one of the asynchronous client. -/
theorem tryExchange_of_receive (hopens : Opens pooled env) (hreceive : receive policy env.reads = .ok (some (.ok rx))) :
    tryExchange frame respType pooled env =
      (finish respType rx).map fun r => some ⟨r.isOk, [frame], r⟩ := by
  have hconnect : (if pooled then .ok () else env.connected : Timed Unit) = .ok () := by
    cases pooled with
    | true => rfl
    | false => exact hopens.connected.resolve_left Bool.false_ne_true
  simp only [tryExchange, hconnect, exchangeOn, hopens.written, hreceive]
  cases finish respType rx <;> rfl

end AsyncClient

/-! ### Both ways -/

section Relay

variable {cfg : ClientConfig} {f : StdFrame} {pooled : Bool} {env : ProxyTry} {out : Outcome (List UInt8)}
  {resp : List UInt8}

/-- **The proxy is transparent.** The proxy has exchanged a request for a response. A client's request
comes to this exchange, and to no other, however it is cut; and a client to which the response is
delivered in time ends its try exactly as one to which the device's own bytes are, up to the end of the
response. -/
theorem relays (h : Proxy.exchange cfg f.bytes pooled env = .ok (some out)) (hresp : out.result = .ok resp) :
    (∀ chunks : List (List UInt8), [] ∉ chunks → chunks.flatten = f.bytes →
      Session.start.run (chunks.map (fun chunk => .read (.ok chunk)) ++ [.exchanged (.ok resp)]) =
        some (.responding resp [], [f.bytes])) ∧
    ∃ g, START_TOKEN ∉ g ∧ g ++ resp <+: ReadEvent.allBytes env.reads ∧
      (∀ cfg' respType pooled₁ pooled₂ env₁ env₂, Client.Opens pooled₁ env₁ → Client.Opens pooled₂ env₂ →
        Delivers (Client.policy cfg' env₁.start) env₁.reads (g ++ resp) →
        Delivers (Client.policy cfg' env₂.start) env₂.reads resp →
        Client.tryExchange cfg' f.bytes respType pooled₂ env₂ =
          Client.tryExchange cfg' f.bytes respType pooled₁ env₁) ∧
      ∀ respType pooled₁ pooled₂ env₁ env₂, AsyncClient.Opens pooled₁ env₁ → AsyncClient.Opens pooled₂ env₂ →
        Delivers AsyncClient.policy env₁.reads (g ++ resp) → Delivers AsyncClient.policy env₂.reads resp →
        AsyncClient.tryExchange f.bytes respType pooled₂ env₂ =
          AsyncClient.tryExchange f.bytes respType pooled₁ env₁ := by
  obtain ⟨rx, ⟨s, rest, hs, hcompletes⟩, rfl⟩ := Proxy.exchange_ok h hresp
  obtain ⟨g, t, v, rfl, hg, ht, hv, hrx⟩ := hcompletes.exists_body
  have hwire : rx.wireBytes = START_TOKEN :: t := by rw [hrx]; rfl
  obtain ⟨rx', hagain, hsame⟩ := hcompletes.again
  rw [← hwire] at hcompletes hs
  refine ⟨fun chunks hchunks hbytes => ?_, g, hg, ⟨rest, hs.symm⟩, ?_, ?_⟩
  · exact Session.run_request f hchunks hbytes (hresp ▸ Proxy.returnable_exchange h)
  · intro cfg' respType pooled₁ pooled₂ env₁ env₂ hopens₁ hopens₂ hdirect hproxied
    have hfinish : Client.finish respType rx' = Client.finish respType rx := by
      simp only [Client.finish, hsame.data]
    rw [Client.tryExchange_of_receive hopens₁ (receive_of_delivers hdirect hcompletes),
      Client.tryExchange_of_receive hopens₂ (receive_of_delivers hproxied hagain), hfinish]
  · intro respType pooled₁ pooled₂ env₁ env₂ hopens₁ hopens₂ hdirect hproxied
    have hfinish : AsyncClient.finish respType rx' = AsyncClient.finish respType rx := by
      simp only [AsyncClient.finish, hsame.data]
    rw [AsyncClient.tryExchange_of_receive hopens₁ (receive_of_delivers hdirect hcompletes),
      AsyncClient.tryExchange_of_receive hopens₂ (receive_of_delivers hproxied hagain), hfinish]

/-- A read of the strategy comes in two pieces; the device sends a byte before its answer. The try of a client that
is sent the answer alone ends as that of one which is sent both. -/
theorem relays_strategy :
    let f : StdFrame := ⟨.read, 0xF168B748, [], by decide, by decide, by decide⟩
    let resp : Response := .ofFrame ⟨.response, 0xF168B748, [0, 0, 0, 4], by decide, by decide, by decide⟩ rfl
    let opening : SyncOpening := ⟨.ok true, .ok (), .ok (), .ok (), .ok (), 0⟩
    Session.start.run [.read (.ok (f.bytes.take 3)), .read (.ok (f.bytes.drop 3)), .exchanged (.ok resp.bytes)] =
      some (.responding resp.bytes [], [f.bytes]) ∧
    Client.tryExchange ⟨5, 1⟩ f.bytes .enum false ⟨opening, [⟨2, .ok resp.bytes⟩]⟩ =
      Client.tryExchange ⟨5, 1⟩ f.bytes .enum false ⟨opening, [⟨1, .ok [0x00]⟩, ⟨3, .ok resp.bytes⟩]⟩ := by
  intro f resp opening
  have hexchange : Proxy.exchange ⟨5, 1⟩ f.bytes false ⟨.ok (), .ok (), 0, [⟨1, .ok (0x00 :: resp.bytes)⟩]⟩ =
      .ok (some ⟨true, [f.bytes], .ok resp.bytes⟩) := by decide +kernel
  obtain ⟨hrequest, g, hg, ⟨rest, hrest⟩, hsync, -⟩ := relays hexchange rfl
  obtain ⟨tail, htail⟩ : ∃ tail, resp.bytes = START_TOKEN :: tail := ⟨resp.bytes.tail, by decide +kernel⟩
  have hgarbage : g = [0x00] := by
    have hall : ReadEvent.allBytes [(⟨1, .ok (0x00 :: resp.bytes)⟩ : ReadEvent (Option IoError))] =
        [0x00] ++ resp.bytes := by simp [ReadEvent.allBytes, ReadEvent.bytes]
    dsimp only at hrest
    rw [hall, htail, List.append_assoc, List.cons_append] at hrest
    rw [eq_of_first hg (by decide) hrest] at hrest
    exact List.append_cancel_right hrest
  subst hgarbage
  have hne : resp.bytes ≠ [] := by rw [htail]; exact List.cons_ne_nil _ _
  have hopens : ∀ reads, Client.Opens false ⟨opening, reads⟩ := fun reads => ⟨rfl, rfl, rfl⟩
  refine ⟨hrequest [f.bytes.take 3, f.bytes.drop 3] (by decide +kernel) (by simp), ?_⟩
  exact hsync ⟨5, 1⟩ .enum false false _ _ (hopens _) (hopens _)
    (.piece rfl rfl (List.cons_ne_nil 0x00 []) (.last [] rfl rfl hne)) (.last [] rfl rfl hne)

end Relay

end RctPower
