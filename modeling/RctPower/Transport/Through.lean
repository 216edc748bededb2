import RctPower.Transport.Agreement
import RctPower.Transport.AsyncState
import RctPower.Transport.Relay

/-!
# Calls through the proxy

The proxy may be put between a client and the device, which then has the proxy for its only client. What
the client gets in a try is what the session hands on of the exchange for its request: the response, or
nothing.

## What is proved

`calls_through`: tries that fail are tries that fail behind the proxy too, with a timeout whatever the
error was. So a call transmits the same and returns the same value, unless the direct one panics: the proxy
does not pass on a panic of its receiver, and the call behind it goes on.
-/

namespace RctPower

open RctPower.Lib.Rust RctPower.Lib.EarlyExit ReceiveFrame

/-! ### What is seen of a call -/

/-- A call that is seen to wait. -/
theorem of_observe_none {α : Type} {call : Checked (Option (Outcome α))} (h : observe call = .ok none) :
    call = .ok none := by
  rcases call with p | (_ | out)
  · cases h
  · rfl
  · cases h

/-- A call that is seen to end. -/
theorem of_observe_some {α : Type} {call : Checked (Option (Outcome α))} {sent : List (List UInt8)}
    {r : Except RctError α} (h : observe call = .ok (some (sent, r))) :
    ∃ out, call = .ok (some out) ∧ out.sent = sent ∧ settled out.result = r := by
  rcases call with p | (_ | out)
  · cases h
  · cases h
  · cases h
    exact ⟨out, rfl, rfl, rfl⟩

/-- **What becomes of a call behind the proxy**: it does not panic, and as far as the direct call gets it gets too,
with the same frames transmitted and the same value, if there is one. -/
structure Through {α : Type} (direct behind : Seen α) : Prop where
  /-- There is no panic. -/
  safe : ∀ p, behind ≠ .error p
  /-- It waits when the direct call does. -/
  waits : direct = .ok none → behind = .ok none
  /-- It ends when the direct call does, with the same value. -/
  returns : ∀ sent r, direct = .ok (some (sent, r)) →
    ∃ r', behind = .ok (some (sent, r')) ∧ ∀ v, r' = .ok v ↔ r = .ok v

namespace Through

variable {α : Type} {direct behind : Seen α}

/-- A direct call that panics asks nothing more. -/
theorem of_panics (p : Panic) (h : ∀ p, behind ≠ .error p) : Through (.error p) behind := ⟨h, nofun, nofun⟩

theorem of_waits : Through (.ok none : Seen α) (.ok none) := ⟨nofun, fun _ => rfl, nofun⟩

theorem of_values (sent : List (List UInt8)) (r : Except RctError α) {r' : Except RctError α}
    (h : ∀ v, r' = .ok v ↔ r = .ok v) :
    Through (.ok (some (sent, r))) (.ok (some (sent, r'))) := by
  refine ⟨nofun, nofun, fun sent' r₀ hout => ?_⟩
  cases hout
  exact ⟨r', rfl, h⟩

/-- Calls that fail have no value. -/
theorem of_errors (sent : List (List UInt8)) (e e' : RctError) :
    Through (.ok (some (sent, .error e)) : Seen α) (.ok (some (sent, .error e'))) :=
  of_values sent _ fun _ => by simp only [reduceCtorEq]

theorem after (h : Through direct behind) (sent : List (List UInt8)) :
    Through (direct.after sent) (behind.after sent) := by
  refine ⟨fun p hp => ?_, fun hnone => ?_, fun sent' r hout => ?_⟩
  · rcases behind with q | _
    · exact h.safe q rfl
    · cases hp
  · rcases direct with q | (_ | out)
    · cases hnone
    · rw [h.waits rfl]
      rfl
    · cases hnone
  · rcases direct with q | (_ | out)
    · cases hout
    · cases hout
    · cases hout
      obtain ⟨r', hbehind, hvalue⟩ := h.returns _ _ rfl
      exact ⟨r', by rw [hbehind]; rfl, hvalue⟩

end Through

/-- A retry loop whose tries go through goes through. -/
theorem attempts_through {α κ κ' : Type} {f : Bool → κ → Checked (Option (Outcome α))}
    {g : Bool → κ' → Checked (Option (Outcome α))} {R : κ → κ' → Prop}
    (hfg : ∀ pooled pooled' env env', R env env' → Through (observe (f pooled env)) (observe (g pooled' env')))
    {envs : List κ} {envs' : List κ'} (henvs : List.Forall₂ R envs envs') (n : ℕ) (e e' : RctError)
    (pooled pooled' : Bool) :
    Through (observe (attempts f n e pooled envs)) (observe (attempts g n e' pooled' envs')) := by
  induction n generalizing envs envs' e e' pooled pooled' with
  | zero => exact .of_errors _ _ _
  | succ n ih =>
    cases henvs with
    | nil => exact .of_waits
    | @cons env env' envs envs' henv henvs =>
      rw [observe_attempts, observe_attempts]
      have htry := hfg pooled pooled' env env' henv
      rcases hx : f pooled env with p | (_ | out)
      · -- the direct loop panics, and the other one goes on
        refine .of_panics p fun q => ?_
        rcases hy : g pooled' env' with p' | (_ | out')
        · exact absurd (by rw [hy]; rfl) (htry.safe p')
        · nofun
        dsimp only
        cases out'.result with
        | ok v => nofun
        | error err => exact ((ih henvs e err pooled out'.pooled).after out'.sent).safe q
      · have hy : g pooled' env' = .ok none := of_observe_none (htry.waits (by rw [hx]; rfl))
        rw [hy]
        exact .of_waits
      · obtain ⟨r', hseen, hvalue⟩ := htry.returns out.sent (settled out.result) (by rw [hx]; rfl)
        obtain ⟨out', hy, hsent, rfl⟩ := of_observe_some hseen
        rw [hy]
        dsimp only
        obtain ⟨v, hv, hv'⟩ | ⟨err, err', herr, herr'⟩ := values_cases hvalue
        · rw [hv, hv', hsent]
          exact .of_values _ _ fun w => Iff.rfl
        · rw [herr, herr', hsent]
          exact (ih henvs err err' out.pooled out'.pooled).after out.sent

/-! ### What is passed on -/

/-- The bytes of a frame are the verdict on themselves, with whatever after them. -/
theorem verdict_of_completes {s : List UInt8} {rx : ReceiveFrame} (h : ReceiveFrame.Completes s rx) (rest : List UInt8)
    (ending : RctError) : verdict ⟨s ++ rest, ending⟩ = .ok (.ok rx) := by
  obtain ⟨s₀, c, rx₀, rfl, hpass, hstep, hcomplete⟩ := h
  rw [verdict, List.append_assoc, List.singleton_append, consume_stop hpass hstep]
  simp [Except.map, outcome, hcomplete]

/-- A frame that is the verdict on a stream is its first one. -/
theorem firstComplete_of_verdict {stream : Stream} {rx : ReceiveFrame} (h : verdict stream = .ok (.ok rx)) :
    FirstComplete stream.bytes rx := by
  rw [verdict] at h
  obtain ⟨⟨t, r⟩, hconsume, hout⟩ := of_map_eq_ok h
  cases r with
  | error e => cases hout
  | ok n =>
    simp only [outcome] at hout
    split_ifs at hout with ht
    · obtain rfl : t = rx := Except.ok.inj hout
      rcases consume_ok hconsume with hpass | ⟨a, c, b, rx₁, hcut, hpass, hstep, -⟩
      · -- passing does not complete
        rw [complete_of_pass hpass] at ht
        cases ht
      · exact ⟨a ++ [c], b, by simp [hcut], a, c, rx₁, rfl, hpass, hstep, ht⟩
    · cases hout

/-- What comes to a client behind the proxy in a try: the response that the exchange returns, or nothing. -/
def Proxy.relayed (call : Checked (Option (Outcome (List UInt8)))) : List UInt8 :=
  match call with
  | .ok (some ⟨_, _, .ok resp⟩) => resp
  | _ => []

/-- A task that is handed a request hands on what is relayed. -/
theorem Session.run_relayed (f : StdFrame) {chunks : List (List UInt8)} (hchunks : [] ∉ chunks)
    (hbytes : chunks.flatten = f.bytes) {cfg : ClientConfig} {pooled : Bool} {env : ProxyTry}
    {out : Outcome (List UInt8)} (h : Proxy.exchange cfg f.bytes pooled env = .ok (some out)) :
    ∃ task, Session.start.run (chunks.map (fun chunk => .read (.ok chunk)) ++ [.exchanged out.result]) =
      some (task, [f.bytes]) ∧ task.handed.flatten = Proxy.relayed (.ok (some out)) := by
  obtain ⟨pooled', sent, r⟩ := out
  cases r with
  | ok resp =>
    refine ⟨_, run_request f hchunks hbytes (Proxy.returnable_exchange h), ?_⟩
    simp [handed, Proxy.relayed]
  | error e =>
    obtain ⟨rx, ⟨s₀, c, rx₀, hs, hpass, hstep, hcomplete⟩, -, hwire, -⟩ := completes_bytes f (g := []) (by simp)
    refine ⟨.reading (.new false), ?_, rfl⟩
    rw [Session.start, run_pieces hchunks rfl hpass hstep hcomplete (hbytes.trans hs), hwire]
    rfl

/-- **A try behind the proxy** gives the value that a direct one gives, or fails. -/
theorem Reference.tryExchange_through (frame : List UInt8) (respType : DataType) (pooled pooled' : Bool)
    {cfg : ClientConfig} {env : ProxyTry} {stream : Stream} (request : List UInt8) (upstream : Bool)
    (h : Proxy.Receives cfg env stream) :
    Through (observe (tryExchange frame respType pooled stream))
      (observe (tryExchange frame respType pooled'
        ⟨Proxy.relayed (Proxy.exchange cfg request upstream env), .timeout⟩)) := by
  obtain ⟨p, hexchange, hverdict⟩ | ⟨e, hexchange, hverdict⟩ | ⟨rx, hexchange, hverdict⟩ :=
      Proxy.exchange_cases request upstream h
  · -- the exchange panics: the session dies, and its client reads nothing
    rw [hexchange, tryExchange, hverdict]
    exact .of_panics p fun q hq => by cases hq
  · rw [hexchange, tryExchange, hverdict]
    exact .of_errors _ _ _
  · obtain ⟨s, rest, -, hcompletes⟩ := firstComplete_of_verdict hverdict
    obtain ⟨rx', hagain, hsame⟩ := hcompletes.again
    have hrelayed : verdict ⟨rx.wireBytes, .timeout⟩ = .ok (.ok rx') := by
      simpa using verdict_of_completes hagain [] .timeout
    have hfinish : AsyncClient.finish respType rx' = AsyncClient.finish respType rx := by
      simp only [AsyncClient.finish, hsame.data]
    obtain ⟨r, hr⟩ := AsyncState.finish_checked respType rx
    simp only [hexchange, Proxy.relayed, tryExchange, hverdict, hrelayed, hfinish, hr, Except.map]
    exact .of_values _ _ fun v => Iff.rfl

/-! ### Calls -/

section Behind

variable {cfg pcfg : ClientConfig} {proxies : List (Bool × ProxyTry)} {streams : List Stream}

/-- **Calls go through the proxy.** In each try of a call the device sends a stream: either to the client itself, or
to the proxy, in the exchange for the client's frame, of which the client then gets what its session hands on. The
call behind the proxy never panics. Unless the direct one does, it transmits what that transmits and returns a value
exactly when that does, and the same one, for both clients and whatever the pools hold. -/
theorem calls_through (f : StdFrame) (respType : DataType)
    (hproxies : List.Forall₂ (fun proxy stream => Proxy.Receives pcfg proxy.2 stream) proxies streams) :
    (∀ proxy ∈ proxies, ∀ out, Proxy.exchange pcfg f.bytes proxy.1 proxy.2 = .ok (some out) →
      ∀ chunks : List (List UInt8), [] ∉ chunks → chunks.flatten = f.bytes →
        ∃ task, Session.start.run (chunks.map (fun chunk => .read (.ok chunk)) ++ [.exchanged out.result]) =
          some (task, [f.bytes]) ∧ task.handed.flatten = Proxy.relayed (.ok (some out))) ∧
    (∀ pooled pooled' direct behind, List.Forall₂ (Client.Receives cfg) direct streams →
      List.Forall₂ (fun env proxy => Client.Receives cfg env
        ⟨Proxy.relayed (Proxy.exchange pcfg f.bytes proxy.1 proxy.2), .timeout⟩) behind proxies →
      Through (observe (Client.exchange cfg f.bytes respType pooled direct))
        (observe (Client.exchange cfg f.bytes respType pooled' behind))) ∧
    ∀ pooled pooled' direct behind, List.Forall₂ AsyncClient.Receives direct streams →
      List.Forall₂ (fun env proxy => AsyncClient.Receives env
        ⟨Proxy.relayed (Proxy.exchange pcfg f.bytes proxy.1 proxy.2), .timeout⟩) behind proxies →
      Through (observe (AsyncClient.exchange cfg f.bytes respType pooled direct))
        (observe (AsyncClient.exchange cfg f.bytes respType pooled' behind)) := by
  let relayed (proxy : Bool × ProxyTry) : Stream :=
    ⟨Proxy.relayed (Proxy.exchange pcfg f.bytes proxy.1 proxy.2), .timeout⟩
  -- both ways as reference calls
  have hthrough : Through (observe (Reference.exchange cfg f.bytes respType streams))
      (observe (Reference.exchange cfg f.bytes respType (proxies.map relayed))) := by
    have hrelated : List.Forall₂ (fun stream stream' => ∃ proxy : Bool × ProxyTry,
        Proxy.Receives pcfg proxy.2 stream ∧ stream' = relayed proxy) streams (proxies.map relayed) :=
      List.forall₂_map_right_iff.mpr (hproxies.flip.imp fun _ proxy h => ⟨proxy, h, rfl⟩)
    refine attempts_through ?_ hrelated _ _ _ _ _
    rintro pooled pooled' stream _ ⟨proxy, hreceives, rfl⟩
    exact Reference.tryExchange_through f.bytes respType pooled pooled' f.bytes proxy.1 hreceives
  refine ⟨fun proxy _ out hout chunks hchunks hbytes => Session.run_relayed f hchunks hbytes hout, ?_, ?_⟩
  · intro pooled pooled' direct behind hdirect hbehind
    rw [Client.exchange_agrees f.bytes respType pooled hdirect,
      Client.exchange_agrees f.bytes respType pooled' (List.forall₂_map_right_iff.mpr hbehind)]
    exact hthrough
  · intro pooled pooled' direct behind hdirect hbehind
    rw [AsyncClient.exchange_agrees cfg f.bytes respType pooled hdirect,
      AsyncClient.exchange_agrees cfg f.bytes respType pooled' (List.forall₂_map_right_iff.mpr hbehind)]
    exact hthrough

/-- A wrong command byte, and then the value. The proxy passes nothing on, and then the response. -/
theorem calls_through_soc :
    let f : StdFrame := ⟨.read, 0x959930BF, [], by decide, by decide, by decide⟩
    let resp : Response := .ofFrame ⟨.response, 0x959930BF, [0x3f, 0, 0, 0], by decide, by decide, by decide⟩ rfl
    let opening : SyncOpening := ⟨.ok true, .ok (), .ok (), .ok (), .ok (), 0⟩
    Through
      (observe (Client.exchange ⟨5, 2⟩ f.bytes .float false
        [⟨opening, [⟨0, .ok [0x2b, 0xff]⟩, ⟨6, .ok []⟩]⟩, ⟨opening, [⟨3, .ok resp.bytes⟩, ⟨3, .ok []⟩]⟩]))
      (observe (Client.exchange ⟨5, 2⟩ f.bytes .float false
        [⟨opening, [⟨6, .ok []⟩]⟩, ⟨opening, [⟨4, .ok resp.bytes⟩, ⟨4, .ok []⟩]⟩])) := by
  intro f resp opening
  have hne : resp.bytes ≠ [] := by decide +kernel
  have hproxies : List.Forall₂ (fun proxy stream => Proxy.Receives ⟨5, 1⟩ proxy.2 stream)
      [(false, ⟨.ok (), .ok (), 0, [⟨1, .ok [0x2b, 0xff]⟩, ⟨6, .ok []⟩]⟩),
        (true, ⟨.ok (), .ok (), 2, [⟨3, .ok resp.bytes⟩, ⟨4, .ok []⟩]⟩)]
      [⟨[0x2b, 0xff], .timeout⟩, ⟨resp.bytes, .timeout⟩] :=
    .cons ⟨rfl, rfl, .one [] rfl rfl (List.cons_ne_nil _ _) (by decide)⟩
      (.cons ⟨rfl, rfl, .one [] rfl rfl hne (by decide)⟩ .nil)
  refine (calls_through f .float hproxies).2.1 false false _ _ ?_ ?_
  · exact .cons ⟨⟨rfl, rfl, rfl⟩, .one [] rfl rfl (List.cons_ne_nil _ _) (by decide)⟩
      (.cons ⟨⟨rfl, rfl, rfl⟩, .one [] rfl rfl hne (by decide)⟩ .nil)
  · have hfirst : Proxy.relayed (Proxy.exchange ⟨5, 1⟩ f.bytes false
        ⟨.ok (), .ok (), 0, [⟨1, .ok [0x2b, 0xff]⟩, ⟨6, .ok []⟩]⟩) = [] := by decide +kernel
    have hsecond : Proxy.relayed (Proxy.exchange ⟨5, 1⟩ f.bytes true
        ⟨.ok (), .ok (), 2, [⟨3, .ok resp.bytes⟩, ⟨4, .ok []⟩]⟩) = resp.bytes := by decide +kernel
    refine .cons ⟨⟨rfl, rfl, rfl⟩, ?_⟩ (.cons ⟨⟨rfl, rfl, rfl⟩, ?_⟩ .nil)
    · rw [hfirst]
      exact .silence [] (by decide)
    · rw [hsecond]
      exact .one [] rfl rfl hne (by decide)

end Behind

end RctPower
