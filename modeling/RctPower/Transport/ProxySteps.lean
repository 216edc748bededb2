import RctPower.Transport.ProxyState

/-!
# What one event does to the proxy

`ProxyState.step` by its outcomes, one constructor of `Steps` for each: a task goes on with its client,
a task gets the lock, the exchange that holds the lock waits for something else, it ends with a result,
or it dies of a panic. `Ends` are the ways in which an exchange ends.
-/

namespace RctPower

open RctPower.Lib.Rust RctPower.Lib.EarlyExit

/-- The session and the number of a request. -/
def Forwarded.key (req : Forwarded) : ℕ × ℕ := (req.session, req.number)

namespace ProxyState

/-- An exchange that waits for something ends with a result. -/
inductive Ends (cfg : ClientConfig) : Exchanging → ProxyEvent → Except RctError (List UInt8) → Prop where
  /-- There is no connection. -/
  | unconnected (e : IoError) : Ends cfg .connecting (.connected (.error e)) (.error (.io e))
  /-- The request is not written. -/
  | unwritten (e : Option IoError) (start : ℕ) : Ends cfg .writing (.wrote (.error e) start) (.error (timedError e))
  /-- The receive loop returns. -/
  | returned {start : ℕ} {rx rx' : ReceiveFrame} {turn : ReadEvent (Option IoError)} {r : Except RctError Unit}
    (returns : readOnce (Proxy.policy cfg start) rx turn = .ret rx' r) :
    Ends cfg (.receiving start rx) (.received turn) (r.map fun _ => rx'.wireBytes)

/-- What an exchange ends with can be returned, if its parser has passed what it was given. -/
theorem Ends.returnable {cfg : ClientConfig} {up : Exchanging} {ev : ProxyEvent} {r : Except RctError (List UInt8)}
    (h : Ends cfg up ev r)
    (hup : ∀ start rx, up = .receiving start rx → ∃ taken, passed ReceiveFrame.step (.new false) taken = some rx) :
    Proxy.Returnable r := by
  cases h with
  | unconnected e => exact nofun
  | unwritten e start => exact nofun
  | @returned start rx rx' turn r hret =>
    intro resp hresp
    obtain ⟨taken, hpass⟩ := hup start rx rfl
    cases r with
    | error e => cases hresp
    | ok u =>
      obtain rfl : rx'.wireBytes = resp := by simpa [Except.map] using hresp
      exact ⟨_, rx', readOnce_ok hpass hret, rfl⟩

/-- What an event does. -/
inductive Steps (cfg : ClientConfig) (p : ProxyState) : ProxyEvent → ProxyState → Prop where
  /-- A task has read. -/
  | read {s : ℕ} {got : Except IoError (List UInt8)} {task : Session}
    (reads : (p.sessions s).step (.read got) = some task) :
    Steps cfg p (.read s got) { p with sessions := Function.update p.sessions s task }
  /-- A task has written. -/
  | written {s : ℕ} {r : Except IoError Unit} {task : Session}
    (writes : (p.sessions s).step (.written r) = some task) :
    Steps cfg p (.written s r) { p with sessions := Function.update p.sessions s task }
  /-- A task gets the lock. -/
  | locked {s : ℕ} {wire rest : List UInt8} (free : p.holder = none)
    (waits : p.sessions s = .exchanging wire rest) :
    Steps cfg p (.locked s) { p with
      requests := Function.update p.requests s (p.requests s + 1)
      holder := some (⟨s, p.requests s, wire⟩, if p.pool.isNone then .connecting else .writing) }
  /-- There is a new connection. -/
  | connected {req : Forwarded} (holds : p.holder = some (req, .connecting)) :
    Steps cfg p (.connected (.ok ())) { p with holder := some (req, .writing), pool := some p.made, made := p.made + 1 }
  /-- The request has been written. -/
  | wrote {req : Forwarded} (start : ℕ) (holds : p.holder = some (req, .writing)) :
    Steps cfg p (.wrote (.ok ()) start) { p with holder := some (req, .receiving start (.new false)) }
  /-- The receive loop goes on. -/
  | received {req : Forwarded} {start : ℕ} {rx rx' : ReceiveFrame} {turn : ReadEvent (Option IoError)}
    (holds : p.holder = some (req, .receiving start rx))
    (goes : readOnce (Proxy.policy cfg start) rx turn = .next rx') :
    Steps cfg p (.received turn) { p with holder := some (req, .receiving start rx') }
  /-- The exchange ends. -/
  | finished {req : Forwarded} {up : Exchanging} {ev : ProxyEvent} {r : Except RctError (List UInt8)} {p' : ProxyState}
    (holds : p.holder = some (req, up)) (ends : Ends cfg up ev r) (finish : p.finish req r = some p') :
    Steps cfg p ev p'
  /-- The task of the exchange dies. -/
  | panicked {req : Forwarded} {start : ℕ} {rx : ReceiveFrame} {turn : ReadEvent (Option IoError)} {e : Panic}
    (holds : p.holder = some (req, .receiving start rx))
    (dies : readOnce (Proxy.policy cfg start) rx turn = .panics e) :
    Steps cfg p (.received turn)
      { p with holder := none, sessions := Function.update p.sessions req.session .panicked }

variable {cfg : ClientConfig} {p p' : ProxyState} {ev : ProxyEvent}

/-- **What one event does.** -/
theorem steps_of_step (h : p.step cfg ev = some p') : Steps cfg p ev p' := by
  cases ev with
  | read s got =>
    obtain ⟨task, htask, rfl⟩ := Option.map_eq_some_iff.mp h
    exact .read htask
  | written s r =>
    obtain ⟨task, htask, rfl⟩ := Option.map_eq_some_iff.mp h
    exact .written htask
  | locked s =>
    obtain ⟨wire, rest, hfree, hwaits, rfl⟩ := of_onLocked h
    exact .locked hfree hwaits
  | connected r =>
    obtain ⟨req, hholder, ⟨e, rfl, hfinish⟩ | ⟨rfl, rfl⟩⟩ := of_onConnected h
    · exact .finished hholder (.unconnected e) hfinish
    · exact .connected hholder
  | wrote r start =>
    obtain ⟨req, hholder, ⟨e, rfl, hfinish⟩ | ⟨rfl, rfl⟩⟩ := of_onWrote h
    · exact .finished hholder (.unwritten e start) hfinish
    · exact .wrote start hholder
  | received turn =>
    obtain ⟨req, start, rx, hholder, ⟨rx', hnext, rfl⟩ | ⟨rx', r, hret, hfinish⟩ | ⟨e, hpanics, rfl⟩⟩ :=
      of_onReceived h
    · exact .received hholder hnext
    · exact .finished hholder (.returned hret) hfinish
    · exact .panicked hholder hpanics

/-- A request is written when its exchange waits for that. -/
theorem Steps.writing {r : Timed Unit} {start : ℕ} (h : Steps cfg p (.wrote r start) p') :
    ∃ req, p.holder = some (req, .writing) := by
  cases h with
  | wrote start hholds => exact ⟨_, hholds⟩
  | finished hholds hends _ =>
    cases hends
    exact ⟨_, hholds⟩

end ProxyState

end RctPower
