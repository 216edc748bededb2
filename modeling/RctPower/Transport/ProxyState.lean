import RctPower.Lib.Machine
import RctPower.Transport.Session

/-!
# The proxy's tasks and their lock

The proxy as a whole (`proxy.rs`): any number of downstream sessions, each a task of
`serve_client`, and one upstream connection that they share under a lock. A task that has a
request waits for the lock, holds it during the exchange, and no longer.

A `ProxyState` is the state of the tasks, of the lock and of the pool. Events are the ends of
waits, in any order: of a task for its client or for the lock, and of the exchange that holds
the lock for a connect, a write or a read. What the peers do has no part in it: a read can
give any bytes, and every operation can fail at any time. Connections are numbered in the
order in which they are made, and the requests of a session in the order in which they are
forwarded; `written s` are the responses that session `s` has been given, each with the number
of the request that it was then serving.

## What is proved

* `run_exchange`: the exchange that holds the lock, taken event by event, is `Proxy.exchange`.
* `Numbered.step`: a session is given at most one response to a request, in the order of
  the requests, and an exchange can always return to the task that called it
  (`Current.exists_finish`).
-/

namespace RctPower

open RctPower.Lib.Rust RctPower.Lib.EarlyExit RctPower.Lib.Machine

/-- A request that is forwarded. -/
structure Forwarded where
  /-- The session it comes from. -/
  session : ℕ
  /-- Its number among the requests of the session. -/
  number : ℕ
  /-- Its bytes. -/
  wire : List UInt8
  deriving DecidableEq

/-- An exchange that holds the lock, by what it waits for. -/
inductive Exchanging where
  /-- For a connection. -/
  | connecting
  /-- For the request to be written. -/
  | writing
  /-- For the response, since the clock was `start`. -/
  | receiving (start : ℕ) (rx : ReceiveFrame)
  deriving DecidableEq

/-- The tasks, the lock and the pool. -/
structure ProxyState where
  /-- The tasks. -/
  sessions : ℕ → Session
  /-- How many requests of a session have been forwarded. -/
  requests : ℕ → ℕ
  /-- The exchange that holds the lock. -/
  holder : Option (Forwarded × Exchanging)
  /-- The pooled connection. -/
  pool : Option ℕ
  /-- The number of connections made. -/
  made : ℕ
  /-- The responses handed to a session's client, in order. -/
  written : ℕ → List (ℕ × List UInt8)

/-- The end of a wait. -/
inductive ProxyEvent where
  /-- A read from a client returns. -/
  | read (s : ℕ) (got : Except IoError (List UInt8))
  /-- A write to a client returns. -/
  | written (s : ℕ) (r : Except IoError Unit)
  /-- A task gets the lock. -/
  | locked (s : ℕ)
  /-- `TcpStream::connect` returns. -/
  | connected (r : Except IoError Unit)
  /-- `write_all` returns; the clock after it. -/
  | wrote (r : Timed Unit) (start : ℕ)
  /-- A turn of the receive loop. It can have more bytes than the buffer of `exchange_on`; `FitsBuffer` is
  about those that fit. -/
  | received (ev : ReadEvent (Option IoError))

namespace ProxyState

/-- Before the first event. -/
def start : ProxyState := ⟨fun _ => .start, fun _ => 0, none, none, 0, fun _ => []⟩

/-- The exchange returns: the lock is free, and after an error so is the pool. The task goes on,
and writes what it has been given. -/
def finish (p : ProxyState) (req : Forwarded) (r : Except RctError (List UInt8)) : Option ProxyState :=
  ((p.sessions req.session).step (.exchanged r)).map fun task =>
    { p with
      sessions := Function.update p.sessions req.session task
      holder := none
      -- unknown state: reconnect on next request
      pool := if r.isOk then p.pool else none
      written := Function.update p.written req.session
        (p.written req.session ++ task.handed.map fun resp => (req.number, resp)) }

/-- A wait of a task for its client ends. -/
def onSession (p : ProxyState) (s : ℕ) (ev : SessionEvent) : Option ProxyState :=
  ((p.sessions s).step ev).map fun task => { p with sessions := Function.update p.sessions s task }

/-- A task that has a request gets the lock. -/
def onLocked (p : ProxyState) (s : ℕ) : Option ProxyState :=
  match p.holder, p.sessions s with
  | none, .exchanging wire _ =>
    some { p with
      requests := Function.update p.requests s (p.requests s + 1)
      holder := some (⟨s, p.requests s, wire⟩, if p.pool.isNone then .connecting else .writing) }
  | _, _ => none

/-- A connect returns. -/
def onConnected (p : ProxyState) (r : Except IoError Unit) : Option ProxyState :=
  match p.holder with
  | some (req, .connecting) =>
    match r with
    | .error e => p.finish req (.error (.io e))
    | .ok () => some { p with holder := some (req, .writing), pool := some p.made, made := p.made + 1 }
  | _ => none

/-- The write of the request returns. -/
def onWrote (p : ProxyState) (r : Timed Unit) (start : ℕ) : Option ProxyState :=
  match p.holder with
  | some (req, .writing) =>
    match r with
    | .error e => p.finish req (.error (timedError e))
    | .ok () => some { p with holder := some (req, .receiving start (.new false)) }
  | _ => none

/-- A turn of the receive loop. -/
def onReceived (cfg : ClientConfig) (p : ProxyState) (ev : ReadEvent (Option IoError)) : Option ProxyState :=
  match p.holder with
  | some (req, .receiving start rx) =>
    match readOnce (Proxy.policy cfg start) rx ev with
    | .next rx' => some { p with holder := some (req, .receiving start rx') }
    | .ret rx' r => p.finish req (r.map fun _ => rx'.wireBytes)
    -- the task dies, and the lock is released as it is
    | .panics _ => some { p with holder := none, sessions := Function.update p.sessions req.session .panicked }
  | _ => none

/-- One event, if it can happen. -/
def step (cfg : ClientConfig) (p : ProxyState) : ProxyEvent → Option ProxyState
  | .read s got => p.onSession s (.read got)
  | .written s r => p.onSession s (.written r)
  | .locked s => p.onLocked s
  | .connected r => p.onConnected r
  | .wrote r start => p.onWrote r start
  | .received ev => p.onReceived cfg ev

variable {cfg : ClientConfig} {p p' : ProxyState} {req : Forwarded} {up : Exchanging}

/-! ### What the end of an exchange does -/

/-- A task hands on what its exchange returns, if that is a response. -/
theorem handed_of_exchanged {task task' : Session} {r : Except RctError (List UInt8)}
    (h : task.step (.exchanged r) = some task') :
    task'.handed = [] ∨ ∃ resp, r = .ok resp ∧ task'.handed = [resp] := by
  cases task with
  | exchanging wire rest =>
    obtain rfl : Session.onExchanged rest r = task' := by simpa [Session.step] using h
    cases r with
    | error e => exact .inl (Session.handed_forward _ _)
    | ok resp =>
      unfold Session.onExchanged
      dsimp only
      split
      · exact .inl rfl
      · exact .inr ⟨resp, rfl, rfl⟩
  | _ => cases h

/-- **What the end of an exchange does**: the lock is free, the connection stays in the pool after
a response and only then, and what has been written is what was, or that and the response. -/
theorem of_finish {r : Except RctError (List UInt8)} (h : p.finish req r = some p') :
    p'.holder = none ∧ p'.requests = p.requests ∧ (p'.pool = if r.isOk then p.pool else none) ∧
      (p'.written = p.written ∨
        ∃ resp, r = .ok resp ∧
          p'.written = Function.update p.written req.session (p.written req.session ++ [(req.number, resp)])) := by
  obtain ⟨task, htask, rfl⟩ := Option.map_eq_some_iff.mp h
  refine ⟨rfl, rfl, rfl, ?_⟩
  rcases handed_of_exchanged htask with hnone | ⟨resp, hr, hsome⟩
  · exact .inl (by simp [hnone])
  · exact .inr ⟨resp, hr, by simp [hsome]⟩

/-! ### What the other events do -/

theorem of_onLocked {s : ℕ} (h : p.onLocked s = some p') :
    ∃ wire rest, p.holder = none ∧ p.sessions s = .exchanging wire rest ∧ p' = { p with
      requests := Function.update p.requests s (p.requests s + 1)
      holder := some (⟨s, p.requests s, wire⟩, if p.pool.isNone then .connecting else .writing) } := by
  rw [onLocked] at h
  split at h
  · next wire rest hholder htask =>
    cases h
    exact ⟨wire, rest, hholder, htask, rfl⟩
  · cases h

theorem of_onConnected {r : Except IoError Unit} (h : p.onConnected r = some p') :
    ∃ req, p.holder = some (req, .connecting) ∧
      ((∃ e, r = .error e ∧ p.finish req (.error (.io e)) = some p') ∨
        r = .ok () ∧ p' = { p with holder := some (req, .writing), pool := some p.made, made := p.made + 1 }) := by
  rw [onConnected] at h
  split at h
  · next req hholder =>
    refine ⟨req, hholder, ?_⟩
    cases r with
    | error e => exact .inl ⟨e, rfl, h⟩
    | ok u => exact .inr ⟨rfl, (Option.some.inj h).symm⟩
  · cases h

theorem of_onWrote {r : Timed Unit} {start : ℕ} (h : p.onWrote r start = some p') :
    ∃ req, p.holder = some (req, .writing) ∧
      ((∃ e, r = .error e ∧ p.finish req (.error (timedError e)) = some p') ∨
        r = .ok () ∧ p' = { p with holder := some (req, .receiving start (.new false)) }) := by
  rw [onWrote] at h
  split at h
  · next req hholder =>
    refine ⟨req, hholder, ?_⟩
    cases r with
    | error e => exact .inl ⟨e, rfl, h⟩
    | ok u => exact .inr ⟨rfl, (Option.some.inj h).symm⟩
  · cases h

theorem of_onReceived {ev : ReadEvent (Option IoError)} (h : p.onReceived cfg ev = some p') :
    ∃ req start rx, p.holder = some (req, .receiving start rx) ∧
      ((∃ rx', readOnce (Proxy.policy cfg start) rx ev = .next rx' ∧
          p' = { p with holder := some (req, .receiving start rx') }) ∨
        (∃ rx' r, readOnce (Proxy.policy cfg start) rx ev = .ret rx' r ∧
          p.finish req (r.map fun _ => rx'.wireBytes) = some p') ∨
        ∃ e, readOnce (Proxy.policy cfg start) rx ev = .panics e ∧
          p' = { p with holder := none, sessions := Function.update p.sessions req.session .panicked }) := by
  rw [onReceived] at h
  split at h
  · next req start rx hholder =>
    refine ⟨req, start, rx, hholder, ?_⟩
    split at h
    · next rx' hread => exact .inl ⟨rx', hread, (Option.some.inj h).symm⟩
    · next rx' r hread => exact .inr (.inl ⟨rx', r, hread, h⟩)
    · next e hread => exact .inr (.inr ⟨e, hread, (Option.some.inj h).symm⟩)
  · cases h

/-! ### The exchange as a whole -/

/-- The events of one exchange. -/
def exchangeEvents (pooled : Bool) (env : ProxyTry) : List ProxyEvent :=
  (if pooled then [] else [.connected env.connected]) ++ .wrote env.written env.start :: env.reads.map .received

/-- The exchange has returned `r` to its task, which has `rest` left to do. -/
def HasReturned (p : ProxyState) (s : ℕ) (rest : List UInt8) (r : Except RctError (List UInt8))
    (pooled : Bool) : Prop :=
  p.holder = none ∧ p.sessions s = Session.onExchanged rest r ∧ p.pool.isSome = pooled

theorem finish_exchanging {rest : List UInt8} (htask : p.sessions req.session = .exchanging req.wire rest)
    (r : Except RctError (List UInt8)) :
    ∃ p', p.finish req r = some p' ∧ p'.HasReturned req.session rest r (r.isOk && p.pool.isSome) := by
  rw [finish]
  rw [htask]
  refine ⟨_, rfl, rfl, Function.update_self .., ?_⟩
  cases r <;> rfl

/-- Turns that all go on. -/
theorem run_received (p : ProxyState) (req : Forwarded) {start : ℕ} {rx rx' : ReceiveFrame}
    {evs : List (ReadEvent (Option IoError))}
    (h : passed (readOnce (Proxy.policy cfg start)) rx evs = some rx') :
    run (step cfg) { p with holder := some (req, .receiving start rx) } (evs.map .received) =
      some { p with holder := some (req, .receiving start rx') } := by
  refine run_of_pass (fun rx => { p with holder := some (req, .receiving start rx) }) ?_ h
  intro rx ev rx' hev
  simp only [step, onReceived, hev]

/-- The exchange on a connection, event by event. -/
theorem run_exchangeOn {env : ProxyTry} {rest : List UInt8} {r : Except RctError (List UInt8)}
    (htask : p.sessions req.session = .exchanging req.wire rest) (hholder : p.holder = some (req, .writing))
    (h : Proxy.exchangeOn cfg env = .ok (some r)) :
    ∃ evs p', evs <+: .wrote env.written env.start :: env.reads.map .received ∧ run (step cfg) p evs = some p' ∧
      p'.HasReturned req.session rest r (r.isOk && p.pool.isSome) := by
  cases Proxy.exchangeEnds_of_ok h with
  | @unwritten e hwritten =>
    obtain ⟨p', hfinish, hreturned⟩ := finish_exchanging htask (.error (timedError e))
    refine ⟨[.wrote env.written env.start], p', by simp, ?_, hreturned⟩
    simp only [run, step, onWrote, hholder, hwritten, hfinish, Option.bind_some]
  | received hwritten hreceived =>
    obtain ⟨before, ev, after, rx, rx', r, hreads, hbefore, hev, rfl⟩ := receive_stop hreceived
    have hwrote : p.step cfg (.wrote env.written env.start) =
        some { p with holder := some (req, .receiving env.start (.new false)) } := by
      simp only [step, onWrote, hholder, hwritten]
    have hrun := run_received p req hbefore
    have hmap : (r.map fun _ => rx').map ReceiveFrame.wireBytes = r.map fun _ => rx'.wireBytes := by
      cases r <;> rfl
    rw [hmap]
    obtain ⟨p', hfinish, hreturned⟩ :=
      finish_exchanging (p := { p with holder := some (req, .receiving env.start rx) }) htask
        (r.map fun _ => rx'.wireBytes)
    refine ⟨.wrote env.written env.start :: (before.map .received ++ [.received ev]), p', ?_, ?_, hreturned⟩
    · rw [hreads]
      exact ⟨after.map .received, by simp⟩
    · rw [run, hwrote, Option.bind_some, run_append, hrun, Option.bind_some]
      simp only [run, step, onReceived, hev, hfinish, Option.bind_some]

/-- **The exchange that holds the lock is `Proxy.exchange`**: its events, as far as it needs them,
return to its task what `Proxy.exchange` returns, and leave in the pool what that leaves. -/
theorem run_exchange {env : ProxyTry} {rest : List UInt8} {out : Outcome (List UInt8)}
    (htask : p.sessions req.session = .exchanging req.wire rest)
    (hholder : p.holder = some (req, if p.pool.isNone then .connecting else .writing))
    (h : Proxy.exchange cfg req.wire p.pool.isSome env = .ok (some out)) :
    ∃ evs p', evs <+: exchangeEvents p.pool.isSome env ∧ run (step cfg) p evs = some p' ∧
      p'.HasReturned req.session rest out.result out.pooled := by
  cases Proxy.ends_of_ok h with
  | @unconnected e hpool hconnected =>
    rw [Option.isSome_eq_false_iff, Option.isNone_iff_eq_none] at hpool
    simp only [hpool, Option.isNone_none, if_true] at hholder
    obtain ⟨p', hfinish, holder, htask', hpool'⟩ := finish_exchanging htask (.error (.io e))
    refine ⟨[.connected env.connected], p', by simp [exchangeEvents, hpool], ?_, holder, htask', hpool'⟩
    simp only [run, step, onConnected, hholder, hconnected, hfinish, Option.bind_some]
  | @exchanged r hconnected hexchanged =>
    cases hpool : p.pool with
    | some n =>
      simp only [hpool, Option.isNone_some, Bool.false_eq_true, if_false] at hholder
      obtain ⟨evs, p', hevs, hrun, hreturned⟩ := run_exchangeOn htask hholder hexchanged
      rw [hpool, Option.isSome_some, Bool.and_true] at hreturned
      exact ⟨evs, p', hevs, hrun, hreturned⟩
    | none =>
      simp only [hpool, Option.isNone_none, if_true] at hholder
      have hconnected : env.connected = .ok () := hconnected.resolve_left (by simp [hpool])
      have hstep : p.step cfg (.connected env.connected) =
          some { p with holder := some (req, .writing), pool := some p.made, made := p.made + 1 } := by
        simp only [step, onConnected, hholder, hconnected]
      obtain ⟨evs, p', hevs, hrun, hreturned⟩ := run_exchangeOn
        (p := { p with holder := some (req, .writing), pool := some p.made, made := p.made + 1 }) htask rfl hexchanged
      rw [Option.isSome_some, Bool.and_true] at hreturned
      refine ⟨.connected env.connected :: evs, p', List.cons_prefix_cons.mpr ⟨rfl, hevs⟩, ?_, hreturned⟩
      rw [run, hstep, Option.bind_some, hrun]

/-! ### Responses are numbered by requests -/

/-- The request of an exchange that holds the lock. -/
structure Current (p : ProxyState) (req : Forwarded) : Prop where
  /-- It has been counted. -/
  counted : req.number < p.requests req.session
  /-- What the session has been given is for earlier requests. -/
  last : ∀ a ∈ p.written req.session, a.1 < req.number
  /-- Its task waits for the exchange. -/
  task : ∃ rest, p.sessions req.session = .exchanging req.wire rest

/-- The invariant of the tasks. -/
structure Numbered (p : ProxyState) : Prop where
  /-- What a session has been given comes in the order of its requests. -/
  ordered : ∀ s, (p.written s).Pairwise fun a b => a.1 < b.1
  /-- The next request of a session has a new number. -/
  below : ∀ s, ∀ a ∈ p.written s, a.1 < p.requests s
  /-- The exchange that holds the lock is for the last request of its session. -/
  current : ∀ req up, p.holder = some (req, up) → p.Current req

theorem numbered_start : start.Numbered :=
  ⟨fun _ => List.Pairwise.nil, fun _ _ h => absurd h List.not_mem_nil, by rintro _ _ ⟨⟩⟩

/-- An exchange can always return. -/
theorem Current.exists_finish (h : p.Current req) (r : Except RctError (List UInt8)) :
    ∃ p', p.finish req r = some p' := by
  obtain ⟨rest, htask⟩ := h.task
  obtain ⟨p', hfinish, -⟩ := finish_exchanging htask r
  exact ⟨p', hfinish⟩

theorem Numbered.finish (h : p.Numbered) (hreq : p.Current req) {r : Except RctError (List UInt8)}
    (hfinish : p.finish req r = some p') : p'.Numbered := by
  obtain ⟨hholder, hrequests, -, hwritten | ⟨resp, -, hwritten⟩⟩ := of_finish hfinish
  · refine ⟨hwritten ▸ h.ordered, ?_, ?_⟩
    · rw [hwritten, hrequests]
      exact h.below
    · rw [hholder]
      rintro req up ⟨⟩
  · refine ⟨?_, ?_, ?_⟩
    · intro s
      rw [hwritten]
      by_cases hs : s = req.session
      · subst hs
        simpa [List.pairwise_append] using ⟨h.ordered _, fun a b hab => hreq.last _ hab⟩
      · simpa [hs] using h.ordered s
    · intro s a ha
      rw [hwritten] at ha
      rw [hrequests]
      by_cases hs : s = req.session
      · subst hs
        rw [Function.update_self, List.mem_append, List.mem_singleton] at ha
        rcases ha with ha | rfl
        · exact h.below _ a ha
        · exact hreq.counted
      · rw [Function.update_of_ne hs] at ha
        exact h.below s a ha
    · rw [hholder]
      rintro req up ⟨⟩

/-- Only the exchange takes its task on. -/
theorem Numbered.onSession (h : p.Numbered) {s : ℕ} {ev : SessionEvent}
    (hstep : p.onSession s ev = some p') (hev : ∀ r, ev ≠ .exchanged r) : p'.Numbered := by
  obtain ⟨task, htask, rfl⟩ := Option.map_eq_some_iff.mp hstep
  refine ⟨h.ordered, h.below, ?_⟩
  intro req up hholder
  obtain ⟨hcounted, hlast, rest, hreq⟩ := h.current req up hholder
  refine ⟨hcounted, hlast, rest, ?_⟩
  by_cases hs : req.session = s
  · subst hs
    rw [hreq] at htask
    cases ev with
    | read got => cases htask
    | exchanged r => exact absurd rfl (hev r)
    | written r => cases htask
  · simpa [hs] using hreq

theorem Numbered.onLocked (h : p.Numbered) {s : ℕ} (hstep : p.onLocked s = some p') : p'.Numbered := by
  obtain ⟨wire, rest, -, htask, rfl⟩ := of_onLocked hstep
  refine ⟨h.ordered, ?_, ?_⟩
  · intro t a ha
    have hbelow := h.below t a ha
    by_cases ht : t = s
    · subst ht
      simpa using Nat.lt_succ_of_lt hbelow
    · simpa [ht] using hbelow
  · intro req up hreq
    cases hreq
    exact ⟨by simp, h.below s, rest, htask⟩

/-- The exchange waits for something else. -/
theorem Numbered.next (h : p.Numbered) (hholder : p.holder = some (req, up)) {p' : ProxyState}
    (hp' : p'.sessions = p.sessions ∧ p'.requests = p.requests ∧ p'.written = p.written) {up' : Exchanging}
    (hholder' : p'.holder = some (req, up')) : p'.Numbered := by
  obtain ⟨hsessions, hrequests, hwritten⟩ := hp'
  refine ⟨hwritten ▸ h.ordered, ?_, ?_⟩
  · rw [hwritten, hrequests]
    exact h.below
  · rintro req' up₁ hreq
    obtain ⟨rfl, -⟩ : req = req' ∧ up' = up₁ := by simpa [hholder'] using hreq
    obtain ⟨hcounted, hlast, htask⟩ := h.current req up hholder
    exact ⟨hrequests ▸ hcounted, hwritten ▸ hlast, hsessions ▸ htask⟩

theorem Numbered.onConnected (h : p.Numbered) {r : Except IoError Unit} (hstep : p.onConnected r = some p') :
    p'.Numbered := by
  obtain ⟨req, hholder, ⟨e, -, hfinish⟩ | ⟨-, rfl⟩⟩ := of_onConnected hstep
  · exact h.finish (h.current _ _ hholder) hfinish
  · exact h.next hholder ⟨rfl, rfl, rfl⟩ rfl

theorem Numbered.onWrote (h : p.Numbered) {r : Timed Unit} {start : ℕ} (hstep : p.onWrote r start = some p') :
    p'.Numbered := by
  obtain ⟨req, hholder, ⟨e, -, hfinish⟩ | ⟨-, rfl⟩⟩ := of_onWrote hstep
  · exact h.finish (h.current _ _ hholder) hfinish
  · exact h.next hholder ⟨rfl, rfl, rfl⟩ rfl

theorem Numbered.onReceived (h : p.Numbered) {ev : ReadEvent (Option IoError)} (hstep : p.onReceived cfg ev = some p') :
    p'.Numbered := by
  obtain ⟨req, start, rx, hholder, ⟨rx', -, rfl⟩ | ⟨rx', r, -, hfinish⟩ | ⟨e, -, rfl⟩⟩ := of_onReceived hstep
  · exact h.next hholder ⟨rfl, rfl, rfl⟩ rfl
  · exact h.finish (h.current _ _ hholder) hfinish
  · exact ⟨h.ordered, h.below, by rintro _ _ ⟨⟩⟩

/-- **Whatever the peers do**, a session is given at most one response to a request, in the order of
the requests. -/
theorem Numbered.step (h : p.Numbered) {ev : ProxyEvent} (hstep : p.step cfg ev = some p') : p'.Numbered := by
  cases ev with
  | read s got => exact h.onSession hstep (by simp)
  | written s r => exact h.onSession hstep (by simp)
  | locked s => exact h.onLocked hstep
  | connected r => exact h.onConnected hstep
  | wrote r start => exact h.onWrote hstep
  | received ev => exact h.onReceived hstep

end ProxyState

end RctPower
