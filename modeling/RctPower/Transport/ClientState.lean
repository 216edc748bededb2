import RctPower.Lib.Machine
import RctPower.Transport.Client

/-!
# Calls of the synchronous client, one after the other

A `Client` over its lifetime (`client.rs`): calls follow each other, and the connection is kept
in the pool between them.

A `ClientState` is the state of the pool and of the call that is running. Events are a new call,
the opening of a try and a turn of its receive loop; a read can give any bytes, and every
operation can fail. Calls and connections are numbered in the order in which they are made. A
panic ends the call and leaves the pool as it is.

## What is proved

* `run_call`: a call, taken event by event, is `Client.read` or `Client.write`.
* `Numbered.step`: calls return in order, and each at most once.
-/

namespace RctPower

open RctPower.Lib.Rust RctPower.Lib.EarlyExit RctPower.Lib.Machine

/-- A call. -/
inductive Call where
  /-- `read`. -/
  | read (obj : ObjectInfo)
  /-- `write`. -/
  | write (obj : ObjectInfo) (value : DataValue)

namespace Call

/-- The object it is about. -/
def obj : Call → ObjectInfo
  | .read obj => obj
  | .write obj _ => obj

/-- The frame it transmits. -/
def request (prof : Profile) : Call → Checked (Except RctError (List UInt8))
  | .read obj => readRequest prof obj
  | .write obj value => writeRequest prof obj value

/-- The call as a whole. -/
def result (prof : Profile) (cfg : ClientConfig) (call : Call) (pooled : Bool) (envs : List SyncTry) :
    Checked (Option (Outcome DataValue)) :=
  match call with
  | .read obj => Client.read prof cfg obj pooled envs
  | .write obj value => Client.write prof cfg obj value pooled envs

end Call

/-- What a call waits for. -/
inductive Waiting where
  /-- For a try to open. -/
  | opening
  /-- For the response, since the clock was `start`. -/
  | receiving (start : ℕ) (rx : ReceiveFrame)

/-- A call that is running. -/
structure Running where
  /-- Its number. -/
  number : ℕ
  /-- The call. -/
  call : Call
  /-- The frame. -/
  frame : List UInt8
  /-- The number of tries after this one. -/
  left : ℕ

/-- What a call has returned. -/
structure Returned where
  /-- Its number. -/
  number : ℕ
  /-- The call. -/
  call : Call
  /-- The result. -/
  result : Except RctError DataValue

/-- The pool, and the calls. -/
structure ClientState where
  /-- How many calls there have been. -/
  calls : ℕ
  /-- The call that is running. -/
  running : Option (Running × Waiting)
  /-- The pooled connection. -/
  pool : Option ℕ
  /-- The number of connections made. -/
  made : ℕ
  /-- What the calls have returned, in order. -/
  returned : List Returned

/-- What happens to a client. -/
inductive ClientEvent where
  /-- A call. -/
  | called (call : Call)
  /-- A try opens. -/
  | opened (env : SyncOpening)
  /-- A turn of the receive loop. -/
  | received (ev : ReadEvent IoError)

namespace ClientState

/-- Before the first call. -/
def start : ClientState := ⟨0, none, none, 0, []⟩

/-- The call returns. -/
def finish (c : ClientState) (cur : Running) (result : Except RctError DataValue) : ClientState :=
  { c with running := none, returned := c.returned ++ [⟨cur.number, cur.call, result⟩] }

/-- The try fails: there is another one, or the call returns the error. -/
def fail (c : ClientState) (cur : Running) (e : RctError) : ClientState :=
  match cur.left with
  | 0 => c.finish cur (.error e)
  | left + 1 => { c with running := some ({ cur with left }, .opening) }

/-- A call starts. -/
def onCalled (prof : Profile) (cfg : ClientConfig) (c : ClientState) (call : Call) : Option ClientState :=
  match c.running with
  | some _ => none
  | none =>
    match call.request prof with
    | .error _ => some { c with calls := c.calls + 1 }
    | .ok (.error e) =>
      some { c with calls := c.calls + 1, returned := c.returned ++ [⟨c.calls, call, .error e⟩] }
    | .ok (.ok frame) =>
      some { c with
        calls := c.calls + 1
        running := some (⟨c.calls, call, frame, max cfg.retries 1 - 1⟩, .opening) }

/-- There is a connection: the pooled one, or a new one. -/
def connected (c : ClientState) : ClientState :=
  match c.pool with
  | some _ => c
  | none => { c with pool := some c.made, made := c.made + 1 }

/-- A try opens. -/
def onOpened (c : ClientState) (env : SyncOpening) : Option ClientState :=
  match c.running with
  | some (cur, .opening) =>
    some <|
      match Client.connect c.pool.isSome env with
      | .error e => c.fail cur e
      | .ok () =>
        match Client.prepare env with
        | .error e => c.connected.fail cur e
        | .ok () =>
          match env.written with
          | .error e => c.connected.fail cur (.io e)
          | .ok () => { c.connected with running := some (cur, .receiving env.start (.new false)) }
  | _ => none

/-- A frame is complete. -/
def onComplete (c : ClientState) (cur : Running) (rx : ReceiveFrame) : ClientState :=
  match Client.finish cur.call.obj.responseDataType rx with
  | .error _ => { c with running := none }
  | .ok (keep, .ok v) => { c with pool := if keep then c.pool else none }.finish cur (.ok v)
  | .ok (keep, .error e) => { c with pool := if keep then c.pool else none }.fail cur e

/-- A turn of the receive loop. -/
def onReceived (cfg : ClientConfig) (c : ClientState) (ev : ReadEvent IoError) : Option ClientState :=
  match c.running with
  | some (cur, .receiving start rx) =>
    some <|
      match readOnce (Client.policy cfg start) rx ev with
      | .next rx' => { c with running := some (cur, .receiving start rx') }
      | .ret _ (.error e) => c.fail cur e
      | .ret rx' (.ok ()) => c.onComplete cur rx'
      | .panics _ => { c with running := none }
  | _ => none

/-- One event, if it can happen. -/
def step (prof : Profile) (cfg : ClientConfig) (c : ClientState) : ClientEvent → Option ClientState
  | .called call => c.onCalled prof cfg call
  | .opened env => c.onOpened env
  | .received ev => c.onReceived cfg ev

variable {prof : Profile} {cfg : ClientConfig} {c c' : ClientState} {cur : Running}

/-! ### A try as a whole -/

/-- The events of one try. -/
def tryEvents (env : SyncTry) : List ClientEvent := .opened env.toSyncOpening :: env.reads.map .received

/-- What follows a try: the call returns its value, or the try has failed. -/
def after (c : ClientState) (cur : Running) : Except RctError DataValue → ClientState
  | .ok v => c.finish cur (.ok v)
  | .error e => c.fail cur e

/-- The calls so far have not changed. -/
structure SameCalls (c c' : ClientState) : Prop where
  /-- There are no new calls. -/
  calls : c'.calls = c.calls
  /-- None has returned. -/
  returned : c'.returned = c.returned

/-- Turns that all go on. -/
theorem run_received {start : ℕ} {rx rx' : ReceiveFrame} {evs : List (ReadEvent IoError)}
    (h : passed (readOnce (Client.policy cfg start)) rx evs = some rx') :
    run (step prof cfg) { c with running := some (cur, .receiving start rx) } (evs.map .received) =
      some { c with running := some (cur, .receiving start rx') } := by
  refine run_of_pass (fun rx => { c with running := some (cur, .receiving start rx) }) ?_ h
  intro rx ev rx' hev
  simp only [step, onReceived, hev]

/-- What is made of a complete frame. -/
theorem onComplete_eq {rx : ReceiveFrame} {keep : Bool} {value : Except RctError DataValue}
    (h : Client.finish cur.call.obj.responseDataType rx = .ok (keep, value)) :
    c.onComplete cur rx = { c with pool := if keep then c.pool else none }.after cur value := by
  rw [onComplete]
  rw [h]
  cases value <;> rfl

theorem connected_spec (c : ClientState) : SameCalls c c.connected ∧ c.connected.pool.isSome = true := by
  rw [connected]
  split
  · next hpool => exact ⟨⟨rfl, rfl⟩, by rw [hpool]; rfl⟩
  · exact ⟨⟨rfl, rfl⟩, rfl⟩

/-- A connect that fails has found no connection in the pool. -/
theorem not_isSome_of_connect {pooled : Bool} {env : SyncOpening} {e : RctError}
    (h : Client.connect pooled env = .error e) : pooled = false := by
  cases pooled with
  | false => rfl
  | true => cases h

/-- **The receive loop, event by event**: the try ends with an error, or with what is made of the frame. -/
theorem run_reads {start : ℕ} {reads : List (ReadEvent IoError)} {r : Except RctError ReceiveFrame} {keep : Bool}
    {value : Except RctError DataValue} (hpooled : c.pool.isSome = true)
    (hreceive : receive (Client.policy cfg start) reads = .ok (some r))
    (hr : (∃ e, r = .error e ∧ keep = true ∧ value = .error e) ∨
      ∃ rx, r = .ok rx ∧ Client.finish cur.call.obj.responseDataType rx = .ok (keep, value)) :
    ∃ evs c', evs <+: reads.map .received ∧
      run (step prof cfg) { c with running := some (cur, .receiving start (.new false)) } evs =
        some (c'.after cur value) ∧ c'.pool.isSome = keep ∧ SameCalls c c' := by
  obtain ⟨before, ev, unread, rx, rx', r', rfl, hbefore, hev, rfl⟩ := receive_stop hreceive
  have hrun : run (step prof cfg) { c with running := some (cur, .receiving start (.new false)) }
      (before.map .received) = some { c with running := some (cur, .receiving start rx) } := run_received hbefore
  -- the try ends with its last turn
  have hlast : ∀ c' : ClientState,
      ({ c with running := some (cur, .receiving start rx) } : ClientState).step prof cfg (.received ev) =
        some (c'.after cur value) →
      c'.pool.isSome = keep → SameCalls c c' →
      ∃ evs c', evs <+: (before ++ ev :: unread).map .received ∧
        run (step prof cfg) { c with running := some (cur, .receiving start (.new false)) } evs =
          some (c'.after cur value) ∧ c'.pool.isSome = keep ∧ SameCalls c c' := by
    intro c' hstep hpool hcalls
    refine ⟨before.map .received ++ [.received ev], c', ⟨unread.map .received, by simp⟩, ?_, hpool, hcalls⟩
    rw [run_append, hrun, Option.bind_some]
    simp only [run, hstep, Option.bind_some]
  rcases hr with ⟨e, he, rfl, rfl⟩ | ⟨rx₁, hrx, hfinish⟩
  · cases r' with
    | ok u => cases he
    | error e' =>
      cases he
      refine hlast { c with running := some (cur, .receiving start rx) } ?_ hpooled ⟨rfl, rfl⟩
      simp only [step, onReceived, hev, after]
  · cases r' with
    | error e => cases hrx
    | ok u =>
      cases hrx
      refine hlast { c with
        running := some (cur, .receiving start rx), pool := if keep then c.pool else none } ?_ ?_ ⟨rfl, rfl⟩
      · simp only [step, onReceived, hev, onComplete_eq hfinish]
      · cases keep with
        | false => rfl
        | true => exact hpooled

/-- **A try, event by event**, is `Client.tryExchange`. -/
theorem run_try (prof : Profile) {env : SyncTry} {out : Outcome DataValue} (hrunning : c.running = some (cur, .opening))
    (h : Client.tryExchange cfg cur.frame cur.call.obj.responseDataType c.pool.isSome env = .ok (some out)) :
    ∃ evs c', evs <+: tryEvents env ∧ run (step prof cfg) c evs = some (c'.after cur out.result) ∧
      c'.pool.isSome = out.pooled ∧ SameCalls c c' := by
  obtain ⟨hsame, hpooled⟩ := connected_spec c
  -- the try ends when it opens
  have hopen : ∀ c' : ClientState, c.step prof cfg (.opened env.toSyncOpening) = some (c'.after cur out.result) →
      c'.pool.isSome = out.pooled → SameCalls c c' →
      ∃ evs c', evs <+: tryEvents env ∧ run (step prof cfg) c evs = some (c'.after cur out.result) ∧
        c'.pool.isSome = out.pooled ∧ SameCalls c c' := by
    intro c' hstep hpool hcalls
    refine ⟨[.opened env.toSyncOpening], c', by simp [tryEvents], ?_, hpool, hcalls⟩
    simp only [run, hstep, Option.bind_some]
  have hopened : Client.connect c.pool.isSome env.toSyncOpening = .ok () → Client.prepare env.toSyncOpening = .ok () →
      env.written = .ok () → c.step prof cfg (.opened env.toSyncOpening) =
        some { c.connected with running := some (cur, .receiving env.start (.new false)) } := by
    intro hconnected hprepared hwritten
    simp only [step, onOpened, hrunning, hconnected, hprepared, hwritten]
  -- the try ends in the receive loop
  have hreads : ∀ {r keep value}, c.step prof cfg (.opened env.toSyncOpening) =
        some { c.connected with running := some (cur, .receiving env.start (.new false)) } →
      receive (Client.policy cfg env.start) env.reads = .ok (some r) →
      ((∃ e, r = .error e ∧ keep = true ∧ value = .error e) ∨
        ∃ rx, r = .ok rx ∧ Client.finish cur.call.obj.responseDataType rx = .ok (keep, value)) →
      ∃ evs c', evs <+: tryEvents env ∧ run (step prof cfg) c evs = some (c'.after cur value) ∧
        c'.pool.isSome = keep ∧ SameCalls c c' := by
    intro r keep value hopened hreceived hr
    obtain ⟨evs, c', hevs, hrun, hpool, hcalls⟩ := run_reads hpooled hreceived hr
    refine ⟨.opened env.toSyncOpening :: evs, c', List.cons_prefix_cons.mpr ⟨rfl, hevs⟩, ?_, hpool,
      hcalls.calls.trans hsame.calls, hcalls.returned.trans hsame.returned⟩
    rw [run, hopened, Option.bind_some, hrun]
  cases Client.ends_iff.mp h with
  | unconnected hconnected =>
    refine hopen c ?_ (not_isSome_of_connect hconnected) ⟨rfl, rfl⟩
    simp only [step, onOpened, hrunning, hconnected, after]
  | unprepared hconnected hprepared =>
    refine hopen c.connected ?_ hpooled hsame
    simp only [step, onOpened, hrunning, hconnected, hprepared, after]
  | unwritten hconnected hprepared hwritten =>
    refine hopen c.connected ?_ hpooled hsame
    simp only [step, onOpened, hrunning, hconnected, hprepared, hwritten, after]
  | failed hconnected hprepared hwritten hreceived =>
    exact hreads (hopened hconnected hprepared hwritten) hreceived (.inl ⟨_, rfl, rfl, rfl⟩)
  | finished hconnected hprepared hwritten hreceived hfinish =>
    exact hreads (hopened hconnected hprepared hwritten) hreceived (.inr ⟨_, rfl, hfinish⟩)

/-! ### A call as a whole -/

/-- The events are those of tries in the environments, of each as far as it goes. -/
def Plays (envs : List SyncTry) (evs : List ClientEvent) : Prop :=
  ∃ pieces tried, evs = pieces.flatten ∧ tried <+: envs ∧
    List.Forall₂ (fun piece env => piece <+: tryEvents env) pieces tried

theorem Plays.cons {env : SyncTry} {envs : List SyncTry} {piece evs : List ClientEvent}
    (hpiece : piece <+: tryEvents env) (h : Plays envs evs) : Plays (env :: envs) (piece ++ evs) := by
  obtain ⟨pieces, tried, rfl, htried, hpieces⟩ := h
  exact ⟨piece :: pieces, env :: tried, rfl, (List.prefix_cons_inj env).mpr htried, .cons hpiece hpieces⟩

theorem plays_nil (envs : List SyncTry) : Plays envs [] := ⟨[], [], rfl, List.nil_prefix, .nil⟩

/-- The call has returned `ret`. -/
structure HasReturned (c c' : ClientState) (ret : Returned) (pooled : Bool) : Prop where
  /-- It is not running. -/
  running : c'.running = none
  /-- It is the last that has returned. -/
  returned : c'.returned = c.returned ++ [ret]
  /-- It has left a connection in the pool, or none. -/
  pool : c'.pool.isSome = pooled

/-- **The tries of a call, event by event**, are the retry loop. -/
theorem run_attempts (prof : Profile) {envs : List SyncTry} {lastErr : RctError} {out : Outcome DataValue} (left : ℕ)
    (hrunning : c.running = some (cur, .opening)) (hleft : cur.left = left)
    (h : attempts (Client.tryExchange cfg cur.frame cur.call.obj.responseDataType) (left + 1) lastErr c.pool.isSome
      envs = .ok (some out)) :
    ∃ evs c', Plays envs evs ∧ run (step prof cfg) c evs = some c' ∧
      HasReturned c c' ⟨cur.number, cur.call, out.result⟩ out.pooled := by
  induction left generalizing c cur envs lastErr out with
  | zero =>
    obtain ⟨env, rest, first, rfl, htry, hcases⟩ := attempts_cons h
    obtain ⟨evs, c', hevs, hrun, hpool, hsame⟩ := run_try prof hrunning htry
    have hplays : Plays (env :: rest) (evs ++ []) := .cons hevs (plays_nil rest)
    rw [List.append_nil] at hplays
    refine ⟨evs, _, hplays, hrun, ?_⟩
    rcases hcases with ⟨v, hv, rfl⟩ | ⟨e, last, he, hlast, hresult, hpooled⟩
    · rw [hv]
      exact ⟨rfl, congrArg (· ++ _) hsame.returned, hpool⟩
    · -- no try is left
      obtain rfl : (⟨first.pooled, [], .error e⟩ : Outcome DataValue) = last := by simpa [attempts] using hlast
      rw [he, hresult, hpooled]
      simp only [after, fail, hleft]
      exact ⟨rfl, congrArg (· ++ _) hsame.returned, hpool⟩
  | succ n ih =>
    obtain ⟨env, rest, first, rfl, htry, hcases⟩ := attempts_cons h
    obtain ⟨evs, c', hevs, hrun, hpool, hsame⟩ := run_try prof hrunning htry
    rcases hcases with ⟨v, hv, rfl⟩ | ⟨e, last, he, hlast, hresult, hpooled⟩
    · have hplays : Plays (env :: rest) (evs ++ []) := .cons hevs (plays_nil rest)
      rw [List.append_nil] at hplays
      refine ⟨evs, _, hplays, hrun, ?_⟩
      rw [hv]
      exact ⟨rfl, congrArg (· ++ _) hsame.returned, hpool⟩
    · have hfail : c'.after cur first.result = { c' with running := some ({ cur with left := n }, .opening) } := by
        rw [he]
        simp only [after, fail, hleft]
      rw [hfail] at hrun
      rw [← hpool] at hlast
      obtain ⟨evs', c'', hplays, hrun', hreturned⟩ :=
        ih (c := { c' with running := some ({ cur with left := n }, .opening) }) rfl rfl hlast
      refine ⟨evs ++ evs', c'', .cons hevs hplays, ?_, ?_⟩
      · rw [run_append, hrun, Option.bind_some]
        exact hrun'
      · rw [hresult, hpooled]
        exact ⟨hreturned.running, hreturned.returned.trans (congrArg (· ++ _) hsame.returned), hreturned.pool⟩

/-- **A call, event by event**, is `Client.read` or `Client.write`: it returns what that returns, and
leaves in the pool what that leaves. -/
theorem run_call {call : Call} {envs : List SyncTry} {out : Outcome DataValue} (hidle : c.running = none)
    (h : call.result prof cfg c.pool.isSome envs = .ok (some out)) :
    ∃ evs c', Plays envs evs ∧ run (step prof cfg) c (.called call :: evs) = some c' ∧
      HasReturned c c' ⟨c.calls, call, out.result⟩ out.pooled := by
  have hresult : call.result prof cfg c.pool.isSome envs =
      withRequest (call.request prof) c.pool.isSome fun frame =>
        Client.exchange cfg frame call.obj.responseDataType c.pool.isSome envs := by
    cases call <;> rfl
  rw [hresult] at h
  cases hrequest : call.request prof with
  | error p => simp [withRequest, hrequest] at h
  | ok request =>
    cases request with
    | error e =>
      obtain rfl : (⟨c.pool.isSome, [], .error e⟩ : Outcome DataValue) = out := by simpa [withRequest, hrequest] using h
      have hstep : c.step prof cfg (.called call) =
          some { c with calls := c.calls + 1, returned := c.returned ++ [⟨c.calls, call, .error e⟩] } := by
        simp only [step, onCalled, hidle, hrequest]
      refine ⟨[], { c with calls := c.calls + 1, returned := c.returned ++ [⟨c.calls, call, .error e⟩] },
        plays_nil envs, ?_, hidle, rfl, rfl⟩
      simp only [run, hstep, Option.bind_some]
    | ok frame =>
      have hstep : c.step prof cfg (.called call) =
          some { c with
            calls := c.calls + 1
            running := some (⟨c.calls, call, frame, max cfg.retries 1 - 1⟩, .opening) } := by
        simp only [step, onCalled, hidle, hrequest]
      have htries : max cfg.retries 1 - 1 + 1 = max cfg.retries 1 := Nat.sub_add_cancel (le_max_right _ _)
      simp only [withRequest, hrequest, Client.exchange] at h
      rw [← htries] at h
      obtain ⟨evs, c', hplays, hrun, hreturned⟩ :=
        run_attempts prof
          (c := { c with
            calls := c.calls + 1
            running := some (⟨c.calls, call, frame, max cfg.retries 1 - 1⟩, .opening) }) _ rfl rfl h
      refine ⟨evs, c', hplays, ?_, hreturned.running, hreturned.returned, hreturned.pool⟩
      rw [run, hstep, Option.bind_some]
      exact hrun

/-! ### What an event does -/

theorem of_onCalled {call : Call} (h : c.onCalled prof cfg call = some c') :
    c.running = none ∧
      (c' = { c with calls := c.calls + 1 } ∨
        (∃ e, c' = { c with calls := c.calls + 1, returned := c.returned ++ [⟨c.calls, call, .error e⟩] }) ∨
        ∃ frame, c' = { c with
          calls := c.calls + 1
          running := some (⟨c.calls, call, frame, max cfg.retries 1 - 1⟩, .opening) }) := by
  rw [onCalled] at h
  split at h
  · cases h
  · next hidle =>
    refine ⟨hidle, ?_⟩
    split at h
    · exact .inl (Option.some.inj h).symm
    · next e _ => exact .inr (.inl ⟨e, (Option.some.inj h).symm⟩)
    · next frame _ => exact .inr (.inr ⟨frame, (Option.some.inj h).symm⟩)

/-- A try that opens fails, or has written its request and waits for the response. -/
theorem of_onOpened {env : SyncOpening} (h : c.onOpened env = some c') :
    ∃ cur, c.running = some (cur, .opening) ∧
      ((∃ c₁ e, SameCalls c c₁ ∧ c' = c₁.fail cur e) ∨
        Client.connect c.pool.isSome env = .ok () ∧ Client.prepare env = .ok () ∧ env.written = .ok () ∧
          c' = { c.connected with running := some (cur, .receiving env.start (.new false)) }) := by
  have hsame := (connected_spec c).1
  rw [onOpened] at h
  split at h
  · next cur hrunning =>
    refine ⟨cur, hrunning, ?_⟩
    rw [Option.some.injEq] at h
    split at h
    · next e _ => exact .inl ⟨c, e, ⟨rfl, rfl⟩, h.symm⟩
    next hconnect =>
    split at h
    · next e _ => exact .inl ⟨c.connected, e, hsame, h.symm⟩
    next hprepare =>
    split at h
    · next e _ => exact .inl ⟨c.connected, .io e, hsame, h.symm⟩
    · next hwritten => exact .inr ⟨hconnect, hprepare, hwritten, h.symm⟩
  · cases h

/-- After a turn the loop goes on, or the try has failed, or the call has returned the value of a
complete frame or has panicked. -/
theorem of_onReceived {turn : ReadEvent IoError} (h : c.onReceived cfg turn = some c') :
    ∃ cur start rx, c.running = some (cur, .receiving start rx) ∧
      ((∃ rx', readOnce (Client.policy cfg start) rx turn = .next rx' ∧
          c' = { c with running := some (cur, .receiving start rx') }) ∨
        (∃ c₁ e, SameCalls c c₁ ∧ c' = c₁.fail cur e) ∨
        (∃ c₁ rx' keep v, SameCalls c c₁ ∧ readOnce (Client.policy cfg start) rx turn = .ret rx' (.ok ()) ∧
          Client.finish cur.call.obj.responseDataType rx' = .ok (keep, .ok v) ∧ c' = c₁.finish cur (.ok v)) ∨
        c' = { c with running := none }) := by
  rw [onReceived] at h
  split at h
  · next cur start rx hrunning =>
    refine ⟨cur, start, rx, hrunning, ?_⟩
    rw [Option.some.injEq] at h
    split at h
    · next rx' hread => exact .inl ⟨rx', hread, h.symm⟩
    · next rx' e _ => exact .inr (.inl ⟨c, e, ⟨rfl, rfl⟩, h.symm⟩)
    · next rx' hread =>
      rw [onComplete] at h
      split at h
      · exact .inr (.inr (.inr h.symm))
      · next keep v hfinish =>
        refine .inr (.inr (.inl ⟨{ c with pool := if keep then c.pool else none }, rx', keep, v, ?_, hread, hfinish,
          h.symm⟩))
        exact ⟨rfl, rfl⟩
      · next keep e _ =>
        refine .inr (.inl ⟨{ c with pool := if keep then c.pool else none }, e, ?_, h.symm⟩)
        exact ⟨rfl, rfl⟩
    · exact .inr (.inr (.inr h.symm))
  · cases h

/-- After a try that fails there is another one, with the number of the call, or the call returns
the error. -/
theorem fail_cases (c : ClientState) (cur : Running) (e : RctError) :
    c.fail cur e = c.finish cur (.error e) ∨
      ∃ left, c.fail cur e = { c with running := some ({ cur with left }, .opening) } := by
  rw [fail]
  split
  · exact .inl rfl
  · next left _ => exact .inr ⟨left, rfl⟩

/-- A call that is to open a try, or has returned, does not wait for a response. -/
theorem fail_running (c : ClientState) (cur : Running) (e : RctError) {cur' : Running} {start : ℕ} {rx : ReceiveFrame} :
    (c.fail cur e).running ≠ some (cur', .receiving start rx) := by
  rcases fail_cases c cur e with heq | ⟨left, heq⟩
  · rw [heq]
    rintro ⟨⟩
  · rw [heq]
    rintro ⟨⟩

/-- **A call comes to wait for its response** when a try has written its request, and goes on doing
so as long as the turns of the loop go on. -/
theorem waiting_of_step {ev : ClientEvent} {start : ℕ} {rx' : ReceiveFrame} (h : c.step prof cfg ev = some c')
    (hrunning : c'.running = some (cur, .receiving start rx')) :
    (∃ env, ev = .opened env ∧ c.running = some (cur, .opening) ∧ Client.connect c.pool.isSome env = .ok () ∧
        Client.prepare env = .ok () ∧ env.written = .ok () ∧ rx' = .new false ∧ c'.pool = c.connected.pool) ∨
      ∃ turn rx, ev = .received turn ∧ c.running = some (cur, .receiving start rx) ∧
        readOnce (Client.policy cfg start) rx turn = .next rx' ∧ c'.pool = c.pool := by
  cases ev with
  | called call =>
    obtain ⟨hidle, rfl | ⟨e, rfl⟩ | ⟨frame, rfl⟩⟩ := of_onCalled h
    · cases hidle.symm.trans hrunning
    · cases hidle.symm.trans hrunning
    · cases hrunning
  | opened env =>
    obtain ⟨cur', hopening, ⟨c₁, e, -, rfl⟩ | ⟨hconnect, hprepare, hwritten, rfl⟩⟩ := of_onOpened h
    · exact absurd hrunning (fail_running _ _ _)
    · obtain ⟨rfl, hreceiving⟩ := Prod.mk.inj (Option.some.inj hrunning)
      cases hreceiving
      exact .inl ⟨env, rfl, hopening, hconnect, hprepare, hwritten, rfl, rfl⟩
  | received turn =>
    obtain ⟨cur', start', rx, hreceiving, hcases⟩ := of_onReceived h
    rcases hcases with ⟨rx₁, hread, rfl⟩ | ⟨c₁, e, -, rfl⟩ | ⟨c₁, rx₁, keep, v, -, -, -, rfl⟩ | rfl
    · obtain ⟨rfl, heq⟩ := Prod.mk.inj (Option.some.inj hrunning)
      cases heq
      exact .inr ⟨turn, rx, rfl, hreceiving, hread, rfl⟩
    · exact absurd hrunning (fail_running _ _ _)
    · cases hrunning
    · cases hrunning

/-- A try that fails adds nothing to what has been returned, or its error. -/
theorem fail_returned (c : ClientState) (cur : Running) (e : RctError) :
    (c.fail cur e).returned = c.returned ∨
      (c.fail cur e).returned = c.returned ++ [⟨cur.number, cur.call, .error e⟩] := by
  rcases fail_cases c cur e with heq | ⟨left, heq⟩
  · rw [heq]
    exact .inr rfl
  · rw [heq]
    exact .inl rfl

/-- **A value is returned** for a complete frame only. -/
theorem returned_of_step {ev : ClientEvent} (h : c.step prof cfg ev = some c') :
    c'.returned = c.returned ∨ (∃ number call e, c'.returned = c.returned ++ [⟨number, call, .error e⟩]) ∨
      ∃ turn cur start rx rx' keep v, ev = .received turn ∧ c.running = some (cur, .receiving start rx) ∧
        readOnce (Client.policy cfg start) rx turn = .ret rx' (.ok ()) ∧
        Client.finish cur.call.obj.responseDataType rx' = .ok (keep, .ok v) ∧
        c'.returned = c.returned ++ [⟨cur.number, cur.call, .ok v⟩] := by
  -- a try that fails returns an error at most
  have hfail : ∀ {c₁ : ClientState} {cur e}, SameCalls c c₁ →
      (c₁.fail cur e).returned = c.returned ∨
        ∃ number call e', (c₁.fail cur e).returned = c.returned ++ [⟨number, call, .error e'⟩] := by
    intro c₁ cur e hsame
    rw [← hsame.returned]
    rcases fail_returned c₁ cur e with heq | heq
    · exact .inl heq
    · exact .inr ⟨_, _, _, heq⟩
  rw [← or_assoc]
  cases ev with
  | called call =>
    obtain ⟨-, rfl | ⟨e, rfl⟩ | ⟨frame, rfl⟩⟩ := of_onCalled h
    · exact .inl (.inl rfl)
    · exact .inl (.inr ⟨_, _, _, rfl⟩)
    · exact .inl (.inl rfl)
  | opened env =>
    obtain ⟨cur, -, ⟨c₁, e, hsame, rfl⟩ | ⟨-, -, -, rfl⟩⟩ := of_onOpened h
    · exact .inl (hfail hsame)
    · exact .inl (.inl (connected_spec c).1.returned)
  | received turn =>
    obtain ⟨cur, start, rx, hrunning, hcases⟩ := of_onReceived h
    rcases hcases with ⟨rx', -, rfl⟩ | ⟨c₁, e, hsame, rfl⟩ | ⟨c₁, rx', keep, v, hsame, hread, hfinish, rfl⟩ | rfl
    · exact .inl (.inl rfl)
    · exact .inl (hfail hsame)
    · refine .inr ⟨turn, cur, start, rx, rx', keep, v, rfl, hrunning, hread, hfinish, ?_⟩
      exact congrArg (· ++ _) hsame.returned
    · exact .inl (.inl rfl)

/-! ### Calls return in order -/

/-- The call that is running has not returned, and is the last. -/
structure Current (c : ClientState) (cur : Running) : Prop where
  /-- It has been counted. -/
  counted : cur.number < c.calls
  /-- What has been returned is from earlier calls. -/
  last : ∀ ret ∈ c.returned, ret.number < cur.number

/-- The invariant of the calls. -/
structure Numbered (c : ClientState) : Prop where
  /-- Calls return in order, each at most once. -/
  ordered : c.returned.Pairwise fun a b => a.number < b.number
  /-- The next call has a new number. -/
  below : ∀ ret ∈ c.returned, ret.number < c.calls
  /-- The call that is running is the last. -/
  current : ∀ cur waiting, c.running = some (cur, waiting) → c.Current cur

theorem Numbered.of_idle (hordered : c.returned.Pairwise fun a b => a.number < b.number)
    (hbelow : ∀ ret ∈ c.returned, ret.number < c.calls) (hidle : c.running = none) : c.Numbered := by
  refine ⟨hordered, hbelow, ?_⟩
  intro cur waiting hrunning
  simp [hidle] at hrunning

theorem numbered_start : start.Numbered :=
  .of_idle List.Pairwise.nil (fun _ h => absurd h List.not_mem_nil) rfl

variable {c₁ : ClientState}

theorem Numbered.finish (h : c.Numbered) (hcur : c.Current cur) (hsame : SameCalls c c₁)
    (r : Except RctError DataValue) : (c₁.finish cur r).Numbered := by
  obtain ⟨hcalls, hreturned⟩ := hsame
  refine .of_idle ?_ ?_ rfl
  · simp only [ClientState.finish, hreturned]
    rw [List.pairwise_append]
    refine ⟨h.ordered, List.pairwise_singleton _ _, ?_⟩
    intro a ha b hb
    rw [List.mem_singleton.mp hb]
    exact hcur.last a ha
  · simp only [ClientState.finish, hreturned, hcalls]
    intro ret hret
    rcases List.mem_append.mp hret with hret | hret
    · exact h.below ret hret
    · rw [List.mem_singleton.mp hret]
      exact hcur.counted

/-- The call goes on. -/
theorem Numbered.next (h : c.Numbered) (hcur : c.Current cur) (hsame : SameCalls c c₁) {cur' : Running}
    {waiting : Waiting} (hrunning : c₁.running = some (cur', waiting)) (hnumber : cur'.number = cur.number) :
    c₁.Numbered := by
  obtain ⟨hcalls, hreturned⟩ := hsame
  refine ⟨hreturned ▸ h.ordered, ?_, ?_⟩
  · rw [hreturned, hcalls]
    exact h.below
  · intro cur₁ waiting₁ hrunning₁
    obtain ⟨rfl, -⟩ := Prod.mk.inj (Option.some.inj (hrunning.symm.trans hrunning₁))
    refine ⟨?_, ?_⟩
    · rw [hnumber, hcalls]
      exact hcur.counted
    · rw [hnumber, hreturned]
      exact hcur.last

theorem Numbered.fail (h : c.Numbered) (hcur : c.Current cur) (hsame : SameCalls c c₁) (e : RctError) :
    (c₁.fail cur e).Numbered := by
  rcases fail_cases c₁ cur e with heq | ⟨left, heq⟩
  · rw [heq]
    exact h.finish hcur hsame _
  · rw [heq]
    exact h.next hcur ⟨hsame.calls, hsame.returned⟩ rfl rfl

theorem Numbered.onCalled (h : c.Numbered) {call : Call} (hstep : c.onCalled prof cfg call = some c') :
    c'.Numbered := by
  have hbelow : ∀ ret ∈ c.returned, ret.number < c.calls + 1 := fun ret hret => Nat.lt_succ_of_lt (h.below ret hret)
  obtain ⟨hidle, rfl | ⟨e, rfl⟩ | ⟨frame, rfl⟩⟩ := of_onCalled hstep
  · exact .of_idle h.ordered hbelow hidle
  · refine .of_idle ?_ ?_ hidle
    · simp only [List.pairwise_append, List.mem_singleton]
      refine ⟨h.ordered, List.pairwise_singleton _ _, ?_⟩
      rintro a ha b rfl
      exact h.below a ha
    · intro ret hret
      rcases List.mem_append.mp hret with hret | hret
      · exact hbelow ret hret
      · rw [List.mem_singleton.mp hret]
        exact Nat.lt_succ_self _
  · refine ⟨h.ordered, hbelow, ?_⟩
    intro cur waiting hrunning
    cases hrunning
    exact ⟨Nat.lt_succ_self _, h.below⟩

/-- **Calls return in order**, and each at most once. -/
theorem Numbered.step (h : c.Numbered) {ev : ClientEvent} (hstep : c.step prof cfg ev = some c') : c'.Numbered := by
  cases ev with
  | called call => exact h.onCalled hstep
  | opened env =>
    obtain ⟨cur, hrunning, ⟨c₁, e, hsame, rfl⟩ | ⟨-, -, -, rfl⟩⟩ := of_onOpened hstep
    · exact h.fail (h.current _ _ hrunning) hsame e
    · have hsame := (connected_spec c).1
      exact h.next (h.current _ _ hrunning) ⟨hsame.calls, hsame.returned⟩ rfl rfl
  | received turn =>
    obtain ⟨cur, start, rx, hrunning, hcases⟩ := of_onReceived hstep
    have hcur := h.current _ _ hrunning
    rcases hcases with ⟨rx', -, rfl⟩ | ⟨c₁, e, hsame, rfl⟩ | ⟨c₁, rx', keep, v, hsame, -, -, rfl⟩ | rfl
    · exact h.next hcur ⟨rfl, rfl⟩ rfl rfl
    · exact h.fail hcur hsame e
    · exact h.finish hcur hsame _
    · exact .of_idle h.ordered h.below rfl

end ClientState

end RctPower
