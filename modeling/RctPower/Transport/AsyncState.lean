import RctPower.Transport.Script

/-!
# Calls of the asynchronous client, polled by one thread

Any number of calls on one `AsyncClient` (`async_client.rs`), polled by a thread that runs a call up to an
await and then polls others. A try takes the guard of a `std::sync::Mutex` and keeps it over the awaits for
the connect, the write and the reads; between its tries a call can sleep, without the guard.

An `AsyncState` is the state of the calls, of the mutex and of the pool. Events are the first poll of a call,
the ends of awaits, and the drop of a call, in any order. Calls and connections are numbered in the order in
which they are made. A panic with the guard poisons the mutex, after which every try panics.

## What is proved

* `run_try`: a try, event by event, is `AsyncClient.tryExchange`.
* `blocked_iff`: a run comes to a state in which the thread is blocked in `conn.lock()`, with the guard held by a
  call that only this thread could poll, exactly when a call comes to a try while another has the guard
  (`Uncontended`).
-/

namespace RctPower

open RctPower.Lib.Rust RctPower.Lib.EarlyExit RctPower.Lib.Machine

/-- A try of a call. -/
structure Trying where
  /-- The number of the call. -/
  number : ℕ
  /-- The call. -/
  method : Method
  /-- The frame. -/
  frame : List UInt8
  /-- The type of the value. -/
  respType : DataType
  /-- What the call does with the result. -/
  next : Except RctError DataValue → Script

/-- The await at which a try is suspended. -/
inductive Await where
  /-- `TcpStream::connect`. -/
  | connecting
  /-- `write_all`. -/
  | writing
  /-- `read`. -/
  | receiving (rx : ReceiveFrame)

/-- What a call returns. -/
structure AsyncReturned where
  /-- Its number. -/
  number : ℕ
  /-- The call. -/
  method : Method
  /-- The result. -/
  result : Except RctError DataValue

/-- The calls, the mutex and the pool. -/
structure AsyncState where
  /-- How many calls there have been. -/
  calls : ℕ
  /-- The calls that sleep, with what they do then. -/
  sleeping : ℕ → Option (Method × Script)
  /-- The try that has the guard. -/
  holder : Option (Trying × Await)
  /-- The call in which the thread is blocked, in `conn.lock()`. -/
  stuck : Option ℕ
  /-- The mutex is poisoned. -/
  poisoned : Bool
  /-- The pooled connection. -/
  pool : Option ℕ
  /-- The number of connections made. -/
  made : ℕ
  /-- What a call has returned in the last event. -/
  ret : Option AsyncReturned

/-- What happens to a client. -/
inductive AsyncEvent where
  /-- A call is polled for the first time. -/
  | called (m : Method)
  /-- The sleep of a call ends. -/
  | slept (i : ℕ)
  /-- The connect ends. -/
  | connected (r : Timed Unit)
  /-- The write ends. -/
  | wrote (r : Timed Unit)
  /-- A read ends. -/
  | received (ev : ReadEvent (Option IoError))
  /-- A call is dropped at its await; if that is the write, the request can be `sent` even so. -/
  | cancelled (i : ℕ) (sent : Bool)

/-- A call that goes on with a script comes to a try before it waits. -/
def Script.locks : Script → Bool
  | .attempt .. => true
  | _ => false

namespace AsyncState

/-- Before the first call. -/
def start : AsyncState := ⟨0, fun _ => none, none, none, false, none, 0, none⟩

/-- The thread runs a call, up to the next await. -/
def onward (c : AsyncState) (number : ℕ) (method : Method) : Script → AsyncState
  | .done result => { c with ret := some ⟨number, method, result⟩ }
  | .panics _ => c
  | .sleep next => { c with sleeping := Function.update c.sleeping number (some (method, next)) }
  | .attempt frame respType next =>
    match c.holder with
    | some _ => { c with stuck := some number }
    | none =>
      -- `lock()` gives an error, and `expect` panics
      if c.poisoned then c
      else
        { c with
          holder := some (⟨number, method, frame, respType, next⟩, if c.pool.isNone then .connecting else .writing) }

/-- A try ends: the guard is dropped, and before that the connection after an error. -/
def finishTry (c : AsyncState) (cur : Trying) (result : Except RctError DataValue) : AsyncState :=
  { c with
    holder := none
    pool := if result.isOk then c.pool else none }.onward cur.number cur.method (cur.next result)

/-- A try panics. -/
def poison (c : AsyncState) : AsyncState := { c with holder := none, poisoned := true }

/-- A call is polled for the first time. -/
def onCalled (prof : Profile) (cfg : ClientConfig) (c : AsyncState) (m : Method) : AsyncState :=
  { c with calls := c.calls + 1 }.onward c.calls m (m.script prof cfg)

/-- A sleep ends. -/
def onSlept (c : AsyncState) (i : ℕ) : Option AsyncState :=
  (c.sleeping i).map fun (m, next) => { c with sleeping := Function.update c.sleeping i none }.onward i m next

/-- The connect ends. -/
def onConnected (c : AsyncState) (r : Timed Unit) : Option AsyncState :=
  match c.holder with
  | some (cur, .connecting) =>
    some <|
      match r with
      | .error e => c.finishTry cur (.error (timedError e))
      | .ok () => { c with holder := some (cur, .writing), pool := some c.made, made := c.made + 1 }
  | _ => none

/-- The write ends. -/
def onWrote (c : AsyncState) (r : Timed Unit) : Option AsyncState :=
  match c.holder with
  | some (cur, .writing) =>
    some <|
      match r with
      | .error e => c.finishTry cur (.error (timedError e))
      | .ok () => { c with holder := some (cur, .receiving (.new false)) }
  | _ => none

/-- A frame is complete. -/
def onComplete (c : AsyncState) (cur : Trying) (rx : ReceiveFrame) : AsyncState :=
  match AsyncClient.finish cur.respType rx with
  | .error _ => c.poison
  | .ok result => c.finishTry cur result

/-- A read ends. -/
def onReceived (c : AsyncState) (ev : ReadEvent (Option IoError)) : Option AsyncState :=
  match c.holder with
  | some (cur, .receiving rx) =>
    some <|
      match readOnce AsyncClient.policy rx ev with
      | .next rx' => { c with holder := some (cur, .receiving rx') }
      | .ret _ (.error e) => c.finishTry cur (.error e)
      | .ret rx' (.ok ()) => c.onComplete cur rx'
      | .panics _ => c.poison
  | _ => none

/-- A call has the guard. -/
def holds (c : AsyncState) (i : ℕ) : Bool := c.holder.any fun held => held.1.number = i

/-- A call is dropped: so is its guard, and the connection stays where it is. -/
def onCancelled (c : AsyncState) (i : ℕ) : Option AsyncState :=
  if c.holds i then some { c with holder := none }
  else (c.sleeping i).map fun _ => { c with sleeping := Function.update c.sleeping i none }

/-- An event that the thread comes to. -/
def handle (prof : Profile) (cfg : ClientConfig) (c : AsyncState) : AsyncEvent → Option AsyncState
  | .called m => some (c.onCalled prof cfg m)
  | .slept i => c.onSlept i
  | .connected r => c.onConnected r
  | .wrote r => c.onWrote r
  | .received ev => c.onReceived ev
  | .cancelled i _ => c.onCancelled i

/-- One event, if it can happen: none can when the thread is blocked. -/
def step (prof : Profile) (cfg : ClientConfig) (c : AsyncState) (ev : AsyncEvent) : Option AsyncState :=
  match c.stuck with
  | some _ => none
  | none => { c with ret := none }.handle prof cfg ev

variable {prof : Profile} {cfg : ClientConfig} {c c' : AsyncState} {cur : Trying} {number : ℕ} {method : Method}
  {script : Script}

/-! ### What a call does up to its next await -/

section Onward

@[simp] theorem onward_pool : (c.onward number method script).pool = c.pool := by
  unfold onward
  split
  · rfl
  · rfl
  · rfl
  · split
    · rfl
    · split <;> rfl

theorem onward_stuck :
    (c.onward number method script).stuck =
      if c.holder.isSome ∧ script.locks = true then some number else c.stuck := by
  unfold onward
  cases script with
  | attempt frame respType next =>
    cases hholder : c.holder with
    | none =>
      simp only [Option.isSome_none, Bool.false_eq_true, false_and, if_false]
      split <;> rfl
    | some held => simp [Script.locks]
  | _ => simp [Script.locks]

/-- The guard is where it was, or the call has taken it for a try. -/
theorem of_onward_holder {wait : Await} (h : (c.onward number method script).holder = some (cur, wait)) :
    c.holder = some (cur, wait) ∨
      c.holder = none ∧ cur.number = number ∧ cur.method = method ∧ script = .attempt cur.frame cur.respType cur.next ∧
        wait = if c.pool.isNone then .connecting else .writing := by
  unfold onward at h
  split at h
  · exact .inl h
  · exact .inl h
  · exact .inl h
  · split at h
    · exact .inl h
    · next hnone =>
      split at h
      · exact .inl h
      · cases h
        exact .inr ⟨hnone, rfl, rfl, rfl, rfl⟩

theorem onward_holder_of_some {held : Trying × Await} (h : c.holder = some held) :
    (c.onward number method script).holder = some held := by
  unfold onward
  cases script with
  | attempt frame respType next => simp only [h]
  | _ => exact h

/-- Only a call that is done returns. -/
theorem of_onward_ret {ret : AsyncReturned} (h : (c.onward number method script).ret = some ret) :
    c.ret = some ret ∨ ret.number = number ∧ ret.method = method ∧ script = .done ret.result := by
  unfold onward at h
  split at h
  · cases h
    exact .inr ⟨rfl, rfl, rfl⟩
  · exact .inl h
  · exact .inl h
  · split at h
    · exact .inl h
    · split_ifs at h <;> exact .inl h

end Onward

/-! ### What an event does -/

section Events

theorem of_onSlept {i : ℕ} (h : c.onSlept i = some c') :
    ∃ m next, c.sleeping i = some (m, next) ∧
      c' = { c with sleeping := Function.update c.sleeping i none }.onward i m next := by
  obtain ⟨⟨m, next⟩, hsleeping, rfl⟩ := Option.map_eq_some_iff.mp h
  exact ⟨m, next, hsleeping, rfl⟩

theorem of_onConnected {r : Timed Unit} (h : c.onConnected r = some c') :
    ∃ cur, c.holder = some (cur, .connecting) ∧
      ((∃ e, r = .error e ∧ c' = c.finishTry cur (.error (timedError e))) ∨
        r = .ok () ∧ c' = { c with holder := some (cur, .writing), pool := some c.made, made := c.made + 1 }) := by
  rw [onConnected] at h
  split at h
  · next cur hholder =>
    refine ⟨cur, hholder, ?_⟩
    cases r with
    | error e => exact .inl ⟨e, rfl, (Option.some.inj h).symm⟩
    | ok u => exact .inr ⟨rfl, (Option.some.inj h).symm⟩
  · cases h

theorem of_onWrote {r : Timed Unit} (h : c.onWrote r = some c') :
    ∃ cur, c.holder = some (cur, .writing) ∧
      ((∃ e, r = .error e ∧ c' = c.finishTry cur (.error (timedError e))) ∨
        r = .ok () ∧ c' = { c with holder := some (cur, .receiving (.new false)) }) := by
  rw [onWrote] at h
  split at h
  · next cur hholder =>
    refine ⟨cur, hholder, ?_⟩
    cases r with
    | error e => exact .inl ⟨e, rfl, (Option.some.inj h).symm⟩
    | ok u => exact .inr ⟨rfl, (Option.some.inj h).symm⟩
  · cases h

/-- The payload of a complete frame is always made something of. -/
theorem finish_checked (respType : DataType) (rx : ReceiveFrame) : ∃ r, AsyncClient.finish respType rx = .ok r := by
  rw [AsyncClient.finish]
  split
  · exact ⟨_, rfl⟩
  · exact decodeValue_checked respType rx.data

theorem of_onReceived {ev : ReadEvent (Option IoError)} (h : c.onReceived ev = some c') :
    ∃ cur rx, c.holder = some (cur, .receiving rx) ∧
      ((∃ rx', readOnce AsyncClient.policy rx ev = .next rx' ∧ c' = { c with holder := some (cur, .receiving rx') }) ∨
        (∃ e, c' = c.finishTry cur (.error e)) ∨
        (∃ rx' v, readOnce AsyncClient.policy rx ev = .ret rx' (.ok ()) ∧
          AsyncClient.finish cur.respType rx' = .ok (.ok v) ∧ c' = c.finishTry cur (.ok v)) ∨
        ∃ p, readOnce AsyncClient.policy rx ev = .panics p ∧ c' = c.poison) := by
  rw [onReceived] at h
  split at h
  · next cur rx hholder =>
    refine ⟨cur, rx, hholder, ?_⟩
    have heq := (Option.some.inj h).symm
    split at heq
    · next rx' hread => exact .inl ⟨rx', hread, heq⟩
    · next e hread => exact .inr (.inl ⟨e, heq⟩)
    · next rx' hread =>
      obtain ⟨r, hr⟩ := finish_checked cur.respType rx'
      simp only [onComplete, hr] at heq
      cases r with
      | error e => exact .inr (.inl ⟨e, heq⟩)
      | ok v => exact .inr (.inr (.inl ⟨rx', v, hread, hr, heq⟩))
    · next p hread => exact .inr (.inr (.inr ⟨p, hread, heq⟩))
  · cases h

theorem of_onCancelled {i : ℕ} (h : c.onCancelled i = some c') :
    (c.holds i = true ∧ c' = { c with holder := none }) ∨
      c.holds i = false ∧ c' = { c with sleeping := Function.update c.sleeping i none } := by
  rw [onCancelled] at h
  split_ifs at h with hholds
  · exact .inl ⟨hholds, (Option.some.inj h).symm⟩
  · obtain ⟨call, -, rfl⟩ := Option.map_eq_some_iff.mp h
    exact .inr ⟨Bool.eq_false_iff.mpr hholds, rfl⟩

/-- The end of an await: the try ends, comes to another await, or panics. -/
inductive Awaited (c : AsyncState) (cur : Trying) : AsyncState → Prop where
  /-- It ends. -/
  | finishes (result : Except RctError DataValue) : Awaited c cur (c.finishTry cur result)
  /-- It goes on. -/
  | waits (wait : Await) (pool : Option ℕ) (made : ℕ) :
    Awaited c cur { c with holder := some (cur, wait), pool, made }
  /-- It panics. -/
  | panics : Awaited c cur c.poison

theorem awaited_of_onConnected {r : Timed Unit} (h : c.onConnected r = some c') :
    ∃ cur wait, c.holder = some (cur, wait) ∧ Awaited c cur c' := by
  obtain ⟨cur, hholder, ⟨e, -, rfl⟩ | ⟨-, rfl⟩⟩ := of_onConnected h
  · exact ⟨cur, _, hholder, .finishes _⟩
  · exact ⟨cur, _, hholder, .waits ..⟩

theorem awaited_of_onWrote {r : Timed Unit} (h : c.onWrote r = some c') :
    ∃ cur wait, c.holder = some (cur, wait) ∧ Awaited c cur c' := by
  obtain ⟨cur, hholder, ⟨e, -, rfl⟩ | ⟨-, rfl⟩⟩ := of_onWrote h
  · exact ⟨cur, _, hholder, .finishes _⟩
  · exact ⟨cur, _, hholder, .waits ..⟩

theorem awaited_of_onReceived {ev : ReadEvent (Option IoError)} (h : c.onReceived ev = some c') :
    ∃ cur wait, c.holder = some (cur, wait) ∧ Awaited c cur c' := by
  obtain ⟨cur, rx, hholder, ⟨rx', -, rfl⟩ | ⟨e, rfl⟩ | ⟨rx', v, -, -, rfl⟩ | ⟨p, -, rfl⟩⟩ := of_onReceived h
  · exact ⟨cur, _, hholder, .waits ..⟩
  · exact ⟨cur, _, hholder, .finishes _⟩
  · exact ⟨cur, _, hholder, .finishes _⟩
  · exact ⟨cur, _, hholder, .panics⟩

/-- Nothing happens once the thread is blocked. -/
theorem of_step {ev : AsyncEvent} (h : c.step prof cfg ev = some c') :
    c.stuck = none ∧ { c with ret := none }.handle prof cfg ev = some c' := by
  rw [step] at h
  split at h
  · cases h
  · next hstuck => exact ⟨hstuck, h⟩

end Events

/-! ### A try as a whole -/

section Tries

/-- The events of one try. -/
def tryEvents (pooled : Bool) (env : AsyncTry) : List AsyncEvent :=
  (if pooled then [] else [.connected env.connected]) ++ .wrote env.written :: env.reads.map .received

/-- No other call has done anything, and none has come. -/
structure SameCalls (c c' : AsyncState) : Prop where
  /-- There are no new calls. -/
  calls : c'.calls = c.calls
  /-- The same ones sleep. -/
  sleeping : c'.sleeping = c.sleeping

theorem step_eq (hstuck : c.stuck = none) (ev : AsyncEvent) :
    c.step prof cfg ev = { c with ret := none }.handle prof cfg ev := by
  simp only [step, hstuck]

/-- Turns that all go on. -/
theorem run_received (hstuck : c.stuck = none) (hret : c.ret = none) {rx rx' : ReceiveFrame}
    {evs : List (ReadEvent (Option IoError))} (h : passed (readOnce AsyncClient.policy) rx evs = some rx') :
    run (step prof cfg) { c with holder := some (cur, .receiving rx) } (evs.map .received) =
      some { c with holder := some (cur, .receiving rx') } := by
  refine run_of_pass (fun rx => { c with holder := some (cur, .receiving rx) }) ?_ h
  intro rx ev rx' hev
  simp only [step, hstuck, hret, handle, onReceived, hev]

/-- The receive loop, event by event: the try ends with an error, or with what is made of the frame. -/
theorem run_reads (hstuck : c.stuck = none) {reads : List (ReadEvent (Option IoError))}
    {r : Except RctError ReceiveFrame} {value : Except RctError DataValue}
    (hreceive : receive AsyncClient.policy reads = .ok (some r))
    (hr : (∃ e, r = .error e ∧ value = .error e) ∨ ∃ rx, r = .ok rx ∧ AsyncClient.finish cur.respType rx = .ok value) :
    ∃ evs c', evs <+: reads.map .received ∧
      run (step prof cfg) { c with holder := some (cur, .receiving (.new false)), ret := none } evs =
        some (c'.finishTry cur value) ∧ c'.pool = c.pool ∧ SameCalls c c' := by
  obtain ⟨before, ev, unread, rx, rx', r', rfl, hbefore, hev, rfl⟩ := receive_stop hreceive
  have hpassed : run (step prof cfg) { c with holder := some (cur, .receiving (.new false)), ret := none }
      (before.map .received) = some { c with holder := some (cur, .receiving rx), ret := none } :=
    run_received (c := { c with ret := none }) hstuck rfl hbefore
  -- the try ends with its last turn
  have hstop : step prof cfg { c with holder := some (cur, .receiving rx), ret := none } (.received ev) =
      some ({ c with holder := some (cur, .receiving rx), ret := none }.finishTry cur value) := by
    simp only [step, hstuck, handle, onReceived, hev]
    rcases hr with ⟨e, he, rfl⟩ | ⟨rx₁, hrx, hfinish⟩
    · cases r' with
      | ok u => cases he
      | error e' =>
        cases he
        rfl
    · cases r' with
      | error e => cases hrx
      | ok u =>
        cases hrx
        simp only [onComplete, hfinish]
  refine ⟨before.map .received ++ [.received ev], { c with holder := some (cur, .receiving rx), ret := none },
    ⟨unread.map .received, by simp⟩, ?_, rfl, rfl, rfl⟩
  rw [run_append, hpassed, Option.bind_some]
  simp only [run, hstop, Option.bind_some]

/-- The exchange on a connection, event by event. -/
theorem run_exchangeOn (hstuck : c.stuck = none) (hholder : c.holder = some (cur, .writing)) {env : AsyncTry}
    {r : Except RctError DataValue} (h : AsyncClient.exchangeOn cur.respType env = .ok (some r)) :
    ∃ evs c', evs <+: .wrote env.written :: env.reads.map .received ∧
      run (step prof cfg) c evs = some (c'.finishTry cur r) ∧ c'.pool = c.pool ∧ SameCalls c c' := by
  have hreads : ∀ {evs : List AsyncEvent} {c' : AsyncState}, env.written = .ok () → evs <+: env.reads.map .received →
      run (step prof cfg) { c with holder := some (cur, .receiving (.new false)), ret := none } evs =
        some (c'.finishTry cur r) →
      c'.pool = c.pool → SameCalls c c' →
      ∃ evs c', evs <+: .wrote env.written :: env.reads.map .received ∧
        run (step prof cfg) c evs = some (c'.finishTry cur r) ∧ c'.pool = c.pool ∧ SameCalls c c' := by
    intro evs c' hwritten hevs hrun hpool hsame
    have hwrote : c.step prof cfg (.wrote env.written) =
        some { c with holder := some (cur, .receiving (.new false)), ret := none } := by
      simp only [step_eq hstuck, handle, onWrote, hholder, hwritten]
    refine ⟨.wrote env.written :: evs, c', List.cons_prefix_cons.mpr ⟨rfl, hevs⟩, ?_, hpool, hsame⟩
    rw [run, hwrote, Option.bind_some, hrun]
  cases AsyncClient.exchangeEnds_of_ok h with
  | unwritten hwritten =>
    refine ⟨[.wrote env.written], { c with ret := none }, by simp, ?_, rfl, rfl, rfl⟩
    simp only [run, step_eq hstuck, handle, onWrote, hholder, hwritten, Option.bind_some]
  | failed hwritten hreceived =>
    obtain ⟨evs, c', hevs, hrun, hpool, hsame⟩ := run_reads hstuck hreceived (.inl ⟨_, rfl, rfl⟩)
    exact hreads hwritten hevs hrun hpool hsame
  | finished hwritten hreceived hfinish =>
    obtain ⟨evs, c', hevs, hrun, hpool, hsame⟩ := run_reads hstuck hreceived (.inr ⟨_, rfl, hfinish⟩)
    exact hreads hwritten hevs hrun hpool hsame

/-- What a try does when there is a connection, event by event. -/
theorem run_connected (hstuck : c.stuck = none) (hholder : c.holder = some (cur, .writing))
    (hpool : c.pool.isSome = true) {env : AsyncTry} {r : Except RctError DataValue}
    (h : AsyncClient.exchangeOn cur.respType env = .ok (some r)) :
    ∃ evs c', evs <+: .wrote env.written :: env.reads.map .received ∧
      run (step prof cfg) c evs = some (c'.finishTry cur r) ∧ (c'.finishTry cur r).pool.isSome = r.isOk ∧
      SameCalls c c' := by
  obtain ⟨evs, c', hevs, hrun, hpool', hsame⟩ := run_exchangeOn hstuck hholder h
  refine ⟨evs, c', hevs, hrun, ?_, hsame⟩
  rw [finishTry, onward_pool, hpool']
  cases r with
  | ok v => exact hpool
  | error e => rfl

/-- **A try, event by event, is `AsyncClient.tryExchange`**: the call goes on with what that returns, and what it
leaves in the pool is left there. -/
theorem run_try (hstuck : c.stuck = none)
    (hholder : c.holder = some (cur, if c.pool.isNone then .connecting else .writing)) {env : AsyncTry}
    {out : Outcome DataValue}
    (h : AsyncClient.tryExchange cur.frame cur.respType c.pool.isSome env = .ok (some out)) :
    ∃ evs c', evs <+: tryEvents c.pool.isSome env ∧ run (step prof cfg) c evs = some (c'.finishTry cur out.result) ∧
      (c'.finishTry cur out.result).pool.isSome = out.pooled ∧ SameCalls c c' := by
  cases AsyncClient.ends_of_ok h with
  | @unconnected e hpool hconnected =>
    rw [Option.isSome_eq_false_iff, Option.isNone_iff_eq_none] at hpool
    simp only [hpool, Option.isNone_none, if_true] at hholder
    refine ⟨[.connected env.connected], { c with ret := none }, by simp [tryEvents, hpool], ?_, ?_, rfl, rfl⟩
    · simp only [run, step_eq hstuck, handle, onConnected, hholder, hconnected, Option.bind_some]
    · rw [finishTry, onward_pool]
      rfl
  | exchanged hconnected hexchanged =>
    cases hpool : c.pool with
    | some n =>
      simp only [hpool, Option.isNone_some, Bool.false_eq_true, if_false] at hholder
      exact run_connected hstuck hholder (by rw [hpool]; rfl) hexchanged
    | none =>
      simp only [hpool, Option.isNone_none, if_true] at hholder
      have hconnected : env.connected = .ok () := hconnected.resolve_left (by simp [hpool])
      have hstep : c.step prof cfg (.connected env.connected) = some
          { c with holder := some (cur, .writing), pool := some c.made, made := c.made + 1, ret := none } := by
        simp only [step_eq hstuck, handle, onConnected, hholder, hconnected]
      obtain ⟨evs, c', hevs, hrun, hpool', hcalls, hsleeping⟩ := run_connected
        (c := { c with holder := some (cur, .writing), pool := some c.made, made := c.made + 1, ret := none })
        hstuck rfl rfl hexchanged
      refine ⟨.connected env.connected :: evs, c', ?_, ?_, hpool', hcalls, hsleeping⟩
      · exact List.cons_prefix_cons.mpr ⟨rfl, hevs⟩
      · rw [run, hstep, Option.bind_some, hrun]

end Tries

/-! ### Who has the guard -/

/-- The thread is blocked in `conn.lock()` of one call while another, suspended at an await, has the guard. -/
def Blocked (c : AsyncState) : Prop :=
  ∃ i cur wait, c.stuck = some i ∧ c.holder = some (cur, wait) ∧ cur.number ≠ i

/-- A call does one thing at a time. -/
structure Numbered (c : AsyncState) : Prop where
  /-- The call that has the guard does not sleep. -/
  holder : ∀ cur wait, c.holder = some (cur, wait) → cur.number < c.calls ∧ c.sleeping cur.number = none
  /-- Only calls sleep. -/
  sleeping : ∀ i, c.sleeping i ≠ none → i < c.calls
  /-- The thread is blocked by another call. -/
  stuck : ∀ i, c.stuck = some i → ∃ cur wait, c.holder = some (cur, wait) ∧ cur.number ≠ i

theorem numbered_start : start.Numbered :=
  ⟨by rintro _ _ ⟨⟩, fun _ h => absurd rfl h, by rintro _ ⟨⟩⟩

theorem Numbered.blocked_iff_stuck (h : c.Numbered) : c.Blocked ↔ c.stuck ≠ none := by
  constructor
  · rintro ⟨i, cur, wait, hstuck, -, -⟩
    simp [hstuck]
  · intro hstuck
    obtain ⟨i, hi⟩ := Option.ne_none_iff_exists'.mp hstuck
    obtain ⟨cur, wait, hholder, hne⟩ := h.stuck i hi
    exact ⟨i, cur, wait, hi, hholder, hne⟩

/-- A call that goes on without the guard, and does not sleep. -/
theorem Numbered.onward (h : c.Numbered) (hnumber : number < c.calls) (hsleeping : c.sleeping number = none)
    (hother : ∀ cur wait, c.holder = some (cur, wait) → cur.number ≠ number) :
    (c.onward number method script).Numbered := by
  unfold AsyncState.onward
  split
  · exact ⟨h.holder, h.sleeping, h.stuck⟩
  · exact h
  · refine ⟨?_, ?_, h.stuck⟩
    · intro cur wait hholder
      obtain ⟨hlt, hnone⟩ := h.holder cur wait hholder
      refine ⟨hlt, ?_⟩
      dsimp only
      rw [Function.update_of_ne (hother cur wait hholder)]
      exact hnone
    · intro i hi
      by_cases heq : i = number
      · rw [heq]
        exact hnumber
      · dsimp only at hi
        rw [Function.update_of_ne heq] at hi
        exact h.sleeping i hi
  · split
    · next held hholder =>
      refine ⟨h.holder, h.sleeping, ?_⟩
      intro i hi
      cases hi
      exact ⟨held.1, held.2, hholder, hother held.1 held.2 hholder⟩
    · next hnone =>
      split
      · exact h
      · refine ⟨?_, h.sleeping, ?_⟩
        · intro cur wait hholder
          cases hholder
          exact ⟨hnumber, hsleeping⟩
        · intro i hi
          obtain ⟨cur, wait, hholder, -⟩ := h.stuck i hi
          cases hnone.symm.trans hholder

/-- The guard is dropped while the thread runs. -/
theorem Numbered.release (h : c.Numbered) (hstuck : c.stuck = none) (pool : Option ℕ) (poisoned : Bool) :
    { c with holder := none, pool, poisoned }.Numbered :=
  ⟨by rintro _ _ ⟨⟩, h.sleeping, fun _ hi => by cases hstuck.symm.trans hi⟩

/-- The try comes to another await. -/
theorem Numbered.wait (h : c.Numbered) (hstuck : c.stuck = none) {wait wait' : Await}
    (hholder : c.holder = some (cur, wait)) {pool : Option ℕ} {made : ℕ} :
    { c with holder := some (cur, wait'), pool, made }.Numbered := by
  refine ⟨?_, h.sleeping, fun _ hi => by cases hstuck.symm.trans hi⟩
  intro cur' wait'' hholder'
  cases hholder'
  exact h.holder cur wait hholder

/-- A call sleeps no longer. -/
theorem Numbered.wake (h : c.Numbered) (i : ℕ) :
    { c with sleeping := Function.update c.sleeping i none }.Numbered := by
  have hupdate : ∀ j, Function.update c.sleeping i none j ≠ none → c.sleeping j ≠ none := by
    intro j hj
    by_cases heq : j = i
    · subst heq
      exact absurd (Function.update_self ..) hj
    · rwa [Function.update_of_ne heq] at hj
  refine ⟨?_, fun j hj => h.sleeping j (hupdate j hj), h.stuck⟩
  intro cur wait hholder
  obtain ⟨hlt, hnone⟩ := h.holder cur wait hholder
  refine ⟨hlt, ?_⟩
  by_contra hne
  exact hupdate _ hne hnone

theorem Numbered.finishTry (h : c.Numbered) (hstuck : c.stuck = none) {wait : Await}
    (hholder : c.holder = some (cur, wait)) (result : Except RctError DataValue) :
    (c.finishTry cur result).Numbered := by
  obtain ⟨hlt, hnone⟩ := h.holder cur wait hholder
  exact (h.release hstuck _ c.poisoned).onward hlt hnone (by rintro _ _ ⟨⟩)

theorem Numbered.awaited (h : c.Numbered) (hstuck : c.stuck = none) {wait : Await}
    (hholder : c.holder = some (cur, wait)) (hawaited : Awaited c cur c') : c'.Numbered := by
  cases hawaited with
  | finishes result => exact h.finishTry hstuck hholder result
  | waits => exact h.wait hstuck hholder
  | panics => exact h.release hstuck c.pool true

theorem Numbered.cancel (h : c.Numbered) (hstuck : c.stuck = none) {i : ℕ} (hstep : c.onCancelled i = some c') :
    c'.Numbered := by
  rcases of_onCancelled hstep with ⟨-, rfl⟩ | ⟨-, rfl⟩
  · exact h.release hstuck c.pool c.poisoned
  · exact h.wake i

/-- A step of the client. -/
theorem Numbered.step (h : c.Numbered) {ev : AsyncEvent} (hstep : c.step prof cfg ev = some c') : c'.Numbered := by
  obtain ⟨hstuck, hhandle⟩ := of_step hstep
  have hclear : { c with ret := none }.Numbered := ⟨h.holder, h.sleeping, h.stuck⟩
  cases ev with
  | called m =>
    cases hhandle
    have hcalled : { c with ret := none, calls := c.calls + 1 }.Numbered := by
      refine ⟨?_, fun i hi => Nat.lt_succ_of_lt (h.sleeping i hi), h.stuck⟩
      intro cur wait hholder
      obtain ⟨hlt, hnone⟩ := h.holder cur wait hholder
      exact ⟨Nat.lt_succ_of_lt hlt, hnone⟩
    refine hcalled.onward c.calls.lt_succ_self ?_ ?_
    · by_contra hne
      exact absurd (h.sleeping c.calls hne) (lt_irrefl _)
    · intro cur wait hholder
      exact (h.holder cur wait hholder).1.ne
  | slept i =>
    obtain ⟨m, next, hsleeping, rfl⟩ := of_onSlept hhandle
    refine (hclear.wake i).onward (h.sleeping i ?_) (Function.update_self ..) ?_
    · intro hnone
      cases hsleeping.symm.trans hnone
    · rintro cur wait hholder rfl
      cases hsleeping.symm.trans (h.holder cur wait hholder).2
  | connected r =>
    obtain ⟨cur, wait, hholder, hawaited⟩ := awaited_of_onConnected hhandle
    exact hclear.awaited hstuck hholder hawaited
  | wrote r =>
    obtain ⟨cur, wait, hholder, hawaited⟩ := awaited_of_onWrote hhandle
    exact hclear.awaited hstuck hholder hawaited
  | received ev =>
    obtain ⟨cur, wait, hholder, hawaited⟩ := awaited_of_onReceived hhandle
    exact hclear.awaited hstuck hholder hawaited
  | cancelled i sent => exact hclear.cancel hstuck hhandle

/-! ### When the thread is blocked -/

/-- No call comes to a try while another has the guard: it is not polled for the first time, and does not wake up. -/
def Uncontended (prof : Profile) (cfg : ClientConfig) (c : AsyncState) : AsyncEvent → Prop
  | .called m => c.holder.isSome = true → (m.script prof cfg).locks = false
  | .slept i => c.holder.isSome = true → ∀ call ∈ c.sleeping i, call.2.locks = false
  | _ => True

instance (c : AsyncState) : (ev : AsyncEvent) → Decidable (c.Uncontended prof cfg ev)
  | .called m => inferInstanceAs (Decidable (c.holder.isSome = true → (m.script prof cfg).locks = false))
  | .slept i => inferInstanceAs (Decidable (c.holder.isSome = true → ∀ call ∈ c.sleeping i, call.2.locks = false))
  | .connected _ | .wrote _ | .received _ | .cancelled _ _ => inferInstanceAs (Decidable True)

/-- A try that goes on with the guard, or drops it, is not in the way of itself. -/
theorem stuck_awaited (hstuck : c.stuck = none) (h : Awaited c cur c') : c'.stuck = none := by
  cases h with
  | finishes result =>
    rw [finishTry, onward_stuck, if_neg (by simp)]
    exact hstuck
  | waits => exact hstuck
  | panics => exact hstuck

/-- **What blocks the thread.** -/
theorem stuck_step {ev : AsyncEvent} (hstep : c.step prof cfg ev = some c') :
    c'.stuck = none ↔ c.Uncontended prof cfg ev := by
  obtain ⟨hstuck, hhandle⟩ := of_step hstep
  have hclear : { c with ret := none }.stuck = none := hstuck
  have honward : ∀ {c₀ : AsyncState} {number method script}, c₀.stuck = none → c₀.holder = c.holder →
      ((c₀.onward number method script).stuck = none ↔ (c.holder.isSome = true → script.locks = false)) := by
    intro c₀ number method script hnone hholder
    rw [onward_stuck, hholder]
    split_ifs with hlocks
    · simp [hlocks]
    · refine iff_of_true hnone fun hsome => ?_
      exact Bool.eq_false_iff.mpr fun h => hlocks ⟨hsome, h⟩
  cases ev with
  | called m =>
    cases hhandle
    exact honward hstuck rfl
  | slept i =>
    obtain ⟨m, next, hsleeping, rfl⟩ := of_onSlept hhandle
    have hi : c.sleeping i = some (m, next) := hsleeping
    simp only [Uncontended, hi, Option.mem_def, Option.some.injEq, forall_eq']
    exact honward hstuck rfl
  | connected r =>
    obtain ⟨cur, -, -, hawaited⟩ := awaited_of_onConnected hhandle
    exact iff_of_true (stuck_awaited hclear hawaited) trivial
  | wrote r =>
    obtain ⟨cur, -, -, hawaited⟩ := awaited_of_onWrote hhandle
    exact iff_of_true (stuck_awaited hclear hawaited) trivial
  | received ev =>
    obtain ⟨cur, -, -, hawaited⟩ := awaited_of_onReceived hhandle
    exact iff_of_true (stuck_awaited hclear hawaited) trivial
  | cancelled i sent =>
    rcases of_onCancelled hhandle with ⟨-, rfl⟩ | ⟨-, rfl⟩
    · exact iff_of_true hstuck trivial
    · exact iff_of_true hstuck trivial

/-- The thread stays blocked. -/
theorem stuck_run {evs : List AsyncEvent} (hstuck : c.stuck = none) (h : run (step prof cfg) c evs = some c') :
    c'.stuck = none ↔ Meets (step prof cfg) (Uncontended prof cfg) c evs := by
  induction evs generalizing c with
  | nil =>
    obtain rfl : c = c' := by simpa [run] using h
    exact iff_of_true hstuck trivial
  | cons ev evs ih =>
    obtain ⟨t, hstep, hrun⟩ := Option.bind_eq_some_iff.mp h
    rw [Meets, hstep, ← stuck_step hstep]
    cases ht : t.stuck with
    | none => simpa using ih ht hrun
    | some i =>
      refine iff_of_false ?_ fun h => by cases h.1
      cases evs with
      | nil =>
        obtain rfl : t = c' := by simpa [run] using hrun
        simp [ht]
      | cons ev' evs =>
        obtain ⟨t', hstep', -⟩ := Option.bind_eq_some_iff.mp hrun
        cases ht.symm.trans (of_step hstep').1

/-- **The thread comes to be blocked exactly when a call comes to a try while another has the guard.** -/
theorem blocked_iff {evs : List AsyncEvent} (h : run (step prof cfg) start evs = some c) :
    ¬ c.Blocked ↔ Meets (step prof cfg) (Uncontended prof cfg) start evs := by
  have hnumbered : c.Numbered := run_induction (fun hc hstep => hc.step hstep) numbered_start h
  rw [hnumbered.blocked_iff_stuck, not_not]
  exact stuck_run rfl h

theorem blocked_iff_in_turn :
    let obj : ObjectInfo := ⟨.battery, 0x959930BF, 545, "battery.soc", .float, .float, "", "", ""⟩
    let evs : List AsyncEvent := [.called (.read obj), .connected (.error none), .called (.read obj)]
    ∃ c, run (step .debug ⟨5, 1⟩) start evs = some c ∧ ¬ c.Blocked := by
  intro obj evs
  have hsome : (run (step .debug ⟨5, 1⟩) start evs).isSome = true := by decide +kernel
  obtain ⟨c, hc⟩ := Option.isSome_iff_exists.mp hsome
  exact ⟨c, hc, (blocked_iff hc).mpr (by decide +kernel)⟩

/-- Two reads: the second is polled while the first waits for its connection. -/
theorem blocked_two_reads :
    let obj : ObjectInfo := ⟨.battery, 0x959930BF, 545, "battery.soc", .float, .float, "", "", ""⟩
    ∃ c, run (step .debug ⟨5, 1⟩) start [.called (.read obj), .called (.read obj)] = some c ∧ c.Blocked := by
  intro obj
  have hrun : (run (step .debug ⟨5, 1⟩) start [.called (.read obj), .called (.read obj)]).map
      (fun c => (c.stuck, c.holder.map (·.1.number))) = some (some 1, some 0) := by
    decide +kernel
  obtain ⟨c, hc, heq⟩ := Option.map_eq_some_iff.mp hrun
  obtain ⟨hstuck, hholder⟩ := Prod.mk.inj heq
  obtain ⟨⟨cur, wait⟩, hcur, hnumber⟩ := Option.map_eq_some_iff.mp hholder
  exact ⟨c, hc, 1, cur, wait, hstuck, hcur, by rw [hnumber]; decide⟩

end AsyncState

end RctPower
