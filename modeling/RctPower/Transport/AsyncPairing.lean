import RctPower.Transport.AsyncState
import RctPower.Transport.Pairing

/-!
# The asynchronous client and its device

The calls of an asynchronous client (`AsyncState`) together with every connection that the client has ever made
and the device at the far end, as for the synchronous one (`ClientSystem`). A request whose write fails or is
dropped may have been received even so.

The source of a value that is returned is the answer that the last byte of its frame belongs to.

## What is proved

A try that fails drops its connection, so that nothing is left of it. A call that is dropped at its write or at
a read leaves the connection in the pool, with the answer that the device still owes (`not_paired_abandoned`).

`answers_paired`: as long as no request is written on such a connection while something is left on it (`Clear`),
the source of every value that is returned is the answer to a request of the call that returns it. So it is in
every run in which no call is dropped (`clear_of_uncancelled`).
-/

namespace RctPower

open RctPower.Lib RctPower.Lib.Rust RctPower.Lib.EarlyExit RctPower.Lib.Machine

/-! ### What a call returns -/

/-- Every try of the script is for a value of the type, and the script ends well only right after a try, with its
value. -/
def Script.Faithful (respType : DataType) : Script → Prop
  | .done (.ok _) => False
  | .done (.error _) | .panics _ => True
  | .sleep next => next.Faithful respType
  | .attempt _ ty next =>
    ty = respType ∧ ∀ r, (∃ v, r = .ok v ∧ next r = .done (.ok v)) ∨ (next r).Faithful respType

section Scripts

variable {respType : DataType} {next : Except RctError DataValue → Script}

theorem Script.Faithful.pause {s : Script} (h : s.Faithful respType) (first : Bool) :
    (Script.pause first s).Faithful respType := by
  cases first <;> exact h

theorem faithful_exchangeLoop (frame : List UInt8)
    (hnext : ∀ r, (∃ v, r = .ok v ∧ next r = .done (.ok v)) ∨ (next r).Faithful respType) (left : ℕ) (first : Bool)
    (lastErr : RctError) : (Script.exchangeLoop frame respType next left first lastErr).Faithful respType := by
  induction left generalizing first lastErr with
  | zero =>
    refine (hnext (.error lastErr)).resolve_left ?_
    rintro ⟨v, hv, -⟩
    cases hv
  | succ left ih =>
    apply Script.Faithful.pause
    refine ⟨rfl, fun r => ?_⟩
    cases r with
    | ok v => exact hnext (.ok v)
    | error e => exact .inr (ih false e)

theorem faithful_done (r : Except RctError DataValue) :
    (∃ v, r = .ok v ∧ Script.done r = .done (.ok v)) ∨ (Script.done r).Faithful respType := by
  cases r with
  | ok v => exact .inl ⟨v, rfl, rfl⟩
  | error e => exact .inr trivial

variable (prof : Profile) (cfg : ClientConfig)

theorem faithful_withFrame {request : Checked (Except RctError (List UInt8))} {failed : RctError → Script}
    {next : List UInt8 → Script} (hfailed : ∀ e, (failed e).Faithful respType)
    (hnext : ∀ frame, (next frame).Faithful respType) : (Script.withFrame request failed next).Faithful respType := by
  unfold Script.withFrame
  split
  · trivial
  · exact hfailed _
  · exact hnext _

theorem faithful_read (obj : ObjectInfo)
    (hnext : ∀ r, (∃ v, r = .ok v ∧ next r = .done (.ok v)) ∨ (next r).Faithful obj.responseDataType) :
    (Script.read prof cfg obj next).Faithful obj.responseDataType := by
  refine faithful_withFrame ?_ fun frame => faithful_exchangeLoop frame hnext _ _ _
  intro e
  refine (hnext (.error e)).resolve_left ?_
  rintro ⟨v, hv, -⟩
  cases hv

theorem faithful_verifyLoop (obj : ObjectInfo) (value : DataValue) (frame : List UInt8) (left : ℕ) (first : Bool) :
    (Script.verifyLoop prof cfg obj value frame left first).Faithful obj.responseDataType := by
  induction left generalizing first with
  | zero => trivial
  | succ left ih =>
    obtain ⟨next, herror, hok, hloop⟩ := Script.verifyLoop_succ prof cfg obj value frame left
    have hread : (Script.read prof cfg obj next).Faithful obj.responseDataType := by
      refine faithful_read prof cfg obj fun r => ?_
      cases r with
      | error e =>
        rw [herror]
        exact .inr (ih false)
      | ok v =>
        rw [hok]
        by_cases heq : value.eq v = true
        · exact .inl ⟨v, rfl, if_pos heq⟩
        · rw [if_neg heq]
          exact .inr (ih false)
    rw [hloop]
    cases first with
    | true => exact hread
    | false => exact ⟨rfl, fun _ => .inr hread⟩

/-- A call returns a value only right after the try that has given it. -/
theorem faithful_script (m : Method) : (m.script prof cfg).Faithful m.obj.responseDataType := by
  cases m with
  | read obj => exact faithful_read prof cfg obj faithful_done
  | write obj value =>
    exact faithful_withFrame (fun _ => trivial) fun frame => faithful_exchangeLoop frame faithful_done _ _ _
  | writeAndVerify obj value =>
    refine faithful_withFrame (fun _ => trivial) fun frame => ⟨rfl, fun r => ?_⟩
    cases r with
    | ok v => exact .inl ⟨v, rfl, rfl⟩
    | error e =>
      right
      cases e
      case timeout | emptyPayload => exact faithful_verifyLoop prof cfg obj value frame _ _
      all_goals trivial

end Scripts

namespace AsyncState

variable {prof : Profile} {cfg : ClientConfig} {c c' : AsyncState} {cur : Trying} {number : ℕ} {method : Method}
  {script : Script}

/-- What the calls do next is faithful. -/
structure Faithful (c : AsyncState) : Prop where
  /-- The try that has the guard. -/
  trying : ∀ cur wait, c.holder = some (cur, wait) →
    (Script.attempt cur.frame cur.respType cur.next).Faithful cur.method.obj.responseDataType
  /-- The calls that sleep. -/
  sleeping : ∀ i, ∀ call ∈ c.sleeping i, call.2.Faithful call.1.obj.responseDataType

theorem faithful_start : start.Faithful := ⟨by rintro _ _ ⟨⟩, by rintro _ _ ⟨⟩⟩

theorem Faithful.onward (h : c.Faithful)
    (hscript : script.Faithful method.obj.responseDataType ∨ ∃ r, script = .done r) :
    (c.onward number method script).Faithful := by
  constructor
  · intro cur wait hholder
    rcases of_onward_holder hholder with hold | ⟨-, -, rfl, rfl, -⟩
    · exact h.trying cur wait hold
    · exact hscript.resolve_right (by rintro ⟨r, ⟨⟩⟩)
  · cases script with
    | sleep next =>
      intro i call hcall
      by_cases hi : i = number
      · subst hi
        obtain rfl : (method, next) = call := by simpa [AsyncState.onward] using hcall
        exact hscript.resolve_right (by rintro ⟨r, ⟨⟩⟩)
      · exact h.sleeping i call (by simpa [AsyncState.onward, hi] using hcall)
    | attempt frame respType next =>
      have hsame : (c.onward number method (.attempt frame respType next)).sleeping = c.sleeping := by
        unfold AsyncState.onward
        dsimp only
        split
        · rfl
        · split <;> rfl
      rw [hsame]
      exact h.sleeping
    | done r => exact h.sleeping
    | panics p => exact h.sleeping

theorem Faithful.finishTry (h : c.Faithful) {wait : Await} (hholder : c.holder = some (cur, wait))
    (result : Except RctError DataValue) : (c.finishTry cur result).Faithful := by
  have hrelease : { c with holder := none, pool := if result.isOk then c.pool else none }.Faithful :=
    ⟨by rintro _ _ ⟨⟩, h.sleeping⟩
  refine hrelease.onward ?_
  rcases (h.trying cur wait hholder).2 result with ⟨v, -, hdone⟩ | hnext
  · exact .inr ⟨_, hdone⟩
  · exact .inl hnext

/-- The try comes to another await. -/
theorem Faithful.wait (h : c.Faithful) {wait wait' : Await} (hholder : c.holder = some (cur, wait)) {pool : Option ℕ}
    {made : ℕ} : { c with holder := some (cur, wait'), pool, made }.Faithful := by
  refine ⟨?_, h.sleeping⟩
  intro cur' wait'' hholder'
  cases hholder'
  exact h.trying cur wait hholder

theorem Faithful.awaited (h : c.Faithful) {wait : Await} (hholder : c.holder = some (cur, wait))
    (hawaited : Awaited c cur c') : c'.Faithful := by
  cases hawaited with
  | finishes result => exact h.finishTry hholder result
  | waits => exact h.wait hholder
  | panics => exact ⟨by rintro _ _ ⟨⟩, h.sleeping⟩

theorem Faithful.wake (h : c.Faithful) (i : ℕ) :
    { c with sleeping := Function.update c.sleeping i none }.Faithful := by
  refine ⟨h.trying, fun j call hcall => ?_⟩
  by_cases hj : j = i
  · subst hj
    exact absurd hcall (by simp)
  · exact h.sleeping j call (by simpa [hj] using hcall)

theorem Faithful.step (h : c.Faithful) {ev : AsyncEvent} (hstep : c.step prof cfg ev = some c') : c'.Faithful := by
  obtain ⟨-, hhandle⟩ := of_step hstep
  have hclear : { c with ret := none }.Faithful := ⟨h.trying, h.sleeping⟩
  cases ev with
  | called m =>
    cases hhandle
    have hcalled : { c with ret := none, calls := c.calls + 1 }.Faithful := ⟨h.trying, h.sleeping⟩
    exact hcalled.onward (.inl (faithful_script prof cfg m))
  | slept i =>
    obtain ⟨m, next, hsleeping, rfl⟩ := of_onSlept hhandle
    exact (hclear.wake i).onward (.inl (h.sleeping i (m, next) hsleeping))
  | connected r =>
    obtain ⟨cur, wait, hholder, hawaited⟩ := awaited_of_onConnected hhandle
    exact hclear.awaited hholder hawaited
  | wrote r =>
    obtain ⟨cur, wait, hholder, hawaited⟩ := awaited_of_onWrote hhandle
    exact hclear.awaited hholder hawaited
  | received ev =>
    obtain ⟨cur, wait, hholder, hawaited⟩ := awaited_of_onReceived hhandle
    exact hclear.awaited hholder hawaited
  | cancelled i sent =>
    rcases of_onCancelled hhandle with ⟨-, rfl⟩ | ⟨-, rfl⟩
    · exact ⟨by rintro _ _ ⟨⟩, h.sleeping⟩
    · exact hclear.wake i

/-- A call that goes on without a try's value returns none. -/
theorem not_ret_onward (hscript : script.Faithful method.obj.responseDataType) (hclear : c.ret = none)
    {ret : AsyncReturned} {v : DataValue} (hret : (c.onward number method script).ret = some ret) :
    ret.result ≠ .ok v := by
  intro hv
  rcases of_onward_ret hret with hold | ⟨-, -, rfl⟩
  · cases hclear.symm.trans hold
  · rw [hv] at hscript
    exact hscript

theorem of_finishTry_ret
    (htrying : (Script.attempt cur.frame cur.respType cur.next).Faithful cur.method.obj.responseDataType)
    (hclear : c.ret = none) {result : Except RctError DataValue} {ret : AsyncReturned} {v : DataValue}
    (hret : (c.finishTry cur result).ret = some ret) (hv : ret.result = .ok v) :
    result = .ok v ∧ ret.number = cur.number ∧ ret.method = cur.method := by
  have hrelease : { c with holder := none, pool := if result.isOk then c.pool else none }.ret = none := hclear
  rcases of_onward_ret hret with hold | ⟨hnumber, hmethod, hdone⟩
  · cases hrelease.symm.trans hold
  · refine ⟨?_, hnumber, hmethod⟩
    rcases htrying.2 result with ⟨w, rfl, hw⟩ | hnext
    · rw [hw, hv] at hdone
      cases hdone
      rfl
    · rw [hdone, hv] at hnext
      exact absurd hnext id

/-- **A call returns a value** when a frame is complete, as what that is decoded to. -/
theorem of_step_ret (h : c.Faithful) {ev : AsyncEvent} (hstep : c.step prof cfg ev = some c') {ret : AsyncReturned}
    {v : DataValue} (hret : c'.ret = some ret) (hv : ret.result = .ok v) :
    ∃ turn cur rx rx', ev = .received turn ∧ c.holder = some (cur, .receiving rx) ∧
      readOnce AsyncClient.policy rx turn = .ret rx' (.ok ()) ∧
      AsyncClient.finish ret.method.obj.responseDataType rx' = .ok (.ok v) ∧ ret.number = cur.number := by
  obtain ⟨-, hhandle⟩ := of_step hstep
  have hfailed : ∀ {cur : Trying} {wait : Await} {e : RctError}, c.holder = some (cur, wait) →
      ({ c with ret := none }.finishTry cur (.error e)).ret ≠ some ret := by
    intro cur wait e hholder hret
    cases (of_finishTry_ret (h.trying cur wait hholder) rfl hret hv).1
  cases ev with
  | called m =>
    cases hhandle
    exact absurd hv (not_ret_onward (faithful_script prof cfg m) rfl hret)
  | slept i =>
    obtain ⟨m, next, hsleeping, rfl⟩ := of_onSlept hhandle
    exact absurd hv (not_ret_onward (h.sleeping i (m, next) hsleeping) rfl hret)
  | connected r =>
    obtain ⟨cur, hholder, ⟨e, -, rfl⟩ | ⟨-, rfl⟩⟩ := of_onConnected hhandle
    · exact absurd hret (hfailed hholder)
    · cases hret
  | wrote r =>
    obtain ⟨cur, hholder, ⟨e, -, rfl⟩ | ⟨-, rfl⟩⟩ := of_onWrote hhandle
    · exact absurd hret (hfailed hholder)
    · cases hret
  | received turn =>
    obtain ⟨cur, rx, hholder, ⟨rx', -, rfl⟩ | ⟨e, rfl⟩ | ⟨rx', w, hread, hfinish, rfl⟩ | ⟨p, -, rfl⟩⟩ :=
      of_onReceived hhandle
    · cases hret
    · exact absurd hret (hfailed hholder)
    · obtain ⟨hw, hnumber, hmethod⟩ := of_finishTry_ret (h.trying cur _ hholder) rfl hret hv
      have htype : cur.respType = cur.method.obj.responseDataType := (h.trying cur _ hholder).1
      rw [htype, hw, ← hmethod] at hfinish
      exact ⟨turn, cur, rx, rx', rfl, hholder, hread, hfinish, hnumber⟩
    · cases hret
  | cancelled i sent =>
    rcases of_onCancelled hhandle with ⟨-, rfl⟩ | ⟨-, rfl⟩
    · cases hret
    · cases hret

end AsyncState

/-! ### The client and the device -/

/-- A client and its device. -/
structure AsyncSystem where
  /-- The client. -/
  client : AsyncState
  /-- The connections, with the device's state. -/
  links : ℕ → Connection Transmitted Response
  /-- The connections at whose write or reads a call has been dropped. -/
  abandoned : ℕ → Bool
  /-- The answer that the last byte of the frame belongs to that the last event of the client has completed. -/
  source : Option (Transmitted × Response)

/-- The request of a try. -/
def Trying.request (cur : Trying) : Transmitted := ⟨cur.number, cur.method.obj.objectId, cur.frame⟩

namespace AsyncSystem

/-- What can happen. -/
inductive Event where
  /-- Something happens to the client. -/
  | client (ev : AsyncEvent)
  /-- The device answers the oldest request on a connection. -/
  | answered (n : ℕ) (resp : Response)
  /-- The device will not answer the oldest request on a connection. -/
  | lost (n : ℕ)

/-- Before the first call. -/
def start : AsyncSystem := ⟨.start, fun _ => .empty, fun _ => false, none⟩

/-- What an event of the client does to the connections, if they allow it. -/
def transfer (c : AsyncState) (links : ℕ → Connection Transmitted Response) :
    AsyncEvent → Option (ℕ → Connection Transmitted Response)
  | .connected (.ok ()) => some (Function.update links c.made .empty)
  | .wrote _ =>
    match c.holder, c.pool with
    | some (cur, _), some n => some (Function.update links n ((links n).send cur.request))
    | _, _ => some links
  | .received turn =>
    match c.holder, c.pool with
    | some (_, .receiving _), some n =>
      ((links n).deliver Response.bytes (AsyncClient.policy.taken turn)).map (Function.update links n)
    | _, _ => none
  | .cancelled i true =>
    match c.holder, c.pool with
    | some (cur, .writing), some n =>
      some (if cur.number = i then Function.update links n ((links n).send cur.request) else links)
    | _, _ => some links
  | _ => some links

/-- The connections that have been abandoned after an event. -/
def abandonedAfter (w : AsyncSystem) : AsyncEvent → ℕ → Bool
  | .cancelled i _ =>
    match w.client.pool with
    | some n => if w.client.holds i then Function.update w.abandoned n true else w.abandoned
    | none => w.abandoned
  | _ => w.abandoned

/-- The source of the frame that an event completes. -/
def completed (w : AsyncSystem) : AsyncEvent → Option (Transmitted × Response)
  | .received turn =>
    match w.client.holder, w.client.pool with
    | some (_, .receiving rx), some n =>
      match readOnce AsyncClient.policy rx turn with
      | .ret rx' (.ok ()) =>
        -- the position of the last byte, counted from where this turn begins to read
        let last := (w.links n).pos + (rx'.consumedBytes - 1 - rx.consumedBytes)
        Connection.owner Response.bytes (w.links n).sent last
      | _ => none
    | _, _ => none
  | _ => none

/-- One event, if it can happen. -/
def step (prof : Profile) (cfg : ClientConfig) (w : AsyncSystem) : Event → Option AsyncSystem
  | .client ev =>
    (w.client.step prof cfg ev).bind fun client =>
      (transfer w.client w.links ev).map fun links => ⟨client, links, w.abandonedAfter ev, w.completed ev⟩
  | .answered n resp =>
    match (w.links n).answer resp with
    | none => none
    | some (t, l) => if resp.frame.id = t.id then some { w with links := Function.update w.links n l } else none
  | .lost n => (w.links n).lose.map fun l => { w with links := Function.update w.links n l }

/-- The value that has been returned, if any, has been decoded from its source, the answer to a request of the
call. -/
def Paired (w : AsyncSystem) : Prop :=
  ∀ ret ∈ w.client.ret, ∀ v, ret.result = .ok v → ∃ a, w.source = some a ∧ a.1.number = ret.number ∧
    decodeValue ret.method.obj.responseDataType a.2.frame.payload = .ok (.ok v)

/-- A request is written on an abandoned connection only if nothing is left on it: every request there has been
answered, or has been given up by the device before the step, and every answer has been read to its end. -/
def Clear (w : AsyncSystem) : Event → Prop
  | .client (.wrote (.ok ())) =>
    ∀ n ∈ w.client.pool, w.abandoned n = true → (w.links n).settled Response.bytes = true
  | _ => True

instance (w : AsyncSystem) (ev : Event) : Decidable (w.Clear ev) := by
  unfold Clear
  split <;> infer_instance

/-! ### What is left on a connection -/

/-- The state of the pooled connection: nothing is left on it, unless it has been abandoned, and but for what the
try that waits for its response is owed. -/
def Linked (c : AsyncState) (abandoned : Bool) (l : Connection Transmitted Response) : Prop :=
  match c.holder with
  | some (cur, .receiving rx) =>
    ∃ taken, l.Awaiting Response.bytes cur.request taken ∧ passed ReceiveFrame.step (.new false) taken = some rx
  | _ => abandoned = false → l.Idle Response.bytes

section Connection

variable {c c' : AsyncState} {abandoned : Bool} {l l' : Connection Transmitted Response} {t : Transmitted}
  {taken : List UInt8} {rx rx' : ReceiveFrame} {turn : ReadEvent (Option IoError)}

/-- Unless a try waits for its response, nothing is left on the connection. -/
theorem Linked.idle (h : Linked c abandoned l) (hholder : ∀ cur rx, c.holder ≠ some (cur, .receiving rx))
    (hfalse : abandoned = false) : l.Idle Response.bytes := by
  rw [Linked] at h
  split at h
  · next hreceiving => exact absurd hreceiving (hholder _ _)
  · exact h hfalse

theorem linked_of_idle (h : abandoned = false → l.Idle Response.bytes)
    (hholder : ∀ cur rx, c.holder ≠ some (cur, .receiving rx)) : Linked c abandoned l := by
  rw [Linked]
  split
  · next hreceiving => exact absurd hreceiving (hholder _ _)
  · exact h

theorem linked_congr (h : c'.holder = c.holder) : Linked c' abandoned l ↔ Linked c abandoned l := by
  unfold Linked
  rw [h]

/-- A call that goes on comes at most to the start of a try. -/
theorem Linked.onward (h : Linked c abandoned l) (number : ℕ) (method : Method) (script : Script) :
    Linked (c.onward number method script) abandoned l := by
  cases hholder : c.holder with
  | some held => exact (linked_congr ((AsyncState.onward_holder_of_some hholder).trans hholder.symm)).mpr h
  | none =>
    refine linked_of_idle (h.idle (by simp [hholder])) ?_
    intro cur rx hreceiving
    rcases AsyncState.of_onward_holder hreceiving with hold | ⟨-, -, -, -, hwait⟩
    · cases hholder.symm.trans hold
    · split at hwait <;> cases hwait

/-- **A complete response** is the answer that is owed, and nothing is left behind it. -/
theorem complete_of_awaiting (h : l.Awaiting Response.bytes t taken)
    (hpass : passed ReceiveFrame.step (.new false) taken = some rx)
    (hl : l.deliver Response.bytes (AsyncClient.policy.taken turn) = some l')
    (hread : readOnce AsyncClient.policy rx turn = .ret rx' (.ok ())) :
    ∃ resp : Response, rx'.data = resp.frame.payload ∧ l'.Idle Response.bytes ∧
      Connection.owner Response.bytes l.sent (l.pos + (rx'.consumedBytes - 1 - rx.consumedBytes)) = some (t, resp) := by
  obtain ⟨as, howes, hpending⟩ := h
  have hpending' := hpending.deliver hl
  rw [readOnce_taken (.inr hread)] at hpending'
  have hcomplete := readOnce_ok hpass hread
  rw [← (Connection.of_deliver hl).2.1] at howes
  generalize hqueue : l'.queue = queue at howes
  cases howes with
  | waiting => exact absurd hcomplete (Response.not_firstComplete_nil hpending'.isPrefix)
  | lost => exact absurd hcomplete (Response.not_firstComplete_nil hpending'.isPrefix)
  | answered resp =>
    obtain ⟨hle, hdata, -, hcount⟩ := Response.eq_of_firstComplete hpending'.isPrefix hcomplete
    refine ⟨resp, hdata, ⟨hqueue, ?_⟩, ?_⟩
    · have hpre := hpending'.isPrefix
      rw [Connection.stream_singleton] at hpre
      have hall : taken ++ turn.bytes = Connection.stream Response.bytes [(t, resp)] := by
        rw [Connection.stream_singleton]
        exact hpre.eq_of_length_le hle.length_le
      rw [hall] at hpending'
      have hsettled : l'.Pending Response.bytes ([(t, resp)] ++ []) (Connection.stream Response.bytes [(t, resp)]) := by
        simpa using hpending'
      exact hsettled.settle
    · have hlt := Response.length_lt_of_pass hpending.isPrefix hpass
      have hconsumed : rx.consumedBytes = taken.length := by
        rw [ReceiveFrame.consumedBytes_of_pass hpass]
        exact Nat.zero_add _
      rw [hcount, hconsumed]
      exact hpending.owner (Nat.le_sub_one_of_lt hlt) (Nat.sub_one_lt_of_lt hlt)

end Connection

/-! ### The invariant -/

/-- The invariant. -/
structure Inv (w : AsyncSystem) : Prop where
  /-- What the calls do next. -/
  faithful : w.client.Faithful
  /-- What has been returned. -/
  paired : w.Paired
  /-- The pooled connection. -/
  linked : ∀ n, w.client.pool = some n → Linked w.client (w.abandoned n) (w.links n)

theorem inv_start : start.Inv := ⟨AsyncState.faithful_start, by rintro _ ⟨⟩, by rintro _ ⟨⟩⟩

variable {prof : Profile} {cfg : ClientConfig} {w w' : AsyncSystem} {c' : AsyncState} {ev : AsyncEvent}
  {links' : ℕ → Connection Transmitted Response}

/-- A try that has failed has dropped its connection. -/
theorem linked_fail {c : AsyncState} {cur : Trying} {e : RctError} {n : ℕ} (abandoned : Bool)
    (l : Connection Transmitted Response) (hpool : (c.finishTry cur (.error e)).pool = some n) :
    Linked (c.finishTry cur (.error e)) abandoned l := by
  rw [AsyncState.finishTry, AsyncState.onward_pool] at hpool
  cases hpool

/-- A call that is dropped while it sleeps transmits nothing. -/
theorem transfer_of_not_holds {c : AsyncState} {i : ℕ} (h : c.holds i = false) (sent : Bool)
    (links : ℕ → Connection Transmitted Response) : transfer c links (.cancelled i sent) = some links := by
  cases sent with
  | false => rfl
  | true =>
    simp only [transfer]
    split
    · next cur n hholder hpool =>
      have hne : cur.number ≠ i := by simpa [AsyncState.holds, hholder] using h
      rw [if_neg hne]
    · rfl

/-- A request is written on a connection on which nothing is left. -/
theorem Inv.linked_wrote (h : w.Inv) {r : Timed Unit} (hclear : w.Clear (.client (.wrote r)))
    (hhandle : { w.client with ret := none }.onWrote r = some c')
    (hlinks : transfer w.client w.links (.wrote r) = some links') {n : ℕ} (hpool : c'.pool = some n) :
    Linked c' (w.abandoned n) (links' n) := by
  obtain ⟨cur, hholder, ⟨e, -, rfl⟩ | ⟨rfl, rfl⟩⟩ := AsyncState.of_onWrote hhandle
  · exact linked_fail _ _ hpool
  · have hold : w.client.pool = some n := hpool
    have hcur : w.client.holder = some (cur, .writing) := hholder
    simp only [transfer, hcur, hold, Option.some.injEq] at hlinks
    subst hlinks
    have hidle : (w.links n).Idle Response.bytes := by
      cases habandoned : w.abandoned n with
      | false => exact (h.linked n hold).idle (by simp [hcur]) habandoned
      | true => exact Connection.idle_of_settled (hclear n hold habandoned)
    simp only [Linked, Function.update_self]
    exact ⟨[], hidle.send cur.request, rfl⟩

/-- What is read belongs to the answer that is owed. -/
theorem Inv.linked_received (h : w.Inv) {turn : ReadEvent (Option IoError)}
    (hhandle : { w.client with ret := none }.onReceived turn = some c')
    (hlinks : transfer w.client w.links (.received turn) = some links') {n : ℕ} (hpool : c'.pool = some n) :
    Linked c' (w.abandoned n) (links' n) := by
  obtain ⟨cur, rx, hholder, hcases⟩ := AsyncState.of_onReceived hhandle
  have hcur : w.client.holder = some (cur, .receiving rx) := hholder
  cases hold : w.client.pool with
  | none => simp [transfer, hcur, hold] at hlinks
  | some m =>
    simp only [transfer, hcur, hold] at hlinks
    obtain ⟨l, hl, rfl⟩ := Option.map_eq_some_iff.mp hlinks
    have hlinked := h.linked m hold
    simp only [Linked, hcur] at hlinked
    obtain ⟨taken, hawaiting, hpass⟩ := hlinked
    rcases hcases with ⟨rx', hread, rfl⟩ | ⟨e, rfl⟩ | ⟨rx', v, hread, -, rfl⟩ | ⟨p, hread, -⟩
    · obtain rfl : m = n := Option.some.inj (hold.symm.trans hpool)
      simp only [Linked, Function.update_self]
      refine ⟨_, hawaiting.deliver hl, ?_⟩
      rw [readOnce_taken (.inl hread)]
      exact readOnce_next hpass hread
    · exact linked_fail _ _ hpool
    · rw [AsyncState.finishTry, AsyncState.onward_pool] at hpool
      obtain rfl : m = n := Option.some.inj (hold.symm.trans hpool)
      obtain ⟨resp, -, hidle, -⟩ := complete_of_awaiting hawaiting hpass hl hread
      refine Linked.onward (linked_of_idle (fun _ => ?_) (by simp)) _ _ _
      rw [Function.update_self]
      exact hidle
    · obtain ⟨as, -, hpending⟩ := hawaiting.deliver hl
      exact absurd hread (Response.readOnce_ne_panics hpass hpending.isPrefix p)

/-- A call that is dropped at an await of its try abandons the connection. -/
theorem Inv.linked_cancelled (h : w.Inv) {i : ℕ} {sent : Bool}
    (hhandle : { w.client with ret := none }.onCancelled i = some c')
    (hlinks : transfer w.client w.links (.cancelled i sent) = some links') {n : ℕ} (hpool : c'.pool = some n) :
    Linked c' (w.abandonedAfter (.cancelled i sent) n) (links' n) := by
  rcases AsyncState.of_onCancelled hhandle with ⟨hholds, rfl⟩ | ⟨hholds, rfl⟩
  · have hold : w.client.pool = some n := hpool
    have hmine : w.client.holds i = true := hholds
    refine linked_of_idle (fun hfalse => ?_) (by simp)
    simp [abandonedAfter, hold, hmine] at hfalse
  · have hold : w.client.pool = some n := hpool
    have hother : w.client.holds i = false := hholds
    obtain rfl : w.links = links' := Option.some.inj ((transfer_of_not_holds hother sent w.links).symm.trans hlinks)
    have habandoned : w.abandonedAfter (.cancelled i sent) = w.abandoned := by simp [abandonedAfter, hold, hother]
    rw [habandoned]
    exact (linked_congr rfl).mpr (h.linked n hold)

/-- **What an event leaves on the pooled connection.** -/
theorem Inv.linked_step (h : w.Inv) (hclear : w.Clear (.client ev)) (hstep : w.client.step prof cfg ev = some c')
    (hlinks : transfer w.client w.links ev = some links') {n : ℕ} (hpool : c'.pool = some n) :
    Linked c' (w.abandonedAfter ev n) (links' n) := by
  obtain ⟨-, hhandle⟩ := AsyncState.of_step hstep
  cases ev with
  | called m =>
    cases hhandle
    cases hlinks
    rw [AsyncState.onCalled, AsyncState.onward_pool] at hpool
    refine Linked.onward ?_ _ _ _
    exact (linked_congr rfl).mpr (h.linked n hpool)
  | slept i =>
    obtain ⟨m, next, -, rfl⟩ := AsyncState.of_onSlept hhandle
    cases hlinks
    rw [AsyncState.onward_pool] at hpool
    refine Linked.onward ?_ _ _ _
    exact (linked_congr rfl).mpr (h.linked n hpool)
  | connected r =>
    obtain ⟨cur, -, ⟨e, -, rfl⟩ | ⟨rfl, rfl⟩⟩ := AsyncState.of_onConnected hhandle
    · exact linked_fail _ _ hpool
    · cases hlinks
      cases hpool
      refine linked_of_idle (fun _ => ?_) (by simp)
      rw [Function.update_self]
      exact Connection.idle_empty
  | wrote r => exact h.linked_wrote hclear hhandle hlinks hpool
  | received turn => exact h.linked_received hhandle hlinks hpool
  | cancelled i sent => exact h.linked_cancelled hhandle hlinks hpool

/-- What an event of the client returns is paired. -/
theorem Inv.paired_step (h : w.Inv) (hstep : w.client.step prof cfg ev = some c')
    (hlinks : transfer w.client w.links ev = some links') :
    Paired ⟨c', links', w.abandonedAfter ev, w.completed ev⟩ := by
  intro ret hret v hv
  obtain ⟨turn, cur, rx, rx', rfl, hholder, hread, hfinish, hnumber⟩ := AsyncState.of_step_ret h.faithful hstep hret hv
  cases hpool : w.client.pool with
  | none => simp [transfer, hholder, hpool] at hlinks
  | some n =>
    simp only [transfer, hholder, hpool] at hlinks
    obtain ⟨l, hl, -⟩ := Option.map_eq_some_iff.mp hlinks
    have hlinked := h.linked n hpool
    simp only [Linked, hholder] at hlinked
    obtain ⟨taken, hawaiting, hpass⟩ := hlinked
    obtain ⟨resp, hdata, -, howner⟩ := complete_of_awaiting hawaiting hpass hl hread
    refine ⟨(cur.request, resp), ?_, hnumber.symm, ?_⟩
    · simp only [completed, hholder, hpool, hread]
      exact howner
    · rw [AsyncClient.finish] at hfinish
      split_ifs at hfinish with hnil
      · cases hfinish
      · rw [← hdata]
        exact hfinish

/-- What happens at the far end of one connection, and is nothing to the others. -/
theorem Inv.update (h : w.Inv) {m : ℕ} {l : Connection Transmitted Response}
    (hl : Linked w.client (w.abandoned m) (w.links m) → Linked w.client (w.abandoned m) l) :
    Inv { w with links := Function.update w.links m l } := by
  refine ⟨h.faithful, h.paired, ?_⟩
  intro n hpool
  have hlinked := h.linked n hpool
  by_cases hnm : n = m
  · subst hnm
    simpa using hl hlinked
  · simpa [hnm] using hlinked

/-- One event keeps the invariant. -/
theorem Inv.step (h : w.Inv) {ev : Event} (hclear : w.Clear ev) (hstep : w.step prof cfg ev = some w') : w'.Inv := by
  cases ev with
  | client ev =>
    obtain ⟨c', hc, hlinks⟩ := Option.bind_eq_some_iff.mp hstep
    obtain ⟨links', htransfer, rfl⟩ := Option.map_eq_some_iff.mp hlinks
    exact ⟨h.faithful.step hc, h.paired_step hc htransfer, fun n hpool => h.linked_step hclear hc htransfer hpool⟩
  | answered m resp =>
    simp only [AsyncSystem.step] at hstep
    cases hanswer : (w.links m).answer resp with
    | none => simp [hanswer] at hstep
    | some out =>
      obtain ⟨t, l⟩ := out
      simp only [hanswer] at hstep
      split_ifs at hstep
      cases hstep
      refine h.update fun hlinked => ?_
      unfold Linked at hlinked ⊢
      split at hlinked
      · obtain ⟨taken, hawaiting, hpass⟩ := hlinked
        exact ⟨taken, hawaiting.answer hanswer, hpass⟩
      · intro hfalse
        cases hanswer.symm.trans ((hlinked hfalse).answer_eq_none resp)
  | lost m =>
    obtain ⟨l, hlose, rfl⟩ := Option.map_eq_some_iff.mp hstep
    refine h.update fun hlinked => ?_
    unfold Linked at hlinked ⊢
    split at hlinked
    · obtain ⟨taken, hawaiting, hpass⟩ := hlinked
      exact ⟨taken, hawaiting.lose hlose, hpass⟩
    · intro hfalse
      cases hlose.symm.trans (hlinked hfalse).lose_eq_none

/-! ### Results -/

/-- **A call is given the answer to its own request.** In a run in which no request is written on an abandoned
connection while something is left on it, the source of every value that is returned is the device's answer to
a request of the call that returns it. -/
theorem answers_paired {evs : List Event} (hclear : Meets (step prof cfg) Clear start evs)
    (h : run (step prof cfg) start evs = some w) : w.Paired :=
  (run_induction_of (fun hw hclear hstep => hw.step hclear hstep) inv_start hclear h).paired

/-- Only a call that is dropped abandons a connection. -/
theorem abandoned_step (hw : ∀ n, w.abandoned n = false) {ev : Event}
    (hev : ∀ i sent, ev ≠ .client (.cancelled i sent)) (hstep : w.step prof cfg ev = some w') :
    ∀ n, w'.abandoned n = false := by
  cases ev with
  | client ev =>
    obtain ⟨c', -, hlinks⟩ := Option.bind_eq_some_iff.mp hstep
    obtain ⟨links', -, rfl⟩ := Option.map_eq_some_iff.mp hlinks
    cases ev with
    | cancelled i sent => exact absurd rfl (hev i sent)
    | _ => exact hw
  | answered m resp =>
    simp only [AsyncSystem.step] at hstep
    split at hstep
    · cases hstep
    · split_ifs at hstep
      cases hstep
      exact hw
  | lost m =>
    obtain ⟨l, -, rfl⟩ := Option.map_eq_some_iff.mp hstep
    exact hw

/-- **As long as no call is dropped**, the connections are clear. -/
theorem clear_of_uncancelled {evs : List Event} (hevs : ∀ i sent, .client (.cancelled i sent) ∉ evs) :
    Meets (step prof cfg) Clear start evs := by
  rw [meets_iff]
  intro used ev rest t heq hrun
  have huncancelled : ∀ ev ∈ used, ∀ i sent, ev ≠ .client (.cancelled i sent) := by
    rintro ev hev i sent rfl
    refine hevs i sent ?_
    rw [heq]
    exact List.mem_append_left _ hev
  have hnone : ∀ n, t.abandoned n = false :=
    run_induction_of (P := fun w => ∀ n, w.abandoned n = false) (fun hw hev hstep => abandoned_step hw hev hstep)
      (fun _ => rfl) (meets_of_forall fun ev hev _ => huncancelled ev hev) hrun
  unfold Clear
  split
  · intro n _ habandoned
    cases habandoned.symm.trans (hnone n)
  · trivial

section Examples

/-- A read of `battery.soc`. -/
def readSoc : Method := .read ⟨.battery, 0x959930BF, 545, "battery.soc", .float, .float, "%", "", ""⟩

/-- The answer to it. -/
def socResponse : Response := .ofFrame (.response 0x959930BF (u32ToBe 0x3ED70A3D) le_rfl) rfl

/-- A call is dropped while it waits for its response, which is lost; the next one reads its own, in two pieces. -/
theorem answers_paired_after_lost :
    let evs : List Event :=
      [.client (.called readSoc), .client (.connected (.ok ())), .client (.wrote (.ok ())),
        .client (.cancelled 0 true), .lost 0, .client (.called readSoc), .client (.wrote (.ok ())),
        .answered 0 socResponse, .client (.received ⟨0, .ok (socResponse.bytes.take 3)⟩),
        .client (.received ⟨0, .ok (socResponse.bytes.drop 3)⟩)]
    ∃ w ret, run (step .debug ⟨5, 1⟩) start evs = some w ∧ w.client.ret = some ret ∧
      ret.result = .ok (.f32 ⟨0x3ED70A3D⟩) ∧ w.Paired := by
  intro evs
  have hrun : (run (step .debug ⟨5, 1⟩) start evs).map (fun w => w.client.ret.map (·.result)) =
      some (some (.ok (.f32 ⟨0x3ED70A3D⟩))) := by
    decide +kernel
  obtain ⟨w, hw, heq⟩ := Option.map_eq_some_iff.mp hrun
  obtain ⟨ret, hret, hresult⟩ := Option.map_eq_some_iff.mp heq
  exact ⟨w, ret, hw, hret, hresult, answers_paired (by decide +kernel) hw⟩

/-- A call is dropped while it waits for its response; the next one is given that response. -/
theorem not_paired_abandoned :
    let evs : List Event :=
      [.client (.called readSoc), .client (.connected (.ok ())), .client (.wrote (.ok ())),
        .client (.cancelled 0 true), .answered 0 socResponse, .client (.called readSoc), .client (.wrote (.ok ())),
        .client (.received ⟨0, .ok socResponse.bytes⟩)]
    ∃ w, run (step .debug ⟨5, 1⟩) start evs = some w ∧ ¬ w.Paired := by
  intro evs
  have hrun : (run (step .debug ⟨5, 1⟩) start evs).map
      (fun w => (w.client.ret.map fun ret => (ret.number, ret.result), w.source.map (·.1.number))) =
      some (some (1, .ok (.f32 ⟨0x3ED70A3D⟩)), some 0) := by
    decide +kernel
  obtain ⟨w, hw, heq⟩ := Option.map_eq_some_iff.mp hrun
  obtain ⟨hret, hsource⟩ := Prod.mk.inj heq
  obtain ⟨ret, hret, hresult⟩ := Option.map_eq_some_iff.mp hret
  obtain ⟨hnumber, hvalue⟩ := Prod.mk.inj hresult
  refine ⟨w, hw, fun hpaired => ?_⟩
  obtain ⟨a, ha, hcall, -⟩ := hpaired ret hret _ hvalue
  rw [ha, Option.map_some, Option.some.injEq, hcall, hnumber] at hsource
  exact absurd hsource (by decide)

end Examples

end AsyncSystem

end RctPower
