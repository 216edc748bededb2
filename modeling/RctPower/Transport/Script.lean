import RctPower.Lib.Machine
import RctPower.Transport.AsyncClient

/-!
# What a call does between its tries

The methods of the two clients, `read`, `write` and `write_and_verify`, are the same code over two
implementations of `try_exchange` (`client.rs`, `async_client.rs`). A `Script` is this code: a tree
of tries and pauses, with what is done after each result of a try.

A `Caller` is a client in the middle of a call: the script that is left, and the pool. It takes the
environments of the tries one by one; what `try_exchange` makes of one is a parameter. `run_script`
says that the scripts are the `read` and `write` of either client.
-/

namespace RctPower

open RctPower.Lib.Rust RctPower.Lib.Machine

/-- What is left of a call. -/
inductive Script where
  /-- It returns. -/
  | done (r : Except RctError DataValue)
  /-- It panics. -/
  | panics (p : Panic)
  /-- It sleeps for the retry delay. -/
  | sleep (next : Script)
  /-- It calls `try_exchange`. -/
  | attempt (frame : List UInt8) (respType : DataType) (next : Except RctError DataValue → Script)

/-- A call of a client. -/
inductive Method where
  /-- `read`. -/
  | read (obj : ObjectInfo)
  /-- `write`. -/
  | write (obj : ObjectInfo) (value : DataValue)
  /-- `write_and_verify`. -/
  | writeAndVerify (obj : ObjectInfo) (value : DataValue)

namespace Script

/-- After the first turn of a retry loop, a turn begins with a pause. -/
def pause (first : Bool) (s : Script) : Script := if first then s else .sleep s

/-- The loop of `exchange`, with `left` turns left: up to the first try that succeeds. -/
def exchangeLoop (frame : List UInt8) (respType : DataType) (next : Except RctError DataValue → Script) :
    (left : ℕ) → (first : Bool) → (lastErr : RctError) → Script
  | 0, _, lastErr => next (.error lastErr)
  | left + 1, first, _ =>
    pause first <| .attempt frame respType fun
      | .ok v => next (.ok v)
      | .error e => exchangeLoop frame respType next left false e

/-- `exchange`. -/
def exchange (cfg : ClientConfig) (frame : List UInt8) (respType : DataType)
    (next : Except RctError DataValue → Script) : Script :=
  exchangeLoop frame respType next (max cfg.retries 1) true .timeout

/-- A frame, or what is done without one. -/
def withFrame (request : Checked (Except RctError (List UInt8))) (failed : RctError → Script)
    (next : List UInt8 → Script) : Script :=
  match request with
  | .error p => .panics p
  | .ok (.error e) => failed e
  | .ok (.ok frame) => next frame

/-- `read`. -/
def read (prof : Profile) (cfg : ClientConfig) (obj : ObjectInfo) (next : Except RctError DataValue → Script) :
    Script :=
  withFrame (readRequest prof obj) (fun e => next (.error e)) fun frame =>
    exchange cfg frame obj.responseDataType next

/-- `write`. -/
def write (prof : Profile) (cfg : ClientConfig) (obj : ObjectInfo) (value : DataValue) : Script :=
  withFrame (writeRequest prof obj value) (fun e => .done (.error e)) fun frame =>
    exchange cfg frame obj.responseDataType .done

/-- The loop of `write_and_verify`, with `left` turns left: the value is written again, but for the
first turn, and read back. -/
def verifyLoop (prof : Profile) (cfg : ClientConfig) (obj : ObjectInfo) (value : DataValue) (frame : List UInt8) :
    (left : ℕ) → (first : Bool) → Script
  | 0, _ => .done (.error .timeout)
  | left + 1, first =>
    let readBack := read prof cfg obj fun
      | .ok v => if value.eq v then .done (.ok v) else verifyLoop prof cfg obj value frame left false
      | .error _ => verifyLoop prof cfg obj value frame left false
    -- plain send, tolerate lost acks
    if first then readBack else .sleep (.attempt frame obj.responseDataType fun _ => readBack)

/-- `write_and_verify`. -/
def writeAndVerify (prof : Profile) (cfg : ClientConfig) (obj : ObjectInfo) (value : DataValue) : Script :=
  withFrame (writeRequest prof obj value) (fun e => .done (.error e)) fun frame =>
    -- try the normal path first: device may answer directly
    .attempt frame obj.responseDataType fun
      | .ok v => .done (.ok v)
      | .error .timeout | .error .emptyPayload => verifyLoop prof cfg obj value frame (max cfg.retries 1) true
      | .error e => .done (.error e)

/-- What is done after the pauses. -/
def awake : Script → Script
  | .sleep next => next.awake
  | s => s

@[simp] theorem awake_pause (first : Bool) (s : Script) : (pause first s).awake = s.awake := by
  cases first <;> rfl

/-- A turn of the loop of `write_and_verify`: `next` is what it does with the value that is read back. -/
theorem verifyLoop_succ (prof : Profile) (cfg : ClientConfig) (obj : ObjectInfo) (value : DataValue)
    (frame : List UInt8) (left : ℕ) :
    ∃ next : Except RctError DataValue → Script,
      (∀ e, next (.error e) = verifyLoop prof cfg obj value frame left false) ∧
        (∀ v, next (.ok v) =
          if value.eq v then .done (.ok v) else verifyLoop prof cfg obj value frame left false) ∧
        ∀ first, verifyLoop prof cfg obj value frame (left + 1) first =
          if first then read prof cfg obj next
          else .sleep (.attempt frame obj.responseDataType fun _ => read prof cfg obj next) := by
  refine ⟨fun
    | .ok v => if value.eq v then .done (.ok v) else verifyLoop prof cfg obj value frame left false
    | .error _ => verifyLoop prof cfg obj value frame left false, ?_⟩
  exact ⟨fun _ => rfl, fun _ => rfl, fun _ => rfl⟩

end Script

namespace Method

/-- The object it is about. -/
def obj : Method → ObjectInfo
  | .read obj | .write obj _ | .writeAndVerify obj _ => obj

/-- What it does. -/
def script (prof : Profile) (cfg : ClientConfig) : Method → Script
  | .read obj => .read prof cfg obj .done
  | .write obj value => .write prof cfg obj value
  | .writeAndVerify obj value => .writeAndVerify prof cfg obj value

end Method

/-! ### Taking the environments one by one -/

/-- A client in the middle of a call. -/
structure Caller where
  /-- What is left of the call. -/
  script : Script
  /-- There is a connection in the pool. -/
  pooled : Bool

/-- What the call has returned, if it has. -/
def Caller.returned (c : Caller) : Option (Except RctError DataValue) :=
  match c.script with
  | .done r => some r
  | _ => none

variable {κ : Type}

/-- What `try_exchange` makes of an environment, from what the pool holds. -/
abbrev Attempt (κ : Type) : Type := List UInt8 → DataType → Bool → κ → Checked (Option (Outcome DataValue))

/-- One try of the call. A panic comes after the connecting, so that it leaves a connection in the pool. -/
def Caller.step (attempt : Attempt κ) (c : Caller) (env : κ) : Option Caller :=
  match c.script.awake with
  | .attempt frame respType next =>
    match attempt frame respType c.pooled env with
    | .error p => some ⟨.panics p, true⟩
    | .ok none => none
    | .ok (some out) => some ⟨next out.result, out.pooled⟩
  | _ => none

section Runs

variable {attempt : Attempt κ} {frame : List UInt8} {respType : DataType}
  {next : Except RctError DataValue → Script}

/-- A try that ends. -/
theorem Caller.step_of_attempt {script : Script} (hscript : script.awake = .attempt frame respType next)
    {pooled : Bool} {env : κ} {out : Outcome DataValue} (h : attempt frame respType pooled env = .ok (some out)) :
    Caller.step attempt ⟨script, pooled⟩ env = some ⟨next out.result, out.pooled⟩ := by
  simp only [step, hscript, h]

theorem awake_exchangeLoop (left : ℕ) (first : Bool) (lastErr : RctError) :
    (Script.exchangeLoop frame respType next (left + 1) first lastErr).awake =
      .attempt frame respType fun
        | .ok v => next (.ok v)
        | .error e => Script.exchangeLoop frame respType next left false e := by
  rw [Script.exchangeLoop, Script.awake_pause]
  rfl

/-- There is always a frame to read with. -/
theorem readRequest_ok (prof : Profile) (obj : ObjectInfo) : ∃ frame, readRequest prof obj = .ok (.ok frame) :=
  ⟨_, makeFrame_standard ⟨.read, obj.objectId, [], by decide, Nat.zero_le _, fun _ => rfl⟩ prof 0⟩

/-- A `read` begins with a try. -/
theorem awake_read (prof : Profile) (cfg : ClientConfig) (obj : ObjectInfo)
    (next : Except RctError DataValue → Script) :
    ∃ frame next', (Script.read prof cfg obj next).awake = .attempt frame obj.responseDataType next' := by
  obtain ⟨frame, hframe⟩ := readRequest_ok prof obj
  obtain ⟨left, hleft⟩ : ∃ left, max cfg.retries 1 = left + 1 :=
    Nat.exists_eq_add_one_of_ne_zero (lt_max_of_lt_right one_pos).ne'
  simp only [Script.read, hframe, Script.withFrame, Script.exchange, hleft, awake_exchangeLoop]
  exact ⟨frame, _, rfl⟩

/-- **The loop of `exchange` is the retry loop**: what is done next is done with what that returns. -/
theorem run_exchangeLoop {left : ℕ} {first : Bool} {lastErr : RctError} {pooled : Bool} {envs : List κ}
    {out : Outcome DataValue} (h : attempts (attempt frame respType) left lastErr pooled envs = .ok (some out)) :
    ∃ used rest, envs = used ++ rest ∧
      run (Caller.step attempt) ⟨.exchangeLoop frame respType next left first lastErr, pooled⟩ used =
        some ⟨next out.result, out.pooled⟩ := by
  induction left generalizing first lastErr pooled envs out with
  | zero =>
    obtain rfl : (⟨pooled, [], .error lastErr⟩ : Outcome DataValue) = out := by simpa [attempts] using h
    exact ⟨[], envs, rfl, rfl⟩
  | succ left ih =>
    obtain ⟨env, rest, tried, rfl, htry, hcases⟩ := attempts_cons h
    have hstep : Caller.step attempt ⟨.exchangeLoop frame respType next (left + 1) first lastErr, pooled⟩ env = _ :=
      Caller.step_of_attempt (awake_exchangeLoop left first lastErr) htry
    rcases hcases with ⟨v, hv, rfl⟩ | ⟨e, last, he, hlast, hresult, hpooled⟩
    · refine ⟨[env], rest, rfl, ?_⟩
      rw [run, hstep, Option.bind_some, hv]
      rfl
    · obtain ⟨used, unused, rfl, hrun⟩ := @ih false _ _ _ _ hlast
      refine ⟨env :: used, unused, rfl, ?_⟩
      rw [run, hstep, Option.bind_some, he, hresult, hpooled]
      exact hrun

/-- A call with a request and tries is the call of either client. -/
theorem run_withFrame {request : Checked (Except RctError (List UInt8))} {cfg : ClientConfig} {pooled : Bool}
    {envs : List κ} {out : Outcome DataValue}
    (h : withRequest request pooled (fun frame =>
      attempts (attempt frame respType) (max cfg.retries 1) .timeout pooled envs) = .ok (some out)) :
    ∃ used rest, envs = used ++ rest ∧
      run (Caller.step attempt) ⟨.withFrame request (fun e => .done (.error e)) fun frame =>
        .exchange cfg frame respType .done, pooled⟩ used = some ⟨.done out.result, out.pooled⟩ := by
  rcases request with p | (e | frame)
  · cases h
  · obtain rfl : (⟨pooled, [], .error e⟩ : Outcome DataValue) = out := by simpa [withRequest] using h
    exact ⟨[], envs, rfl, rfl⟩
  · exact run_exchangeLoop h

/-- **The scripts are the code of the clients**: a `read` or `write` returns what the script returns, and
leaves in the pool what that leaves. -/
theorem run_script {prof : Profile} {cfg : ClientConfig} {obj : ObjectInfo} {value : DataValue} {pooled : Bool} :
    (∀ envs out, Client.read prof cfg obj pooled envs = .ok (some out) → ∃ used rest, envs = used ++ rest ∧
      run (Caller.step (Client.tryExchange cfg)) ⟨(Method.read obj).script prof cfg, pooled⟩ used =
        some ⟨.done out.result, out.pooled⟩) ∧
    (∀ envs out, Client.write prof cfg obj value pooled envs = .ok (some out) → ∃ used rest, envs = used ++ rest ∧
      run (Caller.step (Client.tryExchange cfg)) ⟨(Method.write obj value).script prof cfg, pooled⟩ used =
        some ⟨.done out.result, out.pooled⟩) ∧
    (∀ envs out, AsyncClient.read prof cfg obj pooled envs = .ok (some out) → ∃ used rest, envs = used ++ rest ∧
      run (Caller.step AsyncClient.tryExchange) ⟨(Method.read obj).script prof cfg, pooled⟩ used =
        some ⟨.done out.result, out.pooled⟩) ∧
    ∀ envs out, AsyncClient.write prof cfg obj value pooled envs = .ok (some out) → ∃ used rest, envs = used ++ rest ∧
      run (Caller.step AsyncClient.tryExchange) ⟨(Method.write obj value).script prof cfg, pooled⟩ used =
        some ⟨.done out.result, out.pooled⟩ :=
  ⟨fun _ _ h => run_withFrame h, fun _ _ h => run_withFrame h, fun _ _ h => run_withFrame h,
    fun _ _ h => run_withFrame h⟩

end Runs

end RctPower
