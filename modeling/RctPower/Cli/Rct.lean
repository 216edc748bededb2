import RctPower.Settings.Decimals
import RctPower.Transport.Answers
import RctPower.Transport.Retransmission

/-!
# The command line

`rct` (`examples/rct.rs`) reads a parameter of the inverter, or writes one: a text is parsed, the value is
validated, and one call of the synchronous client is made. `main` is this program against any inverter. What
it prints is kept as data (`Printed`), and so is the error it ends with (`Failure`).

## What is proved

`set_transmits` is about all that `rct set` can put on the wire, in every run, up to any point of it: nothing
without `--yes` or for a text that is not a valid value of a parameter that can be written; and otherwise copies
of one WRITE frame, at most three, whose payload denotes the value. If a decimal fraction was typed, the value
is the float nearest to it. That the write has succeeded is reported as soon as anything is decoded from an
answer, whatever it is; and it is transmitted and reported if an answer comes in time (`AnsweredWithin`).
-/

namespace RctPower

open RctPower.Lib.Rust RctPower.Lib.Binary32 RctPower.Lib.Machine

/-- The defaults; the clock counts seconds. -/
def ClientConfig.default : ClientConfig := ⟨5, 3⟩

/-! ### A call up to its end -/

section Result

variable {κ : Type} (attempt : Attempt κ)

/-- What a call returns, if it does in these environments. -/
def Caller.result : Caller → List κ → Option (Except RctError DataValue)
  | c, [] => c.returned
  | c, env :: envs =>
    match c.returned with
    | some r => some r
    | none => (c.step attempt env).bind fun c' => c'.result envs

variable {attempt}

theorem Caller.result_of_returned {c : Caller} {r : Except RctError DataValue} (h : c.returned = some r)
    (envs : List κ) : c.result attempt envs = some r := by
  cases envs with
  | nil => exact h
  | cons env envs => rw [result, h]

/-- A retry loop with turns left has not returned. -/
theorem Caller.returned_exchangeLoop (frame : List UInt8) (respType : DataType)
    (next : Except RctError DataValue → Script) (left : ℕ) (first : Bool) (lastErr : RctError) (pooled : Bool) :
    Caller.returned ⟨.exchangeLoop frame respType next (left + 1) first lastErr, pooled⟩ = none := by
  cases first <;> rfl

/-- A call that has panicked does not return. -/
theorem Caller.result_panics (p : Panic) (pooled : Bool) (envs : List κ) :
    Caller.result attempt ⟨.panics p, pooled⟩ envs = none := by
  cases envs <;> rfl

/-- What an exchange is to do with its frame: so many tries at most, each of which transmits the frame once or
never, and to return a value as soon as a try gives it. -/
structure Exchanges (attempt : Attempt κ) (frame : List UInt8) (respType : DataType) (left : ℕ) (envs : List κ)
    (tries : List Tried) (result : Option (Except RctError DataValue)) : Prop where
  /-- The frames transmitted. -/
  transmitted : ∃ k ≤ left, RctPower.transmitted tries = List.replicate k frame
  /-- The value. -/
  gave : ∀ v, result = some (.ok v) ↔ ∃ t ∈ tries, t.Gave v
  /-- Where it comes from. -/
  tried : ∀ v, ∀ t ∈ tries, t.Gave v →
    ∃ env ∈ envs, ∃ pooled out, attempt frame respType pooled env = .ok (some out) ∧ out.result = .ok v

section Tries

variable {frame : List UInt8} {respType : DataType} {left : ℕ} {envs : List κ}
  {result : Option (Except RctError DataValue)}

/-- Nothing is tried. -/
theorem Exchanges.nil (hresult : ∀ v, result ≠ some (.ok v)) :
    Exchanges attempt frame respType left envs [] result where
  transmitted := ⟨0, Nat.zero_le _, rfl⟩
  gave v := iff_of_false (hresult v) (by simp)
  tried := by simp

/-- A try that does not end. -/
theorem Exchanges.lost (hresult : ∀ v, result ≠ some (.ok v)) :
    Exchanges attempt frame respType (left + 1) envs [⟨frame, none⟩] result where
  transmitted := ⟨1, by omega, rfl⟩
  gave v := iff_of_false (hresult v) (by simp [Tried.Gave])
  tried := by simp [Tried.Gave]

section Ended

variable (hattempt : SendsOnce attempt) {pooled : Bool} {env : κ} {out : Outcome DataValue}
  (htry : attempt frame respType pooled env = .ok (some out))

include hattempt htry

/-- A try that gives a value is the last one. -/
theorem Exchanges.answered {v : DataValue} (hv : out.result = .ok v) :
    Exchanges attempt frame respType (left + 1) (env :: envs) [⟨frame, some out⟩] (some (.ok v)) where
  transmitted := by
    rcases hattempt _ _ _ _ _ htry with hsent | hsent
    · exact ⟨0, Nat.zero_le _, by simp [RctPower.transmitted, Tried.sent, hsent]⟩
    · exact ⟨1, by omega, by simp [RctPower.transmitted, Tried.sent, hsent]⟩
  gave w := by simp [Tried.Gave, hv]
  tried := by
    intro w t ht hgave
    obtain rfl := List.mem_singleton.mp ht
    obtain ⟨out', hout, hw⟩ := hgave
    obtain rfl := Option.some.inj hout
    exact ⟨env, List.mem_cons_self, pooled, out, htry, hw⟩

/-- After a try that fails there are the others. -/
theorem Exchanges.failed {e : RctError} (he : out.result = .error e) {tries : List Tried}
    (h : Exchanges attempt frame respType left envs tries result) :
    Exchanges attempt frame respType (left + 1) (env :: envs) (⟨frame, some out⟩ :: tries) result := by
  have hnot : ∀ v, ¬ Tried.Gave ⟨frame, some out⟩ v := by
    rintro v ⟨out', hout, hv⟩
    obtain rfl := Option.some.inj hout
    rw [he] at hv
    cases hv
  refine ⟨?_, fun v => ?_, fun v t ht hgave => ?_⟩
  · obtain ⟨k, hk, hrest⟩ := h.transmitted
    rw [RctPower.transmitted] at hrest
    rw [RctPower.transmitted, List.flatMap_cons, hrest]
    rcases hattempt _ _ _ _ _ htry with hsent | hsent
    · exact ⟨k, by omega, by simp [Tried.sent, hsent]⟩
    · exact ⟨k + 1, by omega, by simp [Tried.sent, hsent, List.replicate_succ]⟩
  · rw [h.gave v]
    simp [hnot v]
  · rcases List.mem_cons.mp ht with rfl | ht
    · exact absurd hgave (hnot v)
    · obtain ⟨env', hmem, hrest⟩ := h.tried v t ht hgave
      exact ⟨env', List.mem_cons_of_mem _ hmem, hrest⟩

end Ended

end Tries

/-- **The retry loop** of a call, from any turn on. -/
theorem exchanges_loop (hattempt : SendsOnce attempt) (frame : List UInt8) (respType : DataType) (left : ℕ)
    (first : Bool) (lastErr : RctError) (pooled : Bool) (envs : List κ) :
    Exchanges attempt frame respType left envs
      (Caller.tries attempt ⟨.exchangeLoop frame respType .done left first lastErr, pooled⟩ envs)
      (Caller.result attempt ⟨.exchangeLoop frame respType .done left first lastErr, pooled⟩ envs) := by
  induction left generalizing first lastErr pooled envs with
  | zero =>
    rw [Script.exchangeLoop, Caller.tries_of_over (by simp [Script.awake]), Caller.result_of_returned rfl]
    exact .nil (by simp)
  | succ left ih =>
    cases envs with
    | nil =>
      rw [Caller.tries, Caller.result, Caller.returned_exchangeLoop]
      exact .nil (by simp)
    | cons env envs =>
      simp only [Caller.tries, Caller.tried, Caller.result, Caller.returned_exchangeLoop, Caller.step,
        awake_exchangeLoop]
      cases htry : attempt frame respType pooled env with
      | error p =>
        simp only [Option.bind_some, Caller.result_panics]
        rw [Caller.tries_of_over (by simp [Script.awake])]
        exact .lost (by simp)
      | ok outcome =>
        cases outcome with
        | none => exact .lost (by simp)
        | some out =>
          cases hresult : out.result with
          | ok v =>
            simp only [hresult, Option.bind_some]
            rw [Caller.tries_of_over (by simp [Script.awake]), Caller.result_of_returned rfl]
            exact .answered hattempt htry hresult
          | error e =>
            simp only [hresult, Option.bind_some]
            exact .failed hattempt htry hresult (ih false e out.pooled envs)

end Result

namespace Rct

/-! ### The program -/

/-- A command that talks to the inverter. -/
inductive Cmd where
  /-- `get`: read a parameter from the inverter. -/
  | get (parameter host : String)
  /-- `set`: write a parameter. -/
  | set (parameter value host : String) (yes : Bool)
  deriving DecidableEq

/-- The error that the program ends with. -/
inductive Failure where
  /-- A text of its own. -/
  | message (text : String)
  /-- An error of the crate. -/
  | rct (e : RctError)
  deriving DecidableEq

/-- The line that is printed. -/
inductive Printed where
  /-- `*** READ SUCCESS: {parameter} = {v}`. -/
  | readSuccess (parameter : String) (v : DataValue)
  /-- `### ERROR ### Failed to read parameter '{parameter}': {e}`. -/
  | readFailed (parameter : String) (e : RctError)
  /-- `*** SET SUCCESS: {parameter} = {v} on {host}`. -/
  | setSuccess (parameter : String) (v : DataValue) (host : String)
  deriving DecidableEq

/-- The error for a name that is not in the registry. -/
def invalidParameter (parameter : String) : Failure := .message ("Error: Invalid parameter '" ++ parameter ++ "'")

/-- The call that is made of a command, and what is done with its result. -/
structure Call where
  /-- The call. -/
  method : Method
  /-- What is printed. -/
  report : Except RctError DataValue → Except Failure Printed

/-- What is done before there is a client. -/
def plan (reg : Registry) : Cmd → Checked (Except Failure Call)
  | .get parameter _ =>
    .ok (match reg.getByName parameter with
      | none => .error (invalidParameter parameter)
      | some obj => .ok ⟨.read obj, fun
        | .ok v => .ok (.readSuccess parameter v)
        | .error e => .ok (.readFailed parameter e)⟩)
  | .set parameter value host yes =>
    if !yes then
      .ok (.error (.message "refusing to write without --yes (safety gate). Re-run with --yes to confirm."))
    else
      match reg.getByName parameter with
      | none => .ok (.error (invalidParameter parameter))
      | some obj => (parseValue parameter value).map fun
        | .error e => .error (.rct e)
        | .ok v =>
          match validate parameter v with
          | .error e => .error (.rct e)
          | .ok () => .ok ⟨.write obj v, fun
            | .ok _ => .ok (.setSuccess parameter v host)
            | .error e => .error (.rct e)⟩

/-- A run, up to some point of it. -/
structure Run where
  /-- The tries of the call. -/
  tries : List Tried
  /-- How the program ends, if it does. -/
  ends : Option (Except Failure Printed)

/-- The program, with the registry that is compiled into it, and a new client. -/
def main (prof : Profile) (reg : Registry) (cmd : Cmd) (envs : List SyncTry) : Run :=
  match plan reg cmd with
  | .error _ => ⟨[], none⟩
  | .ok (.error f) => ⟨[], some (.error f)⟩
  | .ok (.ok call) =>
    let caller : Caller := ⟨call.method.script prof .default, false⟩
    ⟨caller.tries (Client.tryExchange .default) envs,
      (caller.result (Client.tryExchange .default) envs).map call.report⟩

/-! ### An inverter that answers -/

/-- One of the first `left` tries is answered with the value, and those before it end with an error, whatever
is in the pool. -/
inductive AnsweredWithin (respType : DataType) (v : DataValue) : (left : ℕ) → List SyncTry → Prop
  /-- The next one. -/
  | now {left : ℕ} {env : SyncTry} (envs : List SyncTry) (hanswers : Client.Answers .default respType false env v) :
    AnsweredWithin respType v (left + 1) (env :: envs)
  /-- One after it. -/
  | later {left : ℕ} {env : SyncTry} {envs : List SyncTry}
    (hfails : ∀ frame pooled, ∃ out e,
      Client.tryExchange .default frame respType pooled env = .ok (some out) ∧ out.result = .error e)
    (hrest : AnsweredWithin respType v left envs) : AnsweredWithin respType v (left + 1) (env :: envs)

/-- The retry loop has then transmitted its frame, and returns the value. -/
theorem loop_of_answered {respType : DataType} {v : DataValue} {left : ℕ} {envs : List SyncTry}
    (h : AnsweredWithin respType v left envs) (frame : List UInt8) (first : Bool) (lastErr : RctError)
    (pooled : Bool) :
    let c : Caller := ⟨.exchangeLoop frame respType .done left first lastErr, pooled⟩
    transmitted (c.tries (Client.tryExchange .default) envs) ≠ [] ∧
      c.result (Client.tryExchange .default) envs = some (.ok v) := by
  dsimp only
  induction h generalizing first lastErr pooled with
  | @now left env envs hanswers =>
    obtain ⟨out, htry, hv⟩ : ∃ out, Client.tryExchange .default frame respType pooled env = .ok (some out) ∧
        out.result = .ok v := Client.answers_iff.mp (hanswers.any pooled)
    simp only [Caller.tries, Caller.tried, Caller.result, Caller.returned_exchangeLoop, Caller.step,
      awake_exchangeLoop, htry, hv, Option.bind_some]
    refine ⟨?_, Caller.result_of_returned rfl envs⟩
    simp [RctPower.transmitted, Tried.sent, Client.sent_of_ok htry hv]
  | @later left env envs hfails hrest ih =>
    obtain ⟨out, e, htry, he⟩ := hfails frame pooled
    obtain ⟨hsent, hresult⟩ := ih false e out.pooled
    simp only [Caller.tries, Caller.tried, Caller.result, Caller.returned_exchangeLoop, Caller.step,
      awake_exchangeLoop, htry, he, Option.bind_some]
    refine ⟨?_, hresult⟩
    rw [RctPower.transmitted, List.flatMap_cons]
    exact List.append_ne_nil_of_right_ne_nil _ hsent

/-! ### What is transmitted -/

/-- A registry with the rows of the parameters that can be written. -/
def Agrees (reg : Registry) : Prop :=
  ∀ name rule, ruleFor name = some rule → reg.getByName name = writableRows.getByName name

/-- The WRITE of a value that was typed, and is valid. -/
structure TypedWrite (parameter value : String) (obj : ObjectInfo) (v : DataValue) (f : StdFrame) : Prop where
  /-- The object. -/
  object : writableRows.getByName parameter = some obj
  /-- The value is that of the text. -/
  parsed : parseValue parameter value = .ok (.ok v)
  /-- It is valid. -/
  valid : validate parameter v = .ok ()
  /-- If the text is a decimal fraction, it is the float nearest to it, ties to even. -/
  nearest : ∀ t : Fraction, value = String.ofList t.chars → obj.requestDataType ≠ .bool →
    ∃ g, v = .f32 g ∧ IsRounded t.negative t.magnitude g ∧ IsNearest t.number g
  /-- The command. -/
  command : f.command = .write
  /-- The id is that of the object. -/
  id : f.id = obj.objectId
  /-- The payload denotes the value. -/
  payload : Denotes obj.requestDataType f.payload v

/-- The payload of a value is short. -/
theorem length_le_of_denotes {dt : DataType} {payload : List UInt8} {v : DataValue} (h : Denotes dt payload v) :
    payload.length ≤ 4 := by
  cases dt with
  | bool =>
    obtain ⟨b, -, rfl⟩ := h
    exact (by decide : 1 ≤ 4)
  | enum =>
    obtain ⟨b, rfl, -⟩ := h
    exact (by decide : 1 ≤ 4)
  | float =>
    obtain ⟨g, rfl, -⟩ := h
    exact (length_u32ToBe _).le
  | _ => exact absurd h not_false

section Plan

variable {reg : Registry} {parameter value host : String} {yes : Bool}

/-- **Past the gates** there is a write of what was typed. -/
theorem exists_write_of_plan (prof : Profile) (hreg : Agrees reg) {call : Call}
    (h : plan reg (.set parameter value host yes) = .ok (.ok call)) :
    yes = true ∧ ∃ obj v f, TypedWrite parameter value obj v f ∧ call.method = .write obj v ∧
      writeRequest prof obj v = .ok (.ok f.bytes) ∧
      ∀ r printed, call.report r = .ok printed ↔ (∃ w, r = .ok w) ∧ printed = .setSuccess parameter v host := by
  rw [plan] at h
  cases yes with
  | false => cases h
  | true =>
    refine ⟨rfl, ?_⟩
    rw [Bool.not_true, if_neg Bool.false_ne_true] at h
    split at h
    · cases h
    next obj hobj =>
    obtain ⟨parsed, hparse, hcall⟩ := of_map_eq_ok h
    cases parsed with
    | error e => cases hcall
    | ok v =>
      dsimp only at hcall
      split at hcall
      · cases hcall
      next hvalid =>
      cases hcall
      obtain ⟨rule, obj', hrule, hobj'⟩ := exists_rule_of_validate hvalid
      obtain rfl : obj = obj' := by
        rw [hreg parameter rule hrule, hobj'] at hobj
        exact (Option.some.inj hobj).symm
      obtain ⟨payload, hencode, hdenotes⟩ := exists_payload_of_validate hrule hobj' hvalid
      have hfits : payload.length ≤ capacity .write := (length_le_of_denotes hdenotes).trans (by decide)
      let f : StdFrame := ⟨.write, obj.objectId, payload, by decide, hfits, fun hread => by cases hread⟩
      have hnearest : ∀ t : Fraction, value = String.ofList t.chars → obj.requestDataType ≠ .bool →
          ∃ g, v = .f32 g ∧ IsRounded t.negative t.magnitude g ∧ IsNearest t.number g := by
        rintro t rfl htype
        rw [parseValue_fraction hrule hobj' htype] at hparse
        obtain rfl : DataValue.f32 (.ofRat t.negative t.magnitude) = v := by simpa using hparse
        have hfinite := lt_overflowThreshold_of_validate hrule hobj' htype hvalid
        exact ⟨_, rfl, (isRounded_iff t.negative t.magnitude_nonneg).mpr rfl, isNearest_of_lt hfinite⟩
      refine ⟨obj, v, f, ⟨hobj', hparse, hvalid, hnearest, rfl, rfl, hdenotes⟩, rfl, ?_, ?_⟩
      · rw [writeRequest, hencode]
        exact makeFrame_standard f prof 0
      · intro r printed
        cases r with
        | ok w => simp [eq_comm]
        | error e => simp

/-- A valid value that was typed comes past the gates. -/
theorem exists_plan_of_valid (hreg : Agrees reg) {v : DataValue} (hparse : parseValue parameter value = .ok (.ok v))
    (hvalid : validate parameter v = .ok ()) : ∃ call, plan reg (.set parameter value host true) = .ok (.ok call) := by
  obtain ⟨rule, obj, hrule, hobj⟩ := exists_rule_of_validate hvalid
  have hreg' : reg.getByName parameter = some obj := (hreg parameter rule hrule).trans hobj
  refine ⟨⟨.write obj v, fun
    | .ok _ => .ok (.setSuccess parameter v host)
    | .error e => .error (.rct e)⟩, ?_⟩
  simp only [plan, Bool.not_true, Bool.false_eq_true, if_false, hreg', hparse, Except.map, hvalid]

end Plan

/-- What is left to do after the plan is a retry loop. -/
theorem main_of_plan {prof : Profile} {reg : Registry} {cmd : Cmd} {call : Call} {frame : List UInt8}
    {respType : DataType} (hplan : plan reg cmd = .ok (.ok call))
    (hscript : call.method.script prof .default = .exchangeLoop frame respType .done 3 true .timeout)
    (envs : List SyncTry) :
    let caller : Caller := ⟨.exchangeLoop frame respType .done 3 true .timeout, false⟩
    main prof reg cmd envs = ⟨caller.tries (Client.tryExchange .default) envs,
      (caller.result (Client.tryExchange .default) envs).map call.report⟩ := by
  simp only [main, hplan, hscript]

/-- Without a plan there are no tries, and nothing is printed. -/
theorem main_of_not_planned (prof : Profile) {reg : Registry} {cmd : Cmd} (h : ∀ call, plan reg cmd ≠ .ok (.ok call))
    (envs : List SyncTry) :
    (main prof reg cmd envs).tries = [] ∧ ∀ printed, (main prof reg cmd envs).ends ≠ some (.ok printed) := by
  rw [main]
  split
  · exact ⟨rfl, by simp⟩
  · exact ⟨rfl, by simp⟩
  · next call hplan => exact absurd hplan (h call)

/-- **What `rct set` does**, whatever the inverter does. What it transmits, up to any point of its run, are at
most three copies of one WRITE of a valid value that was typed, and nothing without `--yes`. It reports
success exactly when one of its tries was answered, with any value; and if the inverter answers in time, it has
written a valid value and reports it. -/
theorem set_transmits (prof : Profile) {reg : Registry} (hreg : Agrees reg) (parameter value host : String)
    (yes : Bool) (envs : List SyncTry) :
    let run := main prof reg (.set parameter value host yes) envs
    (transmitted run.tries ≠ [] → yes = true ∧ ∃ obj v f, TypedWrite parameter value obj v f ∧
      ∃ k ≤ 3, transmitted run.tries = List.replicate k f.bytes) ∧
    (∀ printed, run.ends = some (.ok printed) ↔
      (∃ v, parseValue parameter value = .ok (.ok v) ∧ printed = .setSuccess parameter v host) ∧
        ∃ t ∈ run.tries, ∃ w, t.Gave w) ∧
    ∀ obj v w, yes = true → writableRows.getByName parameter = some obj →
      parseValue parameter value = .ok (.ok v) → validate parameter v = .ok () →
      AnsweredWithin obj.responseDataType w 3 envs →
        transmitted run.tries ≠ [] ∧ run.ends = some (.ok (.setSuccess parameter v host)) := by
  dsimp only
  by_cases hplan : ∃ call, plan reg (.set parameter value host yes) = .ok (.ok call)
  · obtain ⟨call, hplan⟩ := hplan
    obtain ⟨rfl, obj, v, f, hwrites, hmethod, hrequest, hreport⟩ := exists_write_of_plan prof hreg hplan
    have hscript : call.method.script prof .default =
        .exchangeLoop f.bytes obj.responseDataType .done 3 true .timeout := by
      simp only [hmethod, Method.script, Script.write, hrequest]
      rfl
    have hexchange := exchanges_loop (Client.sendsOnce .default) f.bytes obj.responseDataType 3 true .timeout false envs
    simp only [main_of_plan hplan hscript, Option.map_eq_some_iff]
    refine ⟨fun _ => ⟨trivial, obj, v, f, hwrites, hexchange.transmitted⟩, fun printed => ⟨?_, ?_⟩, ?_⟩
    · rintro ⟨r, hresult, hprinted⟩
      obtain ⟨⟨w, rfl⟩, heq⟩ := (hreport r printed).mp hprinted
      obtain ⟨t, ht, hgave⟩ := (hexchange.gave w).mp hresult
      exact ⟨⟨v, hwrites.parsed, heq⟩, t, ht, w, hgave⟩
    · rintro ⟨⟨v', hparsed, hprinted⟩, t, ht, w, hgave⟩
      obtain rfl : v = v' := by simpa using hwrites.parsed.symm.trans hparsed
      exact ⟨.ok w, (hexchange.gave w).mpr ⟨t, ht, hgave⟩, (hreport _ _).mpr ⟨⟨w, rfl⟩, hprinted⟩⟩
    · intro obj' v' w _ hobj hparsed _ hanswered
      obtain rfl : obj = obj' := Option.some.inj (hwrites.object.symm.trans hobj)
      obtain rfl : v = v' := by simpa using hwrites.parsed.symm.trans hparsed
      obtain ⟨hsent, hresult⟩ := loop_of_answered hanswered f.bytes true .timeout false
      exact ⟨hsent, .ok w, hresult, (hreport _ _).mpr ⟨⟨w, rfl⟩, rfl⟩⟩
  · obtain ⟨htries, hends⟩ := main_of_not_planned prof (not_exists.mp hplan) envs
    rw [htries]
    refine ⟨fun h => absurd rfl h, fun printed => iff_of_false (hends printed) (by simp), ?_⟩
    rintro obj v w rfl - hparsed hvalid
    exact absurd (exists_plan_of_valid hreg hparsed hvalid) hplan

/-- A strategy is set; the first answer is lost, the second is to another request. -/
theorem set_transmits_strategy :
    let opening : SyncOpening := ⟨.ok true, .ok (), .ok (), .ok (), .ok (), 0⟩
    let run := main .debug writableRows (.set "power_mng.soc_strategy" "4" "inverter" true)
      [⟨opening, [⟨6, .error .wouldBlock⟩]⟩, ⟨opening, [⟨0, .ok (responseTo 7).bytes⟩]⟩]
    run.ends = some (.ok (.setSuccess "power_mng.soc_strategy" (.u8 4) "inverter")) ∧
      ∃ obj v f, TypedWrite "power_mng.soc_strategy" "4" obj v f ∧
        ∃ k ≤ 3, transmitted run.tries = List.replicate k f.bytes := by
  intro opening run
  obtain ⟨obj, hobj, htype⟩ : ∃ obj, writableRows.getByName "power_mng.soc_strategy" = some obj ∧
      obj.responseDataType = .enum := ⟨_, rfl, rfl⟩
  have hanswered : AnsweredWithin .enum (.u32 4) 3
      [⟨opening, [⟨6, .error .wouldBlock⟩]⟩, ⟨opening, [⟨0, .ok (responseTo 7).bytes⟩]⟩] := by
    refine .later (fun frame pooled => ?_) (.now [] ?_)
    · cases pooled <;> exact ⟨_, _, rfl, rfl⟩
    · have htry : Client.tryExchange .default [] .enum false ⟨opening, [⟨0, .ok (responseTo 7).bytes⟩]⟩ =
          .ok (some ⟨true, [[]], .ok (.u32 4)⟩) := by decide +kernel
      exact Client.answers_iff.mpr ⟨_, htry, rfl⟩
  obtain ⟨hsent, -, hsuccess⟩ := @set_transmits .debug writableRows (fun _ _ _ => rfl) "power_mng.soc_strategy" "4"
    "inverter" true [⟨opening, [⟨6, .error .wouldBlock⟩]⟩, ⟨opening, [⟨0, .ok (responseTo 7).bytes⟩]⟩]
  obtain ⟨hne, hends⟩ := hsuccess obj (.u8 4) (.u32 4) rfl hobj (by decide +kernel) (by decide +kernel)
    (htype ▸ hanswered)
  exact ⟨hends, (hsent hne).2⟩

/-- **What `rct get` does**: it transmits at most three copies of one READ of the parameter, and prints a
value exactly when one of its tries was answered with it, which is then that of the first frame received. If the
inverter answers in time, it has asked for the parameter and prints the value. -/
theorem get_transmits (prof : Profile) (reg : Registry) (parameter host : String) (envs : List SyncTry) :
    let run := main prof reg (.get parameter host) envs
    (transmitted run.tries ≠ [] → ∃ obj frame, reg.getByName parameter = some obj ∧
      readRequest prof obj = .ok (.ok frame) ∧ ∃ k ≤ 3, transmitted run.tries = List.replicate k frame) ∧
    (∀ v, (run.ends = some (.ok (.readSuccess parameter v)) ↔ ∃ t ∈ run.tries, t.Gave v) ∧
      (run.ends = some (.ok (.readSuccess parameter v)) → ∃ obj, reg.getByName parameter = some obj ∧
        ∃ env ∈ envs, DecodedFromFirst (ReadEvent.allBytes env.reads) obj.responseDataType v)) ∧
    ∀ obj v, reg.getByName parameter = some obj → AnsweredWithin obj.responseDataType v 3 envs →
      transmitted run.tries ≠ [] ∧ run.ends = some (.ok (.readSuccess parameter v)) := by
  dsimp only
  rw [main, plan]
  cases hobj : reg.getByName parameter with
  | none => exact ⟨fun h => absurd rfl h, fun v => ⟨by simp, by simp⟩, by simp⟩
  | some obj =>
    obtain ⟨frame, hrequest⟩ := readRequest_ok prof obj
    have hscript : (Method.read obj).script prof .default =
        .exchangeLoop frame obj.responseDataType .done 3 true .timeout := by
      simp only [Method.script, Script.read, hrequest]
      rfl
    dsimp only
    rw [hscript]
    have hexchange := exchanges_loop (Client.sendsOnce .default) frame obj.responseDataType 3 true .timeout false envs
    have hends : ∀ {r : Option (Except RctError DataValue)} {v : DataValue},
        r.map (fun
          | .ok v => (.ok (.readSuccess parameter v) : Except Failure Printed)
          | .error e => .ok (.readFailed parameter e)) = some (.ok (.readSuccess parameter v)) ↔
        r = some (.ok v) := by
      intro r v
      rcases r with _ | (e | w) <;> simp
    refine ⟨fun _ => ⟨obj, frame, rfl, hrequest, hexchange.transmitted⟩, fun v => ?_, ?_⟩
    · rw [hends, hexchange.gave v]
      refine ⟨Iff.rfl, ?_⟩
      rintro ⟨t, ht, hgave⟩
      obtain ⟨env, hmem, pooled, out, htry, hv⟩ := hexchange.tried v t ht hgave
      obtain ⟨rx, hrx, hdata, hdecode⟩ := Client.tryExchange_ok htry hv
      exact ⟨obj, rfl, env, hmem, decodedFromFirst_iff.mpr ⟨rx, hrx, hdata, hdecode⟩⟩
    · rintro obj' v ⟨⟩ hanswered
      obtain ⟨hsent, hresult⟩ := loop_of_answered hanswered frame true .timeout false
      exact ⟨hsent, hends.mpr hresult⟩

end Rct

end RctPower
