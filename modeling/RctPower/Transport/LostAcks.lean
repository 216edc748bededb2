import RctPower.Transport.Response
import RctPower.Transport.Verify

/-!
# Lost acknowledgements

`write_and_verify` is there for devices that store a value and do not say so. `Stores` is such a
device: it answers every READ in time with the payload that was written, and a WRITE too, unless the
acknowledgement is lost.

## What is proved

`completes_iff` says with which values the method gets through. It compares what it reads back with
the value as the caller gave it, and these are of the same variant only if the caller chose the one
that `decode_value` makes; so a float that is given as an integer is written, and never recognized. And
an enumeration cannot be read at all, because it is written as one byte.
-/

namespace RctPower

open RctPower.Lib.Rust RctPower.Lib.Binary32 RctPower.Lib.Machine

namespace Client

/-- The request of a try is written. -/
structure Opens (pooled : Bool) (env : SyncTry) : Prop where
  /-- There is a connection. -/
  connected : connect pooled env.toSyncOpening = .ok ()
  /-- Its timeouts can be set. -/
  prepared : prepare env.toSyncOpening = .ok ()
  /-- The request is written. -/
  written : env.written = .ok ()

/-- The device answers with a payload, in time. -/
def Responds (cfg : ClientConfig) (pooled : Bool) (env : SyncTry) (payload : List UInt8) : Prop :=
  Opens pooled env ∧
    ∃ resp : Response, resp.frame.payload = payload ∧ Delivers (policy cfg env.start) env.reads resp.bytes

/-- The device receives the request and does not answer. -/
def Silent (cfg : ClientConfig) (pooled : Bool) (env : SyncTry) : Prop :=
  Opens pooled env ∧ Unanswered (policy cfg env.start) env.reads

end Client

namespace AsyncClient

/-- The request of a try is written. -/
structure Opens (pooled : Bool) (env : AsyncTry) : Prop where
  /-- There is a connection. -/
  connected : pooled = true ∨ env.connected = .ok ()
  /-- The request is written. -/
  written : env.written = .ok ()

/-- The device answers with a payload, in time. -/
def Responds (pooled : Bool) (env : AsyncTry) (payload : List UInt8) : Prop :=
  Opens pooled env ∧ ∃ resp : Response, resp.frame.payload = payload ∧ Delivers policy env.reads resp.bytes

/-- The device receives the request and does not answer. -/
def Silent (pooled : Bool) (env : AsyncTry) : Prop := Opens pooled env ∧ Unanswered policy env.reads

end AsyncClient

/-! ### A try -/

/-- A response that is delivered is received. -/
theorem receive_response {ε : Type} {policy : ReadPolicy ε} {reads : List (ReadEvent ε)} {payload : List UInt8}
    (h : ∃ resp : Response, resp.frame.payload = payload ∧ Delivers policy reads resp.bytes) :
    ∃ rx, receive policy reads = .ok (some (.ok rx)) ∧ rx.data = payload := by
  obtain ⟨resp, rfl, hdelivers⟩ := h
  obtain ⟨rx, hcompletes, hparsed, -⟩ := resp.completes
  exact ⟨rx, receive_of_delivers hdelivers hcompletes, hparsed.data⟩

section Tries

variable {cfg : ClientConfig} {frame : List UInt8} {respType : DataType} {pooled : Bool} {payload : List UInt8}
  {value : Except RctError DataValue}

/-- **A response is decoded.** -/
theorem Client.tryExchange_responds {env : SyncTry} (h : Responds cfg pooled env payload) (hne : payload ≠ [])
    (hvalue : decodeValue respType payload = .ok value) :
    ∃ out, tryExchange cfg frame respType pooled env = .ok (some out) ∧ out.result = value := by
  obtain ⟨⟨hconnected, hprepared, hwritten⟩, hresp⟩ := h
  obtain ⟨rx, hreceive, rfl⟩ := receive_response hresp
  refine ⟨⟨value.isOk, [frame], value⟩, ?_, rfl⟩
  simp only [tryExchange, hconnected, hprepared, hwritten, hreceive, finish, if_neg hne, hvalue, Except.map]

theorem Client.tryExchange_silent {env : SyncTry} (h : Silent cfg pooled env) :
    ∃ out, tryExchange cfg frame respType pooled env = .ok (some out) ∧ out.result = .error .timeout := by
  obtain ⟨⟨hconnected, hprepared, hwritten⟩, hreads⟩ := h
  refine ⟨⟨true, [frame], .error .timeout⟩, ?_, rfl⟩
  simp only [tryExchange, hconnected, hprepared, hwritten, receive_of_unanswered hreads]

theorem AsyncClient.Opens.connect {env : AsyncTry} (h : Opens pooled env) :
    (if pooled then .ok () else env.connected : Timed Unit) = .ok () := by
  cases pooled with
  | true => rfl
  | false => exact h.connected.resolve_left Bool.false_ne_true

theorem AsyncClient.tryExchange_responds {env : AsyncTry} (h : Responds pooled env payload) (hne : payload ≠ [])
    (hvalue : decodeValue respType payload = .ok value) :
    ∃ out, tryExchange frame respType pooled env = .ok (some out) ∧ out.result = value := by
  obtain ⟨hopens, hresp⟩ := h
  obtain ⟨rx, hreceive, rfl⟩ := receive_response hresp
  refine ⟨⟨value.isOk, [frame], value⟩, ?_, rfl⟩
  simp only [tryExchange, hopens.connect, exchangeOn, hopens.written, hreceive, finish, if_neg hne, hvalue, Except.map,
    Option.map_some]

theorem AsyncClient.tryExchange_silent {env : AsyncTry} (h : Silent pooled env) :
    ∃ out, tryExchange frame respType pooled env = .ok (some out) ∧ out.result = .error .timeout := by
  obtain ⟨hopens, hreads⟩ := h
  refine ⟨⟨false, [frame], .error .timeout⟩, ?_, rfl⟩
  simp only [tryExchange, hopens.connect, exchangeOn, hopens.written, receive_of_unanswered hreads, Except.map,
    Option.map_some]
  rfl

end Tries

/-! ### A call -/

section Calls

variable {κ : Type}

/-- The device stores the payload and answers every READ with it in time, and every WRITE too if the
acknowledgement is not lost. -/
def Stores (responds : Bool → κ → List UInt8 → Prop) (silent : Bool → κ → Prop) (payload : List UInt8) (c : Caller)
    (env : κ) : Prop :=
  ∀ frame respType next, c.script.awake = .attempt frame respType next →
    responds c.pooled env payload ∨ (¬ IsRead frame ∧ silent c.pooled env)

/-- The call returns a result after some of the tries. -/
def Returns (attempt : Attempt κ) (c : Caller) (envs : List κ) (r : Except RctError DataValue) : Prop :=
  ∃ used t, used <+: envs ∧ run (Caller.step attempt) c used = some t ∧ t.returned = some r

/-- The most tries of a call: a WRITE, and as often as the configuration allows another one and a READ with
its retries. -/
def ClientConfig.mostTries (cfg : ClientConfig) : ℕ := 1 + max cfg.retries 1 * (1 + max cfg.retries 1)

variable {attempt : Attempt κ} {responds : Bool → κ → List UInt8 → Prop} {silent : Bool → κ → Prop}
  {respType : DataType} {payload : List UInt8} {stored : Except RctError DataValue}

theorem Returns.of_run {c t : Caller} {used rest : List κ} {r : Except RctError DataValue}
    (hrun : run (Caller.step attempt) c used = some t) (h : Returns attempt t rest r) :
    Returns attempt c (used ++ rest) r := by
  obtain ⟨more, u, hpre, hmore, hr⟩ := h
  refine ⟨used ++ more, u, List.prefix_append_right_inj used |>.mpr hpre, ?_, hr⟩
  rw [run_append, hrun, Option.bind_some, hmore]

theorem Returns.of_step {c t : Caller} {env : κ} {rest : List κ} {r : Except RctError DataValue}
    (hstep : c.step attempt env = some t) (h : Returns attempt t rest r) : Returns attempt c (env :: rest) r := by
  have hrun : run (Caller.step attempt) c [env] = some t := by rw [run, hstep, Option.bind_some, run]
  exact h.of_run hrun

/-- A run that is computed. -/
theorem returns_of_run {c : Caller} {used envs : List κ} {r : Except RctError DataValue} (hpre : used <+: envs)
    (h : (run (Caller.step attempt) c used).bind Caller.returned = some r) : Returns attempt c envs r := by
  obtain ⟨t, hrun, hr⟩ := Option.bind_eq_some_iff.mp h
  exact ⟨used, t, hpre, hrun, hr⟩

/-- What a call returns does not depend on how long one waits. -/
theorem Returns.unique {c : Caller} {envs : List κ} {r r' : Except RctError DataValue} (h : Returns attempt c envs r)
    (h' : Returns attempt c envs r') : r = r' := by
  obtain ⟨used, t, hpre, hrun, hr⟩ := h
  obtain ⟨used', t', hpre', hrun', hr'⟩ := h'
  have hend : ∀ {t : Caller} {r : Except RctError DataValue}, t.returned = some r →
      ∀ env, t.step attempt env = none := by
    intro t r hr env
    unfold Caller.returned at hr
    split at hr
    · next w hw => simp only [Caller.step, hw, Script.awake]
    · cases hr
  have hstuck : ∀ {more : List κ} {t u : Caller} {r : Except RctError DataValue}, t.returned = some r →
      run (Caller.step attempt) t more = some u → t = u := by
    intro more t u r hr hmore
    cases more with
    | nil => simpa [run] using hmore
    | cons env more =>
      rw [run, hend hr env] at hmore
      cases hmore
  rcases List.prefix_or_prefix_of_prefix hpre hpre' with ⟨more, rfl⟩ | ⟨more, rfl⟩
  · rw [run_append, hrun, Option.bind_some] at hrun'
    obtain rfl := hstuck hr hrun'
    exact Option.some.inj (hr.symm.trans hr')
  · rw [run_append, hrun', Option.bind_some] at hrun
    obtain rfl := hstuck hr' hrun
    exact Option.some.inj (hr.symm.trans hr')

variable (hresponds : ∀ frame pooled env, responds pooled env payload →
    ∃ out, attempt frame respType pooled env = .ok (some out) ∧ out.result = stored)
  (hsilent : ∀ frame pooled env, silent pooled env →
    ∃ out, attempt frame respType pooled env = .ok (some out) ∧ out.result = .error .timeout)

section Loops

variable {frame : List UInt8} {next : Except RctError DataValue → Script} {pooled : Bool}

include hresponds in
/-- A READ gives what is stored. -/
theorem step_of_isRead (hread : IsRead frame) {script : Script} (hscript : script.awake = .attempt frame respType next)
    {env : κ} (hstores : Stores responds silent payload ⟨script, pooled⟩ env) :
    ∃ pooled', Caller.step attempt ⟨script, pooled⟩ env = some ⟨next stored, pooled'⟩ := by
  have hresponse := (hstores frame respType next hscript).resolve_right fun h => h.1 hread
  obtain ⟨out, htry, hout⟩ := hresponds frame pooled env hresponse
  exact ⟨out.pooled, by rw [Caller.step_of_attempt hscript htry, hout]⟩

include hresponds hsilent in
/-- Any try gives what is stored, or times out. -/
theorem step_of_stores {script : Script} (hscript : script.awake = .attempt frame respType next) {env : κ}
    (hstores : Stores responds silent payload ⟨script, pooled⟩ env) :
    ∃ pooled', Caller.step attempt ⟨script, pooled⟩ env = some ⟨next stored, pooled'⟩ ∨
      Caller.step attempt ⟨script, pooled⟩ env = some ⟨next (.error .timeout), pooled'⟩ := by
  rcases hstores frame respType next hscript with hresponse | ⟨-, hsilence⟩
  · obtain ⟨out, htry, hout⟩ := hresponds frame pooled env hresponse
    exact ⟨out.pooled, .inl (by rw [Caller.step_of_attempt hscript htry, hout])⟩
  · obtain ⟨out, htry, hout⟩ := hsilent frame pooled env hsilence
    exact ⟨out.pooled, .inr (by rw [Caller.step_of_attempt hscript htry, hout])⟩

include hresponds in
/-- **The loop of `exchange` reads what is stored**: at once, or, when it cannot be decoded, in none of its turns. -/
theorem run_exchangeLoop_stores (hread : IsRead frame) {left : ℕ} {first : Bool} {lastErr : RctError} {envs : List κ}
    (hlen : left ≤ envs.length) (hzero : left = 0 → stored = .error lastErr)
    (hmeets : Meets (Caller.step attempt) (Stores responds silent payload)
      ⟨.exchangeLoop frame respType next left first lastErr, pooled⟩ envs) :
    ∃ used rest pooled', envs = used ++ rest ∧ used.length ≤ left ∧
      run (Caller.step attempt) ⟨.exchangeLoop frame respType next left first lastErr, pooled⟩ used =
        some ⟨next stored, pooled'⟩ := by
  induction left generalizing first lastErr envs pooled with
  | zero => exact ⟨[], envs, pooled, rfl, le_rfl, by rw [hzero rfl, run, Script.exchangeLoop]⟩
  | succ left ih =>
    obtain ⟨env, envs, rfl⟩ : ∃ env rest, envs = env :: rest := List.exists_cons_of_length_pos (by omega)
    obtain ⟨pooled₁, hstep⟩ :=
      step_of_isRead hresponds hread (awake_exchangeLoop left first lastErr) hmeets.1
    cases hstored : stored with
    | ok v =>
      rw [hstored] at hstep
      exact ⟨[env], envs, pooled₁, rfl, by simp, by rw [run, hstep, Option.bind_some, run]⟩
    | error e =>
      rw [hstored] at hstep
      rw [Meets, hstep] at hmeets
      obtain ⟨used, rest, pooled₂, rfl, hused, hloop⟩ :=
        ih (Nat.le_of_succ_le_succ hlen) (fun _ => hstored) hmeets.2
      refine ⟨env :: used, rest, pooled₂, rfl, Nat.succ_le_succ hused, ?_⟩
      rw [hstored] at hloop
      rw [run, hstep, Option.bind_some]
      exact hloop

end Loops

section Verifying

variable {prof : Profile} {cfg : ClientConfig} {obj : ObjectInfo} {value : DataValue} {read write : List UInt8}

include hresponds in
/-- A READ of the object ends with what is stored. -/
theorem run_read_stores (hread : readRequest prof obj = .ok (.ok read)) {pooled : Bool}
    {next : Except RctError DataValue → Script} (htype : obj.responseDataType = respType) {envs : List κ}
    (hlen : max cfg.retries 1 ≤ envs.length)
    (hmeets : Meets (Caller.step attempt) (Stores responds silent payload)
      ⟨.read prof cfg obj next, pooled⟩ envs) :
    ∃ used rest pooled', envs = used ++ rest ∧ used.length ≤ max cfg.retries 1 ∧
      run (Caller.step attempt) ⟨.read prof cfg obj next, pooled⟩ used = some ⟨next stored, pooled'⟩ := by
  have hscript : Script.read prof cfg obj next =
      .exchangeLoop read respType next (max cfg.retries 1) true .timeout := by
    rw [Script.read, hread, Script.withFrame, Script.exchange, htype]
  rw [hscript] at hmeets ⊢
  exact run_exchangeLoop_stores hresponds (isRead_of_readRequest hread) hlen (by omega) hmeets

include hresponds hsilent in
/-- **The loop of `write_and_verify`** ends well when what is stored is recognized. -/
theorem returns_verifyLoop (hread : readRequest prof obj = .ok (.ok read)) (htype : obj.responseDataType = respType)
    {left : ℕ} {first : Bool} {pooled : Bool} {envs : List κ} (hlen : left * (1 + max cfg.retries 1) ≤ envs.length)
    (hmeets : Meets (Caller.step attempt) (Stores responds silent payload)
      ⟨.verifyLoop prof cfg obj value write left first, pooled⟩ envs) :
    ∃ r, Returns attempt ⟨.verifyLoop prof cfg obj value write left first, pooled⟩ envs r ∧
      ((∃ v, r = .ok v) ↔ 0 < left ∧ ∃ w, stored = .ok w ∧ value.eq w = true) := by
  induction left generalizing first pooled envs with
  | zero => exact ⟨.error .timeout, ⟨[], _, List.nil_prefix, rfl, rfl⟩, by simp⟩
  | succ left ih =>
    -- what follows the READ, from any place in the run
    have hback : ∀ {pooled : Bool} {envs : List κ},
        left * (1 + max cfg.retries 1) + max cfg.retries 1 ≤ envs.length →
        Meets (Caller.step attempt) (Stores responds silent payload)
          ⟨.verifyLoop prof cfg obj value write (left + 1) true, pooled⟩ envs →
        ∃ r, Returns attempt ⟨.verifyLoop prof cfg obj value write (left + 1) true, pooled⟩ envs r ∧
          ((∃ v, r = .ok v) ↔ ∃ w, stored = .ok w ∧ value.eq w = true) := by
      intro pooled envs hlen hmeets
      obtain ⟨used, rest, pooled', rfl, hused, hrun⟩ := run_read_stores hresponds hread htype (by omega) hmeets
      have hrest := hmeets.rest hrun
      rw [List.length_append] at hlen
      cases hstored : stored with
      | error e =>
        simp only [hstored] at hrun hrest
        obtain ⟨r, hr, hiff⟩ := ih (by omega) hrest
        exact ⟨r, hr.of_run hrun, by simp [hiff, hstored]⟩
      | ok w =>
        simp only [hstored] at hrun hrest
        by_cases heq : value.eq w = true
        · rw [if_pos heq] at hrun
          exact ⟨.ok w, .of_run hrun ⟨[], _, List.nil_prefix, rfl, rfl⟩, by simp [heq]⟩
        · rw [if_neg heq] at hrun hrest
          obtain ⟨r, hr, hiff⟩ := ih (by omega) hrest
          exact ⟨r, hr.of_run hrun, by simp [hiff, hstored, heq]⟩
    rw [Nat.succ_mul] at hlen
    have hpos : ∀ {P : Prop}, (0 < left + 1 ∧ P) ↔ P := and_iff_right (Nat.succ_pos left)
    simp only [hpos]
    cases first with
    | true => exact hback (by omega) hmeets
    | false =>
      obtain ⟨env, rest, rfl⟩ : ∃ env rest, envs = env :: rest := List.exists_cons_of_length_pos (by omega)
      -- whether the WRITE is acknowledged does not matter
      obtain ⟨pooled', hstep⟩ : ∃ pooled',
          Caller.step attempt ⟨.verifyLoop prof cfg obj value write (left + 1) false, pooled⟩ env =
            some ⟨.verifyLoop prof cfg obj value write (left + 1) true, pooled'⟩ := by
        have hawake : (Script.verifyLoop prof cfg obj value write (left + 1) false).awake =
            .attempt write respType fun _ => .verifyLoop prof cfg obj value write (left + 1) true := by
          rw [← htype]
          rfl
        obtain ⟨pooled', hstep | hstep⟩ := step_of_stores hresponds hsilent hawake hmeets.1
        · exact ⟨pooled', hstep⟩
        · exact ⟨pooled', hstep⟩
      rw [Meets, hstep] at hmeets
      rw [List.length_cons] at hlen
      obtain ⟨r, hr, hiff⟩ := hback (by omega) hmeets.2
      exact ⟨r, hr.of_step hstep, hiff⟩

/-- What is done after the first WRITE. -/
def afterWrite (prof : Profile) (cfg : ClientConfig) (obj : ObjectInfo) (value : DataValue) (write : List UInt8) :
    Except RctError DataValue → Script
  | .ok v => .done (.ok v)
  | .error .timeout | .error .emptyPayload => .verifyLoop prof cfg obj value write (max cfg.retries 1) true
  | .error e => .done (.error e)

theorem awake_verifying (hwrite : writeRequest prof obj value = .ok (.ok write)) (pooled : Bool) :
    (verifying prof cfg obj value pooled).script.awake =
      .attempt write obj.responseDataType (afterWrite prof cfg obj value write) := by
  simp only [verifying, Method.script, Script.writeAndVerify, Script.withFrame, hwrite, Script.awake]
  rfl

include hresponds hsilent in
/-- **With which values `write_and_verify` gets through**: with those that can be read back, if the first
acknowledgement arrives or what is read back is recognized. -/
theorem completes_iff (hread : readRequest prof obj = .ok (.ok read))
    (hwrite : writeRequest prof obj value = .ok (.ok write)) (htype : obj.responseDataType = respType) {pooled : Bool}
    {envs : List κ} (hlen : cfg.mostTries ≤ envs.length)
    (hstored : ∀ e, stored = .error e → e ≠ .timeout ∧ e ≠ .emptyPayload)
    (hmeets : Meets (Caller.step attempt) (Stores responds silent payload) (verifying prof cfg obj value pooled) envs) :
    ∃ r, Returns attempt (verifying prof cfg obj value pooled) envs r ∧
      ((∃ v, r = .ok v) ↔
        ∃ w, stored = .ok w ∧ ((∃ env ∈ envs.head?, responds pooled env payload) ∨ value.eq w = true)) := by
  obtain ⟨env, rest, rfl⟩ : ∃ env rest, envs = env :: rest :=
    List.exists_cons_of_length_pos (by rw [ClientConfig.mostTries] at hlen; omega)
  rw [ClientConfig.mostTries, List.length_cons, Nat.add_comm, Nat.add_le_add_iff_right] at hlen
  subst htype
  have hstep : ∀ {out}, attempt write obj.responseDataType pooled env = .ok (some out) →
      (verifying prof cfg obj value pooled).step attempt env =
        some ⟨afterWrite prof cfg obj value write out.result, out.pooled⟩ :=
    fun htry => Caller.step_of_attempt (awake_verifying hwrite pooled) htry
  have hhead : (∃ env' ∈ (env :: rest).head?, responds pooled env' payload) ↔ responds pooled env payload := by simp
  simp only [hhead]
  by_cases hack : responds pooled env payload
  · obtain ⟨out, htry, rfl⟩ := hresponds write pooled env hack
    refine ⟨out.result, .of_step (hstep htry) ⟨[], _, List.nil_prefix, rfl, ?_⟩, by simp [hack]⟩
    cases hresult : out.result with
    | ok v => rfl
    | error e =>
      obtain ⟨htimeout, hempty⟩ := hstored e hresult
      cases e
      case timeout => exact absurd rfl htimeout
      case emptyPayload => exact absurd rfl hempty
      all_goals rfl
  · obtain ⟨-, hsilence⟩ := (hmeets.1 write _ _ (awake_verifying hwrite pooled)).resolve_left hack
    obtain ⟨out, htry, hout⟩ := hsilent write pooled env hsilence
    have hverify : (verifying prof cfg obj value pooled).step attempt env =
        some ⟨.verifyLoop prof cfg obj value write (max cfg.retries 1) true, out.pooled⟩ := by
      rw [hstep htry, hout]
      rfl
    rw [Meets, hverify] at hmeets
    obtain ⟨r, hr, hiff⟩ := returns_verifyLoop hresponds hsilent hread rfl hlen hmeets.2
    refine ⟨r, hr.of_step hverify, hiff.trans ?_⟩
    have hpos : 0 < max cfg.retries 1 := lt_max_of_lt_right one_pos
    simp only [hpos, hack, true_and, false_or]

end Verifying

/-- The call returns a value. -/
def Completes (attempt : Attempt κ) (c : Caller) (envs : List κ) : Prop := ∃ v, Returns attempt c envs (.ok v)

/-- The value is of the variant that is read back, and equal to itself. -/
def Recognized (obj : ObjectInfo) (value : DataValue) : Prop :=
  Variant obj.requestDataType value ∧ value.eq value = true

section Values

variable {prof : Profile} {cfg : ClientConfig} {obj : ObjectInfo} {value : DataValue} {pooled : Bool}

theorem writeRequest_ok (prof : Profile) (hnum : obj.requestDataType.isNumeric = true)
    (henc : encodeFor obj.requestDataType value = .ok payload) :
    ∃ frame, writeRequest prof obj value = .ok (.ok frame) := by
  have hfits : payload.length ≤ capacity .write := by
    rw [length_encodeFor hnum henc]
    cases obj.requestDataType <;> decide
  simp only [writeRequest, henc]
  exact ⟨_, makeFrame_standard ⟨.write, obj.objectId, payload, by decide, hfits, by simp⟩ prof 0⟩

/-- What is read back when a numeric value is stored. -/
theorem completes_iff_recognized (htype : obj.requestDataType = obj.responseDataType)
    (hnum : obj.requestDataType.isNumeric = true) (henc : encodeFor obj.requestDataType value = .ok payload)
    (hresponds : ∀ frame pooled env stored, decodeValue obj.responseDataType payload = .ok stored →
      responds pooled env payload →
        ∃ out, attempt frame obj.responseDataType pooled env = .ok (some out) ∧ out.result = stored)
    (hsilent : ∀ frame pooled env, silent pooled env →
      ∃ out, attempt frame obj.responseDataType pooled env = .ok (some out) ∧ out.result = .error .timeout)
    {envs : List κ} (hlen : cfg.mostTries ≤ envs.length)
    (hmeets : Meets (Caller.step attempt) (Stores responds silent payload) (verifying prof cfg obj value pooled) envs) :
    (∃ r, Returns attempt (verifying prof cfg obj value pooled) envs r) ∧
      (Completes attempt (verifying prof cfg obj value pooled) envs ↔ obj.requestDataType ≠ .enum ∧
        ((∃ env ∈ envs.head?, responds pooled env payload) ∨ Recognized obj value)) := by
  obtain ⟨read, hread⟩ := readRequest_ok prof obj
  obtain ⟨write, hwrite⟩ := writeRequest_ok prof hnum henc
  have hdecode := decodeValue_encodeFor hnum henc
  obtain ⟨w, hw, -⟩ := normalizeFor_of_encodeFor henc
  rw [hw] at hdecode
  have hstored : ∀ e, (if obj.requestDataType = .enum then .error (.payloadTooShort "ENUM" 1 4) else .ok w :
      Except RctError DataValue) = .error e → e ≠ .timeout ∧ e ≠ .emptyPayload := by
    intro e he
    split_ifs at he
    cases he
    exact ⟨by simp, by simp⟩
  obtain ⟨r, hr, hiff⟩ := completes_iff (fun frame pooled env => hresponds frame pooled env _ (htype ▸ hdecode)) hsilent
    hread hwrite rfl hlen hstored hmeets
  refine ⟨⟨r, hr⟩, ?_⟩
  have hcompletes : Completes attempt (verifying prof cfg obj value pooled) envs ↔ ∃ v, r = .ok v := by
    constructor
    · rintro ⟨v, hv⟩
      exact ⟨v, hr.unique hv⟩
    · rintro ⟨v, rfl⟩
      exact ⟨v, hr⟩
  rw [hcompletes, hiff]
  by_cases henum : obj.requestDataType = .enum
  · simp [henum]
  · simp only [henum, if_false, Except.ok.injEq, exists_eq_left', ne_eq, not_false_eq_true, true_and]
    rw [eq_normalized_iff hnum henum hw]
    rfl

end Values

end Calls

/-- **`write_and_verify` gets through lost acknowledgements exactly with the values that it recognizes**, for both
clients; and without a lost one with every value but an enumeration. -/
theorem writeAndVerify_completes_iff (prof : Profile) (cfg : ClientConfig) {obj : ObjectInfo} {value : DataValue}
    {payload : List UInt8} (pooled : Bool) (htype : obj.requestDataType = obj.responseDataType)
    (hnum : obj.requestDataType.isNumeric = true) (henc : encodeFor obj.requestDataType value = .ok payload) :
    (∀ envs, cfg.mostTries ≤ envs.length →
      Meets (Caller.step (Client.tryExchange cfg)) (Stores (Client.Responds cfg) (Client.Silent cfg) payload)
        (verifying prof cfg obj value pooled) envs →
      (∃ r, Returns (Client.tryExchange cfg) (verifying prof cfg obj value pooled) envs r) ∧
        (Completes (Client.tryExchange cfg) (verifying prof cfg obj value pooled) envs ↔ obj.requestDataType ≠ .enum ∧
          ((∃ env ∈ envs.head?, Client.Responds cfg pooled env payload) ∨ Recognized obj value))) ∧
    ∀ envs, cfg.mostTries ≤ envs.length →
      Meets (Caller.step AsyncClient.tryExchange) (Stores AsyncClient.Responds AsyncClient.Silent payload)
        (verifying prof cfg obj value pooled) envs →
      (∃ r, Returns AsyncClient.tryExchange (verifying prof cfg obj value pooled) envs r) ∧
        (Completes AsyncClient.tryExchange (verifying prof cfg obj value pooled) envs ↔ obj.requestDataType ≠ .enum ∧
          ((∃ env ∈ envs.head?, AsyncClient.Responds pooled env payload) ∨ Recognized obj value)) := by
  have hne : payload ≠ [] := by
    rw [← List.length_pos_iff, length_encodeFor hnum henc]
    cases obj.requestDataType <;> decide
  constructor
  · intro envs hlen hmeets
    exact completes_iff_recognized htype hnum henc
      (fun _ _ _ _ hvalue h => Client.tryExchange_responds h hne hvalue) (fun _ _ _ h => Client.tryExchange_silent h)
      hlen hmeets
  · intro envs hlen hmeets
    exact completes_iff_recognized htype hnum henc
      (fun _ _ _ _ hvalue h => AsyncClient.tryExchange_responds h hne hvalue)
      (fun _ _ _ h => AsyncClient.tryExchange_silent h) hlen hmeets

/-! ### Devices that lose an acknowledgement -/

/-- A device that does not acknowledge the first WRITE and answers everything after that. -/
theorem meets_stores {κ : Type} {attempt : Attempt κ} {responds : Bool → κ → List UInt8 → Prop}
    {silent : Bool → κ → Prop} {prof : Profile} {cfg : ClientConfig} {obj : ObjectInfo} {value : DataValue}
    {payload : List UInt8} {pooled : Bool} {env : κ} {rest : List κ}
    (hnum : obj.requestDataType.isNumeric = true) (henc : encodeFor obj.requestDataType value = .ok payload)
    (hsilent : silent pooled env) (hrest : ∀ env ∈ rest, ∀ pooled, responds pooled env payload) :
    Meets (Caller.step attempt) (Stores responds silent payload) (verifying prof cfg obj value pooled)
      (env :: rest) := by
  obtain ⟨write, hwrite⟩ := writeRequest_ok prof hnum henc
  constructor
  · intro frame respType next hawake
    rw [awake_verifying hwrite] at hawake
    cases hawake
    exact .inr ⟨not_isRead_of_writeRequest hwrite, hsilent⟩
  · split
    · exact meets_of_forall fun env henv c _ _ _ _ => .inl (hrest env henv c.pooled)
    · trivial

/-- An opening of a try at which nothing fails. -/
def SyncOpening.smooth : SyncOpening := ⟨.ok true, .ok (), .ok (), .ok (), .ok (), 0⟩

/-- A response with a payload is delivered at once. -/
theorem responds_at_once {f : StdFrame} (h : f.command.isResponse) (cfg : ClientConfig) (pooled : Bool) :
    Client.Responds cfg pooled ⟨.smooth, [⟨0, .ok f.bytes⟩]⟩ f.payload ∧
      AsyncClient.Responds pooled ⟨.ok (), .ok (), [⟨0, .ok f.bytes⟩]⟩ f.payload := by
  have hne : f.bytes ≠ [] := List.cons_ne_nil _ _
  refine ⟨⟨⟨?_, rfl, rfl⟩, .ofFrame f h, rfl, .last [] ?_ rfl hne⟩,
    ⟨.inr rfl, rfl⟩, .ofFrame f h, rfl, .last [] rfl rfl hne⟩
  · cases pooled <;> rfl
  · exact decide_eq_false (Nat.not_lt_zero (0 + cfg.timeout))

/-- Nothing is delivered before the deadline, or the timer. -/
theorem silent_at_once (cfg : ClientConfig) (pooled : Bool) :
    Client.Silent cfg pooled ⟨.smooth, [⟨cfg.timeout + 1, .error .wouldBlock⟩]⟩ ∧
      AsyncClient.Silent pooled ⟨.ok (), .ok (), [⟨0, .error none⟩]⟩ := by
  refine ⟨⟨⟨?_, rfl, rfl⟩, [], _, [], rfl, by simp, .inl ?_⟩, ⟨.inr rfl, rfl⟩, [], _, [], rfl, by simp,
    .inr ⟨_, rfl, rfl⟩⟩
  · cases pooled <;> rfl
  · exact decide_eq_true (by show 0 + cfg.timeout < cfg.timeout + 1; omega)

/-- The answer of a device that stores `700.0` in `p_rec_lim[1]`. -/
def limitStored : StdFrame := .response 0x54829753 (u32ToBe 0x442F0000) le_rfl

/-- The answer of a device that stores `2` in `power_mng.soc_strategy`. -/
def strategyStored : StdFrame := .response 0xF168B748 [2] (by decide)

theorem writeAndVerify_completes_iff_limit :
    let obj : ObjectInfo := ⟨.pRec, 0x54829753, 294, "p_rec_lim[1]", .float, .float, "W", "", ""⟩
    let answer : SyncTry := ⟨.smooth, [⟨0, .ok limitStored.bytes⟩]⟩
    let answer' : AsyncTry := ⟨.ok (), .ok (), [⟨0, .ok limitStored.bytes⟩]⟩
    Completes (Client.tryExchange ⟨5, 1⟩) (verifying .debug ⟨5, 1⟩ obj (.f32 ⟨0x442F0000⟩) false)
        [⟨.smooth, [⟨6, .error .wouldBlock⟩]⟩, answer, answer] ∧
      Completes AsyncClient.tryExchange (verifying .debug ⟨5, 1⟩ obj (.f32 ⟨0x442F0000⟩) false)
        [⟨.ok (), .ok (), [⟨0, .error none⟩]⟩, answer', answer'] := by
  intro obj answer answer'
  have hanswers := responds_at_once (f := limitStored) rfl ⟨5, 1⟩
  have hsilent := silent_at_once ⟨5, 1⟩ false
  have hrecognized : Recognized obj (.f32 ⟨0x442F0000⟩) := ⟨trivial, by decide +kernel⟩
  have hiff := writeAndVerify_completes_iff .debug ⟨5, 1⟩ false (rfl : obj.requestDataType = obj.responseDataType) rfl
    (rfl : encodeFor .float (.f32 ⟨0x442F0000⟩) = .ok limitStored.payload)
  constructor
  · refine (hiff.1 _ (by decide) (meets_stores rfl rfl hsilent.1 ?_)).2.mpr ⟨by simp, .inr hrecognized⟩
    rintro env henv pooled
    obtain rfl : env = answer := by simpa using henv
    exact (hanswers pooled).1
  · refine (hiff.2 _ (by decide) (meets_stores rfl rfl hsilent.2 ?_)).2.mpr ⟨by simp, .inr hrecognized⟩
    rintro env henv pooled
    obtain rfl : env = answer' := by simpa using henv
    exact (hanswers pooled).2

/-- The integer `700` for a float is stored as `700.0` and read back as it, and is not recognized; and the
enumeration value `2` is refused although the device says that it has stored it. -/
theorem writeAndVerify_not_completes :
    let limit : ObjectInfo := ⟨.pRec, 0x54829753, 294, "p_rec_lim[1]", .float, .float, "W", "", ""⟩
    let strategy : ObjectInfo := ⟨.powerMng, 0xF168B748, 835, "power_mng.soc_strategy", .enum, .enum, "", "", ""⟩
    let answer : SyncTry := ⟨.smooth, [⟨0, .ok limitStored.bytes⟩]⟩
    let answer' : SyncTry := ⟨.smooth, [⟨0, .ok strategyStored.bytes⟩]⟩
    let lossy : List SyncTry := [⟨.smooth, [⟨6, .error .wouldBlock⟩]⟩, answer, answer]
    let prompt : List SyncTry := [answer', answer', answer']
    (encodeFor .float (.i32 700) = .ok limitStored.payload ∧ F32.datum ⟨0x442F0000⟩ = .num 700 ∧
      Meets (Caller.step (Client.tryExchange ⟨5, 1⟩))
        (Stores (Client.Responds ⟨5, 1⟩) (Client.Silent ⟨5, 1⟩) limitStored.payload)
        (verifying .debug ⟨5, 1⟩ limit (.i32 700) false) lossy ∧
      Returns (Client.tryExchange ⟨5, 1⟩) (verifying .debug ⟨5, 1⟩ limit (.i32 700) false) lossy (.error .timeout) ∧
      ¬ Completes (Client.tryExchange ⟨5, 1⟩) (verifying .debug ⟨5, 1⟩ limit (.i32 700) false) lossy) ∧
    encodeFor .enum (.u8 2) = .ok strategyStored.payload ∧
      Meets (Caller.step (Client.tryExchange ⟨5, 1⟩))
        (Stores (Client.Responds ⟨5, 1⟩) (Client.Silent ⟨5, 1⟩) strategyStored.payload)
        (verifying .debug ⟨5, 1⟩ strategy (.u8 2) false) prompt ∧
      Returns (Client.tryExchange ⟨5, 1⟩) (verifying .debug ⟨5, 1⟩ strategy (.u8 2) false) prompt
        (.error (.payloadTooShort "ENUM" 1 4)) ∧
      ¬ Completes (Client.tryExchange ⟨5, 1⟩) (verifying .debug ⟨5, 1⟩ strategy (.u8 2) false) prompt := by
  intro limit strategy answer answer' lossy prompt
  have hlimit := fun pooled => (responds_at_once (f := limitStored) rfl ⟨5, 1⟩ pooled).1
  have hstrategy := fun pooled => (responds_at_once (f := strategyStored) rfl ⟨5, 1⟩ pooled).1
  have htimeout : Returns (Client.tryExchange ⟨5, 1⟩) (verifying .debug ⟨5, 1⟩ limit (.i32 700) false) lossy
      (.error .timeout) := returns_of_run (List.prefix_append lossy.dropLast [answer]) (by decide +kernel)
  have hrefused : Returns (Client.tryExchange ⟨5, 1⟩) (verifying .debug ⟨5, 1⟩ strategy (.u8 2) false) prompt
      (.error (.payloadTooShort "ENUM" 1 4)) :=
    returns_of_run (List.prefix_append [answer'] [answer', answer']) (by decide +kernel)
  refine ⟨⟨by decide +kernel, by decide +kernel, ?_, htimeout, ?_⟩, rfl, ?_, hrefused, ?_⟩
  · refine meets_stores rfl (by decide +kernel) (silent_at_once ⟨5, 1⟩ false).1 ?_
    rintro env henv pooled
    obtain rfl : env = answer := by simpa using henv
    exact hlimit pooled
  · rintro ⟨v, hv⟩
    cases htimeout.unique hv
  · refine meets_of_forall fun env henv c _ _ _ _ => .inl ?_
    obtain rfl : env = answer' := by simpa [prompt] using henv
    exact hstrategy c.pooled
  · rintro ⟨v, hv⟩
    cases hrefused.unique hv

end RctPower
