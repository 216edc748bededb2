import RctPower.Transport.Script

/-!
# Reconnecting after a failure

What a failed try leaves in the pool, over runs of calls of any kind. The inverter closes connections
that are idle, so both clients are to open a new one after an error (`README.md`).

## What is proved

`AsyncClient.tryExchange_drops`: the asynchronous client drops the connection whatever goes wrong. The
synchronous one does so only in the arm that decodes: `reconnects_iff` says that it reconnects in a run
exactly when nothing else goes wrong once there is a connection (`Clean`). A connection that the inverter has
closed then stays for good (`pooled_of_closed`).
-/

namespace RctPower

open RctPower.Lib.Rust RctPower.Lib.Machine

/-! ### Runs of calls -/

/-- What happens to a client. -/
inductive CallEvent (κ : Type) where
  /-- A call. -/
  | called (m : Method)
  /-- A try. -/
  | tried (env : κ)

namespace Caller

/-- Before the first call; what the last one has returned does not matter. -/
def new : Caller := ⟨.done (.error .timeout), false⟩

/-- One event of a client whose calls follow each other. -/
def stepCalls {κ : Type} (attempt : Attempt κ) (prof : Profile) (cfg : ClientConfig) (c : Caller) :
    CallEvent κ → Option Caller
  | .called m =>
    match c.script with
    | .done _ | .panics _ => some ⟨m.script prof cfg, c.pooled⟩
    | _ => none
  | .tried env => c.step attempt env

end Caller

/-! ### What a try leaves in the pool -/

theorem AsyncClient.tryExchange_drops {frame : List UInt8} {respType : DataType} {pooled : Bool} {env : AsyncTry}
    {out : Outcome DataValue} {e : RctError} (h : tryExchange frame respType pooled env = .ok (some out))
    (he : out.result = .error e) : out.pooled = false := by
  cases ends_of_ok h with
  | unconnected => rfl
  | exchanged hconnected hexchanged =>
    obtain rfl := he
    rfl

namespace Client

variable {cfg : ClientConfig} {frame : List UInt8} {respType : DataType} {pooled : Bool} {env : SyncTry}

/-- Nothing goes wrong by the deadline: the first frame that arrives has a payload; or the try does not return,
because a frame with a length field of `3` arrives or because the device has not come to an end yet. -/
def Unbroken (deadline : ℕ) (reads : List (ReadEvent IoError)) : Prop :=
  (∃ frame body, FirstFrame (ReadEvent.bytesWhile (hears deadline) reads) frame body ∧ bodyData body ≠ []) ∨
    ReceiveFrame.LengthThree (ReadEvent.bytesWhile (hears deadline) reads) ∨
      (∀ ev ∈ reads, hears deadline ev = true) ∧ Pending (ReadEvent.allBytes reads)

/-- Once there is a connection, nothing goes wrong on it but what a payload is decoded to. -/
def Clean (cfg : ClientConfig) (pooled : Bool) (env : SyncTry) : Prop :=
  pooled = true ∨ env.resolved = .ok true ∧ env.connected = .ok () →
    env.readTimeoutSet = .ok () ∧ env.writeTimeoutSet = .ok () ∧ env.written = .ok () ∧
      Unbroken (env.start + cfg.timeout) env.reads

theorem connect_ok_iff : connect pooled env.toSyncOpening = .ok () ↔
    pooled = true ∨ env.resolved = .ok true ∧ env.connected = .ok () := by
  cases pooled with
  | true => simp [connect]
  | false =>
    rcases hresolved : env.resolved with e | (_ | _) <;> cases hconnected : env.connected <;>
      simp [connect, hresolved, hconnected, Except.mapError]

theorem prepare_ok_iff : prepare env.toSyncOpening = .ok () ↔
    env.readTimeoutSet = .ok () ∧ env.writeTimeoutSet = .ok () := by
  cases hread : env.readTimeoutSet <;> cases hwrite : env.writeTimeoutSet <;>
    simp [prepare, hread, hwrite, Except.mapError]

/-- **Nothing goes wrong exactly if the receive loop ends with a payload**, if it returns at all. -/
theorem unbroken_iff {reads : List (ReadEvent IoError)} {start : ℕ} :
    Unbroken (start + cfg.timeout) reads ↔
      ∀ r, receive (policy cfg start) reads = .ok (some r) → ∃ rx, r = .ok rx ∧ rx.data ≠ [] := by
  rw [Unbroken, ← hears_policy, ← receive_panics_iff, ← receive_none_iff]
  constructor
  · rintro (⟨frame, body, hframe, hdata⟩ | ⟨p, hp⟩ | hnone) r hr
    · obtain ⟨rx, hrx, hbody⟩ := hframe.exists_data
      rw [receive_ok_iff.mpr hrx] at hr
      cases hr
      exact ⟨rx, rfl, hbody ▸ hdata⟩
    · cases hp.symm.trans hr
    · cases hnone.symm.trans hr
  · intro h
    rcases hreceive : receive (policy cfg start) reads with p | (_ | r)
    · exact .inr (.inl ⟨p, rfl⟩)
    · exact .inr (.inr rfl)
    · obtain ⟨rx, rfl, hdata⟩ := h r hreceive
      obtain ⟨body, hframe, hbody⟩ := (receive_ok_iff.mp hreceive).exists_frame
      exact .inl ⟨_, body, hframe, hbody ▸ hdata⟩

/-- A try is clean, by its own steps. -/
theorem clean_iff : Clean cfg pooled env ↔
    (connect pooled env.toSyncOpening = .ok () →
      prepare env.toSyncOpening = .ok () ∧ env.written = .ok () ∧
        ∀ r, receive (policy cfg env.start) env.reads = .ok (some r) → ∃ rx, r = .ok rx ∧ rx.data ≠ []) := by
  rw [Clean, ← unbroken_iff, connect_ok_iff, prepare_ok_iff, and_assoc]

/-- **When a try that fails leaves nothing in the pool.** -/
theorem drops_iff (frame : List UInt8) (respType : DataType) :
    (∀ out e, tryExchange cfg frame respType pooled env = .ok (some out) → out.result = .error e →
      out.pooled = false) ↔ Clean cfg pooled env := by
  rw [clean_iff]
  constructor
  · intro h hconnected
    have hkept : ∀ sent e, ¬ Ends cfg frame respType pooled env ⟨true, sent, .error e⟩ := fun sent e hends => by
      cases h _ e (ends_iff.mpr hends) rfl
    cases hprepared : prepare env.toSyncOpening with
    | error e => exact absurd (.unprepared hconnected hprepared) (hkept [] e)
    | ok u =>
      cases hwritten : env.written with
      | error e => exact absurd (.unwritten hconnected hprepared hwritten) (hkept [frame] (.io e))
      | ok u =>
        refine ⟨rfl, rfl, fun r hreceived => ?_⟩
        cases r with
        | error e => exact absurd (.failed hconnected hprepared hwritten hreceived) (hkept [frame] e)
        | ok rx =>
          refine ⟨rx, rfl, fun hdata => ?_⟩
          have hfinish : finish respType rx = .ok (true, .error .emptyPayload) := if_pos hdata
          exact absurd (.finished hconnected hprepared hwritten hreceived hfinish) (hkept [frame] .emptyPayload)
  · intro hclean out e h he
    cases ends_iff.mp h with
    | unconnected hconnected => rfl
    | unprepared hconnected hprepared => cases (hclean hconnected).1.symm.trans hprepared
    | unwritten hconnected hprepared hwritten => cases (hclean hconnected).2.1.symm.trans hwritten
    | failed hconnected hprepared hwritten hreceived =>
      obtain ⟨rx, hrx, -⟩ := (hclean hconnected).2.2 _ hreceived
      cases hrx
    | @finished rx keep value hconnected hprepared hwritten hreceived hfinish =>
      obtain ⟨rx', hrx, hdata⟩ := (hclean hconnected).2.2 _ hreceived
      cases hrx
      obtain ⟨value', hvalue⟩ := decodeValue_checked respType rx.data
      simp only [finish, if_neg hdata, hvalue, Except.map, Except.ok.injEq, Prod.mk.injEq] at hfinish
      obtain ⟨rfl, rfl⟩ := hfinish
      obtain rfl : value' = .error e := he
      rfl

/-- The inverter has closed the connection: a request can be written, and the first read gives no bytes. -/
def Closed (cfg : ClientConfig) (env : SyncTry) : Prop :=
  prepare env.toSyncOpening = .ok () ∧ env.written = .ok () ∧
    ∃ ev rest, env.reads = ev :: rest ∧ (policy cfg env.start).expired ev.now = false ∧ ev.got = .ok []

theorem Closed.receive (hclosed : Closed cfg env) :
    receive (policy cfg env.start) env.reads = .ok (some (.error .timeout)) := by
  obtain ⟨-, -, ev, rest, hreads, htime, hgot⟩ := hclosed
  have hstop : readOnce (policy cfg env.start) (.new false) ev = .ret (.new false) (.error .timeout) := by
    simp only [readOnce, htime, hgot, Bool.false_eq_true, if_false]
  have hloop := Lib.EarlyExit.loop_stop (readOnce (policy cfg env.start)) (a := []) rfl hstop rest
  rw [RctPower.receive, hreads, ← List.nil_append (ev :: rest), hloop]
  rfl

/-- A try on a connection that is closed times out, and keeps it. -/
theorem Closed.tryExchange (hclosed : Closed cfg env) :
    tryExchange cfg frame respType true env = .ok (some ⟨true, [frame], .error .timeout⟩) := by
  simp only [Client.tryExchange, connect, if_true, hclosed.1, hclosed.2.1, hclosed.receive]

/-! ### Over runs of calls -/

/-- When the try fails there is no connection left in the pool; so the next try makes one, and succeeds if the
inverter answers on it, whatever the old one would have done. -/
def Reconnects (cfg : ClientConfig) (c : Caller) : CallEvent SyncTry → Prop
  | .called _ => True
  | .tried env =>
    ∀ frame respType next out e, c.script.awake = .attempt frame respType next →
      tryExchange cfg frame respType c.pooled env = .ok (some out) → out.result = .error e →
        out.pooled = false ∧ ∀ frame' respType' fresh old v, Answers cfg respType' false fresh v →
          ∃ out', tryExchange cfg frame' respType' out.pooled (if out.pooled then old else fresh) = .ok (some out') ∧
            out'.result = .ok v

/-- The try is a clean one. -/
def TriesClean (cfg : ClientConfig) (c : Caller) : CallEvent SyncTry → Prop
  | .called _ => True
  | .tried env => ∀ frame respType next, c.script.awake = .attempt frame respType next → Clean cfg c.pooled env

theorem reconnects_iff_clean {c : Caller} {ev : CallEvent SyncTry} : Reconnects cfg c ev ↔ TriesClean cfg c ev := by
  cases ev with
  | called m => exact Iff.rfl
  | tried env =>
    constructor
    · intro h frame respType next hawake
      exact (drops_iff frame respType).mp fun out e htry he => (h frame respType next out e hawake htry he).1
    · intro h frame respType next out e hawake htry he
      have hdropped := (drops_iff frame respType).mpr (h frame respType next hawake) out e htry he
      refine ⟨hdropped, fun frame' respType' fresh old v hanswers => ?_⟩
      rw [hdropped]
      exact answers_iff.mp hanswers

/-- **The synchronous client reconnects in a run of calls exactly when every try is a clean one.** -/
theorem reconnects_iff (prof : Profile) (cfg : ClientConfig) (c : Caller) (evs : List (CallEvent SyncTry)) :
    Meets (Caller.stepCalls (tryExchange cfg) prof cfg) (Reconnects cfg) c evs ↔
      Meets (Caller.stepCalls (tryExchange cfg) prof cfg) (TriesClean cfg) c evs := by
  simp only [meets_iff, reconnects_iff_clean]

/-- **A connection that the inverter has closed stays in the pool for good.** -/
theorem pooled_of_closed {prof : Profile} {c c' : Caller} {evs : List (CallEvent SyncTry)} (hpooled : c.pooled = true)
    (hclosed : ∀ env, .tried env ∈ evs → Closed cfg env)
    (hrun : run (Caller.stepCalls (tryExchange cfg) prof cfg) c evs = some c') : c'.pooled = true := by
  have hmeets : Meets (Caller.stepCalls (tryExchange cfg) prof cfg)
      (fun _ ev => ∀ env, ev = .tried env → Closed cfg env) c evs :=
    meets_of_forall fun ev hev _ env h => hclosed env (h ▸ hev)
  refine run_induction_of (P := fun c => c.pooled = true) ?_ hpooled hmeets hrun
  intro c ev c' hpooled hclosed hstep
  cases ev with
  | called m =>
    simp only [Caller.stepCalls] at hstep
    split at hstep
    · cases hstep
      exact hpooled
    · cases hstep
      exact hpooled
    · cases hstep
  | tried env =>
    obtain ⟨script, pooled⟩ := c
    obtain rfl : pooled = true := hpooled
    simp only [Caller.stepCalls, Caller.step, (hclosed env rfl).tryExchange] at hstep
    split at hstep
    · cases hstep
      rfl
    · cases hstep

/-- The inverter accepts a connection and closes it: the read fails, and the connection stays. -/
theorem not_reconnects_closed :
    let obj : ObjectInfo := ⟨.battery, 0x959930BF, 545, "battery.soc", .float, .float, "", "", ""⟩
    let env : SyncTry := ⟨⟨.ok true, .ok (), .ok (), .ok (), .ok (), 0⟩, [⟨0, .ok []⟩]⟩
    ¬ Meets (Caller.stepCalls (tryExchange ⟨5, 1⟩) .debug ⟨5, 1⟩) (Reconnects ⟨5, 1⟩) .new
      [.called (.read obj), .tried env] := by
  intro obj env h
  have htried : Meets (Caller.stepCalls (tryExchange ⟨5, 1⟩) .debug ⟨5, 1⟩) (Reconnects ⟨5, 1⟩)
      ⟨(Method.read obj).script .debug ⟨5, 1⟩, false⟩ [.tried env] := h.2
  obtain ⟨frame, next, hawake⟩ := awake_read .debug ⟨5, 1⟩ obj .done
  have hclosed : Closed ⟨5, 1⟩ env := ⟨rfl, rfl, ⟨0, .ok []⟩, [], rfl, rfl, rfl⟩
  obtain ⟨-, -, hreceive⟩ := clean_iff.mp (reconnects_iff_clean.mp htried.1 frame _ next hawake) rfl
  obtain ⟨rx, hrx, -⟩ := hreceive _ hclosed.receive
  cases hrx

end Client

end RctPower
