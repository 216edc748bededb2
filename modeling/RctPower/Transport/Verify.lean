import RctPower.Protocol.ValueCodec
import RctPower.Transport.Script

/-!
# Writing and reading back

`write_and_verify` of the two clients (`client.rs`, `async_client.rs`). A device may apply a write
and never acknowledge it, so the method writes, and when no answer comes reads back and compares, as
often as the configuration allows.

## What is proved

Its documentation says that a value that it returns is the one that was asked for. The value of the
direct answer is not compared, so a device that clamps is believed; and the comparison of a value
that is read back is that of floats, which does not tell the two zeros apart. `sound_iff`: but for
these the documentation is right.
-/

namespace RctPower

open RctPower.Lib RctPower.Lib.Rust RctPower.Lib.Binary32 RctPower.Lib.Machine

/-! ### Comparing values -/

/-- Two values have the same encoding for the object. -/
def SameEncoding (obj : ObjectInfo) (value v : DataValue) : Prop :=
  encodeFor obj.requestDataType v = encodeFor obj.requestDataType value

/-- For an object that takes floats, the value is a zero, and the other one the other zero. -/
def OtherZero (obj : ObjectInfo) (value v : DataValue) : Prop :=
  obj.requestDataType = .float ∧
    ∃ f g : F32, value = .f32 f ∧ v = .f32 g ∧ f.datum = .num 0 ∧ g.datum = .num 0 ∧ f ≠ g

/-- Values that are equal have the same encoding, or are the two zeros. -/
theorem sameEncoding_of_eq {obj : ObjectInfo} {value v : DataValue} {payload : List UInt8}
    (henc : encodeFor obj.requestDataType value = .ok payload) (h : value.eq v = true) :
    SameEncoding obj value v ∨ OtherZero obj value v := by
  rw [SameEncoding]
  unfold DataValue.eq at h
  split at h
  · next f g =>
    obtain ⟨hnan, hdatum⟩ := of_decide_eq_true h
    by_cases htype : obj.requestDataType = .float
    · by_cases hzero : f.datum = .num 0
      · by_cases hfg : f = g
        · exact .inl (hfg ▸ rfl)
        · exact .inr ⟨htype, f, g, rfl, rfl, hzero, hdatum ▸ hzero, hfg⟩
      · exact .inl (eq_of_datum_eq hdatum hnan hzero ▸ rfl)
    · -- every other type takes the number of the float, if it takes it at all
      left
      have hi64 : toI64 (.f32 g) = toI64 (.f32 f) := by simp only [toI64, hdatum]
      cases hdt : obj.requestDataType <;> rw [hdt] at henc htype
      case float => exact absurd rfl htype
      case uint8 | int8 | uint16 | int16 | uint32 | int32 | enum => simp only [encodeFor, normalizeFor, hi64]
      all_goals simp [encodeFor, normalizeFor, Except.map] at henc
  · exact .inl (of_decide_eq_true h ▸ rfl)

/-- The two zeros are equal, and do not have the same encoding. -/
theorem OtherZero.eq {obj : ObjectInfo} {value v : DataValue} (h : OtherZero obj value v) : value.eq v = true := by
  obtain ⟨-, f, g, rfl, rfl, hf, hg, -⟩ := h
  simp only [DataValue.eq, F32.eq, hf, hg, ne_eq, reduceCtorEq, not_false_eq_true, and_self, decide_true]

theorem OtherZero.not_sameEncoding {obj : ObjectInfo} {value v : DataValue} (h : OtherZero obj value v) :
    ¬ SameEncoding obj value v := by
  obtain ⟨htype, f, g, rfl, rfl, -, -, hfg⟩ := h
  intro hsame
  rw [SameEncoding, htype] at hsame
  exact hfg (congrArg F32.mk (u32ToBe_injective (Except.ok.inj hsame)).symm)

/-! ### The frames of a call -/

/-- A READ frame. -/
def IsRead (frame : List UInt8) : Prop := frame[1]? = some Command.read.byte

instance (frame : List UInt8) : Decidable (IsRead frame) := inferInstanceAs (Decidable (_ = _))

section Frames

variable {prof : Profile} {obj : ObjectInfo} {value : DataValue} {frame : List UInt8}

/-- The second byte of a frame is the command: it is never a token. -/
theorem command_of_makeFrame {command : Command} {id address : UInt32} {payload : List UInt8} {ft : FrameType}
    (h : makeFrame prof command id payload address ft = .ok (.ok frame)) : frame[1]? = some command.byte := by
  rw [makeFrame] at h
  cases hlength : makeLength prof command payload ft with
  | error p => simp [hlength, Except.map] at h
  | ok length =>
    simp only [hlength, Except.map, Except.ok.injEq] at h
    subst h
    have htoken : isToken command.byte = false := by cases command <;> decide
    rw [wire, withCrc, frameContent, List.cons_append, Stuffing.stuff_cons, htoken]
    rfl

theorem isRead_of_readRequest (h : readRequest prof obj = .ok (.ok frame)) : IsRead frame := command_of_makeFrame h

theorem not_isRead_of_writeRequest (h : writeRequest prof obj value = .ok (.ok frame)) : ¬ IsRead frame := by
  rw [writeRequest] at h
  split at h
  · cases h
  · rw [IsRead, command_of_makeFrame h]
    decide

end Frames

/-! ### What is left of a call that reads back -/

/-- Every try of the script is for a value of the type. The script ends well when a READ is answered
with a value that is equal to `value`, with that value, and only then. -/
def Script.Verifies (value : DataValue) (respType : DataType) : Script → Prop
  | .done (.ok _) => False
  | .done (.error _) | .panics _ => True
  | .sleep next => next.Verifies value respType
  | .attempt frame ty next =>
    ty = respType ∧ (∀ e, (next (.error e)).Verifies value respType) ∧
      (∀ v, IsRead frame → value.eq v = true → next (.ok v) = .done (.ok v)) ∧
      ∀ v, (IsRead frame → value.eq v = false) → (next (.ok v)).Verifies value respType

section Scripts

variable {prof : Profile} {cfg : ClientConfig} {obj : ObjectInfo} {value : DataValue} {respType : DataType}
  {frame : List UInt8} {next : Except RctError DataValue → Script}

theorem Script.Verifies.awake {s : Script} (h : s.Verifies value respType) : s.awake.Verifies value respType := by
  induction s with
  | sleep s ih => exact ih h
  | done => exact h
  | panics => exact h
  | attempt => exact h

theorem Script.Verifies.pause {s : Script} (h : s.Verifies value respType) (first : Bool) :
    (Script.pause first s).Verifies value respType := by
  cases first <;> exact h

/-- A READ that is tried again, up to the first try that succeeds. -/
theorem verifies_exchangeLoop (hread : IsRead frame) (hne : ∀ e, (next (.error e)).Verifies value respType)
    (heq : ∀ v, value.eq v = true → next (.ok v) = .done (.ok v))
    (hother : ∀ v, value.eq v = false → (next (.ok v)).Verifies value respType) (left : ℕ) (first : Bool)
    (lastErr : RctError) : (Script.exchangeLoop frame respType next left first lastErr).Verifies value respType := by
  induction left generalizing first lastErr with
  | zero => exact hne lastErr
  | succ left ih =>
    apply Script.Verifies.pause
    exact ⟨rfl, fun e => ih false e, fun v _ => heq v, fun v h => hother v (h hread)⟩

/-- A READ of the object. -/
theorem verifies_read (hne : ∀ e, (next (.error e)).Verifies value obj.responseDataType)
    (heq : ∀ v, value.eq v = true → next (.ok v) = .done (.ok v))
    (hother : ∀ v, value.eq v = false → (next (.ok v)).Verifies value obj.responseDataType) :
    (Script.read prof cfg obj next).Verifies value obj.responseDataType := by
  obtain ⟨request, hrequest⟩ := readRequest_ok prof obj
  simp only [Script.read, hrequest, Script.withFrame]
  exact verifies_exchangeLoop (isRead_of_readRequest hrequest) hne heq hother _ _ _

/-- The loop of `write_and_verify`. -/
theorem verifies_verifyLoop (prof : Profile) (cfg : ClientConfig) (obj : ObjectInfo) (value : DataValue)
    (hwrite : ¬ IsRead frame) (left : ℕ) (first : Bool) :
    (Script.verifyLoop prof cfg obj value frame left first).Verifies value obj.responseDataType := by
  induction left generalizing first with
  | zero => trivial
  | succ left ih =>
    obtain ⟨next, herror, hok, hloop⟩ := Script.verifyLoop_succ prof cfg obj value frame left
    have hread : (Script.read prof cfg obj next).Verifies value obj.responseDataType := by
      refine verifies_read (fun e => ?_) (fun v heq => ?_) fun v hne => ?_
      · rw [herror]
        exact ih false
      · rw [hok, if_pos heq]
      · rw [hok, if_neg (by simp [hne])]
        exact ih false
    rw [hloop]
    cases first with
    | true => exact hread
    | false => exact ⟨rfl, fun _ => hread, fun _ h => absurd h hwrite, fun _ _ => hread⟩

variable {κ : Type} {attempt : Attempt κ} {c c' : Caller} {env : κ}

/-- **A try of a call that reads back** leaves a script of the kind, or it is a READ that is
answered with a value equal to `value`. -/
theorem Script.Verifies.step (h : c.script.Verifies value respType) (hstep : c.step attempt env = some c') :
    c'.script.Verifies value respType ∨
      ∃ frame next out v, c.script.awake = .attempt frame respType next ∧ IsRead frame ∧
        attempt frame respType c.pooled env = .ok (some out) ∧ out.result = .ok v ∧ value.eq v = true ∧
        c'.script = .done (.ok v) := by
  have hawake := h.awake
  rw [Caller.step] at hstep
  split at hstep
  · next frame ty next hscript =>
    rw [hscript] at hawake
    obtain ⟨rfl, hne, heq, hother⟩ := hawake
    split at hstep
    · cases hstep
      exact .inl trivial
    · cases hstep
    · next out htry =>
      cases hstep
      cases hresult : out.result with
      | error e => exact .inl (hne e)
      | ok v =>
        by_cases hback : IsRead frame ∧ value.eq v = true
        · exact .inr ⟨frame, next, out, v, hscript, hback.1, htry, hresult, hback.2, heq v hback.1 hback.2⟩
        · refine .inl (hother v fun hread => ?_)
          exact Bool.eq_false_iff.mpr fun h => hback ⟨hread, h⟩
  · cases hstep

end Scripts

/-! ### What is returned is what was asked for -/

section Soundness

variable {κ : Type} (attempt : Attempt κ) (answers : DataType → Bool → κ → DataValue → Prop) (prof : Profile)
  (cfg : ClientConfig) (obj : ObjectInfo) (value : DataValue) (pooled : Bool) (envs : List κ)

/-- At the start of `write_and_verify`. -/
def verifying : Caller := ⟨(Method.writeAndVerify obj value).script prof cfg, pooled⟩

/-- A value that `write_and_verify` returns after some of the tries has the encoding of the one that
was asked for. -/
def Sound : Prop :=
  ∀ used c v, used <+: envs → run (Caller.step attempt) (verifying prof cfg obj value pooled) used = some c →
    c.returned = some (.ok v) → SameEncoding obj value v

/-- What the device answers when a READ is tried is not the other zero. -/
def NotOtherZero (c : Caller) (env : κ) : Prop :=
  ∀ frame next, c.script.awake = .attempt frame obj.responseDataType next → IsRead frame →
    ∀ v, answers obj.responseDataType c.pooled env v → ¬ OtherZero obj value v

/-- The device's direct answer has the encoding of the value, and it never answers a READ with the
other zero. An answer is the first complete frame among the bytes that it delivers in time. -/
structure Honest : Prop where
  /-- The answer to the first WRITE, if it comes in time. -/
  direct : ∀ frame, writeRequest prof obj value = .ok (.ok frame) → ∀ env ∈ envs.head?, ∀ v,
    answers obj.responseDataType pooled env v → SameEncoding obj value v
  /-- The answers to the READs. -/
  readBack : Meets (Caller.step attempt) (NotOtherZero answers obj value) (verifying prof cfg obj value pooled) envs

variable {attempt answers prof cfg obj value pooled envs}

/-- The call starts with a try, or there is none. -/
theorem script_writeAndVerify (prof : Profile) (cfg : ClientConfig) (obj : ObjectInfo) (value : DataValue) :
    (∃ frame next, Script.writeAndVerify prof cfg obj value = .attempt frame obj.responseDataType next) ∨
      (∃ p, Script.writeAndVerify prof cfg obj value = .panics p) ∨
      ∃ e, Script.writeAndVerify prof cfg obj value = .done (.error e) := by
  unfold Script.writeAndVerify Script.withFrame
  split
  · exact .inr (.inl ⟨_, rfl⟩)
  · exact .inr (.inr ⟨_, rfl⟩)
  · exact .inl ⟨_, _, rfl⟩

/-- Without a frame nothing is tried. -/
theorem step_verifying_none {request : Checked (Except RctError (List UInt8))}
    (hrequest : writeRequest prof obj value = request) (h : ∀ frame, request ≠ .ok (.ok frame)) (env : κ) :
    (verifying prof cfg obj value pooled).step attempt env = none := by
  rcases request with p | (e | frame)
  · simp only [Caller.step, verifying, Method.script, Script.writeAndVerify, Script.withFrame, hrequest, Script.awake]
  · simp only [Caller.step, verifying, Method.script, Script.writeAndVerify, Script.withFrame, hrequest, Script.awake]
  · exact absurd rfl (h frame)

/-- The first try. -/
theorem step_verifying {frame : List UInt8} (hrequest : writeRequest prof obj value = .ok (.ok frame)) {env : κ}
    {c : Caller} (hstep : (verifying prof cfg obj value pooled).step attempt env = some c) :
    (∃ out v, attempt frame obj.responseDataType pooled env = .ok (some out) ∧ out.result = .ok v ∧
        c.script = .done (.ok v)) ∨
      (∃ e, c.script = .done (.error e)) ∨ c.script.Verifies value obj.responseDataType := by
  have hverifies := verifies_verifyLoop prof cfg obj value (not_isRead_of_writeRequest hrequest)
    (max cfg.retries 1) true
  simp only [Caller.step, verifying, Method.script, Script.writeAndVerify, Script.withFrame, hrequest,
    Script.awake] at hstep
  split at hstep
  · cases hstep
    exact .inr (.inr trivial)
  · cases hstep
  · next out htry =>
    cases hstep
    cases hresult : out.result with
    | ok v => exact .inl ⟨out, v, htry, hresult, rfl⟩
    | error e =>
      cases e
      case timeout | emptyPayload => exact .inr (.inr hverifies)
      all_goals exact .inr (.inl ⟨_, rfl⟩)

/-- What a call can be at: its start, its end, or the middle of reading back. -/
theorem verifying_cases {used : List κ} {c : Caller}
    (h : run (Caller.step attempt) (verifying prof cfg obj value pooled) used = some c) :
    (used = [] ∧ c = verifying prof cfg obj value pooled) ∨ (∃ r, c.script = .done r) ∨
      c.script.Verifies value obj.responseDataType := by
  induction used using List.reverseRecOn generalizing c with
  | nil =>
    obtain rfl : verifying prof cfg obj value pooled = c := by simpa [run] using h
    exact .inl ⟨rfl, rfl⟩
  | append_singleton used env ih =>
    rw [run_concat] at h
    obtain ⟨t, ht, hstep⟩ := Option.bind_eq_some_iff.mp h
    refine .inr ?_
    rcases ih ht with ⟨-, rfl⟩ | ⟨r, hdone⟩ | hverifies
    · cases hrequest : writeRequest prof obj value with
      | error p => cases hstep.symm.trans (step_verifying_none hrequest (by simp) env)
      | ok request =>
        cases request with
        | error e => cases hstep.symm.trans (step_verifying_none hrequest (by simp) env)
        | ok frame =>
          rcases step_verifying hrequest hstep with ⟨-, v, -, -, hdone⟩ | ⟨e, hdone⟩ | hverifies
          · exact .inl ⟨_, hdone⟩
          · exact .inl ⟨_, hdone⟩
          · exact .inr hverifies
    · simp [Caller.step, hdone, Script.awake] at hstep
    · rcases hverifies.step hstep with hverifies | ⟨-, -, -, v, -, -, -, -, -, hdone⟩
      · exact .inr hverifies
      · exact .inl ⟨_, hdone⟩

/-- **Where a value comes from**: it is the direct answer, or a READ was answered with it and it is
equal to the one that was asked for. -/
theorem verifying_ok {used : List κ} {c : Caller} {v : DataValue}
    (h : run (Caller.step attempt) (verifying prof cfg obj value pooled) used = some c)
    (hv : c.returned = some (.ok v)) :
    (∃ frame env out, writeRequest prof obj value = .ok (.ok frame) ∧ used = [env] ∧
        attempt frame obj.responseDataType pooled env = .ok (some out) ∧ out.result = .ok v) ∨
      ∃ before env t frame next out, used = before ++ [env] ∧
        run (Caller.step attempt) (verifying prof cfg obj value pooled) before = some t ∧
        t.script.awake = .attempt frame obj.responseDataType next ∧ IsRead frame ∧
        attempt frame obj.responseDataType t.pooled env = .ok (some out) ∧ out.result = .ok v ∧ value.eq v = true := by
  have hscript : ∀ {w}, c.script = .done w → w = .ok v := by
    intro w hw
    simpa [Caller.returned, hw] using hv
  have hnot : ¬ c.script.Verifies value obj.responseDataType := by
    intro hverifies
    rw [Caller.returned] at hv
    split at hv
    · next r hr =>
      obtain rfl := hscript hr
      rw [hr] at hverifies
      exact hverifies
    · cases hv
  rcases List.eq_nil_or_concat' used with rfl | ⟨before, env, rfl⟩
  · obtain rfl : verifying prof cfg obj value pooled = c := by simpa [run] using h
    rcases script_writeAndVerify prof cfg obj value with ⟨frame, next, hstart⟩ | ⟨p, hstart⟩ | ⟨e, hstart⟩
    · simp [Caller.returned, verifying, Method.script, hstart] at hv
    · simp [Caller.returned, verifying, Method.script, hstart] at hv
    · simp [Caller.returned, verifying, Method.script, hstart] at hv
  · rw [run_concat] at h
    obtain ⟨t, ht, hstep⟩ := Option.bind_eq_some_iff.mp h
    rcases verifying_cases ht with ⟨rfl, rfl⟩ | ⟨r, hdone⟩ | hverifies
    · left
      cases hrequest : writeRequest prof obj value with
      | error p => cases hstep.symm.trans (step_verifying_none hrequest (by simp) env)
      | ok request =>
        cases request with
        | error e => cases hstep.symm.trans (step_verifying_none hrequest (by simp) env)
        | ok frame =>
          rcases step_verifying hrequest hstep with ⟨out, w, htry, hw, hdone⟩ | ⟨e, hdone⟩ | hverifies
          · exact ⟨frame, env, out, rfl, rfl, htry, hw.trans (hscript hdone)⟩
          · cases hscript hdone
          · exact absurd hverifies hnot
    · simp [Caller.step, hdone, Script.awake] at hstep
    · rcases hverifies.step hstep with hverifies | ⟨frame, next, out, w, hawake, hread, htry, hw, heq, hdone⟩
      · exact absurd hverifies hnot
      · obtain rfl : w = v := by simpa using hscript hdone
        exact .inr ⟨before, env, t, frame, next, out, rfl, ht, hawake, hread, htry, hw, heq⟩

/-- A value is read back only if it has an encoding. -/
theorem exists_payload_of_run {used : List κ} {t : Caller} {frame : List UInt8} {respType : DataType}
    {next : Except RctError DataValue → Script}
    (h : run (Caller.step attempt) (verifying prof cfg obj value pooled) used = some t)
    (hawake : t.script.awake = .attempt frame respType next) :
    ∃ payload, encodeFor obj.requestDataType value = .ok payload := by
  cases henc : encodeFor obj.requestDataType value with
  | ok payload => exact ⟨payload, rfl⟩
  | error e =>
    exfalso
    have hrequest : writeRequest prof obj value = .ok (.error e) := by simp only [writeRequest, henc]
    cases used with
    | nil =>
      obtain rfl : verifying prof cfg obj value pooled = t := by simpa [run] using h
      simp [verifying, Method.script, Script.writeAndVerify, Script.withFrame, hrequest, Script.awake] at hawake
    | cons env used =>
      rw [run, step_verifying_none hrequest (by simp) env] at h
      cases h

/-- A READ that is answered with a value equal to the one that was asked for ends the call. -/
theorem next_of_isRead {used : List κ} {t : Caller} {frame : List UInt8} {next : Except RctError DataValue → Script}
    (h : run (Caller.step attempt) (verifying prof cfg obj value pooled) used = some t)
    (hawake : t.script.awake = .attempt frame obj.responseDataType next) (hread : IsRead frame) {v : DataValue}
    (heq : value.eq v = true) : next (.ok v) = .done (.ok v) := by
  rcases verifying_cases h with ⟨-, rfl⟩ | ⟨r, hdone⟩ | hverifies
  · exfalso
    simp only [verifying, Method.script, Script.writeAndVerify, Script.withFrame] at hawake
    cases hrequest : writeRequest prof obj value with
    | error p => simp [hrequest, Script.awake] at hawake
    | ok request =>
      cases request with
      | error e => simp [hrequest, Script.awake] at hawake
      | ok write =>
        simp only [hrequest, Script.awake, Script.attempt.injEq] at hawake
        exact not_isRead_of_writeRequest hrequest (hawake.1 ▸ hread)
  · rw [hdone] at hawake
    cases hawake
  · have hstructure := hverifies.awake
    rw [hawake] at hstructure
    exact hstructure.2.2.1 v hread heq

/-- **`write_and_verify` is sound exactly when the device is honest.** -/
theorem sound_iff
    (hanswers : ∀ frame respType pooled env v, answers respType pooled env v ↔
      ∃ out, attempt frame respType pooled env = .ok (some out) ∧ out.result = .ok v) :
    Sound attempt prof cfg obj value pooled envs ↔ Honest attempt answers prof cfg obj value pooled envs := by
  constructor
  · intro hsound
    constructor
    · intro frame hrequest env henv v hv
      obtain ⟨out, htry, hout⟩ := (hanswers frame _ _ _ _).mp hv
      have hstep : (verifying prof cfg obj value pooled).step attempt env = some ⟨.done (.ok v), out.pooled⟩ := by
        simp only [Caller.step, verifying, Method.script, Script.writeAndVerify, Script.withFrame, hrequest,
          Script.awake, htry, hout]
      refine hsound [env] ⟨.done (.ok v), out.pooled⟩ v ?_ ?_ rfl
      · obtain ⟨rest, rfl⟩ := List.head?_eq_some_iff.mp henv
        exact ⟨rest, rfl⟩
      · simp only [run, hstep, Option.bind_some]
    · rw [meets_iff]
      intro used env rest t heq ht frame next hawake hread v hv hzero
      -- the other zero is equal to the value, so that it is returned
      apply hzero.not_sameEncoding
      obtain ⟨out, htry, hout⟩ := (hanswers frame _ _ _ _).mp hv
      have hstep : t.step attempt env = some ⟨.done (.ok v), out.pooled⟩ := by
        rw [Caller.step_of_attempt hawake htry, hout, next_of_isRead ht hawake hread hzero.eq]
      refine hsound (used ++ [env]) ⟨.done (.ok v), out.pooled⟩ v ?_ ?_ rfl
      · exact ⟨rest, by rw [heq, List.append_assoc, List.singleton_append]⟩
      · rw [run_concat, ht, Option.bind_some, hstep]
  · intro hhonest used c v hpre hrun hv
    rcases verifying_ok hrun hv with ⟨frame, env, out, hrequest, rfl, htry, hout⟩ |
      ⟨before, env, t, frame, next, out, rfl, ht, hawake, hread, htry, hout, heq⟩
    · obtain ⟨rest, rfl⟩ := hpre
      exact hhonest.direct frame hrequest env rfl v ((hanswers frame _ _ _ _).mpr ⟨out, htry, hout⟩)
    · obtain ⟨rest, rfl⟩ := hpre
      have hnot := meets_iff.mp hhonest.readBack before env rest t (by simp) ht frame next hawake hread v
        ((hanswers frame _ _ _ _).mpr ⟨out, htry, hout⟩)
      obtain ⟨payload, henc⟩ := exists_payload_of_run ht hawake
      exact (sameEncoding_of_eq henc heq).resolve_right hnot

/-- A run that returns a value of another encoding. -/
theorem not_sound {used : List κ} {v : DataValue} (hpre : used <+: envs)
    (h : (run (Caller.step attempt) (verifying prof cfg obj value pooled) used).bind Caller.returned = some (.ok v))
    (hother : ¬ SameEncoding obj value v) : ¬ Sound attempt prof cfg obj value pooled envs := by
  intro hsound
  obtain ⟨c, hc, hv⟩ := Option.bind_eq_some_iff.mp h
  exact hother (hsound used c v hpre hc hv)

end Soundness

/-- **A value that `write_and_verify` returns is the one that was asked for exactly when the device is
honest**, for both clients. -/
theorem writeAndVerify_sound_iff (prof : Profile) (cfg : ClientConfig) (obj : ObjectInfo) (value : DataValue)
    (pooled : Bool) :
    (∀ envs, Sound (Client.tryExchange cfg) prof cfg obj value pooled envs ↔
      Honest (Client.tryExchange cfg) (Client.Answers cfg) prof cfg obj value pooled envs) ∧
    ∀ envs, Sound AsyncClient.tryExchange prof cfg obj value pooled envs ↔
      Honest AsyncClient.tryExchange AsyncClient.Answers prof cfg obj value pooled envs :=
  ⟨fun _ => sound_iff fun _ _ _ _ _ => Client.answers_iff, fun _ => sound_iff fun _ _ _ _ _ => AsyncClient.answers_iff⟩

/-- A response with a float. -/
def floatResponse (bits : UInt32) : StdFrame := .response 0xD1DFC969 (u32ToBe bits) le_rfl

/-- A device that clamps `0.75` to `0.5` and answers so is believed, by both clients; and so is one that
does not answer the write of `0.0` and is at `-0.0`. -/
theorem writeAndVerify_clamped :
    let obj : ObjectInfo := ⟨.powerMng, 0xD1DFC969, 740, "power_mng.soc_target_set", .float, .float, "", "", ""⟩
    let opening : SyncOpening := ⟨.ok true, .ok (), .ok (), .ok (), .ok (), 0⟩
    let clamped := (floatResponse 0x3F000000).bytes
    ¬ Sound (Client.tryExchange ⟨5, 1⟩) .debug ⟨5, 1⟩ obj (.f32 ⟨0x3F400000⟩) false [⟨opening, [⟨0, .ok clamped⟩]⟩] ∧
      ¬ Sound AsyncClient.tryExchange .debug ⟨5, 1⟩ obj (.f32 ⟨0x3F400000⟩) false
        [⟨.ok (), .ok (), [⟨0, .ok clamped⟩]⟩] ∧
      ¬ Sound (Client.tryExchange ⟨5, 1⟩) .debug ⟨5, 1⟩ obj (.f32 ⟨0⟩) false
        [⟨opening, [⟨6, .error .wouldBlock⟩]⟩, ⟨opening, [⟨0, .ok (floatResponse 0x80000000).bytes⟩]⟩] := by
  intro obj opening clamped
  have hne : ∀ x y : UInt32, x ≠ y → ¬ SameEncoding obj (.f32 ⟨x⟩) (.f32 ⟨y⟩) := by
    intro x y hxy hsame
    exact hxy (u32ToBe_injective (Except.ok.inj hsame)).symm
  refine ⟨?_, ?_, ?_⟩
  · exact not_sound (v := .f32 ⟨0x3F000000⟩) List.prefix_rfl (by decide +kernel) (hne _ _ (by decide))
  · exact not_sound (v := .f32 ⟨0x3F000000⟩) List.prefix_rfl (by decide +kernel) (hne _ _ (by decide))
  · exact not_sound (v := .f32 ⟨0x80000000⟩) List.prefix_rfl (by decide +kernel) (hne _ _ (by decide))

end RctPower
