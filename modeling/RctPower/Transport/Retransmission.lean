import RctPower.Transport.Verify

/-!
# Bounded retransmission

What one call of `write_and_verify` puts on the wire, for the two clients (`client.rs`,
`async_client.rs`): the record of its tries, in order, against any sequence of environments. Each try
hands its frame to the socket at most once, or never, when there is no connection.

`Course` is what the method is to allow, by itself: so many WRITEs and so many READs, a WRITE
followed by nothing but a READ, and a READ followed by anything only when it has not given the value.
`Script.Paced` is the same of what is left of a call, and the tries of a call that is paced are a
course (`course_tries`).

## What is proved

With `R` tries an exchange there are at most `R` WRITEs and `R * R` READs, and the call is over with a
READ that gives the value, and with an answer to its first try that gives one (`writeAndVerify_restrained`);
an empty answer is taken for a lost one. It need not be over with the answer to the first WRITE that is
transmitted: that the first try found no connection is taken for a lost answer too, and the answers to the
later WRITEs are not looked at (`not_answerEnds`).
-/

namespace RctPower

open RctPower.Lib.Rust RctPower.Lib.Binary32 RctPower.Lib.Machine

/-! ### The tries of a call -/

/-- A WRITE frame. -/
def IsWrite (frame : List UInt8) : Prop := frame[1]? = some Command.write.byte

instance (frame : List UInt8) : Decidable (IsWrite frame) := inferInstanceAs (Decidable (_ = _))

theorem IsRead.not_isWrite {frame : List UInt8} (h : IsRead frame) : ¬ IsWrite frame := by
  rw [IsWrite, h]
  decide

theorem isWrite_of_writeRequest {prof : Profile} {obj : ObjectInfo} {value : DataValue} {frame : List UInt8}
    (h : writeRequest prof obj value = .ok (.ok frame)) : IsWrite frame := by
  rw [writeRequest] at h
  split at h
  · cases h
  · exact command_of_makeFrame h

/-- A try that has been made. -/
structure Tried where
  /-- The frame. -/
  frame : List UInt8
  /-- How it ended; nothing if it has not, or in a panic. -/
  outcome : Option (Outcome DataValue)
  deriving DecidableEq

namespace Tried

/-- The frames handed to the socket. A try that has not ended has its frame there. -/
def sent (t : Tried) : List (List UInt8) :=
  match t.outcome with
  | some out => out.sent
  | none => [t.frame]

/-- It ended with a value. -/
def Gave (t : Tried) (v : DataValue) : Prop := ∃ out, t.outcome = some out ∧ out.result = .ok v

/-- It failed, or gave a value that is different from `value`. -/
def Missed (t : Tried) (value : DataValue) : Prop :=
  t.outcome.isSome ∧ ∀ v, t.Gave v → value.eq v = false

theorem Missed.of_result {t : Tried} {value : DataValue} {out : Outcome DataValue} (h : t.outcome = some out)
    (hresult : ∀ v, out.result = .ok v → value.eq v = false) : t.Missed value := by
  refine ⟨by rw [h]; rfl, ?_⟩
  rintro v ⟨out', h', hv⟩
  obtain rfl := Option.some.inj (h.symm.trans h')
  exact hresult v hv

end Tried

/-- The frames that some tries have transmitted. -/
def transmitted (ts : List Tried) : List (List UInt8) := ts.flatMap Tried.sent

section Tries

variable {κ : Type} (attempt : Attempt κ)

/-- The try that a call makes next, if it is not over. -/
def Caller.tried (c : Caller) (env : κ) : Option Tried :=
  match c.script.awake with
  | .attempt frame respType _ =>
    match attempt frame respType c.pooled env with
    | .error _ => some ⟨frame, none⟩
    | .ok outcome => some ⟨frame, outcome⟩
  | _ => none

/-- The tries of a call, up to its end or its first try without one. -/
def Caller.tries : Caller → List κ → List Tried
  | _, [] => []
  | c, env :: envs =>
    match c.tried attempt env with
    | none => []
    | some t =>
      t :: match c.step attempt env with
        | none => []
        | some c' => c'.tries envs

variable {attempt}

theorem Caller.tries_of_over {c : Caller} (h : ∀ frame ty next, c.script.awake ≠ .attempt frame ty next)
    (envs : List κ) : c.tries attempt envs = [] := by
  cases envs with
  | nil => rfl
  | cons env envs =>
    have htried : c.tried attempt env = none := by
      rw [tried]
      split
      · next frame ty next hawake => exact absurd hawake (h frame ty next)
      · rfl
    rw [tries, htried]

/-- A call goes on with a try, or there are none. -/
theorem Caller.tries_cases (attempt : Attempt κ) (c : Caller) :
    (∃ frame ty next, c.script.awake = .attempt frame ty next) ∨ ∀ envs, c.tries attempt envs = [] := by
  by_cases h : ∃ frame ty next, c.script.awake = .attempt frame ty next
  · exact .inl h
  · exact .inr (tries_of_over fun frame ty next hawake => h ⟨frame, ty, next, hawake⟩)

/-- The tries of a call that goes on: one in the next environment, and what follows on its result. -/
theorem Caller.tries_cons (attempt : Attempt κ) {script : Script} {frame : List UInt8} {ty : DataType}
    {next : Except RctError DataValue → Script} (hawake : script.awake = .attempt frame ty next) (pooled : Bool)
    (env : κ) (envs : List κ) :
    Caller.tries attempt ⟨script, pooled⟩ (env :: envs) = [⟨frame, none⟩] ∨
      ∃ out, attempt frame ty pooled env = .ok (some out) ∧
        Caller.tries attempt ⟨script, pooled⟩ (env :: envs) =
          ⟨frame, some out⟩ :: Caller.tries attempt ⟨next out.result, out.pooled⟩ envs := by
  simp only [tries, tried, step, hawake]
  cases htry : attempt frame ty pooled env with
  | error p =>
    have hover : Caller.tries attempt ⟨.panics p, true⟩ envs = [] := tries_of_over (by simp [Script.awake]) envs
    exact .inl (congrArg _ hover)
  | ok outcome =>
    cases outcome with
    | none => exact .inl rfl
    | some out => exact .inr ⟨out, rfl, rfl⟩

end Tries

/-! ### What may be transmitted -/

section Course

variable (value : DataValue) (write read : List UInt8)

/-- The tries of a call that may make `writes` more tries with the frame `write`, and `reads` with the frame
`read`: after a WRITE there is a READ, and after a READ that gives the value nothing. -/
inductive Course : (writes reads : ℕ) → List Tried → Prop where
  /-- The call stops. -/
  | stop {writes reads : ℕ} : Course writes reads []
  /-- A WRITE. -/
  | write {writes reads : ℕ} {t : Tried} {ts : List Tried} (frame : t.frame = write)
    (next : ∀ t' ∈ ts.head?, t'.frame = read) (rest : Course writes reads ts) : Course (writes + 1) reads (t :: ts)
  /-- A READ. -/
  | read {writes reads : ℕ} {t : Tried} {ts : List Tried} (frame : t.frame = read)
    (next : ts ≠ [] → t.Missed value) (rest : Course writes reads ts) : Course writes (reads + 1) (t :: ts)

variable {value write read} {writes reads : ℕ} {ts : List Tried}

namespace Course

theorem frames (h : Course value write read writes reads ts) : ∀ t ∈ ts, t.frame = write ∨ t.frame = read := by
  induction h with
  | stop => simp
  | write frame next rest ih => exact List.forall_mem_cons.mpr ⟨.inl frame, ih⟩
  | read frame next rest ih => exact List.forall_mem_cons.mpr ⟨.inr frame, ih⟩

variable (hwrite : IsWrite write) (hread : IsRead read)

include hread in
theorem countP_isWrite (h : Course value write read writes reads ts) :
    (ts.map Tried.frame).countP (IsWrite ·) ≤ writes := by
  induction h with
  | stop => simp
  | write frame next rest ih =>
    rw [List.map_cons, List.countP_cons]
    split <;> omega
  | read frame next rest ih =>
    rw [List.map_cons, List.countP_cons_of_neg (by simpa [frame] using hread.not_isWrite)]
    exact ih

include hwrite in
theorem countP_isRead (h : Course value write read writes reads ts) :
    (ts.map Tried.frame).countP (IsRead ·) ≤ reads := by
  induction h with
  | stop => simp
  | write frame next rest ih =>
    have hnot : ¬ IsRead write := fun hread => hread.not_isWrite hwrite
    rw [List.map_cons, List.countP_cons_of_neg (by simpa [frame] using hnot)]
    exact ih
  | read frame next rest ih =>
    rw [List.map_cons, List.countP_cons]
    split <;> omega

include hread in
/-- Between two WRITEs there is a READ that has not given the value. -/
theorem missed_between (h : Course value write read writes reads ts) {before between after : List Tried} {w w' : Tried}
    (heq : ts = before ++ w :: (between ++ w' :: after)) (hw : IsWrite w.frame) (hw' : IsWrite w'.frame) :
    ∃ t ∈ between, IsRead t.frame ∧ t.Missed value := by
  induction h generalizing before with
  | stop => simp at heq
  | write frame next rest ih =>
    cases before with
    | cons b before => exact ih (List.cons.inj heq).2
    | nil =>
      obtain ⟨rfl, rfl⟩ := List.cons.inj heq
      cases between with
      | nil =>
        have hframe : w'.frame = read := next w' rfl
        exact absurd (hframe ▸ hw') hread.not_isWrite
      | cons t between =>
        have hframe : t.frame = read := next t rfl
        refine ⟨t, List.mem_cons_self, hframe ▸ hread, ?_⟩
        cases rest with
        | write frame' =>
          -- it cannot be both
          rw [frame', ← frame] at hframe
          exact absurd (hframe ▸ hw) hread.not_isWrite
        | read _ missed => exact missed (by simp)
  | read frame next rest ih =>
    cases before with
    | cons b before => exact ih (List.cons.inj heq).2
    | nil =>
      obtain ⟨rfl, -⟩ := List.cons.inj heq
      exact absurd (frame ▸ hw) hread.not_isWrite

include hwrite in
/-- After a READ that gives the value there is nothing. -/
theorem over_of_gave (h : Course value write read writes reads ts) {before after : List Tried} {t : Tried}
    (heq : ts = before ++ t :: after) (ht : IsRead t.frame) {v : DataValue} (hgave : t.Gave v)
    (hv : value.eq v = true) : after = [] := by
  induction h generalizing before with
  | stop => simp at heq
  | write frame next rest ih =>
    cases before with
    | cons b before => exact ih (List.cons.inj heq).2
    | nil =>
      obtain ⟨rfl, -⟩ := List.cons.inj heq
      exact absurd hwrite (frame ▸ ht).not_isWrite
  | read frame next rest ih =>
    cases before with
    | cons b before => exact ih (List.cons.inj heq).2
    | nil =>
      obtain ⟨rfl, rfl⟩ := List.cons.inj heq
      by_contra hne
      cases hv.symm.trans ((next hne).2 v hgave)

end Course

end Course

/-! ### What is left of a call -/

namespace Script

/-- If it goes on, it is with this frame. -/
def Begins (frame : List UInt8) (s : Script) : Prop :=
  ∀ frame' ty next, s.awake = .attempt frame' ty next → frame' = frame

theorem begins_done (frame : List UInt8) (r : Except RctError DataValue) : (done r).Begins frame := by
  intro frame' ty next hawake
  cases hawake

/-- The script makes at most so many WRITEs and READs, in the order of a course. -/
def Paced (value : DataValue) (write read : List UInt8) : Script → (writes reads : ℕ) → Prop
  | .done _, _, _ | .panics _, _, _ => True
  | .sleep next, writes, reads => next.Paced value write read writes reads
  | .attempt frame _ next, writes, reads =>
    (frame = write ∧ 0 < writes ∧
        ∀ r, (next r).Begins read ∧ (next r).Paced value write read (writes - 1) reads) ∨
      (frame = read ∧ 0 < reads ∧ (∀ v, value.eq v = true → next (.ok v) = .done (.ok v)) ∧
        ∀ r, (next r).Paced value write read writes (reads - 1))

variable {value : DataValue} {write read : List UInt8} {writes reads : ℕ}

theorem Paced.awake {s : Script} (h : s.Paced value write read writes reads) :
    s.awake.Paced value write read writes reads := by
  induction s with
  | sleep s ih => exact ih h
  | done => exact h
  | panics => exact h
  | attempt => exact h

theorem Paced.mono {s : Script} (h : s.Paced value write read writes reads) {writes' reads' : ℕ}
    (hwrites : writes ≤ writes') (hreads : reads ≤ reads') : s.Paced value write read writes' reads' := by
  induction s generalizing writes reads writes' reads' with
  | done => trivial
  | panics => trivial
  | sleep s ih => exact ih h hwrites hreads
  | attempt frame ty next ih =>
    rcases h with ⟨rfl, hpos, hnext⟩ | ⟨rfl, hpos, hmatch, hnext⟩
    · refine .inl ⟨rfl, by omega, fun r => ⟨(hnext r).1, ?_⟩⟩
      exact ih r (hnext r).2 (Nat.sub_le_sub_right hwrites 1) hreads
    · refine .inr ⟨rfl, by omega, hmatch, fun r => ?_⟩
      exact ih r (hnext r) hwrites (Nat.sub_le_sub_right hreads 1)

variable {next : Except RctError DataValue → Script} {ty : DataType}

/-- A READ that is tried again takes as many READs as it is tried. -/
theorem paced_exchangeLoop (hnext : ∀ r, (next r).Paced value write read writes reads)
    (heq : ∀ v, value.eq v = true → next (.ok v) = .done (.ok v)) (left : ℕ) (first : Bool) (lastErr : RctError) :
    (exchangeLoop read ty next left first lastErr).Paced value write read writes (reads + left) := by
  induction left generalizing first lastErr with
  | zero => exact hnext _
  | succ left ih =>
    have htry : (exchangeLoop read ty next (left + 1) true lastErr).Paced value write read writes
        (reads + (left + 1)) := by
      refine .inr ⟨rfl, by omega, heq, fun r => ?_⟩
      cases r with
      | ok v => exact (hnext _).mono le_rfl (by omega)
      | error e => exact ih false e
    cases first <;> exact htry

variable {prof : Profile} {obj : ObjectInfo}

theorem paced_read (cfg : ClientConfig) (hrequest : readRequest prof obj = .ok (.ok read))
    (hnext : ∀ r, (next r).Paced value write read writes reads)
    (heq : ∀ v, value.eq v = true → next (.ok v) = .done (.ok v)) :
    (Script.read prof cfg obj next).Begins read ∧
      (Script.read prof cfg obj next).Paced value write read writes (reads + max cfg.retries 1) := by
  constructor
  · intro frame ty next' hawake
    obtain ⟨left, hleft⟩ : ∃ left, max cfg.retries 1 = left + 1 :=
      Nat.exists_eq_add_one_of_ne_zero (lt_max_of_lt_right one_pos).ne'
    simp only [Script.read, hrequest, withFrame, Script.exchange, hleft, awake_exchangeLoop] at hawake
    injection hawake with hframe
    exact hframe.symm
  · simp only [Script.read, hrequest, withFrame]
    exact paced_exchangeLoop hnext heq _ _ _

/-- A turn of the loop of `write_and_verify` takes the READs of a `read`, and but for the first turn a WRITE. -/
theorem paced_verifyLoop (cfg : ClientConfig) (value : DataValue) (write : List UInt8)
    (hrequest : readRequest prof obj = .ok (.ok read)) (left : ℕ) (first : Bool) :
    (first = true → (verifyLoop prof cfg obj value write left first).Begins read) ∧
      (verifyLoop prof cfg obj value write left first).Paced value write read (if first then left - 1 else left)
        (left * max cfg.retries 1) := by
  induction left generalizing first with
  | zero => exact ⟨fun _ => begins_done read _, trivial⟩
  | succ left ih =>
    obtain ⟨next, herror, hok, hloop⟩ := verifyLoop_succ prof cfg obj value write left
    have hnext : ∀ r, (next r).Paced value write read left (left * max cfg.retries 1) := by
      intro r
      cases r with
      | error e => exact herror e ▸ (ih false).2
      | ok v =>
        rw [hok]
        split
        · trivial
        · exact (ih false).2
    have hread := paced_read cfg hrequest hnext fun v hv => by rw [hok, if_pos hv]
    rw [← Nat.succ_mul] at hread
    rw [hloop]
    cases first with
    | true => exact ⟨fun _ => hread.1, hread.2⟩
    | false => exact ⟨fun h => absurd h Bool.false_ne_true, .inl ⟨rfl, left.succ_pos, fun _ => hread⟩⟩

/-- `write_and_verify`, with the frames of the value and of the object. -/
theorem paced_writeAndVerify (cfg : ClientConfig) (hwrite : writeRequest prof obj value = .ok (.ok write))
    (hread : readRequest prof obj = .ok (.ok read)) :
    (Script.writeAndVerify prof cfg obj value).Paced value write read (max cfg.retries 1)
      (max cfg.retries 1 * max cfg.retries 1) := by
  have hloop := paced_verifyLoop cfg value write hread (max cfg.retries 1) true
  simp only [Script.writeAndVerify, hwrite, withFrame]
  refine .inl ⟨rfl, lt_max_of_lt_right one_pos, fun r => ?_⟩
  cases r with
  | ok v => exact ⟨begins_done read _, trivial⟩
  | error e =>
    cases e
    case timeout | emptyPayload => exact ⟨hloop.1 rfl, hloop.2⟩
    all_goals exact ⟨begins_done read _, trivial⟩

end Script

/-! ### What is transmitted -/

section Runs

variable {κ : Type} {attempt : Attempt κ} {value : DataValue} {write read : List UInt8} {writes reads : ℕ}

/-- What comes next is what the script begins with. -/
theorem frame_of_head?_tries {c : Caller} (h : c.script.Begins read) (envs : List κ) :
    ∀ t ∈ (c.tries attempt envs).head?, t.frame = read := by
  intro t ht
  rcases c.tries_cases attempt with ⟨frame, ty, next, hawake⟩ | hover
  · obtain ⟨script, pooled⟩ := c
    obtain rfl := h frame ty next hawake
    cases envs with
    | nil => cases ht
    | cons env envs =>
      rcases Caller.tries_cons attempt hawake pooled env envs with hlast | ⟨out, -, hrest⟩
      · rw [hlast] at ht
        obtain rfl := Option.some.inj ht
        rfl
      · rw [hrest] at ht
        obtain rfl := Option.some.inj ht
        rfl
  · rw [hover] at ht
    cases ht

/-- **The tries of a call that is paced are a course.** -/
theorem course_tries (attempt : Attempt κ) {c : Caller} (h : c.script.Paced value write read writes reads)
    (envs : List κ) :
    Course value write read writes reads (c.tries attempt envs) := by
  induction envs generalizing c writes reads with
  | nil => exact .stop
  | cons env envs ih =>
    rcases c.tries_cases attempt with ⟨frame, ty, next, hawake⟩ | hover
    case inr =>
      rw [hover]
      exact .stop
    obtain ⟨script, pooled⟩ := c
    have hpaced := h.awake
    rw [hawake] at hpaced
    rcases Caller.tries_cons attempt hawake pooled env envs with hlast | ⟨out, -, hrest⟩
    · rw [hlast]
      rcases hpaced with ⟨rfl, hpos, -⟩ | ⟨rfl, hpos, -⟩
      · obtain ⟨left, rfl⟩ := Nat.exists_eq_add_one_of_ne_zero hpos.ne'
        exact .write rfl (by simp) .stop
      · obtain ⟨left, rfl⟩ := Nat.exists_eq_add_one_of_ne_zero hpos.ne'
        exact .read rfl (by simp) .stop
    · rw [hrest]
      rcases hpaced with ⟨rfl, hpos, hnext⟩ | ⟨rfl, hpos, hmatch, hnext⟩
      · obtain ⟨left, rfl⟩ := Nat.exists_eq_add_one_of_ne_zero hpos.ne'
        exact .write rfl (frame_of_head?_tries (hnext out.result).1 envs) (ih (hnext out.result).2)
      · obtain ⟨left, rfl⟩ := Nat.exists_eq_add_one_of_ne_zero hpos.ne'
        refine .read rfl (fun hne => ?_) (ih (hnext out.result))
        refine .of_result rfl fun v hv => Bool.eq_false_iff.mpr fun heq => hne ?_
        -- with the value the call is over
        rw [hv, hmatch v heq]
        exact Caller.tries_of_over (by simp [Script.awake]) envs

/-- A try hands its frame to the socket once, or never. -/
def SendsOnce (attempt : Attempt κ) : Prop :=
  ∀ frame ty pooled env out, attempt frame ty pooled env = .ok (some out) → out.sent = [] ∨ out.sent = [frame]

/-- The frames that are transmitted are those of the tries, but for tries that transmit nothing. -/
theorem transmitted_sublist (hattempt : SendsOnce attempt) (c : Caller) (envs : List κ) :
    (transmitted (c.tries attempt envs)).Sublist ((c.tries attempt envs).map Tried.frame) := by
  induction envs generalizing c with
  | nil => exact .slnil
  | cons env envs ih =>
    rcases c.tries_cases attempt with ⟨frame, ty, next, hawake⟩ | hover
    case inr =>
      rw [hover]
      exact .slnil
    obtain ⟨script, pooled⟩ := c
    rcases Caller.tries_cons attempt hawake pooled env envs with hlast | ⟨out, htry, hrest⟩
    · rw [hlast]
      exact List.Sublist.refl [frame]
    · rw [hrest, transmitted, List.flatMap_cons, List.map_cons]
      rcases hattempt _ _ _ _ _ htry with hsent | hsent
      · simp only [Tried.sent, hsent, List.nil_append]
        exact (ih _).cons _
      · simp only [Tried.sent, hsent, List.singleton_append]
        exact (ih _).cons_cons _

end Runs

/-- What one call of `write_and_verify` may do, with `R` tries an exchange. -/
structure Restrained (prof : Profile) (obj : ObjectInfo) (value : DataValue) (R : ℕ) (tries : List Tried) : Prop where
  /-- It transmits the WRITE of the value and the READ of the object. -/
  frames : ∀ frame ∈ transmitted tries,
    (IsWrite frame ∧ writeRequest prof obj value = .ok (.ok frame)) ∨
      (IsRead frame ∧ readRequest prof obj = .ok (.ok frame))
  /-- The WRITEs it transmits. -/
  writes : (transmitted tries).countP (IsWrite ·) ≤ R
  /-- The READs it transmits. -/
  reads : (transmitted tries).countP (IsRead ·) ≤ R * R
  /-- Between two WRITEs a READ is tried, and fails or gives another value. -/
  between : ∀ before w between w' after, tries = before ++ w :: (between ++ w' :: after) → IsWrite w.frame →
    IsWrite w'.frame → ∃ t ∈ between, IsRead t.frame ∧ t.Missed value
  /-- Nothing is tried when the first try, which is a WRITE, is answered with a value. -/
  direct : ∀ first rest, tries = first :: rest → IsWrite first.frame ∧ ∀ v, first.Gave v → rest = []
  /-- Nothing is tried when a READ gives the value. -/
  readBack : ∀ before t after v, tries = before ++ t :: after → IsRead t.frame → t.Gave v → value.eq v = true →
    after = []

section Calls

variable {κ : Type} {attempt : Attempt κ} {prof : Profile} {cfg : ClientConfig} {obj : ObjectInfo} {value : DataValue}
  {pooled : Bool}

/-- A value in answer to the first try ends the call. -/
theorem tries_verifying {write : List UInt8} (hwrite : writeRequest prof obj value = .ok (.ok write)) {envs : List κ}
    {first : Tried} {rest : List Tried}
    (heq : (verifying prof cfg obj value pooled).tries attempt envs = first :: rest) :
    first.frame = write ∧ ∀ v, first.Gave v → rest = [] := by
  cases envs with
  | nil => cases heq
  | cons env envs =>
    obtain ⟨next, hawake, hok⟩ : ∃ next, (Script.writeAndVerify prof cfg obj value).awake =
        .attempt write obj.responseDataType next ∧ ∀ v, next (.ok v) = .done (.ok v) := by
      simp only [Script.writeAndVerify, hwrite, Script.withFrame]
      exact ⟨_, rfl, fun _ => rfl⟩
    rcases Caller.tries_cons attempt hawake pooled env envs with hlast | ⟨out, -, hrest⟩
    · obtain ⟨rfl, rfl⟩ := List.cons.inj (heq.symm.trans hlast)
      exact ⟨rfl, fun _ _ => rfl⟩
    · obtain ⟨rfl, rfl⟩ := List.cons.inj (heq.symm.trans hrest)
      refine ⟨rfl, fun v hgave => ?_⟩
      obtain ⟨out', hout, hv⟩ := hgave
      obtain rfl := Option.some.inj hout
      rw [hv, hok]
      exact Caller.tries_of_over (by simp [Script.awake]) envs

/-- Without a frame nothing is tried. -/
theorem tries_verifying_none (h : ∀ write, writeRequest prof obj value ≠ .ok (.ok write)) (envs : List κ) :
    (verifying prof cfg obj value pooled).tries attempt envs = [] := by
  apply Caller.tries_of_over
  intro frame ty next hawake
  simp only [verifying, Method.script, Script.writeAndVerify] at hawake
  rcases hrequest : writeRequest prof obj value with p | (e | write)
  · simp [hrequest, Script.withFrame, Script.awake] at hawake
  · simp [hrequest, Script.withFrame, Script.awake] at hawake
  · exact h write hrequest

theorem restrained_nil (R : ℕ) : Restrained prof obj value R [] where
  frames := by simp [transmitted]
  writes := Nat.zero_le _
  reads := Nat.zero_le _
  between := by simp
  direct := by simp
  readBack := by simp

/-- **One call of `write_and_verify`**, whatever the device does. -/
theorem restrained (hattempt : SendsOnce attempt) (envs : List κ) :
    Restrained prof obj value (max cfg.retries 1)
      ((verifying prof cfg obj value pooled).tries attempt envs) := by
  by_cases hframe : ∃ write, writeRequest prof obj value = .ok (.ok write)
  · obtain ⟨write, hwrite⟩ := hframe
    obtain ⟨read, hread⟩ := readRequest_ok prof obj
    have hcourse : Course value write read (max cfg.retries 1) (max cfg.retries 1 * max cfg.retries 1)
        ((verifying prof cfg obj value pooled).tries attempt envs) :=
      course_tries attempt (Script.paced_writeAndVerify cfg hwrite hread) envs
    have hsublist := transmitted_sublist hattempt (verifying prof cfg obj value pooled) envs
    have hisWrite := isWrite_of_writeRequest hwrite
    have hisRead := isRead_of_readRequest hread
    refine ⟨fun frame hmem => ?_, ?_, ?_, ?_, ?_, ?_⟩
    · obtain ⟨t, ht, rfl⟩ := List.mem_map.mp (hsublist.subset hmem)
      rcases hcourse.frames t ht with hframe | hframe
      · exact .inl ⟨hframe ▸ hisWrite, hframe ▸ hwrite⟩
      · exact .inr ⟨hframe ▸ hisRead, hframe ▸ hread⟩
    · exact hsublist.countP_le.trans (hcourse.countP_isWrite hisRead)
    · exact hsublist.countP_le.trans (hcourse.countP_isRead hisWrite)
    · intro before w between w' after heq hw hw'
      exact hcourse.missed_between hisRead heq hw hw'
    · intro first rest heq
      obtain ⟨hframe, hover⟩ := tries_verifying hwrite heq
      exact ⟨hframe ▸ hisWrite, hover⟩
    · intro before t after v heq ht hgave hv
      exact hcourse.over_of_gave hisWrite heq ht hgave hv
  · rw [tries_verifying_none fun write hwrite => hframe ⟨write, hwrite⟩]
    exact restrained_nil _

end Calls

theorem Client.sendsOnce (cfg : ClientConfig) : SendsOnce (Client.tryExchange cfg) := by
  intro frame ty pooled env out h
  cases ends_iff.mp h with
  | unconnected | unprepared => exact .inl rfl
  | unwritten | failed | finished => exact .inr rfl

theorem AsyncClient.sendsOnce : SendsOnce AsyncClient.tryExchange := by
  intro frame ty pooled env out h
  cases ends_of_ok h with
  | unconnected => exact .inl rfl
  | exchanged => exact .inr rfl

/-- **A call of `write_and_verify` transmits boundedly often**, with both clients, whatever the device does. -/
theorem writeAndVerify_restrained (prof : Profile) (cfg : ClientConfig) (obj : ObjectInfo) (value : DataValue)
    (pooled : Bool) :
    (∀ envs, Restrained prof obj value (max cfg.retries 1)
      ((verifying prof cfg obj value pooled).tries (Client.tryExchange cfg) envs)) ∧
    ∀ envs, Restrained prof obj value (max cfg.retries 1)
      ((verifying prof cfg obj value pooled).tries AsyncClient.tryExchange envs) :=
  ⟨restrained (Client.sendsOnce cfg), restrained AsyncClient.sendsOnce⟩

/-- Nothing is transmitted when the first WRITE that is transmitted is answered. -/
def AnswerEnds (tries : List Tried) : Prop :=
  ∀ before t after v, tries = before ++ t :: after → (∀ frame ∈ transmitted before, ¬ IsWrite frame) →
    t.sent = [t.frame] → IsWrite t.frame → t.Gave v → transmitted after = []

/-- The asynchronous client cannot connect within its timeout, in the first try and in both tries to read. Then
it connects, and the device answers the WRITE; the client transmits a READ. -/
theorem not_answerEnds :
    let obj : ObjectInfo := ⟨.powerMng, 0xD1DFC969, 740, "power_mng.soc_target_set", .float, .float, "", "", ""⟩
    let away : AsyncTry := ⟨.error none, .ok (), []⟩
    let answering : AsyncTry := ⟨.ok (), .ok (), [⟨0, .ok (floatResponse 0x3F000000).bytes⟩]⟩
    ¬ AnswerEnds ((verifying .debug ⟨5, 2⟩ obj (.f32 ⟨0x3F000000⟩) false).tries AsyncClient.tryExchange
      [away, away, away, answering, answering]) := by
  intro obj away answering hends
  let write : List UInt8 := [0x2B, 0x02, 0x08, 0xD1, 0xDF, 0xC9, 0x69, 0x3F, 0x00, 0x00, 0x00, 0x13, 0x88]
  let read : List UInt8 := [0x2B, 0x01, 0x04, 0xD1, 0xDF, 0xC9, 0x69, 0x04, 0xE7]
  let lost : Outcome DataValue := ⟨false, [], .error .timeout⟩
  let answered (frame : List UInt8) : Tried := ⟨frame, some ⟨true, [frame], .ok (.f32 ⟨0x3F000000⟩)⟩⟩
  have hover : transmitted [answered read] = [] := by
    apply hends [⟨write, some lost⟩, ⟨read, some lost⟩, ⟨read, some lost⟩] (answered write) [answered read]
      (.f32 ⟨0x3F000000⟩)
    · decide +kernel
    · simp [transmitted, Tried.sent, lost]
    · rfl
    · decide
    · exact ⟨_, rfl, rfl⟩
  cases hover

end RctPower
