import RctPower.Protocol.RoundTrip

/-!
# The receive loop of an exchange

The synchronous client, the asynchronous client and the proxy each write a request and
then run a loop of their own: look at the clock, read, hand what was read to a fresh
`ReceiveFrame`, until it is complete. `readOnce` is one turn of such a loop. The three
differ in whether they look at a deadline and in what they make of a read that gives no
bytes, which is the loop's `ReadPolicy`.

The sockets are outside the code: what each read gives is a `ReadEvent`, and a loop runs
over a list of them. `receive_ok` says what a loop that ends well has done, against any
events: of the bytes it received, a first piece completes a fresh parser in the state
that the loop hands on.

Around such a loop there is a try, on the pooled connection or a new one (`PoolEnds`), and around the tries of
a client there is the retry loop (`attempts`).
-/

namespace RctPower

open RctPower.Lib.Rust RctPower.Lib.EarlyExit RctPower.Lib.Stuffing

/-- One turn of a receive loop: the clock at its top, and what the read then gives, with
errors of type `ε`. No bytes mean that the peer has closed the connection. The loop does not look at
the clock again when the read has returned; for that time there is `TimedRead`. -/
structure ReadEvent (ε : Type) where
  /-- The clock. -/
  now : ℕ
  /-- The bytes read, or the error. -/
  got : Except ε (List UInt8)

namespace ReadEvent

variable {ε : Type}

/-- The bytes read. -/
def bytes (ev : ReadEvent ε) : List UInt8 :=
  match ev.got with
  | .ok chunk => chunk
  | .error _ => []

/-- The bytes read in all turns. -/
def allBytes (evs : List (ReadEvent ε)) : List UInt8 := evs.flatMap bytes

end ReadEvent

/-- How a receive loop treats time and errors. -/
structure ReadPolicy (ε : Type) where
  /-- The deadline has passed. -/
  expired : ℕ → Bool
  /-- The error that a failed read ends the loop with, if it does. -/
  failure : ε → Option RctError

variable {ε : Type}

/-- What a turn takes from the connection: nothing when the deadline has passed. -/
def ReadPolicy.taken (policy : ReadPolicy ε) (ev : ReadEvent ε) : List UInt8 :=
  if policy.expired ev.now then [] else ev.bytes

/-- One turn of a receive loop, from a parser that is not complete. -/
def readOnce (policy : ReadPolicy ε) (rx : ReceiveFrame) (ev : ReadEvent ε) :
    Flow ReceiveFrame (Except RctError Unit) Panic :=
  if policy.expired ev.now then .ret rx (.error .timeout)
  else
    match ev.got with
    | .error e =>
      match policy.failure e with
      | some err => .ret rx (.error err)
      | none => .next rx
    | .ok [] => .ret rx (.error .timeout)
    | .ok chunk => .after (rx.consume chunk) fun out =>
      match out with
      | (rx', .error e) => .ret rx' (.error e)
      | (rx', .ok _) => if rx'.complete then .ret rx' (.ok ()) else .next rx'

/-- The loop, from a fresh parser: the complete parser or an error, and nothing as long as
neither is reached. -/
def receive (policy : ReadPolicy ε) (reads : List (ReadEvent ε)) : Checked (Option (Except RctError ReceiveFrame)) :=
  (loop (readOnce policy) (.new false) reads).map fun out => out.2.map fun r => r.1.map fun _ => out.1

/-- A first piece of the bytes completes a fresh parser in state `rx`. -/
def FirstComplete (bytes : List UInt8) (rx : ReceiveFrame) : Prop :=
  ∃ s rest, bytes = s ++ rest ∧ ReceiveFrame.Completes s rx

/-- From the first start token on, the bytes begin with the bytes `frame` of a well-formed
frame of body `body`. -/
def FirstFrame (bytes frame body : List UInt8) : Prop :=
  ∃ g t rest, bytes = g ++ frame ++ rest ∧ START_TOKEN ∉ g ∧ frame = START_TOKEN :: t ∧
    unstuff ESCAPE_TOKEN false t = (body, false) ∧ ReceiveFrame.WellFormed body

/-! ### What a turn does -/

variable {policy : ReadPolicy ε} {rx rx' : ReceiveFrame} {ev : ReadEvent ε} {taken : List UInt8}

/-- **A turn that goes on** has passed what it read. -/
theorem readOnce_next (hpass : passed ReceiveFrame.step (.new false) taken = some rx)
    (h : readOnce policy rx ev = .next rx') :
    passed ReceiveFrame.step (.new false) (taken ++ ev.bytes) = some rx' := by
  rcases ev with ⟨now, got⟩
  rw [readOnce] at h
  split_ifs at h
  rcases got with e | (_ | ⟨c, cs⟩)
  · -- the read failed, and the loop goes on all the same
    cases hf : policy.failure e with
    | some err => simp [hf] at h
    | none =>
      simp only [hf, Flow.next.injEq] at h
      simpa [ReadEvent.bytes, ← h] using hpass
  · cases h
  · obtain ⟨⟨t, r⟩, hconsume, hout⟩ := Flow.of_after_eq_next h
    cases r with
    | error e => cases hout
    | ok n =>
      dsimp only at hout
      split_ifs at hout with ht
      obtain rfl : t = rx' := by simpa using hout
      rcases ReceiveFrame.consume_ok hconsume with hchunk | ⟨a, d, b, rx₁, -, -, -, hcomplete⟩
      · rw [pass_append_of ReceiveFrame.step hpass]
        exact hchunk
      · exact absurd hcomplete ht

/-- **A turn that completes the frame** has read up to its end, or beyond. -/
theorem readOnce_ok (hpass : passed ReceiveFrame.step (.new false) taken = some rx)
    (h : readOnce policy rx ev = .ret rx' (.ok ())) : FirstComplete (taken ++ ev.bytes) rx' := by
  rcases ev with ⟨now, got⟩
  rw [readOnce] at h
  split_ifs at h
  · cases h
  rcases got with e | (_ | ⟨c, cs⟩)
  · dsimp only at h
    cases hf : policy.failure e with
    | some err => simp [hf] at h
    | none => simp [hf] at h
  · cases h
  · obtain ⟨⟨t, r⟩, hconsume, hout⟩ := Flow.of_after_eq_ret h
    cases r with
    | error e => cases hout
    | ok n =>
      dsimp only at hout
      split_ifs at hout with ht
      obtain rfl : t = rx' := by simpa using hout
      rcases ReceiveFrame.consume_ok hconsume with hchunk | ⟨a, d, b, rx₁, hcut, ha, hstep, -⟩
      · -- passing does not complete
        rw [ReceiveFrame.complete_of_pass hchunk, ReceiveFrame.complete_of_pass hpass] at ht
        cases ht
      · refine ⟨taken ++ a ++ [d], b, by simp [ReadEvent.bytes, hcut], taken ++ a, d, rx₁, rfl, ?_, hstep, ht⟩
        rw [pass_append_of ReceiveFrame.step hpass]
        exact ha

/-- Only at the deadline is nothing read. -/
theorem readOnce_taken (h : readOnce policy rx ev = .next rx' ∨ readOnce policy rx ev = .ret rx' (.ok ())) :
    policy.taken ev = ev.bytes := by
  rw [readOnce] at h
  rw [ReadPolicy.taken]
  split_ifs at h ⊢
  · rcases h with h | h <;> cases h
  · rfl

/-- **A turn on the way to a frame** does not panic. -/
theorem readOnce_ne_panics (hpass : passed ReceiveFrame.step (.new false) taken = some rx) {s rest : List UInt8}
    {rx' : ReceiveFrame} (hs : ReceiveFrame.Completes s rx') (hpre : taken ++ policy.taken ev <+: s ++ rest)
    (p : Panic) : readOnce policy rx ev ≠ .panics p := by
  intro h
  rcases ev with ⟨now, got⟩
  rw [readOnce] at h
  rw [ReadPolicy.taken] at hpre
  split_ifs at h hpre
  rcases got with e | (_ | ⟨c, cs⟩)
  · dsimp only at h
    cases hf : policy.failure e <;> simp [hf] at h
  · cases h
  · obtain ⟨⟨t, r⟩, hout⟩ : ∃ out, rx.consume (c :: cs) = .ok out := hs.consume_ok hpass hpre
    dsimp only at h
    rw [hout, Flow.after_ok] at h
    cases r with
    | error e => cases h
    | ok n =>
      dsimp only at h
      split_ifs at h

/-! ### What a loop does -/

/-- Turns that all go on have passed all that they read. -/
theorem pass_readOnce {evs : List (ReadEvent ε)} (hpass : passed ReceiveFrame.step (.new false) taken = some rx)
    (h : passed (readOnce policy) rx evs = some rx') :
    passed ReceiveFrame.step (.new false) (taken ++ ReadEvent.allBytes evs) = some rx' := by
  induction evs generalizing rx taken with
  | nil =>
    obtain rfl : rx = rx' := by simpa using h
    simpa [ReadEvent.allBytes] using hpass
  | cons ev evs ih =>
    cases hev : readOnce policy rx ev with
    | next rx₁ =>
      rw [pass_cons_next _ hev] at h
      have := ih (readOnce_next hpass hev) h
      rwa [List.append_assoc] at this
    | ret => simp [passed, hev] at h
    | panics => simp [passed, hev] at h

/-- A loop that ends does so in a first turn that returns. -/
theorem receive_stop {reads : List (ReadEvent ε)} {r : Except RctError ReceiveFrame}
    (h : receive policy reads = .ok (some r)) :
    ∃ before ev after rx rx' r', reads = before ++ ev :: after ∧
      passed (readOnce policy) (.new false) before = some rx ∧ readOnce policy rx ev = .ret rx' r' ∧
        r = r'.map fun _ => rx' := by
  rw [receive] at h
  obtain ⟨⟨rx', none | ⟨r', n⟩⟩, hl, hout⟩ := of_map_eq_ok h
  · cases hout
  · obtain ⟨before, ev, after, rx, rfl, -, hbefore, hev⟩ := stop_of_loop _ hl
    exact ⟨before, ev, after, rx, rx', r', rfl, hbefore, hev, (Option.some.inj hout).symm⟩

/-- **A loop that ends well** hands on the parser that a first piece of its bytes completes. -/
theorem receive_ok {reads : List (ReadEvent ε)} (h : receive policy reads = .ok (some (.ok rx))) :
    FirstComplete (ReadEvent.allBytes reads) rx := by
  obtain ⟨before, ev, after, rx₀, rx', r', rfl, hbefore, hev, hr⟩ := receive_stop h
  cases r' with
  | error e => cases hr
  | ok u =>
    cases hr
    have hpass : passed ReceiveFrame.step (.new false) ([] ++ ReadEvent.allBytes before) = some rx₀ :=
      pass_readOnce rfl hbefore
    obtain ⟨s, rest, hs, hcomplete⟩ := readOnce_ok hpass hev
    refine ⟨s, rest ++ ReadEvent.allBytes after, ?_, hcomplete⟩
    rw [← List.append_assoc, ← hs]
    simp [ReadEvent.allBytes]

/-! ### What arrives in time -/

/-- The bytes arrive before the loop gives up, in pieces of any size, and nothing else does. -/
inductive Delivers (policy : ReadPolicy ε) : List (ReadEvent ε) → List UInt8 → Prop
  /-- The last of them. -/
  | last {ev : ReadEvent ε} {chunk : List UInt8} (rest : List (ReadEvent ε)) (htime : policy.expired ev.now = false)
    (hgot : ev.got = .ok chunk) (hne : chunk ≠ []) : Delivers policy (ev :: rest) chunk
  /-- A piece of them. -/
  | piece {ev : ReadEvent ε} {evs : List (ReadEvent ε)} {chunk bytes : List UInt8}
    (htime : policy.expired ev.now = false) (hgot : ev.got = .ok chunk) (hne : chunk ≠ [])
    (hrest : Delivers policy evs bytes) : Delivers policy (ev :: evs) (chunk ++ bytes)
  /-- A turn without any. -/
  | wait {ev : ReadEvent ε} {evs : List (ReadEvent ε)} {e : ε} {bytes : List UInt8}
    (htime : policy.expired ev.now = false) (hgot : ev.got = .error e) (hfailure : policy.failure e = none)
    (hrest : Delivers policy evs bytes) : Delivers policy (ev :: evs) bytes

/-- Nothing arrives before the loop gives up. -/
def Unanswered (policy : ReadPolicy ε) (reads : List (ReadEvent ε)) : Prop :=
  ∃ before last rest, reads = before ++ last :: rest ∧
    (∀ ev ∈ before, policy.expired ev.now = false ∧ ∃ e, ev.got = .error e ∧ policy.failure e = none) ∧
    (policy.expired last.now = true ∨ ∃ e, last.got = .error e ∧ policy.failure e = some .timeout)

theorem Delivers.ne_nil {reads : List (ReadEvent ε)} {bytes : List UInt8} (h : Delivers policy reads bytes) :
    bytes ≠ [] := by
  induction h with
  | last rest htime hgot hne => exact hne
  | piece htime hgot hne hrest ih => exact List.append_ne_nil_of_left_ne_nil hne _
  | wait htime hgot hfailure hrest ih => exact ih

/-- A turn that reads something hands it to the parser. -/
theorem readOnce_of_got {chunk : List UInt8} (htime : policy.expired ev.now = false) (hgot : ev.got = .ok chunk)
    (hne : chunk ≠ []) :
    readOnce policy rx ev = .after (rx.consume chunk) fun out =>
      match out with
      | (rx', .error e) => .ret rx' (.error e)
      | (rx', .ok _) => if rx'.complete then .ret rx' (.ok ()) else .next rx' := by
  rw [readOnce]
  rw [htime, hgot]
  cases chunk with
  | nil => exact absurd rfl hne
  | cons c cs => rfl

/-- A turn that reads nothing goes on. -/
theorem readOnce_of_wait {e : ε} (htime : policy.expired ev.now = false) (hgot : ev.got = .error e)
    (hfailure : policy.failure e = none) : readOnce policy rx ev = .next rx := by
  rw [readOnce]
  rw [htime, hgot]
  simp only [Bool.false_eq_true, if_false, hfailure]

/-- The turns that bring the rest of a frame complete it. -/
theorem Delivers.exists_stop {reads : List (ReadEvent ε)} {bytes : List UInt8} (h : Delivers policy reads bytes)
    (hpass : passed ReceiveFrame.step (.new false) taken = some rx)
    (hs : ReceiveFrame.Completes (taken ++ bytes) rx') :
    ∃ before ev rest rx₁, reads = before ++ ev :: rest ∧ passed (readOnce policy) rx before = some rx₁ ∧
      readOnce policy rx₁ ev = .ret rx' (.ok ()) := by
  induction h generalizing taken rx with
  | @last ev chunk rest htime hgot hne =>
    refine ⟨[], ev, rest, rx, rfl, rfl, ?_⟩
    obtain ⟨s₀, c, rx₀, heq, hpass₀, hret, hcomplete⟩ := hs
    obtain ⟨a, d, rfl⟩ := (List.eq_nil_or_concat' chunk).resolve_left hne
    rw [← List.append_assoc] at heq
    obtain ⟨rfl, hd⟩ := List.append_inj' heq rfl
    obtain rfl : d = c := by simpa using hd
    rw [pass_append_of ReceiveFrame.step hpass] at hpass₀
    have hconsume := ReceiveFrame.consume_stop hpass₀ hret []
    rw [readOnce_of_got htime hgot hne, hconsume, Flow.after_ok]
    exact if_pos hcomplete
  | @piece ev evs chunk bytes htime hgot hne hrest ih =>
    obtain ⟨s₀, c, rx₀, heq, hpass₀, -, -⟩ := id hs
    -- what is still to come has the last byte
    obtain ⟨more, d, hmore⟩ := (List.eq_nil_or_concat' bytes).resolve_left hrest.ne_nil
    have hcut : s₀ = (taken ++ chunk) ++ more := by
      rw [hmore, ← List.append_assoc, ← List.append_assoc] at heq
      exact (List.append_inj' heq rfl).1.symm
    rw [hcut] at hpass₀
    obtain ⟨rx₁, hchunk, -⟩ := pass_left ReceiveFrame.step hpass₀
    have hall := hchunk
    rw [pass_append_of ReceiveFrame.step hpass] at hchunk
    have hnext : readOnce policy rx ev = .next rx₁ := by
      rw [readOnce_of_got htime hgot hne, ReceiveFrame.consume_pass hchunk, Flow.after_ok]
      exact if_neg (by simp [ReceiveFrame.complete_of_pass hall, ReceiveFrame.new])
    rw [← List.append_assoc] at hs
    obtain ⟨before, stop, rest, rx₂, rfl, hbefore, hstop⟩ := ih hall hs
    exact ⟨ev :: before, stop, rest, rx₂, rfl, by rw [pass_cons_next _ hnext]; exact hbefore, hstop⟩
  | @wait ev evs e bytes htime hgot hfailure hrest ih =>
    obtain ⟨before, stop, rest, rx₂, rfl, hbefore, hstop⟩ := ih hpass hs
    refine ⟨ev :: before, stop, rest, rx₂, rfl, ?_, hstop⟩
    rw [pass_cons_next _ (readOnce_of_wait htime hgot hfailure)]
    exact hbefore

/-- **A loop to which a frame is delivered** hands on the parser that it completes. -/
theorem receive_of_delivers {reads : List (ReadEvent ε)} {bytes : List UInt8} (h : Delivers policy reads bytes)
    (hs : ReceiveFrame.Completes bytes rx) : receive policy reads = .ok (some (.ok rx)) := by
  have hnew : passed ReceiveFrame.step (.new false) [] = some (.new false) := rfl
  obtain ⟨before, ev, rest, rx₁, rfl, hbefore, hstop⟩ := h.exists_stop hnew hs
  rw [receive]
  rw [loop_stop _ hbefore hstop]
  rfl

/-- **A loop to which nothing is delivered** times out. -/
theorem receive_of_unanswered {reads : List (ReadEvent ε)} (h : Unanswered policy reads) :
    receive policy reads = .ok (some (.error .timeout)) := by
  obtain ⟨before, last, rest, rfl, hbefore, hlast⟩ := h
  have hpass : passed (readOnce policy) (.new false) before = some (.new false) := by
    induction before with
    | nil => rfl
    | cons ev evs ih =>
      obtain ⟨⟨htime, e, hgot, hfailure⟩, hevs⟩ := List.forall_mem_cons.mp hbefore
      rw [pass_cons_next _ (readOnce_of_wait htime hgot hfailure)]
      exact ih hevs
  have hstop : readOnce policy (.new false) last = .ret (.new false) (.error .timeout) := by
    rw [readOnce]
    split
    · rfl
    · next htime =>
      obtain ⟨e, hgot, hfailure⟩ := hlast.resolve_left htime
      simp only [hgot, hfailure]
  rw [receive]
  rw [loop_stop _ hpass hstop]
  rfl

/-! ### First frames -/

/-- What completes first is a first frame. -/
theorem FirstComplete.exists_frame {bytes : List UInt8} (h : FirstComplete bytes rx) :
    ∃ body, FirstFrame bytes rx.wireBytes body ∧ rx.data = bodyData body := by
  obtain ⟨s, rest, rfl, hcomplete⟩ := h
  obtain ⟨g, t, body, rfl, hg, ht, hwf, rfl⟩ := hcomplete.exists_body
  exact ⟨body, ⟨g, t, rest, rfl, hg, rfl, ht, hwf⟩, rfl⟩

/-- A first frame completes first. -/
theorem FirstFrame.exists_complete {bytes frame body : List UInt8} (h : FirstFrame bytes frame body) :
    ∃ rx, FirstComplete bytes rx ∧ rx.buffer = START_TOKEN :: body ∧ rx.wireBytes = frame := by
  obtain ⟨g, t, rest, rfl, hg, rfl, ht, hwf⟩ := h
  exact ⟨_, ⟨_, rest, rfl, ReceiveFrame.completes_body hwf ht hg⟩, rfl, rfl⟩

/-- At most one parser state completes first. -/
theorem FirstComplete.unique {bytes : List UInt8} (h : FirstComplete bytes rx) (h' : FirstComplete bytes rx') :
    rx = rx' := by
  obtain ⟨s, rest, rfl, hcomplete⟩ := h
  obtain ⟨s', rest', heq, hcomplete'⟩ := h'
  exact (hcomplete.unique hcomplete' heq).2

/-- There is at most one first frame. -/
theorem FirstFrame.unique {bytes frame frame' body body' : List UInt8} (h : FirstFrame bytes frame body)
    (h' : FirstFrame bytes frame' body') : frame = frame' ∧ body = body' := by
  obtain ⟨rx, hrx, hbuffer, hwire⟩ := h.exists_complete
  obtain ⟨rx', hrx', hbuffer', hwire'⟩ := h'.exists_complete
  obtain rfl := hrx.unique hrx'
  rw [hbuffer] at hbuffer'
  exact ⟨hwire.symm.trans hwire', List.tail_eq_of_cons_eq hbuffer'⟩

/-! ### Tries -/

/-- What one call has done, to the pool and on the wire, and what it returns. -/
structure Outcome (α : Type) where
  /-- There is a connection in the pool. -/
  pooled : Bool
  /-- The frames handed to the socket, in order. -/
  sent : List (List UInt8)
  /-- The result. -/
  result : Except RctError α
  deriving DecidableEq

variable {κ α : Type}

/-- How a try ends that takes the pooled connection, or else makes one, for an exchange on it, and that drops
the connection when anything goes wrong. -/
inductive PoolEnds (request : List UInt8) (pooled : Bool) (connected : Except κ Unit) (error : κ → RctError)
    (exchanged : Checked (Option (Except RctError α))) : Outcome α → Prop where
  /-- There is no connection. -/
  | unconnected {e : κ} (absent : pooled = false) (hconnected : connected = .error e) :
    PoolEnds request pooled connected error exchanged ⟨false, [], .error (error e)⟩
  /-- There is one, and an exchange on it. -/
  | exchanged {r : Except RctError α} (hconnected : pooled = true ∨ connected = .ok ())
    (hexchanged : exchanged = .ok (some r)) : PoolEnds request pooled connected error exchanged ⟨r.isOk, [request], r⟩

theorem PoolEnds.of_ok {request : List UInt8} {pooled : Bool} {connected : Except κ Unit} {error : κ → RctError}
    {exchanged : Checked (Option (Except RctError α))} {out : Outcome α}
    (h : (match (if pooled then .ok () else connected : Except κ Unit) with
      | .error e => .ok (some ⟨false, [], .error (error e)⟩)
      | .ok () => exchanged.map fun result => result.map fun r => ⟨r.isOk, [request], r⟩ :
        Checked (Option (Outcome α))) = .ok (some out)) :
    PoolEnds request pooled connected error exchanged out := by
  split at h
  · next e hconnected =>
    cases h
    cases pooled with
    | true => cases hconnected
    | false => exact .unconnected rfl hconnected
  · next hconnected =>
    obtain ⟨r, hexchanged, rfl⟩ := Checked.of_map_eq_some h
    refine .exchanged ?_ hexchanged
    cases pooled with
    | true => exact .inl rfl
    | false => exact .inr hconnected

/-- The retry loop of both clients: up to `n` tries, from what the pool holds, each against an
environment of its own, up to the first that succeeds. It gives nothing as long as a try is
still going on. -/
def attempts (attempt : Bool → κ → Checked (Option (Outcome α))) :
    ℕ → RctError → Bool → List κ → Checked (Option (Outcome α))
  | 0, lastErr, pooled, _ => .ok (some ⟨pooled, [], .error lastErr⟩)
  | _ + 1, _, _, [] => .ok none
  | n + 1, _, pooled, env :: envs =>
    match attempt pooled env with
    | .error p => .error p
    | .ok none => .ok none
    | .ok (some out) =>
      match out.result with
      | .ok _ => .ok (some out)
      | .error e => (attempts attempt n e out.pooled envs).map fun last =>
        last.map fun out' => { out' with sent := out.sent ++ out'.sent }

/-- **The first try** of a retry loop, and what is left of the loop. -/
theorem attempts_cons {attempt : Bool → κ → Checked (Option (Outcome α))} {n : ℕ} {lastErr : RctError}
    {pooled : Bool} {envs : List κ} {out : Outcome α}
    (h : attempts attempt (n + 1) lastErr pooled envs = .ok (some out)) :
    ∃ env rest first, envs = env :: rest ∧ attempt pooled env = .ok (some first) ∧
      ((∃ v, first.result = .ok v ∧ out = first) ∨
        ∃ e last, first.result = .error e ∧ attempts attempt n e first.pooled rest = .ok (some last) ∧
          out.result = last.result ∧ out.pooled = last.pooled) := by
  cases envs with
  | nil => cases h
  | cons env rest =>
    rw [attempts] at h
    cases hattempt : attempt pooled env with
    | error p => simp [hattempt] at h
    | ok tried =>
      cases tried with
      | none => simp [hattempt] at h
      | some first =>
        refine ⟨env, rest, first, rfl, hattempt, ?_⟩
        cases hresult : first.result with
        | ok v =>
          simp only [hattempt, hresult, Except.ok.injEq, Option.some.injEq] at h
          exact .inl ⟨v, rfl, h.symm⟩
        | error e =>
          simp only [hattempt, hresult] at h
          obtain ⟨last, hlast, rfl⟩ := Checked.of_map_eq_some h
          exact .inr ⟨e, last, rfl, hlast, rfl, rfl⟩

/-- A retry loop that succeeds does so in one of its tries. -/
theorem attempts_ok {attempt : Bool → κ → Checked (Option (Outcome α))} {n : ℕ} {lastErr : RctError} {pooled : Bool}
    {envs : List κ} {out : Outcome α} {v : α} (h : attempts attempt n lastErr pooled envs = .ok (some out))
    (hv : out.result = .ok v) :
    ∃ env ∈ envs, ∃ pooled' out', attempt pooled' env = .ok (some out') ∧ out'.result = .ok v := by
  induction n generalizing lastErr pooled envs out with
  | zero =>
    obtain rfl : (⟨pooled, [], .error lastErr⟩ : Outcome α) = out := by simpa [attempts] using h
    cases hv
  | succ n ih =>
    obtain ⟨env, rest, first, rfl, htry, ⟨w, -, rfl⟩ | ⟨e, last, -, hlast, hresult, -⟩⟩ := attempts_cons h
    · exact ⟨env, List.mem_cons_self, pooled, out, htry, hv⟩
    · obtain ⟨env', hmem, htry'⟩ := ih hlast (hresult.symm.trans hv)
      exact ⟨env', List.mem_cons_of_mem _ hmem, htry'⟩

end RctPower
