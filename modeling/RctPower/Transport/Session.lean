import RctPower.Transport.Proxy

/-!
# A downstream session of the proxy

`serve_client` (`proxy.rs`): the task that serves one downstream client. It reads, hands
the bytes to a `ReceiveFrame` one at a time, and whenever a frame is complete calls
`exchange` with the bytes of the frame and writes back what that returns. After each
frame, and after each error of the parser, it goes on with a fresh parser.

The task is a state machine: a `Session` is a task by what it waits for, and an event is
the end of that wait. What it does between two waits is `forward`, the loop over the bytes of
one read. Log messages are left out; parsing the response for one of them is not, since it
could panic.

## What is proved

`serves_frames`: fed a stream of standard frames with bytes without start tokens around
them, in reads of any size, the task calls `exchange` with exactly the frames, byte for byte
and in order, whatever the exchanges return.
-/

namespace RctPower

open RctPower.Lib.Rust RctPower.Lib.EarlyExit

/-- A task of `serve_client`, by what it waits for. -/
inductive Session where
  /-- For bytes from downstream. -/
  | reading (rx : ReceiveFrame)
  /-- For the exchange of a request; `rest` is what is left of the bytes read. -/
  | exchanging (wire rest : List UInt8)
  /-- For a response to be written downstream. -/
  | responding (resp rest : List UInt8)
  /-- For nothing: it has returned. -/
  | closed
  /-- For nothing: it has panicked. -/
  | panicked
  deriving DecidableEq

/-- The end of a wait. -/
inductive SessionEvent where
  /-- `sock.read` gives bytes, or none at the end of the stream. -/
  | read (got : Except IoError (List UInt8))
  /-- `exchange` returns. -/
  | exchanged (r : Except RctError (List UInt8))
  /-- `sock.write_all` returns. -/
  | written (r : Except IoError Unit)

namespace Session

/-- The loop over the bytes of one read, as far as the next wait. -/
def forward : ReceiveFrame → List UInt8 → Session
  | rx, [] => .reading rx
  | rx, c :: rest =>
    match rx.consume [c] with
    | .error _ => .panicked
    | .ok (rx', .ok _) => if rx'.complete then .exchanging rx'.wireBytes rest else forward rx' rest
    -- desync within this chunk: re-sync on next start token
    | .ok (_, .error _) => forward (.new false) rest

/-- After a read. -/
def onRead (rx : ReceiveFrame) : Except IoError (List UInt8) → Session
  | .error _ => .closed
  | .ok [] => .closed
  | .ok chunk => forward rx chunk

/-- After an exchange; a failed one leaves the session open. -/
def onExchanged (rest : List UInt8) : Except RctError (List UInt8) → Session
  | .error _ => forward (.new false) rest
  | .ok resp =>
    match (ReceiveFrame.new false).consume resp with
    | .error _ => .panicked
    | .ok _ => .responding resp rest

/-- After a write. -/
def onWritten (rest : List UInt8) : Except IoError Unit → Session
  | .error _ => .closed
  | .ok () => forward (.new false) rest

/-- The end of a wait, if it is what the task waits for. -/
def step : Session → SessionEvent → Option Session
  | .reading rx, .read got => some (onRead rx got)
  | .exchanging _ rest, .exchanged r => some (onExchanged rest r)
  | .responding _ rest, .written r => some (onWritten rest r)
  | _, _ => none

/-- A task at its start. -/
def start : Session := .reading (.new false)

/-- The calls of `exchange` that a state is a wait for. -/
def called : Session → List (List UInt8)
  | .exchanging wire _ => [wire]
  | _ => []

/-- The responses that a state is a wait for the writing of. -/
def handed : Session → List (List UInt8)
  | .responding resp _ => [resp]
  | _ => []

/-- A task does not hand anything on while it reads. -/
theorem handed_forward (rx : ReceiveFrame) (bytes : List UInt8) : (forward rx bytes).handed = [] := by
  induction bytes generalizing rx with
  | nil => rfl
  | cons c rest ih =>
    unfold forward
    split
    · rfl
    · split
      · rfl
      · exact ih _
    · exact ih _

/-- A run of the task, with the requests it calls `exchange` with, in order. -/
def run : Session → List SessionEvent → Option (Session × List (List UInt8))
  | s, [] => some (s, [])
  | s, ev :: evs => (s.step ev).bind fun s' => (run s' evs).map fun out => (out.1, s'.called ++ out.2)

end Session

/-- The bytes an event brings from downstream. -/
def SessionEvent.bytes : SessionEvent → List UInt8
  | .read (.ok chunk) => chunk
  | _ => []

/-- The downstream client stays connected, and an exchange returns what one can return. -/
def SessionEvent.Benign : SessionEvent → Prop
  | .read got => ∃ c cs, got = .ok (c :: cs)
  | .exchanged r => Proxy.Returnable r
  | .written r => r = .ok ()

/-- Standard frames on the wire, each behind bytes of its own. -/
def traffic (pieces : List (List UInt8 × StdFrame)) (last : List UInt8) : List UInt8 :=
  pieces.flatMap (fun p => p.1 ++ p.2.bytes) ++ last

/-- The bytes around the frames have no start token. -/
def Quiet (pieces : List (List UInt8 × StdFrame)) (last : List UInt8) : Prop :=
  (∀ p ∈ pieces, START_TOKEN ∉ p.1) ∧ START_TOKEN ∉ last

/-! ### One read -/

section Forward

variable {rx rx' : ReceiveFrame} {c : UInt8}

theorem forward_next (hrx : rx.complete = false) (h : rx.step c = .next rx') (rest : List UInt8) :
    Session.forward rx (c :: rest) = Session.forward rx' rest := by
  have hconsume := ReceiveFrame.consume_pass (pass_cons_next ReceiveFrame.step h [])
  simp only [Session.forward, hconsume, (ReceiveFrame.complete_of_next h).trans hrx, Bool.false_eq_true, if_false]

theorem forward_complete (h : rx.step c = .ret rx' .ok) (hrx' : rx'.complete = true) (rest : List UInt8) :
    Session.forward rx (c :: rest) = .exchanging rx'.wireBytes rest := by
  have hconsume := ReceiveFrame.consume_stop (pass_nil ReceiveFrame.step rx) h []
  rw [List.nil_append] at hconsume
  simp only [Session.forward, hconsume, hrx', if_true]

end Forward

/-- What a task has taken or holds, with what is to come in `more`, is the traffic. -/
def Expects (s : Session) (more : List UInt8) (pieces : List (List UInt8 × StdFrame)) (last : List UInt8) : Prop :=
  match s with
  | .reading rx => ∃ taken, passed ReceiveFrame.step (.new false) taken = some rx ∧ taken ++ more = traffic pieces last
  | .exchanging _ rest | .responding _ rest => rest ++ more = traffic pieces last
  | .closed | .panicked => False

/-- **One read** takes the task on in the traffic: the frame it then calls `exchange` with, if
any, is the next. -/
theorem forward_expects {pieces : List (List UInt8 × StdFrame)} {last : List UInt8} (hquiet : Quiet pieces last)
    {rx : ReceiveFrame} {taken chunk more : List UInt8} (hpass : passed ReceiveFrame.step (.new false) taken = some rx)
    (heq : taken ++ chunk ++ more = traffic pieces last) :
    ∃ done left, pieces = done ++ left ∧ (Session.forward rx chunk).called = done.map (fun p => p.2.bytes) ∧
      Expects (Session.forward rx chunk) more left last := by
  induction chunk generalizing rx taken with
  | nil => exact ⟨[], pieces, rfl, rfl, taken, hpass, by simpa using heq⟩
  | cons c chunk ih =>
    have hrx := ReceiveFrame.complete_of_pass hpass
    have hgo : ∀ rx', rx.step c = .next rx' →
        ∃ done left, pieces = done ++ left ∧
          (Session.forward rx (c :: chunk)).called = done.map (fun p => p.2.bytes) ∧
          Expects (Session.forward rx (c :: chunk)) more left last := by
      intro rx' hnext
      rw [forward_next hrx hnext]
      exact ih (pass_concat_next _ hpass hnext) (by simpa using heq)
    cases pieces with
    | nil =>
      -- only bytes without a start token are left
      have hmem : START_TOKEN ∉ taken ++ [c] := by
        intro hmem
        apply hquiet.2
        rw [show last = traffic [] last from rfl, ← heq]
        rw [List.mem_append] at hmem
        rcases hmem with hmem | hmem
        · simp [hmem]
        · rw [List.mem_singleton] at hmem
          simp [hmem]
      obtain ⟨rx₁, h₁, h₂⟩ := pass_left _ (ReceiveFrame.pass_idle hmem false 0)
      rw [ReceiveFrame.idle_zero, hpass, Option.some.injEq] at h₁
      subst h₁
      cases hc : rx.step c with
      | next rx' => exact hgo rx' hc
      | ret => simp [passed, hc] at h₂
      | panics => simp [passed, hc] at h₂
    | cons p pieces =>
      obtain ⟨rx₁, hcomplete, -, hwire, -⟩ :=
        ReceiveFrame.completes_bytes p.2 (hquiet.1 p List.mem_cons_self)
      have hcut : taken ++ c :: (chunk ++ more) = (p.1 ++ p.2.bytes) ++ traffic pieces last := by
        simpa [traffic] using heq
      rcases hcomplete.step_cases hpass hcut with ⟨rx', hnext⟩ | ⟨hmore, hret⟩
      · exact hgo rx' hnext
      · rw [forward_complete hret (by obtain ⟨_, _, _, _, _, _, h⟩ := hcomplete; exact h), hwire]
        exact ⟨[p], pieces, rfl, rfl, hmore⟩

/-! ### A whole run -/

/-- A response that an exchange can return is parsed without a panic. -/
theorem consume_returnable {resp : List UInt8} (h : Proxy.Returnable (.ok resp)) :
    ∃ out, (ReceiveFrame.new false).consume resp = .ok out := by
  obtain ⟨bytes, rx, ⟨s, rest, -, hcomplete⟩, rfl⟩ := h resp rfl
  obtain ⟨rx', s₀, c, rx₀, hs, hpass, hstep, -⟩ := hcomplete.wireBytes
  rw [hs]
  exact ⟨_, ReceiveFrame.consume_stop hpass hstep []⟩

/-- One wait takes the task on in the traffic. -/
theorem step_expects {pieces : List (List UInt8 × StdFrame)} {last : List UInt8} (hquiet : Quiet pieces last)
    {s s' : Session} {ev : SessionEvent} {more : List UInt8} (hev : ev.Benign)
    (hs : Expects s (ev.bytes ++ more) pieces last) (hstep : s.step ev = some s') :
    ∃ done left, pieces = done ++ left ∧ s'.called = done.map (fun p => p.2.bytes) ∧ Expects s' more left last := by
  have hfresh : ∀ rest, rest ++ more = traffic pieces last →
      ∃ done left, pieces = done ++ left ∧
        (Session.forward (.new false) rest).called = done.map (fun p => p.2.bytes) ∧
        Expects (Session.forward (.new false) rest) more left last :=
    fun rest hrest => forward_expects hquiet (pass_nil ReceiveFrame.step _) (by simpa using hrest)
  cases s with
  | reading rx =>
    cases ev with
    | read got =>
      obtain ⟨c, cs, rfl⟩ := hev
      obtain ⟨taken, hpass, htraffic⟩ := hs
      obtain rfl : Session.forward rx (c :: cs) = s' := by simpa [Session.step, Session.onRead] using hstep
      exact forward_expects hquiet hpass (by simpa [SessionEvent.bytes] using htraffic)
    | exchanged r => cases hstep
    | written r => cases hstep
  | exchanging wire rest =>
    cases ev with
    | read got => cases hstep
    | exchanged r =>
      obtain rfl : Session.onExchanged rest r = s' := by simpa [Session.step] using hstep
      cases r with
      | error e => exact hfresh rest (by simpa [Expects, SessionEvent.bytes] using hs)
      | ok resp =>
        obtain ⟨out, hout⟩ := consume_returnable hev
        simp only [Session.onExchanged, hout]
        exact ⟨[], pieces, rfl, rfl, by simpa [Expects, SessionEvent.bytes] using hs⟩
    | written r => cases hstep
  | responding resp rest =>
    cases ev with
    | read got => cases hstep
    | exchanged r => cases hstep
    | written r =>
      obtain rfl : r = .ok () := hev
      obtain rfl : Session.forward (.new false) rest = s' := by simpa [Session.step, Session.onWritten] using hstep
      exact hfresh rest (by simpa [Expects, SessionEvent.bytes] using hs)
  | closed => exact hs.elim
  | panicked => exact hs.elim

/-- A whole run takes the task on in the traffic. -/
theorem run_expects {pieces : List (List UInt8 × StdFrame)} {last : List UInt8} (hquiet : Quiet pieces last)
    {s s' : Session} {evs : List SessionEvent} {calls : List (List UInt8)} (hevs : ∀ ev ∈ evs, ev.Benign)
    (hs : Expects s (evs.flatMap SessionEvent.bytes) pieces last) (hrun : s.run evs = some (s', calls)) :
    ∃ done left, pieces = done ++ left ∧ calls = done.map (fun p => p.2.bytes) ∧ Expects s' [] left last := by
  induction evs generalizing s pieces calls with
  | nil =>
    obtain ⟨rfl, rfl⟩ : s = s' ∧ [] = calls := by simpa [Session.run] using hrun
    exact ⟨[], pieces, rfl, rfl, hs⟩
  | cons ev evs ih =>
    obtain ⟨s₁, hstep, hrest⟩ := Option.bind_eq_some_iff.mp hrun
    obtain ⟨⟨s₂, calls'⟩, hrun', hout⟩ := Option.map_eq_some_iff.mp hrest
    obtain ⟨rfl, rfl⟩ : s₂ = s' ∧ s₁.called ++ calls' = calls := by simpa using hout
    obtain ⟨done, left, rfl, hcalled, hexpects⟩ := step_expects hquiet (hevs ev List.mem_cons_self) hs hstep
    have hquiet' : Quiet left last := ⟨fun p hp => hquiet.1 p (List.mem_append_right _ hp), hquiet.2⟩
    obtain ⟨done', left', rfl, rfl, hlast⟩ :=
      ih hquiet' (fun ev' h => hevs ev' (List.mem_cons_of_mem _ h)) hexpects hrun'
    exact ⟨done ++ done', left', by simp, by simp [hcalled], hlast⟩

/-- A task that waits for more has called `exchange` with all of the traffic. -/
theorem expects_reading {rx : ReceiveFrame} {pieces : List (List UInt8 × StdFrame)} {last : List UInt8}
    (hquiet : Quiet pieces last) (h : Expects (.reading rx) [] pieces last) : pieces = [] := by
  obtain ⟨taken, hpass, heq⟩ := h
  cases pieces with
  | nil => rfl
  | cons p pieces =>
    obtain ⟨rx', hcomplete, -⟩ := ReceiveFrame.completes_bytes p.2 (hquiet.1 p List.mem_cons_self)
    have hcut : taken = (p.1 ++ p.2.bytes) ++ traffic pieces last := by simpa [traffic] using heq
    rw [hcut] at hpass
    exact absurd hpass hcomplete.not_pass

/-! ### Every segmentation has its run -/

/-- The bytes of a read. -/
def SessionEvent.chunk? : SessionEvent → Option (List UInt8)
  | .read (.ok chunk) => some chunk
  | _ => none

/-- What an exchange returns. -/
def SessionEvent.result? : SessionEvent → Option (Except RctError (List UInt8))
  | .exchanged r => some r
  | _ => none

/-- How many waits there are before the next read. -/
def Session.weight : Session → ℕ
  | .exchanging .. => 2
  | .responding .. => 1
  | _ => 0

theorem weight_forward (rx : ReceiveFrame) (bytes : List UInt8) :
    (Session.forward rx bytes).weight = 2 * (Session.forward rx bytes).called.length := by
  induction bytes generalizing rx with
  | nil => rfl
  | cons c rest ih =>
    unfold Session.forward
    split
    · rfl
    · split
      · rfl
      · exact ih _
    · exact ih _

/-- There is a run from `s` that reads the chunks, has the exchanges return the results, and
ends with the task waiting for more. -/
def Finishes (s : Session) (chunks : List (List UInt8)) (results : List (Except RctError (List UInt8))) : Prop :=
  ∃ evs rx calls, (∀ ev ∈ evs, ev.Benign) ∧ evs.filterMap SessionEvent.chunk? = chunks ∧
    evs.filterMap SessionEvent.result? = results ∧ s.run evs = some (.reading rx, calls)

theorem Finishes.cons {s s' : Session} {ev : SessionEvent} (hev : ev.Benign) (hstep : s.step ev = some s')
    {chunks : List (List UInt8)} {results : List (Except RctError (List UInt8))} (h : Finishes s' chunks results) :
    Finishes s (ev.chunk?.toList ++ chunks) (ev.result?.toList ++ results) := by
  obtain ⟨evs, rx, calls, hevs, rfl, rfl, hrun⟩ := h
  refine ⟨ev :: evs, rx, s'.called ++ calls, ?_, ?_, ?_, ?_⟩
  · intro ev' hmem
    rcases List.mem_cons.mp hmem with rfl | hmem
    · exact hev
    · exact hevs ev' hmem
  · cases hc : ev.chunk? <;> simp [hc]
  · cases hr : ev.result? <;> simp [hr]
  · simp [Session.run, hstep, hrun]

/-- **Every segmentation has its run**, with any results of the exchanges: `expects s more k` says that
with `more` to come a task calls `exchange` another `k` times, and is what every wait keeps. -/
theorem finishes_of_expects (expects : Session → List UInt8 → ℕ → Prop)
    (hstep : ∀ {s s' : Session} {ev : SessionEvent} {more : List UInt8} {k : ℕ}, ev.Benign →
      expects s (ev.bytes ++ more) k → s.step ev = some s' → ∃ left, k = s'.called.length + left ∧ expects s' more left)
    (hend : ∀ {rx k}, expects (.reading rx) [] k → k = 0)
    (hopen : ∀ {s more k}, expects s more k → s ≠ .closed ∧ s ≠ .panicked) (n : ℕ) {s : Session}
    {chunks : List (List UInt8)} {results : List (Except RctError (List UInt8))} {k : ℕ} (hchunks : [] ∉ chunks)
    (hresults : ∀ r ∈ results, Proxy.Returnable r) (hlen : results.length = k + s.called.length)
    (hs : expects s chunks.flatten k) (hn : 3 * k + chunks.length + s.weight < n) : Finishes s chunks results := by
  induction n generalizing s chunks results k with
  | zero => omega
  | succ n ih =>
    -- one event, after which fewer frames, reads or waits are left
    have hnext : ∀ (ev : SessionEvent) {s' chunks' results'}, ev.Benign → s.step ev = some s' →
        chunks = ev.chunk?.toList ++ chunks' → results = ev.result?.toList ++ results' →
        expects s (ev.bytes ++ chunks'.flatten) k → results'.length = k →
        chunks'.length + s'.weight < chunks.length + s.weight + 3 * s'.called.length → Finishes s chunks results := by
      intro ev s' chunks' results' hev hafter hchunk hresult hexpect hcount hweight
      subst hchunk hresult
      obtain ⟨left, rfl, hleft⟩ := hstep hev hexpect hafter
      refine Finishes.cons hev hafter (ih ?_ ?_ (by omega) hleft (by omega))
      · exact fun h => hchunks (List.mem_append_right _ h)
      · exact fun r hr => hresults r (List.mem_append_right _ hr)
    cases s with
    | reading rx =>
      cases chunks with
      | nil =>
        obtain rfl := hend hs
        obtain rfl : results = [] := List.eq_nil_of_length_eq_zero hlen
        exact ⟨[], rx, [], by simp, rfl, rfl, rfl⟩
      | cons chunk chunks =>
        obtain ⟨c, cs, rfl⟩ : ∃ c cs, chunk = c :: cs :=
          List.exists_cons_of_ne_nil fun h => hchunks (h ▸ List.mem_cons_self)
        have hweight := weight_forward rx (c :: cs)
        refine hnext (.read (.ok (c :: cs))) ⟨c, cs, rfl⟩ rfl rfl rfl hs hlen ?_
        simp only [Session.onRead, List.length_cons]
        omega
    | exchanging wire rest =>
      obtain ⟨r, results, rfl⟩ : ∃ r rs, results = r :: rs :=
        List.exists_cons_of_length_eq_add_one hlen
      have hr := hresults r List.mem_cons_self
      refine hnext (.exchanged r) hr rfl rfl rfl hs (Nat.succ_injective hlen) ?_
      cases r with
      | error e =>
        have hweight := weight_forward (.new false) rest
        simp only [Session.onExchanged, Session.weight] at hweight ⊢
        omega
      | ok resp =>
        obtain ⟨out, hout⟩ := consume_returnable hr
        simp only [Session.onExchanged, hout, Session.weight]
        omega
    | responding resp rest =>
      have hweight := weight_forward (.new false) rest
      refine hnext (.written (.ok ())) rfl rfl rfl rfl hs hlen ?_
      simp only [Session.onWritten, Session.weight] at hweight ⊢
      omega
    | closed => exact absurd rfl (hopen hs).1
    | panicked => exact absurd rfl (hopen hs).2

/-- Every segmentation of the traffic, with any results of the exchanges, has its run. -/
theorem exists_run {pieces : List (List UInt8 × StdFrame)} {last : List UInt8} (hquiet : Quiet pieces last)
    {chunks : List (List UInt8)} {results : List (Except RctError (List UInt8))} (hchunks : [] ∉ chunks)
    (hresults : ∀ r ∈ results, Proxy.Returnable r) (hlen : results.length = pieces.length)
    (hs : Expects .start chunks.flatten pieces last) : Finishes .start chunks results := by
  refine finishes_of_expects (fun s more k => ∃ left, Quiet left last ∧ left.length = k ∧ Expects s more left last)
    ?_ ?_ ?_ _ hchunks hresults hlen ⟨pieces, hquiet, rfl, hs⟩ (Nat.lt_succ_self _)
  · rintro s s' ev more k hev ⟨left, hquiet, rfl, hs⟩ hstep
    obtain ⟨done, left, rfl, hcalled, hexpects⟩ := step_expects hquiet hev hs hstep
    have hquiet' : Quiet left last := ⟨fun p hp => hquiet.1 p (List.mem_append_right _ hp), hquiet.2⟩
    refine ⟨left.length, ?_, left, hquiet', rfl, hexpects⟩
    rw [hcalled, List.length_map, List.length_append]
  · rintro rx k ⟨left, hquiet, rfl, hs⟩
    rw [expects_reading hquiet hs, List.length_nil]
  · rintro s more k ⟨left, -, -, hs⟩
    constructor
    · rintro rfl
      exact hs
    · rintro rfl
      exact hs

/-- **The proxy forwards requests exactly.** A task is fed standard frames, with bytes without
start tokens around them, in reads of any size. It calls `exchange` with a first part of the
frames, in order and byte for byte, and with all of them by the time it waits for more;
whatever the exchanges return, it does not return or panic. And there is such a run to its end
for every way of cutting the bytes and all results of the exchanges. -/
theorem serves_frames {pieces : List (List UInt8 × StdFrame)} {last : List UInt8} (hquiet : Quiet pieces last) :
    (∀ evs s calls, (∀ ev ∈ evs, SessionEvent.Benign ev) → evs.flatMap SessionEvent.bytes = traffic pieces last →
      Session.start.run evs = some (s, calls) →
      calls <+: pieces.map (fun p => p.2.bytes) ∧ s ≠ .closed ∧ s ≠ .panicked ∧
        ∀ rx, s = .reading rx → calls = pieces.map (fun p => p.2.bytes)) ∧
    ∀ chunks results, [] ∉ chunks → chunks.flatten = traffic pieces last →
      (∀ r ∈ results, Proxy.Returnable r) → results.length = pieces.length → Finishes .start chunks results := by
  have hstart : ∀ bytes, bytes = traffic pieces last → Expects .start bytes pieces last :=
    fun bytes hbytes => ⟨[], rfl, hbytes⟩
  refine ⟨?_, ?_⟩
  · intro evs s calls hevs hbytes hrun
    obtain ⟨done, left, rfl, rfl, hlast⟩ := run_expects hquiet hevs (hstart _ hbytes) hrun
    refine ⟨by simp, ?_, ?_, ?_⟩
    · rintro rfl
      exact hlast
    · rintro rfl
      exact hlast
    · rintro rx rfl
      have hquiet' : Quiet left last := ⟨fun p hp => hquiet.1 p (List.mem_append_right _ hp), hquiet.2⟩
      obtain rfl := expects_reading hquiet' hlast
      simp
  · intro chunks results hchunks hbytes hresults hlen
    exact exists_run hquiet hchunks hresults hlen (hstart _ hbytes)

/-- A read whose id holds both tokens, behind an escape token; the exchange fails. -/
theorem serves_frames_tokens :
    let f : StdFrame := ⟨.read, 0x2d002b00, [], by decide, by decide, by decide⟩
    (∃ rx calls, Session.start.run [.read (.ok (0x2d :: f.bytes)), .exchanged (.error .timeout)] =
        some (.reading rx, calls) ∧ calls = [f.bytes]) ∧
      Finishes .start [[0x2d, 0x2b, 0x01], f.bytes.drop 2] [.error .timeout] := by
  intro f
  have hquiet : Quiet [([0x2d], f)] [] := ⟨by decide, List.not_mem_nil⟩
  have hreturn : Proxy.Returnable (.error .timeout) := fun resp h => by cases h
  have hrun : Session.start.run [.read (.ok (0x2d :: f.bytes)), .exchanged (.error .timeout)] =
      some (.reading (.new false), [f.bytes]) := by decide +kernel
  have h := serves_frames hquiet
  refine ⟨⟨_, _, hrun, ?_⟩, ?_⟩
  · refine (h.1 _ _ _ ?_ (by simp [SessionEvent.bytes, traffic]) hrun).2.2.2 _ rfl
    rintro ev hmem
    rw [List.mem_cons, List.mem_singleton] at hmem
    rcases hmem with rfl | rfl
    · exact ⟨_, _, rfl⟩
    · exact hreturn
  · refine h.2 _ _ (by decide +kernel) (by decide +kernel) ?_ rfl
    intro r hmem
    rw [List.mem_singleton] at hmem
    exact hmem ▸ hreturn

end RctPower
