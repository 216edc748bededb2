import RctPower.Protocol.Reachable
import RctPower.Transport.Feeding

/-!
# Re-synchronising the downstream parser

What a task of the proxy forwards is a function of the bytes it is fed (`requests`), whatever the
reads they come in (`run_total`), and of the parser state it starts from.

After an error of the parser the task goes on with a fresh one, from the byte after the one that
made the error. That byte is lost, and it can be the start token of a frame: a parser that holds
nothing but a start token takes the next start token for a command byte. `forwardsExactly_iff` says
that among the noise that leaves the parser at a frame start or with a start token, this is what
costs a frame.
-/

namespace RctPower

open RctPower.Lib.Rust RctPower.Lib.EarlyExit RctPower.Lib.Stuffing ReceiveFrame

/-- The frames that a task forwards of some bytes, and the parser it is left with, unless it
panics. -/
def requests : ReceiveFrame → List UInt8 → Option (List (List UInt8) × ReceiveFrame)
  | rx, [] => some ([], rx)
  | rx, c :: rest =>
    match rx.consume [c] with
    | .error _ => none
    | .ok (rx', .ok _) =>
      if rx'.complete then (requests (.new false) rest).map fun out => (rx'.wireBytes :: out.1, out.2)
      else requests rx' rest
    | .ok (_, .error _) => requests (.new false) rest

/-- The frames that are still to be forwarded of what a task holds and of `more`. -/
def Session.total : Session → List UInt8 → Option (List (List UInt8) × ReceiveFrame)
  | .reading rx, more => requests rx more
  | .exchanging _ rest, more => requests (.new false) (rest ++ more)
  | .responding _ rest, more => requests (.new false) (rest ++ more)
  | .closed, _ => none
  | .panicked, _ => none

/-- Frames in front of those of a result. -/
def prepend (frames : List (List UInt8)) (out : List (List UInt8) × ReceiveFrame) :
    List (List UInt8) × ReceiveFrame := (frames ++ out.1, out.2)

@[simp] theorem map_prepend_nil (o : Option (List (List UInt8) × ReceiveFrame)) : o.map (prepend []) = o := by
  cases o <;> rfl

theorem prepend_append (a b : List (List UInt8)) (out : List (List UInt8) × ReceiveFrame) :
    prepend (a ++ b) out = prepend a (prepend b out) := by
  rw [prepend, prepend, prepend, List.append_assoc]

/-! ### Bytes -/

section Requests

variable {rx rx' t : ReceiveFrame} {c : UInt8}

theorem requests_next (hrx : rx.complete = false) (h : rx.step c = .next rx') (rest : List UInt8) :
    requests rx (c :: rest) = requests rx' rest := by
  have hconsume := consume_pass (pass_cons_next step h [])
  simp only [requests, hconsume, (complete_of_next h).trans hrx, Bool.false_eq_true, if_false]

theorem requests_complete (h : rx.step c = .ret t .ok) (ht : t.complete = true) (rest : List UInt8) :
    requests rx (c :: rest) = (requests (.new false) rest).map (prepend [t.wireBytes]) := by
  have hconsume := consume_stop (pass_nil step rx) h []
  rw [List.nil_append] at hconsume
  simp only [requests, hconsume, ht, if_true]
  rfl

theorem requests_error {e : ℕ → RctError} (h : rx.step c = .ret t fun i => .error (e i)) (rest : List UInt8) :
    requests rx (c :: rest) = requests (.new false) rest := by
  have hconsume := consume_stop (pass_nil step rx) h []
  rw [List.nil_append] at hconsume
  simp only [requests, hconsume]

theorem requests_panics {p : Panic} (h : rx.step c = .panics p) (rest : List UInt8) :
    requests rx (c :: rest) = none := by
  have hconsume := consume_panics (pass_nil step rx) h []
  rw [List.nil_append] at hconsume
  simp only [requests, hconsume]

/-- **What one byte does** to a task, in each of the four cases. -/
theorem byte_cases (rx : ReceiveFrame) (c : UInt8) :
    (∃ rx', rx.step c = .next rx') ∨ (∃ t, rx.step c = .ret t .ok ∧ t.complete = true) ∨
      (∃ t, ∃ e : ℕ → RctError, rx.step c = .ret t fun i => .error (e i)) ∨ ∃ p, rx.step c = .panics p := by
  cases h : rx.step c with
  | next rx' => exact .inl ⟨rx', rfl⟩
  | ret t r =>
    rcases step_ret h with ⟨rfl, ht⟩ | herr
    · exact .inr (.inl ⟨t, rfl, ht⟩)
    · choose e he using herr
      obtain rfl : r = fun i => .error (e i) := funext he
      exact .inr (.inr (.inl ⟨t, e, rfl⟩))
  | panics p => exact .inr (.inr (.inr ⟨p, rfl⟩))

/-- Bytes that are passed are not forwarded yet. -/
theorem requests_append_of_pass (hrx : rx.complete = false) {a : List UInt8} (h : passed step rx a = some rx')
    (b : List UInt8) : requests rx (a ++ b) = requests rx' b := by
  induction a generalizing rx with
  | nil =>
    obtain rfl : rx = rx' := by simpa using h
    rfl
  | cons c a ih =>
    cases hc : rx.step c with
    | next rx₁ =>
      rw [pass_cons_next step hc] at h
      rw [List.cons_append, requests_next hrx hc]
      exact ih ((complete_of_next hc).trans hrx) h
    | ret => simp [passed, hc] at h
    | panics => simp [passed, hc] at h

/-- What is forwarded of a stream is forwarded of its pieces. -/
theorem requests_append (hrx : rx.complete = false) {a : List UInt8} {frames : List (List UInt8)}
    (h : requests rx a = some (frames, rx')) (b : List UInt8) :
    rx'.complete = false ∧ requests rx (a ++ b) = (requests rx' b).map (prepend frames) := by
  induction a generalizing rx frames with
  | nil =>
    obtain ⟨rfl, rfl⟩ : [] = frames ∧ rx = rx' := by simpa [requests] using h
    exact ⟨hrx, by simp⟩
  | cons c a ih =>
    rw [List.cons_append]
    rcases byte_cases rx c with ⟨t, hc⟩ | ⟨t, hc, ht⟩ | ⟨t, e, hc⟩ | ⟨p, hc⟩
    · rw [requests_next hrx hc] at h ⊢
      exact ih ((complete_of_next hc).trans hrx) h
    · rw [requests_complete hc ht] at h ⊢
      obtain ⟨⟨later, rx₁⟩, hlater, hout⟩ := Option.map_eq_some_iff.mp h
      obtain ⟨rfl, rfl⟩ : t.wireBytes :: later = frames ∧ rx₁ = rx' := by simpa [prepend] using hout
      obtain ⟨hrx', happend⟩ := ih rfl hlater
      rw [happend, Option.map_map]
      exact ⟨hrx', rfl⟩
    · rw [requests_error hc] at h ⊢
      exact ih rfl h
    · rw [requests_panics hc] at h
      cases h

end Requests

/-! ### Runs -/

/-- The loop over one read forwards the first of the requests, and holds the rest. -/
theorem total_forward {rx : ReceiveFrame} (hrx : rx.complete = false) (bytes more : List UInt8) :
    requests rx (bytes ++ more) =
      ((Session.forward rx bytes).total more).map (prepend (Session.forward rx bytes).called) := by
  induction bytes generalizing rx with
  | nil => simp [Session.forward, Session.total, Session.called]
  | cons c bytes ih =>
    rw [List.cons_append]
    rcases byte_cases rx c with ⟨t, hc⟩ | ⟨t, hc, ht⟩ | ⟨t, e, hc⟩ | ⟨p, hc⟩
    · rw [requests_next hrx hc, forward_next hrx hc]
      exact ih ((complete_of_next hc).trans hrx)
    · rw [requests_complete hc ht, forward_complete hc ht]
      rfl
    · rw [requests_error hc, forward_error hc]
      exact ih rfl
    · rw [requests_panics hc, forward_panics hc]
      rfl

/-- The parser of a task that reads is not complete. -/
def Session.Receiving : Session → Prop
  | .reading rx => rx.complete = false
  | _ => True

theorem receiving_forward {rx : ReceiveFrame} (hrx : rx.complete = false) (bytes : List UInt8) :
    (Session.forward rx bytes).Receiving := by
  induction bytes generalizing rx with
  | nil => exact hrx
  | cons c bytes ih =>
    rcases byte_cases rx c with ⟨t, hc⟩ | ⟨t, hc, ht⟩ | ⟨t, e, hc⟩ | ⟨p, hc⟩
    · rw [forward_next hrx hc]
      exact ih ((complete_of_next hc).trans hrx)
    · rw [forward_complete hc ht]
      trivial
    · rw [forward_error hc]
      exact ih rfl
    · rw [forward_panics hc]
      trivial

/-- **One wait** forwards the first of the requests, and leaves the others. -/
theorem step_total {s s' : Session} {ev : SessionEvent} (hs : s.Receiving) (hev : ev.Benign)
    (h : s.step ev = some s') (more : List UInt8) :
    s'.Receiving ∧ s.total (ev.bytes ++ more) = (s'.total more).map (prepend s'.called) := by
  cases s with
  | reading rx =>
    cases ev with
    | read got =>
      obtain ⟨c, cs, rfl⟩ := hev
      obtain rfl : Session.forward rx (c :: cs) = s' := by simpa [Session.step, Session.onRead] using h
      exact ⟨receiving_forward hs _, total_forward hs _ _⟩
    | exchanged r => cases h
    | written r => cases h
  | exchanging wire rest =>
    cases ev with
    | read got => cases h
    | exchanged r =>
      obtain rfl : Session.onExchanged rest r = s' := by simpa [Session.step] using h
      cases r with
      | error e => exact ⟨receiving_forward rfl _, total_forward rfl _ _⟩
      | ok resp =>
        obtain ⟨out, hout⟩ := consume_returnable hev
        simp only [Session.onExchanged, hout]
        exact ⟨trivial, by simp [Session.total, Session.called, SessionEvent.bytes]⟩
    | written r => cases h
  | responding resp rest =>
    cases ev with
    | read got => cases h
    | exchanged r => cases h
    | written r =>
      obtain rfl : r = .ok () := hev
      obtain rfl : Session.forward (.new false) rest = s' := by simpa [Session.step, Session.onWritten] using h
      exact ⟨receiving_forward rfl _, total_forward rfl _ _⟩
  | closed => cases h
  | panicked => cases h

/-- **A run** forwards a first part of the requests, and leaves the others. -/
theorem run_total {s s' : Session} {evs : List SessionEvent} {calls : List (List UInt8)} (hs : s.Receiving)
    (hevs : ∀ ev ∈ evs, ev.Benign) (h : s.run evs = some (s', calls)) :
    s.total (evs.flatMap SessionEvent.bytes) = (s'.total []).map (prepend calls) := by
  induction evs generalizing s calls with
  | nil =>
    obtain ⟨rfl, rfl⟩ : s = s' ∧ [] = calls := by simpa [Session.run] using h
    simp
  | cons ev evs ih =>
    obtain ⟨s₁, hstep, hrest⟩ := Option.bind_eq_some_iff.mp h
    obtain ⟨⟨s₂, calls'⟩, hrun, hout⟩ := Option.map_eq_some_iff.mp hrest
    obtain ⟨rfl, rfl⟩ : s₂ = s' ∧ s₁.called ++ calls' = calls := by simpa using hout
    obtain ⟨hs₁, htotal⟩ := step_total hs (hevs ev List.mem_cons_self) hstep (evs.flatMap SessionEvent.bytes)
    rw [List.flatMap_cons, htotal, ih hs₁ (fun ev' hmem => hevs ev' (List.mem_cons_of_mem _ hmem)) hrun, Option.map_map]
    congr 1
    exact funext fun out => (prepend_append _ _ _).symm

/-- A run that ends with the task waiting for more has forwarded all of the requests. -/
theorem run_reading {evs : List SessionEvent} {rx : ReceiveFrame} {calls : List (List UInt8)}
    (hevs : ∀ ev ∈ evs, ev.Benign) (h : Session.start.run evs = some (.reading rx, calls)) :
    requests (.new false) (evs.flatMap SessionEvent.bytes) = some (calls, rx) := by
  have htotal := run_total (s := .start) rfl hevs h
  rwa [Session.total, requests, Option.map_some, prepend, List.append_nil] at htotal

/-- Every segmentation of a stream that does not make the task panic has its run, with any results
of the exchanges. -/
theorem finishes_of_requests {chunks frames : List (List UInt8)} {rx : ReceiveFrame}
    {results : List (Except RctError (List UInt8))} (hchunks : [] ∉ chunks)
    (hresults : ∀ r ∈ results, Proxy.Returnable r) (h : requests (.new false) chunks.flatten = some (frames, rx))
    (hlen : results.length = frames.length) : Finishes .start chunks results := by
  refine finishes_of_expects
    (fun s more k => s.Receiving ∧ ∃ frames rx, s.total more = some (frames, rx) ∧ frames.length = k) ?_ ?_ ?_ _ hchunks
    hresults hlen ⟨rfl, frames, rx, h, rfl⟩ (Nat.lt_succ_self _)
  · rintro s s' ev more k hev ⟨hs, frames, rx, htotal, rfl⟩ hstep
    obtain ⟨hs', hleft⟩ := step_total hs hev hstep more
    rw [htotal] at hleft
    obtain ⟨⟨frames', rx'⟩, htotal', hout⟩ := Option.map_eq_some_iff.mp hleft.symm
    obtain ⟨rfl, rfl⟩ : s'.called ++ frames' = frames ∧ rx' = rx := by simpa [prepend] using hout
    exact ⟨frames'.length, List.length_append, hs', frames', rx', htotal', rfl⟩
  · rintro rx k ⟨-, frames, rx', htotal, rfl⟩
    obtain ⟨rfl, -⟩ : [] = frames ∧ rx = rx' := by simpa [Session.total, requests] using htotal
    rfl
  · rintro s more k ⟨-, frames, rx, htotal, -⟩
    constructor
    · rintro rfl
      cases htotal
    · rintro rfl
      cases htotal

/-! ### The parser after noise -/

/-- The parser that a task is left with has passed some last part of the bytes. -/
theorem exists_pass_of_requests {bytes taken : List UInt8} {rx rx' : ReceiveFrame} {frames : List (List UInt8)}
    (hpass : passed step (.new false) taken = some rx) (h : requests rx bytes = some (frames, rx')) :
    ∃ taken', passed step (.new false) taken' = some rx' := by
  induction bytes generalizing rx taken frames with
  | nil =>
    obtain ⟨-, rfl⟩ : [] = frames ∧ rx = rx' := by simpa [requests] using h
    exact ⟨taken, hpass⟩
  | cons c bytes ih =>
    have hrx := complete_of_pass hpass
    rcases byte_cases rx c with ⟨t, hc⟩ | ⟨t, hc, ht⟩ | ⟨t, e, hc⟩ | ⟨p, hc⟩
    · rw [requests_next hrx hc] at h
      exact ih (pass_concat_next step hpass hc) h
    · rw [requests_complete hc ht] at h
      obtain ⟨⟨later, rx₁⟩, hlater, hout⟩ := Option.map_eq_some_iff.mp h
      obtain ⟨-, rfl⟩ : t.wireBytes :: later = frames ∧ rx₁ = rx' := by simpa [prepend] using hout
      exact ih (pass_nil step _) hlater
    · rw [requests_error hc] at h
      exact ih (pass_nil step _) h
    · rw [requests_panics hc] at h
      cases h

/-- What is forwarded is not longer than what the task was fed. -/
theorem length_le_of_requests {bytes taken : List UInt8} {rx rx' : ReceiveFrame} {frames : List (List UInt8)}
    (hpass : passed step (.new false) taken = some rx) (h : requests rx bytes = some (frames, rx')) :
    ∀ frame ∈ frames, frame.length ≤ taken.length + bytes.length := by
  induction bytes generalizing rx taken frames with
  | nil =>
    obtain ⟨rfl, -⟩ : [] = frames ∧ rx = rx' := by simpa [requests] using h
    simp
  | cons c bytes ih =>
    have hrx := complete_of_pass hpass
    rcases byte_cases rx c with ⟨t, hc⟩ | ⟨t, hc, ht⟩ | ⟨t, e, hc⟩ | ⟨p, hc⟩
    · rw [requests_next hrx hc] at h
      intro frame hframe
      have := ih (pass_concat_next step hpass hc) h frame hframe
      simp only [List.length_append, List.length_cons, List.length_nil] at this ⊢
      omega
    · rw [requests_complete hc ht] at h
      obtain ⟨⟨later, rx₁⟩, hlater, hout⟩ := Option.map_eq_some_iff.mp h
      obtain ⟨rfl, rfl⟩ : t.wireBytes :: later = frames ∧ rx₁ = rx' := by simpa [prepend] using hout
      have hcompletes : Completes (taken ++ [c]) t := ⟨taken, c, rx, rfl, hpass, hc, ht⟩
      obtain ⟨g, w, v, hs, -, -, -, rfl⟩ := hcompletes.exists_body
      have hlen := congrArg List.length hs
      intro frame hframe
      rcases List.mem_cons.mp hframe with rfl | hframe
      · simp only [wireBytes, completed, reading, List.length_append, List.length_cons, List.length_nil] at hlen ⊢
        omega
      · have := ih (pass_nil step _) hlater frame hframe
        simp only [List.length_cons, List.length_nil] at this ⊢
        omega
    · rw [requests_error hc] at h
      intro frame hframe
      have := ih (pass_nil step _) h frame hframe
      simp only [List.length_cons, List.length_nil] at this ⊢
      omega
    · rw [requests_panics hc] at h
      cases h

/-- What completes a frame is forwarded. -/
theorem requests_of_completes {taken more : List UInt8} {rx rx' : ReceiveFrame} (hne : more ≠ [])
    (hpass : passed step (.new false) taken = some rx) (h : Completes (taken ++ more) rx') :
    requests rx more = some ([rx'.wireBytes], .new false) := by
  obtain ⟨s₀, c, rx₀, heq, hpass₀, hret, hcomplete⟩ := h
  obtain ⟨a, d, rfl⟩ := (List.eq_nil_or_concat' more).resolve_left hne
  rw [← List.append_assoc] at heq
  obtain ⟨rfl, hd⟩ := List.append_inj' heq rfl
  obtain rfl : d = c := by simpa using hd
  rw [pass_append_of step hpass] at hpass₀
  rw [requests_append_of_pass (complete_of_pass hpass) hpass₀, requests_complete hret hcomplete]
  rfl

/-- A parser at a frame start has passed bytes without a start token. -/
theorem skipped_of_noBytes {taken : List UInt8} {rx : ReceiveFrame} (hpass : passed step (.new false) taken = some rx)
    (hrx : rx.noBytes = true) : START_TOKEN ∉ taken := by
  have hshape : Shape false ([] ++ taken) rx := (@Shape.idle false [] List.not_mem_nil).pass hpass
  rw [List.nil_append] at hshape
  cases hshape with
  | idle hg => exact hg
  | reading hg hopen => cases hrx
  | finished hg hv hcrc => cases hrx

/-- A parser that holds nothing but a start token takes another one for a command byte. -/
theorem step_second_start {taken : List UInt8} {rx : ReceiveFrame} (hpass : passed step (.new false) taken = some rx)
    (hbuffer : rx.buffer = [START_TOKEN]) :
    ∃ t, rx.step START_TOKEN = .ret t fun i => .error (.invalidCommand START_TOKEN i) := by
  have hbad : ¬ AcceptedCommand START_TOKEN := by
    rintro ⟨cmd, hcmd, -⟩
    rw [show Command.fromByte START_TOKEN = none by decide] at hcmd
    cases hcmd
  have hshape : Shape false ([] ++ taken) rx := (@Shape.idle false [] List.not_mem_nil).pass hpass
  cases hshape with
  | idle hg => cases hbuffer
  | @reading g t hg hopen =>
    have hbody : (unstuff ESCAPE_TOKEN false t).1 = [] := by simpa [ReceiveFrame.reading] using hbuffer
    rw [hbody, step_reading_literal (.inr (by decide))]
    exact push_badCommand hbad false _ _
  | @finished g t hg hv hcrc =>
    have hbody : (unstuff ESCAPE_TOKEN false t).1 = [] := by
      simpa [ReceiveFrame.finished, completed, ReceiveFrame.reading] using hbuffer
    exact absurd hbody hv.lengths.1

/-! ### Noise in front of a frame -/

/-- A standard frame on the wire, escaped one way or another. -/
def StandardWire (frame : List UInt8) : Prop :=
  ∃ (f : StdFrame) (t : List UInt8), frame = START_TOKEN :: t ∧ unstuff ESCAPE_TOKEN false t = (f.body, false)

/-- A task, fed the bytes in reads of any size, forwards exactly the frame: no run of it forwards
anything else, fails or panics, and every segmentation has its run to the end. -/
def ForwardsExactly (bytes frame : List UInt8) : Prop :=
  (∀ evs s calls, (∀ ev ∈ evs, SessionEvent.Benign ev) → evs.flatMap SessionEvent.bytes = bytes →
    Session.start.run evs = some (s, calls) →
    calls <+: [frame] ∧ s ≠ .closed ∧ s ≠ .panicked ∧ ∀ rx, s = .reading rx → calls = [frame]) ∧
  ∀ chunks result, [] ∉ chunks → chunks.flatten = bytes → Proxy.Returnable result → Finishes .start chunks [result]

/-- A task, fed the bytes, forwards nothing and is left with the parser `rx`. -/
def LeavesSilently (bytes : List UInt8) (rx : ReceiveFrame) : Prop :=
  ∃ evs, (∀ ev ∈ evs, SessionEvent.Benign ev) ∧ evs.flatMap SessionEvent.bytes = bytes ∧
    Session.start.run evs = some (.reading rx, [])

theorem forwardsExactly_of_requests {bytes frame : List UInt8} {rx : ReceiveFrame}
    (h : requests (.new false) bytes = some ([frame], rx)) : ForwardsExactly bytes frame := by
  refine ⟨?_, ?_⟩
  · rintro evs s calls hevs rfl hrun
    have htotal := run_total (s := .start) rfl hevs hrun
    obtain ⟨⟨left, rx'⟩, hleft, hout⟩ := Option.map_eq_some_iff.mp (htotal.symm.trans h)
    obtain ⟨hcalls, -⟩ : calls ++ left = [frame] ∧ rx' = rx := by simpa [prepend] using hout
    refine ⟨⟨left, hcalls⟩, ?_, ?_, ?_⟩
    · rintro rfl
      cases hleft
    · rintro rfl
      cases hleft
    · rintro rx₁ rfl
      obtain ⟨rfl, -⟩ : [] = left ∧ rx₁ = rx' := by simpa [Session.total, requests] using hleft
      rwa [List.append_nil] at hcalls
  · rintro chunks result hchunks rfl hresult
    refine finishes_of_requests hchunks (fun r hr => ?_) h rfl
    rw [List.mem_singleton] at hr
    exact hr ▸ hresult

theorem flatMap_bytes (evs : List SessionEvent) :
    evs.flatMap SessionEvent.bytes = (evs.filterMap SessionEvent.chunk?).flatten := by
  induction evs with
  | nil => rfl
  | cons ev evs ih =>
    rw [List.flatMap_cons, ih]
    rcases ev with (e | chunk) | r | r <;> rfl

/-- A task that forwards exactly the frame has it among its requests. -/
theorem ForwardsExactly.requests_eq {bytes frame : List UInt8} (h : ForwardsExactly bytes frame) (hne : bytes ≠ []) :
    ∃ rx, requests (.new false) bytes = some ([frame], rx) := by
  have hresult : Proxy.Returnable (.error .timeout) := fun resp hr => by cases hr
  obtain ⟨evs, rx, calls, hevs, hchunks, -, hrun⟩ :=
    h.2 [bytes] (.error .timeout) (by simpa using hne.symm) (by simp) hresult
  have hbytes : evs.flatMap SessionEvent.bytes = bytes := by rw [flatMap_bytes, hchunks]; simp
  have hcalls := (h.1 evs _ calls hevs hbytes hrun).2.2.2 rx rfl
  have := run_reading hevs hrun
  rw [hbytes, hcalls] at this
  exact ⟨rx, this⟩

/-- **Noise does not cost a frame exactly when it leaves the parser at a frame start**: if it leaves
it with a start token, the frame's own start token is lost. -/
theorem forwardsExactly_iff {g frame : List UInt8} {rx : ReceiveFrame} (hleft : LeavesSilently g rx)
    (hends : rx.noBytes = true ∨ (rx.buffer = [START_TOKEN] ∧ rx.escaping = false)) (hframe : StandardWire frame) :
    ForwardsExactly (g ++ frame) frame ↔ rx.noBytes = true := by
  obtain ⟨evs, hevs, rfl, hrun⟩ := hleft
  obtain ⟨f, t, rfl, ht⟩ := hframe
  have hnoise := run_reading hevs hrun
  obtain ⟨taken, hpass⟩ := exists_pass_of_requests (pass_nil step _) hnoise
  obtain ⟨-, happend⟩ := requests_append (by rfl) hnoise (START_TOKEN :: t)
  rw [map_prepend_nil] at happend
  constructor
  · intro h
    refine hends.resolve_right ?_
    rintro ⟨hbuffer, -⟩
    -- the frame's start token is lost in the error, and what is left of it is too short
    obtain ⟨rx₁, hstep⟩ := step_second_start hpass hbuffer
    obtain ⟨rx₂, hrequests⟩ := h.requests_eq (by simp)
    rw [happend, requests_error hstep] at hrequests
    have := length_le_of_requests (pass_nil step _) hrequests _ List.mem_cons_self
    simp at this
  · intro hstart
    obtain ⟨rx₁, hcompletes, -, hwire, -⟩ := completes_standard f ht (skipped_of_noBytes hpass hstart)
    rw [requests_of_completes (by simp) hpass hcompletes, hwire] at happend
    exact forwardsExactly_of_requests happend

/-- The read of an object, on the wire. -/
theorem standardWire_read : StandardWire [0x2b, 0x01, 0x04, 0x00, 0x00, 0x00, 0x09, 0x53, 0x9f] :=
  ⟨⟨.read, 0x09, [], by decide, by decide, fun _ => rfl⟩, _, rfl, by decide +kernel⟩

/-- A wrong command byte in front of a frame does not cost it. -/
theorem forwardsExactly_badCommand :
    ForwardsExactly ([0x2b, 0xff] ++ [0x2b, 0x01, 0x04, 0x00, 0x00, 0x00, 0x09, 0x53, 0x9f])
      [0x2b, 0x01, 0x04, 0x00, 0x00, 0x00, 0x09, 0x53, 0x9f] := by
  have hleft : LeavesSilently [0x2b, 0xff] (.new false) := by
    refine ⟨[.read (.ok [0x2b, 0xff])], ?_, rfl, by decide +kernel⟩
    intro ev hmem
    rw [List.mem_singleton] at hmem
    rw [hmem]
    exact ⟨_, _, rfl⟩
  exact (forwardsExactly_iff hleft (.inl rfl) standardWire_read).mpr rfl

/-- A start token in front of a frame does: the frame is not forwarded, and the task waits for more. -/
theorem stray_start_costs_frame :
    LeavesSilently [0x2b] (reading false 1 [0x2b] false []) ∧
      Session.start.run [.read (.ok ([0x2b] ++ [0x2b, 0x01, 0x04, 0x00, 0x00, 0x00, 0x09, 0x53, 0x9f]))] =
        some (.reading (idle false 8), []) ∧
      ¬ ForwardsExactly ([0x2b] ++ [0x2b, 0x01, 0x04, 0x00, 0x00, 0x00, 0x09, 0x53, 0x9f])
        [0x2b, 0x01, 0x04, 0x00, 0x00, 0x00, 0x09, 0x53, 0x9f] := by
  have hrun : Session.start.run [.read (.ok ([0x2b] ++ [0x2b, 0x01, 0x04, 0x00, 0x00, 0x00, 0x09, 0x53, 0x9f]))] =
      some (.reading (idle false 8), []) := by decide +kernel
  refine ⟨⟨[.read (.ok [0x2b])], ?_, rfl, by decide +kernel⟩, hrun, fun h => ?_⟩
  · intro ev hmem
    rw [List.mem_singleton] at hmem
    rw [hmem]
    exact ⟨_, _, rfl⟩
  · obtain ⟨rx, hrx⟩ := h.requests_eq (by simp)
    have hnone : (requests (.new false) ([0x2b] ++ [0x2b, 0x01, 0x04, 0x00, 0x00, 0x00, 0x09, 0x53, 0x9f])).map
        Prod.fst = some [] := by decide +kernel
    rw [hrx] at hnone
    cases hnone

end RctPower
