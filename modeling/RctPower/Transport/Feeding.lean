import RctPower.Protocol.Chunking
import RctPower.Transport.Session

/-!
# Feeding single bytes and feeding blocks

The clients hand `consume` whatever one read of the socket gave. The proxy hands it one byte at a
time, so that a frame is forwarded as soon as it is whole. `forward_eq_consume` says that the loop
of the proxy is the call over the block all the same: it goes on from the byte that the call reports.

`consume_chunks` gathers what the cut of a stream has influence on, and what it has not.
-/

namespace RctPower

open RctPower.Lib.Rust RctPower.Lib.EarlyExit ReceiveFrame

/-- What a task goes on with after a call of `consume` over the bytes of one read: the exchange of
the frame, with the bytes after it, or the next read, or the bytes after an error. -/
def Session.resumed (bytes : List UInt8) : Checked (ReceiveFrame × Except RctError ℕ) → Session
  | .error _ => .panicked
  | .ok (rx, .ok n) => if rx.complete then .exchanging rx.wireBytes (bytes.drop n) else .reading rx
  | .ok (_, .error e) => Session.forward (.new false) (bytes.drop (e.consumed.getD 0))

theorem forward_error {rx t : ReceiveFrame} {c : UInt8} {e : ℕ → RctError}
    (h : rx.step c = .ret t fun i => .error (e i)) (rest : List UInt8) :
    Session.forward rx (c :: rest) = Session.forward (.new false) rest := by
  have hconsume := consume_stop (pass_nil step rx) h []
  rw [List.nil_append] at hconsume
  rw [Session.forward, hconsume]

theorem forward_panics {rx : ReceiveFrame} {c : UInt8} {p : Panic} (h : rx.step c = .panics p) (rest : List UInt8) :
    Session.forward rx (c :: rest) = .panicked := by
  have hconsume := consume_panics (pass_nil step rx) h []
  rw [List.nil_append] at hconsume
  rw [Session.forward, hconsume]

/-- Bytes that are passed leave the task reading. -/
theorem forward_append {rx rx' : ReceiveFrame} (hrx : rx.complete = false) {a : List UInt8}
    (h : passed step rx a = some rx') (b : List UInt8) : Session.forward rx (a ++ b) = Session.forward rx' b := by
  induction a generalizing rx with
  | nil =>
    obtain rfl : rx = rx' := by simpa using h
    rfl
  | cons c a ih =>
    cases hc : rx.step c with
    | next rx₁ =>
      rw [pass_cons_next step hc] at h
      rw [List.cons_append, forward_next hrx hc]
      exact ih ((complete_of_next hc).trans hrx) h
    | ret => simp [passed, hc] at h
    | panics => simp [passed, hc] at h

/-- **The loop over single bytes is the call over the block**, and goes on where that stops. -/
theorem forward_eq_consume {rx : ReceiveFrame} (hrx : rx.complete = false) (bytes : List UInt8) :
    Session.forward rx bytes = Session.resumed bytes (rx.consume bytes) := by
  rcases consume_cases rx bytes with ⟨rx', hpass, hc⟩ | ⟨a, c, b, rx₀, t, r, rfl, hpass, hstep, hc⟩ |
      ⟨a, c, b, rx₀, p, rfl, hpass, hstep, hc⟩
  · have hfwd := forward_append hrx hpass []
    rw [List.append_nil] at hfwd
    rw [hfwd, hc, Session.resumed, complete_of_pass hpass, hrx]
    rfl
  · have hdrop : (a ++ c :: b).drop (a.length + 1) = b := by
      rw [← List.drop_drop, List.drop_left]
      rfl
    rw [forward_append hrx hpass, hc]
    rcases step_ret hstep with ⟨rfl, hcomplete⟩ | herr
    · rw [forward_complete hstep hcomplete, Session.resumed, if_pos hcomplete, hdrop]
    · choose e he using herr
      obtain rfl : r = fun i => .error (e i) := funext he
      have hoffset : (e (a.length + 1)).consumed = some (a.length + 1) := (isOffset_of_step hstep (a.length + 1)).1
      rw [forward_error hstep, Session.resumed, hoffset, Option.getD_some, hdrop]
  · rw [forward_append hrx hpass, forward_panics hstep, hc, Session.resumed]

/-- **Chunking does not matter, and offsets are exact.** -/
theorem consume_chunks {rx : ReceiveFrame} (hrx : rx.complete = false) (a b : List UInt8) :
    -- a call that neither completes nor fails is continued by the next one
    (∀ rx₁ n, rx.consume a = .ok (rx₁, .ok n) → rx₁.complete = false →
      n = a.length ∧ rx.consume (a ++ b) = (rx₁.consume b).map fun out => (out.1, later a.length out.2)) ∧
    -- the bytes after the offset of one that completes or fails have no influence
    (∀ rx₁ res, rx.consume a = .ok (rx₁, res) → Stops rx₁ res →
      rx.consume (a ++ b) = .ok (rx₁, res) ∧
        ∃ i, reported res = some i ∧ i ≤ a.length ∧ ∀ c, rx.consume (a.take i ++ c) = .ok (rx₁, res)) ∧
    (∀ p, rx.consume a = .error p → rx.consume (a ++ b) = .error p) ∧
    -- the parser counts what the call reports
    (∀ rx₁ res, rx.consume a = .ok (rx₁, res) →
      ∃ i, reported res = some i ∧ rx₁.consumedBytes = rx.consumedBytes + i) ∧
    -- the loops of the callers, over blocks and over single bytes
    (∀ chunks : List (List UInt8), chunks.flatten = a → rx.feedOutcome chunks = rx.feedOutcome (a.map ([·]))) ∧
    Session.forward rx a = Session.resumed a (rx.consume a) := by
  refine ⟨?_, ?_, ?_, ?_, ?_, forward_eq_consume hrx a⟩
  · intro rx₁ n h hrx₁
    have hpass := pass_of_consume h hrx₁
    rw [consume_pass hpass, Except.ok.injEq, Prod.mk.injEq, Except.ok.injEq] at h
    exact ⟨h.2.symm, consume_append hpass b⟩
  · intro rx₁ res h hstops
    obtain ⟨i, hi, hle, hrest⟩ := consume_append_of_stops hrx h hstops
    refine ⟨?_, i, hi, hle, hrest⟩
    have := hrest (a.drop i ++ b)
    rwa [← List.append_assoc, List.take_append_drop] at this
  · exact fun p h => consume_append_of_panics h b
  · exact fun rx₁ res h => consumedBytes_of_consume h
  · rintro chunks rfl
    have hbytes : (chunks.flatten.map ([·])).flatten = chunks.flatten := by
      rw [← List.flatMap_def, List.flatMap_singleton']
    rw [feed_eq_consume hrx, feed_eq_consume hrx, hbytes]

/-- A frame cut within an escape pair, and a wrong command byte in front of it. -/
theorem consume_chunks_escape :
    (ReceiveFrame.new false).consume [0x2b, 0x05, 0x05, 0x2d, 0x2b, 0x99] =
        ((ReceiveFrame.reading false 4 [0x2b, 0x05, 0x05, 0x2d] true [0x05, 0x05]).consume [0x2b, 0x99]).map
          (fun out => (out.1, later 4 out.2)) ∧
      Session.forward (.new false) [0x2b, 0xff, 0x2b] = .reading (ReceiveFrame.reading false 1 [0x2b] false []) := by
  have hnew : (ReceiveFrame.new false).complete = false := rfl
  have hcut := consume_chunks hnew [0x2b, 0x05, 0x05, 0x2d] [0x2b, 0x99]
  have hbad := consume_chunks hnew [0x2b, 0xff, 0x2b] []
  refine ⟨(hcut.1 _ 4 (by decide +kernel) rfl).2, ?_⟩
  rw [hbad.2.2.2.2.2]
  decide +kernel

end RctPower
