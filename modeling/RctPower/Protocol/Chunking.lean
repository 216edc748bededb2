import RctPower.Protocol.Receive

/-!
# Cutting a stream into chunks

A caller of `consume` decides how much of the stream it hands over in one call. What a call
reports is an offset into its own chunk, in the count or in the error; the parser keeps the
offset into the stream, `consumed_bytes`. This module says that the cut has no influence on
anything but the first of the two.

* `consume_append`: a call that neither completes nor fails can be continued by the next one,
  whose offset is then counted from its own chunk.
* `consume_append_of_stops`: a call that completes or fails does not look at what follows its
  offset.
* `consumedBytes_of_consume`: the parser counts what the call reports.
* `feed_eq_consume`: the callers' loop over chunks is one call over the whole stream, up to the
  offset in the error.
-/

namespace RctPower

open RctPower.Lib.Rust RctPower.Lib.EarlyExit

/-! ### Offsets -/

/-- The offset that an error of `consume` carries. -/
def RctError.consumed : RctError → Option ℕ
  | .frameCrcMismatch _ _ consumed => some consumed
  | .frameLengthExceeded consumed => some consumed
  | .invalidCommand _ consumed => some consumed
  | _ => none

/-- The error with its offset changed. -/
def RctError.mapConsumed (f : ℕ → ℕ) : RctError → RctError
  | .frameCrcMismatch received calculated consumed => .frameCrcMismatch received calculated (f consumed)
  | .frameLengthExceeded consumed => .frameLengthExceeded (f consumed)
  | .invalidCommand cmd consumed => .invalidCommand cmd (f consumed)
  | e => e

namespace ReceiveFrame

/-- The offset that a result of `consume` reports. -/
def reported : Except RctError ℕ → Option ℕ
  | .ok n => some n
  | .error e => e.consumed

/-- A result of `consume`, counted from `k` bytes earlier on. -/
def later (k : ℕ) : Except RctError ℕ → Except RctError ℕ
  | .ok n => .ok (n + k)
  | .error e => .error (e.mapConsumed (· + k))

/-- The result as a caller's loop sees it, with the offset of an error left out. -/
def outcome : Except RctError ℕ → Except RctError Unit
  | .ok _ => .ok ()
  | .error e => .error (e.mapConsumed fun _ => 0)

@[simp] theorem outcome_later (k : ℕ) (r : Except RctError ℕ) : outcome (later k r) = outcome r := by
  cases r with
  | ok n => rfl
  | error e => cases e <;> rfl

/-- What a return of the loop's body gives depends on the byte count as an offset does. -/
def IsOffset (r : ℕ → Except RctError ℕ) : Prop := ∀ i, reported (r i) = some i ∧ ∀ k, r (i + k) = later k (r i)

variable {rx rx' t : ReceiveFrame} {c : UInt8} {r : ℕ → Except RctError ℕ}

theorem isOffset_of_onCommand (h : rx.onCommand = .ret t r) : IsOffset r := by
  obtain ⟨raw, -, h⟩ := Flow.of_after_eq_ret h
  split at h
  · cases h
    exact fun i => ⟨rfl, fun k => rfl⟩
  · split at h
    · cases h
      exact fun i => ⟨rfl, fun k => rfl⟩
    · cases h

theorem isOffset_of_onLast (h : rx.onLast = .ret t r) : IsOffset r := by
  obtain ⟨⟨received, calculated, data⟩, -, h⟩ := Flow.of_after_eq_ret h
  dsimp only at h
  split at h
  · cases h
    exact fun i => ⟨rfl, fun k => rfl⟩
  · cases h
    exact fun i => ⟨rfl, fun k => rfl⟩

theorem isOffset_of_push (h : rx.push c = .ret t r) : IsOffset r := by
  simp only [push] at h
  split_ifs at h
  · exact isOffset_of_onCommand h
  · obtain ⟨cmd, -, h⟩ := Flow.of_after_eq_ret h
    obtain ⟨a, -, h⟩ := Flow.of_after_eq_ret h
    cases h
  · exact isOffset_of_onLast h
  · cases h
    exact fun i => ⟨rfl, fun k => rfl⟩

/-- **All exits report the byte they return at.** -/
theorem isOffset_of_step (h : rx.step c = .ret t r) : IsOffset r := by
  simp only [step] at h
  split_ifs at h
  · exact isOffset_of_push h
  · exact isOffset_of_push h

/-! ### The byte of a return is counted -/

theorem consumedBytes_of_onCommand (h : rx.onCommand = .ret t r) : t.consumedBytes = rx.consumedBytes := by
  obtain ⟨raw, -, h⟩ := Flow.of_after_eq_ret h
  split at h
  · cases h
    rfl
  · split at h
    · cases h
      rfl
    · cases h

theorem consumedBytes_of_onLast (h : rx.onLast = .ret t r) : t.consumedBytes = rx.consumedBytes := by
  obtain ⟨⟨received, calculated, data⟩, -, h⟩ := Flow.of_after_eq_ret h
  dsimp only at h
  split at h
  · cases h
    rfl
  · cases h
    rfl

theorem consumedBytes_of_push (h : rx.push c = .ret t r) : t.consumedBytes = rx.consumedBytes := by
  simp only [push] at h
  split_ifs at h
  · exact (consumedBytes_of_onCommand h :)
  · obtain ⟨cmd, -, h⟩ := Flow.of_after_eq_ret h
    obtain ⟨a, -, h⟩ := Flow.of_after_eq_ret h
    cases h
  · exact (consumedBytes_of_onLast h :)
  · cases h
    rfl

theorem consumedBytes_of_step (h : rx.step c = .ret t r) : t.consumedBytes = rx.consumedBytes + 1 := by
  simp only [step] at h
  split_ifs at h
  · exact (consumedBytes_of_push h :)
  · exact (consumedBytes_of_push h :)

/-! ### What a call does -/

/-- The call has completed the frame or failed. -/
def Stops (rx : ReceiveFrame) (r : Except RctError ℕ) : Prop := rx.complete = true ∨ ∃ e, r = .error e

/-- **What a call does**: it passes the chunk, or returns at one of its bytes, or panics at one. -/
theorem consume_cases (rx : ReceiveFrame) (chunk : List UInt8) :
    (∃ rx', passed step rx chunk = some rx' ∧ rx.consume chunk = .ok (rx', .ok chunk.length)) ∨
      (∃ a c b rx₀ t r, chunk = a ++ c :: b ∧ passed step rx a = some rx₀ ∧ rx₀.step c = .ret t r ∧
        rx.consume chunk = .ok (t, r (a.length + 1))) ∨
      ∃ a c b rx₀ p, chunk = a ++ c :: b ∧ passed step rx a = some rx₀ ∧ rx₀.step c = .panics p ∧
        rx.consume chunk = .error p := by
  rcases loop_trichotomy step rx chunk with ⟨rx', h⟩ | ⟨a, c, b, rx₀, rfl, h, ⟨t, r, hc⟩ | ⟨p, hc⟩⟩
  · exact .inl ⟨rx', h, consume_pass h⟩
  · exact .inr (.inl ⟨a, c, b, rx₀, t, r, rfl, h, hc, consume_stop h hc b⟩)
  · exact .inr (.inr ⟨a, c, b, rx₀, p, rfl, h, hc, consume_panics h hc b⟩)

/-- **A call that completes or fails** does so at a byte of its chunk. -/
theorem exists_stop_of_stops (hrx : rx.complete = false) {chunk : List UInt8} {res : Except RctError ℕ}
    (h : rx.consume chunk = .ok (t, res)) (hstops : Stops t res) :
    ∃ a c b rx₀ r, chunk = a ++ c :: b ∧ passed step rx a = some rx₀ ∧ rx₀.step c = .ret t r ∧
      res = r (a.length + 1) := by
  rcases consume_cases rx chunk with ⟨rx', hpass, hc⟩ | ⟨a, c, b, rx₀, t', r, rfl, hpass, hstep, hc⟩ |
      ⟨a, c, b, rx₀, p, -, -, -, hc⟩
  · -- passing neither completes nor fails
    rw [hc, Except.ok.injEq, Prod.mk.injEq] at h
    obtain ⟨rfl, rfl⟩ := h
    rcases hstops with hcomplete | ⟨e, he⟩
    · rw [complete_of_pass hpass, hrx] at hcomplete
      cases hcomplete
    · cases he
  · rw [hc, Except.ok.injEq, Prod.mk.injEq] at h
    obtain ⟨rfl, rfl⟩ := h
    exact ⟨a, c, b, rx₀, r, rfl, hpass, hstep, rfl⟩
  · rw [hc] at h
    cases h

/-- **A call that neither completes nor fails** passes its chunk. -/
theorem pass_of_consume {chunk : List UInt8} {n : ℕ} (h : rx.consume chunk = .ok (rx', .ok n))
    (hrx' : rx'.complete = false) : passed step rx chunk = some rx' := by
  rcases consume_ok h with hpass | ⟨-, -, -, -, -, -, -, hcomplete⟩
  · exact hpass
  · rw [hrx'] at hcomplete
    cases hcomplete

/-! ### Two calls and one -/

/-- **A call that neither completes nor fails is continued by the next one**: together they are
one call, and its offset is greater by the length of the first chunk. -/
theorem consume_append {a : List UInt8} (h : passed step rx a = some rx') (b : List UInt8) :
    rx.consume (a ++ b) = (rx'.consume b).map fun out => (out.1, later a.length out.2) := by
  rcases consume_cases rx' b with ⟨rx₁, hpass, hc⟩ | ⟨a', c, b', rx₀, t, r, rfl, hpass, hstep, hc⟩ |
      ⟨a', c, b', rx₀, p, rfl, hpass, hstep, hc⟩
  · rw [hc, consume_pass ((pass_append_of step h b).trans hpass), List.length_append, Nat.add_comm a.length]
    rfl
  · rw [hc, ← List.append_assoc, consume_stop ((pass_append_of step h a').trans hpass) hstep, List.length_append,
      show a.length + a'.length + 1 = a'.length + 1 + a.length by omega, (isOffset_of_step hstep _).2]
    rfl
  · rw [hc, ← List.append_assoc, consume_panics ((pass_append_of step h a').trans hpass) hstep]
    rfl

/-- The bytes up to one of them. -/
theorem take_concat (a b : List UInt8) (c : UInt8) : (a ++ c :: b).take (a.length + 1) = a ++ [c] := by
  rw [List.take_append, List.take_of_length_le (by omega), Nat.add_sub_cancel_left, List.take_one, List.head?_cons]
  rfl

/-- **A call that completes or fails** reports an offset within its chunk, and the bytes after it
have no influence. -/
theorem consume_append_of_stops (hrx : rx.complete = false) {a : List UInt8} {res : Except RctError ℕ}
    (h : rx.consume a = .ok (t, res)) (hstops : Stops t res) :
    ∃ i, reported res = some i ∧ i ≤ a.length ∧ ∀ b, rx.consume (a.take i ++ b) = .ok (t, res) := by
  obtain ⟨a₀, c, a₁, rx₀, r, rfl, hpass, hstep, rfl⟩ := exists_stop_of_stops hrx h hstops
  refine ⟨a₀.length + 1, (isOffset_of_step hstep _).1, ?_, fun b => ?_⟩
  · rw [List.length_append, List.length_cons]
    omega
  · rw [take_concat, List.append_assoc, List.singleton_append, consume_stop hpass hstep]

/-- The bytes after a panic have no influence. -/
theorem consume_append_of_panics {a : List UInt8} {p : Panic} (h : rx.consume a = .error p) (b : List UInt8) :
    rx.consume (a ++ b) = .error p := by
  rcases consume_cases rx a with ⟨rx', -, hc⟩ | ⟨a, c, b, rx₀, t, r, -, -, -, hc⟩ |
      ⟨a₀, c, a₁, rx₀, q, rfl, hpass, hstep, hc⟩
  · rw [hc] at h
    cases h
  · rw [hc] at h
    cases h
  · rw [hc, Except.error.injEq] at h
    subst h
    rw [List.append_assoc, List.cons_append, consume_panics hpass hstep]

/-- **The parser counts what a call reports.** -/
theorem consumedBytes_of_consume {chunk : List UInt8} {res : Except RctError ℕ} (h : rx.consume chunk = .ok (t, res)) :
    ∃ i, reported res = some i ∧ t.consumedBytes = rx.consumedBytes + i := by
  rcases consume_cases rx chunk with ⟨rx', hpass, hc⟩ | ⟨a, c, b, rx₀, t', r, rfl, hpass, hstep, hc⟩ |
      ⟨a, c, b, rx₀, p, -, -, -, hc⟩
  · rw [hc, Except.ok.injEq, Prod.mk.injEq] at h
    obtain ⟨rfl, rfl⟩ := h
    exact ⟨_, rfl, consumedBytes_of_pass hpass⟩
  · rw [hc, Except.ok.injEq, Prod.mk.injEq] at h
    obtain ⟨rfl, rfl⟩ := h
    exact ⟨_, (isOffset_of_step hstep _).1, by
      rw [consumedBytes_of_step hstep, consumedBytes_of_pass hpass, Nat.add_assoc]⟩
  · rw [hc] at h
    cases h

/-! ### The callers' loop -/

/-- The loop as a caller sees it, with the offset of an error left out. -/
def feedOutcome (rx : ReceiveFrame) (chunks : List (List UInt8)) : Checked (ReceiveFrame × Except RctError Unit) :=
  (rx.feed chunks).map fun out => (out.1, out.2.mapError (RctError.mapConsumed fun _ => 0))

/-- **The callers' loop over chunks is one call over the stream**, up to the offset in the error. -/
theorem feed_eq_consume (hrx : rx.complete = false) (chunks : List (List UInt8)) :
    rx.feedOutcome chunks = (rx.consume chunks.flatten).map fun out => (out.1, outcome out.2) := by
  rcases consume_cases rx chunks.flatten with ⟨rx', hpass, hc⟩ | ⟨a, c, b, rx₀, t, r, hs, hpass, hstep, hc⟩ |
      ⟨a, c, b, rx₀, p, hs, hpass, hstep, hc⟩
  · rw [feedOutcome, feed_pass hrx hpass, hc]
    rfl
  · rcases step_ret hstep with ⟨rfl, hcomplete⟩ | herr
    · rw [feedOutcome, feed_complete hrx hs hpass hstep hcomplete, hc]
      rfl
    · -- the error, at whatever offset
      have herror : ∃ e : ℕ → RctError, r = fun i => .error (e i) := by
        choose e he using herr
        exact ⟨e, funext he⟩
      obtain ⟨e, rfl⟩ := herror
      obtain ⟨i, hfeed⟩ := feed_error hrx hs hpass hstep
      have hshift : ∀ j, outcome (.error (e j)) = outcome (.error (e 0)) := by
        intro j
        have := (isOffset_of_step hstep 0).2 j
        rw [Nat.zero_add] at this
        rw [this, outcome_later]
      rw [feedOutcome, hfeed, hc]
      have hsame := (hshift i).trans (hshift (a.length + 1)).symm
      simp only [outcome, Except.error.injEq] at hsame
      simp only [Except.map, Except.mapError, outcome, hsame]
  · rw [feedOutcome, feed_panics hrx hs hpass hstep, hc]
    rfl

end ReceiveFrame

end RctPower
