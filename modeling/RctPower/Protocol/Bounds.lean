import RctPower.Protocol.Reachable

/-!
# Bounds

The frame length is set once, from the header, and what the parser holds is bounded by it: a
header has at most twelve bytes, a length field counts up to 65535, and each byte of the body
takes at most two on the wire.

`bounded` says so of every reachable state. The parser therefore does not receive for ever: after a
start token and as many bytes as an open body can take on the wire, it has completed the frame, or
failed, or panicked.
-/

namespace RctPower

open RctPower.Lib.Rust RctPower.Lib.EarlyExit RctPower.Lib.Stuffing

/-! ### Lengths -/

theorem headerLength_le (b : UInt8) : headerLength b ≤ 11 + (if longByte b then 1 else 0) := by
  rw [headerLength]
  split <;> omega

/-- The frame length is at least that of an empty length field, and at most that of the greatest
one with a plant bit. -/
theorem bodyFrameLength_bounds (u : List UInt8) : 5 ≤ bodyFrameLength u ∧ bodyFrameLength u ≤ 65545 := by
  have h7 : 7 ≤ bodyHeader u := le_headerLength _
  have h12 : bodyHeader u ≤ 11 + (if longByte (u.headD 0) then 1 else 0) := headerLength_le _
  have hlength : bodyLength u ≤ if longByte (u.headD 0) then 65535 else 255 := by
    rw [bodyLength]
    split
    · exact Nat.le_of_lt_succ (UInt16.toNat_lt _)
    · exact Nat.le_of_lt_succ (UInt8.toNat_lt _)
  rw [bodyFrameLength]
  split_ifs at h12 hlength <;> omega

/-- The bytes of an open body. -/
theorem Open.length_le {u : List UInt8} (h : Open u) : u.length ≤ 65543 := by
  by_cases hu : u = []
  · rw [hu]
    exact Nat.zero_le _
  · obtain ⟨-, hlen⟩ := h hu
    have h12 : bodyHeader u ≤ 12 := (headerLength_le _).trans (by split <;> omega)
    have := (bodyFrameLength_bounds u).2
    omega

namespace ReceiveFrame

theorem Framed.length_le {v : List UInt8} (h : Framed v) : v.length ≤ 65544 := by
  have := (bodyFrameLength_bounds v).2
  have := h.lengths.2.2
  omega

/-! ### The frame length is set once -/

variable {rx rx' t : ReceiveFrame} {c : UInt8} {r : ℕ → Except RctError ℕ}

theorem frameLength_of_onCommand_next (h : rx.onCommand = .next rx') : rx'.frameLength = rx.frameLength := by
  obtain ⟨raw, -, h⟩ := Flow.of_after_eq_next h
  split at h
  · cases h
  · split at h
    · cases h
    · cases h
      rfl

theorem frameLength_of_onCommand_ret (h : rx.onCommand = .ret t r) : t.frameLength = rx.frameLength := by
  obtain ⟨raw, -, h⟩ := Flow.of_after_eq_ret h
  split at h
  · cases h
    rfl
  · split at h
    · cases h
      rfl
    · cases h

theorem frameLength_of_onLast (h : rx.onLast = .ret t r) : t.frameLength = rx.frameLength := by
  obtain ⟨⟨received, calculated, data⟩, -, h⟩ := Flow.of_after_eq_ret h
  dsimp only at h
  split at h
  · cases h
    rfl
  · cases h
    rfl

/-- A byte of body leaves a frame length that is set: the header branch is closed by it. -/
theorem frameLength_of_push_next (h : rx.push c = .next rx') (hset : rx.frameLength ≠ 0) :
    rx'.frameLength = rx.frameLength := by
  simp only [push, hset, and_false, if_false] at h
  split_ifs at h
  · exact (frameLength_of_onCommand_next h :)
  · exact absurd h onLast_ne_next
  · cases h
    rfl

theorem frameLength_of_push_ret (h : rx.push c = .ret t r) (hset : rx.frameLength ≠ 0) :
    t.frameLength = rx.frameLength := by
  simp only [push, hset, and_false, if_false] at h
  split_ifs at h
  · exact (frameLength_of_onCommand_ret h :)
  · exact (frameLength_of_onLast h :)
  · cases h
    rfl

/-- So does a byte, whether it is passed or returned at. -/
theorem frameLength_of_next (h : rx.step c = .next rx') (hset : rx.frameLength ≠ 0) :
    rx'.frameLength = rx.frameLength := by
  simp only [step] at h
  split_ifs at h
  · cases h
    rfl
  · cases h
    rfl
  · exact (frameLength_of_push_next h hset :)
  · cases h
    rfl
  · exact (frameLength_of_push_next h hset :)

theorem frameLength_of_ret (h : rx.step c = .ret t r) (hset : rx.frameLength ≠ 0) :
    t.frameLength = rx.frameLength := by
  simp only [step] at h
  split_ifs at h
  · exact (frameLength_of_push_ret h hset :)
  · exact (frameLength_of_push_ret h hset :)

theorem frameLength_of_pass {a : List UInt8} (hset : rx.frameLength ≠ 0) (h : passed step rx a = some rx') :
    rx'.frameLength = rx.frameLength :=
  pass_induction step (P := fun s => s.frameLength = rx.frameLength)
    (fun _ _ _ hs hnext => (frameLength_of_next hnext (hs ▸ hset)).trans hs) rfl h

/-- **A call leaves a frame length that is set**, with an error or without. -/
theorem frameLength_of_consume {chunk : List UInt8} {res : Except RctError ℕ} (hset : rx.frameLength ≠ 0)
    (h : rx.consume chunk = .ok (rx', res)) : rx'.frameLength = rx.frameLength := by
  rcases consume_cases rx chunk with ⟨rx₁, hpass, hok⟩ | ⟨a, c, b, rx₀, t, r, rfl, hpass, hstep, hok⟩ |
      ⟨a, c, b, rx₀, p, -, -, -, herr⟩
  · rw [hok, Except.ok.injEq, Prod.mk.injEq] at h
    exact h.1 ▸ frameLength_of_pass hset hpass
  · rw [hok, Except.ok.injEq, Prod.mk.injEq] at h
    have hkept := frameLength_of_pass hset hpass
    rw [← h.1, frameLength_of_ret hstep (hkept ▸ hset), hkept]
  · rw [herr] at h
    cases h

/-! ### Reachable states -/

/-- The bounds on what a parser holds. -/
structure Bounded (rx : ReceiveFrame) : Prop where
  /-- The frame length, once set. -/
  frameLength : rx.frameLength ≠ 0 → 5 ≤ rx.frameLength ∧ rx.frameLength ≤ 65545
  /-- The buffer. -/
  buffer : rx.buffer.length ≤ 65545
  /-- The raw record. -/
  raw : rx.raw.length ≤ 131090

variable {ign : Bool} {taken : List UInt8}

theorem frameLength_reading (ign : Bool) (n : ℕ) (raw u : List UInt8) (esc : Bool)
    (h : (reading ign n raw esc u).frameLength ≠ 0) :
    5 ≤ (reading ign n raw esc u).frameLength ∧ (reading ign n raw esc u).frameLength ≤ 65545 := by
  simp only [reading] at h ⊢
  split_ifs at h ⊢
  · exact bodyFrameLength_bounds u
  · exact absurd rfl h

theorem Shape.within (h : Shape ign taken rx) : Bounded rx := by
  cases h with
  | idle hg => exact ⟨fun h => absurd rfl h, Nat.zero_le _, Nat.zero_le _⟩
  | @reading g t hg hopen =>
    have hbody := hopen.length_le
    have hwire : t.length ≤ 2 * (unstuff ESCAPE_TOKEN false t).1.length + 1 :=
      (length_le_unstuff ESCAPE_TOKEN t).trans (by split <;> omega)
    refine ⟨frameLength_reading _ _ _ _ _, ?_, ?_⟩
    · simp only [ReceiveFrame.reading, List.length_cons]
      omega
    · simp only [ReceiveFrame.reading, List.length_cons]
      omega
  | @finished g t hg hv hcrc =>
    have hbody := hv.length_le
    have hwire : t.length ≤ 2 * (unstuff ESCAPE_TOKEN false t).1.length + 1 :=
      (length_le_unstuff ESCAPE_TOKEN t).trans (by split <;> omega)
    refine ⟨frameLength_reading ign 0 [] _ false, ?_, ?_⟩
    · simp only [ReceiveFrame.finished, completed, ReceiveFrame.reading, List.length_cons]
      omega
    · simp only [ReceiveFrame.finished, completed, ReceiveFrame.reading, List.length_cons]
      omega

/-- A parser that is not complete has not taken more than an open body. -/
theorem Shape.length_le (h : Shape ign taken rx) (hrx : rx.complete = false) {g t : List UInt8}
    (hs : taken = g ++ START_TOKEN :: t) : t.length ≤ 131087 := by
  cases h with
  | idle hg => exact absurd (by simp [hs]) hg
  | @reading g' t' hg hopen =>
    have hbody := hopen.length_le
    have hwire := length_le_unstuff ESCAPE_TOKEN t'
    -- the first start token is no later than any other
    have hle : t.length ≤ t'.length := by
      rcases List.append_eq_append_iff.mp hs with ⟨as, -, has⟩ | ⟨as, rfl, has⟩
      · cases as with
        | nil => simp only [List.nil_append, List.cons.injEq] at has; rw [has.2]
        | cons a as =>
          have := congrArg List.length has
          simp only [List.length_cons, List.length_append] at this
          omega
      · cases as with
        | nil => simp only [List.nil_append, List.cons.injEq] at has; rw [has.2]
        | cons a as =>
          simp only [List.cons_append, List.cons.injEq] at has
          exact absurd (by simp [has.1]) hg
    split_ifs at hwire <;> omega
  | finished hg hv hcrc => cases hrx

/-- **The parser cannot be stuck or grow without bound.** -/
theorem bounded (ign : Bool) :
    (∀ taken rx, Reaches ign taken rx →
      Bounded rx ∧ ∀ chunk rx' n, rx.consume chunk = .ok (rx', .ok n) → rx.frameLength ≠ 0 →
        rx'.frameLength = rx.frameLength) ∧
    -- it does not receive for ever, in one call or in many
    (∀ g t : List UInt8, 131088 ≤ t.length →
      (∀ rx res, (new ign).consume (g ++ START_TOKEN :: t) = .ok (rx, res) → Stops rx res) ∧
        ∀ rx, Reaches ign (g ++ START_TOKEN :: t) rx → rx.complete = true) := by
  have hstuck : ∀ g t : List UInt8, 131088 ≤ t.length → ∀ rx, Reaches ign (g ++ START_TOKEN :: t) rx →
      rx.complete = true := by
    intro g t ht rx h
    cases hrx : rx.complete with
    | true => rfl
    | false =>
      have := h.shape.length_le hrx rfl
      omega
  refine ⟨fun taken rx h => ⟨h.shape.within, ?_⟩, fun g t ht => ⟨fun rx res h => ?_, hstuck g t ht⟩⟩
  · exact fun chunk rx' n hc hset => frameLength_of_consume hset hc
  · cases res with
    | error e => exact .inr ⟨e, rfl⟩
    | ok n =>
      cases hrx : rx.complete with
      | true => exact .inl hrx
      | false =>
        have hpass := pass_of_consume h hrx
        have hn : n = (g ++ START_TOKEN :: t).length := by
          rw [consume_pass hpass, Except.ok.injEq, Prod.mk.injEq, Except.ok.injEq] at h
          exact h.2.symm
        have hreach := Reaches.fresh.call h
        rw [hn, List.take_length, List.nil_append] at hreach
        rw [hstuck g t ht rx hreach] at hrx
        cases hrx

end ReceiveFrame

end RctPower
