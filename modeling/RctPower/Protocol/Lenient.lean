import RctPower.Protocol.Reachable

/-!
# Frames with a wrong CRC

`ReceiveFrame::new(true)` makes a parser that takes a frame with a wrong CRC as well, as the tools that
look at recorded traffic want it. The flag is asked for in one place, at the last byte of a frame. This
module says what it comes to for a whole stream.

## What is proved

`feed_new_true`: whatever arrives, in whatever pieces, a parser with the flag does what one without it
does, state by state, except that a mismatch of the CRC is no error; the frame is then complete where
the error was reported, and `crc_ok` says what is wrong with it.
-/

namespace RctPower

open RctPower.Lib RctPower.Lib.Rust RctPower.Lib.EarlyExit

namespace ReceiveFrame

/-- The parser with the flag set. -/
def lenient (rx : ReceiveFrame) : ReceiveFrame := { rx with ignoreCrcMismatch := true }

/-- A result when a wrong CRC is no error; `done` is what is returned for the offset instead. -/
def forgive {α : Type} (done : ℕ → α) : Except RctError α → Except RctError α
  | .error (.frameCrcMismatch _ _ consumed) => .ok (done consumed)
  | r => r

/-- The error of a frame with a wrong CRC. -/
def IsMismatch {α : Type} (r : Except RctError α) : Prop :=
  ∃ received calculated consumed, r = .error (.frameCrcMismatch received calculated consumed)

/-- The body of the loop, for a parser that forgives. -/
def forgiving (s : Step) : Step := s.map lenient fun r i => forgive (fun n => n) (r i)

/-! ### One byte -/

variable (rx : ReceiveFrame)

theorem onCommand_lenient : rx.lenient.onCommand = forgiving rx.onCommand := by
  unfold onCommand forgiving
  rw [Flow.map_after]
  congr 1
  funext raw
  dsimp only
  split
  · rfl
  · split <;> rfl

theorem onHeader_lenient (cmd : Command) : rx.lenient.onHeader cmd = forgiving (rx.onHeader cmd) := by
  have hlength : rx.lenient.lengthField cmd = rx.lengthField cmd := rfl
  have hbe : ∀ i, rx.lenient.beAt i = rx.beAt i := fun _ => rfl
  have hheader : rx.lenient.frameHeaderLength = rx.frameHeaderLength := rfl
  simp only [onHeader, forgiving, hlength, hbe, hheader]
  cases rx.lengthField cmd with
  | error p => rfl
  | ok field =>
    obtain ⟨dataLength, oidIdx⟩ := field
    by_cases hplant : Command.isPlantByte cmd.byte = true
    · simp only [hplant, if_true, bind, Except.bind]
      cases usizeSub rx.frameHeaderLength 8 <;> cases rx.beAt oidIdx <;> cases rx.beAt (oidIdx + 4) <;> rfl
    · simp only [hplant, bind, Except.bind]
      cases usizeSub rx.frameHeaderLength 4 <;> cases rx.beAt oidIdx <;> rfl

theorem onLast_lenient : rx.lenient.onLast = forgiving rx.onLast := by
  have hread : rx.lenient.readLast = rx.readLast := rfl
  unfold onLast forgiving
  rw [Flow.map_after, hread]
  congr 1
  funext last
  obtain ⟨received, calculated, data⟩ := last
  by_cases hcrc : received = calculated
  · simp [hcrc, lenient, Flow.map, forgive]
  · cases hflag : rx.ignoreCrcMismatch <;> simp [hcrc, lenient, Flow.map, forgive]

theorem push_lenient (c : UInt8) : rx.lenient.push c = forgiving (rx.push c) := by
  simp only [push, apply_ite forgiving]
  refine ite_congr rfl (fun _ => ?_) fun _ => ?_
  · exact onCommand_lenient { rx with buffer := rx.buffer ++ [c] }
  refine ite_congr rfl (fun _ => ?_) fun _ => ?_
  · rw [forgiving, Flow.map_after]
    congr 1
    funext cmd
    exact onHeader_lenient { rx with buffer := rx.buffer ++ [c] } cmd
  refine ite_congr rfl (fun _ => ?_) fun _ => ?_
  · exact onLast_lenient { rx with buffer := rx.buffer ++ [c] }
  exact ite_congr rfl (fun _ => rfl) fun _ => rfl

/-- **The body of the loop** of a parser with the flag is that of one without, forgiving. -/
theorem step_lenient (c : UInt8) : rx.lenient.step c = forgiving (rx.step c) := by
  simp only [step, apply_ite forgiving]
  refine ite_congr rfl (fun _ => ite_congr rfl (fun _ => rfl) fun _ => rfl) fun _ => ?_
  refine ite_congr rfl (fun _ => ?_) fun _ => ite_congr rfl (fun _ => rfl) fun _ => ?_
  · exact push_lenient { rx with consumedBytes := rx.consumedBytes + 1, raw := rx.raw ++ [c], escaping := false } c
  · exact push_lenient { rx with consumedBytes := rx.consumedBytes + 1, raw := rx.raw ++ [c] } c

/-- So is a call. -/
theorem consume_lenient (chunk : List UInt8) :
    rx.lenient.consume chunk = (rx.consume chunk).map fun out => (out.1.lenient, forgive (fun n => n) out.2) := by
  rw [consume, consume, loop_map step lenient (fun r i => forgive (fun n => n) (r i)) step_lenient]
  cases loop step rx chunk with
  | error p => rfl
  | ok out =>
    obtain ⟨rx', _ | ⟨r, i⟩⟩ := out
    · rfl
    · rfl

/-! ### How a call returns -/

variable {rx} {rx' : ReceiveFrame} {c : UInt8} {r : ℕ → Except RctError ℕ} {flag done : Bool}

/-- How the last byte of a frame returns: the frame is complete, and there is an error if the CRC is
wrong and this is asked for. -/
def Ends (flag : Bool) (rx' : ReceiveFrame) (r : ℕ → Except RctError ℕ) : Prop :=
  rx'.complete = true ∧
    ((r = .ok ∧ (rx'.crcOk = true ∨ flag = true)) ∨
      rx'.crcOk = false ∧ ∃ received calculated, r = fun i => .error (.frameCrcMismatch received calculated i))

/-- How another byte returns: with another error, and no frame is completed. -/
def Breaks (done : Bool) (rx' : ReceiveFrame) (r : ℕ → Except RctError ℕ) : Prop :=
  rx'.complete = done ∧ ∃ e : ℕ → RctError, r = (fun i => .error (e i)) ∧ ∀ i, ¬ IsMismatch (r i)

theorem not_isMismatch_invalidCommand {α : Type} (raw : UInt8) (i : ℕ) :
    ¬ IsMismatch (.error (.invalidCommand raw i) : Except RctError α) := by
  rintro ⟨received, calculated, consumed, heq⟩
  cases heq

theorem not_isMismatch_frameLengthExceeded {α : Type} (i : ℕ) :
    ¬ IsMismatch (.error (.frameLengthExceeded i) : Except RctError α) := by
  rintro ⟨received, calculated, consumed, heq⟩
  cases heq

theorem breaks_of_onCommand (h : rx.onCommand = .ret rx' r) (hdone : rx.complete = done) : Breaks done rx' r := by
  obtain ⟨raw, -, h⟩ := Flow.of_after_eq_ret h
  split at h
  · cases h
    exact ⟨hdone, _, rfl, not_isMismatch_invalidCommand raw⟩
  · split at h
    · cases h
      exact ⟨hdone, _, rfl, not_isMismatch_invalidCommand raw⟩
    · cases h

theorem ends_of_onLast (h : rx.onLast = .ret rx' r) (hflag : rx.ignoreCrcMismatch = flag) : Ends flag rx' r := by
  obtain ⟨⟨received, calculated, data⟩, -, h⟩ := Flow.of_after_eq_ret h
  dsimp only at h
  split_ifs at h with hcrc
  · cases h
    simp only [Bool.and_eq_true, Bool.not_eq_true'] at hcrc
    exact ⟨rfl, .inr ⟨hcrc.1, received, calculated, rfl⟩⟩
  · cases h
    simp only [Bool.and_eq_true, Bool.not_eq_true', not_and_or, Bool.not_eq_false, hflag] at hcrc
    exact ⟨rfl, .inl ⟨rfl, hcrc⟩⟩

theorem ends_or_breaks_of_push (h : rx.push c = .ret rx' r) (hflag : rx.ignoreCrcMismatch = flag)
    (hdone : rx.complete = done) : Ends flag rx' r ∨ Breaks done rx' r := by
  simp only [push] at h
  split_ifs at h
  · exact .inr (breaks_of_onCommand h hdone)
  · obtain ⟨cmd, -, h⟩ := Flow.of_after_eq_ret h
    obtain ⟨a, -, h⟩ := Flow.of_after_eq_ret h
    cases h
  · exact .inl (ends_of_onLast h hflag)
  · cases h
    exact .inr ⟨hdone, _, rfl, not_isMismatch_frameLengthExceeded⟩

/-- **A byte that returns** ends the frame or breaks it. -/
theorem ends_or_breaks_of_step (h : rx.step c = .ret rx' r) (hflag : rx.ignoreCrcMismatch = flag)
    (hdone : rx.complete = done) : Ends flag rx' r ∨ Breaks done rx' r := by
  simp only [step] at h
  split_ifs at h
  · exact ends_or_breaks_of_push h hflag hdone
  · exact ends_or_breaks_of_push h hflag hdone

/-- A call that reports a mismatch has completed the frame. -/
theorem complete_of_mismatch {chunk : List UInt8} {res : Except RctError ℕ} (h : rx.consume chunk = .ok (rx', res))
    (hmismatch : IsMismatch res) : rx'.complete = true := by
  rcases consume_cases rx chunk with ⟨rx₁, -, hc⟩ | ⟨a, c, b, rx₀, t, r, -, -, hstep, hc⟩ |
      ⟨a, c, b, rx₀, p, -, -, -, hc⟩
  · rw [hc, Except.ok.injEq, Prod.mk.injEq] at h
    obtain ⟨received, calculated, consumed, heq⟩ := hmismatch
    cases h.2.trans heq
  · rw [hc, Except.ok.injEq, Prod.mk.injEq] at h
    obtain ⟨rfl, rfl⟩ := h
    rcases ends_or_breaks_of_step hstep rfl rfl with hends | ⟨-, e, -, hother⟩
    · exact hends.1
    · exact absurd hmismatch (hother _)
  · rw [hc] at h
    cases h

/-! ### The callers' loop -/

/-- **The callers' loop** over a parser with the flag is that over one without, forgiving. -/
theorem feed_lenient (rx : ReceiveFrame) (chunks : List (List UInt8)) :
    rx.lenient.feed chunks = (rx.feed chunks).map fun out => (out.1.lenient, forgive (fun _ => ()) out.2) := by
  induction chunks generalizing rx with
  | nil => rfl
  | cons chunk chunks ih =>
    rw [feed, feed, consume_lenient]
    by_cases hdone : rx.complete = true
    · rw [if_pos hdone, if_pos (show rx.lenient.complete = true from hdone)]
      rfl
    rw [if_neg hdone, if_neg (show ¬ rx.lenient.complete = true from hdone)]
    cases hconsume : rx.consume chunk with
    | error p => rfl
    | ok out =>
      obtain ⟨rx', e | n⟩ := out
      · by_cases hmismatch : IsMismatch (.error e : Except RctError ℕ)
        · -- the frame is complete, and the loop ends at its next turn
          have hcomplete : rx'.lenient.complete = true := (complete_of_mismatch hconsume hmismatch :)
          obtain ⟨received, calculated, consumed, heq⟩ := hmismatch
          cases heq
          have hfeed : rx'.lenient.feed chunks = .ok (rx'.lenient, .ok ()) := by
            cases chunks with
            | nil => rfl
            | cons chunk chunks => rw [feed, if_pos hcomplete]
          simp only [Except.map, forgive, hfeed]
        · have hforgive : ∀ {α : Type} (done : ℕ → α), forgive done (.error e) = .error e := by
            intro α done
            unfold forgive
            split
            · next heq =>
              cases heq
              exact absurd ⟨_, _, _, rfl⟩ hmismatch
            · rfl
          simp only [Except.map, hforgive]
      · exact ih rx'

/-- The flag is that of the fresh parser. -/
theorem Shape.ignoreCrcMismatch {ign : Bool} {taken : List UInt8} (h : Shape ign taken rx) :
    rx.ignoreCrcMismatch = ign := by
  cases h <;> rfl

/-- **A parser without the flag** reports a mismatch exactly for the frames that are complete with a
wrong CRC. -/
theorem isMismatch_iff {chunks : List (List UInt8)} {res : Except RctError Unit}
    (h : (new false).feed chunks = .ok (rx, res)) : IsMismatch res ↔ rx.complete = true ∧ rx.crcOk = false := by
  have hnew : (new false).complete = false := rfl
  rcases loop_trichotomy step (new false) chunks.flatten with ⟨rx', hpass⟩ |
      ⟨a, c, b, rx₀, hs, hpass, ⟨t, r, hstep⟩ | ⟨p, hstep⟩⟩
  · rw [feed_pass hnew hpass, Except.ok.injEq, Prod.mk.injEq] at h
    obtain ⟨rfl, rfl⟩ := h
    refine iff_of_false ?_ fun hcomplete => ?_
    · rintro ⟨received, calculated, consumed, heq⟩
      cases heq
    · rw [complete_of_pass hpass, hnew] at hcomplete
      cases hcomplete.1
  · have hflag : rx₀.ignoreCrcMismatch = false := (Reaches.fresh.shape.pass hpass).ignoreCrcMismatch
    have hdone : rx₀.complete = false := (complete_of_pass hpass).trans hnew
    rcases ends_or_breaks_of_step hstep hflag hdone with
      ⟨hcomplete, ⟨rfl, hcrc⟩ | ⟨hcrc, received, calculated, rfl⟩⟩ | ⟨hcomplete, e, rfl, hother⟩
    · rw [feed_complete hnew hs hpass hstep hcomplete, Except.ok.injEq, Prod.mk.injEq] at h
      obtain ⟨rfl, rfl⟩ := h
      refine iff_of_false ?_ fun hwrong => ?_
      · rintro ⟨received, calculated, consumed, heq⟩
        cases heq
      · simp [hwrong.2] at hcrc
    · obtain ⟨i, hfeed⟩ := feed_error hnew hs hpass hstep
      rw [hfeed, Except.ok.injEq, Prod.mk.injEq] at h
      obtain ⟨rfl, rfl⟩ := h
      exact iff_of_true ⟨_, _, _, rfl⟩ ⟨hcomplete, hcrc⟩
    · obtain ⟨i, hfeed⟩ := feed_error hnew hs hpass hstep
      rw [hfeed, Except.ok.injEq, Prod.mk.injEq] at h
      obtain ⟨rfl, rfl⟩ := h
      refine iff_of_false ?_ fun hwrong => ?_
      · rintro ⟨received, calculated, consumed, heq⟩
        exact hother i ⟨received, calculated, consumed, congrArg Except.error (Except.error.inj heq)⟩
      · rw [hcomplete] at hwrong
        cases hwrong.1
  · rw [feed_panics hnew hs hpass hstep] at h
    cases h

/-- **The flag changes nothing but what a wrong CRC comes to.** Whatever arrives, in whatever pieces,
the parser with it ends in the same state as the one without it, or panics as it does, and with the
same result, but for a mismatch; and a mismatch can be told from `crc_ok`. -/
theorem feed_new_true (chunks : List (List UInt8)) :
    ((new true).feed chunks = ((new false).feed chunks).map fun out => (out.1.lenient, forgive (fun _ => ()) out.2)) ∧
      ∀ rx res, (new false).feed chunks = .ok (rx, res) →
        (IsMismatch res ↔ rx.complete = true ∧ rx.crcOk = false) :=
  ⟨feed_lenient (new false) chunks, fun _ _ => isMismatch_iff⟩

/-- A read whose id is altered on the way. -/
example : ((new true).consume [0x2b, 0x01, 0x04, 0x00, 0x00, 0x3f, 0xde, 0xfe, 0x51]).map
    (fun out => (out.1.complete, out.1.crcOk, out.2)) = .ok (true, false, .ok 9) := by
  decide +kernel

end ReceiveFrame

end RctPower
