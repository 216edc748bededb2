import RctPower.Protocol.Receive

/-!
# Complete frames

`Completes s rx` says that a fresh parser completes in the state `rx` at exactly the
last byte of the stream `s`. A stream completes exactly when it carries, after bytes
without a start token, a `WellFormed` body (`completes_body`, `Completes.exists_body`), and
the state is then that of the body.

`Completes.receives` turns completion into a statement about the callers' loop, for
every way of cutting the stream, and `Completes.unique` says that a stream has at most one
prefix that completes.
-/

namespace RctPower

open RctPower.Lib.Rust RctPower.Lib.EarlyExit RctPower.Lib.Stuffing

namespace ReceiveFrame

/-- A fresh parser passes all of the stream but its last byte, and completes at that in
state `rx`. -/
def Completes (s : List UInt8) (rx : ReceiveFrame) : Prop :=
  ∃ s₀ c rx₀, s = s₀ ++ [c] ∧ passed step (new false) s₀ = some rx₀ ∧ rx₀.step c = .ret rx .ok ∧ rx.complete = true

/-- What a caller sees of a stream that completes in state `rx`, however it is cut: before
the end neither completion nor an error, at the end the state. -/
def Receives (s : List UInt8) (rx : ReceiveFrame) : Prop :=
  (∀ chunks : List (List UInt8), chunks.flatten <+: s → chunks.flatten ≠ s →
    ∃ rx', (new false).feed chunks = .ok (rx', .ok ()) ∧ rx'.complete = false) ∧
    ∀ chunks : List (List UInt8), chunks.flatten = s → (new false).feed chunks = .ok (rx, .ok ())

theorem Completes.receives {s : List UInt8} {rx : ReceiveFrame} (h : Completes s rx) : Receives s rx := by
  obtain ⟨s₀, c, rx₀, rfl, hpass, hstep, hcomplete⟩ := h
  refine ⟨fun chunks hpre hne => ?_, fun chunks hs => feed_complete rfl hs hpass hstep hcomplete⟩
  obtain ⟨rest, rfl⟩ := (List.prefix_concat_iff.mp hpre).resolve_left hne
  obtain ⟨rx', h', -⟩ := pass_left step hpass
  exact ⟨rx', feed_pass rfl h', complete_of_pass h'⟩

/-- The bytes from the first start token on. -/
theorem dropWhile_start {g : List UInt8} (hg : START_TOKEN ∉ g) (t : List UInt8) :
    (g ++ START_TOKEN :: t).dropWhile (· ≠ START_TOKEN) = START_TOKEN :: t := by
  rw [List.dropWhile_append_of_pos]
  · simp
  · intro b hb
    simpa using fun h : b = START_TOKEN => hg (h ▸ hb)

/-! ### The last byte of a frame, whatever the flag -/

/-- A body that ends where its length field says, with room for its header. -/
def Framed (v : List UInt8) : Prop :=
  ∃ u c, v = u ++ [c] ∧ Open u ∧ bodyHeader u ≤ u.length ∧ u.length + 2 = bodyFrameLength u

/-- The parser takes the CRC of the body for right. -/
def Passes (ign : Bool) (v : List UInt8) : Prop := bodyCrc v = crc16 (bodyContent v) ∨ ign = true

/-- Such a body, by its lengths. -/
theorem framed_of_lengths {v : List UInt8} (hcmd : AcceptedCommand (v.headD 0)) (hheader : bodyHeader v + 1 ≤ v.length)
    (hlength : v.length + 1 = bodyFrameLength v) : Framed v := by
  have h7 : 7 ≤ bodyHeader v := le_headerLength _
  rcases List.eq_nil_or_concat' v with rfl | ⟨u, c, rfl⟩
  · simp at hheader
  · have hu : u ≠ [] := by
      rintro rfl
      rw [List.nil_append, List.length_singleton] at hheader
      rw [List.nil_append] at h7
      omega
    rw [bodyHeader_append hu] at hheader h7
    simp only [List.length_append, List.length_singleton] at hheader hlength
    rw [bodyFrameLength_append (by omega)] at hlength
    rw [headD_append hu] at hcmd
    exact ⟨u, c, rfl, fun _ => ⟨hcmd, .inr (by omega)⟩, by omega, by omega⟩

theorem Framed.lengths {v : List UInt8} (h : Framed v) :
    v ≠ [] ∧ bodyHeader v + 1 ≤ v.length ∧ bodyFrameLength v = v.length + 1 := by
  obtain ⟨u, c, rfl, -, hread, hlast⟩ := h
  have h7 : 7 ≤ bodyHeader u := le_headerLength _
  have hu := ne_nil_of_header (Nat.le_succ_of_le hread)
  rw [bodyHeader_append hu, bodyFrameLength_append (by omega), List.length_append, List.length_singleton]
  exact ⟨by simp, by omega, hlast.symm⟩

section Last

variable {u : List UInt8} (hopen : Open u) {c : UInt8} (hread : bodyHeader u ≤ u.length)
  (hlast : u.length + 2 = bodyFrameLength u) {ign : Bool} (n : ℕ) (raw : List UInt8)

include hopen hread hlast

theorem push_passes (hcrc : Passes ign (u ++ [c])) :
    (reading ign n raw false u).push c = .ret (completed ign n raw (u ++ [c])) .ok := by
  rw [push_last hopen c hread hlast]
  exact if_pos hcrc

theorem push_mismatch (hcrc : ¬ Passes ign (u ++ [c])) :
    (reading ign n raw false u).push c = .ret (completed ign n raw (u ++ [c])) fun i =>
      .error (.frameCrcMismatch (bodyCrc (u ++ [c])) (crc16 (bodyContent (u ++ [c]))) i) := by
  rw [push_last hopen c hread hlast]
  exact if_neg hcrc

end Last

/-- **The parser completes a framed body** at its last byte, if it takes its CRC for right. -/
theorem Framed.completes {v t g : List UInt8} {ign : Bool} (hv : Framed v) (hcrc : Passes ign v)
    (ht : unstuff ESCAPE_TOKEN false t = (v, false)) (hg : START_TOKEN ∉ g) :
    ∃ s₀ c rx₀, g ++ START_TOKEN :: t = s₀ ++ [c] ∧ passed step (new ign) s₀ = some rx₀ ∧
      rx₀.step c = .ret (completed ign (g.length + 1 + t.length) (START_TOKEN :: t) v) .ok := by
  obtain ⟨u, c, rfl, hopen, hread, hlast⟩ := hv
  obtain ⟨t₀, rfl, hlit, rfl⟩ := exists_last_literal ht
  refine ⟨g ++ START_TOKEN :: t₀, c, _, by simp, pass_new hg hopen ign, ?_⟩
  rw [step_reading_literal hlit, push_passes hopen hread hlast _ _ hcrc]
  simp [Nat.add_assoc]

/-- It reports a framed body with a wrong CRC, at its last byte. -/
theorem Framed.mismatch {v t g : List UInt8} {ign : Bool} (hv : Framed v) (hcrc : ¬ Passes ign v)
    (ht : unstuff ESCAPE_TOKEN false t = (v, false)) (hg : START_TOKEN ∉ g) :
    (new ign).consume (g ++ START_TOKEN :: t) =
      .ok (completed ign (g.length + 1 + t.length) (START_TOKEN :: t) v,
        .error (.frameCrcMismatch (bodyCrc v) (crc16 (bodyContent v)) (g ++ START_TOKEN :: t).length)) := by
  obtain ⟨u, c, rfl, hopen, hread, hlast⟩ := hv
  obtain ⟨t₀, rfl, hlit, rfl⟩ := exists_last_literal ht
  have hstep := step_reading_literal hlit ign (g.length + 1 + t₀.length) (START_TOKEN :: t₀)
    (unstuff ESCAPE_TOKEN false t₀).1
  rw [push_mismatch hopen hread hlast _ _ hcrc] at hstep
  have hstop := consume_stop (pass_new hg hopen ign) hstep []
  rw [List.append_assoc, List.cons_append] at hstop
  rw [hstop]
  simp [Nat.add_comm, Nat.add_left_comm]

/-- A body that ends where its length field says, with room for its header and with the
right CRC. -/
structure WellFormed (v : List UInt8) : Prop where
  /-- The command byte is one the parser accepts. -/
  command : AcceptedCommand (v.headD 0)
  /-- The header is in front of the CRC. -/
  header : bodyHeader v + 1 ≤ v.length
  /-- The length field is right. -/
  length : v.length + 1 = bodyFrameLength v
  /-- The CRC is right. -/
  crc : bodyCrc v = crc16 (bodyContent v)

theorem WellFormed.framed {v : List UInt8} (h : WellFormed v) : Framed v :=
  framed_of_lengths h.command h.header h.length

/-- **The parser completes a well-formed body** at its last byte, behind any bytes without a
start token. -/
theorem completes_body {v t g : List UInt8} (hv : WellFormed v) (ht : unstuff ESCAPE_TOKEN false t = (v, false))
    (hg : START_TOKEN ∉ g) :
    Completes (g ++ START_TOKEN :: t) (completed false (g.length + 1 + t.length) (START_TOKEN :: t) v) := by
  obtain ⟨s₀, c, rx₀, hs, hpass, hstep⟩ := hv.framed.completes (.inl hv.crc) ht hg
  exact ⟨s₀, c, rx₀, hs, hpass, hstep, rfl⟩

/-- **What the byte that closes a body does**: it completes a well-formed body, or it ends the
loop with an error, or with a panic. -/
theorem push_closing {u : List UInt8} {c : UInt8} (h : Open u) (hc : ¬ Open (u ++ [c])) (n : ℕ) (raw : List UInt8) :
    (WellFormed (u ++ [c]) ∧
        (reading false n raw false u).push c = .ret (completed false n raw (u ++ [c])) .ok) ∨
      (∃ rx, ∃ e : ℕ → RctError, (reading false n raw false u).push c = .ret rx fun i => .error (e i)) ∨
      ∃ p, (reading false n raw false u).push c = .panics p := by
  rcases push_cases h c with hopen | ⟨rfl, hcmd⟩ | ⟨hread, hlast⟩ | ⟨hread, hlast⟩ | ⟨hread, hlast⟩
  · exact absurd hopen hc
  · obtain ⟨rx, hret⟩ := push_badCommand hcmd false n raw
    exact .inr (.inl ⟨rx, _, hret⟩)
  · rw [push_last h c hread hlast]
    by_cases hcrc : bodyCrc (u ++ [c]) = crc16 (bodyContent (u ++ [c]))
    · have hu := ne_nil_of_header (Nat.le_succ_of_le hread)
      have h7 : 7 ≤ bodyHeader u := le_headerLength _
      refine .inl ⟨⟨?_, ?_, ?_, hcrc⟩, if_pos (.inl hcrc)⟩
      · rw [headD_append hu]
        exact (h hu).1
      · rw [bodyHeader_append hu, List.length_append, List.length_singleton]
        omega
      · rw [bodyFrameLength_append (by omega), List.length_append, List.length_singleton]
        exact hlast
    · exact .inr (.inl ⟨_, _, if_neg (not_or_intro hcrc (by simp))⟩)
  · exact .inr (.inr ⟨_, push_panics h c hread hlast false n raw⟩)
  · obtain ⟨rx, hret⟩ := push_exceeds h c hread hlast false n raw
    exact .inr (.inl ⟨rx, _, hret⟩)

/-- What stops at its last byte does not pass. -/
theorem pass_ne_of_ret {s₀ : List UInt8} {c : UInt8} {rx₀ rx rx' : ReceiveFrame} {r : ℕ → Except RctError ℕ}
    (hpass : passed step (new false) s₀ = some rx₀) (hstep : rx₀.step c = .ret rx r) :
    passed step (new false) (s₀ ++ [c]) ≠ some rx' := by
  rw [pass_append_of step hpass]
  simp [passed, hstep]

/-- **A stream that completes carries a well-formed body.** -/
theorem Completes.exists_body {s : List UInt8} {rx : ReceiveFrame} (h : Completes s rx) :
    ∃ g t v, s = g ++ START_TOKEN :: t ∧ START_TOKEN ∉ g ∧ unstuff ESCAPE_TOKEN false t = (v, false) ∧ WellFormed v ∧
      rx = completed false s.length (START_TOKEN :: t) v := by
  obtain ⟨s₀, c, rx₀, rfl, hpass, hstep, -⟩ := h
  rcases new_cases (s₀ ++ [c]) with hs | ⟨g, t, hs, hg, hopen⟩ | ⟨g, t₀, d, t₁, h⟩
  · exact absurd (pass_idle hs false 0) (pass_ne_of_ret hpass hstep)
  · have := pass_new hg hopen false
    rw [← hs] at this
    exact absurd this (pass_ne_of_ret hpass hstep)
  · have heq := h.eq_append
    have hclosing := push_closing h.isOpen h.closed (g.length + 1 + t₀.length + 1) (START_TOKEN :: t₀ ++ [d])
    rw [← h.step_eq] at hclosing
    rcases List.eq_nil_or_concat' t₁ with rfl | ⟨t₂, e, rfl⟩
    · -- the closing byte is the last
      obtain ⟨rfl, hc⟩ := List.append_inj' heq rfl
      obtain rfl : c = d := by simpa using hc
      have hrx₀ := h.pass_left false
      rw [hpass, Option.some.injEq] at hrx₀
      rw [← hrx₀, hstep] at hclosing
      rcases hclosing with ⟨hwf, hret⟩ | ⟨rx', e, hret⟩ | ⟨p, hret⟩
      · rw [Flow.ret.injEq] at hret
        refine ⟨g, t₀ ++ [c], _, by simp, h.skipped, unstuff_concat_literal h.literal, hwf, ?_⟩
        rw [hret.1]
        simp [Nat.add_comm, Nat.add_left_comm]
      · rw [Flow.ret.injEq] at hret
        cases congrFun hret.2 0
      · cases hret
    · -- the closing byte is passed, which it is not
      rw [← List.cons_append, ← List.append_assoc] at heq
      obtain ⟨rfl, -⟩ := List.append_inj' heq rfl
      obtain ⟨rx₁, h₁, h₂⟩ := pass_left step hpass
      rw [h.pass_left false, Option.some.injEq] at h₁
      rw [h₁] at hclosing
      rcases hclosing with ⟨-, hret⟩ | ⟨rx', e, hret⟩ | ⟨p, hret⟩ <;> simp [passed, hret] at h₂

/-- A stream that starts with one that completes completes in the callers' loop, whatever
follows. -/
theorem Completes.feed_append {s : List UInt8} {rx : ReceiveFrame} (h : Completes s rx) (rest : List UInt8) :
    (new false).feed [s ++ rest] = .ok (rx, .ok ()) := by
  obtain ⟨s₀, c, rx₀, rfl, hpass, hstep, hcomplete⟩ := h
  exact feed_complete rfl (a := s₀) (b := rest) (c := c) (by simp) hpass hstep hcomplete

/-- The state counts the bytes. -/
theorem Completes.consumedBytes {s : List UInt8} {rx : ReceiveFrame} (h : Completes s rx) :
    rx.consumedBytes = s.length := by
  obtain ⟨g, t, v, -, -, -, -, rfl⟩ := h.exists_body
  rfl

/-- A stream has at most one prefix that completes. -/
theorem Completes.unique {s s' rest rest' : List UInt8} {rx rx' : ReceiveFrame} (h : Completes s rx)
    (h' : Completes s' rx') (heq : s ++ rest = s' ++ rest') : s = s' ∧ rx = rx' := by
  have hfeed := h.feed_append rest
  rw [heq, h'.feed_append rest', Except.ok.injEq, Prod.mk.injEq] at hfeed
  obtain rfl : rx' = rx := hfeed.1
  exact ⟨(List.append_inj heq (h.consumedBytes.symm.trans h'.consumedBytes)).1, rfl⟩

/-- On the way to a prefix that completes, every byte is passed but the last. -/
theorem Completes.step_cases {s rest taken more : List UInt8} {c : UInt8} {rx rx₀ : ReceiveFrame} (h : Completes s rx)
    (hpass : passed step (new false) taken = some rx₀) (heq : taken ++ c :: more = s ++ rest) :
    (∃ rx', rx₀.step c = .next rx') ∨ (more = rest ∧ rx₀.step c = .ret rx .ok) := by
  obtain ⟨s₀, d, rx₁, rfl, hpass₁, hstep, -⟩ := h
  have hlast : taken = s₀ → c :: more = d :: rest → more = rest ∧ rx₀.step c = .ret rx .ok := by
    rintro rfl hcons
    obtain ⟨rfl, rfl⟩ := List.cons.inj hcons
    rw [hpass, Option.some.injEq] at hpass₁
    exact ⟨rfl, hpass₁ ▸ hstep⟩
  rw [List.append_assoc, List.singleton_append] at heq
  rcases List.append_eq_append_iff.mp heq with ⟨as, hs₀, has⟩ | ⟨as, htaken, has⟩
  · cases as with
    | nil => exact .inr (hlast (by simpa using hs₀.symm) has)
    | cons x xs =>
      -- the last byte is yet to come
      obtain ⟨rfl, -⟩ := List.cons.inj has
      subst hs₀
      obtain ⟨rx₂, h₂, h₃⟩ := pass_left step hpass₁
      rw [hpass, Option.some.injEq] at h₂
      subst h₂
      cases hc : rx₀.step c with
      | next rx' => exact .inl ⟨rx', rfl⟩
      | ret => simp [passed, hc] at h₃
      | panics => simp [passed, hc] at h₃
  · cases as with
    | nil => exact .inr (hlast (by simpa using htaken) has.symm)
    | cons x xs =>
      -- the last byte has been passed, which it is not
      obtain ⟨rfl, -⟩ := List.cons.inj has
      subst htaken
      obtain ⟨rx₂, h₂, h₃⟩ := pass_left step hpass
      rw [hpass₁, Option.some.injEq] at h₂
      subst h₂
      simp [passed, hstep] at h₃

/-- On the way to a prefix that completes, nothing panics. -/
theorem Completes.consume_ok {s rest taken chunk : List UInt8} {rx rx₀ : ReceiveFrame} (h : Completes s rx)
    (hpass : passed step (new false) taken = some rx₀) (hpre : taken ++ chunk <+: s ++ rest) :
    ∃ out, rx₀.consume chunk = .ok out := by
  obtain ⟨more, hmore⟩ := hpre
  rcases loop_trichotomy step rx₀ chunk with ⟨rx', h'⟩ | ⟨a, c, b, rx', rfl, ha, ⟨t, r, hret⟩ | ⟨p, hp⟩⟩
  · exact ⟨_, consume_pass h'⟩
  · exact ⟨_, consume_stop ha hret b⟩
  · have hcut : (taken ++ a) ++ c :: (b ++ more) = s ++ rest := by simpa using hmore
    rcases h.step_cases ((pass_append_of step hpass a).trans ha) hcut with ⟨t, hnext⟩ | ⟨-, hret⟩
    · cases hnext.symm.trans hp
    · cases hret.symm.trans hp

/-- What has been passed does not reach the end of a prefix that completes. -/
theorem Completes.not_pass {s rest : List UInt8} {rx rx' : ReceiveFrame} (h : Completes s rx) :
    passed step (new false) (s ++ rest) ≠ some rx' := by
  obtain ⟨s₀, c, rx₀, rfl, hpass, hstep, -⟩ := h
  intro hall
  obtain ⟨rx₁, h₁, -⟩ := pass_left step hall
  exact pass_ne_of_ret hpass hstep h₁

/-- The bytes of a completed frame complete, in one piece and from their first byte. -/
theorem Completes.wireBytes {s : List UInt8} {rx : ReceiveFrame} (h : Completes s rx) :
    ∃ rx', Completes rx.wireBytes rx' := by
  obtain ⟨g, t, v, -, -, ht, hv, rfl⟩ := h.exists_body
  exact ⟨_, completes_body hv ht (g := []) (by simp)⟩

end ReceiveFrame

end RctPower
