import Mathlib.Data.List.TakeWhile
import RctPower.Protocol.Chunking
import RctPower.Protocol.Completion

/-!
# The reachable states of a parser

`Reaches ign taken rx`: calls of `consume` on a fresh parser, none of them with an error, have
taken the bytes `taken` and left the state `rx`. There are four kinds of such states (`Shape`): no
start token has come; the body is open; the frame is complete; and the frame is complete and an
escape token has come after it, which `consume` takes without looking at whether it is complete. A
further byte is then one too many.

## What is proved

`transparent`: the raw record is what was taken from the first start token on, whatever the flag
and the chunks; with the escapes removed it is the buffer. What a completed parser gives as its
wire bytes is therefore parsed again, to the same frame.
-/

namespace RctPower

open RctPower.Lib.Rust RctPower.Lib.EarlyExit RctPower.Lib.Stuffing

namespace ReceiveFrame

/-- The states of a fresh parser after calls without an error, with the bytes these have taken. -/
inductive Reaches (ign : Bool) : List UInt8 → ReceiveFrame → Prop where
  /-- A fresh parser. -/
  | fresh : Reaches ign [] (new ign)
  /-- One more call, which has taken `n` bytes of its chunk. -/
  | call {taken chunk : List UInt8} {rx rx' : ReceiveFrame} {n : ℕ} :
    Reaches ign taken rx → rx.consume chunk = .ok (rx', .ok n) → Reaches ign (taken ++ chunk.take n) rx'

/-! ### After a complete frame -/

/-- A parser that has completed the frame of body `v`; `esc` says whether an escape token has come
after it. -/
def finished (ign : Bool) (n : ℕ) (raw : List UInt8) (esc : Bool) (v : List UInt8) : ReceiveFrame :=
  { completed ign n raw v with escaping := esc }

theorem step_finished_escape (ign : Bool) (n : ℕ) (raw v : List UInt8) :
    (finished ign n raw false v).step ESCAPE_TOKEN = .next (finished ign (n + 1) (raw ++ [ESCAPE_TOKEN]) true v) := by
  simp [step, finished, completed, reading]

/-- A byte after the frame is one too many. -/
theorem step_finished_literal {v : List UInt8} (hv : Framed v) {esc : Bool} {c : UInt8}
    (h : esc = true ∨ c ≠ ESCAPE_TOKEN) (ign : Bool) (n : ℕ) (raw : List UInt8) :
    ∃ rx, (finished ign n raw esc v).step c = .ret rx fun i => .error (.frameLengthExceeded i) := by
  obtain ⟨hne, hheader, hlength⟩ := hv.lengths
  have hpush : (finished ign n raw esc v).step c =
      (finished ign (n + 1) (raw ++ [c]) false v).push c := by
    rcases h with rfl | h
    · simp [step, finished, completed, reading]
    · cases esc <;> simp [step, finished, completed, reading, h]
  have hpos : 0 < v.length := List.length_pos_iff.mpr hne
  have h2 : ¬ v.length + 2 = 2 := by omega
  have hhdr : ¬ v.length + 2 = bodyHeader v := by omega
  have hread : bodyHeader v ≤ v.length + 1 := by omega
  rw [hpush]
  simp only [push, finished, completed, reading, hlength, List.cons_append, List.length_cons, List.length_append,
    List.length_nil, Nat.zero_add, Nat.add_assoc, Nat.reduceAdd, h2, hhdr, hread, if_true, if_false, false_and]
  rw [if_neg (by omega), if_pos (by omega)]
  exact ⟨_, rfl⟩

/-! ### The kinds of states -/

/-- The kinds of reachable states. -/
inductive Shape (ign : Bool) : List UInt8 → ReceiveFrame → Prop where
  /-- No start token has come. -/
  | idle {g : List UInt8} (hg : START_TOKEN ∉ g) : Shape ign g (idle ign g.length)
  /-- The body is open. -/
  | reading {g t : List UInt8} (hg : START_TOKEN ∉ g) (hopen : Open (unstuff ESCAPE_TOKEN false t).1) :
    Shape ign (g ++ START_TOKEN :: t)
      (reading ign (g.length + 1 + t.length) (START_TOKEN :: t) (unstuff ESCAPE_TOKEN false t).2
        (unstuff ESCAPE_TOKEN false t).1)
  /-- The frame is complete. -/
  | finished {g t : List UInt8} (hg : START_TOKEN ∉ g) (hv : Framed (unstuff ESCAPE_TOKEN false t).1)
    (hcrc : Passes ign (unstuff ESCAPE_TOKEN false t).1) :
    Shape ign (g ++ START_TOKEN :: t)
      (finished ign (g.length + 1 + t.length) (START_TOKEN :: t) (unstuff ESCAPE_TOKEN false t).2
        (unstuff ESCAPE_TOKEN false t).1)

/-- A parser that has just completed a frame. -/
structure JustCompleted (ign : Bool) (taken g t v : List UInt8) (rx : ReceiveFrame) : Prop where
  /-- The bytes taken, from the first start token on. -/
  split : taken = g ++ START_TOKEN :: t
  /-- The start token is the first. -/
  skipped : START_TOKEN ∉ g
  /-- The body. -/
  body : unstuff ESCAPE_TOKEN false t = (v, false)
  /-- It ends with the last byte taken. -/
  framed : Framed v
  /-- Its CRC is taken for right. -/
  passes : Passes ign v
  /-- The state. -/
  state : rx = completed ign (g.length + 1 + t.length) (START_TOKEN :: t) v

theorem JustCompleted.shape {ign : Bool} {taken g t v : List UInt8} {rx : ReceiveFrame}
    (h : JustCompleted ign taken g t v rx) : Shape ign taken rx := by
  obtain ⟨rfl, hg, hbody, hv, hcrc, rfl⟩ := h
  have := @Shape.finished ign g t hg (by rwa [hbody]) (by rwa [hbody])
  rwa [hbody] at this

variable {ign : Bool} {taken : List UInt8} {rx rx' : ReceiveFrame} {c : UInt8}

/-- What a literal byte of an open body does, as far as it does not fail. -/
theorem literal_cases {t : List UInt8} (hopen : Open (unstuff ESCAPE_TOKEN false t).1)
    (hlit : (unstuff ESCAPE_TOKEN false t).2 = true ∨ c ≠ ESCAPE_TOKEN) (n : ℕ) (raw : List UInt8) :
    (Open (unstuff ESCAPE_TOKEN false (t ++ [c])).1 ∧
        (reading ign n raw false (unstuff ESCAPE_TOKEN false t).1).push c =
          .next (reading ign n raw false ((unstuff ESCAPE_TOKEN false t).1 ++ [c]))) ∨
      (Framed ((unstuff ESCAPE_TOKEN false t).1 ++ [c]) ∧ Passes ign ((unstuff ESCAPE_TOKEN false t).1 ++ [c]) ∧
        (reading ign n raw false (unstuff ESCAPE_TOKEN false t).1).push c =
          .ret (completed ign n raw ((unstuff ESCAPE_TOKEN false t).1 ++ [c])) .ok) ∨
      (∃ s, ∃ e : ℕ → RctError,
        (reading ign n raw false (unstuff ESCAPE_TOKEN false t).1).push c = .ret s fun i => .error (e i)) ∨
      ∃ p, (reading ign n raw false (unstuff ESCAPE_TOKEN false t).1).push c = .panics p := by
  rcases push_cases hopen c with hnext | ⟨hnil, hcmd⟩ | ⟨hread, hlast⟩ | ⟨hread, hlast⟩ | ⟨hread, hlast⟩
  · rw [unstuff_concat_literal hlit]
    exact .inl ⟨hnext, push_open hnext ign n raw⟩
  · obtain ⟨s, hs⟩ := push_badCommand hcmd ign n raw
    rw [hnil]
    exact .inr (.inr (.inl ⟨s, _, hs⟩))
  · by_cases hcrc : Passes ign ((unstuff ESCAPE_TOKEN false t).1 ++ [c])
    · exact .inr (.inl ⟨⟨_, c, rfl, hopen, hread, hlast⟩, hcrc, push_passes hopen hread hlast n raw hcrc⟩)
    · exact .inr (.inr (.inl ⟨_, _, push_mismatch hopen hread hlast n raw hcrc⟩))
  · exact .inr (.inr (.inr ⟨_, push_panics hopen c hread hlast ign n raw⟩))
  · obtain ⟨s, hs⟩ := push_exceeds hopen c hread hlast ign n raw
    exact .inr (.inr (.inl ⟨s, _, hs⟩))

/-- **A byte that is passed** leads to a state of a known kind. -/
theorem Shape.next (h : Shape ign taken rx) (hc : rx.step c = .next rx') : Shape ign (taken ++ [c]) rx' := by
  cases h with
  | idle hg =>
    by_cases hstart : c = START_TOKEN
    · subst hstart
      rw [step_start, Flow.next.injEq] at hc
      subst hc
      exact .reading (t := []) hg open_nil
    · rw [step_idle hstart, Flow.next.injEq] at hc
      subst hc
      have := @Shape.idle ign (taken ++ [c]) (by simp [hg, Ne.symm hstart])
      rwa [List.length_append] at this
  | @reading g t hg hopen =>
    have hcount : g.length + 1 + (t ++ [c]).length = g.length + 1 + t.length + 1 := by simp [Nat.add_assoc]
    rw [List.append_assoc, List.cons_append]
    by_cases hlit : (unstuff ESCAPE_TOKEN false t).2 = true ∨ c ≠ ESCAPE_TOKEN
    · rw [step_reading_literal hlit] at hc
      rcases literal_cases hopen hlit (g.length + 1 + t.length + 1) (START_TOKEN :: t ++ [c]) with
        ⟨hopen', hnext⟩ | ⟨-, -, hret⟩ | ⟨s, e, hret⟩ | ⟨p, hp⟩
      · rw [hnext, Flow.next.injEq] at hc
        subst hc
        have := @Shape.reading ign g (t ++ [c]) hg hopen'
        rwa [unstuff_concat_literal hlit, hcount] at this
      · cases hret.symm.trans hc
      · cases hret.symm.trans hc
      · cases hp.symm.trans hc
    · rw [not_or, Bool.not_eq_true, not_not] at hlit
      obtain ⟨hesc, rfl⟩ := hlit
      rw [hesc, step_reading_escape, Flow.next.injEq] at hc
      subst hc
      have := @Shape.reading ign g (t ++ [ESCAPE_TOKEN]) hg (by rwa [unstuff_concat_escape hesc])
      rwa [unstuff_concat_escape hesc, hcount] at this
  | @finished g t hg hv hcrc =>
    have hcount : g.length + 1 + (t ++ [c]).length = g.length + 1 + t.length + 1 := by simp [Nat.add_assoc]
    by_cases hlit : (unstuff ESCAPE_TOKEN false t).2 = true ∨ c ≠ ESCAPE_TOKEN
    · obtain ⟨s, hret⟩ := step_finished_literal hv hlit ign (g.length + 1 + t.length) (START_TOKEN :: t)
      cases hret.symm.trans hc
    · rw [not_or, Bool.not_eq_true, not_not] at hlit
      obtain ⟨hesc, rfl⟩ := hlit
      rw [hesc, step_finished_escape, Flow.next.injEq] at hc
      subst hc
      rw [List.append_assoc, List.cons_append]
      have := @Shape.finished ign g (t ++ [ESCAPE_TOKEN]) hg (by rwa [unstuff_concat_escape hesc])
        (by rwa [unstuff_concat_escape hesc])
      rwa [unstuff_concat_escape hesc, hcount] at this

/-- **A byte that `consume` returns at without an error** is the last of a frame. -/
theorem Shape.ret (h : Shape ign taken rx) (hc : rx.step c = .ret rx' .ok) :
    ∃ g t v, JustCompleted ign (taken ++ [c]) g t v rx' := by
  have herror : ∀ (s : ReceiveFrame) (e : ℕ → RctError), rx.step c ≠ .ret s fun i => .error (e i) := by
    intro s e he
    rw [hc, Flow.ret.injEq] at he
    cases congrFun he.2 0
  cases h with
  | idle hg =>
    by_cases hstart : c = START_TOKEN
    · subst hstart
      rw [step_start] at hc
      cases hc
    · rw [step_idle hstart] at hc
      cases hc
  | @reading g t hg hopen =>
    by_cases hlit : (unstuff ESCAPE_TOKEN false t).2 = true ∨ c ≠ ESCAPE_TOKEN
    · rw [step_reading_literal hlit] at hc herror
      rcases literal_cases hopen hlit (g.length + 1 + t.length + 1) (START_TOKEN :: t ++ [c]) with
        ⟨-, hnext⟩ | ⟨hv, hcrc, hret⟩ | ⟨s, e, hret⟩ | ⟨p, hp⟩
      · cases hnext.symm.trans hc
      · rw [hret, Flow.ret.injEq] at hc
        refine ⟨g, t ++ [c], _, by simp, hg, unstuff_concat_literal hlit, hv, hcrc, ?_⟩
        rw [← hc.1]
        simp [Nat.add_assoc]
      · exact absurd hret (herror s e)
      · cases hp.symm.trans hc
    · rw [not_or, Bool.not_eq_true, not_not] at hlit
      obtain ⟨hesc, rfl⟩ := hlit
      rw [hesc, step_reading_escape] at hc
      cases hc
  | @finished g t hg hv hcrc =>
    by_cases hlit : (unstuff ESCAPE_TOKEN false t).2 = true ∨ c ≠ ESCAPE_TOKEN
    · obtain ⟨s, hret⟩ := step_finished_literal hv hlit ign (g.length + 1 + t.length) (START_TOKEN :: t)
      exact absurd hret (herror s _)
    · rw [not_or, Bool.not_eq_true, not_not] at hlit
      obtain ⟨hesc, rfl⟩ := hlit
      rw [hesc, step_finished_escape] at hc
      cases hc

/-- **A byte that makes `consume` panic** is in a frame with a length field of `3`. -/
theorem Shape.panics (h : Shape ign taken rx) {p : Panic} (hc : rx.step c = .panics p) :
    LengthThree (taken ++ [c]) := by
  cases h with
  | idle hg =>
    by_cases hstart : c = START_TOKEN
    · subst hstart
      rw [step_start] at hc
      cases hc
    · rw [step_idle hstart] at hc
      cases hc
  | @reading g t hg hopen =>
    by_cases hlit : (unstuff ESCAPE_TOKEN false t).2 = true ∨ c ≠ ESCAPE_TOKEN
    · rw [step_reading_literal hlit] at hc
      rw [List.append_assoc, List.cons_append, lengthThree_iff hg, unstuff_concat_literal hlit]
      rcases push_cases hopen c with hnext | ⟨hnil, hcmd⟩ | ⟨hread, hlast⟩ | ⟨hread, hlast⟩ | ⟨hread, hlast⟩
      · rw [push_open hnext] at hc
        cases hc
      · obtain ⟨s, hs⟩ := push_badCommand hcmd ign (g.length + 1 + t.length + 1) (START_TOKEN :: t ++ [c])
        rw [hnil, hs] at hc
        cases hc
      · rw [push_last hopen c hread hlast] at hc
        split_ifs at hc
      · have hthree := hasLengthThree_append hopen hread.le c []
        have h7 : 7 ≤ bodyHeader (unstuff ESCAPE_TOKEN false t).1 := le_headerLength _
        rw [List.append_nil] at hthree
        rw [bodyFrameLength] at hlast
        exact hthree.mpr (by omega)
      · obtain ⟨s, hs⟩ := push_exceeds hopen c hread hlast ign (g.length + 1 + t.length + 1) (START_TOKEN :: t ++ [c])
        rw [hs] at hc
        cases hc
    · rw [not_or, Bool.not_eq_true, not_not] at hlit
      obtain ⟨hesc, rfl⟩ := hlit
      rw [hesc, step_reading_escape] at hc
      cases hc
  | @finished g t hg hv hcrc =>
    by_cases hlit : (unstuff ESCAPE_TOKEN false t).2 = true ∨ c ≠ ESCAPE_TOKEN
    · obtain ⟨s, hret⟩ := step_finished_literal hv hlit ign (g.length + 1 + t.length) (START_TOKEN :: t)
      cases hret.symm.trans hc
    · rw [not_or, Bool.not_eq_true, not_not] at hlit
      obtain ⟨hesc, rfl⟩ := hlit
      rw [hesc, step_finished_escape] at hc
      cases hc

/-! ### Runs -/

/-- Bytes that are passed lead to a state of a known kind. -/
theorem Shape.pass (h : Shape ign taken rx) {a : List UInt8} (ha : passed step rx a = some rx') :
    Shape ign (taken ++ a) rx' := by
  induction a generalizing taken rx with
  | nil =>
    obtain rfl : rx = rx' := by simpa using ha
    rwa [List.append_nil]
  | cons c a ih =>
    cases hc : rx.step c with
    | next rx₁ =>
      rw [pass_cons_next step hc] at ha
      have := ih (h.next hc) ha
      rwa [List.append_assoc] at this
    | ret => simp [passed, hc] at ha
    | panics => simp [passed, hc] at ha

/-- **A call without an error** passes its chunk, or takes it as far as the end of a frame. -/
theorem Shape.consume (h : Shape ign taken rx) {chunk : List UInt8} {n : ℕ}
    (hc : rx.consume chunk = .ok (rx', .ok n)) :
    (passed step rx chunk = some rx' ∧ chunk.take n = chunk) ∨
      ∃ g t v, JustCompleted ign (taken ++ chunk.take n) g t v rx' := by
  rcases consume_cases rx chunk with ⟨rx₁, hpass, hok⟩ | ⟨a, c, b, rx₀, t, r, rfl, hpass, hstep, hok⟩ |
      ⟨a, c, b, rx₀, p, rfl, -, -, herr⟩
  · rw [hok, Except.ok.injEq, Prod.mk.injEq, Except.ok.injEq] at hc
    obtain ⟨rfl, rfl⟩ := hc
    exact .inl ⟨hpass, List.take_length⟩
  · rw [hok, Except.ok.injEq, Prod.mk.injEq] at hc
    obtain ⟨rfl, hr⟩ := hc
    rcases step_ret hstep with ⟨rfl, -⟩ | herr
    · rw [Except.ok.injEq] at hr
      subst hr
      obtain ⟨g, t, v, hjust⟩ := (h.pass hpass).ret hstep
      rw [take_concat]
      rw [List.append_assoc] at hjust
      exact .inr ⟨g, t, v, hjust⟩
    · obtain ⟨e, he⟩ := herr (a.length + 1)
      rw [hr] at he
      cases he
  · rw [herr] at hc
    cases hc

/-- **Every reachable state** is of a known kind. -/
theorem Reaches.shape (h : Reaches ign taken rx) : Shape ign taken rx := by
  induction h with
  | fresh => exact .idle (by simp)
  | call hreach hc ih =>
    rcases ih.consume hc with ⟨hpass, htake⟩ | ⟨g, t, v, hjust⟩
    · rw [htake]
      exact ih.pass hpass
    · exact hjust.shape

/-! ### The raw record -/

theorem unstuff_start (t : List UInt8) :
    unstuff ESCAPE_TOKEN false (START_TOKEN :: t) =
      (START_TOKEN :: (unstuff ESCAPE_TOKEN false t).1, (unstuff ESCAPE_TOKEN false t).2) := by
  rw [unstuff, if_neg (by decide)]

/-- The raw record of a state against the bytes taken and the buffer. -/
theorem Shape.raw (h : Shape ign taken rx) :
    rx.wireBytes = taken.dropWhile (· ≠ START_TOKEN) ∧
      unstuff ESCAPE_TOKEN false rx.wireBytes = (rx.buffer, rx.escaping) := by
  cases h with
  | idle hg =>
    refine ⟨(List.dropWhile_eq_nil_iff.mpr ?_).symm, rfl⟩
    intro b hb
    simpa using fun h : b = START_TOKEN => hg (h ▸ hb)
  | reading hg hopen => exact ⟨(dropWhile_start hg _).symm, unstuff_start _⟩
  | finished hg hv hcrc => exact ⟨(dropWhile_start hg _).symm, unstuff_start _⟩

/-- The fields of a complete frame that its bytes determine. -/
structure SameFrame (rx rx' : ReceiveFrame) : Prop where
  /-- `complete()` and `crc_ok()`. -/
  complete : rx'.complete = true ∧ rx'.crcOk = true
  /-- `command()`. -/
  command : rx'.command = rx.command
  /-- `id()`. -/
  id : rx'.id = rx.id
  /-- `address()`. -/
  address : rx'.address = rx.address
  /-- `data()`. -/
  data : rx'.data = rx.data
  /-- `wire_bytes()`. -/
  wireBytes : rx'.wireBytes = rx.wireBytes

/-- The wire bytes of a parser that has just completed are parsed again, to the same frame,
whatever the flag and the chunks. -/
theorem JustCompleted.again {g t v : List UInt8} (h : JustCompleted ign taken g t v rx) (hcrc : rx.crcOk = true)
    (ign' : Bool) :
    (∀ chunks : List (List UInt8), chunks.flatten <+: rx.wireBytes → chunks.flatten ≠ rx.wireBytes →
      ∃ rx', (new ign').feed chunks = .ok (rx', .ok ()) ∧ rx'.complete = false) ∧
    ∀ chunks : List (List UInt8), chunks.flatten = rx.wireBytes →
      ∃ rx', (new ign').feed chunks = .ok (rx', .ok ()) ∧ SameFrame rx rx' ∧
        rx'.consumedBytes = rx.wireBytes.length := by
  obtain ⟨-, -, hbody, hv, -, rfl⟩ := h
  have hpasses : Passes ign' v := .inl (by simpa [completed] using hcrc)
  obtain ⟨s₀, c, rx₀, hs, hpass, hstep⟩ := hv.completes hpasses hbody (g := []) (by simp)
  rw [List.nil_append] at hs
  have hwire : (completed ign (g.length + 1 + t.length) (START_TOKEN :: t) v).wireBytes = s₀ ++ [c] := hs
  refine ⟨fun chunks hpre hne => ?_, fun chunks hchunks => ?_⟩
  · rw [hwire] at hpre hne
    obtain ⟨rest, rfl⟩ := (List.prefix_concat_iff.mp hpre).resolve_left hne
    obtain ⟨rx', h', -⟩ := pass_left step hpass
    exact ⟨rx', feed_pass rfl h', complete_of_pass h'⟩
  · rw [hwire] at hchunks
    refine ⟨_, feed_complete rfl hchunks hpass hstep rfl, ⟨⟨rfl, ?_⟩, rfl, rfl, rfl, rfl, rfl⟩, ?_⟩
    · simpa [completed] using hcrc
    · simp [completed, reading, wireBytes, Nat.add_comm]

/-- **The wire bytes are transparent**: in every state reached without an error, the raw record is
what was taken from the first start token on; the buffer is the record with its escapes removed;
an escape is pending when the record ends in an escape token that is not escaped itself. A parser
that completes with the right CRC gives bytes that are parsed again to the same frame. -/
theorem transparent (h : Reaches ign taken rx) :
    rx.wireBytes = taken.dropWhile (· ≠ START_TOKEN) ∧
    (unstuff ESCAPE_TOKEN false rx.wireBytes).1 = rx.buffer ∧
    (rx.escaping = true ↔ ∃ w, rx.wireBytes = w ++ [ESCAPE_TOKEN] ∧ (unstuff ESCAPE_TOKEN false w).2 = false) ∧
    ∀ chunk n rx', rx.complete = false → rx.consume chunk = .ok (rx', .ok n) → rx'.complete = true →
      rx'.crcOk = true → ∀ ign',
        (∀ chunks : List (List UInt8), chunks.flatten <+: rx'.wireBytes → chunks.flatten ≠ rx'.wireBytes →
          ∃ again, (new ign').feed chunks = .ok (again, .ok ()) ∧ again.complete = false) ∧
        ∀ chunks : List (List UInt8), chunks.flatten = rx'.wireBytes →
          ∃ again, (new ign').feed chunks = .ok (again, .ok ()) ∧ SameFrame rx' again ∧
            again.consumedBytes = rx'.wireBytes.length := by
  obtain ⟨hraw, hunstuff⟩ := h.shape.raw
  refine ⟨hraw, by rw [hunstuff], ?_, ?_⟩
  · rw [← unstuff_pending_iff, hunstuff]
  · intro chunk n rx' hrx hc hcomplete hcrc ign'
    rcases h.shape.consume hc with ⟨hpass, -⟩ | ⟨g, t, v, hjust⟩
    · rw [complete_of_pass hpass, hrx] at hcomplete
      cases hcomplete
    · exact hjust.again hcrc ign'

/-- A parser that ignores a wrong CRC, cut within an escape pair. -/
theorem transparent_escape :
    (reading true 4 [0x2b, 0x05, 0x2d] true [0x05]).wireBytes =
      [0x00, 0x2b, 0x05, 0x2d].dropWhile (· ≠ START_TOKEN) :=
  (@transparent true [0x00, 0x2b, 0x05, 0x2d] _
    (@Reaches.call true [] [0x00, 0x2b, 0x05, 0x2d] _ _ 4 .fresh (by decide +kernel))).1

end ReceiveFrame

end RctPower
