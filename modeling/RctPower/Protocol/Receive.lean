import RctPower.Protocol.ParserState

/-!
# Receiving a stream

What a fresh `ReceiveFrame` makes of a whole stream, however it is cut into
chunks.

`new_cases` is the case analysis behind everything else: over any stream, a fresh
parser either keeps receiving, or there is a first byte at which its body closes
(`Closes`). `feed_*` carry that through the callers' loop over chunks: the chunks have
no influence.

## Panics

The header and frame lengths are set from the command byte and the length field,
and nothing checks that a frame has room for its own header and CRC. A frame length
below the header length is caught by the next byte. A frame length exactly one above
it, which is a length field of `3`, is not: the frame completes, and the payload
slice `buffer[header..blen - 2]` starts one byte after it ends. `receivesSafely_iff`
says that this is the only way to make the receive path panic.
-/

namespace RctPower

open RctPower.Lib.Rust RctPower.Lib.EarlyExit RctPower.Lib.Stuffing

namespace ReceiveFrame

/-! ### Going on does not complete a frame -/

/-- Neither whether the frame is complete nor the count of the bytes has changed. -/
def Kept (rx rx' : ReceiveFrame) : Prop := rx'.complete = rx.complete ∧ rx'.consumedBytes = rx.consumedBytes

theorem kept_of_onCommand {rx rx' : ReceiveFrame} (h : rx.onCommand = .next rx') : Kept rx rx' := by
  obtain ⟨raw, -, h⟩ := Flow.of_after_eq_next h
  split at h
  · cases h
  · split at h
    · cases h
    · cases h
      exact ⟨rfl, rfl⟩

theorem kept_of_onHeader {rx rx' : ReceiveFrame} {cmd : Command} (h : rx.onHeader cmd = .next rx') : Kept rx rx' := by
  obtain ⟨a, ha, hnext⟩ := Flow.of_after_eq_next h
  obtain rfl : a = rx' := by simpa using hnext
  obtain ⟨⟨len, oidIdx⟩, -, ha⟩ := Checked.of_bind_eq_ok ha
  dsimp only at ha
  split at ha
  · obtain ⟨_, -, ha⟩ := Checked.of_bind_eq_ok ha
    obtain ⟨_, -, ha⟩ := Checked.of_bind_eq_ok ha
    obtain ⟨_, -, ha⟩ := Checked.of_bind_eq_ok ha
    cases ha
    exact ⟨rfl, rfl⟩
  · obtain ⟨_, -, ha⟩ := Checked.of_bind_eq_ok ha
    obtain ⟨_, -, ha⟩ := Checked.of_bind_eq_ok ha
    cases ha
    exact ⟨rfl, rfl⟩

theorem onLast_ne_next {rx rx' : ReceiveFrame} : rx.onLast ≠ .next rx' := by
  intro h
  obtain ⟨⟨received, calculated, data⟩, -, h⟩ := Flow.of_after_eq_next h
  dsimp only at h
  split at h <;> cases h

theorem kept_of_push {rx rx' : ReceiveFrame} {c : UInt8} (h : rx.push c = .next rx') : Kept rx rx' := by
  simp only [push] at h
  split_ifs at h
  · exact (kept_of_onCommand h :)
  · obtain ⟨cmd, -, h⟩ := Flow.of_after_eq_next h
    exact (kept_of_onHeader h :)
  · exact absurd h onLast_ne_next
  · cases h
    exact ⟨rfl, rfl⟩

/-- **A byte that is passed** is counted and does not complete the frame. -/
theorem counted_of_next {rx rx' : ReceiveFrame} {c : UInt8} (h : rx.step c = .next rx') :
    rx'.complete = rx.complete ∧ rx'.consumedBytes = rx.consumedBytes + 1 := by
  simp only [step] at h
  split_ifs at h
  · cases h
    exact ⟨rfl, rfl⟩
  · cases h
    exact ⟨rfl, rfl⟩
  · exact (kept_of_push h :)
  · cases h
    exact ⟨rfl, rfl⟩
  · exact (kept_of_push h :)

theorem complete_of_next {rx rx' : ReceiveFrame} {c : UInt8} (h : rx.step c = .next rx') :
    rx'.complete = rx.complete := (counted_of_next h).1

theorem complete_of_pass {rx rx' : ReceiveFrame} {s : List UInt8} (h : passed step rx s = some rx') :
    rx'.complete = rx.complete :=
  pass_induction step (P := fun r => r.complete = rx.complete)
    (fun _ _ _ hr hnext => (complete_of_next hnext).trans hr) rfl h

/-- The bytes that are passed are counted. -/
theorem consumedBytes_of_pass {rx rx' : ReceiveFrame} {s : List UInt8} (h : passed step rx s = some rx') :
    rx'.consumedBytes = rx.consumedBytes + s.length := by
  induction s generalizing rx with
  | nil =>
    obtain rfl : rx = rx' := by simpa using h
    rfl
  | cons c cs ih =>
    cases hc : rx.step c with
    | next rx₁ =>
      rw [pass_cons_next step hc] at h
      rw [ih h, (counted_of_next hc).2, List.length_cons, Nat.add_assoc, Nat.add_comm 1]
    | ret => simp [passed, hc] at h
    | panics => simp [passed, hc] at h

/-! ### Only the last byte returns without an error -/

theorem onCommand_ret {rx t : ReceiveFrame} {r : ℕ → Except RctError ℕ} (h : rx.onCommand = .ret t r) (i : ℕ) :
    ∃ e, r i = .error e := by
  obtain ⟨raw, -, h⟩ := Flow.of_after_eq_ret h
  split at h
  · cases h
    exact ⟨_, rfl⟩
  · split at h
    · cases h
      exact ⟨_, rfl⟩
    · cases h

theorem onLast_ret {rx t : ReceiveFrame} {r : ℕ → Except RctError ℕ} (h : rx.onLast = .ret t r) :
    (r = .ok ∧ t.complete = true) ∨ ∀ i, ∃ e, r i = .error e := by
  obtain ⟨⟨received, calculated, data⟩, -, h⟩ := Flow.of_after_eq_ret h
  dsimp only at h
  split at h
  · cases h
    exact .inr fun i => ⟨_, rfl⟩
  · cases h
    exact .inl ⟨rfl, rfl⟩

theorem push_ret {rx t : ReceiveFrame} {c : UInt8} {r : ℕ → Except RctError ℕ} (h : rx.push c = .ret t r) :
    (r = .ok ∧ t.complete = true) ∨ ∀ i, ∃ e, r i = .error e := by
  simp only [push] at h
  split_ifs at h
  · exact .inr (onCommand_ret h)
  · obtain ⟨cmd, -, h⟩ := Flow.of_after_eq_ret h
    obtain ⟨a, -, h⟩ := Flow.of_after_eq_ret h
    cases h
  · exact onLast_ret h
  · cases h
    exact .inr fun i => ⟨_, rfl⟩

/-- What returns from `consume` completes the frame, or is an error. -/
theorem step_ret {rx t : ReceiveFrame} {c : UInt8} {r : ℕ → Except RctError ℕ} (h : rx.step c = .ret t r) :
    (r = .ok ∧ t.complete = true) ∨ ∀ i, ∃ e, r i = .error e := by
  simp only [step] at h
  split_ifs at h
  · exact push_ret h
  · exact push_ret h

/-! ### The callers' loop -/

theorem consume_pass {rx rx' : ReceiveFrame} {chunk : List UInt8} (h : passed step rx chunk = some rx') :
    rx.consume chunk = .ok (rx', .ok chunk.length) := by
  rw [consume]
  rw [loop_pass step h]
  rfl

theorem consume_stop {rx rx' t : ReceiveFrame} {a : List UInt8} {c : UInt8} {r : ℕ → Except RctError ℕ}
    (h : passed step rx a = some rx') (hc : rx'.step c = .ret t r) (b : List UInt8) :
    rx.consume (a ++ c :: b) = .ok (t, r (a.length + 1)) := by
  rw [consume]
  rw [loop_stop step h hc]
  rfl

theorem consume_panics {rx rx' : ReceiveFrame} {a : List UInt8} {c : UInt8} {p : Panic}
    (h : passed step rx a = some rx') (hc : rx'.step c = .panics p) (b : List UInt8) :
    rx.consume (a ++ c :: b) = .error p := by
  rw [consume]
  rw [loop_panics step h hc]
  rfl

/-- **What a call of `consume` without an error does**: it passes the chunk, or completes the
frame within it. -/
theorem consume_ok {rx rx' : ReceiveFrame} {chunk : List UInt8} {n : ℕ}
    (h : rx.consume chunk = .ok (rx', .ok n)) :
    passed step rx chunk = some rx' ∨
      ∃ a c b rx₁, chunk = a ++ c :: b ∧ passed step rx a = some rx₁ ∧ rx₁.step c = .ret rx' .ok ∧
        rx'.complete = true := by
  rw [consume] at h
  obtain ⟨⟨t, none | ⟨r, m⟩⟩, hl, hout⟩ := of_map_eq_ok h
  · rw [Prod.mk.injEq] at hout
    exact .inl (hout.1 ▸ pass_of_loop step hl)
  · rw [Prod.mk.injEq] at hout
    obtain ⟨rfl, hr⟩ := hout
    obtain ⟨a, c, b, rx₁, rfl, -, hpass, hstep⟩ := stop_of_loop step hl
    rcases step_ret hstep with ⟨rfl, hcomplete⟩ | herr
    · exact .inr ⟨a, c, b, rx₁, rfl, hpass, hstep, hcomplete⟩
    · obtain ⟨e, he⟩ := herr m
      rw [he] at hr
      cases hr

/-- Chunks that the parser passes leave it receiving. -/
theorem feed_append {rx rx' : ReceiveFrame} (hrx : rx.complete = false) {chunks : List (List UInt8)}
    (h : passed step rx chunks.flatten = some rx') (rest : List (List UInt8)) :
    rx.feed (chunks ++ rest) = rx'.feed rest := by
  induction chunks generalizing rx with
  | nil =>
    obtain rfl : rx = rx' := by simpa using h
    rfl
  | cons chunk chunks ih =>
    obtain ⟨rx₁, h₁, h₂⟩ := pass_left step (by rwa [List.flatten_cons] at h)
    rw [List.cons_append, feed, hrx, consume_pass h₁]
    exact ih ((complete_of_pass h₁).trans hrx) h₂

/-- A stream that the parser passes leaves it receiving. -/
theorem feed_pass {rx rx' : ReceiveFrame} (hrx : rx.complete = false) {chunks : List (List UInt8)}
    (h : passed step rx chunks.flatten = some rx') : rx.feed chunks = .ok (rx', .ok ()) := by
  have := feed_append hrx h []
  rwa [List.append_nil] at this

/-- A byte of a stream is in one of its chunks. -/
theorem exists_chunk {chunks : List (List UInt8)} {a b : List UInt8} {c : UInt8}
    (h : chunks.flatten = a ++ c :: b) :
    ∃ pre a' b' post, chunks = pre ++ (a' ++ c :: b') :: post ∧ a = pre.flatten ++ a' := by
  rcases List.flatten_eq_append_iff.mp h with ⟨as, bs, rfl, rfl, hb⟩ | ⟨as, bs, d, cs, ds, rfl, rfl, hb⟩
  · obtain ⟨es, b', ds, rfl, hes, rfl⟩ := List.flatten_eq_cons_iff.mp hb.symm
    refine ⟨as ++ es, [], b', ds, by simp, ?_⟩
    rw [List.flatten_append, List.flatten_eq_nil_iff.mpr hes, List.append_nil]
    simp
  · simp only [List.cons_append, List.cons.injEq] at hb
    obtain ⟨rfl, -⟩ := hb
    exact ⟨as, bs, cs, ds, rfl, rfl⟩

section Stop

variable {rx rx' t : ReceiveFrame} {chunks : List (List UInt8)} {a b : List UInt8} {c : UInt8}

/-- The frame is complete at the first byte that completes it. -/
theorem feed_complete (hrx : rx.complete = false) (hs : chunks.flatten = a ++ c :: b)
    (h : passed step rx a = some rx') (hc : rx'.step c = .ret t .ok) (ht : t.complete = true) :
    rx.feed chunks = .ok (t, .ok ()) := by
  obtain ⟨pre, a', b', post, rfl, rfl⟩ := exists_chunk hs
  obtain ⟨rx₁, h₁, h₂⟩ := pass_left step h
  rw [feed_append hrx h₁, feed, (complete_of_pass h₁).trans hrx, consume_stop h₂ hc]
  cases post with
  | nil => rfl
  | cons chunk post => simp only [Bool.false_eq_true, if_false, feed, ht, if_true]

/-- An error ends the loop. -/
theorem feed_error (hrx : rx.complete = false) (hs : chunks.flatten = a ++ c :: b)
    (h : passed step rx a = some rx') {e : ℕ → RctError} (hc : rx'.step c = .ret t fun i => .error (e i)) :
    ∃ i, rx.feed chunks = .ok (t, .error (e i)) := by
  obtain ⟨pre, a', b', post, rfl, rfl⟩ := exists_chunk hs
  obtain ⟨rx₁, h₁, h₂⟩ := pass_left step h
  refine ⟨a'.length + 1, ?_⟩
  rw [feed_append hrx h₁, feed, (complete_of_pass h₁).trans hrx, consume_stop h₂ hc]
  rfl

/-- So does a panic. -/
theorem feed_panics (hrx : rx.complete = false) (hs : chunks.flatten = a ++ c :: b)
    (h : passed step rx a = some rx') {p : Panic} (hc : rx'.step c = .panics p) : rx.feed chunks = .error p := by
  obtain ⟨pre, a', b', post, rfl, rfl⟩ := exists_chunk hs
  obtain ⟨rx₁, h₁, h₂⟩ := pass_left step h
  rw [feed_append hrx h₁, feed, (complete_of_pass h₁).trans hrx, consume_panics h₂ hc]
  rfl

end Stop

/-! ### A fresh parser over a stream -/

/-- A stream cut at the byte `c` that closes its first body. -/
structure Closes (s g t₀ : List UInt8) (c : UInt8) (t₁ : List UInt8) : Prop where
  /-- Skipped bytes, the start token, the bytes of the body, the last one among them. -/
  split : s = g ++ START_TOKEN :: (t₀ ++ c :: t₁)
  /-- The start token is the first. -/
  skipped : START_TOKEN ∉ g
  /-- The last byte is a byte of the body, not an escape token. -/
  literal : (unstuff ESCAPE_TOKEN false t₀).2 = true ∨ c ≠ ESCAPE_TOKEN
  /-- The body is open before the last byte. -/
  isOpen : Open (unstuff ESCAPE_TOKEN false t₀).1
  /-- It is not any more with it. -/
  closed : ¬ Open ((unstuff ESCAPE_TOKEN false t₀).1 ++ [c])

/-- Over any stream, a fresh parser keeps receiving, or there is a first byte at which
its body closes. -/
theorem new_cases (s : List UInt8) :
    (START_TOKEN ∉ s) ∨
      (∃ g t, s = g ++ START_TOKEN :: t ∧ START_TOKEN ∉ g ∧ Open (unstuff ESCAPE_TOKEN false t).1) ∨
      ∃ g t₀ c t₁, Closes s g t₀ c t₁ := by
  by_cases hs : START_TOKEN ∈ s
  · obtain ⟨g, t, rfl, hg⟩ := List.eq_append_cons_of_mem hs
    by_cases h : Open (unstuff ESCAPE_TOKEN false t).1
    · exact .inr (.inl ⟨g, t, rfl, hg, h⟩)
    · obtain ⟨t₀, c, t₁, rfl, hlit, h₀, h₁⟩ := exists_first_literal open_nil h
      exact .inr (.inr ⟨g, t₀, c, t₁, rfl, hg, hlit, h₀, h₁⟩)
  · exact .inl hs

namespace Closes

variable {s g t₀ t₁ : List UInt8} {c : UInt8} (h : Closes s g t₀ c t₁)

include h

theorem eq_append : s = (g ++ START_TOKEN :: t₀) ++ c :: t₁ := by
  rw [h.split, List.append_assoc, List.cons_append]

/-- The bytes of the body that are not escape tokens. -/
theorem body_eq : (unstuff ESCAPE_TOKEN false (t₀ ++ c :: t₁)).1 =
    (unstuff ESCAPE_TOKEN false t₀).1 ++ [c] ++ (unstuff ESCAPE_TOKEN false t₁).1 :=
  unstuff_literal_cons h.literal t₁

/-- The parser passes all that is before the closing byte. -/
theorem pass_left (ign : Bool) :
    passed step (new ign) (g ++ START_TOKEN :: t₀) =
      some (reading ign (g.length + 1 + t₀.length) (START_TOKEN :: t₀) (unstuff ESCAPE_TOKEN false t₀).2
        (unstuff ESCAPE_TOKEN false t₀).1) :=
  pass_new h.skipped h.isOpen ign

/-- It takes the closing byte literally. -/
theorem step_eq (ign : Bool) :
    (reading ign (g.length + 1 + t₀.length) (START_TOKEN :: t₀) (unstuff ESCAPE_TOKEN false t₀).2
        (unstuff ESCAPE_TOKEN false t₀).1).step c =
      (reading ign (g.length + 1 + t₀.length + 1) (START_TOKEN :: t₀ ++ [c]) false
        (unstuff ESCAPE_TOKEN false t₀).1).push c :=
  step_reading_literal h.literal ign _ _ _

end Closes

/-! ### Panics -/

/-- Feeding the chunks to a fresh parser does not panic, nor does decoding the payload of
the frame when one is complete. -/
def ReceivesSafely (ign : Bool) (chunks : List (List UInt8)) : Prop :=
  ∃ rx r, (new ign).feed chunks = .ok (rx, r) ∧
    (rx.complete = true → r = .ok () → ∀ dt, ∃ v, decodeValue dt rx.data = .ok v)

/-- Nothing is left to ask of the decoder. -/
theorem receivesSafely_of_feed {ign : Bool} {chunks : List (List UInt8)} {rx : ReceiveFrame}
    {r : Except RctError Unit} (h : (new ign).feed chunks = .ok (rx, r)) : ReceivesSafely ign chunks :=
  ⟨rx, r, h, fun _ _ dt => decodeValue_checked dt rx.data⟩

/-- A body with an accepted command byte, a length field of `3`, all of its header and one more byte: the header
is counted with the start token, which is not in the body. -/
def HasLengthThree (u : List UInt8) : Prop :=
  AcceptedCommand (u.headD 0) ∧ bodyLength u = 3 ∧ bodyHeader u ≤ u.length

/-- The stream carries such a body after its first start token. -/
def LengthThree (s : List UInt8) : Prop :=
  ∃ g t, s = g ++ START_TOKEN :: t ∧ START_TOKEN ∉ g ∧ HasLengthThree (unstuff ESCAPE_TOKEN false t).1

theorem lengthThree_iff {g t : List UInt8} (hg : START_TOKEN ∉ g) :
    LengthThree (g ++ START_TOKEN :: t) ↔ HasLengthThree (unstuff ESCAPE_TOKEN false t).1 := by
  constructor
  · rintro ⟨g', t', hs, hg', h⟩
    rwa [eq_of_first hg hg' hs]
  · exact fun h => ⟨g, t, rfl, hg, h⟩

theorem bodyLength_append {u : List UInt8} (hu : 3 ≤ u.length) (v : List UInt8) :
    bodyLength (u ++ v) = bodyLength u := by
  rcases u with _ | ⟨b, _ | ⟨l₀, _ | ⟨l₁, t⟩⟩⟩ <;> simp at hu
  rfl

/-- A body with a length field of `3` is not open. -/
theorem not_hasLengthThree {u : List UInt8} (h : Open u) : ¬ HasLengthThree u := by
  rintro ⟨hcmd, h3, hlen⟩
  have h7 : 7 ≤ bodyHeader u := le_headerLength _
  obtain ⟨-, hopen⟩ := h (ne_nil_of_header (by omega))
  rw [bodyFrameLength] at hopen
  omega

/-- Once the header is read, it is the length field that decides. -/
theorem hasLengthThree_append {u : List UInt8} (h : Open u) (hread : bodyHeader u ≤ u.length + 1) (c : UInt8)
    (v : List UInt8) : HasLengthThree (u ++ [c] ++ v) ↔ bodyLength u = 3 := by
  have hu := ne_nil_of_header hread
  have h7 : 7 ≤ bodyHeader u := le_headerLength _
  rw [List.append_assoc, HasLengthThree, headD_append hu, bodyHeader_append hu, bodyLength_append (by omega)]
  simp only [List.length_append, List.length_cons, List.length_nil]
  exact ⟨fun hx => hx.2.1, fun h3 => ⟨(h hu).1, h3, by omega⟩⟩

/-- **The receive path panics on a length field of `3`, and on nothing else**, however the
stream is cut. -/
theorem receivesSafely_iff (ign : Bool) (chunks : List (List UInt8)) :
    ReceivesSafely ign chunks ↔ ¬ LengthThree chunks.flatten := by
  have hnew : (new ign).complete = false := rfl
  rcases new_cases chunks.flatten with hs | ⟨g, t, hs, hg, hopen⟩ | ⟨g, t₀, c, t₁, h⟩
  · -- no start token: every byte is skipped
    refine iff_of_true (receivesSafely_of_feed (feed_pass hnew (pass_idle hs ign 0))) ?_
    rintro ⟨g, t, ht, -⟩
    exact hs (by simp [ht])
  · -- the body stays open: the parser keeps receiving
    have hpass := pass_new hg hopen ign
    rw [← hs] at hpass
    refine iff_of_true (receivesSafely_of_feed (feed_pass hnew hpass)) ?_
    rw [hs, lengthThree_iff hg]
    exact not_hasLengthThree hopen
  · -- the body closes: by which branch of `consume`
    have hstep := h.step_eq ign
    have hthree : LengthThree chunks.flatten ↔ HasLengthThree ((unstuff ESCAPE_TOKEN false t₀).1 ++ [c] ++
        (unstuff ESCAPE_TOKEN false t₁).1) := by
      rw [h.split, lengthThree_iff h.skipped, h.body_eq]
    have h7 : 7 ≤ bodyHeader (unstuff ESCAPE_TOKEN false t₀).1 := le_headerLength _
    rcases push_cases h.isOpen c with hnext | ⟨hnil, hcmd⟩ | ⟨hread, hlast⟩ | ⟨hread, hlast⟩ | ⟨hread, hlast⟩
    · exact absurd hnext h.closed
    · -- a command byte that is not accepted
      obtain ⟨t, ht⟩ := push_badCommand hcmd ign (g.length + 1 + t₀.length + 1) (START_TOKEN :: t₀ ++ [c])
      rw [hnil, ht] at hstep
      obtain ⟨i, hfeed⟩ := feed_error hnew h.eq_append (h.pass_left ign) (hnil ▸ hstep)
      refine iff_of_true (receivesSafely_of_feed hfeed) ?_
      rw [hthree, hnil]
      exact fun hx => hcmd hx.1
    · -- the last byte of a frame that has room for its header
      rw [push_last h.isOpen c hread hlast] at hstep
      refine iff_of_true ?_ ?_
      · split_ifs at hstep
        · exact receivesSafely_of_feed (feed_complete hnew h.eq_append (h.pass_left ign) hstep rfl)
        · obtain ⟨i, hfeed⟩ := feed_error hnew h.eq_append (h.pass_left ign) hstep
          exact receivesSafely_of_feed hfeed
      · rw [hthree, hasLengthThree_append h.isOpen (by omega)]
        rw [bodyFrameLength] at hlast
        omega
    · -- the last byte of a frame whose header reaches into the CRC
      rw [push_panics h.isOpen c hread hlast] at hstep
      have hfeed := feed_panics hnew h.eq_append (h.pass_left ign) hstep
      refine iff_of_false ?_ ?_
      · rintro ⟨rx, r, hok, -⟩
        rw [hfeed] at hok
        cases hok
      · rw [not_not, hthree, hasLengthThree_append h.isOpen hread.le]
        rw [bodyFrameLength] at hlast
        omega
    · -- one byte past a frame that ends before its header does
      obtain ⟨t, ht⟩ := push_exceeds h.isOpen c hread hlast ign (g.length + 1 + t₀.length + 1)
        (START_TOKEN :: t₀ ++ [c])
      obtain ⟨i, hfeed⟩ := feed_error hnew h.eq_append (h.pass_left ign) (hstep.trans ht)
      refine iff_of_true (receivesSafely_of_feed hfeed) ?_
      rw [hthree, hasLengthThree_append h.isOpen hread.le]
      rw [bodyFrameLength] at hlast
      omega

/-- A read frame with a length field of `3` and its eighth byte. -/
theorem feed_lengthThree_panics :
    (new false).feed [[0x2b, 0x01, 0x03, 0x00, 0x00, 0x00, 0x00, 0x00]] = .error .sliceOrder ∧
      ¬ ReceivesSafely false [[0x2b, 0x01, 0x03, 0x00, 0x00, 0x00, 0x00, 0x00]] := by
  have h : (new false).feed [[0x2b, 0x01, 0x03, 0x00, 0x00, 0x00, 0x00, 0x00]] = .error .sliceOrder := by
    rfl
  refine ⟨h, ?_⟩
  rintro ⟨rx, r, hok, -⟩
  rw [h] at hok
  cases hok

end ReceiveFrame

end RctPower
