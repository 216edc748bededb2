import RctPower.Protocol.Grammar
import RctPower.Protocol.Reachable
import RctPower.Transport.Exchange

/-!
# What arrives

A receive loop seen from outside. In some turns it gives up whatever the bytes are: the deadline has passed,
the read has failed or the peer has closed (`givesUp`). The bytes of the turns before the first of these
are what arrives.

## What is proved

`receive_eq_consume`: the loop is one call of `consume` over what arrives, up to the offset in an error. So the
bytes and the clock decide it: it hands on a frame if and only if that is the first among the bytes
(`receive_ok_iff`), it panics if and only if they carry a length field of `3` (`receive_panics_iff`), and it is
still going if and only if it has not given up and they are the beginning of a frame (`receive_none_iff`).
-/

namespace RctPower

open RctPower.Lib.Rust RctPower.Lib.EarlyExit RctPower.Lib.Stuffing ReceiveFrame

/-- A result without the offset in its error. -/
def settled {α : Type} (r : Except RctError α) : Except RctError α := r.mapError (RctError.mapConsumed fun _ => 0)

@[simp] theorem settled_ok {α : Type} (a : α) : settled (.ok a : Except RctError α) = .ok a := rfl

theorem settled_error {α : Type} (e : RctError) :
    settled (.error e : Except RctError α) = .error (e.mapConsumed fun _ => 0) := rfl

@[simp] theorem settled_settled {α : Type} (r : Except RctError α) : settled (settled r) = settled r := by
  cases r with
  | ok a => rfl
  | error e => cases e <;> rfl

section Settled

variable {α : Type} {x : Checked (Option (Except RctError α))}

theorem map_settled_eq_error_iff {p : Panic} : x.map (·.map settled) = .error p ↔ x = .error p := by
  rcases x with q | r <;> simp [Except.map]

theorem map_settled_eq_none_iff : x.map (·.map settled) = .ok none ↔ x = .ok none := by
  rcases x with q | (_ | r) <;> simp [Except.map]

theorem map_settled_eq_ok_iff {a : α} : x.map (·.map settled) = .ok (some (.ok a)) ↔ x = .ok (some (.ok a)) := by
  rcases x with q | (_ | (e | b)) <;> simp [Except.map, settled_error]

end Settled

/-! ### Streams -/

/-- The bytes are no frame yet, and not wrong: no start token has come, or the body after the first is open. -/
def Pending (bytes : List UInt8) : Prop :=
  START_TOKEN ∉ bytes ∨
    ∃ g t, bytes = g ++ START_TOKEN :: t ∧ START_TOKEN ∉ g ∧ Open (unstuff ESCAPE_TOKEN false t).1

/-- A fresh parser is still receiving. -/
theorem pending_iff {bytes : List UInt8} : Pending bytes ↔ ∃ rx, passed step (.new false) bytes = some rx := by
  constructor
  · rintro (hs | ⟨g, t, rfl, hg, hopen⟩)
    · exact ⟨_, pass_idle hs false 0⟩
    · exact ⟨_, pass_new hg hopen false⟩
  · rintro ⟨rx, hpass⟩
    have hshape : Shape false ([] ++ bytes) rx := (@Shape.idle false [] List.not_mem_nil).pass hpass
    rw [List.nil_append] at hshape
    have hcomplete := complete_of_pass hpass
    cases hshape with
    | idle hg => exact .inl hg
    | reading hg hopen => exact .inr ⟨_, _, rfl, hg, hopen⟩
    | finished hg hv hcrc => cases hcomplete

/-- A call of `consume` panics only over a length field of `3`. -/
theorem consume_panics_iff (bytes : List UInt8) :
    (∃ p, (ReceiveFrame.new false).consume bytes = .error p) ↔ LengthThree bytes := by
  have hsafe := receivesSafely_iff false [bytes]
  rw [List.flatten_singleton] at hsafe
  have hcall := @feed_eq_consume (.new false) rfl [bytes]
  rw [List.flatten_singleton, feedOutcome] at hcall
  rw [← not_iff_not, ← hsafe]
  constructor
  · intro hnone
    cases hfeed : (ReceiveFrame.new false).feed [bytes] with
    | error p =>
      rw [hfeed] at hcall
      cases hc : (ReceiveFrame.new false).consume bytes with
      | error q => exact absurd ⟨q, hc⟩ hnone
      | ok out =>
        rw [hc] at hcall
        cases hcall
    | ok out => exact receivesSafely_of_feed hfeed
  · rintro ⟨rx, r, hfeed, -⟩ ⟨p, hp⟩
    rw [hfeed, hp] at hcall
    cases hcall

/-- A call of `consume` completes exactly over a stream that starts with a frame. -/
theorem firstComplete_iff {bytes : List UInt8} {rx : ReceiveFrame} :
    FirstComplete bytes rx ↔ (∃ n, (ReceiveFrame.new false).consume bytes = .ok (rx, .ok n)) ∧ rx.complete = true := by
  constructor
  · rintro ⟨s, rest, rfl, hcompletes⟩
    obtain ⟨-, -, -, -, -, -, hcomplete⟩ := id hcompletes
    exact ⟨⟨_, hcompletes.consume rest⟩, hcomplete⟩
  · rintro ⟨⟨n, hconsume⟩, hcomplete⟩
    exact completes_of_consume hconsume hcomplete

/-- A value decoded from the first frame among the bytes. -/
def DecodedFromFirst (bytes : List UInt8) (respType : DataType) (v : DataValue) : Prop :=
  ∃ frame body, FirstFrame bytes frame body ∧ bodyData body ≠ [] ∧ decodeValue respType (bodyData body) = .ok (.ok v)

/-- A first frame, as a parser state. -/
theorem FirstFrame.exists_data {bytes frame body : List UInt8} (h : FirstFrame bytes frame body) :
    ∃ rx, FirstComplete bytes rx ∧ rx.data = bodyData body := by
  obtain ⟨rx, hrx, -, -⟩ := h.exists_complete
  obtain ⟨body', hframe, hdata⟩ := hrx.exists_frame
  obtain ⟨-, rfl⟩ := h.unique hframe
  exact ⟨rx, hrx, hdata⟩

theorem decodedFromFirst_iff {bytes : List UInt8} {respType : DataType} {v : DataValue} :
    DecodedFromFirst bytes respType v ↔
      ∃ rx, FirstComplete bytes rx ∧ rx.data ≠ [] ∧ decodeValue respType rx.data = .ok (.ok v) := by
  constructor
  · rintro ⟨frame, body, hframe, hdata, hv⟩
    obtain ⟨rx, hrx, hbody⟩ := hframe.exists_data
    exact ⟨rx, hrx, hbody ▸ hdata, hbody ▸ hv⟩
  · rintro ⟨rx, hrx, hdata, hv⟩
    obtain ⟨body, hframe, hbody⟩ := hrx.exists_frame
    rw [hbody] at hdata hv
    exact ⟨_, body, hframe, hdata, hv⟩

/-! ### The loop -/

variable {ε : Type} {policy : ReadPolicy ε}

/-- What a turn that reads no bytes ends the loop with, if it does. -/
def ReadPolicy.givesUp (policy : ReadPolicy ε) (ev : ReadEvent ε) : Option RctError :=
  if policy.expired ev.now then some .timeout
  else
    match ev.got with
    | .error e => policy.failure e
    | .ok [] => some .timeout
    | .ok _ => none

/-- The turn gives bytes, or the loop goes on without. -/
def ReadPolicy.hears (policy : ReadPolicy ε) (ev : ReadEvent ε) : Bool := (policy.givesUp ev).isNone

/-- The bytes of the turns before the first that is not good. -/
def ReadEvent.bytesWhile (good : ReadEvent ε → Bool) (reads : List (ReadEvent ε)) : List UInt8 :=
  allBytes (reads.takeWhile good)

/-- The loop from a parser on, with what it hands on. -/
def receiveFrom (policy : ReadPolicy ε) (rx : ReceiveFrame) (reads : List (ReadEvent ε)) :
    Checked (Option (Except RctError ReceiveFrame)) :=
  (loop (readOnce policy) rx reads).map fun out => out.2.map fun r => r.1.map fun _ => out.1

/-- A turn that goes on leaves the rest of the loop. -/
theorem receiveFrom_next {rx rx' : ReceiveFrame} {ev : ReadEvent ε} (h : readOnce policy rx ev = .next rx')
    (evs : List (ReadEvent ε)) : receiveFrom policy rx (ev :: evs) = receiveFrom policy rx' evs := by
  rw [receiveFrom, receiveFrom, loop, h]
  dsimp only
  cases loop (readOnce policy) rx' evs with
  | error p => rfl
  | ok out => rcases out with ⟨t, _ | r⟩ <;> rfl

/-- A turn that returns ends it. -/
theorem receiveFrom_ret {rx rx' : ReceiveFrame} {ev : ReadEvent ε} {r : Except RctError Unit}
    (h : readOnce policy rx ev = .ret rx' r) (evs : List (ReadEvent ε)) :
    receiveFrom policy rx (ev :: evs) = .ok (some (r.map fun _ => rx')) := by
  rw [receiveFrom, loop, h]
  rfl

/-- So does a panic. -/
theorem receiveFrom_panics {rx : ReceiveFrame} {ev : ReadEvent ε} {p : Panic} (h : readOnce policy rx ev = .panics p)
    (evs : List (ReadEvent ε)) : receiveFrom policy rx (ev :: evs) = .error p := by
  rw [receiveFrom, loop, h]
  rfl

/-- A turn that gives up leaves the parser as it is. -/
theorem readOnce_of_givesUp {rx : ReceiveFrame} {ev : ReadEvent ε} {ending : RctError}
    (h : policy.givesUp ev = some ending) : readOnce policy rx ev = .ret rx (.error ending) := by
  rw [ReadPolicy.givesUp] at h
  rw [readOnce]
  split_ifs at h ⊢
  · rw [← Option.some.inj h]
  rcases hgot : ev.got with e | (_ | ⟨c, cs⟩)
  · rw [hgot] at h
    simp only [show policy.failure e = some ending from h]
  · rw [hgot] at h
    rw [← Option.some.inj h]
  · rw [hgot] at h
    cases h

/-- Any other turn hands what it has read to the parser. -/
theorem readOnce_of_hears {rx : ReceiveFrame} {ev : ReadEvent ε} (h : policy.givesUp ev = none)
    (hrx : rx.complete = false) :
    readOnce policy rx ev = .after (rx.consume ev.bytes) fun out =>
      match out with
      | (rx', .error e) => .ret rx' (.error e)
      | (rx', .ok _) => if rx'.complete then .ret rx' (.ok ()) else .next rx' := by
  rw [ReadPolicy.givesUp] at h
  split_ifs at h with htime
  rw [Bool.not_eq_true] at htime
  rw [ReadEvent.bytes]
  rcases hgot : ev.got with e | (_ | ⟨c, cs⟩)
  · rw [hgot] at h
    rw [readOnce_of_wait htime hgot h, consume_pass (pass_nil step rx), Flow.after_ok]
    simp [hrx]
  · rw [hgot] at h
    cases h
  · exact readOnce_of_got htime hgot (List.cons_ne_nil c cs)

/-- What the loop makes of what arrives, from a parser on. -/
def heardFrom (rx : ReceiveFrame) (bytes : List UInt8) (ending : Option RctError) :
    Checked (Option (Except RctError ReceiveFrame)) :=
  (rx.consume bytes).map fun out =>
    match outcome out.2 with
    | .error e => some (.error e)
    | .ok () => if out.1.complete then some (.ok out.1) else ending.map fun e => settled (.error e)

section Heard

variable {rx : ReceiveFrame} {bytes : List UInt8} {ending : Option RctError}

theorem heardFrom_eq_error_iff {p : Panic} : heardFrom rx bytes ending = .error p ↔ rx.consume bytes = .error p := by
  rw [heardFrom]
  cases rx.consume bytes <;> simp [Except.map]

theorem heardFrom_eq_ok_iff {t : ReceiveFrame} :
    heardFrom rx bytes ending = .ok (some (.ok t)) ↔ (∃ n, rx.consume bytes = .ok (t, .ok n)) ∧ t.complete = true := by
  rw [heardFrom]
  rcases rx.consume bytes with p | ⟨u, e | n⟩
  · simp [Except.map]
  · simp [Except.map, outcome]
  · cases hcomplete : u.complete <;> cases ending <;> simp [Except.map, outcome, hcomplete, settled_error]
    all_goals
      rintro rfl
      simp [hcomplete]

theorem heardFrom_eq_none_iff :
    heardFrom rx bytes ending = .ok none ↔
      ending = none ∧ ∃ t n, rx.consume bytes = .ok (t, .ok n) ∧ t.complete = false := by
  rw [heardFrom]
  rcases rx.consume bytes with p | ⟨u, e | n⟩
  · simp [Except.map]
  · simp [Except.map, outcome]
  · cases hcomplete : u.complete <;> simp [Except.map, outcome, hcomplete]

end Heard

/-- Bytes that are passed leave it to what follows them. -/
theorem heardFrom_append {rx rx' : ReceiveFrame} {a : List UInt8} (h : passed step rx a = some rx') (b : List UInt8)
    (ending : Option RctError) : heardFrom rx (a ++ b) ending = heardFrom rx' b ending := by
  rw [heardFrom, heardFrom, consume_append h]
  cases rx'.consume b with
  | error p => rfl
  | ok out => simp only [Except.map, outcome_later]

/-- **A receive loop is one call of `consume`** over what arrives, from any parser that is still receiving. -/
theorem receiveFrom_eq_consume {rx : ReceiveFrame} (hrx : rx.complete = false) (reads : List (ReadEvent ε)) :
    (receiveFrom policy rx reads).map (·.map settled) =
      heardFrom rx (ReadEvent.bytesWhile policy.hears reads) (reads.findSome? policy.givesUp) := by
  induction reads generalizing rx with
  | nil =>
    rw [heardFrom, ReadEvent.bytesWhile, List.takeWhile_nil, ReadEvent.allBytes, List.flatMap_nil,
      consume_pass (pass_nil step rx)]
    simp [receiveFrom, loop, Except.map, outcome, hrx]
  | cons ev evs ih =>
    cases hup : policy.givesUp ev with
    | some ending =>
      have hbytes : ReadEvent.bytesWhile policy.hears (ev :: evs) = [] := by
        simp [ReadEvent.bytesWhile, ReadEvent.allBytes, ReadPolicy.hears, hup]
      rw [receiveFrom_ret (readOnce_of_givesUp hup), hbytes, List.findSome?_cons_of_isSome (by simp [hup]), hup,
        heardFrom, consume_pass (pass_nil step rx)]
      simp [Except.map, outcome, hrx]
    | none =>
      have hbytes : ReadEvent.bytesWhile policy.hears (ev :: evs) =
          ev.bytes ++ ReadEvent.bytesWhile policy.hears evs := by
        simp [ReadEvent.bytesWhile, ReadEvent.allBytes, ReadPolicy.hears, hup]
      rw [hbytes, List.findSome?_cons_of_isNone (by simp [hup])]
      have hturn := readOnce_of_hears hup hrx
      rcases consume_cases rx ev.bytes with ⟨rx', hpass, hc⟩ | ⟨a, c, b, rx₀, t, r, hcut, hpass, hstep, hc⟩ |
          ⟨a, c, b, rx₀, p, hcut, hpass, hstep, hc⟩
      · -- the bytes of the turn are passed
        have hrx' : rx'.complete = false := (complete_of_pass hpass).trans hrx
        have hnext : readOnce policy rx ev = .next rx' := by
          rw [hturn, hc, Flow.after_ok]
          exact if_neg (by simp [hrx'])
        rw [receiveFrom_next hnext, heardFrom_append hpass]
        exact ih hrx'
      · -- the frame is complete within them, or wrong
        rw [hcut, List.append_assoc, List.cons_append, heardFrom, consume_stop hpass hstep]
        rcases step_ret hstep with ⟨rfl, hcomplete⟩ | herr
        · have hret : readOnce policy rx ev = .ret t (.ok ()) := by
            rw [hturn, hc, Flow.after_ok]
            exact if_pos hcomplete
          rw [receiveFrom_ret hret]
          simp [Except.map, outcome, hcomplete]
        · obtain ⟨e, he⟩ := herr (a.length + 1)
          have hret : readOnce policy rx ev = .ret t (.error e) := by
            rw [hturn, hc, he, Flow.after_ok]
          rw [receiveFrom_ret hret, he]
          rfl
      · have hpanics : readOnce policy rx ev = .panics p := by
          rw [hturn, hc, Flow.after_error]
        rw [receiveFrom_panics hpanics, hcut, List.append_assoc, List.cons_append, heardFrom,
          consume_panics hpass hstep]
        rfl

theorem receive_eq_consume (reads : List (ReadEvent ε)) :
    (receive policy reads).map (·.map settled) =
      heardFrom (.new false) (ReadEvent.bytesWhile policy.hears reads) (reads.findSome? policy.givesUp) :=
  receiveFrom_eq_consume rfl reads

/-! ### How a loop ends, by the bytes -/

/-- **A loop hands on a frame exactly if that is the first that arrives.** -/
theorem receive_ok_iff {reads : List (ReadEvent ε)} {rx : ReceiveFrame} :
    receive policy reads = .ok (some (.ok rx)) ↔ FirstComplete (ReadEvent.bytesWhile policy.hears reads) rx := by
  rw [← map_settled_eq_ok_iff, receive_eq_consume, heardFrom_eq_ok_iff, firstComplete_iff]

/-- **A loop panics exactly if a length field of `3` arrives.** -/
theorem receive_panics_iff {reads : List (ReadEvent ε)} :
    (∃ p, receive policy reads = .error p) ↔ LengthThree (ReadEvent.bytesWhile policy.hears reads) := by
  rw [← consume_panics_iff]
  refine exists_congr fun p => ?_
  rw [← map_settled_eq_error_iff, receive_eq_consume, heardFrom_eq_error_iff]

/-- All bytes have arrived if no turn is bad. -/
theorem bytesWhile_of_forall {good : ReadEvent ε → Bool} {reads : List (ReadEvent ε)}
    (h : ∀ ev ∈ reads, good ev = true) : ReadEvent.bytesWhile good reads = ReadEvent.allBytes reads := by
  rw [ReadEvent.bytesWhile, List.takeWhile_eq_self_iff.mpr h]

/-- **A loop is still going exactly if it has not given up, and what has arrived is the beginning of a frame.** -/
theorem receive_none_iff {reads : List (ReadEvent ε)} :
    receive policy reads = .ok none ↔
      (∀ ev ∈ reads, policy.hears ev = true) ∧ Pending (ReadEvent.allBytes reads) := by
  have hall : reads.findSome? policy.givesUp = none ↔ ∀ ev ∈ reads, policy.hears ev = true := by
    simp [List.findSome?_eq_none_iff, ReadPolicy.hears]
  rw [← map_settled_eq_none_iff, receive_eq_consume, heardFrom_eq_none_iff, hall, pending_iff]
  refine and_congr_right fun hhears => ?_
  rw [bytesWhile_of_forall hhears]
  constructor
  · rintro ⟨rx, n, hconsume, hcomplete⟩
    exact ⟨rx, pass_of_consume hconsume hcomplete⟩
  · rintro ⟨rx, hpass⟩
    exact ⟨rx, _, consume_pass hpass, complete_of_pass hpass⟩

end RctPower
