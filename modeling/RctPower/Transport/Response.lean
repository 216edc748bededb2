import RctPower.Lib.Connection
import RctPower.Transport.Exchange

/-!
# The device's responses

What a device sends to a client that behaves: well-formed response frames of the standard
type and nothing else. A `Response` is one of them as it is on the wire, which the frame does
not decide: a device may escape more bytes than it has to.

The clients and the proxy receive responses over connections that deliver the bytes in
pieces of any size (`Lib.Connection`). `Response.eq_of_firstComplete` is what a receive loop
can rely on there: if the pending answers start with a response and a parser has completed, then
it has received this response, to its end.
-/

namespace RctPower

open RctPower.Lib RctPower.Lib.Rust RctPower.Lib.EarlyExit RctPower.Lib.Stuffing

/-- A response on the wire. -/
structure Response where
  /-- The frame. -/
  frame : StdFrame
  /-- Its bytes after the start token. -/
  escaped : List UInt8
  /-- The command is that of a response. -/
  isResponse : frame.command.isResponse
  /-- The bytes are those of the frame, with escapes. -/
  unstuffs : unstuff ESCAPE_TOKEN false escaped = (frame.body, false)

namespace Response

/-- The bytes of a response. -/
def bytes (r : Response) : List UInt8 := START_TOKEN :: r.escaped

/-- A response escaped as `make_frame` escapes. -/
def ofFrame (f : StdFrame) (h : f.command.isResponse) : Response := ⟨f, f.bytes.tail, h, unstuff_wire f.body⟩

instance : Inhabited Response := ⟨ofFrame (.response 0 [] (Nat.zero_le 4)) rfl⟩

variable (r : Response)

/-- A fresh parser completes a response. -/
theorem completes :
    ∃ rx, ReceiveFrame.Completes r.bytes rx ∧ rx.Parsed r.frame.command r.frame.id 0 r.frame.payload ∧
      rx.wireBytes = r.bytes := by
  obtain ⟨rx, hcompletes, hparsed, hwire, -⟩ := ReceiveFrame.completes_standard r.frame r.unstuffs (g := []) (by simp)
  exact ⟨rx, hcompletes, hparsed, hwire⟩

variable {r} {τ : Type} {as : List (τ × Response)} {taken : List UInt8} {rx : ReceiveFrame}

/-- **The first response pending** is what a parser that completes has received, to its end. -/
theorem eq_of_firstComplete {t : τ} (hpre : taken <+: Connection.stream Response.bytes ((t, r) :: as))
    (h : FirstComplete taken rx) :
    r.bytes <+: taken ∧ rx.data = r.frame.payload ∧ rx.wireBytes = r.bytes ∧ rx.consumedBytes = r.bytes.length := by
  obtain ⟨more, hmore⟩ := hpre
  obtain ⟨s, rest, rfl, hcompletes⟩ := h
  obtain ⟨rx', hcompletes', hparsed, hwire⟩ := r.completes
  rw [Connection.stream_cons, List.append_assoc] at hmore
  obtain ⟨rfl, rfl⟩ := hcompletes.unique hcompletes' hmore
  exact ⟨List.prefix_append _ _, hparsed.data, hwire, hcompletes.consumedBytes⟩

/-- A response that has been passed in part has not been passed to its end. -/
theorem length_lt_of_pass {t : τ} (hpre : taken <+: Connection.stream Response.bytes ((t, r) :: as))
    (h : passed ReceiveFrame.step (.new false) taken = some rx) : taken.length < r.bytes.length := by
  obtain ⟨rx', hcompletes, -⟩ := r.completes
  by_contra hle
  rw [Connection.stream_cons] at hpre
  obtain ⟨more, rfl⟩ := List.prefix_of_prefix_length_le (List.prefix_append r.bytes _) hpre (Nat.le_of_not_lt hle)
  exact hcompletes.not_pass h

/-- Without responses pending nothing completes. -/
theorem not_firstComplete_nil (hpre : taken <+: Connection.stream Response.bytes ([] : List (τ × Response))) :
    ¬ FirstComplete taken rx := by
  obtain rfl := List.prefix_nil.mp hpre
  rintro ⟨s, rest, hs, s₀, c, rx₀, rfl, -⟩
  simp at hs

/-- Responses do not make a receive loop panic. -/
theorem readOnce_ne_panics {ε : Type} {policy : ReadPolicy ε} {ev : ReadEvent ε}
    (hpass : passed ReceiveFrame.step (.new false) taken = some rx)
    (hpre : taken ++ policy.taken ev <+: Connection.stream Response.bytes as) (p : Panic) :
    readOnce policy rx ev ≠ .panics p := by
  cases as with
  | nil =>
    obtain ⟨rx', hcompletes, -⟩ := (default : Response).completes
    have hnil : taken ++ policy.taken ev <+: (default : Response).bytes ++ [] := hpre.trans List.nil_prefix
    exact RctPower.readOnce_ne_panics hpass hcompletes hnil p
  | cons a as =>
    obtain ⟨rx', hcompletes, -⟩ := a.2.completes
    rw [Connection.stream_cons] at hpre
    exact RctPower.readOnce_ne_panics hpass hcompletes hpre p

end Response

end RctPower
