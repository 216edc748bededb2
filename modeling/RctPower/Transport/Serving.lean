import RctPower.Transport.ProxySteps
import RctPower.Transport.Resync

/-!
# The requests of a session, in order

What a client asks for is a function of the bytes that have been read from it: its `frames`. A task of
the proxy takes them one after the other. At any time some have had their exchange, and the rest are what
the task holds and what it will find in the bytes to come (`Session.pending`).

`Follows` says so of all tasks at once, beside the numbers that the requests have. It is an invariant of
the proxy alone, whatever its peers do (`Follows.steps`).
-/

namespace RctPower

open RctPower.Lib.Rust RctPower.Lib.EarlyExit ReceiveFrame
open scoped List

/-- The frames that a task finds in some bytes, up to a panic. -/
def frames : ReceiveFrame → List UInt8 → List (List UInt8)
  | _, [] => []
  | rx, c :: rest =>
    match rx.consume [c] with
    | .error _ => []
    | .ok (rx', .ok _) => if rx'.complete then rx'.wireBytes :: frames (.new false) rest else frames rx' rest
    | .ok (_, .error _) => frames (.new false) rest

/-- The request that a task waits for the exchange of, and the frames of what it has not looked at. -/
def Session.pending : Session → List UInt8 → List (List UInt8)
  | .reading rx, more => frames rx more
  | .exchanging wire rest, more => wire :: frames (.new false) (rest ++ more)
  | .responding _ rest, more => frames (.new false) (rest ++ more)
  | .closed, _ => []
  | .panicked, _ => []

/-- A task that goes on. -/
def Session.Open (task : Session) : Prop := task ≠ .closed ∧ task ≠ .panicked

/-! ### Bytes -/

section Frames

variable {rx rx' t : ReceiveFrame} {c : UInt8}

theorem frames_next (hrx : rx.complete = false) (h : rx.step c = .next rx') (rest : List UInt8) :
    frames rx (c :: rest) = frames rx' rest := by
  have hconsume := consume_pass (pass_cons_next step h [])
  simp only [frames, hconsume, (complete_of_next h).trans hrx, Bool.false_eq_true, if_false]

theorem frames_complete (h : rx.step c = .ret t .ok) (ht : t.complete = true) (rest : List UInt8) :
    frames rx (c :: rest) = t.wireBytes :: frames (.new false) rest := by
  have hconsume := consume_stop (pass_nil step rx) h []
  rw [List.nil_append] at hconsume
  simp only [frames, hconsume, ht, if_true]

theorem frames_error {e : ℕ → RctError} (h : rx.step c = .ret t fun i => .error (e i)) (rest : List UInt8) :
    frames rx (c :: rest) = frames (.new false) rest := by
  have hconsume := consume_stop (pass_nil step rx) h []
  rw [List.nil_append] at hconsume
  simp only [frames, hconsume]

theorem frames_panics {p : Panic} (h : rx.step c = .panics p) (rest : List UInt8) : frames rx (c :: rest) = [] := by
  have hconsume := consume_panics (pass_nil step rx) h []
  rw [List.nil_append] at hconsume
  simp only [frames, hconsume]

/-- **The loop over one read** finds the frames, up to the next wait. -/
theorem frames_append (hrx : rx.complete = false) (bytes more : List UInt8) :
    frames rx (bytes ++ more) = (Session.forward rx bytes).pending more := by
  induction bytes generalizing rx with
  | nil => rfl
  | cons c bytes ih =>
    rw [List.cons_append]
    rcases byte_cases rx c with ⟨t, hc⟩ | ⟨t, hc, ht⟩ | ⟨t, e, hc⟩ | ⟨p, hc⟩
    · rw [frames_next hrx hc, forward_next hrx hc]
      exact ih ((complete_of_next hc).trans hrx)
    · rw [frames_complete hc ht, forward_complete hc ht]
      rfl
    · rw [frames_error hc, forward_error hc]
      exact ih rfl
    · rw [frames_panics hc, forward_panics hc]
      rfl

/-- More bytes do not change the frames that there are. -/
theorem frames_prefix_append (hrx : rx.complete = false) (bytes more : List UInt8) :
    frames rx bytes <+: frames rx (bytes ++ more) := by
  induction bytes generalizing rx with
  | nil => exact List.nil_prefix
  | cons c bytes ih =>
    rw [List.cons_append]
    rcases byte_cases rx c with ⟨t, hc⟩ | ⟨t, hc, ht⟩ | ⟨t, e, hc⟩ | ⟨p, hc⟩
    · rw [frames_next hrx hc, frames_next hrx hc]
      exact ih ((complete_of_next hc).trans hrx)
    · rw [frames_complete hc ht, frames_complete hc ht]
      exact List.cons_prefix_cons.mpr ⟨rfl, ih rfl⟩
    · rw [frames_error hc, frames_error hc]
      exact ih rfl
    · rw [frames_panics hc]
      exact List.nil_prefix

/-- Unless the task panics, its frames are those that it forwards. -/
theorem frames_of_requests (hrx : rx.complete = false) {bytes : List UInt8} {out : List (List UInt8)}
    (h : requests rx bytes = some (out, rx')) : frames rx bytes = out := by
  induction bytes generalizing rx out with
  | nil =>
    obtain ⟨rfl, -⟩ : [] = out ∧ rx = rx' := by simpa [requests] using h
    rfl
  | cons c bytes ih =>
    rcases byte_cases rx c with ⟨t, hc⟩ | ⟨t, hc, ht⟩ | ⟨t, e, hc⟩ | ⟨p, hc⟩
    · rw [requests_next hrx hc] at h
      rw [frames_next hrx hc]
      exact ih ((complete_of_next hc).trans hrx) h
    · rw [requests_complete hc ht] at h
      obtain ⟨⟨later, rx₁⟩, hlater, hout⟩ := Option.map_eq_some_iff.mp h
      obtain ⟨rfl, rfl⟩ : t.wireBytes :: later = out ∧ rx₁ = rx' := by simpa [prepend] using hout
      rw [frames_complete hc ht, ih rfl hlater]
    · rw [requests_error hc] at h
      rw [frames_error hc]
      exact ih rfl h
    · rw [requests_panics hc] at h
      cases h

end Frames

/-- The frames of a stream of standard frames, with bytes without start tokens around them, are
these frames. -/
theorem frames_traffic {pieces : List (List UInt8 × StdFrame)} {last : List UInt8} (hquiet : Quiet pieces last) :
    frames (.new false) (traffic pieces last) = pieces.map fun p => p.2.bytes := by
  suffices h : ∃ rx, requests (.new false) (traffic pieces last) = some (pieces.map fun p => p.2.bytes, rx) by
    obtain ⟨rx, hrx⟩ := h
    exact frames_of_requests rfl hrx
  induction pieces with
  | nil =>
    have hpass := ReceiveFrame.pass_idle hquiet.2 false 0
    rw [ReceiveFrame.idle_zero] at hpass
    have hnew : (ReceiveFrame.new false).complete = false := rfl
    have hrest := requests_append_of_pass hnew hpass []
    rw [List.append_nil] at hrest
    exact ⟨_, hrest⟩
  | cons p pieces ih =>
    obtain ⟨rx, hrx⟩ := ih ⟨fun q hq => hquiet.1 q (List.mem_cons_of_mem _ hq), hquiet.2⟩
    obtain ⟨rx₁, hcomplete, -, hwire, -⟩ := ReceiveFrame.completes_bytes p.2 (hquiet.1 p List.mem_cons_self)
    have hne : p.1 ++ p.2.bytes ≠ [] := fun h => by
      rw [h] at hcomplete
      exact hcomplete.not_pass (pass_nil step _)
    have hfirst := requests_of_completes hne (pass_nil step _) hcomplete
    have hall := (requests_append rfl hfirst (traffic pieces last)).2
    refine ⟨rx, ?_⟩
    rw [show traffic (p :: pieces) last = p.1 ++ p.2.bytes ++ traffic pieces last by simp [traffic], hall, hrx, hwire]
    rfl

/-! ### One wait -/

section Step

variable {task task' : Session} {ev : SessionEvent}

theorem receiving_step (h : task.Receiving) (hstep : task.step ev = some task') : task'.Receiving := by
  cases task with
  | reading rx =>
    cases ev with
    | read got =>
      obtain rfl : Session.onRead rx got = task' := by simpa [Session.step] using hstep
      rcases got with e | (_ | ⟨c, cs⟩)
      · trivial
      · trivial
      · exact receiving_forward h (c :: cs)
    | exchanged r => cases hstep
    | written r => cases hstep
  | exchanging wire rest =>
    cases ev with
    | read got => cases hstep
    | exchanged r =>
      obtain rfl : Session.onExchanged rest r = task' := by simpa [Session.step] using hstep
      cases r with
      | error e => exact receiving_forward rfl rest
      | ok resp =>
        unfold Session.onExchanged
        dsimp only
        split <;> trivial
    | written r => cases hstep
  | responding resp rest =>
    cases ev with
    | read got => cases hstep
    | exchanged r => cases hstep
    | written r =>
      obtain rfl : Session.onWritten rest r = task' := by simpa [Session.step] using hstep
      cases r with
      | error e => trivial
      | ok u => exact receiving_forward rfl rest
  | closed => cases hstep
  | panicked => cases hstep

/-- A wait for the client leaves the requests as they are. -/
theorem pending_step (h : task.Receiving) (hstep : task.step ev = some task') (hev : ∀ r, ev ≠ .exchanged r)
    (hopen : task'.Open) (more : List UInt8) : task.pending (ev.bytes ++ more) = task'.pending more := by
  cases task with
  | reading rx =>
    cases ev with
    | read got =>
      obtain rfl : Session.onRead rx got = task' := by simpa [Session.step] using hstep
      rcases got with e | (_ | ⟨c, cs⟩)
      · exact absurd rfl hopen.1
      · exact absurd rfl hopen.1
      · exact frames_append h (c :: cs) more
    | exchanged r => cases hstep
    | written r => cases hstep
  | exchanging wire rest =>
    cases ev with
    | exchanged r => exact absurd rfl (hev r)
    | read got => cases hstep
    | written r => cases hstep
  | responding resp rest =>
    cases ev with
    | read got => cases hstep
    | exchanged r => cases hstep
    | written r =>
      obtain rfl : Session.onWritten rest r = task' := by simpa [Session.step] using hstep
      cases r with
      | error e => exact absurd rfl hopen.1
      | ok u => exact frames_append rfl rest more
  | closed => cases hstep
  | panicked => cases hstep

/-- After an exchange the requests behind its own are left. -/
theorem pending_exchanged (rest : List UInt8) (r : Except RctError (List UInt8))
    (hopen : (Session.onExchanged rest r).Open) (more : List UInt8) :
    (Session.onExchanged rest r).pending more = frames (.new false) (rest ++ more) := by
  cases r with
  | error e => exact (frames_append rfl rest more).symm
  | ok resp =>
    cases hresp : (ReceiveFrame.new false).consume resp with
    | error p =>
      simp only [Session.onExchanged, hresp] at hopen
      exact absurd rfl hopen.2
    | ok out =>
      simp only [Session.onExchanged, hresp]
      rfl

end Step

/-! ### The tasks together -/

/-- What has been read from the clients. -/
def ProxyEvent.heard (input : ℕ → List UInt8) : ProxyEvent → ℕ → List UInt8
  | .read s got => Function.update input s (input s ++ (SessionEvent.read got).bytes)
  | _ => input

/-- A request is the frame of its client that has its number. -/
def Asked (input : ℕ → List UInt8) (req : Forwarded) : Prop :=
  (frames (.new false) (input req.session))[req.number]? = some req.wire

/-- It stays that, whatever else its client sends. -/
theorem Asked.heard {input : ℕ → List UInt8} {req : Forwarded} (h : Asked input req) (ev : ProxyEvent) :
    Asked (ev.heard input) req := by
  suffices hle : frames (.new false) (input req.session) <+: frames (.new false) (ev.heard input req.session) by
    obtain ⟨more, hmore⟩ := hle
    obtain ⟨hlt, -⟩ := List.getElem?_eq_some_iff.mp h
    rw [Asked, ← hmore, List.getElem?_append_left hlt]
    exact h
  cases ev with
  | read s got =>
    by_cases hs : req.session = s
    · subst hs
      rw [ProxyEvent.heard, Function.update_self]
      exact frames_prefix_append rfl _ _
    · rw [ProxyEvent.heard, Function.update_of_ne hs]
  | _ => exact List.prefix_refl _

namespace ProxyState

/-- How many exchanges of a session have ended. -/
def ended (p : ProxyState) (s : ℕ) : ℕ :=
  match p.holder with
  | some (req, _) => if req.session = s then req.number else p.requests s
  | none => p.requests s

/-- Every task takes the requests of its client in order, and its exchanges are numbered by them. -/
structure Follows (p : ProxyState) (input : ℕ → List UInt8) : Prop where
  /-- The numbers. -/
  numbered : p.Numbered
  /-- The exchange that holds the lock is the last of its session. -/
  last : ∀ {req up}, p.holder = some (req, up) → p.requests req.session = req.number + 1
  /-- The parsers. -/
  receiving : ∀ s, (p.sessions s).Receiving
  /-- What has had its exchange is the first part of the requests, and a task that goes on has the rest. -/
  served : ∀ s, ∃ done, done.length = p.ended s ∧ done <+: frames (.new false) (input s) ∧
    ((p.sessions s).Open → ∀ more, frames (.new false) (input s ++ more) = done ++ (p.sessions s).pending more)

theorem follows_start : start.Follows fun _ => [] where
  numbered := numbered_start
  last := by rintro _ _ ⟨⟩
  receiving _ := rfl
  served _ := ⟨[], rfl, List.nil_prefix, fun _ _ => rfl⟩

variable {cfg : ClientConfig} {p p' : ProxyState} {input : ℕ → List UInt8} {req : Forwarded} {up : Exchanging}

/-- **The exchange that holds the lock** is for the request of its client that has its number. -/
theorem Follows.held (h : p.Follows input) (hholder : p.holder = some (req, up)) :
    ∃ done rest, done.length = req.number ∧ p.sessions req.session = .exchanging req.wire rest ∧
      ∀ more, frames (.new false) (input req.session ++ more) =
        done ++ req.wire :: frames (.new false) (rest ++ more) := by
  obtain ⟨rest, htask⟩ := (h.numbered.current req up hholder).task
  obtain ⟨done, hlen, -, hall⟩ := h.served req.session
  rw [htask] at hall
  refine ⟨done, rest, ?_, htask, hall ⟨nofun, nofun⟩⟩
  simp only [hlen, ended, hholder, if_true]

theorem Follows.asked (h : p.Follows input) (hholder : p.holder = some (req, up)) : Asked input req := by
  obtain ⟨done, rest, hlen, -, hall⟩ := h.held hholder
  have hnow := hall []
  rw [List.append_nil] at hnow
  rw [Asked, hnow, List.getElem?_append_right hlen.le, hlen, Nat.sub_self]
  rfl

/-- The task of the exchange goes on, or not: in any case its request has been dealt with. -/
theorem Follows.taken (h : p.Follows input) (hholder : p.holder = some (req, up)) (hnumbered : p'.Numbered)
    (hfree : p'.holder = none) (hrequests : p'.requests = p.requests) {task : Session}
    (hsessions : p'.sessions = Function.update p.sessions req.session task) (hreceiving : task.Receiving)
    (hpending : ∀ {wire rest}, p.sessions req.session = .exchanging wire rest → task.Open →
      ∀ more, task.pending more = frames (.new false) (rest ++ more)) : p'.Follows input := by
  have hended : ∀ s, s ≠ req.session → p'.ended s = p.ended s := by
    intro s hs
    simp only [ended, hfree, hholder, hrequests, if_neg (Ne.symm hs)]
  refine ⟨hnumbered, ?_, ?_, ?_⟩
  · intro req' up' hreq
    simp [hfree] at hreq
  · intro s
    rw [hsessions]
    by_cases hs : s = req.session
    · subst hs
      rwa [Function.update_self]
    · rw [Function.update_of_ne hs]
      exact h.receiving s
  · intro s
    by_cases hs : s = req.session
    · subst hs
      obtain ⟨done, rest, hlen, htask, hall⟩ := h.held hholder
      refine ⟨done ++ [req.wire], ?_, ?_, fun hopen more => ?_⟩
      · simp only [List.length_append, List.length_singleton, hlen, ended, hfree, hrequests, h.last hholder]
      · have hnow := hall []
        rw [List.append_nil] at hnow
        rw [hnow]
        exact ⟨frames (.new false) (rest ++ []), by simp⟩
      · rw [hsessions, Function.update_self] at hopen ⊢
        rw [hall more, hpending htask hopen more, List.append_assoc]
        rfl
    · rw [hended s hs, hsessions, Function.update_of_ne hs]
      exact h.served s

/-- A task goes on with its client. -/
theorem Follows.client (h : p.Follows input) {s : ℕ} {ev : SessionEvent} (hev : ∀ r, ev ≠ .exchanged r)
    {task : Session} (hstep : (p.sessions s).step ev = some task)
    (hnumbered : ({ p with sessions := Function.update p.sessions s task } : ProxyState).Numbered) :
    ({ p with sessions := Function.update p.sessions s task } : ProxyState).Follows
      (Function.update input s (input s ++ ev.bytes)) := by
  refine ⟨hnumbered, h.last, ?_, ?_⟩
  · intro t
    dsimp only
    by_cases ht : t = s
    · subst ht
      rw [Function.update_self]
      exact receiving_step (h.receiving t) hstep
    · rw [Function.update_of_ne ht]
      exact h.receiving t
  · intro t
    obtain ⟨done, hlen, hdone, hall⟩ := h.served t
    refine ⟨done, hlen, ?_⟩
    by_cases ht : t = s
    · subst ht
      dsimp only
      rw [Function.update_self, Function.update_self]
      refine ⟨hdone.trans (frames_prefix_append rfl _ _), fun hopen more => ?_⟩
      have hbefore : (p.sessions t).Open := by
        constructor <;> intro htask <;> rw [htask] at hstep <;> cases hstep
      rw [List.append_assoc, hall hbefore, pending_step (h.receiving t) hstep hev hopen]
    · dsimp only
      rw [Function.update_of_ne ht, Function.update_of_ne ht]
      exact ⟨hdone, hall⟩

/-- The exchange waits for something else. -/
theorem Follows.next (h : p.Follows input) (hholder : p.holder = some (req, up)) (hnumbered : p'.Numbered)
    {up' : Exchanging} (hholder' : p'.holder = some (req, up')) (hsessions : p'.sessions = p.sessions)
    (hrequests : p'.requests = p.requests) : p'.Follows input := by
  have hended : p'.ended = p.ended := by
    funext s
    simp only [ended, hholder, hholder', hrequests]
  refine ⟨hnumbered, ?_, ?_, ?_⟩
  · intro req' up₁ hreq
    obtain ⟨rfl, -⟩ : req = req' ∧ up' = up₁ := by simpa [hholder'] using hreq
    rw [hrequests]
    exact h.last hholder
  · rw [hsessions]
    exact h.receiving
  · rw [hsessions, hended]
    exact h.served

/-- **Whatever the peers do**, the tasks follow their clients. -/
theorem Follows.step (h : p.Follows input) {ev : ProxyEvent} (hstep : p.step cfg ev = some p') :
    p'.Follows (ev.heard input) := by
  have hnumbered := h.numbered.step hstep
  cases steps_of_step hstep with
  | read hreads => exact h.client (by simp) hreads hnumbered
  | @written s r task hwrites =>
    have hsame : Function.update input s (input s ++ (SessionEvent.written r).bytes) = input := by
      simp [SessionEvent.bytes]
    have hclient := h.client (by simp) hwrites hnumbered
    rwa [hsame] at hclient
  | @locked s wire rest hfree hwaits =>
    have hended : ∀ t, ({ p with
        requests := Function.update p.requests s (p.requests s + 1)
        holder := some (⟨s, p.requests s, wire⟩, if p.pool.isNone then .connecting else .writing) } :
          ProxyState).ended t = p.ended t := by
      intro t
      by_cases ht : s = t
      · simp [ended, hfree, ht]
      · simp [ended, hfree, ht, Ne.symm ht]
    refine ⟨hnumbered, ?_, h.receiving, fun t => ?_⟩
    · rintro req up ⟨⟩
      exact Function.update_self ..
    · rw [hended t]
      exact h.served t
  | connected hholds => exact h.next hholds hnumbered rfl rfl rfl
  | wrote start hholds => exact h.next hholds hnumbered rfl rfl rfl
  | received hholds _ => exact h.next hholds hnumbered rfl rfl rfl
  | @finished req up ev r p' hholds hends hfinish =>
    have hheard : ev.heard input = input := by cases hends <;> rfl
    rw [hheard]
    obtain ⟨hfree, hrequests, -, -⟩ := of_finish hfinish
    obtain ⟨task, htask, rfl⟩ := Option.map_eq_some_iff.mp hfinish
    refine h.taken hholds hnumbered hfree hrequests rfl (receiving_step (h.receiving _) htask) ?_
    intro wire rest hwaits hopen more
    rw [hwaits] at htask
    obtain rfl : Session.onExchanged rest r = task := by simpa [Session.step] using htask
    exact pending_exchanged rest r hopen more
  | panicked hholds _ =>
    refine h.taken hholds hnumbered rfl rfl rfl trivial fun _ hopen => ?_
    exact absurd rfl hopen.2

end ProxyState

end RctPower
