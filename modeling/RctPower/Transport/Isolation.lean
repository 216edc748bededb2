import RctPower.Transport.Forwarding
import RctPower.Transport.ProxySteps
import RctPower.Transport.Resync

/-!
# What ends a session, and what does not

A session of the proxy ends when its own client is gone, or with a panic. Neither the device nor
another client can close it: an exchange that fails is the end of the exchange.

## What is proved

* `isolates`: a session is closed exactly by its own client, and a panic is over a frame with a length
  field of `3` that its own client has sent, or the device in one of the session's own exchanges.
* `never_stuck`: the exchange that holds the lock takes whatever comes, and does not hold it past its deadline; and
  whatever has happened, a request that waits for the lock can still be answered.
-/

namespace RctPower

open RctPower.Lib.Rust RctPower.Lib.EarlyExit RctPower.Lib.Machine ReceiveFrame
open scoped List

/-! ### Tasks -/

/-- There is a frame with a length field of `3` among the bytes. -/
def Poisoned (bytes : List UInt8) : Prop := ∃ piece, piece <:+: bytes ∧ LengthThree piece

theorem Poisoned.mono {a b : List UInt8} (h : Poisoned a) (hab : a <:+: b) : Poisoned b := by
  obtain ⟨piece, hpiece, hthree⟩ := h
  exact ⟨piece, hpiece.trans hab, hthree⟩

/-- **The loop over the bytes of a read** panics only over such a frame. -/
theorem poisoned_of_forward {rx : ReceiveFrame} {taken : List UInt8} (hpass : passed step (.new false) taken = some rx)
    {bytes : List UInt8} (h : Session.forward rx bytes = .panicked) : Poisoned (taken ++ bytes) := by
  induction bytes generalizing rx taken with
  | nil => cases h
  | cons c rest ih =>
    have hrx := complete_of_pass hpass
    rcases byte_cases rx c with ⟨t, hc⟩ | ⟨t, hc, ht⟩ | ⟨t, e, hc⟩ | ⟨p, hc⟩
    · rw [forward_next hrx hc] at h
      have hrest := ih (pass_concat_next step hpass hc) h
      rwa [List.append_assoc] at hrest
    · rw [forward_complete hc ht] at h
      cases h
    · rw [forward_error hc] at h
      refine (ih (pass_nil step _) h).mono ?_
      exact ⟨taken ++ [c], [], by simp⟩
    · have hshape : Shape false ([] ++ taken) rx := (@Shape.idle false [] List.not_mem_nil).pass hpass
      rw [List.nil_append] at hshape
      exact ⟨_, ⟨[], rest, by simp⟩, hshape.panics hc⟩

theorem forward_ne_closed (rx : ReceiveFrame) (bytes : List UInt8) : Session.forward rx bytes ≠ .closed := by
  induction bytes generalizing rx with
  | nil => nofun
  | cons c rest ih =>
    unfold Session.forward
    split
    · nofun
    · split
      · nofun
      · exact ih _
    · exact ih _

/-- The client of a task is gone. -/
def SessionEvent.Leaves : SessionEvent → Prop
  | .read (.ok bytes) => bytes = []
  | .read (.error _) => True
  | .written (.error _) => True
  | _ => False

/-- A task returns exactly when its client is gone. -/
theorem closed_iff_leaves {task task' : Session} {ev : SessionEvent} (h : task.step ev = some task') :
    task' = .closed ↔ ev.Leaves := by
  cases task with
  | reading rx =>
    cases ev with
    | read got =>
      obtain rfl : Session.onRead rx got = task' := by simpa [Session.step] using h
      rcases got with e | (_ | ⟨c, cs⟩)
      · exact iff_of_true rfl trivial
      · exact iff_of_true rfl rfl
      · exact iff_of_false (forward_ne_closed _ _) (List.cons_ne_nil c cs)
    | exchanged r => cases h
    | written r => cases h
  | exchanging wire rest =>
    cases ev with
    | read got => cases h
    | exchanged r =>
      obtain rfl : Session.onExchanged rest r = task' := by simpa [Session.step] using h
      refine iff_of_false ?_ id
      cases r with
      | error e => exact forward_ne_closed _ _
      | ok resp =>
        unfold Session.onExchanged
        dsimp only
        split
        all_goals
          intro hclosed
          cases hclosed
    | written r => cases h
  | responding resp rest =>
    cases ev with
    | read got => cases h
    | exchanged r => cases h
    | written r =>
      obtain rfl : Session.onWritten rest r = task' := by simpa [Session.step] using h
      cases r with
      | error e => exact iff_of_true rfl trivial
      | ok u => exact iff_of_false (forward_ne_closed _ _) id
  | closed => cases h
  | panicked => cases h

/-- A task dies over a frame that its client has sent, unless its exchange returns what none returns. -/
theorem poisoned_of_step {task : Session} {ev : SessionEvent} {input : List UInt8} (htracks : task.Tracks input)
    (hev : ∀ r, ev = .exchanged r → Proxy.Returnable r) (h : task.step ev = some .panicked) :
    Poisoned (input ++ ev.bytes) := by
  have hfresh : ∀ {rest}, rest <:+ input → Session.forward (.new false) rest = .panicked →
      Poisoned (input ++ ev.bytes) := by
    intro rest hrest hforward
    have hpoisoned := poisoned_of_forward (pass_nil step _) hforward
    rw [List.nil_append] at hpoisoned
    exact hpoisoned.mono (hrest.isInfix.trans (List.prefix_append _ _).isInfix)
  cases task with
  | reading rx =>
    cases ev with
    | read got =>
      obtain ⟨before, t, rfl, hpass⟩ := htracks
      have hread : Session.onRead rx got = .panicked := by simpa [Session.step] using h
      rcases got with e | (_ | ⟨c, cs⟩)
      · cases hread
      · cases hread
      · refine (poisoned_of_forward hpass hread).mono ?_
        exact ⟨before, [], by simp [SessionEvent.bytes]⟩
    | exchanged r => cases h
    | written r => cases h
  | exchanging wire rest =>
    cases ev with
    | read got => cases h
    | exchanged r =>
      have hexchanged : Session.onExchanged rest r = .panicked := by simpa [Session.step] using h
      cases r with
      | error e => exact hfresh htracks.2 hexchanged
      | ok resp =>
        obtain ⟨out, hout⟩ := consume_returnable (hev _ rfl)
        simp only [Session.onExchanged, hout] at hexchanged
        cases hexchanged
    | written r => cases h
  | responding resp rest =>
    cases ev with
    | read got => cases h
    | exchanged r => cases h
    | written r =>
      have hwritten : Session.onWritten rest r = .panicked := by simpa [Session.step] using h
      cases r with
      | error e => cases hwritten
      | ok u => exact hfresh htracks hwritten
  | closed => cases h
  | panicked => cases h

/-- A turn of a receive loop panics only over such a frame. -/
theorem poisoned_of_readOnce {ε : Type} {policy : ReadPolicy ε} {rx : ReceiveFrame} {turn : ReadEvent ε}
    {taken : List UInt8} {p : Panic} (hpass : passed step (.new false) taken = some rx)
    (h : readOnce policy rx turn = .panics p) : Poisoned (taken ++ policy.taken turn) := by
  rcases turn with ⟨now, got⟩
  rw [readOnce] at h
  rw [ReadPolicy.taken]
  split_ifs at h ⊢
  rcases got with e | (_ | ⟨c, cs⟩)
  · dsimp only at h
    cases hf : policy.failure e <;> simp [hf] at h
  · cases h
  · dsimp only [ReadEvent.bytes] at h ⊢
    rcases consume_cases rx (c :: cs) with ⟨rx', -, hc⟩ | ⟨a, d, b, rx₀, t, r, -, -, -, hc⟩ |
      ⟨a, d, b, rx₀, p', hcut, ha, hstep, -⟩
    · rw [hc, Flow.after_ok] at h
      dsimp only at h
      split_ifs at h
    · rw [hc, Flow.after_ok] at h
      cases hr : r (a.length + 1) with
      | error e => simp [hr] at h
      | ok n =>
        simp only [hr] at h
        split_ifs at h
    · have hall : passed step (.new false) (taken ++ a) = some rx₀ := by rwa [pass_append_of step hpass]
      have hshape : Shape false ([] ++ (taken ++ a)) rx₀ := (@Shape.idle false [] List.not_mem_nil).pass hall
      rw [List.nil_append] at hshape
      rw [hcut]
      exact ⟨_, ⟨[], b, by simp⟩, hshape.panics hstep⟩

/-! ### Runs -/

/-- The client of a session is gone. -/
def ProxyEvent.Leaves (s : ℕ) : ProxyEvent → Prop
  | .read t got => t = s ∧ (SessionEvent.read got).Leaves
  | .written t r => t = s ∧ (SessionEvent.written r).Leaves
  | _ => False

namespace ObservedProxy

variable {cfg : ClientConfig} {o o' : ObservedProxy} {ev : ProxyEvent}

/-- A step of a task that is not closed, among all tasks. -/
theorem closed_update {sessions : ℕ → Session} {s t : ℕ} {task : Session} {gone : Prop}
    (hopen : sessions s ≠ .closed) (htask : task = .closed ↔ gone) :
    Function.update sessions s task t = .closed ↔ sessions t = .closed ∨ s = t ∧ gone := by
  by_cases ht : t = s
  · subst ht
    rw [Function.update_self, htask]
    exact ⟨fun h => .inr ⟨rfl, h⟩, fun h => (h.resolve_left hopen).2⟩
  · rw [Function.update_of_ne ht]
    exact ⟨.inl, fun h => h.resolve_right fun hs => ht hs.1.symm⟩

/-- **One event** closes a session if it is the end of its client, and otherwise none. -/
theorem closed_step (h : o.Faithful) (hstep : o.step cfg ev = some o') (t : ℕ) :
    o'.proxy.sessions t = .closed ↔ o.proxy.sessions t = .closed ∨ ev.Leaves t := by
  obtain ⟨p', hp, rfl⟩ := Option.map_eq_some_iff.mp hstep
  have hclient : ∀ {s ev task}, (o.proxy.sessions s).step ev = some task → o.proxy.sessions s ≠ .closed := by
    intro s ev task htask hclosed
    rw [hclosed] at htask
    cases htask
  cases ProxyState.steps_of_step hp with
  | read hreads => exact closed_update (hclient hreads) (closed_iff_leaves hreads)
  | written hwrites => exact closed_update (hclient hwrites) (closed_iff_leaves hwrites)
  | finished hholds hends hfinish =>
    obtain ⟨task, htask, rfl⟩ := Option.map_eq_some_iff.mp hfinish
    have hnone : ¬ ev.Leaves t := by cases hends <;> exact id
    have hclosed := closed_update (t := t) (hclient htask) (closed_iff_leaves htask)
    simpa [SessionEvent.Leaves, hnone] using hclosed
  | @panicked req start rx turn e hholds hdies =>
    obtain ⟨rest, htask⟩ := (h.numbered.current _ _ hholds).task
    have hopen : o.proxy.sessions req.session ≠ .closed := by simp [htask]
    have htask' : Session.panicked = .closed ↔ False := iff_of_false nofun id
    have hclosed := closed_update (t := t) hopen htask'
    simpa [ProxyEvent.Leaves] using hclosed
  | _ => exact (or_iff_left id).symm

/-- There is a frame with a length field of `3` in what a client has sent, or the device in an exchange for it. -/
def Blames (o : ObservedProxy) (s : ℕ) : Prop := Poisoned (o.input s) ∨ ∃ n, Poisoned (o.received s n)

/-- The record only grows. -/
theorem Blames.record {s : ℕ} (h : o.Blames s) (cfg : ClientConfig) (ev : ProxyEvent) : (o.record cfg ev).Blames s := by
  cases ev with
  | read t got =>
    refine h.imp (fun hinput => hinput.mono ?_) id
    by_cases hs : s = t
    · subst hs
      simpa [ObservedProxy.record] using (List.prefix_append _ _).isInfix
    · simp [ObservedProxy.record, hs]
  | wrote r start =>
    simp only [ObservedProxy.record]
    split <;> exact h
  | received turn =>
    simp only [ObservedProxy.record]
    split
    · next req start rx hholds =>
      refine h.imp id ?_
      rintro ⟨n, hreceived⟩
      refine ⟨n, hreceived.mono ?_⟩
      by_cases hs : s = req.session
      · subst hs
        by_cases hn : n = req.number
        · subst hn
          simpa using (List.prefix_append _ _).isInfix
        · simp [hn]
      · simp [hs]
    · exact h
  | _ => exact h

/-- After an event a task is the one that has moved, or as it was. -/
theorem update_cases {sessions : ℕ → Session} {s t : ℕ} {task task' : Session}
    (h : Function.update sessions s task t = task') : (t = s ∧ task = task') ∨ sessions t = task' := by
  by_cases ht : t = s
  · subst ht
    rw [Function.update_self] at h
    exact .inl ⟨rfl, h⟩
  · rw [Function.update_of_ne ht] at h
    exact .inr h

/-- **One event** makes a task panic only over a frame with a length field of `3`. -/
theorem blames_step (h : o.Faithful) (hstep : o.step cfg ev = some o')
    (hbefore : ∀ t, o.proxy.sessions t = .panicked → o.Blames t) {t : ℕ} (hpanicked : o'.proxy.sessions t = .panicked) :
    o'.Blames t := by
  obtain ⟨p', hp, rfl⟩ := Option.map_eq_some_iff.mp hstep
  have hold : o.proxy.sessions t = .panicked → Blames { o.record cfg ev with proxy := p' } t :=
    fun hbad => (hbefore t hbad).record cfg ev
  cases ProxyState.steps_of_step hp with
  | read hreads =>
    rcases update_cases hpanicked with ⟨rfl, rfl⟩ | hbad
    · have hpoisoned := poisoned_of_step (h.tracks t) (by simp) hreads
      exact .inl (by simpa [ObservedProxy.record] using hpoisoned)
    · exact hold hbad
  | written hwrites =>
    rcases update_cases hpanicked with ⟨rfl, rfl⟩ | hbad
    · have hpoisoned := poisoned_of_step (h.tracks t) (by simp) hwrites
      exact .inl (by simpa [ObservedProxy.record, SessionEvent.bytes] using hpoisoned)
    · exact hold hbad
  | finished hholds hends hfinish =>
    have hlistens := h.listens _ _ hholds
    have hreturnable := hends.returnable fun start rx hup => by
      subst hup
      exact ⟨_, hlistens⟩
    obtain ⟨task, htask, rfl⟩ := Option.map_eq_some_iff.mp hfinish
    rcases update_cases hpanicked with ⟨rfl, rfl⟩ | hbad
    · have hpoisoned := poisoned_of_step (h.tracks _) (fun r' hr => by cases hr; exact hreturnable) htask
      have hblames : o.Blames _ := .inl (by simpa [SessionEvent.bytes] using hpoisoned)
      exact hblames.record cfg ev
    · exact hold hbad
  | @panicked req start rx turn e hholds hdies =>
    rcases update_cases hpanicked with ⟨rfl, -⟩ | hbad
    · have hpoisoned := poisoned_of_readOnce (h.listens req _ hholds) hdies
      exact .inr ⟨req.number, by simpa [ObservedProxy.record, hholds] using hpoisoned⟩
    · exact hold hbad
  | _ => exact hold hpanicked

/-- **Sessions are isolated.** Whatever the peers do, in whatever order the tasks run: a session is closed exactly
when its own client has closed or failed, and when its task has died of a panic there is a frame with a length field
of `3` in what its own client has sent, or in what the device has sent in one of its own exchanges. A failed exchange
ends no session, and no session ends another. -/
theorem isolates {evs : List ProxyEvent} (h : run (step cfg) start evs = some o) (s : ℕ) :
    (o.proxy.sessions s = .closed ↔ ∃ ev ∈ evs, ev.Leaves s) ∧
      (o.proxy.sessions s = .panicked → Poisoned (o.input s) ∨ ∃ n, Poisoned (o.received s n)) := by
  have hinv : o.Faithful ∧ (∀ t, o.proxy.sessions t = .closed ↔ ∃ ev ∈ evs, ev.Leaves t) ∧
      ∀ t, o.proxy.sessions t = .panicked → o.Blames t := by
    refine run_induction_events (P := fun evs o => o.Faithful ∧
      (∀ t, o.proxy.sessions t = .closed ↔ ∃ ev ∈ evs, ProxyEvent.Leaves t ev) ∧
        ∀ t, o.proxy.sessions t = .panicked → o.Blames t) ⟨faithful_start, ?_, ?_⟩ ?_ h
    · intro t
      exact iff_of_false nofun (by simp)
    · rintro t ⟨⟩
    · rintro evs o ev o' - ⟨hfaithful, hclosed, hblames⟩ hstep
      refine ⟨hfaithful.step hstep, fun t => ?_, fun t => blames_step hfaithful hstep hblames⟩
      rw [closed_step hfaithful hstep, hclosed]
      simp [or_and_right, exists_or]
  exact ⟨hinv.2.1 s, hinv.2.2 s⟩

/-- A client whose frame has a length field of `3`, and one whose exchange fails and that closes later. -/
theorem isolates_two :
    let request : StdFrame := ⟨.read, 0xF168B748, [], by decide, by decide, by decide⟩
    ∃ o, run (step ⟨5, 1⟩) start
        [.read 0 (.ok [0x2b, 0x01, 0x03, 0x00, 0x00, 0x00, 0x00, 0x00]), .read 1 (.ok request.bytes), .locked 1,
          .connected (.error .wouldBlock), .read 1 (.ok [])] = some o ∧
      o.proxy.sessions 0 = .panicked ∧
      ((o.proxy.sessions 0 = .closed ↔ ∃ ev ∈ [.read 0 (.ok [0x2b, 0x01, 0x03, 0x00, 0x00, 0x00, 0x00, 0x00]),
          .read 1 (.ok request.bytes), .locked 1, .connected (.error .wouldBlock), .read 1 (.ok [])],
          ProxyEvent.Leaves 0 ev) ∧
        (o.proxy.sessions 0 = .panicked → Poisoned (o.input 0) ∨ ∃ n, Poisoned (o.received 0 n))) := by
  intro request
  have hrun : (run (step ⟨5, 1⟩) start
      [.read 0 (.ok [0x2b, 0x01, 0x03, 0x00, 0x00, 0x00, 0x00, 0x00]), .read 1 (.ok request.bytes), .locked 1,
        .connected (.error .wouldBlock), .read 1 (.ok [])]).map (fun o => o.proxy.sessions 0) =
      some .panicked := by
    decide +kernel
  obtain ⟨o, ho, hpanicked⟩ := Option.map_eq_some_iff.mp hrun
  exact ⟨o, ho, hpanicked, isolates ho 0⟩

end ObservedProxy

/-! ### The lock -/

/-- An exchange waits for this. -/
def ProxyEvent.Awaited : Exchanging → ProxyEvent → Prop
  | .connecting, .connected _ => True
  | .writing, .wrote _ _ => True
  | .receiving _ _, .received _ => True
  | _, _ => False

/-- An event reads no more than the buffer holds. -/
def ProxyEvent.FitsBuffer : ProxyEvent → Prop
  | .received turn => turn.bytes.length ≤ 256
  | _ => True

namespace ProxyState

variable {p : ProxyState}

/-- The lock can be free after one event, with nothing changed for a task that waits for it. -/
theorem exists_free (cfg : ClientConfig) (h : p.Numbered) {s : ℕ}
    (hother : ∀ req up, p.holder = some (req, up) → req.session ≠ s) :
    ∃ evs p', evs.length ≤ 1 ∧ (∀ ev ∈ evs, ev.FitsBuffer) ∧ run (step cfg) p evs = some p' ∧ p'.holder = none ∧
      p'.sessions s = p.sessions s := by
  have hends : ∀ req up ev r, p.holder = some (req, up) → ev.FitsBuffer → p.step cfg ev = p.finish req r →
      ∃ evs p', evs.length ≤ 1 ∧ (∀ ev ∈ evs, ev.FitsBuffer) ∧ run (step cfg) p evs = some p' ∧ p'.holder = none ∧
        p'.sessions s = p.sessions s := by
    intro req up ev r hholds hfits hstep
    obtain ⟨p', hfinish⟩ := (h.current req up hholds).exists_finish r
    refine ⟨[ev], p', le_rfl, by simpa using hfits, ?_, (of_finish hfinish).1, ?_⟩
    · rw [run, hstep, hfinish, Option.bind_some, run]
    · obtain ⟨task, -, rfl⟩ := Option.map_eq_some_iff.mp hfinish
      exact Function.update_of_ne (hother req up hholds).symm _ _
  cases hholder : p.holder with
  | none => exact ⟨[], p, Nat.zero_le _, by simp, rfl, hholder, rfl⟩
  | some h' =>
    obtain ⟨req, up⟩ := h'
    cases up with
    | connecting =>
      refine hends req _ (.connected (.error .wouldBlock)) (.error (.io .wouldBlock)) hholder trivial ?_
      simp only [step, onConnected, hholder]
    | writing =>
      refine hends req _ (.wrote (.error none) 0) (.error (timedError none)) hholder trivial ?_
      simp only [step, onWrote, hholder]
    | receiving start rx =>
      refine hends req _ (.received ⟨start + cfg.timeout + 1, .error none⟩) (.error .timeout) hholder
        (Nat.zero_le 256) ?_
      have hexpired : (Proxy.policy cfg start).expired (start + cfg.timeout + 1) = true := by
        simp [Proxy.policy]
      simp only [step, onReceived, hholder, readOnce, hexpired, if_true]
      rfl

/-- An exchange gets what it waits for, and waits for the next: for more bytes only until its deadline. -/
inductive GoesOn (cfg : ClientConfig) : Exchanging → ProxyEvent → Exchanging → Prop where
  /-- There is a connection. -/
  | connected : GoesOn cfg .connecting (.connected (.ok ())) .writing
  /-- The request has been written. -/
  | wrote (start : ℕ) : GoesOn cfg .writing (.wrote (.ok ()) start) (.receiving start (.new false))
  /-- The response is not complete. -/
  | received {start : ℕ} {rx rx' : ReceiveFrame} {turn : ReadEvent (Option IoError)}
    (intime : turn.now ≤ start + cfg.timeout) : GoesOn cfg (.receiving start rx) (.received turn) (.receiving start rx')

/-- A turn that goes on is in time. -/
theorem intime_of_next {cfg : ClientConfig} {start : ℕ} {rx rx' : ReceiveFrame} {turn : ReadEvent (Option IoError)}
    (h : readOnce (Proxy.policy cfg start) rx turn = .next rx') : turn.now ≤ start + cfg.timeout := by
  by_contra hlate
  have hexpired : (Proxy.policy cfg start).expired turn.now = true := decide_eq_true (Nat.lt_of_not_le hlate)
  rw [readOnce, if_pos hexpired] at h
  cases h

/-- **An exchange takes whatever it waits for**, and goes on or gives the lock up. -/
theorem step_of_awaited (cfg : ClientConfig) (h : p.Numbered) {req : Forwarded} {up : Exchanging}
    (hholds : p.holder = some (req, up)) {ev : ProxyEvent} (hev : ev.Awaited up) :
    ∃ p', p.step cfg ev = some p' ∧ (p'.holder = none ∨ ∃ up', GoesOn cfg up ev up' ∧ p'.holder = some (req, up')) := by
  have hends : ∀ r, p.step cfg ev = p.finish req r →
      ∃ p', p.step cfg ev = some p' ∧
        (p'.holder = none ∨ ∃ up', GoesOn cfg up ev up' ∧ p'.holder = some (req, up')) := by
    intro r hstep
    obtain ⟨p', hfinish⟩ := (h.current req up hholds).exists_finish r
    exact ⟨p', hstep.trans hfinish, .inl (of_finish hfinish).1⟩
  cases up with
  | connecting =>
    cases ev with
    | connected r =>
      cases r with
      | error e => exact hends (.error (.io e)) (by simp only [step, onConnected, hholds])
      | ok u =>
        have hstep : p.step cfg (.connected (.ok u)) = some { p with
            holder := some (req, .writing), pool := some p.made, made := p.made + 1 } := by
          simp only [step, onConnected, hholds]
        exact ⟨_, hstep, .inr ⟨_, .connected, rfl⟩⟩
    | _ => cases hev
  | writing =>
    cases ev with
    | wrote r start =>
      cases r with
      | error e => exact hends (.error (timedError e)) (by simp only [step, onWrote, hholds])
      | ok u =>
        have hstep : p.step cfg (.wrote (.ok u) start) =
            some { p with holder := some (req, .receiving start (.new false)) } := by
          simp only [step, onWrote, hholds]
        exact ⟨_, hstep, .inr ⟨_, .wrote start, rfl⟩⟩
    | _ => cases hev
  | receiving start rx =>
    cases ev with
    | received turn =>
      cases hturn : readOnce (Proxy.policy cfg start) rx turn with
      | next rx' =>
        have hstep : p.step cfg (.received turn) = some { p with holder := some (req, .receiving start rx') } := by
          simp only [step, onReceived, hholds, hturn]
        exact ⟨_, hstep, .inr ⟨_, .received (intime_of_next hturn), rfl⟩⟩
      | ret rx' r => exact hends (r.map fun _ => rx'.wireBytes) (by simp only [step, onReceived, hholds, hturn])
      | panics e =>
        have hstep : p.step cfg (.received turn) = some { p with
            holder := none, sessions := Function.update p.sessions req.session .panicked } := by
          simp only [step, onReceived, hholds, hturn]
        exact ⟨_, hstep, .inl rfl⟩
    | _ => cases hev

/-- A request has been forwarded, and its exchange does not hold the lock any more. -/
structure Over (p : ProxyState) (req : Forwarded) : Prop where
  /-- It has been counted. -/
  counted : req.number < p.requests req.session
  /-- The lock is free, or another exchange holds it. -/
  free : ∀ up, p.holder ≠ some (req, up)

/-- What is over stays so: the next requests of the session have other numbers. -/
theorem Over.step {cfg : ClientConfig} {p' : ProxyState} {req : Forwarded} {ev : ProxyEvent} (h : p.Over req)
    (hstep : p.step cfg ev = some p') : p'.Over req := by
  have hother : ∀ {req' : Forwarded} {up : Exchanging}, p.holder = some (req', up) → req' ≠ req := by
    rintro req' up hholds rfl
    exact h.free up hholds
  cases steps_of_step hstep with
  | read _ => exact ⟨h.counted, h.free⟩
  | written _ => exact ⟨h.counted, h.free⟩
  | @locked s wire rest hfree hwaits =>
    have hcounted := h.counted
    refine ⟨?_, fun up hholds => ?_⟩
    · by_cases hs : req.session = s
      · subst hs
        simpa using Nat.lt_succ_of_lt hcounted
      · simpa [hs] using hcounted
    · obtain ⟨rfl, -⟩ : _ = req ∧ _ = up := by simpa using hholds
      exact lt_irrefl _ hcounted
  | connected hholds => exact ⟨h.counted, fun up heq => hother hholds (by simpa using congrArg (·.map Prod.fst) heq)⟩
  | wrote start hholds => exact ⟨h.counted, fun up heq => hother hholds (by simpa using congrArg (·.map Prod.fst) heq)⟩
  | received hholds _ => exact ⟨h.counted, fun up heq => hother hholds (by simpa using congrArg (·.map Prod.fst) heq)⟩
  | finished _ _ hfinish =>
    obtain ⟨hfree, hrequests, -, -⟩ := of_finish hfinish
    exact ⟨hrequests ▸ h.counted, by simp [hfree]⟩
  | panicked _ _ => exact ⟨h.counted, by simp⟩

/-- One event of an exchange that receives: it still does, and the event is not late, or it is over. -/
theorem receives_or_over {cfg : ClientConfig} (h : p.Numbered) {p' : ProxyState} {req : Forwarded} {start : ℕ}
    {rx : ReceiveFrame} (hholds : p.holder = some (req, .receiving start rx)) {ev : ProxyEvent}
    (hstep : p.step cfg ev = some p') :
    (∃ rx', p'.holder = some (req, .receiving start rx')) ∧
        (∀ turn, ev = .received turn → turn.now ≤ start + cfg.timeout) ∨ p'.Over req := by
  have hcounted := (h.current req _ hholds).counted
  cases steps_of_step hstep with
  | read _ => exact .inl ⟨⟨rx, hholds⟩, by simp⟩
  | written _ => exact .inl ⟨⟨rx, hholds⟩, by simp⟩
  | locked hfree _ => cases hfree.symm.trans hholds
  | connected hother => cases hother.symm.trans hholds
  | wrote start' hother => cases hother.symm.trans hholds
  | @received req' start' rx₀ rx' turn hother hgoes =>
    cases hother.symm.trans hholds
    refine .inl ⟨⟨rx', rfl⟩, fun turn' hturn => ?_⟩
    cases hturn
    exact intime_of_next hgoes
  | finished _ _ hfinish =>
    obtain ⟨hfree, hrequests, -, -⟩ := of_finish hfinish
    exact .inr ⟨hrequests ▸ hcounted, by simp [hfree]⟩
  | panicked _ _ => exact .inr ⟨hcounted, by simp⟩

/-- **Past its deadline an exchange does not hold the lock.** -/
theorem over_of_late {cfg : ClientConfig} (h : p.Numbered) {p' : ProxyState} {req : Forwarded} {start : ℕ}
    {rx : ReceiveFrame} (hholds : p.holder = some (req, .receiving start rx)) {evs : List ProxyEvent}
    (hrun : run (step cfg) p evs = some p') {turn : ReadEvent (Option IoError)} (hmem : .received turn ∈ evs)
    (hlate : start + cfg.timeout < turn.now) : p'.Over req := by
  have hinv : p'.Numbered ∧ ((∃ rx', p'.holder = some (req, .receiving start rx')) ∧
      (∀ turn, .received turn ∈ evs → turn.now ≤ start + cfg.timeout) ∨ p'.Over req) := by
    refine run_induction_events (P := fun evs p' => p'.Numbered ∧
      ((∃ rx', p'.holder = some (req, .receiving start rx')) ∧
        (∀ turn, ProxyEvent.received turn ∈ evs → turn.now ≤ start + cfg.timeout) ∨ p'.Over req))
      ⟨h, .inl ⟨⟨rx, hholds⟩, by simp⟩⟩ ?_ hrun
    rintro evs q ev q' - ⟨hq, hcases⟩ hstep
    refine ⟨hq.step hstep, ?_⟩
    rcases hcases with ⟨⟨rx', hq'⟩, hintime⟩ | hover
    · refine (receives_or_over hq hq' hstep).imp_left fun ⟨hreceiving, hev⟩ => ⟨hreceiving, fun turn hturn => ?_⟩
      rcases List.mem_append.mp hturn with hold | hnew
      · exact hintime turn hold
      · exact hev turn (List.mem_singleton.mp hnew).symm
    · exact .inr (hover.step hstep)
  exact hinv.2.resolve_left fun hreceiving => absurd (hreceiving.2 turn hmem) (Nat.not_le.mpr hlate)

/-- An exchange whose connect and write succeed, and which reads the pieces of a response. -/
def answeredTry (chunks : List (List UInt8)) : ProxyTry :=
  ⟨.ok (), .ok (), 0, chunks.map fun chunk => ⟨0, .ok chunk⟩⟩

/-- It returns the response. -/
theorem exchange_answered (cfg : ClientConfig) (wire : List UInt8) (pooled : Bool) (f : StdFrame)
    {chunks : List (List UInt8)} (hchunks : ∀ chunk ∈ chunks, chunk ≠ [] ∧ chunk.length ≤ 256)
    (hbytes : chunks.flatten = f.bytes) :
    Proxy.exchange cfg wire pooled (answeredTry chunks) = .ok (some ⟨true, [wire], .ok f.bytes⟩) := by
  obtain ⟨rx, hcompletes, -, hwire, -⟩ := ReceiveFrame.completes_bytes f (List.not_mem_nil (a := START_TOKEN))
  rw [List.nil_append] at hcompletes
  have harrives : ReadEvent.bytesWhile (Proxy.policy cfg 0).hears (answeredTry chunks).reads = f.bytes := by
    rw [bytesWhile_of_forall, ← hbytes]
    · rw [answeredTry, ReadEvent.allBytes, List.flatMap_map]
      exact List.flatMap_id
    · intro ev hev
      obtain ⟨chunk, hmem, rfl⟩ := List.mem_map.mp hev
      cases chunk with
      | nil => exact absurd rfl (hchunks [] hmem).1
      | cons c cs => simp [ReadPolicy.hears, ReadPolicy.givesUp, Proxy.policy]
  have hreceive : receive (Proxy.policy cfg 0) (answeredTry chunks).reads = .ok (some (.ok rx)) :=
    receive_ok_iff.mpr (harrives ▸ ⟨f.bytes, [], by simp, hcompletes⟩)
  have hon : Proxy.exchangeOn cfg (answeredTry chunks) = .ok (some (.ok f.bytes)) := by
    simp only [Proxy.exchangeOn, answeredTry] at hreceive ⊢
    rw [hreceive, ← hwire]
    rfl
  rw [Proxy.exchange, hon]
  cases pooled <;> rfl

theorem length_answeredEvents (pooled : Bool) (chunks : List (List UInt8)) :
    (exchangeEvents pooled (answeredTry chunks)).length ≤ 2 + chunks.length := by
  cases pooled with
  | true =>
    simp only [exchangeEvents, answeredTry, if_true, List.nil_append, List.length_cons, List.length_map]
    omega
  | false =>
    simp only [exchangeEvents, answeredTry, Bool.false_eq_true, if_false, List.singleton_append, List.length_cons,
      List.length_map]
    omega

theorem fitsBuffer_answeredEvents {chunks : List (List UInt8)}
    (hchunks : ∀ chunk ∈ chunks, chunk ≠ [] ∧ chunk.length ≤ 256) (pooled : Bool) :
    ∀ ev ∈ exchangeEvents pooled (answeredTry chunks), ev.FitsBuffer := by
  intro ev hev
  simp only [exchangeEvents, answeredTry, List.mem_append, List.mem_cons, List.map_map, List.mem_map] at hev
  rcases hev with hev | rfl | ⟨chunk, hmem, rfl⟩
  · split_ifs at hev
    · cases hev
    · rw [List.mem_singleton.mp hev]
      trivial
  · trivial
  · exact (hchunks chunk hmem).2

/-- **A task that waits for the lock can be served**: with the response in these reads, and four events more. -/
theorem exists_served {cfg : ClientConfig} (h : p.Numbered) {s : ℕ} {wire rest : List UInt8}
    (hwaits : p.sessions s = .exchanging wire rest)
    (hother : ∀ req up, p.holder = some (req, up) → req.session ≠ s) (f : StdFrame) {chunks : List (List UInt8)}
    (hchunks : ∀ chunk ∈ chunks, chunk ≠ [] ∧ chunk.length ≤ 256) (hbytes : chunks.flatten = f.bytes) :
    ∃ more p', more.length ≤ 4 + chunks.length ∧ (∀ ev ∈ more, ev.FitsBuffer) ∧ run (step cfg) p more = some p' ∧
      p'.sessions s = .responding f.bytes rest ∧ p'.holder = none ∧ p'.pool.isSome := by
  obtain ⟨free, p₁, hfree, hfits, hrun, hnone, hsame⟩ := exists_free cfg h hother
  rw [hwaits] at hsame
  have hexchange := exchange_answered cfg wire p₁.pool.isSome f hchunks hbytes
  -- the task gets the lock, and its exchange runs
  let p₂ : ProxyState := { p₁ with
    requests := Function.update p₁.requests s (p₁.requests s + 1)
    holder := some (⟨s, p₁.requests s, wire⟩, if p₁.pool.isNone then .connecting else .writing) }
  have hlocked : p₁.step cfg (.locked s) = some p₂ := by
    simp only [step, onLocked, hnone, hsame, p₂]
  have hholder : p₂.holder =
      some ((⟨s, p₁.requests s, wire⟩ : Forwarded), if p₂.pool.isNone then .connecting else .writing) := rfl
  obtain ⟨more, p', hmore, hrun', hholder', hsession', hpool'⟩ := run_exchange hsame hholder hexchange
  refine ⟨free ++ .locked s :: more, p', ?_, ?_, ?_, ?_, hholder', hpool'⟩
  · have hlen := hmore.length_le
    have hexchanged := length_answeredEvents p₂.pool.isSome chunks
    simp only [List.length_append, List.length_cons]
    omega
  · intro ev hev
    rcases List.mem_append.mp hev with hev | hev
    · exact hfits ev hev
    · rcases List.mem_cons.mp hev with rfl | hev
      · trivial
      · exact fitsBuffer_answeredEvents hchunks _ ev (hmore.subset hev)
  · rw [run_append, hrun, Option.bind_some, run, hlocked, Option.bind_some, hrun']
  · have hreturnable : Proxy.Returnable (.ok f.bytes) := Proxy.returnable_exchange hexchange
    obtain ⟨out, hout⟩ := consume_returnable hreturnable
    rw [hsession']
    simp only [Session.onExchanged, hout]

/-- **The proxy is never stuck.** Whatever has happened: the exchange that holds the lock takes whatever it waits for,
and goes on or gives the lock up; once a turn of its receive loop comes past its deadline, whatever else comes, it does
not hold the lock any more; and a task that waits for the lock can be given any standard frame as the response to its
request, in any reads that fit the buffer and four events more. -/
theorem never_stuck {cfg : ClientConfig} {evs : List ProxyEvent} (h : run (step cfg) start evs = some p) :
    (∀ req up ev, p.holder = some (req, up) → ev.Awaited up →
      ∃ p', p.step cfg ev = some p' ∧ (p'.holder = none ∨ ∃ up', GoesOn cfg up ev up' ∧ p'.holder = some (req, up'))) ∧
    (∀ req clock rx more p' turn, p.holder = some (req, .receiving clock rx) → run (step cfg) p more = some p' →
      .received turn ∈ more → clock + cfg.timeout < turn.now → ∀ up, p'.holder ≠ some (req, up)) ∧
    ∀ s wire rest, p.sessions s = .exchanging wire rest →
      (∀ req up, p.holder = some (req, up) → req.session ≠ s) → ∀ (f : StdFrame) (chunks : List (List UInt8)),
        (∀ chunk ∈ chunks, chunk ≠ [] ∧ chunk.length ≤ 256) → chunks.flatten = f.bytes →
          ∃ more p', more.length ≤ 4 + chunks.length ∧ (∀ ev ∈ more, ev.FitsBuffer) ∧
            run (step cfg) p more = some p' ∧ p'.sessions s = .responding f.bytes rest ∧ p'.holder = none ∧
              p'.pool.isSome := by
  have hnumbered : p.Numbered := run_induction (fun hp hstep => hp.step hstep) numbered_start h
  refine ⟨fun req up ev hholds hev => step_of_awaited cfg hnumbered hholds hev, ?_, ?_⟩
  · intro req clock rx more p' turn hholds hrun hmem hlate
    exact (over_of_late hnumbered hholds hrun hmem hlate).free
  · intro s wire rest hwaits hother f chunks hchunks hbytes
    exact exists_served hnumbered hwaits hother f hchunks hbytes

/-- A session waits while the exchange of another is in the middle of a response that does not come to its end. Past
its deadline that exchange does not hold the lock, and the session can get its response in two pieces. -/
theorem never_stuck_other :
    let request : StdFrame := ⟨.read, 0xF168B748, [], by decide, by decide, by decide⟩
    let response : StdFrame := ⟨.response, 0xF168B748, [0, 0, 0, 4], by decide, by decide, by decide⟩
    ∃ p, run (step ⟨5, 1⟩) start
        [.read 0 (.ok request.bytes), .locked 0, .connected (.ok ()), .wrote (.ok ()) 0, .read 1 (.ok request.bytes),
          .received ⟨1, .ok (response.bytes.take 4)⟩] = some p ∧
      (∀ got, ∃ p', p.step ⟨5, 1⟩ (.received ⟨6, got⟩) = some p' ∧ p'.holder = none) ∧
      ∃ more p', more.length ≤ 6 ∧ (∀ ev ∈ more, ev.FitsBuffer) ∧ run (step ⟨5, 1⟩) p more = some p' ∧
        p'.sessions 1 = .responding response.bytes [] ∧ p'.holder = none ∧ p'.pool.isSome := by
  intro request response
  let rx := ReceiveFrame.reading false 4 (response.bytes.take 4) false (response.bytes.take 4).tail
  have hrun : (run (step ⟨5, 1⟩) start
      [.read 0 (.ok request.bytes), .locked 0, .connected (.ok ()), .wrote (.ok ()) 0, .read 1 (.ok request.bytes),
        .received ⟨1, .ok (response.bytes.take 4)⟩]).map (fun p => (p.sessions 1, p.holder)) =
      some (.exchanging request.bytes [], some (⟨0, 0, request.bytes⟩, .receiving 0 rx)) := by
    decide +kernel
  obtain ⟨p, hp, heq⟩ := Option.map_eq_some_iff.mp hrun
  obtain ⟨hwaits, hholds⟩ := Prod.mk.inj heq
  have hstuck := never_stuck hp
  refine ⟨p, hp, fun got => ?_, ?_⟩
  · obtain ⟨p', hstep, hcases⟩ := hstuck.1 _ _ (.received ⟨6, got⟩) hholds trivial
    refine ⟨p', hstep, hcases.resolve_right ?_⟩
    rintro ⟨up', hgoes, -⟩
    cases hgoes with
    | received hintime => exact absurd hintime (by simp)
  · refine hstuck.2.2 1 _ _ hwaits (fun req up hreq => ?_) response [response.bytes.take 4, response.bytes.drop 4] ?_ ?_
    · cases hholds.symm.trans hreq
      exact Nat.zero_ne_one
    · decide +kernel
    · simp

end ProxyState

end RctPower
