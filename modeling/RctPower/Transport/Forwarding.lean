import RctPower.Transport.ProxyState

/-!
# What the proxy lets through

The proxy together with a record of what it has read: from each client, and from the device during
each exchange. The peers are free: a read gives any bytes, in pieces of any size, and the tasks
take turns in any way.

`forwards_whole` says that the proxy is a filter. What it writes, in either direction, is one
`WholeFrame`, which it has read in one piece: from the client whose request it is, or from the
device in the exchange for the request that it answers. The bytes that are forwarded come from the
parser's raw record and not from its buffer. The two are linked by what the parser has passed
(`Session.Tracks`), and by what the raw record of a complete parser is (`Completes.wholeFrame`).
-/

namespace RctPower

open RctPower.Lib.Rust RctPower.Lib.EarlyExit RctPower.Lib.Machine
open scoped List

/-! ### Whole frames -/

/-- The bytes of one frame: they start with the start token, and a fresh parser completes at the
last of them, with the right CRC. -/
structure WholeFrame (w : List UInt8) : Prop where
  /-- The start token is first. -/
  start : w.head? = some START_TOKEN
  /-- The parser completes at the end, and not before. -/
  completes : ∃ rx, ReceiveFrame.Receives w rx ∧ rx.complete = true ∧ rx.crcOk = true

/-- What a complete parser has recorded is a whole frame, in one piece of what it was given. -/
theorem ReceiveFrame.Completes.wholeFrame {s : List UInt8} {rx : ReceiveFrame} (h : Completes s rx) :
    WholeFrame rx.wireBytes ∧ rx.wireBytes <:+: s := by
  obtain ⟨g, t, v, rfl, -, ht, hv, rfl⟩ := h.exists_body
  have hown := completes_body hv ht (g := []) (by simp)
  refine ⟨⟨rfl, _, hown.receives, rfl, decide_eq_true hv.crc⟩, g, [], ?_⟩
  rw [List.append_nil]
  rfl

/-! ### A task and what it has read -/

/-- How a task stands to what it has read: the parser has passed the end of it, a request is a
whole frame of it, and what is left to do is the end of it. -/
def Session.Tracks (task : Session) (input : List UInt8) : Prop :=
  match task with
  | .reading rx => ∃ before t, input = before ++ t ∧ passed ReceiveFrame.step (.new false) t = some rx
  | .exchanging wire rest => (WholeFrame wire ∧ wire <:+: input) ∧ rest <:+ input
  | .responding _ rest => rest <:+ input
  | .closed | .panicked => True

theorem Session.tracks_start : Session.start.Tracks [] := ⟨[], [], rfl, rfl⟩

/-- The loop over the bytes of a read. -/
theorem Session.tracks_forward {rx : ReceiveFrame} {t : List UInt8}
    (hpass : passed ReceiveFrame.step (.new false) t = some rx) (before bytes : List UInt8) :
    (Session.forward rx bytes).Tracks (before ++ t ++ bytes) := by
  induction bytes generalizing rx t before with
  | nil => exact ⟨before, t, by simp, hpass⟩
  | cons c rest ih =>
    have hinput : before ++ t ++ c :: rest = before ++ (t ++ [c]) ++ rest := by simp
    unfold Session.forward
    split
    · trivial
    · next rx' n hconsume =>
      rcases ReceiveFrame.consume_ok hconsume with hnext | ⟨a, d, b, rx₁, heq, ha, hret, hcomplete⟩
      · -- the byte is passed
        have hall : passed ReceiveFrame.step (.new false) (t ++ [c]) = some rx' := by
          rw [pass_append_of ReceiveFrame.step hpass]
          exact hnext
        have hopen : rx'.complete = false := ReceiveFrame.complete_of_pass hall
        rw [hopen, hinput]
        exact ih hall before
      · -- the byte completes a frame
        obtain ⟨rfl, rfl, rfl⟩ : a = [] ∧ d = c ∧ b = [] := by
          cases a <;> simp_all
        obtain rfl : rx = rx₁ := by simpa using ha
        have hcompletes : ReceiveFrame.Completes (t ++ [d]) rx' := ⟨t, d, rx, rfl, hpass, hret, hcomplete⟩
        obtain ⟨hwhole, hpiece⟩ := hcompletes.wholeFrame
        rw [hcomplete, hinput]
        refine ⟨⟨hwhole, ?_⟩, ?_⟩
        · rw [List.append_assoc]
          exact hpiece.trans ⟨before, rest, by simp⟩
        · exact List.suffix_append _ rest
    · -- the parser starts afresh behind the byte
      rw [show before ++ t ++ c :: rest = (before ++ t ++ [c]) ++ [] ++ rest by simp]
      exact ih rfl _

theorem Session.tracks_fresh {rest input : List UInt8} (h : rest <:+ input) :
    (Session.forward (.new false) rest).Tracks input := by
  obtain ⟨before, rfl⟩ := h
  simpa using Session.tracks_forward (t := []) rfl before rest

/-- **What the end of a wait does**: the task stands to what it has now read as it did before. -/
theorem Session.Tracks.step {task task' : Session} {input : List UInt8} {ev : SessionEvent} (h : task.Tracks input)
    (hstep : task.step ev = some task') : task'.Tracks (input ++ ev.bytes) := by
  cases task with
  | reading rx =>
    cases ev with
    | read got =>
      obtain rfl : Session.onRead rx got = task' := by simpa [Session.step] using hstep
      obtain ⟨before, t, rfl, hpass⟩ := h
      rcases got with e | (_ | ⟨c, cs⟩)
      · trivial
      · trivial
      · exact Session.tracks_forward hpass before (c :: cs)
    | exchanged r => cases hstep
    | written r => cases hstep
  | exchanging wire rest =>
    cases ev with
    | read got => cases hstep
    | exchanged r =>
      obtain rfl : Session.onExchanged rest r = task' := by simpa [Session.step] using hstep
      obtain ⟨-, hrest⟩ := h
      rw [show (SessionEvent.exchanged r).bytes = [] from rfl, List.append_nil]
      cases r with
      | error e => exact Session.tracks_fresh hrest
      | ok resp =>
        unfold Session.onExchanged
        dsimp only
        split
        · trivial
        · exact hrest
    | written r => cases hstep
  | responding resp rest =>
    cases ev with
    | read got => cases hstep
    | exchanged r => cases hstep
    | written r =>
      obtain rfl : Session.onWritten rest r = task' := by simpa [Session.step] using hstep
      rw [show (SessionEvent.written r).bytes = [] from rfl, List.append_nil]
      cases r with
      | error e => trivial
      | ok u => exact Session.tracks_fresh h
  | closed => cases hstep
  | panicked => cases hstep

/-! ### The proxy and what it has read -/

/-- The proxy with a record of its reads and its upstream writes. -/
structure ObservedProxy where
  /-- The proxy. -/
  proxy : ProxyState
  /-- What has been read from the client of a session. -/
  input : ℕ → List UInt8
  /-- What has been read from the device in the exchange for a request of a session. -/
  received : ℕ → ℕ → List UInt8
  /-- The requests whose write upstream has ended, in order. -/
  upstream : List Forwarded

namespace ObservedProxy

/-- Before the first event. -/
def start : ObservedProxy := ⟨.start, fun _ => [], fun _ _ => [], []⟩

/-- What an event that can happen adds to the record. A request is recorded as it was handed to `write_all`: if
that fails or its timer expires, the device may have only a prefix of it. -/
def record (cfg : ClientConfig) (o : ObservedProxy) : ProxyEvent → ObservedProxy
  | .read s got => { o with input := Function.update o.input s (o.input s ++ (SessionEvent.read got).bytes) }
  | .wrote _ _ =>
    match o.proxy.holder with
    | some (req, _) => { o with upstream := o.upstream ++ [req] }
    | none => o
  | .received ev =>
    match o.proxy.holder with
    | some (req, .receiving start _) =>
      { o with
        received := Function.update o.received req.session
          (Function.update (o.received req.session) req.number
            (o.received req.session req.number ++ (Proxy.policy cfg start).taken ev)) }
    | _ => o
  | _ => o

/-- One event, if it can happen. -/
def step (cfg : ClientConfig) (o : ObservedProxy) (ev : ProxyEvent) : Option ObservedProxy :=
  (o.proxy.step cfg ev).map fun p => { o.record cfg ev with proxy := p }

/-- A request that is one whole frame of what its client has sent. -/
def Genuine (o : ObservedProxy) (req : Forwarded) : Prop := WholeFrame req.wire ∧ req.wire <:+: o.input req.session

/-- How an exchange that holds the lock stands to what it has read. -/
def Listens (o : ObservedProxy) (req : Forwarded) : Exchanging → Prop
  | .connecting | .writing => o.received req.session req.number = []
  | .receiving _ rx => passed ReceiveFrame.step (.new false) (o.received req.session req.number) = some rx

/-- What holds of the record at all times, of tasks and of writes. -/
structure Recorded (o : ObservedProxy) : Prop where
  /-- The requests are numbered. -/
  numbered : o.proxy.Numbered
  /-- Every task stands to its client's bytes as a task does. -/
  tracks : ∀ s, (o.proxy.sessions s).Tracks (o.input s)
  /-- Nothing has been read for a request that is still to come. -/
  fresh : ∀ s n, o.proxy.requests s ≤ n → o.received s n = []
  /-- What has been written upstream. -/
  upstream : ∀ req ∈ o.upstream, o.Genuine req
  /-- What has been written downstream. -/
  written : ∀ s, ∀ a ∈ o.proxy.written s, WholeFrame a.2 ∧ a.2 <:+: o.received s a.1

/-- The invariant of the record: it also says how the exchange that holds the lock stands to the
device's bytes. -/
structure Faithful (o : ObservedProxy) : Prop extends Recorded o where
  /-- The parser of the exchange has passed what has been read in it. -/
  listens : ∀ req up, o.proxy.holder = some (req, up) → o.Listens req up

theorem faithful_start : start.Faithful :=
  ⟨⟨ProxyState.numbered_start, fun _ => Session.tracks_start, fun _ _ _ => rfl, by rintro _ ⟨⟩, by rintro _ _ ⟨⟩⟩,
    by rintro _ _ ⟨⟩⟩

variable {cfg : ClientConfig} {o : ObservedProxy} {p' : ProxyState} {req : Forwarded} {up : Exchanging}

/-! ### What the events do -/

/-- The request of the exchange that holds the lock is genuine. -/
theorem Recorded.genuine (h : o.Recorded) (hholder : o.proxy.holder = some (req, up)) : o.Genuine req := by
  obtain ⟨rest, htask⟩ := (h.numbered.current req up hholder).task
  have htracks := h.tracks req.session
  rw [htask] at htracks
  exact htracks.1

/-- The exchange reads more. -/
theorem Recorded.receive (h : o.Recorded) (hholder : o.proxy.holder = some (req, up)) (more : List UInt8) :
    Recorded { o with
      received := Function.update o.received req.session
        (Function.update (o.received req.session) req.number (o.received req.session req.number ++ more)) } := by
  refine ⟨h.numbered, h.tracks, ?_, h.upstream, ?_⟩
  · intro s n hn
    have hcounted := (h.numbered.current req up hholder).counted
    by_cases hs : s = req.session
    · subst hs
      have hne : n ≠ req.number := fun heq => absurd hcounted (not_lt.mpr (heq ▸ hn))
      simpa [hne] using h.fresh _ n hn
    · simpa [hs] using h.fresh s n hn
  · intro s a ha
    obtain ⟨hwhole, hpiece⟩ := h.written s a ha
    refine ⟨hwhole, hpiece.trans ?_⟩
    by_cases hs : s = req.session
    · subst hs
      by_cases hn : a.1 = req.number
      · simpa [hn] using (List.prefix_append _ more).isInfix
      · simp [hn]
    · simp [hs]

/-- **The end of an exchange**: what is written downstream is what the exchange returns. -/
theorem Recorded.finish (h : o.Recorded) (hholder : o.proxy.holder = some (req, up))
    {r : Except RctError (List UInt8)} (hfinish : o.proxy.finish req r = some p')
    (hr : ∀ resp, r = .ok resp → WholeFrame resp ∧ resp <:+: o.received req.session req.number) :
    Faithful { o with proxy := p' } := by
  have hnumbered := h.numbered.finish (h.numbered.current _ _ hholder) hfinish
  obtain ⟨hnone, hrequests, -, hwritten⟩ := ProxyState.of_finish hfinish
  obtain ⟨task, htask, rfl⟩ := Option.map_eq_some_iff.mp hfinish
  refine ⟨⟨hnumbered, ?_, h.fresh, h.upstream, ?_⟩, by simp⟩
  · intro s
    by_cases hs : s = req.session
    · subst hs
      simpa [SessionEvent.bytes] using (h.tracks req.session).step htask
    · simpa [hs] using h.tracks s
  · intro s a ha
    rcases hwritten with hsame | ⟨resp, hresp, hsome⟩
    · dsimp only at ha hsame
      rw [hsame] at ha
      exact h.written s a ha
    · dsimp only at ha hsome
      rw [hsome] at ha
      by_cases hs : s = req.session
      · subst hs
        rw [Function.update_self, List.mem_append, List.mem_singleton] at ha
        rcases ha with ha | rfl
        · exact h.written _ a ha
        · exact hr resp hresp
      · rw [Function.update_of_ne hs] at ha
        exact h.written s a ha

/-- A wait of a task for its client ends. -/
theorem Faithful.onSession (h : o.Faithful) {s : ℕ} {ev : SessionEvent} (hstep : o.proxy.onSession s ev = some p')
    (hev : ∀ r, ev ≠ .exchanged r) :
    Faithful { o with proxy := p', input := Function.update o.input s (o.input s ++ ev.bytes) } := by
  have hnumbered := h.numbered.onSession hstep hev
  obtain ⟨task, htask, rfl⟩ := Option.map_eq_some_iff.mp hstep
  refine ⟨⟨hnumbered, ?_, h.fresh, ?_, h.written⟩, h.listens⟩
  · intro t
    by_cases ht : t = s
    · subst ht
      simpa using (h.tracks t).step htask
    · simpa [ht] using h.tracks t
  · intro req hreq
    obtain ⟨hwhole, hpiece⟩ := h.upstream req hreq
    refine ⟨hwhole, hpiece.trans ?_⟩
    by_cases hs : req.session = s
    · simpa [hs] using (List.prefix_append _ ev.bytes).isInfix
    · simp [hs]

/-- A task gets the lock: nothing has been read for its request. -/
theorem Faithful.onLocked (h : o.Faithful) {s : ℕ} (hstep : o.proxy.onLocked s = some p') :
    Faithful { o with proxy := p' } := by
  have hnumbered := h.numbered.onLocked hstep
  obtain ⟨wire, rest, -, -, rfl⟩ := ProxyState.of_onLocked hstep
  refine ⟨⟨hnumbered, h.tracks, ?_, h.upstream, h.written⟩, ?_⟩
  · intro t n hn
    apply h.fresh t n
    by_cases ht : t = s
    · subst ht
      simp only [Function.update_self] at hn
      omega
    · simpa [ht] using hn
  · intro req up hholder
    cases hholder
    have hnew := h.fresh s (o.proxy.requests s) le_rfl
    split_ifs <;> exact hnew

/-- The exchange waits for something else. -/
theorem Recorded.next (h : o.Recorded) (hholder : o.proxy.holder = some (req, up)) {p' : ProxyState}
    (hp' : p'.sessions = o.proxy.sessions ∧ p'.requests = o.proxy.requests ∧ p'.written = o.proxy.written)
    (up' : Exchanging) (hholder' : p'.holder = some (req, up')) (hlistens : o.Listens req up') :
    Faithful { o with proxy := p' } := by
  have hnumbered := h.numbered.next hholder hp' hholder'
  obtain ⟨hsessions, hrequests, hwritten⟩ := hp'
  refine ⟨⟨hnumbered, hsessions ▸ h.tracks, hrequests ▸ h.fresh, h.upstream, hwritten ▸ h.written⟩, ?_⟩
  intro req' up₁ hreq
  obtain ⟨rfl, rfl⟩ : req = req' ∧ up' = up₁ := by simpa [hholder'] using hreq
  exact hlistens

theorem Faithful.onConnected (h : o.Faithful) {r : Except IoError Unit} (hstep : o.proxy.onConnected r = some p') :
    Faithful { o with proxy := p' } := by
  obtain ⟨req, hholder, ⟨e, -, hfinish⟩ | ⟨-, rfl⟩⟩ := ProxyState.of_onConnected hstep
  · exact h.toRecorded.finish hholder hfinish (by simp)
  · exact h.toRecorded.next hholder ⟨rfl, rfl, rfl⟩ .writing rfl (h.listens req .connecting hholder)

/-- The write of a request ends, one way or the other. -/
theorem Faithful.onWrote (h : o.Faithful) {r : Timed Unit} {start : ℕ} (hstep : o.proxy.onWrote r start = some p') :
    Faithful { o.record cfg (.wrote r start) with proxy := p' } := by
  obtain ⟨req, hholder, hcases⟩ := ProxyState.of_onWrote hstep
  have hgenuine := h.genuine hholder
  have hwrote : Faithful { o with upstream := o.upstream ++ [req] } := by
    refine ⟨⟨h.numbered, h.tracks, h.fresh, ?_, h.written⟩, h.listens⟩
    intro req' hreq
    rcases List.mem_append.mp hreq with hreq | hreq
    · exact h.upstream req' hreq
    · obtain rfl := List.mem_singleton.mp hreq
      exact hgenuine
  have hrecord : o.record cfg (.wrote r start) = { o with upstream := o.upstream ++ [req] } := by
    simp only [record, hholder]
  rw [hrecord]
  rcases hcases with ⟨e, -, hfinish⟩ | ⟨-, rfl⟩
  · exact hwrote.toRecorded.finish hholder hfinish (by simp)
  · refine hwrote.toRecorded.next hholder ⟨rfl, rfl, rfl⟩ (.receiving start (.new false)) rfl ?_
    have hnone : o.received req.session req.number = [] := h.listens req .writing hholder
    simp only [Listens, hnone, pass_nil]

/-- **A turn of the receive loop**: the parser passes what is read, or what it has read up to here
ends with a frame. -/
theorem Faithful.onReceived (h : o.Faithful) {ev : ReadEvent (Option IoError)}
    (hstep : o.proxy.onReceived cfg ev = some p') : Faithful { o.record cfg (.received ev) with proxy := p' } := by
  obtain ⟨req, start, rx, hholder, hcases⟩ := ProxyState.of_onReceived hstep
  have hpass : passed ReceiveFrame.step (.new false) (o.received req.session req.number) = some rx :=
    h.listens req _ hholder
  have hread := h.toRecorded.receive hholder ((Proxy.policy cfg start).taken ev)
  have hrecord : o.record cfg (.received ev) = { o with
      received := Function.update o.received req.session
        (Function.update (o.received req.session) req.number
          (o.received req.session req.number ++ (Proxy.policy cfg start).taken ev)) } := by
    simp only [record, hholder]
  rw [hrecord]
  rcases hcases with ⟨rx', hnext, rfl⟩ | ⟨rx', r, hret, hfinish⟩ | ⟨e, -, rfl⟩
  · refine hread.next hholder ⟨rfl, rfl, rfl⟩ (.receiving start rx') rfl ?_
    have hall := readOnce_next hpass hnext
    rw [← readOnce_taken (.inl hnext)] at hall
    simpa only [Listens, Function.update_self] using hall
  · refine hread.finish hholder hfinish fun resp hresp => ?_
    obtain ⟨⟩ | ⟨⟨⟩⟩ := r
    · cases hresp
    · obtain rfl : rx'.wireBytes = resp := by simpa [Except.map] using hresp
      obtain ⟨s, rest, hsplit, hcompletes⟩ := readOnce_ok hpass hret
      obtain ⟨hwhole, hpiece⟩ := hcompletes.wholeFrame
      refine ⟨hwhole, hpiece.trans ?_⟩
      dsimp only
      rw [Function.update_self, Function.update_self, readOnce_taken (.inr hret), hsplit]
      exact (List.prefix_append s rest).isInfix
  · refine ⟨⟨h.numbered.onReceived hstep, ?_, hread.fresh, hread.upstream, hread.written⟩, by simp⟩
    intro s
    by_cases hs : s = req.session
    · subst hs
      simp [Session.Tracks]
    · simpa [hs] using h.tracks s

/-- One event keeps the invariant. -/
theorem Faithful.step (h : o.Faithful) {o' : ObservedProxy} {ev : ProxyEvent} (hstep : o.step cfg ev = some o') :
    o'.Faithful := by
  obtain ⟨p', hp, rfl⟩ := Option.map_eq_some_iff.mp hstep
  cases ev with
  | read s got => exact h.onSession hp (by simp)
  | written s r =>
    have hsame : Function.update o.input s (o.input s ++ (SessionEvent.written r).bytes) = o.input := by
      simp [SessionEvent.bytes]
    have hsession : o.proxy.onSession s (.written r) = some p' := hp
    have hfaithful := h.onSession hsession (by simp)
    rwa [hsame] at hfaithful
  | locked s => exact h.onLocked hp
  | connected r => exact h.onConnected hp
  | wrote r start => exact h.onWrote hp
  | received ev => exact h.onReceived hp

/-- **Nothing malformed crosses the proxy.** Whatever the peers send, in pieces of any size, and in
whatever order the tasks run: what is written upstream is one whole frame out of what the client of
the request has sent, and what is written downstream is one whole frame out of what the device has
sent in the exchange for the request that it answers. -/
theorem forwards_whole {evs : List ProxyEvent} (h : run (step cfg) start evs = some o) :
    (∀ req ∈ o.upstream, WholeFrame req.wire ∧ req.wire <:+: o.input req.session) ∧
      ∀ s, ∀ a ∈ o.proxy.written s, WholeFrame a.2 ∧ a.2 <:+: o.received s a.1 :=
  have hinv : o.Faithful := run_induction (fun ho hstep => ho.step hstep) faithful_start h
  ⟨hinv.upstream, hinv.written⟩

/-- A request behind noise, in two reads; the device sends noise, the response and more. -/
theorem forwards_whole_noise :
    let request : StdFrame := ⟨.read, 0xF168B748, [], by decide, by decide, by decide⟩
    let response : StdFrame := ⟨.response, 0xF168B748, [0, 0, 0, 4], by decide, by decide, by decide⟩
    ∃ o, run (step ⟨5, 1⟩) start
        [.read 0 (.ok (0x00 :: request.bytes.take 4)), .read 0 (.ok (request.bytes.drop 4)), .locked 0,
          .connected (.ok ()), .wrote (.ok ()) 0, .received ⟨1, .ok (0x00 :: response.bytes ++ [0xff])⟩] = some o ∧
      o.upstream = [⟨0, 0, request.bytes⟩] ∧ o.proxy.written 0 = [(0, response.bytes)] ∧
      ((∀ req ∈ o.upstream, WholeFrame req.wire ∧ req.wire <:+: o.input req.session) ∧
        ∀ s, ∀ a ∈ o.proxy.written s, WholeFrame a.2 ∧ a.2 <:+: o.received s a.1) := by
  intro request response
  have hrun : (run (step ⟨5, 1⟩) start
      [.read 0 (.ok (0x00 :: request.bytes.take 4)), .read 0 (.ok (request.bytes.drop 4)), .locked 0,
        .connected (.ok ()), .wrote (.ok ()) 0, .received ⟨1, .ok (0x00 :: response.bytes ++ [0xff])⟩]).map
      (fun o => (o.upstream, o.proxy.written 0)) = some ([⟨0, 0, request.bytes⟩], [(0, response.bytes)]) := by
    decide +kernel
  obtain ⟨o, ho, heq⟩ := Option.map_eq_some_iff.mp hrun
  obtain ⟨hup, hdown⟩ : o.upstream = [⟨0, 0, request.bytes⟩] ∧ o.proxy.written 0 = [(0, response.bytes)] := by
    simpa using heq
  exact ⟨o, ho, hup, hdown, forwards_whole ho⟩

end ObservedProxy

end RctPower
