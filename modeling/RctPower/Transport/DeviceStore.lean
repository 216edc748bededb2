import RctPower.Lib.Linearization
import RctPower.Transport.EndToEnd

/-!
# A store behind the proxy

The proxy and its connections (`ProxySystem`) with a device that keeps a state: its answer to a request
depends on the requests it has dealt with before, on any connection. The device is any object that
takes one request at a time (`Spec`). A request that it does not answer it may have dealt with even so:
the acknowledgement of a WRITE can be lost, and a request on a connection that the proxy has dropped can
be dealt with at any later time.

The log has the requests when they get the lock, when the device deals with them, and when their
responses are handed to their sessions.

## What is proved

`linearizable`: with all its clients, failures and lost answers, the device behind the proxy is the device
used by one client at a time. The request takes effect between getting the lock and the response
(`Stored`).
-/

namespace RctPower

open RctPower.Lib RctPower.Lib.Rust RctPower.Lib.Machine RctPower.Lib.Linearization
open scoped List

/-- The proxy, and a device with a state. -/
structure DeviceStore (σ : Type) where
  /-- The proxy and the connections. -/
  system : ProxySystem
  /-- The state of the device. -/
  store : σ
  /-- What has happened to the requests. -/
  log : List (Mark (ℕ × ℕ) (List UInt8) (List UInt8))

namespace DeviceStore

variable {σ : Type}

/-- What can happen. -/
inductive Event where
  /-- A wait of the proxy ends. -/
  | proxy (ev : ProxyEvent)
  /-- The device deals with the oldest request on a connection, and answers. -/
  | answered (c : ℕ) (resp : Response)
  /-- The device will not answer the oldest request on a connection, and may have dealt with it. -/
  | lost (c : ℕ) (dealt : Bool)

/-- Before the first event. -/
def start (spec : Spec σ (List UInt8) (List UInt8)) : DeviceStore σ := ⟨.start, spec.init, []⟩

/-- What an event of the proxy means to the requests: one has got the lock, or responses are handed to
the session of the exchange that holds it. -/
def noted (p : ProxyState) (ev : ProxyEvent) (p' : ProxyState) : List (Mark (ℕ × ℕ) (List UInt8) (List UInt8)) :=
  match ev with
  | .locked s =>
    match p.sessions s with
    | .exchanging wire _ => [.act (.call (s, p.requests s) wire)]
    | _ => []
  | _ =>
    match p.holder with
    | some (req, _) =>
      ((p'.written req.session).drop (p.written req.session).length).map fun a => .act (.ret (req.session, a.1) a.2)
    | none => []

/-- One event, if it can happen. -/
def step (spec : Spec σ (List UInt8) (List UInt8)) (cfg : ClientConfig) (w : DeviceStore σ) :
    Event → Option (DeviceStore σ)
  | .proxy ev => (w.system.step cfg (.proxy ev)).map fun system =>
      { w with system, log := w.log ++ noted w.system.proxy ev system.proxy }
  | .answered c resp =>
    match (w.system.links c).queue with
    | [] => none
    | t :: _ =>
      let out := spec.apply w.store t.wire
      if out.2 = resp.bytes then
        (w.system.step cfg (.answered c resp)).map fun system =>
          ⟨system, out.1, w.log ++ [.effect ⟨t.key, t.wire, resp.bytes⟩]⟩
      else none
  | .lost c dealt =>
    match (w.system.links c).queue with
    | [] => none
    | t :: _ =>
      let out := spec.apply w.store t.wire
      (w.system.step cfg (.lost c)).map fun system =>
        if dealt then ⟨system, out.1, w.log ++ [.effect ⟨t.key, t.wire, out.2⟩]⟩ else { w with system }

/-! ### The requests on the connections -/

/-- The requests that the device has not dealt with, on connections that the proxy has or has dropped. -/
structure Apart (links : ℕ → Connection Forwarded Response) : Prop where
  /-- No connection has one twice. -/
  nodup : ∀ c, ((links c).queue.map Forwarded.key).Nodup
  /-- No two connections have the same. -/
  disjoint : ∀ {c c' : ℕ} {t t' : Forwarded}, t ∈ (links c).queue → t' ∈ (links c').queue → t.key = t'.key → c = c'

/-- A connection loses requests, and the others are as they were. -/
theorem Apart.sublist {links links' : ℕ → Connection Forwarded Response} (h : Apart links)
    (hle : ∀ c, (links' c).queue <+ (links c).queue) : Apart links' := by
  refine ⟨fun c => (h.nodup c).sublist ((hle c).map _), ?_⟩
  intro c c' t t' ht ht' hkey
  exact h.disjoint ((hle c).subset ht) ((hle c').subset ht') hkey

/-- A new request. -/
theorem Apart.concat {links links' : ℕ → Connection Forwarded Response} (h : Apart links) {req : Forwarded} {c : ℕ}
    (hnew : ∀ c, ∀ t ∈ (links c).queue, t.key ≠ req.key) (hc : (links' c).queue = (links c).queue ++ [req])
    (hother : ∀ d, d ≠ c → (links' d).queue = (links d).queue) : Apart links' := by
  have hmem : ∀ {d t}, t ∈ (links' d).queue → t ∈ (links d).queue ∨ (d = c ∧ t = req) := by
    intro d t ht
    by_cases hd : d = c
    · subst hd
      rw [hc, List.mem_append, List.mem_singleton] at ht
      exact ht.imp id fun ht => ⟨rfl, ht⟩
    · exact .inl (hother d hd ▸ ht)
  refine ⟨?_, ?_⟩
  · intro d
    by_cases hd : d = c
    · subst hd
      rw [hc, List.map_append, List.map_singleton]
      refine nodup_concat (h.nodup d) fun hkey => ?_
      obtain ⟨t, ht, heq⟩ := List.mem_map.mp hkey
      exact hnew d t ht heq
    · rw [hother d hd]
      exact h.nodup d
  · intro d d' t t' ht ht' hkey
    rcases hmem ht with hold | ⟨rfl, rfl⟩
    · rcases hmem ht' with hold' | ⟨rfl, rfl⟩
      · exact h.disjoint hold hold' hkey
      · exact absurd hkey (hnew d t hold)
    · rcases hmem ht' with hold' | ⟨rfl, rfl⟩
      · exact absurd hkey.symm (hnew d' t' hold')
      · rfl

/-! ### The invariant -/

/-- What holds of the log at all times. -/
structure Stored (spec : Spec σ (List UInt8) (List UInt8)) (w : DeviceStore σ) : Prop where
  /-- Requests take effect between getting the lock and their responses. -/
  pointed : Pointed spec w.log
  /-- The proxy and its connections. -/
  system : w.system.Inv
  /-- The state of the device is that after what has taken effect. -/
  store : w.store = spec.after spec.init (effects w.log)
  /-- The requests on the connections. -/
  apart : Apart w.system.links
  /-- The requests that have got the lock have been counted. -/
  counted : ∀ {k i}, .call k i ∈ history w.log → k.2 < w.system.proxy.requests k.1
  /-- What a session has been given are the returns. -/
  returned : ∀ {s n r}, (n, r) ∈ w.system.proxy.written s ↔ .ret (s, n) r ∈ history w.log
  /-- What the device has answered has taken effect. -/
  answered : ∀ a ∈ w.system.answers, ⟨a.1.key, a.1.wire, a.2.bytes⟩ ∈ effects w.log
  /-- What is on a connection has not. -/
  queued : ∀ {c t}, t ∈ (w.system.links c).queue →
    .call t.key t.wire ∈ history w.log ∧ t.key ∉ (effects w.log).map Op.key
  /-- The request of the exchange that holds the lock. -/
  held : ∀ {req up}, w.system.proxy.holder = some (req, up) → .call req.key req.wire ∈ history w.log
  /-- As long as it is not written it is on no connection. -/
  unsent : ∀ {req up}, w.system.proxy.holder = some (req, up) → (∀ start rx, up ≠ .receiving start rx) →
    req.key ∉ (effects w.log).map Op.key ∧ ∀ c, ∀ t ∈ (w.system.links c).queue, t.key ≠ req.key

theorem stored_start (spec : Spec σ (List UInt8) (List UInt8)) : (start spec).Stored spec where
  pointed := .nil
  system := ProxySystem.inv_start
  store := rfl
  apart := ⟨fun _ => List.nodup_nil, by rintro _ _ _ _ ⟨⟩⟩
  counted := by rintro _ _ ⟨⟩
  returned := ⟨nofun, nofun⟩
  answered := by rintro _ ⟨⟩
  queued := by rintro _ _ ⟨⟩
  held := by rintro _ _ ⟨⟩
  unsent := by rintro _ _ ⟨⟩

variable {spec : Spec σ (List UInt8) (List UInt8)} {cfg : ClientConfig} {w w' : DeviceStore σ} {p p' : ProxyState}
  {links' : ℕ → Connection Forwarded Response} {ev : ProxyEvent}

/-- What an event means to the requests, by what it does. -/
theorem noted_cases (h : ProxyState.Steps cfg p ev p') :
    (∃ s wire rest, p.holder = none ∧ p.sessions s = .exchanging wire rest ∧
        noted p ev p' = [.act (.call (s, p.requests s) wire)] ∧ p'.written = p.written ∧
        p'.requests = Function.update p.requests s (p.requests s + 1) ∧
        ∃ up, p'.holder = some (⟨s, p.requests s, wire⟩, up)) ∨
      (noted p ev p' = [] ∧ p'.written = p.written ∧ p'.requests = p.requests ∧
        ∀ req up, p'.holder = some (req, up) → ∃ up₀, p.holder = some (req, up₀) ∧
          ((∀ start rx, up ≠ .receiving start rx) →
            (∀ start rx, up₀ ≠ .receiving start rx) ∧ ∀ r start, ev ≠ .wrote r start)) ∨
      ∃ req up resp, p.holder = some (req, up) ∧ p'.holder = none ∧ p'.requests = p.requests ∧
        noted p ev p' = [.act (.ret req.key resp)] ∧
        p'.written = Function.update p.written req.session (p.written req.session ++ [(req.number, resp)]) := by
  have hsilent : ∀ {q : ProxyState}, q.written = p.written → (∀ s, ev ≠ .locked s) → noted p ev q = [] := by
    intro q hq hev
    rw [noted.eq_def]
    split
    · exact absurd rfl (hev _)
    · split
      · rw [hq, List.drop_length]
        rfl
      · rfl
  cases h with
  | read => exact .inr (.inl ⟨hsilent rfl nofun, rfl, rfl, fun req up hup => ⟨up, hup, fun hne => ⟨hne, nofun⟩⟩⟩)
  | written => exact .inr (.inl ⟨hsilent rfl nofun, rfl, rfl, fun req up hup => ⟨up, hup, fun hne => ⟨hne, nofun⟩⟩⟩)
  | locked hfree hwaits =>
    refine .inl ⟨_, _, _, hfree, hwaits, ?_, rfl, rfl, _, rfl⟩
    simp only [noted, hwaits]
  | connected hholds =>
    refine .inr (.inl ⟨hsilent rfl nofun, rfl, rfl, ?_⟩)
    rintro req up hup
    cases hup
    exact ⟨_, hholds, fun _ => ⟨nofun, nofun⟩⟩
  | wrote start hholds =>
    refine .inr (.inl ⟨hsilent rfl nofun, rfl, rfl, ?_⟩)
    rintro req up hup
    cases hup
    exact ⟨_, hholds, fun hne => absurd rfl (hne _ _)⟩
  | received hholds _ =>
    refine .inr (.inl ⟨hsilent rfl nofun, rfl, rfl, ?_⟩)
    rintro req up hup
    cases hup
    exact ⟨_, hholds, fun hne => absurd rfl (hne _ _)⟩
  | @finished req up ev r p' hholds hends hfinish =>
    have hev : ∀ s, ev ≠ .locked s := by
      rintro s rfl
      cases hends
    obtain ⟨hfree, hrequests, -, hsame | ⟨resp, -, hresp⟩⟩ := ProxyState.of_finish hfinish
    · refine .inr (.inl ⟨hsilent hsame hev, hsame, hrequests, ?_⟩)
      rw [hfree]
      rintro req up ⟨⟩
    · refine .inr (.inr ⟨req, up, resp, hholds, hfree, hrequests, ?_, hresp⟩)
      rw [noted.eq_def]
      split
      · exact absurd rfl (hev _)
      · simp only [hholds, hresp, Function.update_self, List.drop_left]
        rfl
  | panicked => exact .inr (.inl ⟨hsilent rfl nofun, rfl, rfl, nofun⟩)

/-- The request that gets the lock is new. -/
theorem Stored.new (h : w.Stored spec) (s : ℕ) :
    (∀ i, .call (s, w.system.proxy.requests s) i ∉ history w.log) ∧
      (s, w.system.proxy.requests s) ∉ (effects w.log).map Op.key ∧
      ∀ c, ∀ t ∈ (w.system.links c).queue, t.key ≠ (s, w.system.proxy.requests s) := by
  have hnew : ∀ i, .call (s, w.system.proxy.requests s) i ∉ history w.log :=
    fun i hi => absurd (h.counted hi) (lt_irrefl _)
  refine ⟨hnew, ?_, ?_⟩
  · intro hkey
    obtain ⟨o, ho, heq⟩ := List.mem_map.mp hkey
    exact hnew o.input (heq ▸ h.pointed.linearizes.called o ho)
  · intro c t ht heq
    exact hnew t.wire (heq ▸ (h.queued ht).1)

/-- The requests on the connections after an event of the proxy: those that were there, and the one that
is written. -/
theorem Stored.requests (h : w.Stored spec) (hsteps : ProxyState.Steps cfg w.system.proxy ev p')
    (hlinks : ProxySystem.transfer cfg w.system.proxy w.system.links ev = some links') :
    Apart links' ∧ ∀ {c t}, t ∈ (links' c).queue →
      t ∈ (w.system.links c).queue ∨ w.system.proxy.holder = some (t, .writing) ∧ ∃ r start, ev = .wrote r start := by
  rcases ProxySystem.queue_of_transfer hlinks with hle | ⟨req, up, r, start, c, rfl, hholder, hqueue, hother⟩
  · exact ⟨h.apart.sublist hle, fun ht => .inl ((hle _).subset ht)⟩
  · obtain ⟨req', hwriting⟩ := hsteps.writing
    obtain ⟨rfl, rfl⟩ : req = req' ∧ up = .writing := by simpa [hholder] using hwriting
    refine ⟨h.apart.concat (h.unsent hwriting nofun).2 hqueue hother, ?_⟩
    intro d t ht
    by_cases hd : d = c
    · subst hd
      rw [hqueue, List.mem_append, List.mem_singleton] at ht
      exact ht.imp id fun (hreq : t = req) => ⟨hreq ▸ hwriting, r, start, rfl⟩
    · exact .inl (hother d hd ▸ ht)

/-- What is on the connections has been called, and has not taken effect. -/
theorem Stored.queued_of (h : w.Stored spec) {c : ℕ} {t : Forwarded}
    (ht : t ∈ (w.system.links c).queue ∨ w.system.proxy.holder = some (t, .writing) ∧ ∃ r start, ev = .wrote r start) :
    .call t.key t.wire ∈ history w.log ∧ t.key ∉ (effects w.log).map Op.key := by
  rcases ht with hold | ⟨hwriting, -⟩
  · exact h.queued hold
  · exact ⟨h.held hwriting, (h.unsent hwriting nofun).1⟩

/-- **A request gets the lock**, and is new. -/
theorem Stored.locked (h : w.Stored spec) {s : ℕ} {wire : List UInt8} {system : ProxySystem} (hsystem : system.Inv)
    (hapart : Apart system.links) (hqueue : ∀ c, (system.links c).queue ⊆ (w.system.links c).queue)
    (hwritten : system.proxy.written = w.system.proxy.written) (hanswers : system.answers = w.system.answers)
    (hrequests : system.proxy.requests =
      Function.update w.system.proxy.requests s (w.system.proxy.requests s + 1))
    {up : Exchanging} (hholder : system.proxy.holder = some (⟨s, w.system.proxy.requests s, wire⟩, up)) :
    Stored spec ⟨system, w.store, w.log ++ [.act (.call (s, w.system.proxy.requests s) wire)]⟩ := by
  obtain ⟨hcall, htaken, hunsent⟩ := h.new s
  refine ⟨h.pointed.call hcall, hsystem, ?_, hapart, ?_, ?_, ?_, ?_, ?_, ?_⟩
  · rw [effects_act]
    exact h.store
  · intro k i hk
    rw [history_act, List.mem_append, List.mem_singleton] at hk
    rw [hrequests]
    rcases hk with hold | hnew
    · have hlt := h.counted hold
      by_cases hs : k.1 = s
      · rw [hs, Function.update_self, ← hs]
        omega
      · rwa [Function.update_of_ne hs]
    · obtain ⟨rfl, rfl⟩ := Act.call.inj hnew
      rw [Function.update_self]
      exact Nat.lt_succ_self _
  · intro t n r
    rw [history_act, List.mem_append, List.mem_singleton, hwritten, h.returned, or_iff_left nofun]
  · rw [effects_act, hanswers]
    exact h.answered
  · intro c t ht
    obtain ⟨hcalled, hnot⟩ := h.queued (hqueue c ht)
    rw [history_act, effects_act]
    exact ⟨List.mem_append_left _ hcalled, hnot⟩
  · intro req up' hreq
    obtain ⟨rfl, -⟩ : _ = req ∧ up = up' := by simpa [hholder] using hreq
    rw [history_act]
    exact List.mem_append_right _ (List.mem_singleton.mpr rfl)
  · intro req up' hreq _
    obtain ⟨rfl, -⟩ : _ = req ∧ up = up' := by simpa [hholder] using hreq
    rw [effects_act]
    exact ⟨htaken, fun c t ht => hunsent c t (hqueue c ht)⟩

/-- **A response is handed to its session**: its request has taken effect, and has not returned before. -/
theorem Stored.handed (h : w.Stored spec) {system : ProxySystem} (hsystem : system.Inv) (hapart : Apart system.links)
    (hqueued : ∀ {c t}, t ∈ (system.links c).queue →
      .call t.key t.wire ∈ history w.log ∧ t.key ∉ (effects w.log).map Op.key)
    {req : Forwarded} {up : Exchanging} (hholds : w.system.proxy.holder = some (req, up))
    (hfree : system.proxy.holder = none) (hrequests : system.proxy.requests = w.system.proxy.requests)
    (hanswers : system.answers = w.system.answers) {resp : List UInt8}
    (hwritten : system.proxy.written =
      Function.update w.system.proxy.written req.session (w.system.proxy.written req.session ++ [(req.number, resp)])) :
    Stored spec ⟨system, w.store, w.log ++ [.act (.ret req.key resp)]⟩ := by
  -- the response is an answer of the device to the request
  have hgiven : (req.number, resp) ∈ system.proxy.written req.session := by simp [hwritten]
  obtain ⟨a, ha, hresp⟩ := List.mem_filterMap.mp ((hsystem.sublist req.session).subset hgiven)
  rw [hanswers] at ha
  split_ifs at hresp with hsession
  obtain ⟨hnumber, rfl⟩ := Prod.mk.inj (Option.some.inj hresp)
  have hkey : a.1.key = req.key := by rw [Forwarded.key, hsession, hnumber, Forwarded.key]
  have htaken := h.answered a ha
  rw [hkey] at htaken
  have hfirst : ∀ r, .ret req.key r ∉ history w.log := by
    intro r hr
    have hlast := (h.system.numbered.current req up hholds).last _ (h.returned.mpr hr)
    exact absurd hlast (lt_irrefl _)
  refine ⟨h.pointed.ret htaken hfirst, hsystem, ?_, hapart, ?_, ?_, ?_, ?_, ?_, ?_⟩
  · rw [effects_act]
    exact h.store
  · intro k i hk
    rw [history_act, List.mem_append, List.mem_singleton] at hk
    rw [hrequests]
    exact h.counted (hk.resolve_right nofun)
  · intro s n r
    rw [history_act, List.mem_append, List.mem_singleton, hwritten, ← h.returned]
    by_cases hs : s = req.session
    · subst hs
      simp [Forwarded.key]
    · simp [hs, Forwarded.key]
  · rw [effects_act, hanswers]
    exact h.answered
  · intro c t ht
    obtain ⟨hcalled, hnot⟩ := hqueued ht
    rw [history_act, effects_act]
    exact ⟨List.mem_append_left _ hcalled, hnot⟩
  · intro req' up' hreq
    simp [hfree] at hreq
  · intro req' up' hreq
    simp [hfree] at hreq

/-- **An event of the proxy** keeps the invariant. -/
theorem Stored.proxy (h : w.Stored spec) (hstep : w.system.proxy.step cfg ev = some p')
    (hlinks : ProxySystem.transfer cfg w.system.proxy w.system.links ev = some links') :
    Stored spec ⟨⟨p', links', w.system.answers⟩, w.store, w.log ++ noted w.system.proxy ev p'⟩ := by
  have hsystem := h.system.proxy hstep hlinks
  have hsteps := ProxyState.steps_of_step hstep
  obtain ⟨hapart, hqueue⟩ := h.requests hsteps hlinks
  rcases noted_cases hsteps with ⟨s, wire, rest, hfree, -, hnoted, hwritten, hrequests, up, hholder⟩ |
    ⟨hnoted, hwritten, hrequests, hholder⟩ | ⟨req, up, resp, hholds, hfree, hrequests, hnoted, hwritten⟩
  · rw [hnoted]
    refine h.locked hsystem hapart (fun c t ht => ?_) hwritten rfl hrequests hholder
    exact (hqueue ht).resolve_right fun hw => by simp [hfree] at hw
  · -- nothing that concerns the requests
    rw [hnoted, List.append_nil]
    refine ⟨h.pointed, hsystem, h.store, hapart, ?_, ?_, h.answered, fun ht => h.queued_of (hqueue ht), ?_, ?_⟩
    · intro k i hk
      rw [hrequests]
      exact h.counted hk
    · intro t n r
      rw [hwritten]
      exact h.returned
    · intro req up hreq
      obtain ⟨up₀, hholder₀, -⟩ := hholder req up hreq
      exact h.held hholder₀
    · intro req up hreq hup
      obtain ⟨up₀, hholder₀, hup₀⟩ := hholder req up hreq
      obtain ⟨hbefore, hev⟩ := hup₀ hup
      obtain ⟨hnot, hunsent⟩ := h.unsent hholder₀ hbefore
      refine ⟨hnot, fun c t ht => hunsent c t ((hqueue ht).resolve_right ?_)⟩
      rintro ⟨-, r, start, rfl⟩
      exact hev r start rfl
  · rw [hnoted]
    exact h.handed hsystem hapart (fun ht => h.queued_of (hqueue ht)) hholds hfree hrequests rfl hwritten

/-! ### The device -/

/-- The device has dealt with the oldest request on a connection. -/
theorem Apart.tail {links : ℕ → Connection Forwarded Response} (h : Apart links) {c : ℕ}
    {l : Connection Forwarded Response} {t : Forwarded} (hqueue : (links c).queue = t :: l.queue) :
    Apart (Function.update links c l) ∧ ∀ {d u}, u ∈ (Function.update links c l d).queue →
      u ∈ (links d).queue ∧ u.key ≠ t.key := by
  have hle : ∀ d, (Function.update links c l d).queue <+ (links d).queue := by
    intro d
    by_cases hd : d = c
    · subst hd
      rw [Function.update_self, hqueue]
      exact List.sublist_cons_self _ _
    · rw [Function.update_of_ne hd]
  refine ⟨h.sublist hle, fun {d u} hu => ⟨(hle d).subset hu, fun hkey => ?_⟩⟩
  have hold := (hle d).subset hu
  have ht : t ∈ (links c).queue := hqueue ▸ List.mem_cons_self
  obtain rfl := h.disjoint hold ht hkey
  rw [Function.update_self] at hu
  have hnodup := h.nodup d
  rw [hqueue, List.map_cons, List.nodup_cons] at hnodup
  exact hnodup.1 (hkey ▸ List.mem_map_of_mem hu)

/-- **The device deals with a request**, whether it answers or not. -/
theorem Stored.dealt (h : w.Stored spec) {c : ℕ} {l : Connection Forwarded Response} {t : Forwarded}
    (hqueue : (w.system.links c).queue = t :: l.queue) {answers : List (Forwarded × Response)}
    (hsystem : ProxySystem.Inv ⟨w.system.proxy, Function.update w.system.links c l, answers⟩)
    (hanswers : ∀ a ∈ answers, a ∈ w.system.answers ∨ a.1 = t ∧ a.2.bytes = (spec.apply w.store t.wire).2) :
    Stored spec ⟨⟨w.system.proxy, Function.update w.system.links c l, answers⟩, (spec.apply w.store t.wire).1,
      w.log ++ [.effect ⟨t.key, t.wire, (spec.apply w.store t.wire).2⟩]⟩ := by
  obtain ⟨hapart, hrest⟩ := h.apart.tail hqueue
  have ht : t ∈ (w.system.links c).queue := hqueue ▸ List.mem_cons_self
  obtain ⟨hcalled, hnot⟩ := h.queued ht
  refine ⟨h.pointed.effect hcalled hnot (by rw [← h.store]), hsystem, ?_, hapart, ?_, ?_, ?_, ?_, ?_, ?_⟩
  · rw [effects_effect, Spec.after_concat, ← h.store]
  · intro k i hk
    rw [history_effect] at hk
    exact h.counted hk
  · intro s n r
    rw [history_effect]
    exact h.returned
  · intro a ha
    rw [effects_effect, List.mem_append, List.mem_singleton]
    rcases hanswers a ha with hold | ⟨rfl, hbytes⟩
    · exact .inl (h.answered a hold)
    · exact .inr (by rw [hbytes])
  · intro d u hu
    obtain ⟨hold, hne⟩ := hrest hu
    obtain ⟨hcalled', hnot'⟩ := h.queued hold
    rw [history_effect, effects_effect, List.map_append, List.mem_append, List.map_singleton, List.mem_singleton]
    exact ⟨hcalled', not_or.mpr ⟨hnot', hne⟩⟩
  · intro req up hreq
    rw [history_effect]
    exact h.held hreq
  · intro req up hreq hup
    obtain ⟨hnot', hunsent⟩ := h.unsent hreq hup
    rw [effects_effect, List.map_append, List.mem_append, List.map_singleton, List.mem_singleton]
    exact ⟨not_or.mpr ⟨hnot', (hunsent c t ht).symm⟩, fun d u hu => hunsent d u (hrest hu).1⟩

/-- The device has lost a request. -/
theorem Stored.lost (h : w.Stored spec) {c : ℕ} {l : Connection Forwarded Response} {t : Forwarded}
    (hqueue : (w.system.links c).queue = t :: l.queue)
    (hsystem : ProxySystem.Inv ⟨w.system.proxy, Function.update w.system.links c l, w.system.answers⟩) :
    Stored spec { w with system := ⟨w.system.proxy, Function.update w.system.links c l, w.system.answers⟩ } := by
  obtain ⟨hapart, hrest⟩ := h.apart.tail hqueue
  refine ⟨h.pointed, hsystem, h.store, hapart, h.counted, h.returned, h.answered, fun hu => h.queued (hrest hu).1,
    h.held, ?_⟩
  intro req up hreq hup
  obtain ⟨hnot, hunsent⟩ := h.unsent hreq hup
  exact ⟨hnot, fun d u hu => hunsent d u (hrest hu).1⟩

/-- One event keeps the invariant. -/
theorem Stored.step (h : w.Stored spec) {ev : Event} (hstep : step spec cfg w ev = some w') : w'.Stored spec := by
  cases ev with
  | proxy ev =>
    obtain ⟨system, hsystem, rfl⟩ := Option.map_eq_some_iff.mp hstep
    obtain ⟨p', hp, hlinks⟩ := Option.bind_eq_some_iff.mp hsystem
    obtain ⟨links', htransfer, rfl⟩ := Option.map_eq_some_iff.mp hlinks
    exact h.proxy hp htransfer
  | answered c resp =>
    rw [DeviceStore.step] at hstep
    split at hstep
    · cases hstep
    · next t rest hqueue =>
      dsimp only at hstep
      split_ifs at hstep with hresp
      obtain ⟨system, hsystem, rfl⟩ := Option.map_eq_some_iff.mp hstep
      have hinv := h.system.step hsystem
      obtain ⟨⟨u, l⟩, hanswer, rfl⟩ := Option.map_eq_some_iff.mp hsystem
      obtain ⟨hfirst, -, -⟩ := Connection.of_answer hanswer
      obtain ⟨rfl, rfl⟩ := List.cons.inj (hqueue.symm.trans hfirst)
      rw [← hresp]
      refine h.dealt hfirst hinv fun a ha => ?_
      rw [List.mem_append, List.mem_singleton] at ha
      exact ha.imp id fun (hnew : a = (t, resp)) => ⟨hnew ▸ rfl, hnew ▸ hresp.symm⟩
  | lost c dealt =>
    rw [DeviceStore.step] at hstep
    split at hstep
    · cases hstep
    · next t rest hqueue =>
      obtain ⟨system, hsystem, rfl⟩ := Option.map_eq_some_iff.mp hstep
      have hinv := h.system.step hsystem
      obtain ⟨l, hlose, rfl⟩ := Option.map_eq_some_iff.mp hsystem
      obtain ⟨u, hfirst, -, -⟩ := Connection.of_lose hlose
      obtain ⟨rfl, rfl⟩ := List.cons.inj (hqueue.symm.trans hfirst)
      cases dealt with
      | true => exact h.dealt hfirst hinv fun a ha => .inl ha
      | false => exact h.lost hfirst hinv

/-- **The device behind the proxy is linearizable.** Whatever the clients send, in whatever order the tasks run, and
whatever fails or is lost: the requests that got the lock and the responses that were handed to the sessions are a
history that the device could have had with one request at a time, a request that got the lock after a response was
handed on being dealt with after the request of that response. -/
theorem linearizable {evs : List Event} (h : run (step spec cfg) (start spec) evs = some w) :
    WellFormed (history w.log) ∧ Linearizable spec (history w.log) ∧
      ∀ s n r, (n, r) ∈ w.system.proxy.written s ↔ .ret (s, n) r ∈ history w.log :=
  have hinv : w.Stored spec := run_induction (fun hw hstep => hw.step hstep) (stored_start spec) h
  ⟨hinv.pointed.wellFormed, ⟨_, hinv.pointed.linearizes⟩, fun _ _ _ => hinv.returned⟩

/-- A device with one payload for each id: a WRITE replaces it, and the answer is what is then stored. -/
def objects : Spec (UInt32 → List UInt8) (List UInt8) (List UInt8) where
  init _ := []
  apply s wire :=
    let respond (s : UInt32 → List UInt8) (id : UInt32) : (UInt32 → List UInt8) × List UInt8 :=
      (s, if h : (s id).length ≤ 4 then (StdFrame.response id (s id) h).bytes else [])
    match (ReceiveFrame.new false).consume wire with
    | .ok (rx, .ok _) =>
      if rx.command = some .write then respond (Function.update s rx.id rx.data) rx.id else respond s rx.id
    | _ => (s, [])

/-- The acknowledgement of a WRITE is lost; another session then reads the value. -/
theorem linearizable_lostAck :
    let write : StdFrame := ⟨.write, 0xDEADBEEF, [0, 0, 0, 4], by decide, by decide, by decide⟩
    let read : StdFrame := ⟨.read, 0xDEADBEEF, [], by decide, by decide, by decide⟩
    let stored : Response := .ofFrame (.response 0xDEADBEEF [0, 0, 0, 4] (by decide)) rfl
    ∃ w, run (step objects ⟨5, 1⟩) (start objects)
        [.proxy (.read 0 (.ok write.bytes)), .proxy (.locked 0), .proxy (.connected (.ok ())),
          .proxy (.wrote (.ok ()) 0), .proxy (.read 1 (.ok read.bytes)), .lost 0 true,
          .proxy (.received ⟨6, .error none⟩), .proxy (.locked 1), .proxy (.connected (.ok ())),
          .proxy (.wrote (.ok ()) 7), .answered 1 stored, .proxy (.received ⟨8, .ok stored.bytes⟩)] = some w ∧
      w.system.proxy.written 0 = [] ∧ w.system.proxy.written 1 = [(0, stored.bytes)] ∧
      (WellFormed (history w.log) ∧ Linearizable objects (history w.log) ∧
        ∀ s n r, (n, r) ∈ w.system.proxy.written s ↔ .ret (s, n) r ∈ history w.log) := by
  intro write read stored
  have hrun : (run (step objects ⟨5, 1⟩) (start objects)
      [.proxy (.read 0 (.ok write.bytes)), .proxy (.locked 0), .proxy (.connected (.ok ())),
        .proxy (.wrote (.ok ()) 0), .proxy (.read 1 (.ok read.bytes)), .lost 0 true,
        .proxy (.received ⟨6, .error none⟩), .proxy (.locked 1), .proxy (.connected (.ok ())),
        .proxy (.wrote (.ok ()) 7), .answered 1 stored, .proxy (.received ⟨8, .ok stored.bytes⟩)]).map
      (fun w => (w.system.proxy.written 0, w.system.proxy.written 1)) = some ([], [(0, stored.bytes)]) := by
    decide +kernel
  obtain ⟨w, hw, heq⟩ := Option.map_eq_some_iff.mp hrun
  obtain ⟨h₀, h₁⟩ : w.system.proxy.written 0 = [] ∧ w.system.proxy.written 1 = [(0, stored.bytes)] := by
    simpa using heq
  exact ⟨w, hw, h₀, h₁, linearizable hw⟩

end DeviceStore

end RctPower
