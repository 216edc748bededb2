import RctPower.Transport.ProxyState
import RctPower.Transport.Response

/-!
# The proxy and its device

The tasks of the proxy (`ProxyState`) together with every upstream connection that the proxy has
ever made and the device at the far end. The device answers the oldest request it has on a
connection with a response, or it never does; both can happen at any time, also when the proxy
has long dropped the connection. What an exchange reads is what the device has sent on its
connection, in pieces of any size. A request whose write fails may have been received even so.

## What is proved

`multiplexes`: what a session has been given is, number by number, a subsequence of the
device's answers to this session, and the numbers increase. The invariant is that nothing is
left of the traffic on the pooled connection whenever the lock is free (`Linked`).
-/

namespace RctPower

open RctPower.Lib RctPower.Lib.Rust RctPower.Lib.EarlyExit RctPower.Lib.Machine
open scoped List

/-- The proxy and the device. -/
structure ProxySystem where
  /-- The proxy. -/
  proxy : ProxyState
  /-- The connections, with the device's state. -/
  links : ℕ → Connection Forwarded Response
  /-- The answers of the device on all connections, in order. -/
  answers : List (Forwarded × Response)

namespace ProxySystem

/-- What can happen. -/
inductive Event where
  /-- A wait of the proxy ends. -/
  | proxy (ev : ProxyEvent)
  /-- The device answers the oldest request on a connection. -/
  | answered (c : ℕ) (resp : Response)
  /-- The device will not answer the oldest request on a connection. -/
  | lost (c : ℕ)

/-- Before the first event. -/
def start : ProxySystem := ⟨.start, fun _ => .empty, []⟩

/-- The answers to a session's requests, with their numbers. -/
def responsesTo (s : ℕ) (answers : List (Forwarded × Response)) : List (ℕ × List UInt8) :=
  answers.filterMap fun a => if a.1.session = s then some (a.1.number, a.2.bytes) else none

/-- What an event of the proxy does to the connections, if they allow it. -/
def transfer (cfg : ClientConfig) (p : ProxyState) (links : ℕ → Connection Forwarded Response) :
    ProxyEvent → Option (ℕ → Connection Forwarded Response)
  | .connected (.ok ()) => some (Function.update links p.made .empty)
  | .wrote _ _ =>
    match p.holder, p.pool with
    | some (req, _), some c => some (Function.update links c ((links c).send req))
    | _, _ => some links
  | .received ev =>
    match p.holder, p.pool with
    | some (_, .receiving start _), some c =>
      ((links c).deliver Response.bytes ((Proxy.policy cfg start).taken ev)).map (Function.update links c)
    | _, _ => none
  | _ => some links

/-- One event, if it can happen. -/
def step (cfg : ClientConfig) (w : ProxySystem) : Event → Option ProxySystem
  | .proxy ev =>
    (w.proxy.step cfg ev).bind fun p =>
      (transfer cfg w.proxy w.links ev).map fun links => { w with proxy := p, links }
  | .answered c resp =>
    ((w.links c).answer resp).map fun out =>
      { w with links := Function.update w.links c out.2, answers := w.answers ++ [(out.1, resp)] }
  | .lost c => (w.links c).lose.map fun l => { w with links := Function.update w.links c l }

/-! ### The invariant -/

/-- What an exchange for `req` that waits for its response can have before it: with the
requests `queue` at the device, and the answers `as` pending. Its session has been `given`
some of the `responses` to it. -/
inductive Owed (req : Forwarded) (given responses : List (ℕ × List UInt8)) :
    List Forwarded → List (Forwarded × Response) → Prop
  /-- The device has not dealt with the request. -/
  | waiting : Owed req given responses [req] []
  /-- The device will not answer it. -/
  | lost : Owed req given responses [] []
  /-- The device has answered it, after all that the session has been given. -/
  | answered (resp : Response) (h : given ++ [(req.number, resp.bytes)] <+ responses) :
    Owed req given responses [] [(req, resp)]

/-- The state of the pooled connection: nothing is left on it, but for what the exchange that
waits for a response is owed. -/
def Linked (p : ProxyState) (answers : List (Forwarded × Response)) (l : Connection Forwarded Response) : Prop :=
  match p.holder with
  | some (req, .receiving _ rx) =>
    ∃ as taken, Owed req (p.written req.session) (responsesTo req.session answers) l.queue as ∧
      l.Pending Response.bytes as taken ∧ passed ReceiveFrame.step (.new false) taken = some rx
  | _ => l.Idle Response.bytes

/-- The invariant. -/
structure Inv (w : ProxySystem) : Prop where
  /-- The tasks. -/
  numbered : w.proxy.Numbered
  /-- What a session has been given are answers to its requests. -/
  sublist : ∀ s, w.proxy.written s <+ responsesTo s w.answers
  /-- The pooled connection. -/
  linked : ∀ c, w.proxy.pool = some c → Linked w.proxy w.answers (w.links c)

theorem inv_start : start.Inv := ⟨ProxyState.numbered_start, fun _ => List.Sublist.refl _, by rintro _ ⟨⟩⟩

variable {cfg : ClientConfig} {w w' : ProxySystem} {p p' : ProxyState} {req : Forwarded}
  {links links' : ℕ → Connection Forwarded Response} {answers : List (Forwarded × Response)}

/-- Unless an exchange waits for a response, nothing is left on the connection. -/
theorem Linked.idle {l : Connection Forwarded Response} (h : Linked p answers l)
    (hholder : ∀ req start rx, p.holder ≠ some (req, .receiving start rx)) : l.Idle Response.bytes := by
  rw [Linked] at h
  split at h
  · next hreceiving => exact absurd hreceiving (hholder _ _ _)
  · exact h

theorem linked_of_idle {l : Connection Forwarded Response} (h : l.Idle Response.bytes)
    (hholder : ∀ req start rx, p.holder ≠ some (req, .receiving start rx)) : Linked p answers l := by
  rw [Linked]
  split
  · next hreceiving => exact absurd hreceiving (hholder _ _ _)
  · exact h

/-! ### The events of the proxy -/

/-- **The end of an exchange** keeps the invariant, if what it returns is the answer to its
request and nothing is left on the connection. -/
theorem inv_finish (hnumbered : p'.Numbered) (hsublist : ∀ s, p.written s <+ responsesTo s answers)
    {r : Except RctError (List UInt8)} (hfinish : p.finish req r = some p')
    (hr : ∀ resp, r = .ok resp →
      p.written req.session ++ [(req.number, resp)] <+ responsesTo req.session answers ∧
        ∀ c, p.pool = some c → (links c).Idle Response.bytes) : Inv ⟨p', links, answers⟩ := by
  obtain ⟨hholder, -, hpool, hwritten⟩ := ProxyState.of_finish hfinish
  refine ⟨hnumbered, ?_, ?_⟩
  · intro s
    rcases hwritten with hwritten | ⟨resp, hresp, hwritten⟩
    · simpa [hwritten] using hsublist s
    · by_cases hs : s = req.session
      · subst hs
        simpa [hwritten] using (hr resp hresp).1
      · simpa [hwritten, hs] using hsublist s
  · intro c hc
    refine linked_of_idle ?_ (by simp [hholder])
    cases r with
    | error e => cases hpool.symm.trans hc
    | ok resp => exact (hr resp rfl).2 c (hpool.symm.trans hc)

/-- **A complete response** is the answer that is owed, and nothing is left behind it. -/
theorem Owed.complete {given responses : List (ℕ × List UInt8)} {l : Connection Forwarded Response}
    {as : List (Forwarded × Response)} (h : Owed req given responses l.queue as) {taken : List UInt8}
    (hpending : l.Pending Response.bytes as taken) {rx : ReceiveFrame} (hrx : FirstComplete taken rx) :
    given ++ [(req.number, rx.wireBytes)] <+ responses ∧ l.Idle Response.bytes := by
  generalize hqueue : l.queue = queue at h
  cases h with
  | waiting => exact absurd hrx (Response.not_firstComplete_nil hpending.isPrefix)
  | lost => exact absurd hrx (Response.not_firstComplete_nil hpending.isPrefix)
  | answered resp h =>
    obtain ⟨hle, -, hwire, -⟩ := Response.eq_of_firstComplete hpending.isPrefix hrx
    have hpre := hpending.isPrefix
    rw [Connection.stream_singleton] at hpre
    obtain rfl := hpre.eq_of_length_le hle.length_le
    refine ⟨hwire ▸ h, hqueue, ?_⟩
    have hall : l.Pending Response.bytes ([(req, resp)] ++ []) (Connection.stream Response.bytes [(req, resp)]) := by
      simpa using hpending
    exact hall.settle

theorem Inv.locked (h : w.Inv) (hnumbered : p'.Numbered) {s : ℕ} (hstep : w.proxy.onLocked s = some p') :
    Inv ⟨p', w.links, w.answers⟩ := by
  obtain ⟨wire, rest, hholder, -, rfl⟩ := ProxyState.of_onLocked hstep
  refine ⟨hnumbered, h.sublist, ?_⟩
  intro c hc
  have hidle := (h.linked c hc).idle (by simp [hholder])
  have hpool : w.proxy.pool = some c := hc
  refine linked_of_idle hidle ?_
  intro req start rx hreq
  simp [hpool] at hreq

theorem Inv.connected (h : w.Inv) (hnumbered : p'.Numbered) {r : Except IoError Unit}
    (hstep : w.proxy.onConnected r = some p') (hlinks : transfer cfg w.proxy w.links (.connected r) = some links') :
    Inv ⟨p', links', w.answers⟩ := by
  obtain ⟨req, -, ⟨e, -, hfinish⟩ | ⟨rfl, rfl⟩⟩ := ProxyState.of_onConnected hstep
  · exact inv_finish hnumbered h.sublist hfinish (by simp)
  · cases hlinks
    refine ⟨hnumbered, h.sublist, ?_⟩
    intro c hc
    cases hc
    refine linked_of_idle ?_ (by simp)
    simpa using Connection.idle_empty

theorem Inv.wrote (h : w.Inv) (hnumbered : p'.Numbered) {r : Timed Unit} {start : ℕ}
    (hstep : w.proxy.onWrote r start = some p') (hlinks : transfer cfg w.proxy w.links (.wrote r start) = some links') :
    Inv ⟨p', links', w.answers⟩ := by
  obtain ⟨req, hholder, ⟨e, -, hfinish⟩ | ⟨-, rfl⟩⟩ := ProxyState.of_onWrote hstep
  · exact inv_finish hnumbered h.sublist hfinish (by simp)
  · refine ⟨hnumbered, h.sublist, ?_⟩
    intro c hc
    have hpool : w.proxy.pool = some c := hc
    simp only [transfer, hholder, hpool, Option.some.injEq] at hlinks
    subst hlinks
    have hidle := (h.linked c hpool).idle (by simp [hholder])
    simp only [Linked, Function.update_self]
    refine ⟨[], [], ?_, hidle.2.send req, rfl⟩
    rw [Connection.send, hidle.1]
    exact .waiting

/-- **A turn of the receive loop** gives the session the answer to its request, to the last byte,
or nothing. -/
theorem Inv.received (h : w.Inv) (hnumbered : p'.Numbered) {ev : ReadEvent (Option IoError)}
    (hstep : w.proxy.onReceived cfg ev = some p') (hlinks : transfer cfg w.proxy w.links (.received ev) = some links') :
    Inv ⟨p', links', w.answers⟩ := by
  obtain ⟨req, start, rx, hholder, hcases⟩ := ProxyState.of_onReceived hstep
  cases hpool : w.proxy.pool with
  | none => simp [transfer, hholder, hpool] at hlinks
  | some c =>
    simp only [transfer, hholder, hpool] at hlinks
    obtain ⟨l, hl, rfl⟩ := Option.map_eq_some_iff.mp hlinks
    have hlinked := h.linked c hpool
    simp only [Linked, hholder] at hlinked
    obtain ⟨as, taken, howed, hpending, hpass⟩ := hlinked
    rw [← (Connection.of_deliver hl).2.1] at howed
    have hpending' := hpending.deliver hl
    rcases hcases with ⟨rx', hread, rfl⟩ | ⟨rx', r, hread, hfinish⟩ | ⟨e, hread, -⟩
    · refine ⟨hnumbered, h.sublist, ?_⟩
      intro c' hc
      obtain rfl : c = c' := Option.some.inj (hpool.symm.trans hc)
      simp only [Linked, Function.update_self]
      refine ⟨as, _, howed, hpending', ?_⟩
      rw [readOnce_taken (.inl hread)]
      exact readOnce_next hpass hread
    · refine inv_finish hnumbered h.sublist hfinish ?_
      intro resp hresp
      cases r with
      | error e => cases hresp
      | ok u =>
        cases hresp
        rw [readOnce_taken (.inr hread)] at hpending'
        obtain ⟨hwritten, hidle⟩ := howed.complete hpending' (readOnce_ok hpass hread)
        refine ⟨hwritten, ?_⟩
        intro c' hc
        obtain rfl : c = c' := Option.some.inj (hpool.symm.trans hc)
        rw [Function.update_self]
        exact hidle
    · exact absurd hread (Response.readOnce_ne_panics hpass hpending'.isPrefix e)

/-- An event of the proxy keeps the invariant. -/
theorem Inv.proxy (h : w.Inv) {ev : ProxyEvent} (hstep : w.proxy.step cfg ev = some p')
    (hlinks : transfer cfg w.proxy w.links ev = some links') : Inv ⟨p', links', w.answers⟩ := by
  have hnumbered := h.numbered.step hstep
  cases ev with
  | read s got =>
    cases hlinks
    obtain ⟨task, -, rfl⟩ := Option.map_eq_some_iff.mp hstep
    exact ⟨hnumbered, h.sublist, h.linked⟩
  | written s r =>
    cases hlinks
    obtain ⟨task, -, rfl⟩ := Option.map_eq_some_iff.mp hstep
    exact ⟨hnumbered, h.sublist, h.linked⟩
  | locked s =>
    cases hlinks
    exact h.locked hnumbered hstep
  | connected r => exact h.connected hnumbered hstep hlinks
  | wrote r start => exact h.wrote hnumbered hstep hlinks
  | received ev => exact h.received hnumbered hstep hlinks

/-! ### The device -/

section Device

variable {given responses : List (ℕ × List UInt8)} {t : Forwarded} {rest : List Forwarded}
  {as : List (Forwarded × Response)}

/-- The only request that the device can answer is the one that is waited for. -/
theorem Owed.answer (h : Owed req given responses (t :: rest) as) (hgiven : given <+ responses) (resp : Response) :
    t = req ∧ Owed req given (responses ++ [(req.number, resp.bytes)]) rest (as ++ [(req, resp)]) := by
  generalize hqueue : t :: rest = queue at h
  cases h with
  | waiting =>
    obtain ⟨rfl, rfl⟩ := List.cons.inj hqueue
    exact ⟨rfl, .answered resp (hgiven.append (List.Sublist.refl _))⟩
  | lost => cases hqueue
  | answered => cases hqueue

/-- So is the only one that it can lose. -/
theorem Owed.lose (h : Owed req given responses (t :: rest) as) : Owed req given responses rest as := by
  generalize hqueue : t :: rest = queue at h
  cases h with
  | waiting =>
    obtain ⟨rfl, rfl⟩ := List.cons.inj hqueue
    exact .lost
  | lost => cases hqueue
  | answered => cases hqueue

/-- What a session is owed does not change when the device has answered others. -/
theorem Owed.mono {responses' : List (ℕ × List UInt8)} {queue : List Forwarded}
    (h : Owed req given responses queue as) (hle : responses <+ responses') : Owed req given responses' queue as := by
  cases h with
  | waiting => exact .waiting
  | lost => exact .lost
  | answered resp h => exact .answered resp (h.trans hle)

end Device

/-- An answer adds to the responses of its session. -/
theorem responsesTo_concat (s : ℕ) (answers : List (Forwarded × Response)) (t : Forwarded) (resp : Response) :
    responsesTo s (answers ++ [(t, resp)]) =
      responsesTo s answers ++ if t.session = s then [(t.number, resp.bytes)] else [] := by
  rw [responsesTo]
  rw [List.filterMap_append]
  congr 1
  split_ifs with hs <;> simp [hs]

theorem responsesTo_sublist (s : ℕ) (answers : List (Forwarded × Response)) (t : Forwarded) (resp : Response) :
    responsesTo s answers <+ responsesTo s (answers ++ [(t, resp)]) := by
  rw [responsesTo_concat]
  exact List.sublist_append_left _ _

/-- `Linked` follows what happens at the far end, case by case. -/
theorem Linked.imp {answers' : List (Forwarded × Response)} {l l' : Connection Forwarded Response}
    (h : Linked p answers l)
    (howed : ∀ req as taken, Owed req (p.written req.session) (responsesTo req.session answers) l.queue as →
      l.Pending Response.bytes as taken →
        ∃ as', Owed req (p.written req.session) (responsesTo req.session answers') l'.queue as' ∧
          l'.Pending Response.bytes as' taken)
    (hidle : l.Idle Response.bytes → l'.Idle Response.bytes) : Linked p answers' l' := by
  unfold Linked at h ⊢
  split at h
  · obtain ⟨as, taken, hreq, hpending, hpass⟩ := h
    obtain ⟨as', hreq', hpending'⟩ := howed _ as taken hreq hpending
    exact ⟨as', taken, hreq', hpending', hpass⟩
  · exact hidle h

/-- **An answer of the device** is owed to the session that holds the lock. -/
theorem Linked.answer {l l' : Connection Forwarded Response} {t : Forwarded} {resp : Response}
    (h : Linked p answers l) (hsublist : ∀ s, p.written s <+ responsesTo s answers)
    (hanswer : l.answer resp = some (t, l')) : Linked p (answers ++ [(t, resp)]) l' := by
  obtain ⟨hqueue, -, -⟩ := Connection.of_answer hanswer
  apply h.imp
  · intro req as taken howed hpending
    rw [hqueue] at howed
    obtain ⟨rfl, howed'⟩ := howed.answer (hsublist _) resp
    refine ⟨_, ?_, hpending.answer hanswer⟩
    rw [responsesTo_concat, if_pos rfl]
    exact howed'
  · intro hidle
    cases hqueue.symm.trans hidle.1

theorem Linked.lose {l l' : Connection Forwarded Response} (h : Linked p answers l) (hlose : l.lose = some l') :
    Linked p answers l' := by
  obtain ⟨t, hqueue, -, -⟩ := Connection.of_lose hlose
  apply h.imp
  · intro req as taken howed hpending
    rw [hqueue] at howed
    exact ⟨as, howed.lose, hpending.lose hlose⟩
  · intro hidle
    cases hqueue.symm.trans hidle.1

/-- An answer on another connection changes nothing. -/
theorem Linked.mono {l : Connection Forwarded Response} (h : Linked p answers l) (t : Forwarded) (resp : Response) :
    Linked p (answers ++ [(t, resp)]) l := by
  apply h.imp
  · intro req as taken howed hpending
    exact ⟨as, howed.mono (responsesTo_sublist _ _ t resp), hpending⟩
  · exact id

/-- What happens at the far end of one connection, and is nothing to the others. -/
theorem Inv.update (h : w.Inv) {c : ℕ} {l : Connection Forwarded Response} {answers' : List (Forwarded × Response)}
    (hanswers : ∀ s, responsesTo s w.answers <+ responsesTo s answers')
    (hl : Linked w.proxy w.answers (w.links c) → Linked w.proxy answers' l)
    (hother : ∀ l, Linked w.proxy w.answers l → Linked w.proxy answers' l) :
    Inv ⟨w.proxy, Function.update w.links c l, answers'⟩ := by
  refine ⟨h.numbered, fun s => (h.sublist s).trans (hanswers s), ?_⟩
  intro c' hc
  have hlinked := h.linked c' hc
  by_cases hcc : c' = c
  · subst hcc
    simpa using hl hlinked
  · simpa [hcc] using hother _ hlinked

/-- One event keeps the invariant. -/
theorem Inv.step (h : w.Inv) {ev : Event} (hstep : w.step cfg ev = some w') : w'.Inv := by
  cases ev with
  | proxy ev =>
    obtain ⟨p', hp, hlinks⟩ := Option.bind_eq_some_iff.mp hstep
    obtain ⟨links', htransfer, rfl⟩ := Option.map_eq_some_iff.mp hlinks
    exact h.proxy hp htransfer
  | answered c resp =>
    obtain ⟨⟨t, l⟩, hanswer, rfl⟩ := Option.map_eq_some_iff.mp hstep
    apply h.update
    · intro s
      exact responsesTo_sublist s w.answers t resp
    · intro hlinked
      exact hlinked.answer h.sublist hanswer
    · intro l hlinked
      exact hlinked.mono t resp
  | lost c =>
    obtain ⟨l, hlose, rfl⟩ := Option.map_eq_some_iff.mp hstep
    apply h.update
    · intro s
      exact List.Sublist.refl _
    · intro hlinked
      exact hlinked.lose hlose
    · intro l hlinked
      exact hlinked

/-- **The proxy never mixes clients up.** Whatever happens, in whatever order, what a session has
been given is a subsequence of the device's answers to its own requests: each with the
number of the request that was being served, and no number twice. -/
theorem multiplexes {evs : List Event} (h : run (step cfg) start evs = some w) (s : ℕ) :
    w.proxy.written s <+ responsesTo s w.answers ∧ (w.proxy.written s).Pairwise fun a b => a.1 < b.1 :=
  have hinv : w.Inv := run_induction (fun hw hstep => hw.step hstep) inv_start h
  ⟨hinv.sublist s, hinv.numbered.ordered s⟩

/-- Two sessions: the request of the first times out and is answered afterwards, while the second
gets the lock, a new connection and its answer in two pieces. -/
theorem multiplexes_two :
    let request : StdFrame := ⟨.read, 0xF168B748, [], by decide, by decide, by decide⟩
    let first : Response := .ofFrame ⟨.response, 0xF168B748, [0, 0, 0, 4], by decide, by decide, by decide⟩ rfl
    let second : Response := .ofFrame ⟨.response, 0xF168B748, [0, 0, 0, 5], by decide, by decide, by decide⟩ rfl
    ∃ w, run (step ⟨5, 1⟩) start
        [.proxy (.read 0 (.ok request.bytes)), .proxy (.locked 0), .proxy (.connected (.ok ())),
          .proxy (.wrote (.ok ()) 0), .proxy (.read 1 (.ok request.bytes)), .proxy (.received ⟨5, .error none⟩),
          .proxy (.locked 1), .proxy (.connected (.ok ())), .answered 0 first, .proxy (.wrote (.ok ()) 6),
          .answered 1 second, .proxy (.received ⟨7, .ok (second.bytes.take 3)⟩),
          .proxy (.received ⟨8, .ok (second.bytes.drop 3)⟩)] = some w ∧
      w.proxy.written 0 = [] ∧ responsesTo 0 w.answers = [(0, first.bytes)] ∧
      w.proxy.written 1 = [(0, second.bytes)] ∧
      (w.proxy.written 1 <+ responsesTo 1 w.answers ∧ (w.proxy.written 1).Pairwise fun a b => a.1 < b.1) := by
  intro request first second
  have hrun : (run (step ⟨5, 1⟩) start
      [.proxy (.read 0 (.ok request.bytes)), .proxy (.locked 0), .proxy (.connected (.ok ())),
        .proxy (.wrote (.ok ()) 0), .proxy (.read 1 (.ok request.bytes)), .proxy (.received ⟨5, .error none⟩),
        .proxy (.locked 1), .proxy (.connected (.ok ())), .answered 0 first, .proxy (.wrote (.ok ()) 6),
        .answered 1 second, .proxy (.received ⟨7, .ok (second.bytes.take 3)⟩),
        .proxy (.received ⟨8, .ok (second.bytes.drop 3)⟩)]).map
      (fun w => (w.proxy.written 0, responsesTo 0 w.answers, w.proxy.written 1)) =
      some ([], [(0, first.bytes)], [(0, second.bytes)]) := by
    decide +kernel
  obtain ⟨w, hw, heq⟩ := Option.map_eq_some_iff.mp hrun
  obtain ⟨h₀, h₁, h₂⟩ : w.proxy.written 0 = [] ∧ responsesTo 0 w.answers = [(0, first.bytes)] ∧
      w.proxy.written 1 = [(0, second.bytes)] := by simpa using heq
  exact ⟨w, hw, h₀, h₁, h₂, multiplexes hw 1⟩

end ProxySystem

end RctPower
