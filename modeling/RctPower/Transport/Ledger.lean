import RctPower.Transport.Serving

/-!
# What becomes of the requests

The proxy with a ledger: what has been read from each client, which exchanges of each session have ended,
each with its frame and how, and which requests have been written upstream, each with the number of its
connection. The peers are free, as in `ProxyState`.

## What is proved

* `serves_in_order`: the exchanges of a session are for the frames of what its client has sent, one after
  the other. The client is handed the answers, in order, and a task that waits for more has dealt with all.
* `forwards_once`: a request is written upstream at most once, and a connection carries another one only
  if no exchange on it has failed with an error. One whose task has died leaves its connection in use.
-/

namespace RctPower

open RctPower.Lib.Rust RctPower.Lib.EarlyExit RctPower.Lib.Machine
open scoped List

/-- What has become of a request. -/
inductive Fate where
  /-- There is a response. -/
  | answered (resp : List UInt8)
  /-- Its exchange has failed. -/
  | failed (e : RctError)
  /-- Its task has died. -/
  | crashed

/-- The fate of a request whose exchange returns. -/
def Fate.ofResult : Except RctError (List UInt8) → Fate
  | .ok resp => .answered resp
  | .error e => .failed e

/-- The response, if there is one. -/
def Fate.response? : Fate → Option (List UInt8)
  | .answered resp => some resp
  | _ => none

/-- An exchange that has ended. -/
structure Ended where
  /-- The frame of the request. -/
  wire : List UInt8
  /-- What has become of it. -/
  fate : Fate

/-- The responses, with the numbers of the requests. -/
def responses (fates : List Ended) : List (ℕ × List UInt8) :=
  fates.zipIdx.filterMap fun f => f.1.fate.response?.map fun resp => (f.2, resp)

namespace ProxyState

/-- The exchange that an event ends, if it ends one, and how. -/
def ending (cfg : ClientConfig) (p : ProxyState) : ProxyEvent → Option (Forwarded × Fate)
  | .connected (.error e) =>
    match p.holder with
    | some (req, .connecting) => some (req, .failed (.io e))
    | _ => none
  | .wrote (.error e) _ =>
    match p.holder with
    | some (req, .writing) => some (req, .failed (timedError e))
    | _ => none
  | .received turn =>
    match p.holder with
    | some (req, .receiving start rx) =>
      match readOnce (Proxy.policy cfg start) rx turn with
      | .next _ => none
      | .ret rx' r => some (req, .ofResult (r.map fun _ => rx'.wireBytes))
      | .panics _ => some (req, .crashed)
    | _ => none
  | _ => none

/-- The request that an event is the write of, and its connection. -/
def sent (p : ProxyState) : ProxyEvent → Option (Forwarded × ℕ)
  | .wrote _ _ => p.holder.bind fun h => p.pool.map fun c => (h.1, c)
  | _ => none

end ProxyState

/-- The proxy with its ledger. -/
structure Ledger where
  /-- The proxy. -/
  proxy : ProxyState
  /-- What has been read from the client of a session. -/
  input : ℕ → List UInt8
  /-- The exchanges of a session that have ended, in order. -/
  fates : ℕ → List Ended
  /-- The requests written upstream, with their connections, in order. -/
  wrote : List (Forwarded × ℕ)

namespace Ledger

/-- Before the first event. -/
def start : Ledger := ⟨.start, fun _ => [], fun _ => [], []⟩

/-- The ends of exchanges, with one more. -/
def enter (fates : ℕ → List Ended) : Option (Forwarded × Fate) → ℕ → List Ended
  | some (req, fate) => Function.update fates req.session (fates req.session ++ [⟨req.wire, fate⟩])
  | none => fates

/-- One event, if it can happen. -/
def step (cfg : ClientConfig) (l : Ledger) (ev : ProxyEvent) : Option Ledger :=
  (l.proxy.step cfg ev).map fun p =>
    ⟨p, ev.heard l.input, enter l.fates (l.proxy.ending cfg ev), l.wrote ++ (l.proxy.sent ev).toList⟩

variable {cfg : ClientConfig} {l l' : Ledger} {p p' : ProxyState} {ev : ProxyEvent} {req : Forwarded} {up : Exchanging}

theorem ending_of_ends (hholds : p.holder = some (req, up)) {r : Except RctError (List UInt8)}
    (h : ProxyState.Ends cfg up ev r) : p.ending cfg ev = some (req, .ofResult r) := by
  cases h with
  | unconnected e => simp only [ProxyState.ending, hholds, Fate.ofResult]
  | unwritten e start => simp only [ProxyState.ending, hholds, Fate.ofResult]
  | returned hret => simp only [ProxyState.ending, hholds, hret]

theorem responses_concat (fates : List Ended) (wire : List UInt8) (fate : Fate) :
    responses (fates ++ [⟨wire, fate⟩]) =
      responses fates ++ (fate.response?.map fun resp => (fates.length, resp)).toList := by
  rw [responses, List.zipIdx_append, List.filterMap_append]
  cases fate <;> simp [responses, Fate.response?]

/-- An entry is not changed by others. -/
theorem getElem?_enter {fates : ℕ → List Ended} {s n : ℕ} {ended : Ended} (h : (fates s)[n]? = some ended)
    (entry : Option (Forwarded × Fate)) : (enter fates entry s)[n]? = some ended := by
  rcases entry with - | ⟨req, f⟩
  · exact h
  · by_cases hs : s = req.session
    · subst hs
      obtain ⟨hlt, -⟩ := List.getElem?_eq_some_iff.mp h
      rwa [enter, Function.update_self, List.getElem?_append_left hlt]
    · rwa [enter, Function.update_of_ne hs]

/-- An entry is an old one or the new one. -/
theorem getElem?_enter_cases {fates : ℕ → List Ended} {fate : Fate} {s n : ℕ} {ended : Ended}
    (h : (enter fates (some (req, fate)) s)[n]? = some ended) :
    (fates s)[n]? = some ended ∨ (s, n) = (req.session, (fates s).length) ∧ ended = ⟨req.wire, fate⟩ := by
  by_cases hs : s = req.session
  · subst hs
    rw [enter, Function.update_self] at h
    rcases Nat.lt_trichotomy n (fates req.session).length with hlt | rfl | hgt
    · rw [List.getElem?_append_left hlt] at h
      exact .inl h
    · rw [List.getElem?_concat_length] at h
      exact .inr ⟨rfl, (Option.some.inj h).symm⟩
    · rw [List.getElem?_eq_none (by simp; omega)] at h
      cases h
  · rw [enter, Function.update_of_ne hs] at h
    exact .inl h

/-! ### The requests of a session -/

/-- The ledger of the sessions is right. -/
structure Booked (l : Ledger) : Prop where
  /-- The tasks follow their clients. -/
  follows : l.proxy.Follows l.input
  /-- The parser of the exchange that holds the lock has passed some bytes. -/
  listening : ∀ {req start rx}, l.proxy.holder = some (req, .receiving start rx) →
    ∃ taken, passed ReceiveFrame.step (.new false) taken = some rx
  /-- Every exchange that has ended is in the ledger. -/
  counted : ∀ s, (l.fates s).length = l.proxy.ended s
  /-- It was for the frame of its client that has its number. -/
  asked : ∀ {s n ended}, (l.fates s)[n]? = some ended → Asked l.input ⟨s, n, ended.wire⟩
  /-- The clients have been handed the responses. -/
  written : ∀ s, l.proxy.written s = responses (l.fates s)

theorem booked_start : start.Booked where
  follows := ProxyState.follows_start
  listening := by rintro _ _ _ ⟨⟩
  counted _ := rfl
  asked := by rintro _ _ _ ⟨⟩
  written _ := rfl

/-- An event that ends no exchange. -/
theorem Booked.next (h : l.Booked) (hfollows : p'.Follows (ev.heard l.input))
    (hending : l.proxy.ending cfg ev = none) (hended : p'.ended = l.proxy.ended)
    (hwritten : p'.written = l.proxy.written)
    (hlistening : ∀ {req start rx}, p'.holder = some (req, .receiving start rx) →
      ∃ taken, passed ReceiveFrame.step (.new false) taken = some rx) (wrote : List (Forwarded × ℕ)) :
    Booked ⟨p', ev.heard l.input, enter l.fates (l.proxy.ending cfg ev), wrote⟩ := by
  rw [hending]
  refine ⟨hfollows, hlistening, ?_, fun hget => (h.asked hget).heard ev, ?_⟩
  · intro s
    rw [hended]
    exact h.counted s
  · intro s
    rw [hwritten]
    exact h.written s

/-- The number of an exchange that ends is that of its entry. -/
theorem Booked.number (h : l.Booked) (hholds : l.proxy.holder = some (req, up)) :
    (l.fates req.session).length = req.number := by
  rw [h.counted]
  simp only [ProxyState.ended, hholds, if_true]

/-- **An exchange ends**, and is entered. -/
theorem Booked.enter (h : l.Booked) (hfollows : p'.Follows (ev.heard l.input))
    (hholds : l.proxy.holder = some (req, up)) (hfree : p'.holder = none) (hrequests : p'.requests = l.proxy.requests)
    {fate : Fate} (hending : l.proxy.ending cfg ev = some (req, fate))
    (hwritten : p'.written = Function.update l.proxy.written req.session
      (l.proxy.written req.session ++ (fate.response?.map fun resp => (req.number, resp)).toList))
    (wrote : List (Forwarded × ℕ)) :
    Booked ⟨p', ev.heard l.input, enter l.fates (l.proxy.ending cfg ev), wrote⟩ := by
  have hnumber := h.number hholds
  rw [hending]
  refine ⟨hfollows, ?_, ?_, ?_, ?_⟩
  · intro req' start rx hreq
    simp [hfree] at hreq
  · intro s
    have hcounted := h.counted s
    dsimp only [Ledger.enter]
    by_cases hs : s = req.session
    · subst hs
      rw [Function.update_self, List.length_append, List.length_singleton, hnumber]
      simp only [ProxyState.ended, hfree, hrequests, h.follows.last hholds]
    · rw [Function.update_of_ne hs, hcounted]
      simp only [ProxyState.ended, hfree, hholds, hrequests, if_neg (Ne.symm hs)]
  · intro s n ended hget
    rcases getElem?_enter_cases hget with hold | ⟨hkey, rfl⟩
    · exact (h.asked hold).heard ev
    · obtain ⟨rfl, rfl⟩ := Prod.mk.inj hkey
      rw [hnumber]
      exact (h.follows.asked hholds).heard ev
  · intro s
    have hbefore := h.written s
    dsimp only [Ledger.enter]
    rw [hwritten]
    by_cases hs : s = req.session
    · subst hs
      rw [Function.update_self, Function.update_self, responses_concat, hnumber, hbefore]
    · rw [Function.update_of_ne hs, Function.update_of_ne hs, hbefore]

/-- An exchange hands its response on: the task does not die of it. -/
theorem Booked.handed (h : l.Booked) (hholds : l.proxy.holder = some (req, up)) {r : Except RctError (List UInt8)}
    (hends : ProxyState.Ends cfg up ev r) (hfinish : l.proxy.finish req r = some p') :
    p'.written = Function.update l.proxy.written req.session
      (l.proxy.written req.session ++ ((Fate.ofResult r).response?.map fun resp => (req.number, resp)).toList) := by
  have hreturnable : Proxy.Returnable r := hends.returnable fun start rx hup => h.listening (hup ▸ hholds)
  obtain ⟨rest, htask⟩ := (h.follows.numbered.current req up hholds).task
  obtain ⟨task, hstep, rfl⟩ := Option.map_eq_some_iff.mp hfinish
  rw [htask] at hstep
  obtain rfl : Session.onExchanged rest r = task := by simpa [Session.step] using hstep
  cases r with
  | error e =>
    have hnone : (Session.onExchanged rest (.error e)).handed = [] := Session.handed_forward _ _
    simp [hnone, Fate.ofResult, Fate.response?]
  | ok resp =>
    obtain ⟨out, hout⟩ := consume_returnable hreturnable
    have hsome : (Session.onExchanged rest (.ok resp)).handed = [resp] := by
      simp only [Session.onExchanged, hout]
      rfl
    simp [hsome, Fate.ofResult, Fate.response?]

/-- One event keeps the ledger of the sessions right. -/
theorem Booked.step (h : l.Booked) (hstep : step cfg l ev = some l') : l'.Booked := by
  obtain ⟨p', hp, rfl⟩ := Option.map_eq_some_iff.mp hstep
  have hfollows := h.follows.step hp
  cases ProxyState.steps_of_step hp with
  | read _ => exact h.next hfollows rfl rfl rfl h.listening _
  | written _ => exact h.next hfollows rfl rfl rfl h.listening _
  | @locked s wire rest hfree hwaits =>
    refine h.next hfollows rfl ?_ rfl ?_ _
    · funext t
      by_cases ht : s = t
      · simp [ProxyState.ended, hfree, ht]
      · simp [ProxyState.ended, hfree, ht, Ne.symm ht]
    · intro req start rx hreq
      cases hpool : l.proxy.pool <;> simp [hpool] at hreq
  | connected hholds =>
    refine h.next hfollows rfl ?_ rfl (by simp) _
    funext t
    simp only [ProxyState.ended, hholds]
  | wrote start hholds =>
    refine h.next hfollows rfl ?_ rfl ?_ _
    · funext t
      simp only [ProxyState.ended, hholds]
    · rintro req start rx ⟨⟩
      exact ⟨[], rfl⟩
  | @received req start rx rx' turn hholds hgoes =>
    refine h.next hfollows ?_ ?_ rfl ?_ _
    · simp only [ProxyState.ending, hholds, hgoes]
    · funext t
      simp only [ProxyState.ended, hholds]
    · rintro req start rx ⟨⟩
      obtain ⟨taken, hpass⟩ := h.listening hholds
      exact ⟨_, readOnce_next hpass hgoes⟩
  | finished hholds hends hfinish =>
    obtain ⟨hfree, hrequests, -, -⟩ := ProxyState.of_finish hfinish
    exact h.enter hfollows hholds hfree hrequests (ending_of_ends hholds hends) (h.handed hholds hends hfinish) _
  | @panicked req start rx turn e hholds hdies =>
    have hending : l.proxy.ending cfg (.received turn) = some (req, .crashed) := by
      simp only [ProxyState.ending, hholds, hdies]
    exact h.enter hfollows hholds rfl rfl hending (by simp [Fate.response?]) _

/-- The frames that have been dealt with are those in the ledger. -/
theorem Booked.eq_done (h : l.Booked) {s : ℕ} {done : List (List UInt8)} (hlen : done.length = l.proxy.ended s)
    (hdone : done <+: frames (.new false) (l.input s)) : done = (l.fates s).map Ended.wire := by
  have hcounted := h.counted s
  refine List.ext_getElem (by rw [List.length_map, hcounted, hlen]) fun n hn hn' => ?_
  have hlt : n < (l.fates s).length := by omega
  have hasked : (frames (.new false) (l.input s))[n]? = some (l.fates s)[n].wire :=
    h.asked (List.getElem?_eq_getElem hlt)
  obtain ⟨more, hmore⟩ := hdone
  rw [← hmore, List.getElem?_append_left hn, List.getElem?_eq_getElem hn, Option.some.injEq] at hasked
  rw [hasked, List.getElem_map]

/-- **Requests are served in order, and each once.** Whatever the peers do: the exchanges of a session that have
ended were for the first of the frames that its client has sent, each for the one with its number, and the client
has been handed the responses among their results, each with the number of its request. A task that goes on holds
the rest of the frames, and one that waits for more bytes has none left. -/
theorem serves_in_order {evs : List ProxyEvent} (h : run (step cfg) start evs = some l) (s : ℕ) :
    let done := (l.fates s).map Ended.wire
    l.proxy.written s = responses (l.fates s) ∧ done <+: frames (.new false) (l.input s) ∧
      ((l.proxy.sessions s).Open → frames (.new false) (l.input s) = done ++ (l.proxy.sessions s).pending []) ∧
      ∀ rx, l.proxy.sessions s = .reading rx → frames (.new false) (l.input s) = done := by
  have hinv : l.Booked := run_induction (fun hl hstep => hl.step hstep) booked_start h
  obtain ⟨done, hlen, hdone, hall⟩ := hinv.follows.served s
  obtain rfl : done = (l.fates s).map Ended.wire := hinv.eq_done hlen hdone
  refine ⟨hinv.written s, hdone, ?_, ?_⟩
  · intro hopen
    simpa using hall hopen []
  · intro rx hreading
    rw [hreading] at hall
    simpa [Session.pending, frames] using hall ⟨by simp, by simp⟩ []

/-- Two requests in one read: the first gets no answer in time, and the second does, on a new connection. -/
theorem serves_in_order_two :
    let first : StdFrame := ⟨.write, 0xF168B748, [0, 0, 0, 4], by decide, by decide, by decide⟩
    let second : StdFrame := ⟨.read, 0xF168B748, [], by decide, by decide, by decide⟩
    let response : StdFrame := ⟨.response, 0xF168B748, [0, 0, 0, 5], by decide, by decide, by decide⟩
    ∃ l, run (step ⟨5, 1⟩) start
        [.read 0 (.ok (first.bytes ++ second.bytes)), .locked 0, .connected (.ok ()), .wrote (.ok ()) 0,
          .received ⟨6, .error none⟩, .locked 0, .connected (.ok ()), .wrote (.ok ()) 7,
          .received ⟨8, .ok response.bytes⟩, .written 0 (.ok ())] = some l ∧
      responses (l.fates 0) = [(1, response.bytes)] ∧ (l.fates 0).map Ended.wire = [first.bytes, second.bytes] ∧
      l.proxy.written 0 = [(1, response.bytes)] ∧ frames (.new false) (l.input 0) = [first.bytes, second.bytes] := by
  intro first second response
  have hrun : (run (step ⟨5, 1⟩) start
      [.read 0 (.ok (first.bytes ++ second.bytes)), .locked 0, .connected (.ok ()), .wrote (.ok ()) 0,
        .received ⟨6, .error none⟩, .locked 0, .connected (.ok ()), .wrote (.ok ()) 7,
        .received ⟨8, .ok response.bytes⟩, .written 0 (.ok ())]).map
      (fun l => (responses (l.fates 0), (l.fates 0).map Ended.wire, l.proxy.sessions 0)) =
      some ([(1, response.bytes)], [first.bytes, second.bytes], .reading (.new false)) := by
    decide +kernel
  obtain ⟨l, hl, heq⟩ := Option.map_eq_some_iff.mp hrun
  simp only [Prod.mk.injEq] at heq
  obtain ⟨hresponses, hwires, hreading⟩ := heq
  obtain ⟨hwritten, -, -, hall⟩ := serves_in_order hl 0
  exact ⟨l, hl, hresponses, hwires, hwritten.trans hresponses, (hall _ hreading).trans hwires⟩

/-! ### The requests on the connections -/

/-- An exchange has ended, and has not failed with an error. -/
def Settled (fates : ℕ → List Ended) (req : Forwarded) : Prop :=
  ∃ fate, (fates req.session)[req.number]? = some ⟨req.wire, fate⟩ ∧ ∀ e, fate ≠ .failed e

theorem Settled.enter {fates : ℕ → List Ended} (h : Settled fates req) (entry : Option (Forwarded × Fate)) :
    Settled (enter fates entry) req := by
  obtain ⟨fate, hfate, hne⟩ := h
  exact ⟨fate, getElem?_enter hfate entry, hne⟩

/-- What the ledger says of the connections. -/
structure Carried (l : Ledger) : Prop where
  /-- The pooled connection is the last that was made. -/
  pooled : ∀ {c}, l.proxy.pool = some c → c + 1 = l.proxy.made
  /-- There is one, once an exchange has got it. -/
  linked : ∀ {req up}, l.proxy.holder = some (req, up) → up ≠ .connecting → ∃ c, l.proxy.pool = some c
  /-- Requests have been written on connections that were made. -/
  made : ∀ a ∈ l.wrote, a.2 < l.proxy.made
  /-- They have been counted. -/
  counted : ∀ a ∈ l.wrote, a.1.number < l.proxy.requests a.1.session
  /-- They are frames of their clients. -/
  asked : ∀ a ∈ l.wrote, Asked l.input a.1
  /-- That of an exchange that has not written yet is not among them. -/
  unsent : ∀ {req up}, l.proxy.holder = some (req, up) → (∀ start rx, up ≠ .receiving start rx) →
    ∀ a ∈ l.wrote, a.1.key ≠ req.key
  /-- That of an exchange that waits for its response is. -/
  sent : ∀ {req start rx}, l.proxy.holder = some (req, .receiving start rx) → ∃ a ∈ l.wrote, a.1 = req
  /-- None is there twice. -/
  once : (l.wrote.map fun a => a.1.key).Nodup
  /-- On a connection, nothing comes after a failure. -/
  ordered : l.wrote.Pairwise fun a b => a.2 ≤ b.2 ∧ (a.2 = b.2 → Settled l.fates a.1)
  /-- Nothing on the pooled connection has failed. -/
  usable : ∀ {c}, l.proxy.pool = some c → ∀ a ∈ l.wrote, a.2 = c →
    Settled l.fates a.1 ∨ ∃ start rx, l.proxy.holder = some (a.1, .receiving start rx)
  /-- Every request with an answer has been written. -/
  answered : ∀ {s n wire resp}, (l.fates s)[n]? = some ⟨wire, .answered resp⟩ → ∃ a ∈ l.wrote, a.1.key = (s, n)

theorem carried_start : start.Carried where
  pooled := by rintro _ ⟨⟩
  linked := by rintro _ _ ⟨⟩
  made := by rintro _ ⟨⟩
  counted := by rintro _ ⟨⟩
  asked := by rintro _ ⟨⟩
  unsent := by rintro _ _ ⟨⟩
  sent := by rintro _ _ _ ⟨⟩
  once := List.nodup_nil
  ordered := List.Pairwise.nil
  usable := by rintro _ _ _ ⟨⟩
  answered := by rintro _ _ _ _ ⟨⟩

/-- A task goes on with its client. -/
theorem Carried.client (h : l.Carried) (hholder : p'.holder = l.proxy.holder) (hpool : p'.pool = l.proxy.pool)
    (hmade : p'.made = l.proxy.made) (hrequests : p'.requests = l.proxy.requests) (ev : ProxyEvent) :
    Carried ⟨p', ev.heard l.input, l.fates, l.wrote⟩ := by
  refine ⟨?_, ?_, ?_, ?_, fun a ha => (h.asked a ha).heard ev, ?_, ?_, h.once, h.ordered, ?_, h.answered⟩
  · rw [hpool, hmade]
    exact h.pooled
  · rw [hholder, hpool]
    exact h.linked
  · rw [hmade]
    exact h.made
  · rw [hrequests]
    exact h.counted
  · rw [hholder]
    exact h.unsent
  · rw [hholder]
    exact h.sent
  · rw [hholder, hpool]
    exact h.usable

/-- A task gets the lock, for a request that has not been written before. -/
theorem Carried.locked (h : l.Carried) {s : ℕ} {wire : List UInt8} (hfree : l.proxy.holder = none) :
    Carried { l with proxy := { l.proxy with
      requests := Function.update l.proxy.requests s (l.proxy.requests s + 1)
      holder := some (⟨s, l.proxy.requests s, wire⟩, if l.proxy.pool.isNone then .connecting else .writing) } } := by
  refine ⟨h.pooled, ?_, h.made, ?_, h.asked, ?_, ?_, h.once, h.ordered, ?_, h.answered⟩
  · rintro req up hreq hup
    cases hpool : l.proxy.pool with
    | none =>
      obtain ⟨-, rfl⟩ : _ ∧ Exchanging.connecting = up := by simpa [hpool] using hreq
      exact absurd rfl hup
    | some c => exact ⟨c, rfl⟩
  · intro a ha
    have hlt := h.counted a ha
    dsimp only
    by_cases hs : a.1.session = s
    · rw [hs, Function.update_self, ← hs]
      omega
    · rwa [Function.update_of_ne hs]
  · intro req up hreq _ a ha hkey
    obtain ⟨rfl, -⟩ : _ = req ∧ _ = up := by simpa using hreq
    obtain ⟨hs, hn⟩ := Prod.mk.inj hkey
    have hlt := h.counted a ha
    rw [hs, hn] at hlt
    exact absurd hlt (lt_irrefl _)
  · intro req start rx hreq
    cases hpool : l.proxy.pool <;> simp [hpool] at hreq
  · intro c hc a ha hac
    rcases h.usable hc a ha hac with hsettled | ⟨start, rx, hholds⟩
    · exact .inl hsettled
    · cases hfree.symm.trans hholds

/-- There is a new connection, with nothing on it. -/
theorem Carried.connected (h : l.Carried) (hholds : l.proxy.holder = some (req, .connecting)) :
    Carried { l with proxy := { l.proxy with
      holder := some (req, .writing), pool := some l.proxy.made, made := l.proxy.made + 1 } } := by
  refine ⟨?_, ?_, ?_, h.counted, h.asked, ?_, ?_, h.once, h.ordered, ?_, h.answered⟩
  · rintro c ⟨⟩
    rfl
  · intro req' up' _ _
    exact ⟨_, rfl⟩
  · intro a ha
    exact Nat.lt_succ_of_lt (h.made a ha)
  · rintro req' up' ⟨⟩ -
    exact h.unsent hholds nofun
  · rintro req' start rx ⟨⟩
  · rintro c ⟨⟩ a ha hac
    exact absurd (h.made a ha) (by omega)

/-- **A request is written**, on a connection on which no exchange has failed. -/
theorem Carried.wrote (h : l.Carried) (hasked : Asked l.input req) (hholds : l.proxy.holder = some (req, .writing))
    (hcounted : req.number < l.proxy.requests req.session) {c : ℕ} (hpool : l.proxy.pool = some c) (start : ℕ)
    (rx : ReceiveFrame) :
    Carried { l with
      proxy := { l.proxy with holder := some (req, .receiving start rx) }
      wrote := l.wrote ++ [(req, c)] } := by
  have hmem : ∀ {a}, a ∈ l.wrote ++ [(req, c)] → a ∈ l.wrote ∨ a = (req, c) := by
    intro a ha
    rwa [List.mem_append, List.mem_singleton] at ha
  have hlast : ∀ a ∈ l.wrote, a.2 ≤ c ∧ (a.2 = c → Settled l.fates a.1) := by
    intro a ha
    refine ⟨?_, fun hac => ?_⟩
    · have hlt := h.made a ha
      have hmade := h.pooled hpool
      omega
    · rcases h.usable hpool a ha hac with hsettled | ⟨start', rx', hreceiving⟩
      · exact hsettled
      · cases hholds.symm.trans hreceiving
  refine ⟨h.pooled, fun _ _ => ⟨c, hpool⟩, ?_, ?_, ?_, ?_, ?_, ?_, ?_, ?_, ?_⟩
  · intro a ha
    rcases hmem ha with hold | rfl
    · exact h.made a hold
    · exact Nat.lt_of_succ_le (h.pooled hpool).le
  · intro a ha
    rcases hmem ha with hold | rfl
    · exact h.counted a hold
    · exact hcounted
  · intro a ha
    rcases hmem ha with hold | rfl
    · exact h.asked a hold
    · exact hasked
  · rintro req' up' ⟨⟩ hup
    exact absurd rfl (hup start rx)
  · rintro req' start' rx' ⟨⟩
    exact ⟨_, List.mem_append_right _ (List.mem_singleton.mpr rfl), rfl⟩
  · rw [List.map_append, List.map_singleton]
    rw [← List.concat_eq_append]
    refine List.Nodup.concat (fun hkey => ?_) h.once
    obtain ⟨a, ha, heq⟩ := List.mem_map.mp hkey
    exact h.unsent hholds nofun a ha heq
  · rw [List.pairwise_append]
    refine ⟨h.ordered, List.pairwise_singleton _ _, fun a ha b hb => ?_⟩
    obtain rfl := List.mem_singleton.mp hb
    exact hlast a ha
  · intro d hd a ha had
    obtain rfl : c = d := Option.some.inj (hpool.symm.trans hd)
    rcases hmem ha with hold | rfl
    · exact .inl ((hlast a hold).2 had)
    · exact .inr ⟨start, rx, rfl⟩
  · intro s n wire resp hfate
    obtain ⟨a, ha, hkey⟩ := h.answered hfate
    exact ⟨a, List.mem_append_left _ ha, hkey⟩

/-- The exchange waits for more. -/
theorem Carried.received (h : l.Carried) {start₀ : ℕ} {rx₀ : ReceiveFrame}
    (hholds : l.proxy.holder = some (req, .receiving start₀ rx₀)) (start : ℕ) (rx : ReceiveFrame) :
    Carried { l with proxy := { l.proxy with holder := some (req, .receiving start rx) } } := by
  refine ⟨h.pooled, ?_, h.made, h.counted, h.asked, ?_, ?_, h.once, h.ordered, ?_, h.answered⟩
  · intro _ _ _ _
    exact h.linked hholds nofun
  · rintro req' up' ⟨⟩ hup
    exact absurd rfl (hup start rx)
  · rintro req' start' rx' ⟨⟩
    exact h.sent hholds
  · intro c hc a ha hac
    rcases h.usable hc a ha hac with hsettled | ⟨start', rx', hreceiving⟩
    · exact .inl hsettled
    · obtain ⟨rfl, -⟩ := Prod.mk.inj (Option.some.inj (hholds.symm.trans hreceiving))
      exact .inr ⟨start, rx, rfl⟩

/-- **An exchange ends**: unless it has failed the connection is as good as before. -/
theorem Carried.enter (h : l.Carried) (hholds : l.proxy.holder = some (req, up))
    (hnumber : (l.fates req.session).length = req.number) (hfree : p'.holder = none)
    (hrequests : p'.requests = l.proxy.requests) (hmade : p'.made = l.proxy.made) {fate : Fate}
    (hpool : p'.pool = none ∨ p'.pool = l.proxy.pool ∧ ∀ e, fate ≠ .failed e)
    (hanswered : ∀ resp, fate = .answered resp → ∃ start rx, up = .receiving start rx) :
    Carried ⟨p', l.input, enter l.fates (some (req, fate)), l.wrote⟩ := by
  have hnew : (Ledger.enter l.fates (some (req, fate)) req.session)[req.number]? = some ⟨req.wire, fate⟩ := by
    rw [Ledger.enter, Function.update_self, ← hnumber, List.getElem?_concat_length]
  refine ⟨?_, ?_, ?_, ?_, h.asked, ?_, ?_, h.once, ?_, ?_, ?_⟩
  · intro c hc
    dsimp only at hc
    rcases hpool with hnone | ⟨hsame, -⟩
    · cases hnone.symm.trans hc
    · exact (h.pooled (hsame.symm.trans hc)).trans hmade.symm
  · intro req' up' hreq
    cases hfree.symm.trans hreq
  · rw [hmade]
    exact h.made
  · rw [hrequests]
    exact h.counted
  · intro req' up' hreq
    cases hfree.symm.trans hreq
  · intro req' start rx hreq
    cases hfree.symm.trans hreq
  · exact h.ordered.imp fun hab => ⟨hab.1, fun heq => (hab.2 heq).enter (some (req, fate))⟩
  · intro c hc a ha hac
    rcases hpool with hnone | ⟨hsame, hfate⟩
    · cases hnone.symm.trans hc
    · rcases h.usable (hsame.symm.trans hc) a ha hac with hsettled | ⟨start, rx, hreceiving⟩
      · exact .inl (hsettled.enter (some (req, fate)))
      · obtain ⟨rfl, -⟩ := Prod.mk.inj (Option.some.inj (hholds.symm.trans hreceiving))
        exact .inl ⟨fate, hnew, hfate⟩
  · intro s n wire resp hget
    rcases getElem?_enter_cases hget with hold | ⟨hkey, hentry⟩
    · exact h.answered hold
    · obtain ⟨rfl, rfl⟩ := Prod.mk.inj hkey
      obtain ⟨start, rx, rfl⟩ := hanswered resp (congrArg Ended.fate hentry).symm
      obtain ⟨a, ha, rfl⟩ := h.sent hholds
      exact ⟨a, ha, by rw [Forwarded.key, hnumber]⟩

/-- An event that ends no exchange and writes no request. -/
theorem entered_of_quiet (hending : l.proxy.ending cfg ev = none) (hsent : l.proxy.sent ev = none) :
    (⟨p', ev.heard l.input, enter l.fates (l.proxy.ending cfg ev), l.wrote ++ (l.proxy.sent ev).toList⟩ : Ledger) =
      ⟨p', ev.heard l.input, l.fates, l.wrote⟩ := by
  rw [hending, hsent, Option.toList_none, List.append_nil, enter]

/-- One event keeps it. -/
theorem Carried.step (h : l.Carried) (hbooked : l.Booked) (hstep : step cfg l ev = some l') : l'.Carried := by
  obtain ⟨p', hp, rfl⟩ := Option.map_eq_some_iff.mp hstep
  cases ProxyState.steps_of_step hp with
  | read _ =>
    rw [entered_of_quiet rfl rfl]
    refine h.client ?_ ?_ ?_ ?_ _ <;> rfl
  | written _ =>
    rw [entered_of_quiet rfl rfl]
    refine h.client ?_ ?_ ?_ ?_ _ <;> rfl
  | locked hfree _ =>
    rw [entered_of_quiet rfl rfl]
    exact h.locked hfree
  | connected hholds =>
    rw [entered_of_quiet rfl rfl]
    exact h.connected hholds
  | @wrote req start hholds =>
    obtain ⟨c, hpool⟩ := h.linked hholds nofun
    have hcounted := (hbooked.follows.numbered.current _ _ hholds).counted
    have hsent : l.proxy.sent (.wrote (.ok ()) start) = some (req, c) := by
      simp only [ProxyState.sent, hholds, hpool, Option.map_some, Option.bind_some]
    rw [hsent]
    exact h.wrote (hbooked.follows.asked hholds) hholds hcounted hpool start (.new false)
  | @received req start rx rx' turn hholds hgoes =>
    have hending : l.proxy.ending cfg (.received turn) = none := by
      simp only [ProxyState.ending, hholds, hgoes]
    rw [entered_of_quiet hending rfl]
    exact h.received hholds start rx'
  | @finished req up ev r p' hholds hends hfinish =>
    obtain ⟨hfree, hrequests, hpool, -⟩ := ProxyState.of_finish hfinish
    have hmade : p'.made = l.proxy.made := by
      obtain ⟨task, -, rfl⟩ := Option.map_eq_some_iff.mp hfinish
      rfl
    have hdropped : p'.pool = none ∨ p'.pool = l.proxy.pool ∧ ∀ e, Fate.ofResult r ≠ .failed e := by
      cases r with
      | error e => exact .inl hpool
      | ok resp => exact .inr ⟨hpool, nofun⟩
    have hnumber := hbooked.number hholds
    rw [ending_of_ends hholds hends]
    cases hends with
    | unconnected e =>
      rw [show l.proxy.sent (.connected (.error e)) = none from rfl, Option.toList_none, List.append_nil]
      exact h.enter hholds hnumber hfree hrequests hmade hdropped nofun
    | unwritten e start =>
      -- the request may have been received: it counts as written
      obtain ⟨c, hc⟩ := h.linked hholds nofun
      have hcounted := (hbooked.follows.numbered.current _ _ hholds).counted
      have hsent : l.proxy.sent (.wrote (.error e) start) = some (req, c) := by
        simp only [ProxyState.sent, hholds, hc, Option.map_some, Option.bind_some]
      have hwrote := h.wrote (hbooked.follows.asked hholds) hholds hcounted hc start (.new false)
      rw [hsent]
      exact hwrote.enter rfl hnumber hfree hrequests hmade (.inl hpool) nofun
    | @returned start rx rx' turn r hret =>
      rw [show l.proxy.sent (.received turn) = none from rfl, Option.toList_none, List.append_nil]
      exact h.enter hholds hnumber hfree hrequests hmade hdropped fun _ _ => ⟨_, _, rfl⟩
  | @panicked req start rx turn e hholds hdies =>
    have hending : l.proxy.ending cfg (.received turn) = some (req, .crashed) := by
      simp only [ProxyState.ending, hholds, hdies]
    rw [hending, show l.proxy.sent (.received turn) = none from rfl, Option.toList_none, List.append_nil]
    refine h.enter hholds (hbooked.number hholds) ?_ ?_ ?_ ?_ ?_
    · rfl
    · rfl
    · rfl
    · exact .inr ⟨rfl, nofun⟩
    · nofun

/-- **A request is written once.** Whatever the peers do: no request is written upstream twice, and what is written
for one is the frame of its client that has its number. Connections are used one after the other, and no request
comes after one whose exchange has failed with an error. A client is handed answers to requests that have been
written. -/
theorem forwards_once {evs : List ProxyEvent} (h : run (step cfg) start evs = some l) :
    (l.wrote.map fun a => a.1.key).Nodup ∧ (∀ a ∈ l.wrote, Asked l.input a.1) ∧
      (l.wrote.Pairwise fun a b => a.2 ≤ b.2 ∧ (a.2 = b.2 → Settled l.fates a.1)) ∧
      ∀ s, ∀ a ∈ l.proxy.written s, ∃ b ∈ l.wrote, b.1.key = (s, a.1) := by
  obtain ⟨hbooked, hcarried⟩ : l.Booked ∧ l.Carried :=
    run_induction (P := fun l => l.Booked ∧ l.Carried)
      (fun hl hstep => ⟨hl.1.step hstep, hl.2.step hl.1 hstep⟩) ⟨booked_start, carried_start⟩ h
  refine ⟨hcarried.once, hcarried.asked, hcarried.ordered, fun s a ha => ?_⟩
  rw [hbooked.written, responses, List.mem_filterMap] at ha
  obtain ⟨⟨⟨wire, fate⟩, n⟩, hfate, hresp⟩ := ha
  obtain ⟨resp, hanswer, rfl⟩ := Option.map_eq_some_iff.mp hresp
  rw [List.mem_zipIdx_iff_getElem?] at hfate
  cases fate with
  | answered resp => exact hcarried.answered hfate
  | failed e => cases hanswer
  | crashed => cases hanswer

/-- Two sessions on one connection; the request of the first is not written to the end, and the next connection is
used for both of the others. -/
theorem forwards_once_two :
    let request : StdFrame := ⟨.read, 0xF168B748, [], by decide, by decide, by decide⟩
    let response : StdFrame := ⟨.response, 0xF168B748, [0, 0, 0, 5], by decide, by decide, by decide⟩
    ∃ l, run (step ⟨5, 1⟩) start
        [.read 0 (.ok (request.bytes ++ request.bytes)), .locked 0, .connected (.ok ()), .wrote (.error none) 5,
          .read 1 (.ok request.bytes), .locked 1, .connected (.ok ()), .wrote (.ok ()) 6,
          .received ⟨7, .ok response.bytes⟩, .locked 0, .wrote (.ok ()) 8] = some l ∧
      l.wrote = [(⟨0, 0, request.bytes⟩, 0), (⟨1, 0, request.bytes⟩, 1), (⟨0, 1, request.bytes⟩, 1)] ∧
      ((l.wrote.map fun a => a.1.key).Nodup ∧ (∀ a ∈ l.wrote, Asked l.input a.1) ∧
        (l.wrote.Pairwise fun a b => a.2 ≤ b.2 ∧ (a.2 = b.2 → Settled l.fates a.1)) ∧
        ∀ s, ∀ a ∈ l.proxy.written s, ∃ b ∈ l.wrote, b.1.key = (s, a.1)) := by
  intro request response
  have hrun : (run (step ⟨5, 1⟩) start
      [.read 0 (.ok (request.bytes ++ request.bytes)), .locked 0, .connected (.ok ()), .wrote (.error none) 5,
        .read 1 (.ok request.bytes), .locked 1, .connected (.ok ()), .wrote (.ok ()) 6,
        .received ⟨7, .ok response.bytes⟩, .locked 0, .wrote (.ok ()) 8]).map (fun l => l.wrote) =
      some [(⟨0, 0, request.bytes⟩, 0), (⟨1, 0, request.bytes⟩, 1), (⟨0, 1, request.bytes⟩, 1)] := by
    decide +kernel
  obtain ⟨l, hl, hwrote⟩ := Option.map_eq_some_iff.mp hrun
  exact ⟨l, hl, hwrote, forwards_once hl⟩

end Ledger

end RctPower
