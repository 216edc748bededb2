import RctPower.Transport.ClientState
import RctPower.Transport.Response

/-!
# The synchronous client and its device

The calls of a client (`ClientState`) together with every connection that the client has ever
made and the device at the far end. The device answers the oldest request it has on a
connection with a response that carries the request's id, or it never does; both can happen at
any time. What a turn of a receive loop reads is what the device has sent on the connection,
in pieces of any size. A request whose write fails may have been received even so.

The source of a value that is returned is the answer that the last byte of its frame belongs to.

## What is proved

Every error but one leaves the connection in the pool, with whatever the device still has to
send on it, and the next call takes that for its own answer (`read_lateResponse`).

`pairs`: as long as no try waits for its response on a connection on which something of an
earlier call is left (`Clear`), the source of every value that is returned is the answer to a
request of the call that returns it.
-/

namespace RctPower

open RctPower.Lib RctPower.Lib.Rust RctPower.Lib.EarlyExit RctPower.Lib.Machine

/-- A request that has been transmitted. -/
structure Transmitted where
  /-- The number of the call. -/
  number : ℕ
  /-- The object id. -/
  id : UInt32
  /-- The bytes. -/
  frame : List UInt8

/-- A client and its device. -/
structure ClientSystem where
  /-- The client. -/
  client : ClientState
  /-- The connections, with the device's state. -/
  links : ℕ → Connection Transmitted Response
  /-- For each call, the answer that the last byte of its last complete frame belongs to. -/
  sources : ℕ → Option (Transmitted × Response)

namespace ClientSystem

/-- What can happen. -/
inductive Event where
  /-- Something happens to the client. -/
  | client (ev : ClientEvent)
  /-- The device answers the oldest request on a connection. -/
  | answered (n : ℕ) (resp : Response)
  /-- The device will not answer the oldest request on a connection. -/
  | lost (n : ℕ)

/-- Before the first call. -/
def start : ClientSystem := ⟨.start, fun _ => .empty, fun _ => none⟩

/-- What a try that opens does to the connections. -/
def transmit (c : ClientState) (links : ℕ → Connection Transmitted Response) (env : SyncOpening) :
    ℕ → Connection Transmitted Response :=
  match c.running, Client.connect c.pool.isSome env with
  | some (cur, _), .ok () =>
    let l := if c.pool.isSome then links (c.pool.getD c.made) else .empty
    Function.update links (c.pool.getD c.made) <|
      if Client.prepare env = .ok () then l.send ⟨cur.number, cur.call.obj.objectId, cur.frame⟩ else l
  | _, _ => links

/-- What an event of the client does to the connections, if they allow it. -/
def transfer (cfg : ClientConfig) (c : ClientState) (links : ℕ → Connection Transmitted Response) :
    ClientEvent → Option (ℕ → Connection Transmitted Response)
  | .called _ => some links
  | .opened env => some (transmit c links env)
  | .received turn =>
    match c.running, c.pool with
    | some (_, .receiving start _), some n =>
      ((links n).deliver Response.bytes ((Client.policy cfg start).taken turn)).map (Function.update links n)
    | _, _ => none

/-- The number of the call and the source of the frame, if an event completes one. -/
def completes (cfg : ClientConfig) (w : ClientSystem) : ClientEvent → Option (ℕ × Option (Transmitted × Response))
  | .received turn =>
    match w.client.running, w.client.pool with
    | some (cur, .receiving start rx), some n =>
      match readOnce (Client.policy cfg start) rx turn with
      | .ret rx' (.ok ()) =>
        -- the position of the last byte, counted from where this turn begins to read
        let last := (w.links n).pos + (rx'.consumedBytes - 1 - rx.consumedBytes)
        some (cur.number, Connection.owner Response.bytes (w.links n).sent last)
      | _ => none
    | _, _ => none
  | _ => none

/-- The sources after an event. -/
def sourcesAfter (cfg : ClientConfig) (w : ClientSystem) (ev : ClientEvent) : ℕ → Option (Transmitted × Response) :=
  match w.completes cfg ev with
  | some (number, source) => Function.update w.sources number source
  | none => w.sources

/-- One event, if it can happen. -/
def step (prof : Profile) (cfg : ClientConfig) (w : ClientSystem) : Event → Option ClientSystem
  | .client ev =>
    (w.client.step prof cfg ev).bind fun client =>
      (transfer cfg w.client w.links ev).map fun links => ⟨client, links, w.sourcesAfter cfg ev⟩
  | .answered n resp =>
    match (w.links n).answer resp with
    | none => none
    | some (t, l) => if resp.frame.id = t.id then some { w with links := Function.update w.links n l } else none
  | .lost n => (w.links n).lose.map fun l => { w with links := Function.update w.links n l }

end ClientSystem

/-- A value that is returned has been decoded from its source, the answer to a request of the
call. -/
def Returned.Paired (ret : Returned) (source : Option (Transmitted × Response)) : Prop :=
  ∀ v, ret.result = .ok v → ∃ a, source = some a ∧ a.1.number = ret.number ∧
    decodeValue ret.call.obj.responseDataType a.2.frame.payload = .ok (.ok v)

namespace ClientSystem

/-- All values that have been returned are paired. -/
def Paired (w : ClientSystem) : Prop := ∀ ret ∈ w.client.returned, ret.Paired (w.sources ret.number)

/-- Nothing of another call than `number` is left on a connection: its requests have been answered, or have been
given up by the device, and the answers have been read. No answer is read in part. -/
def ClearFor (number : ℕ) (l : Connection Transmitted Response) : Prop :=
  (∀ t ∈ l.queue, t.number = number) ∧
    ∃ as ∈ Connection.unread Response.bytes l.sent l.pos, ∀ a ∈ as, a.1.number = number

/-- If the try that opens comes to wait for its response, then on a connection on which nothing of
an earlier call is left before the step. -/
def Clear (w : ClientSystem) : Event → Prop
  | .client (.opened env) =>
    Client.prepare env = .ok () → env.written = .ok () →
      ∀ cur ∈ w.client.running, ∀ n ∈ w.client.pool, ClearFor cur.1.number (w.links n)
  | _ => True

instance (w : ClientSystem) (ev : Event) : Decidable (w.Clear ev) := by
  unfold Clear ClearFor
  split <;> infer_instance

/-! ### What is left on a connection -/

/-- What a call that waits for its response has before it: whatever is left on its connection
are its own requests and answers to these, and of the answers the parser has taken a first
part. -/
def Receiving (number : ℕ) (rx : ReceiveFrame) (l : Connection Transmitted Response) : Prop :=
  (∀ t ∈ l.queue, t.number = number) ∧
    ∃ as taken, l.Pending Response.bytes as taken ∧ (∀ a ∈ as, a.1.number = number) ∧
      passed ReceiveFrame.step (.new false) taken = some rx

section Connection

variable {number : ℕ} {l l' : Connection Transmitted Response} {rx : ReceiveFrame}

theorem clearFor_empty (number : ℕ) : ClearFor number .empty :=
  ⟨fun _ h => absurd h List.not_mem_nil, [], rfl, fun _ h => absurd h List.not_mem_nil⟩

/-- **On a clear connection** a call can wait for its response. -/
theorem ClearFor.receiving (h : ClearFor number l) (id : UInt32) (frame : List UInt8) :
    Receiving number (.new false) (l.send ⟨number, id, frame⟩) := by
  obtain ⟨hqueue, as, has, hnumber⟩ := h
  refine ⟨?_, as, [], (Connection.pending_of_unread has).send _, hnumber, rfl⟩
  intro t ht
  rcases List.mem_append.mp ht with ht | ht
  · exact hqueue t ht
  · rw [List.mem_singleton.mp ht]

/-- The device can answer only the call's own requests. -/
theorem Receiving.answer (h : Receiving number rx l) {t : Transmitted} {resp : Response}
    (hl : l.answer resp = some (t, l')) : Receiving number rx l' := by
  obtain ⟨hqueue, as, taken, hpending, hnumber, hpass⟩ := h
  rw [(Connection.of_answer hl).1, List.forall_mem_cons] at hqueue
  refine ⟨hqueue.2, _, taken, hpending.answer hl, ?_, hpass⟩
  intro a ha
  rcases List.mem_append.mp ha with ha | ha
  · exact hnumber a ha
  · rw [List.mem_singleton.mp ha]
    exact hqueue.1

theorem Receiving.lose (h : Receiving number rx l) (hl : l.lose = some l') : Receiving number rx l' := by
  obtain ⟨hqueue, as, taken, hpending, hnumber, hpass⟩ := h
  obtain ⟨t, ht, -, -⟩ := Connection.of_lose hl
  rw [ht, List.forall_mem_cons] at hqueue
  exact ⟨hqueue.2, as, taken, hpending.lose hl, hnumber, hpass⟩

variable {policy : ReadPolicy IoError} {ev : ReadEvent IoError} {rx' : ReceiveFrame}

theorem Receiving.next (h : Receiving number rx l) (hl : l.deliver Response.bytes (policy.taken ev) = some l')
    (hread : readOnce policy rx ev = .next rx') : Receiving number rx' l' := by
  obtain ⟨hqueue, as, taken, hpending, hnumber, hpass⟩ := h
  refine ⟨?_, as, _, hpending.deliver hl, hnumber, ?_⟩
  · rw [(Connection.of_deliver hl).2.1]
    exact hqueue
  · rw [readOnce_taken (.inl hread)]
    exact readOnce_next hpass hread

/-- **A complete frame** is the answer to a request of the call. -/
theorem Receiving.complete (h : Receiving number rx l) (hl : l.deliver Response.bytes (policy.taken ev) = some l')
    (hread : readOnce policy rx ev = .ret rx' (.ok ())) :
    ∃ a : Transmitted × Response, a.1.number = number ∧ rx'.data = a.2.frame.payload ∧
      Connection.owner Response.bytes l.sent (l.pos + (rx'.consumedBytes - 1 - rx.consumedBytes)) = some a := by
  obtain ⟨hqueue, as, taken, hpending, hnumber, hpass⟩ := h
  have hpre := (hpending.deliver hl).isPrefix
  rw [readOnce_taken (.inr hread)] at hpre
  have hcomplete := readOnce_ok hpass hread
  cases as with
  | nil => exact absurd hcomplete (Response.not_firstComplete_nil hpre)
  | cons a as =>
    obtain ⟨-, hdata, -, hcount⟩ := Response.eq_of_firstComplete hpre hcomplete
    have hlt := Response.length_lt_of_pass hpending.isPrefix hpass
    refine ⟨a, hnumber a List.mem_cons_self, hdata, ?_⟩
    have hconsumed : rx.consumedBytes = taken.length := by
      rw [ReceiveFrame.consumedBytes_of_pass hpass]
      exact Nat.zero_add _
    rw [hcount, hconsumed]
    exact hpending.owner (Nat.le_sub_one_of_lt hlt) (by omega)

end Connection

/-! ### The invariant -/

/-- The invariant. -/
structure Inv (w : ClientSystem) : Prop where
  /-- The calls. -/
  numbered : w.client.Numbered
  /-- What has been returned. -/
  paired : w.Paired
  /-- The pooled connection. -/
  linked : ∀ cur start rx n, w.client.running = some (cur, .receiving start rx) → w.client.pool = some n →
    Receiving cur.number rx (w.links n)

theorem inv_start : start.Inv := by
  refine ⟨ClientState.numbered_start, fun _ h => absurd h List.not_mem_nil, ?_⟩
  intro cur start rx n hrunning
  exact absurd hrunning (by simp [ClientSystem.start, ClientState.start])

variable {prof : Profile} {cfg : ClientConfig} {w w' : ClientSystem} {c' : ClientState} {ev : ClientEvent}
  {links' : ℕ → Connection Transmitted Response}

/-- What completes a frame is the call that is running. -/
theorem running_of_completes {number : ℕ} {source : Option (Transmitted × Response)}
    (h : w.completes cfg ev = some (number, source)) :
    ∃ cur waiting, w.client.running = some (cur, waiting) ∧ number = cur.number := by
  unfold completes at h
  split at h
  · split at h
    · next hrunning _ =>
      split at h
      · cases h
        exact ⟨_, _, hrunning, rfl⟩
      · cases h
    · cases h
  · cases h

/-- The sources of the calls that have returned do not change. -/
theorem Inv.sourcesAfter (h : w.Inv) {ret : Returned} (hret : ret ∈ w.client.returned) :
    w.sourcesAfter cfg ev ret.number = w.sources ret.number := by
  cases hcompletes : w.completes cfg ev with
  | none => simp only [ClientSystem.sourcesAfter, hcompletes]
  | some done =>
    obtain ⟨number, source⟩ := done
    obtain ⟨cur, waiting, hrunning, rfl⟩ := running_of_completes hcompletes
    simp only [ClientSystem.sourcesAfter, hcompletes]
    exact Function.update_of_ne ((h.numbered.current cur waiting hrunning).last ret hret).ne _ _

/-- **A turn that completes a frame** has the answer to a request of the call as its source. -/
theorem Inv.source (h : w.Inv) {turn : ReadEvent IoError} {cur : Running} {start : ℕ} {rx rx' : ReceiveFrame}
    (hrunning : w.client.running = some (cur, .receiving start rx))
    (hread : readOnce (Client.policy cfg start) rx turn = .ret rx' (.ok ()))
    (hlinks : transfer cfg w.client w.links (.received turn) = some links') :
    ∃ a : Transmitted × Response, w.sourcesAfter cfg (.received turn) cur.number = some a ∧
      a.1.number = cur.number ∧ rx'.data = a.2.frame.payload := by
  cases hpool : w.client.pool with
  | none => simp [transfer, hrunning, hpool] at hlinks
  | some n =>
    simp only [transfer, hrunning, hpool] at hlinks
    obtain ⟨l, hl, rfl⟩ := Option.map_eq_some_iff.mp hlinks
    obtain ⟨a, hnumber, hdata, howner⟩ := (h.linked cur start rx n hrunning hpool).complete hl hread
    refine ⟨a, ?_, hnumber, hdata⟩
    have hcompletes : w.completes cfg (.received turn) =
        some (cur.number, Connection.owner Response.bytes (w.links n).sent
          ((w.links n).pos + (rx'.consumedBytes - 1 - rx.consumedBytes))) := by
      simp only [completes, hrunning, hpool, hread]
    simp only [ClientSystem.sourcesAfter, hcompletes, Function.update_self]
    exact howner

/-- What an event of the client returns is paired. -/
theorem Inv.paired_step (h : w.Inv) (hstep : w.client.step prof cfg ev = some c')
    (hlinks : transfer cfg w.client w.links ev = some links') :
    ∀ ret ∈ c'.returned, ret.Paired (w.sourcesAfter cfg ev ret.number) := by
  have hold : ∀ ret ∈ w.client.returned, ret.Paired (w.sourcesAfter cfg ev ret.number) := by
    intro ret hret
    rw [h.sourcesAfter hret]
    exact h.paired ret hret
  intro ret hret
  rcases ClientState.returned_of_step hstep with heq | ⟨number, call, e, heq⟩ |
    ⟨turn, cur, start, rx, rx', keep, v, rfl, hrunning, hread, hfinish, heq⟩
  · rw [heq] at hret
    exact hold ret hret
  · rw [heq] at hret
    rcases List.mem_append.mp hret with hret | hret
    · exact hold ret hret
    · rw [List.mem_singleton.mp hret]
      rintro v ⟨⟩
  · rw [heq] at hret
    rcases List.mem_append.mp hret with hret | hret
    · exact hold ret hret
    · rw [List.mem_singleton.mp hret]
      obtain ⟨a, hsource, hnumber, hdata⟩ := h.source hrunning hread hlinks
      obtain ⟨-, hdecode⟩ := Client.finish_ok hfinish
      rw [hdata] at hdecode
      rintro v' hv
      cases hv
      exact ⟨a, hsource, hnumber, hdecode⟩

/-- **A call that waits for its response** does so on a connection with nothing of another call. -/
theorem Inv.linked_step (h : w.Inv) (hclear : w.Clear (.client ev)) (hstep : w.client.step prof cfg ev = some c')
    (hlinks : transfer cfg w.client w.links ev = some links') {cur : Running} {start : ℕ} {rx : ReceiveFrame} {n : ℕ}
    (hrunning : c'.running = some (cur, .receiving start rx)) (hpool : c'.pool = some n) :
    Receiving cur.number rx (links' n) := by
  rcases ClientState.waiting_of_step hstep hrunning with
    ⟨env, rfl, hopening, hconnect, hprepare, hwritten, rfl, hconnected⟩ | ⟨turn, rx₀, rfl, hreceiving, hread, hsame⟩
  · cases hlinks
    simp only [transmit, hopening, hconnect, hprepare, if_true]
    rw [hpool] at hconnected
    rw [ClientState.connected] at hconnected
    cases hpooled : w.client.pool with
    | some m =>
      simp only [hpooled, Option.some.injEq] at hconnected
      subst hconnected
      simpa using (hclear hprepare hwritten _ hopening n hpooled).receiving cur.call.obj.objectId cur.frame
    | none =>
      simp only [hpooled, Option.some.injEq] at hconnected
      subst hconnected
      simpa using (clearFor_empty cur.number).receiving cur.call.obj.objectId cur.frame
  · rw [hsame] at hpool
    simp only [transfer, hreceiving, hpool] at hlinks
    obtain ⟨l, hl, rfl⟩ := Option.map_eq_some_iff.mp hlinks
    rw [Function.update_self]
    exact (h.linked cur start rx₀ n hreceiving hpool).next hl hread

/-- What happens at the far end of one connection. -/
theorem Inv.update (h : w.Inv) {n : ℕ} {l : Connection Transmitted Response}
    (hl : ∀ number rx, Receiving number rx (w.links n) → Receiving number rx l) :
    Inv { w with links := Function.update w.links n l } := by
  refine ⟨h.numbered, h.paired, ?_⟩
  intro cur start rx m hrunning hpool
  have hreceiving := h.linked cur start rx m hrunning hpool
  by_cases hmn : m = n
  · subst hmn
    simpa using hl _ _ hreceiving
  · simpa [hmn] using hreceiving

/-- One event keeps the invariant, if what is left on the connection of a try is its call's. -/
theorem Inv.step (h : w.Inv) {ev : Event} (hclear : w.Clear ev) (hstep : w.step prof cfg ev = some w') : w'.Inv := by
  cases ev with
  | client ev =>
    obtain ⟨c', hc, hlinks⟩ := Option.bind_eq_some_iff.mp hstep
    obtain ⟨links', htransfer, rfl⟩ := Option.map_eq_some_iff.mp hlinks
    exact ⟨h.numbered.step hc, h.paired_step hc htransfer, fun _ _ _ _ => h.linked_step hclear hc htransfer⟩
  | answered n resp =>
    simp only [ClientSystem.step] at hstep
    split at hstep
    · cases hstep
    · next t l hanswer =>
      split_ifs at hstep
      cases hstep
      apply h.update
      intro number rx hreceiving
      exact hreceiving.answer hanswer
  | lost n =>
    obtain ⟨l, hlose, rfl⟩ := Option.map_eq_some_iff.mp hstep
    apply h.update
    intro number rx hreceiving
    exact hreceiving.lose hlose

/-- **Responses are paired with requests** in every run in which no try waits for its response
behind something that is left of an earlier call. -/
theorem pairs {evs : List Event} (hclear : Meets (step prof cfg) Clear start evs)
    (h : run (step prof cfg) start evs = some w) : w.Paired :=
  have hinv : w.Inv := run_induction_of (fun hw hclear hstep => hw.step hclear hstep) inv_start hclear h
  hinv.paired

/-- Every operation of a try succeeds, at time `start`. -/
def opening (start : ℕ) : SyncOpening := ⟨.ok true, .ok (), .ok (), .ok (), .ok (), start⟩

/-- What can be seen of the calls: the number, the result, and the number of the call whose
request was answered by the source. -/
def outcomes (w : ClientSystem) : List (ℕ × Except RctError DataValue × Option ℕ) :=
  w.client.returned.map fun ret => (ret.number, ret.result, (w.sources ret.number).map fun a => a.1.number)

/-- Two calls: the first try of the first times out, the second receives the late answer to the
first; the device loses the second request, and answers that of the second call in two pieces. -/
theorem pairs_strategy :
    let obj : ObjectInfo := ⟨.powerMng, 0xF168B748, 835, "power_mng.soc_strategy", .enum, .enum, "", "", ""⟩
    let late : Response := .ofFrame ⟨.response, 0xF168B748, [0, 0, 0, 4], by decide, by decide, by decide⟩ rfl
    let next : Response := .ofFrame ⟨.response, 0xF168B748, [0, 0, 0, 5], by decide, by decide, by decide⟩ rfl
    ∃ w, run (step .debug ⟨5, 2⟩) start
        [.client (.called (.read obj)), .client (.opened (opening 0)), .client (.received ⟨5, .error .wouldBlock⟩),
          .client (.received ⟨6, .error .wouldBlock⟩), .answered 0 late, .client (.opened (opening 7)), .lost 0,
          .client (.received ⟨8, .ok late.bytes⟩), .client (.called (.read obj)), .client (.opened (opening 9)),
          .answered 0 next, .client (.received ⟨10, .ok (next.bytes.take 3)⟩),
          .client (.received ⟨11, .ok (next.bytes.drop 3)⟩)] = some w ∧
      w.outcomes = [(0, .ok (.u32 4), some 0), (1, .ok (.u32 5), some 1)] ∧ w.Paired := by
  intro obj late next
  have hrun : (run (step .debug ⟨5, 2⟩) start
      [.client (.called (.read obj)), .client (.opened (opening 0)), .client (.received ⟨5, .error .wouldBlock⟩),
        .client (.received ⟨6, .error .wouldBlock⟩), .answered 0 late, .client (.opened (opening 7)), .lost 0,
        .client (.received ⟨8, .ok late.bytes⟩), .client (.called (.read obj)), .client (.opened (opening 9)),
        .answered 0 next, .client (.received ⟨10, .ok (next.bytes.take 3)⟩),
        .client (.received ⟨11, .ok (next.bytes.drop 3)⟩)]).map outcomes =
      some [(0, .ok (.u32 4), some 0), (1, .ok (.u32 5), some 1)] := by
    decide +kernel
  obtain ⟨w, hw, houtcomes⟩ := Option.map_eq_some_iff.mp hrun
  exact ⟨w, hw, houtcomes, pairs (by decide +kernel) hw⟩

/-- A call that times out, and after it a call about another object: it returns what the device
answers to the first. -/
theorem read_lateResponse :
    ∃ evs w, run (step .debug ⟨5, 1⟩) start evs = some w ∧
      w.outcomes = [(0, .error .timeout, none), (1, .ok (.bool false), some 0)] ∧ ¬ w.Paired := by
  have hrun : (run (step .debug ⟨5, 1⟩) start
      [.client (.called (.read ⟨.powerMng, 0xF168B748, 835, "power_mng.soc_strategy", .enum, .enum, "", "", ""⟩)),
        .client (.opened (opening 0)), .client (.received ⟨5, .error .wouldBlock⟩),
        .client (.received ⟨6, .error .wouldBlock⟩),
        .answered 0 (.ofFrame ⟨.response, 0xF168B748, [0, 0, 0, 4], by decide, by decide, by decide⟩ rfl),
        .client (.called (.read
          ⟨.powerMng, 0x36A9E9A6, 184, "power_mng.use_grid_power_enable", .bool, .bool, "", "", ""⟩)),
        .client (.opened (opening 7)),
        .client (.received ⟨8, .ok (Response.ofFrame
          ⟨.response, 0xF168B748, [0, 0, 0, 4], by decide, by decide, by decide⟩ rfl).bytes⟩)]).map outcomes =
      some [(0, .error .timeout, none), (1, .ok (.bool false), some 0)] := by
    decide +kernel
  obtain ⟨w, hw, houtcomes⟩ := Option.map_eq_some_iff.mp hrun
  refine ⟨_, w, hw, houtcomes, ?_⟩
  intro hpaired
  have hmem : ((1, .ok (.bool false), some 0) : ℕ × Except RctError DataValue × Option ℕ) ∈ w.outcomes := by
    rw [houtcomes]
    exact List.mem_cons_of_mem _ List.mem_cons_self
  obtain ⟨ret, hret, heq⟩ := List.mem_map.mp hmem
  simp only [Prod.mk.injEq] at heq
  obtain ⟨hnumber, hresult, hsource⟩ := heq
  obtain ⟨a, ha, hown, -⟩ := hpaired ret hret _ hresult
  rw [ha, Option.map_some, Option.some.injEq] at hsource
  cases hsource.symm.trans (hown.trans hnumber)

end ClientSystem

end RctPower
