import Mathlib.Data.List.TakeWhile
import RctPower.Transport.Proxy

/-!
# Deadlines

The configured timeout as a bound on a whole exchange (`KeepsDeadline`): no read is started later than that after
the request was written, and an exchange that is not complete by then ends with an error.

On the clock a read has a start and a return, and a timer between them (`Timeline`). The timers differ. The proxy
gives a read what is left until the deadline. The synchronous client looks at the deadline before each read, and
the read then has the whole timeout; so a frame that is complete too late is taken all the same. The asynchronous
client has only the timers of the reads.

## What is proved

`deadlines_kept_iff`: the proxy keeps the deadline. The synchronous client does unless a value arrives in a read that
returns too late (`AnsweredBy`). The asynchronous client also starts reads too late, unless the peer has decided the
exchange by then (`DecidedBy`).
-/

namespace RctPower

open RctPower.Lib.Rust RctPower.Lib.EarlyExit

variable {ε α : Type}

/-! ### Reads on the clock -/

/-- A turn of a receive loop whose read is started at the clock of its top. -/
structure TimedRead (ε : Type) extends ReadEvent ε where
  /-- The clock when the read has returned. -/
  returned : ℕ

/-- From `clock` on, the reads come one after the other, and a read that is started at `now` has `timer now` ticks. -/
def Ordered (timer : ℕ → ℕ) : (clock : ℕ) → List (TimedRead ε) → Prop
  | _, [] => True
  | clock, ev :: evs =>
    clock ≤ ev.now ∧ ev.now ≤ ev.returned ∧ ev.returned ≤ ev.now + timer ev.now ∧ Ordered timer ev.returned evs

instance decidableOrdered (timer : ℕ → ℕ) : (clock : ℕ) → (reads : List (TimedRead ε)) →
    Decidable (Ordered timer clock reads)
  | _, [] => isTrue trivial
  | clock, ev :: evs =>
    have := decidableOrdered timer ev.returned evs
    inferInstanceAs (Decidable (clock ≤ ev.now ∧ ev.now ≤ ev.returned ∧ ev.returned ≤ ev.now + timer ev.now ∧
      Ordered timer ev.returned evs))

theorem Ordered.returned_le {timer : ℕ → ℕ} {clock : ℕ} {reads : List (TimedRead ε)} (h : Ordered timer clock reads) :
    ∀ ev ∈ reads, ev.returned ≤ ev.now + timer ev.now := by
  induction reads generalizing clock with
  | nil => simp
  | cons ev evs ih =>
    obtain ⟨-, -, htimer, hrest⟩ := h
    exact List.forall_mem_cons.mpr ⟨htimer, ih hrest⟩

/-- The reads of an exchange whose request has been written at `start`. -/
structure Timeline (timer : ℕ → ℕ) (start : ℕ) (ε : Type) where
  /-- The reads. -/
  reads : List (TimedRead ε)
  /-- They keep to the clock and to their timers. -/
  ordered : Ordered timer start reads

/-- What the receive loop has of the reads. -/
def events (reads : List (TimedRead ε)) : List (ReadEvent ε) := reads.map TimedRead.toReadEvent

/-- The receive loop comes to the turn `ev`. -/
def ComesTo (policy : ReadPolicy ε) (reads : List (TimedRead ε)) (ev : TimedRead ε) : Prop :=
  ∃ before after rx, reads = before ++ ev :: after ∧ passed (readOnce policy) (.new false) (events before) = some rx

/-- The limit is a deadline of the exchange. -/
structure KeepsDeadline (policy : ReadPolicy ε) (limit : ℕ) (reads : List (TimedRead ε))
    (result : Checked (Option (Except RctError α))) : Prop where
  /-- Past it no read is started, and an exchange that has come to there ends with an error. -/
  stops : ∀ ev, ComesTo policy reads ev → limit < ev.now →
    policy.expired ev.now = true ∧ ∃ e, result = .ok (some (.error e))
  /-- What returns a value has been complete by then: its reads have returned. -/
  complete : ∀ a, result = .ok (some (.ok a)) → ∀ ev, ComesTo policy reads ev → ev.returned ≤ limit

/-! ### When a value has arrived -/

section Loop

variable {policy : ReadPolicy ε} {limit : ℕ} {reads : List (TimedRead ε)} {ev : TimedRead ε}

/-- The turns before the first bad one are in front of any bad one. -/
theorem takeWhile_prefix_of_not {β : Type} {good : β → Bool} {before after : List β} {b : β} (hb : good b = false) :
    (before ++ b :: after).takeWhile good <+: before := by
  have hnil : (b :: after).takeWhile good = [] := List.takeWhile_cons_of_neg (by simp [hb])
  rw [List.takeWhile_append, hnil, List.append_nil]
  split_ifs
  · exact List.prefix_rfl
  · exact List.takeWhile_prefix _

/-- A loop over turns in front of one that it comes to is still going. -/
theorem receive_none_of_passed {before early : List (TimedRead ε)} {rx : ReceiveFrame}
    (hbefore : passed (readOnce policy) (.new false) (events before) = some rx) (hpre : early <+: before) :
    receive policy (events early) = .ok none := by
  obtain ⟨more, rfl⟩ := hpre
  rw [events, List.map_append] at hbefore
  obtain ⟨rx', hearly, -⟩ := pass_left _ hbefore
  rw [receive, events, loop_pass _ hearly]
  rfl

/-- **A loop that comes to a turn at which its deadline has passed** times out. -/
theorem receive_of_comesTo (h : ComesTo policy reads ev) (hexpired : policy.expired ev.now = true) :
    receive policy (events reads) = .ok (some (.error .timeout)) := by
  obtain ⟨before, after, rx, rfl, hbefore⟩ := h
  have hstop : readOnce policy rx ev.toReadEvent = .ret rx (.error .timeout) := by rw [readOnce, if_pos hexpired]
  have hsplit : events (before ++ ev :: after) = events before ++ ev.toReadEvent :: events after := by
    rw [events, List.map_append, List.map_cons, events, events]
  rw [receive, hsplit, loop_stop _ hbefore hstop]
  rfl

/-- A loop all of whose reads return by the limit needs no others. -/
theorem receive_early {rx : ReceiveFrame} (h : receive policy (events reads) = .ok (some (.ok rx)))
    (hall : ∀ ev, ComesTo policy reads ev → ev.returned ≤ limit) :
    receive policy (events (reads.takeWhile (·.returned ≤ limit))) = .ok (some (.ok rx)) := by
  obtain ⟨before', ev', after', rx₀, rx', r', hsplit, hbefore, hstop, hr⟩ := receive_stop h
  obtain ⟨before, rest, rfl, rfl, hrest⟩ := List.map_eq_append_iff.mp hsplit
  obtain ⟨ev, after, rfl, rfl, rfl⟩ := List.map_eq_cons_iff.mp hrest
  have hreturned : ∀ e ∈ before ++ [ev], e.returned ≤ limit := by
    intro e he
    rcases List.mem_append.mp he with hmem | hmem
    · obtain ⟨b₁, b₂, rfl⟩ := List.mem_iff_append.mp hmem
      rw [List.map_append] at hbefore
      obtain ⟨rx₁, hb₁, -⟩ := pass_left _ hbefore
      exact hall e ⟨b₁, b₂ ++ ev :: after, rx₁, by simp, hb₁⟩
    · obtain rfl := List.mem_singleton.mp hmem
      exact hall e ⟨before, after, rx₀, rfl, hbefore⟩
  have hearly : (before ++ ev :: after).takeWhile (·.returned ≤ limit) =
      before ++ ev :: after.takeWhile (·.returned ≤ limit) := by
    rw [List.append_cons, List.takeWhile_append_of_pos (by simpa using hreturned), List.append_assoc,
      List.singleton_append]
  rw [hearly, receive, events, List.map_append, List.map_cons, loop_stop _ hbefore hstop, hr]
  rfl

/-- A loop that needs only reads which return by the limit comes to no other. -/
theorem returned_of_receive_early {rx : ReceiveFrame}
    (h : receive policy (events (reads.takeWhile (·.returned ≤ limit))) = .ok (some (.ok rx)))
    (hcomes : ComesTo policy reads ev) : ev.returned ≤ limit := by
  obtain ⟨before, after, rx', rfl, hbefore⟩ := hcomes
  by_contra hlate
  cases h.symm.trans (receive_none_of_passed hbefore (takeWhile_prefix_of_not (by simpa using hlate)))

/-- A value that arrives arrives in the reads that return by the limit. -/
def AnsweredBy (hears : ReadEvent ε → Bool) (limit : ℕ) (respType : DataType) (reads : List (TimedRead ε)) : Prop :=
  ∀ v, DecodedFromFirst (ReadEvent.bytesWhile hears (events reads)) respType v →
    DecodedFromFirst (ReadEvent.bytesWhile hears (events (reads.takeWhile (·.returned ≤ limit)))) respType v

/-- **An exchange that returns the value that arrives** is complete by the limit exactly if that has arrived. -/
theorem complete_iff {hears : ReadEvent ε → Bool} (hhears : policy.hears = hears) {respType : DataType}
    {result : Checked (Option (Except RctError DataValue))}
    (hresult : ∀ v, result = .ok (some (.ok v)) ↔
      DecodedFromFirst (ReadEvent.bytesWhile hears (events reads)) respType v) :
    (∀ v, result = .ok (some (.ok v)) → ∀ ev, ComesTo policy reads ev → ev.returned ≤ limit) ↔
      AnsweredBy hears limit respType reads := by
  subst hhears
  constructor
  · intro hcomplete v hv
    have hall := hcomplete v ((hresult v).mpr hv)
    obtain ⟨rx, hrx, hdecode⟩ := decodedFromFirst_iff.mp hv
    exact decodedFromFirst_iff.mpr ⟨rx, receive_ok_iff.mp (receive_early (receive_ok_iff.mpr hrx) hall), hdecode⟩
  · intro hanswered v hv ev hcomes
    obtain ⟨rx, hrx, -⟩ := decodedFromFirst_iff.mp (hanswered v ((hresult v).mp hv))
    exact returned_of_receive_early (receive_ok_iff.mpr hrx) hcomes

end Loop

/-! ### The clients and the proxy -/

namespace Client

/-- The timer of a read is the timeout of the socket. -/
def timer (cfg : ClientConfig) (_now : ℕ) : ℕ := cfg.timeout

/-- What the operating system does for one try, on the clock. -/
structure TimedTry (cfg : ClientConfig) extends SyncOpening where
  /-- The reads. -/
  timeline : Timeline (timer cfg) start IoError

/-- The same without the clock of the returns. -/
def TimedTry.env {cfg : ClientConfig} (t : TimedTry cfg) : SyncTry := ⟨t.toSyncOpening, events t.timeline.reads⟩

/-- The request of a try has been written. -/
def Sent (pooled : Bool) (env : SyncTry) : Prop :=
  connect pooled env.toSyncOpening = .ok () ∧ prepare env.toSyncOpening = .ok () ∧ env.written = .ok ()

/-- What a try returns. -/
def tried (cfg : ClientConfig) (frame : List UInt8) (respType : DataType) (pooled : Bool) (env : SyncTry) :
    Checked (Option (Except RctError DataValue)) :=
  (tryExchange cfg frame respType pooled env).map fun out => out.map Outcome.result

/-- What arrives by the deadline is returned. -/
theorem tried_ok_iff {cfg : ClientConfig} {frame : List UInt8} {respType : DataType} {pooled : Bool} {env : SyncTry}
    (hsent : Sent pooled env) (v : DataValue) :
    tried cfg frame respType pooled env = .ok (some (.ok v)) ↔
      DecodedFromFirst (ReadEvent.bytesWhile (hears (env.start + cfg.timeout)) env.reads) respType v := by
  obtain ⟨hconnect, hprepare, hwritten⟩ := hsent
  constructor
  · intro h
    obtain ⟨out, hout, hv⟩ := Checked.of_map_eq_some h
    exact (answers_iff.mpr ⟨out, hout, hv⟩).decoded
  · intro hdecoded
    obtain ⟨out, hout, hv⟩ := answers_iff.mp ⟨hconnect, hprepare, hwritten, hdecoded⟩
    rw [tried, hout, ← hv]
    rfl

/-- **The synchronous client keeps its deadline exactly if no value arrives in a read that returns past it.** -/
theorem keepsDeadline_iff {cfg : ClientConfig} (frame : List UInt8) (respType : DataType) {pooled : Bool}
    {t : TimedTry cfg} (hsent : Sent pooled t.env) :
    KeepsDeadline (policy cfg t.start) (t.start + cfg.timeout) t.timeline.reads
        (tried cfg frame respType pooled t.env) ↔
      AnsweredBy (hears (t.start + cfg.timeout)) (t.start + cfg.timeout) respType t.timeline.reads := by
  have hcomplete := @complete_iff _ _ (t.start + cfg.timeout) t.timeline.reads _ (hears_policy cfg t.start) respType
    (tried cfg frame respType pooled t.env) (tried_ok_iff hsent)
  constructor
  · exact fun h => hcomplete.mp h.complete
  · refine fun h => ⟨fun ev hcomes hlate => ?_, hcomplete.mpr h⟩
    have hexpired : (policy cfg t.start).expired ev.now = true := decide_eq_true hlate
    obtain ⟨hconnect, hprepare, hwritten⟩ := hsent
    have hreceive : receive (policy cfg t.env.start) t.env.reads = _ := receive_of_comesTo hcomes hexpired
    refine ⟨hexpired, .timeout, ?_⟩
    simp only [tried, tryExchange, hconnect, hprepare, hwritten, hreceive, Except.map, Option.map_some]

end Client

namespace Proxy

/-- The timer of a read is what is left until the deadline. -/
def timer (cfg : ClientConfig) (start now : ℕ) : ℕ := start + cfg.timeout - now

/-- What the runtime does for one exchange, on the clock. -/
structure TimedTry (cfg : ClientConfig) where
  /-- `TcpStream::connect`. -/
  connected : Except IoError Unit
  /-- `write_all`. -/
  written : Timed Unit
  /-- The clock after it. -/
  start : ℕ
  /-- The reads. -/
  timeline : Timeline (timer cfg start) start (Option IoError)

/-- The same without the clock of the returns. -/
def TimedTry.env {cfg : ClientConfig} (t : TimedTry cfg) : ProxyTry :=
  ⟨t.connected, t.written, t.start, events t.timeline.reads⟩

/-- **The proxy keeps its deadline.** -/
theorem keepsDeadline {cfg : ClientConfig} {t : TimedTry cfg} (hwritten : t.written = .ok ()) :
    KeepsDeadline (policy cfg t.start) (t.start + cfg.timeout) t.timeline.reads (exchangeOn cfg t.env) := by
  have hwritten' : t.env.written = .ok () := hwritten
  have hpast : ∀ ev, ComesTo (policy cfg t.start) t.timeline.reads ev → t.start + cfg.timeout < ev.now →
      (policy cfg t.start).expired ev.now = true ∧ exchangeOn cfg t.env = .ok (some (.error .timeout)) := by
    intro ev hcomes hlate
    have hexpired : (policy cfg t.start).expired ev.now = true := decide_eq_true hlate
    have hreceive : receive (policy cfg t.env.start) t.env.reads = _ := receive_of_comesTo hcomes hexpired
    refine ⟨hexpired, ?_⟩
    simp only [exchangeOn, hwritten', hreceive, Except.map, Option.map_some]
  refine ⟨fun ev hcomes hlate => ?_, fun resp hresp ev hcomes => ?_⟩
  · obtain ⟨hexpired, htimeout⟩ := hpast ev hcomes hlate
    exact ⟨hexpired, _, htimeout⟩
  · have hmem : ev ∈ t.timeline.reads := by
      obtain ⟨before, after, rx, hsplit, -⟩ := hcomes
      rw [hsplit]
      simp
    have htimer : ev.returned ≤ ev.now + (t.start + cfg.timeout - ev.now) := t.timeline.ordered.returned_le ev hmem
    by_cases hlate : t.start + cfg.timeout < ev.now
    · cases hresp.symm.trans (hpast ev hcomes hlate).2
    · omega

end Proxy

namespace AsyncClient

/-- The timer of a read is the timeout. -/
def timer (cfg : ClientConfig) (_now : ℕ) : ℕ := cfg.timeout

/-- What the runtime does for one try, on the clock. -/
structure TimedTry (cfg : ClientConfig) where
  /-- `TcpStream::connect`. -/
  connected : Timed Unit
  /-- `write_all`. -/
  written : Timed Unit
  /-- The clock after it. -/
  start : ℕ
  /-- The reads. -/
  timeline : Timeline (timer cfg) start (Option IoError)

/-- The same without the clock. -/
def TimedTry.env {cfg : ClientConfig} (t : TimedTry cfg) : AsyncTry := ⟨t.connected, t.written, events t.timeline.reads⟩

/-- What the peer has done by the limit decides the exchange: there is no later turn, or one of the turns by then
gives no bytes, or the bytes of these turns are not the beginning of a frame. -/
def DecidedBy (limit : ℕ) (reads : List (TimedRead (Option IoError))) : Prop :=
  (∀ ev ∈ reads, ev.now ≤ limit) ∨
    (∃ ev ∈ reads.takeWhile (·.now ≤ limit), hears ev.toReadEvent = false) ∨
    ¬ Pending (ReadEvent.allBytes (events (reads.takeWhile (·.now ≤ limit))))

/-- Over the turns by the limit the loop is still going exactly if these do not decide the exchange. -/
theorem going_iff {limit : ℕ} {reads : List (TimedRead (Option IoError))} :
    receive policy (events (reads.takeWhile (·.now ≤ limit))) = .ok none ↔
      (∀ ev ∈ reads.takeWhile (·.now ≤ limit), hears ev.toReadEvent = true) ∧
        Pending (ReadEvent.allBytes (events (reads.takeWhile (·.now ≤ limit)))) := by
  rw [receive_none_iff, hears_policy]
  exact and_congr_left fun _ => by simp [events]

/-- **The loop comes to no turn past the limit exactly if the exchange is decided by then.** -/
theorem decidedBy_iff {limit : ℕ} {reads : List (TimedRead (Option IoError))} :
    DecidedBy limit reads ↔ ∀ ev, ComesTo policy reads ev → ev.now ≤ limit := by
  constructor
  · rintro h ev ⟨before, after, rx, rfl, hbefore⟩
    by_contra hlate
    obtain ⟨hhears, hpending⟩ :=
      going_iff.mp (receive_none_of_passed hbefore (takeWhile_prefix_of_not (by simpa using hlate)))
    rcases h with hall | ⟨ev', hmem, hbad⟩ | hwrong
    · exact hlate (hall ev (by simp))
    · exact Bool.false_ne_true (hbad.symm.trans (hhears ev' hmem))
    · exact hwrong hpending
  · intro h
    rw [DecidedBy]
    by_contra hnot
    push Not at hnot
    obtain ⟨⟨late, hmem, hlate⟩, hhears, hpending⟩ := hnot
    -- the loop goes on over the turns by the limit, and comes to the first one past it
    obtain ⟨ev, after, hdrop⟩ : ∃ ev after, reads.dropWhile (·.now ≤ limit) = ev :: after := by
      refine List.exists_cons_of_ne_nil fun hnil => ?_
      rw [List.dropWhile_eq_nil_iff] at hnil
      exact absurd (of_decide_eq_true (hnil late hmem)) (Nat.not_le.mpr hlate)
    have hsplit : reads = reads.takeWhile (·.now ≤ limit) ++ ev :: after := by
      rw [← hdrop, List.takeWhile_append_dropWhile]
    have hpast : limit < ev.now := by
      have hhead := List.head_dropWhile_not (fun ev : TimedRead (Option IoError) => decide (ev.now ≤ limit))
        (l := reads) (by rw [hdrop]; exact List.cons_ne_nil ev after)
      simpa only [hdrop, List.head_cons, decide_eq_false_iff_not, not_le] using hhead
    have hgoing := going_iff.mpr ⟨fun ev hev => by simpa using hhears ev hev, hpending⟩
    obtain ⟨⟨rx, none | out⟩, hloop, hout⟩ := of_map_eq_ok hgoing
    · exact absurd (h ev ⟨_, after, rx, hsplit, pass_of_loop _ hloop⟩) (Nat.not_le.mpr hpast)
    · cases hout

/-- **The asynchronous client keeps a deadline exactly if the exchange is decided by then, and no value arrives in a
read that returns past it.** -/
theorem keepsDeadline_iff {cfg : ClientConfig} (respType : DataType) {t : TimedTry cfg} (hwritten : t.written = .ok ())
    (limit : ℕ) :
    KeepsDeadline policy limit t.timeline.reads (exchangeOn respType t.env) ↔
      DecidedBy limit t.timeline.reads ∧ AnsweredBy hears limit respType t.timeline.reads := by
  have hresult : ∀ v, exchangeOn respType t.env = .ok (some (.ok v)) ↔
      DecodedFromFirst (ReadEvent.bytesWhile hears (events t.timeline.reads)) respType v :=
    fun v => exchangeOn_ok_iff.trans (and_iff_right hwritten)
  rw [decidedBy_iff, ← complete_iff hears_policy hresult]
  constructor
  · rintro ⟨hstops, hcomplete⟩
    exact ⟨fun ev hcomes => not_lt.mp fun hlate => Bool.false_ne_true (hstops ev hcomes hlate).1, hcomplete⟩
  · rintro ⟨hnone, hcomplete⟩
    exact ⟨fun ev hcomes hlate => absurd (hnone ev hcomes) (Nat.not_le.mpr hlate), hcomplete⟩

end AsyncClient

/-! ### All three -/

/-- The timeout is a deadline for what is exchanged, from the clock after the write on. -/
structure DeadlinesKept (cfg : ClientConfig) (frame : List UInt8) (respType : DataType) (pooled : Bool)
    (sync : Client.TimedTry cfg) (async : AsyncClient.TimedTry cfg) (proxy : Proxy.TimedTry cfg) : Prop where
  /-- `Client::try_exchange`. -/
  sync : Client.Sent pooled sync.env → KeepsDeadline (Client.policy cfg sync.start) (sync.start + cfg.timeout)
    sync.timeline.reads (Client.tried cfg frame respType pooled sync.env)
  /-- `AsyncClient::exchange_on`. -/
  async : async.written = .ok () → KeepsDeadline AsyncClient.policy (async.start + cfg.timeout) async.timeline.reads
    (AsyncClient.exchangeOn respType async.env)
  /-- The proxy's `exchange_on`. -/
  proxy : proxy.written = .ok () → KeepsDeadline (Proxy.policy cfg proxy.start) (proxy.start + cfg.timeout)
    proxy.timeline.reads (Proxy.exchangeOn cfg proxy.env)

/-- **The timeout is a deadline everywhere exactly if** no value arrives at a client in a read that returns too late,
and what the peer of the asynchronous client does in time decides its exchange. -/
theorem deadlines_kept_iff (cfg : ClientConfig) (frame : List UInt8) (respType : DataType) (pooled : Bool)
    (sync : Client.TimedTry cfg) (async : AsyncClient.TimedTry cfg) (proxy : Proxy.TimedTry cfg) :
    DeadlinesKept cfg frame respType pooled sync async proxy ↔
      (Client.Sent pooled sync.env →
        AnsweredBy (Client.hears (sync.start + cfg.timeout)) (sync.start + cfg.timeout) respType
          sync.timeline.reads) ∧
      (async.written = .ok () →
        AsyncClient.DecidedBy (async.start + cfg.timeout) async.timeline.reads ∧
          AnsweredBy AsyncClient.hears (async.start + cfg.timeout) respType async.timeline.reads) := by
  constructor
  · intro h
    exact ⟨fun hsent => (Client.keepsDeadline_iff frame respType hsent).mp (h.sync hsent),
      fun hwritten => (AsyncClient.keepsDeadline_iff respType hwritten _).mp (h.async hwritten)⟩
  · rintro ⟨hsync, hasync⟩
    exact ⟨fun hsent => (Client.keepsDeadline_iff frame respType hsent).mpr (hsync hsent),
      fun hwritten => (AsyncClient.keepsDeadline_iff respType hwritten _).mpr (hasync hwritten), Proxy.keepsDeadline⟩

/-- With a timeout of ten, both clients are too late. A byte that is no start token comes after nine ticks. The read
that the synchronous client then starts returns after eighteen, with the whole frame, and the value is returned.
The asynchronous client gets another such byte then, and starts a third read. -/
theorem deadlines_missed :
    let resp : StdFrame := ⟨.response, 0x959930BF, [0x3f, 0, 0, 0], by decide, by decide, by decide⟩
    let opening : SyncOpening := ⟨.ok true, .ok (), .ok (), .ok (), .ok (), 0⟩
    (∀ async proxy, ¬ DeadlinesKept ⟨10, 1⟩ [] .float true
      ⟨opening, [⟨⟨0, .ok [0x00]⟩, 9⟩, ⟨⟨9, .ok resp.bytes⟩, 18⟩], by decide⟩ async proxy) ∧
    ∀ sync proxy, ¬ DeadlinesKept ⟨10, 1⟩ [] .float true sync
      ⟨.ok (), .ok (), 0, [⟨⟨0, .ok [0x00]⟩, 9⟩, ⟨⟨9, .ok [0x00]⟩, 18⟩, ⟨⟨18, .ok [0x00]⟩, 18⟩], by decide⟩ proxy := by
  intro resp opening
  refine ⟨fun async proxy h => ?_, fun sync proxy h => ?_⟩
  · have hcomes : ComesTo (Client.policy ⟨10, 1⟩ 0) [⟨⟨0, .ok [0x00]⟩, 9⟩, ⟨⟨9, .ok resp.bytes⟩, 18⟩]
        ⟨⟨9, .ok resp.bytes⟩, 18⟩ := ⟨[⟨⟨0, .ok [0x00]⟩, 9⟩], [], ReceiveFrame.idle false 1, rfl, by rfl⟩
    have hreturned := (h.sync ⟨rfl, rfl, rfl⟩).complete (.f32 ⟨0x3f000000⟩) (by decide +kernel) _ hcomes
    exact absurd hreturned (by decide)
  · have hcomes : ComesTo AsyncClient.policy
        [⟨⟨0, .ok [0x00]⟩, 9⟩, ⟨⟨9, .ok [0x00]⟩, 18⟩, ⟨⟨18, .ok [0x00]⟩, 18⟩] ⟨⟨18, .ok [0x00]⟩, 18⟩ :=
      ⟨[⟨⟨0, .ok [0x00]⟩, 9⟩, ⟨⟨9, .ok [0x00]⟩, 18⟩], [], ReceiveFrame.idle false 2, rfl, by rfl⟩
    exact Bool.false_ne_true ((h.async rfl).stops _ hcomes (by decide)).1

end RctPower
