import RctPower.Transport.Multiplex
import RctPower.Transport.Serving

/-!
# From the client's bytes to the device's answers

The proxy, its connections and the device (`ProxySystem`), with what has been read from each client. The
two ends are joined: a response that a client is handed is the device's answer to the frame of the
client's own bytes that has the number of the request (`answers_requests`).
-/

namespace RctPower

open RctPower.Lib RctPower.Lib.Rust RctPower.Lib.EarlyExit RctPower.Lib.Machine
open scoped List

namespace ProxySystem

/-- What an event of the proxy does to the requests on the connections: nothing, or a connection is
new, or the request of the exchange that holds the lock is written. -/
theorem queue_of_transfer {cfg : ClientConfig} {p : ProxyState} {links links' : ℕ → Connection Forwarded Response}
    {ev : ProxyEvent} (h : transfer cfg p links ev = some links') :
    (∀ c, (links' c).queue <+ (links c).queue) ∨
      ∃ req up r start c, ev = .wrote r start ∧ p.holder = some (req, up) ∧
        (links' c).queue = (links c).queue ++ [req] ∧ ∀ d, d ≠ c → (links' d).queue = (links d).queue := by
  rw [transfer.eq_def] at h
  split at h
  · cases h
    refine .inl fun c => ?_
    by_cases hc : c = p.made
    · subst hc
      simp [Connection.empty]
    · simp [hc]
  · next r start =>
    split at h
    · next req up c hholder hpool =>
      cases h
      exact .inr ⟨req, up, r, start, c, rfl, hholder, by simp [Connection.send], fun d hd => by simp [hd]⟩
    · cases h
      exact .inl fun c => List.Sublist.refl _
  · split at h
    · next req start rx c hholder hpool =>
      obtain ⟨l, hl, rfl⟩ := Option.map_eq_some_iff.mp h
      refine .inl fun d => ?_
      by_cases hd : d = c
      · subst hd
        simp [(Connection.of_deliver hl).2.1]
      · simp [hd]
    · cases h
  · cases h
    exact .inl fun c => List.Sublist.refl _

end ProxySystem

/-- The proxy, its device and its clients. -/
structure EndToEnd where
  /-- The proxy, the connections and the device. -/
  system : ProxySystem
  /-- What has been read from the client of a session. -/
  input : ℕ → List UInt8

namespace EndToEnd

/-- Before the first event. -/
def start : EndToEnd := ⟨.start, fun _ => []⟩

/-- What has been read from the clients after an event. -/
def heard (input : ℕ → List UInt8) : ProxySystem.Event → ℕ → List UInt8
  | .proxy ev => ev.heard input
  | _ => input

/-- One event, if it can happen. -/
def step (cfg : ClientConfig) (w : EndToEnd) (ev : ProxySystem.Event) : Option EndToEnd :=
  (w.system.step cfg ev).map fun system => ⟨system, heard w.input ev⟩

/-- What holds at all times. -/
structure Joined (w : EndToEnd) : Prop where
  /-- The proxy and its connections. -/
  system : w.system.Inv
  /-- The tasks and their clients. -/
  follows : w.system.proxy.Follows w.input
  /-- What the device has not dealt with has been asked for. -/
  queued : ∀ {c t}, t ∈ (w.system.links c).queue → Asked w.input t
  /-- So has what it has answered. -/
  answered : ∀ a ∈ w.system.answers, Asked w.input a.1

theorem joined_start : start.Joined where
  system := ProxySystem.inv_start
  follows := ProxyState.follows_start
  queued := by rintro _ _ ⟨⟩
  answered := by rintro _ ⟨⟩

variable {cfg : ClientConfig} {w w' : EndToEnd}

/-- One event keeps it. -/
theorem Joined.step (h : w.Joined) {ev : ProxySystem.Event} (hstep : step cfg w ev = some w') : w'.Joined := by
  obtain ⟨system, hsystem, rfl⟩ := Option.map_eq_some_iff.mp hstep
  have hinv := h.system.step hsystem
  cases ev with
  | proxy ev =>
    obtain ⟨p', hp, hlinks⟩ := Option.bind_eq_some_iff.mp hsystem
    obtain ⟨links', htransfer, rfl⟩ := Option.map_eq_some_iff.mp hlinks
    refine ⟨hinv, h.follows.step hp, ?_, fun a ha => (h.answered a ha).heard ev⟩
    intro c t ht
    rcases ProxySystem.queue_of_transfer htransfer with hle | ⟨req, up, r, start, d, rfl, hholds, hd, hother⟩
    · exact (h.queued ((hle c).subset ht)).heard ev
    · by_cases hc : c = d
      · subst hc
        rw [hd, List.mem_append, List.mem_singleton] at ht
        rcases ht with hold | rfl
        · exact (h.queued hold).heard (.wrote r start)
        · exact (h.follows.asked hholds).heard (.wrote r start)
      · rw [hother c hc] at ht
        exact (h.queued ht).heard (.wrote r start)
  | answered c resp =>
    obtain ⟨⟨t, l⟩, hanswer, rfl⟩ := Option.map_eq_some_iff.mp hsystem
    obtain ⟨hqueue, -, -⟩ := Connection.of_answer hanswer
    have ht : Asked w.input t := h.queued (hqueue ▸ List.mem_cons_self)
    refine ⟨hinv, h.follows, ?_, ?_⟩
    · intro d u hu
      dsimp only at hu
      by_cases hd : d = c
      · subst hd
        rw [Function.update_self] at hu
        exact h.queued (hqueue ▸ List.mem_cons_of_mem _ hu)
      · rw [Function.update_of_ne hd] at hu
        exact h.queued hu
    · intro a ha
      rw [List.mem_append, List.mem_singleton] at ha
      rcases ha with hold | rfl
      · exact h.answered a hold
      · exact ht
  | lost c =>
    obtain ⟨l, hlose, rfl⟩ := Option.map_eq_some_iff.mp hsystem
    obtain ⟨t, hqueue, -, -⟩ := Connection.of_lose hlose
    refine ⟨hinv, h.follows, ?_, h.answered⟩
    intro d u hu
    dsimp only at hu
    by_cases hd : d = c
    · subst hd
      rw [Function.update_self] at hu
      exact h.queued (hqueue ▸ List.mem_cons_of_mem _ hu)
    · rw [Function.update_of_ne hd] at hu
      exact h.queued hu

/-! ### What a client is handed -/

/-- The answers that are behind some of the responses to a session. -/
theorem exists_answers {s : ℕ} {written : List (ℕ × List UInt8)} {answers : List (Forwarded × Response)}
    (h : written <+ ProxySystem.responsesTo s answers) :
    ∃ given, given <+ answers ∧ (∀ a ∈ given, a.1.session = s) ∧
      given.map (fun a => (a.1.number, a.2.bytes)) = written := by
  obtain ⟨all, hall, rfl⟩ := List.sublist_filterMap_iff.mp h
  refine ⟨all.filter fun a => a.1.session = s, List.filter_sublist.trans hall, ?_, ?_⟩
  · intro a ha
    simpa using (List.mem_filter.mp ha).2
  · clear h hall
    induction all with
    | nil => rfl
    | cons a all ih => by_cases hs : a.1.session = s <;> simp [hs, ih]

/-- Elements at increasing places. -/
theorem map_sublist_of_places {α β : Type*} {l : List α} {as : List β} {place : β → ℕ} {value : β → α}
    (hinc : as.Pairwise fun a b => place a < place b) (hget : ∀ a ∈ as, l[place a]? = some (value a)) :
    as.map value <+ l := by
  have hlt : ∀ a ∈ as, place a < l.length := fun a ha => (List.getElem?_eq_some_iff.mp (hget a ha)).1
  have hplaces : (as.pmap (fun a ha => (⟨place a, ha⟩ : Fin l.length)) hlt).Pairwise (· < ·) := by
    rw [List.pairwise_pmap]
    exact hinc.imp fun hab _ _ => hab
  have hsub := List.map_getElem_sublist hplaces
  convert hsub using 1
  refine List.ext_getElem (by simp) fun i hi _ => ?_
  have hi' : i < as.length := by simpa using hi
  have hvalue := hget as[i] (List.getElem_mem hi')
  rw [List.getElem?_eq_some_iff] at hvalue
  obtain ⟨_, hvalue⟩ := hvalue
  simp [hvalue]

/-- **A client gets the device's answers to its own requests**, whatever happens, and in whatever order: what it has
been handed are answers of the device, in order, to frames of the bytes that it has sent, each with the place of
its frame among them. If the client sends standard frames, with bytes without start tokens around them, these are
the frames that have been answered. -/
theorem answers_requests {evs : List ProxySystem.Event} (h : run (step cfg) start evs = some w) (s : ℕ) :
    ∃ given, given <+ w.system.answers ∧
      given.map (fun a => (a.1.number, a.2.bytes)) = w.system.proxy.written s ∧
      (∀ a ∈ given, a.1.session = s ∧ (frames (.new false) (w.input s))[a.1.number]? = some a.1.wire) ∧
      given.map (fun a => a.1.wire) <+ frames (.new false) (w.input s) ∧
      ∀ pieces last, Quiet pieces last → w.input s = traffic pieces last →
        given.map (fun a => a.1.wire) <+ pieces.map fun p => p.2.bytes := by
  have hinv : w.Joined := run_induction (fun hw hstep => hw.step hstep) joined_start h
  obtain ⟨given, hgiven, hsession, hwritten⟩ := exists_answers (hinv.system.sublist s)
  have hasked : ∀ a ∈ given, a.1.session = s ∧ (frames (.new false) (w.input s))[a.1.number]? = some a.1.wire := by
    intro a ha
    obtain rfl := hsession a ha
    exact ⟨rfl, hinv.answered a (hgiven.subset ha)⟩
  have hordered : given.Pairwise fun a b => a.1.number < b.1.number := by
    have hnumbers := hinv.system.numbered.ordered s
    rw [← hwritten, List.pairwise_map] at hnumbers
    exact hnumbers
  have hframes := map_sublist_of_places hordered fun a ha => (hasked a ha).2
  refine ⟨given, hgiven, hwritten, hasked, hframes, fun pieces last hquiet hinput => ?_⟩
  rw [← frames_traffic hquiet, ← hinput]
  exact hframes

/-- A WRITE behind noise and a READ behind it. The device loses the first, and answers the second on a new
connection. -/
theorem answers_requests_second :
    let write : StdFrame := ⟨.write, 0xF168B748, [0, 0, 0, 4], by decide, by decide, by decide⟩
    let read : StdFrame := ⟨.read, 0xF168B748, [], by decide, by decide, by decide⟩
    let answer : Response := .ofFrame (.response 0xF168B748 [0, 0, 0, 5] (by decide)) rfl
    ∃ w, run (step ⟨5, 1⟩) start
        [.proxy (.read 0 (.ok (0x00 :: write.bytes ++ read.bytes.take 3))), .proxy (.locked 0),
          .proxy (.connected (.ok ())), .proxy (.wrote (.ok ()) 0), .lost 0, .proxy (.received ⟨6, .error none⟩),
          .proxy (.read 0 (.ok (read.bytes.drop 3))), .proxy (.locked 0), .proxy (.connected (.ok ())),
          .proxy (.wrote (.ok ()) 7), .answered 1 answer, .proxy (.received ⟨8, .ok answer.bytes⟩)] = some w ∧
      w.system.proxy.written 0 = [(1, answer.bytes)] ∧
      ∃ given, given <+ w.system.answers ∧
        given.map (fun a => (a.1.number, a.2.bytes)) = w.system.proxy.written 0 ∧
        (∀ a ∈ given, a.1.session = 0 ∧ (frames (.new false) (w.input 0))[a.1.number]? = some a.1.wire) ∧
        given.map (fun a => a.1.wire) <+ frames (.new false) (w.input 0) ∧
        ∀ pieces last, Quiet pieces last → w.input 0 = traffic pieces last →
          given.map (fun a => a.1.wire) <+ pieces.map fun p => p.2.bytes := by
  intro write read answer
  have hrun : (run (step ⟨5, 1⟩) start
      [.proxy (.read 0 (.ok (0x00 :: write.bytes ++ read.bytes.take 3))), .proxy (.locked 0),
        .proxy (.connected (.ok ())), .proxy (.wrote (.ok ()) 0), .lost 0, .proxy (.received ⟨6, .error none⟩),
        .proxy (.read 0 (.ok (read.bytes.drop 3))), .proxy (.locked 0), .proxy (.connected (.ok ())),
        .proxy (.wrote (.ok ()) 7), .answered 1 answer, .proxy (.received ⟨8, .ok answer.bytes⟩)]).map
      (fun w => w.system.proxy.written 0) = some [(1, answer.bytes)] := by
    decide +kernel
  obtain ⟨w, hw, hwritten⟩ := Option.map_eq_some_iff.mp hrun
  exact ⟨w, hw, hwritten, answers_requests hw 0⟩

end EndToEnd

end RctPower
