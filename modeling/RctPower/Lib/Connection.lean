import Mathlib.Data.List.Basic

/-!
# A connection to a peer that answers in order

The far end of a connection takes requests one after the other. The oldest that it has not
dealt with it answers, or it never does. Its answers travel as one stream of bytes, which
the near end reads in pieces of any size and at any time.

A `Connection` is the state of this: requests of type `τ`, answers of type `β` with the
bytes `enc b`, and how far the near end has read. `Pending enc l as taken` is how the near end
looks at it from some point between two answers on: the answers sent since then are `as`,
and of their bytes it has read `taken`. Each operation has a lemma on what it makes of such a
view.
-/

namespace RctPower.Lib

/-- A connection. -/
structure Connection (τ β : Type*) where
  /-- The requests that the peer has not dealt with, oldest first. -/
  queue : List τ
  /-- Its answers, with what they are answers to. -/
  sent : List (τ × β)
  /-- The number of bytes read. -/
  pos : ℕ

namespace Connection

variable {τ β α : Type*} (enc : β → List α)

/-- The bytes of some answers. -/
def stream (as : List (τ × β)) : List α := as.flatMap fun a => enc a.2

/-- A new connection. -/
def empty : Connection τ β := ⟨[], [], 0⟩

/-- A request is written. -/
def send (l : Connection τ β) (t : τ) : Connection τ β := { l with queue := l.queue ++ [t] }

/-- The peer answers the oldest request, which is given with what is then the state. -/
def answer (l : Connection τ β) (b : β) : Option (τ × Connection τ β) :=
  match l.queue with
  | [] => none
  | t :: rest => some (t, { l with queue := rest, sent := l.sent ++ [(t, b)] })

/-- The peer will not answer the oldest request. -/
def lose (l : Connection τ β) : Option (Connection τ β) :=
  match l.queue with
  | [] => none
  | _ :: rest => some { l with queue := rest }

/-- The bytes sent and not read. -/
def flight (l : Connection τ β) : List α := (stream enc l.sent).drop l.pos

/-- The next bytes are read. -/
def deliver [DecidableEq α] (l : Connection τ β) (chunk : List α) : Option (Connection τ β) :=
  if chunk <+: l.flight enc then some { l with pos := l.pos + chunk.length } else none

/-- The answer that the byte at a position of the stream belongs to. -/
def owner : List (τ × β) → ℕ → Option (τ × β)
  | [], _ => none
  | a :: as, i => if i < (enc a.2).length then some a else owner as (i - (enc a.2).length)

/-- The answers that start at a position of the stream or behind it, if it is between two
answers. -/
def unread : List (τ × β) → ℕ → Option (List (τ × β))
  | as, 0 => some as
  | [], _ + 1 => none
  | a :: as, i + 1 => if (enc a.2).length ≤ i + 1 then unread as (i + 1 - (enc a.2).length) else none

/-- All requests have been dealt with, and all answers read. -/
def settled (l : Connection τ β) : Bool := l.queue.isEmpty && (unread enc l.sent l.pos).any List.isEmpty

/-- From some point between two answers on, `as` has been sent and, of its bytes, `taken` has
been read. -/
def Pending (l : Connection τ β) (as : List (τ × β)) (taken : List α) : Prop :=
  ∃ before, l.sent = before ++ as ∧ l.pos = (stream enc before).length + taken.length ∧ taken <+: stream enc as

/-- Nothing is left of what went over the connection. -/
def Idle (l : Connection τ β) : Prop := l.queue = [] ∧ l.Pending enc [] []

/-- What one request `t` has come to: the requests that the peer has not dealt with, and the answers. -/
inductive Owes (t : τ) : List τ → List (τ × β) → Prop
  /-- The peer has not dealt with it. -/
  | waiting : Owes t [t] []
  /-- The peer will not answer it. -/
  | lost : Owes t [] []
  /-- The peer has answered it. -/
  | answered (b : β) : Owes t [] [(t, b)]

/-- Since a point at which nothing was left, the request `t` has been written, and `taken` been read of what it has
come to. -/
def Awaiting (l : Connection τ β) (t : τ) (taken : List α) : Prop := ∃ as, Owes t l.queue as ∧ l.Pending enc as taken

variable {enc} {l l' : Connection τ β} {as : List (τ × β)} {taken : List α}

@[simp] theorem stream_nil : stream enc ([] : List (τ × β)) = [] := rfl

@[simp] theorem stream_append (as bs : List (τ × β)) : stream enc (as ++ bs) = stream enc as ++ stream enc bs :=
  List.flatMap_append

@[simp] theorem stream_singleton (a : τ × β) : stream enc [a] = enc a.2 := List.flatMap_singleton ..

theorem stream_cons (a : τ × β) (as : List (τ × β)) : stream enc (a :: as) = enc a.2 ++ stream enc as :=
  List.flatMap_cons

theorem idle_empty : (empty : Connection τ β).Idle enc := ⟨rfl, [], rfl, rfl, List.prefix_rfl⟩

theorem Pending.isPrefix (h : l.Pending enc as taken) : taken <+: stream enc as := by
  obtain ⟨before, -, -, hpre⟩ := h
  exact hpre

theorem Pending.send (h : l.Pending enc as taken) (t : τ) : (l.send t).Pending enc as taken := h

theorem of_answer {t : τ} {b : β} (h : l.answer b = some (t, l')) :
    l.queue = t :: l'.queue ∧ l'.sent = l.sent ++ [(t, b)] ∧ l'.pos = l.pos := by
  rw [answer] at h
  split at h
  · cases h
  · next hq =>
    cases h
    exact ⟨hq, rfl, rfl⟩

theorem of_lose (h : l.lose = some l') : ∃ t, l.queue = t :: l'.queue ∧ l'.sent = l.sent ∧ l'.pos = l.pos := by
  rw [lose] at h
  split at h
  · cases h
  · next hq =>
    cases h
    exact ⟨_, hq, rfl, rfl⟩

theorem of_deliver [DecidableEq α] {chunk : List α} (h : l.deliver enc chunk = some l') :
    chunk <+: l.flight enc ∧ l'.queue = l.queue ∧ l'.sent = l.sent ∧ l'.pos = l.pos + chunk.length := by
  rw [deliver] at h
  split_ifs at h with hchunk
  cases h
  exact ⟨hchunk, rfl, rfl, rfl⟩

/-- An answer comes behind those that are pending. -/
theorem Pending.answer (h : l.Pending enc as taken) {t : τ} {b : β} (hl : l.answer b = some (t, l')) :
    l'.Pending enc (as ++ [(t, b)]) taken := by
  obtain ⟨-, hsent, hpos⟩ := of_answer hl
  obtain ⟨before, hbefore, htaken, hpre⟩ := h
  refine ⟨before, by rw [hsent, hbefore, List.append_assoc], hpos.trans htaken, ?_⟩
  rw [stream_append]
  exact hpre.trans (List.prefix_append _ _)

/-- No answer comes. -/
theorem Pending.lose (h : l.Pending enc as taken) (hl : l.lose = some l') : l'.Pending enc as taken := by
  obtain ⟨-, -, hsent, hpos⟩ := of_lose hl
  obtain ⟨before, hbefore, htaken, hpre⟩ := h
  exact ⟨before, hsent.trans hbefore, hpos.trans htaken, hpre⟩

/-- What is read are the next bytes of the pending answers. -/
theorem Pending.deliver [DecidableEq α] (h : l.Pending enc as taken) {chunk : List α}
    (hl : l.deliver enc chunk = some l') : l'.Pending enc as (taken ++ chunk) := by
  obtain ⟨hchunk, -, hsent, hpos⟩ := of_deliver hl
  obtain ⟨before, hbefore, htaken, more, hmore⟩ := h
  refine ⟨before, hsent.trans hbefore, ?_, ?_⟩
  · rw [hpos, htaken, List.length_append, Nat.add_assoc]
  · rw [flight, hbefore, htaken, stream_append, ← hmore, List.drop_append, List.drop_of_length_le (by omega)] at hchunk
    rw [← hmore, List.prefix_append_right_inj]
    simpa using hchunk

/-- Answers that have been read to their end are no longer pending. -/
theorem Pending.settle {bs : List (τ × β)} (h : l.Pending enc (as ++ bs) (stream enc as)) : l.Pending enc bs [] := by
  obtain ⟨before, hbefore, htaken, -⟩ := h
  refine ⟨before ++ as, by rw [hbefore, List.append_assoc], ?_, List.nil_prefix⟩
  rw [htaken, stream_append, List.length_append, List.length_nil, Nat.add_zero]

/-- A request on a connection on which nothing is left. -/
theorem Idle.send (h : l.Idle enc) (t : τ) : (l.send t).Awaiting enc t [] := by
  refine ⟨[], ?_, h.2.send t⟩
  rw [Connection.send, h.1]
  exact .waiting

theorem Idle.answer_eq_none (h : l.Idle enc) (b : β) : l.answer b = none := by rw [answer, h.1]

theorem Idle.lose_eq_none (h : l.Idle enc) : l.lose = none := by rw [lose, h.1]

/-- The only request that can be answered is the one that is waited for. -/
theorem Awaiting.answer {t u : τ} {b : β} (h : l.Awaiting enc t taken) (hl : l.answer b = some (u, l')) :
    l'.Awaiting enc t taken := by
  obtain ⟨as, howes, hpending⟩ := h
  rw [(of_answer hl).1] at howes
  have hanswer := hpending.answer hl
  generalize hqueue : u :: l'.queue = queue at howes
  cases howes with
  | waiting =>
    obtain ⟨rfl, hnil⟩ := List.cons.inj hqueue
    exact ⟨_, hnil ▸ .answered b, hanswer⟩
  | lost => cases hqueue
  | answered => cases hqueue

/-- So is the only one that can be lost. -/
theorem Awaiting.lose {t : τ} (h : l.Awaiting enc t taken) (hl : l.lose = some l') : l'.Awaiting enc t taken := by
  obtain ⟨as, howes, hpending⟩ := h
  obtain ⟨u, hu, -, -⟩ := of_lose hl
  rw [hu] at howes
  have hlose := hpending.lose hl
  generalize hqueue : u :: l'.queue = queue at howes
  cases howes with
  | waiting =>
    obtain ⟨rfl, hnil⟩ := List.cons.inj hqueue
    exact ⟨_, hnil ▸ .lost, hlose⟩
  | lost => cases hqueue
  | answered => cases hqueue

theorem Awaiting.deliver [DecidableEq α] {t : τ} (h : l.Awaiting enc t taken) {chunk : List α}
    (hl : l.deliver enc chunk = some l') : l'.Awaiting enc t (taken ++ chunk) := by
  obtain ⟨as, howes, hpending⟩ := h
  refine ⟨as, ?_, hpending.deliver hl⟩
  rw [(of_deliver hl).2.1]
  exact howes

/-- What is before the answers that are unread has been read. -/
theorem append_of_unread {sent : List (τ × β)} {i : ℕ} (h : unread enc sent i = some as) :
    ∃ before, sent = before ++ as ∧ i = (stream enc before).length := by
  induction sent generalizing i with
  | nil =>
    cases i with
    | zero =>
      obtain rfl : [] = as := by simpa [unread] using h
      exact ⟨[], rfl, rfl⟩
    | succ i => cases h
  | cons a sent ih =>
    cases i with
    | zero =>
      obtain rfl : a :: sent = as := by simpa [unread] using h
      exact ⟨[], rfl, rfl⟩
    | succ i =>
      rw [unread] at h
      split_ifs at h with hle
      obtain ⟨before, rfl, hi⟩ := ih h
      refine ⟨a :: before, rfl, ?_⟩
      rw [stream_cons, List.length_append]
      omega

/-- At the start of the answers that are unread, they are all that is pending. -/
theorem pending_of_unread (h : unread enc l.sent l.pos = some as) : l.Pending enc as [] := by
  obtain ⟨before, hsent, hpos⟩ := append_of_unread h
  exact ⟨before, hsent, hpos, List.nil_prefix⟩

theorem idle_of_settled (h : l.settled enc = true) : l.Idle enc := by
  obtain ⟨hqueue, hunread⟩ := Bool.and_eq_true_iff.mp h
  refine ⟨List.isEmpty_iff.mp hqueue, pending_of_unread ?_⟩
  cases has : unread enc l.sent l.pos with
  | none => exact absurd hunread (by simp [has])
  | some as =>
    rw [has] at hunread
    rw [List.isEmpty_iff.mp hunread]

/-- The bytes of the first answer are its own, wherever it is. -/
theorem owner_append (before : List (τ × β)) (a : τ × β) (as : List (τ × β)) {i : ℕ} (hi : i < (enc a.2).length) :
    owner enc (before ++ a :: as) ((stream enc before).length + i) = some a := by
  induction before with
  | nil => simp [owner, hi]
  | cons b before ih =>
    rw [List.cons_append, owner, stream_cons, List.length_append, if_neg (by omega), ← ih]
    congr 1
    omega

/-- The bytes of the first answer pending are its own. -/
theorem Pending.owner {a : τ × β} (h : l.Pending enc (a :: as) taken) {i : ℕ} (hle : taken.length ≤ i)
    (hlt : i < (enc a.2).length) : owner enc l.sent (l.pos + (i - taken.length)) = some a := by
  obtain ⟨before, hsent, hpos, -⟩ := h
  rw [hsent, hpos, show (stream enc before).length + taken.length + (i - taken.length) = (stream enc before).length + i
    by omega]
  exact owner_append before a as hlt

end Connection

end RctPower.Lib
