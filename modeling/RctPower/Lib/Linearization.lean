import Mathlib.Data.List.Nodup

/-!
# Linearizability

An object is used by many callers at once. What they see of it is a *history*: calls, and returns of
some of them. `Spec` is the object when it is used by one caller at a time. A history is linearizable
(`Linearizes`) when the calls can be put in an order, one after the other, in which the object gives
the results that were returned, and a call that was made after another had returned comes after it.
Calls that have not returned may be left out, or may have taken effect.

The usual proof gives each call a point between its call and its return at which it takes effect. A
`Mark` is a call, a return or such a point, and `Pointed log` says what a log of them has to keep
from mark to mark. `Pointed.linearizes`: the order of the points is then a linearization.
-/

namespace RctPower.Lib.Linearization

open scoped List

variable {σ κ ι ρ : Type*}

/-- An object that takes one call at a time. -/
structure Spec (σ ι ρ : Type*) where
  /-- The state before the first call. -/
  init : σ
  /-- The state after a call, and its result. -/
  apply : σ → ι → σ × ρ

/-- What a caller does or sees. -/
inductive Act (κ ι ρ : Type*) where
  /-- The call with key `k`. -/
  | call (k : κ) (i : ι)
  /-- Its return. -/
  | ret (k : κ) (r : ρ)

/-- A call that has taken effect. -/
structure Op (κ ι ρ : Type*) where
  /-- Its key. -/
  key : κ
  /-- What it was called with. -/
  input : ι
  /-- Its result. -/
  result : ρ

namespace Spec

variable (spec : Spec σ ι ρ)

/-- The state after some calls. -/
def after (s : σ) (ops : List (Op κ ι ρ)) : σ := ops.foldl (fun s o => (spec.apply s o.input).1) s

/-- The results are those of the object. -/
def Legal : σ → List (Op κ ι ρ) → Prop
  | _, [] => True
  | s, o :: ops => (spec.apply s o.input).2 = o.result ∧ Legal (spec.apply s o.input).1 ops

variable {spec}

@[simp] theorem after_concat (s : σ) (ops : List (Op κ ι ρ)) (o : Op κ ι ρ) :
    spec.after s (ops ++ [o]) = (spec.apply (spec.after s ops) o.input).1 := by
  rw [after, List.foldl_append]
  rfl

theorem legal_concat {s : σ} {ops : List (Op κ ι ρ)} {o : Op κ ι ρ} :
    spec.Legal s (ops ++ [o]) ↔ spec.Legal s ops ∧ (spec.apply (spec.after s ops) o.input).2 = o.result := by
  induction ops generalizing s with
  | nil => simp [Legal, after]
  | cons p ops ih => simp only [List.cons_append, Legal, ih, after, List.foldl_cons, and_assoc]

end Spec

/-! ### Histories -/

/-- The key of a call. -/
def Act.called? : Act κ ι ρ → Option κ
  | .call k _ => some k
  | .ret .. => none

/-- The key of a return. -/
def Act.returned? : Act κ ι ρ → Option κ
  | .call .. => none
  | .ret k _ => some k

/-- A history in which keys tell the calls apart. -/
structure WellFormed (h : List (Act κ ι ρ)) : Prop where
  /-- No key is called twice. -/
  calls : (h.filterMap Act.called?).Nodup
  /-- None returns twice. -/
  returns : (h.filterMap Act.returned?).Nodup
  /-- A return is one of a call. -/
  called : ∀ {k r}, .ret k r ∈ h → ∃ i, [.call k i, .ret k r] <+ h

/-- The calls `ops`, one after the other, are the history as the object has it. -/
structure Linearizes (spec : Spec σ ι ρ) (h : List (Act κ ι ρ)) (ops : List (Op κ ι ρ)) : Prop where
  /-- The results are those of the object. -/
  legal : spec.Legal spec.init ops
  /-- Each call takes effect once. -/
  nodup : (ops.map Op.key).Nodup
  /-- What takes effect has been called. -/
  called : ∀ o ∈ ops, .call o.key o.input ∈ h
  /-- What has returned has taken effect, with the result that was returned. -/
  returned : ∀ {k r}, .ret k r ∈ h → ∃ o ∈ ops, o.key = k ∧ o.result = r
  /-- A call after a return takes effect after what has returned. -/
  ordered : ∀ {k r k' i}, [.ret k r, .call k' i] <+ h → k' ∈ ops.map Op.key → [k, k'] <+ ops.map Op.key

/-- A history that the object could have had with one call at a time. -/
def Linearizable (spec : Spec σ ι ρ) (h : List (Act κ ι ρ)) : Prop := ∃ ops, Linearizes spec h ops

/-! ### Logs -/

/-- What happens to a call. -/
inductive Mark (κ ι ρ : Type*) where
  /-- It is made, or it returns. -/
  | act (a : Act κ ι ρ)
  /-- It takes effect. -/
  | effect (o : Op κ ι ρ)

/-- What callers do and see. -/
def history (log : List (Mark κ ι ρ)) : List (Act κ ι ρ) :=
  log.filterMap fun m => match m with
    | .act a => some a
    | .effect _ => none

/-- The calls that have taken effect, in order. -/
def effects (log : List (Mark κ ι ρ)) : List (Op κ ι ρ) :=
  log.filterMap fun m => match m with
    | .act _ => none
    | .effect o => some o

section Log

variable (log : List (Mark κ ι ρ)) (a : Act κ ι ρ) (o : Op κ ι ρ)

@[simp] theorem history_act : history (log ++ [.act a]) = history log ++ [a] := List.filterMap_append

@[simp] theorem history_effect : history (log ++ [.effect o]) = history log :=
  List.filterMap_append.trans (List.append_nil _)

@[simp] theorem effects_act : effects (log ++ [.act a]) = effects log :=
  List.filterMap_append.trans (List.append_nil _)

@[simp] theorem effects_effect : effects (log ++ [.effect o]) = effects log ++ [o] := List.filterMap_append

end Log

/-- A log in which each call takes effect after it was made and before it returns. -/
inductive Pointed (spec : Spec σ ι ρ) : List (Mark κ ι ρ) → Prop where
  /-- Nothing has happened. -/
  | nil : Pointed spec []
  /-- A call with a new key. -/
  | call {log : List (Mark κ ι ρ)} {k : κ} {i : ι} (h : Pointed spec log) (new : ∀ i', .call k i' ∉ history log) :
    Pointed spec (log ++ [.act (.call k i)])
  /-- A call takes effect, for the first time. -/
  | effect {log : List (Mark κ ι ρ)} {o : Op κ ι ρ} (h : Pointed spec log)
    (called : .call o.key o.input ∈ history log) (first : o.key ∉ (effects log).map Op.key)
    (result : (spec.apply (spec.after spec.init (effects log)) o.input).2 = o.result) :
    Pointed spec (log ++ [.effect o])
  /-- What has taken effect returns, for the first time. -/
  | ret {log : List (Mark κ ι ρ)} {o : Op κ ι ρ} (h : Pointed spec log) (taken : o ∈ effects log)
    (first : ∀ r, .ret o.key r ∉ history log) : Pointed spec (log ++ [.act (.ret o.key o.result)])

theorem nodup_concat {α : Type*} {a : α} {l : List α} (hl : l.Nodup) (ha : a ∉ l) : (l ++ [a]).Nodup := by
  simpa using hl.concat ha

/-- The last of two in a row is at the end, or both are before it. -/
theorem pair_sublist_concat {α : Type*} {a b c : α} {l : List α} (h : [a, b] <+ l ++ [c]) :
    [a, b] <+ l ∨ (a ∈ l ∧ b = c) := by
  have hrev : b :: [a] <+ c :: l.reverse := by simpa using h.reverse
  rcases List.cons_sublist_cons'.mp hrev with hold | ⟨rfl, hlast⟩
  · have hpair := hold.reverse
    rw [List.reverse_reverse] at hpair
    exact .inl hpair
  · exact .inr ⟨by simpa using hlast, rfl⟩

variable {spec : Spec σ ι ρ} {log : List (Mark κ ι ρ)}

/-- A key that is called has a call. -/
theorem mem_filterMap_called {h : List (Act κ ι ρ)} {k : κ} : k ∈ h.filterMap Act.called? ↔ ∃ i, .call k i ∈ h := by
  rw [List.mem_filterMap]
  constructor
  · rintro ⟨_ | _, hmem, hk⟩
    · obtain rfl := Option.some.inj hk
      exact ⟨_, hmem⟩
    · cases hk
  · rintro ⟨i, hmem⟩
    exact ⟨_, hmem, rfl⟩

theorem mem_filterMap_returned {h : List (Act κ ι ρ)} {k : κ} :
    k ∈ h.filterMap Act.returned? ↔ ∃ r, .ret k r ∈ h := by
  rw [List.mem_filterMap]
  constructor
  · rintro ⟨_ | _, hmem, hk⟩
    · cases hk
    · obtain rfl := Option.some.inj hk
      exact ⟨_, hmem⟩
  · rintro ⟨r, hmem⟩
    exact ⟨_, hmem, rfl⟩

/-- **The points are a linearization.** -/
theorem Pointed.linearizes (h : Pointed spec log) : Linearizes spec (history log) (effects log) := by
  induction h with
  | nil =>
    refine ⟨trivial, List.nodup_nil, by rintro _ ⟨⟩, by rintro _ _ ⟨⟩, fun h => ?_⟩
    exact absurd h.length_le (by simp [history])
  | @call log k i h new ih =>
    rw [history_act, effects_act]
    refine ⟨ih.legal, ih.nodup, fun o ho => List.mem_append_left _ (ih.called o ho), ?_, ?_⟩
    · intro k' r hret
      rw [List.mem_append, List.mem_singleton] at hret
      exact ih.returned (hret.resolve_right nofun)
    · intro k₁ r k₂ i₂ hpair htaken
      rcases pair_sublist_concat hpair with hold | ⟨-, heq⟩
      · exact ih.ordered hold htaken
      · -- the call is new, so it has not taken effect
        obtain ⟨rfl, rfl⟩ := Act.call.inj heq
        obtain ⟨o, ho, rfl⟩ := List.mem_map.mp htaken
        exact absurd (ih.called o ho) (new _)
  | @effect log o h called first result ih =>
    rw [history_effect, effects_effect]
    refine ⟨Spec.legal_concat.mpr ⟨ih.legal, result⟩, ?_, ?_, ?_, ?_⟩
    · rw [List.map_append, List.map_singleton]
      exact nodup_concat ih.nodup first
    · intro p hp
      rw [List.mem_append, List.mem_singleton] at hp
      obtain hp | rfl := hp
      · exact ih.called p hp
      · exact called
    · intro k r hret
      obtain ⟨p, hp, hpk⟩ := ih.returned hret
      exact ⟨p, List.mem_append_left _ hp, hpk⟩
    · intro k r k' i hpair htaken
      rw [List.map_append, List.map_singleton, List.mem_append, List.mem_singleton] at htaken
      rw [List.map_append, List.map_singleton]
      rcases htaken with hold | rfl
      · exact (ih.ordered hpair hold).trans (List.sublist_append_left _ _)
      · -- what has returned has taken effect before
        have hret : .ret k r ∈ history log := hpair.subset (by simp)
        obtain ⟨p, hp, rfl, -⟩ := ih.returned hret
        exact (List.singleton_sublist.mpr (List.mem_map_of_mem hp)).append (List.Sublist.refl _)
  | @ret log o h taken first ih =>
    rw [history_act, effects_act]
    refine ⟨ih.legal, ih.nodup, fun p hp => List.mem_append_left _ (ih.called p hp), ?_, ?_⟩
    · intro k r hret
      rw [List.mem_append, List.mem_singleton] at hret
      rcases hret with hold | hnew
      · exact ih.returned hold
      · obtain ⟨rfl, rfl⟩ := Act.ret.inj hnew
        exact ⟨o, taken, rfl, rfl⟩
    · intro k r k' i hpair htaken
      rcases pair_sublist_concat hpair with hold | ⟨-, heq⟩
      · exact ih.ordered hold htaken
      · cases heq

/-- The keys of a log tell its calls apart. -/
theorem Pointed.wellFormed (h : Pointed spec log) : WellFormed (history log) := by
  induction h with
  | nil => exact ⟨List.nodup_nil, List.nodup_nil, by rintro _ _ ⟨⟩⟩
  | @call log k i h new ih =>
    rw [history_act]
    refine ⟨?_, ?_, ?_⟩
    · rw [List.filterMap_append]
      refine nodup_concat ih.calls ?_
      rw [mem_filterMap_called, not_exists]
      exact new
    · rw [List.filterMap_append]
      exact (List.append_nil _).symm ▸ ih.returns
    · intro k' r hret
      rw [List.mem_append, List.mem_singleton] at hret
      obtain ⟨i', hpair⟩ := ih.called (hret.resolve_right nofun)
      exact ⟨i', hpair.trans (List.sublist_append_left _ _)⟩
  | effect h called first result ih =>
    rw [history_effect]
    exact ih
  | @ret log o h taken first ih =>
    rw [history_act]
    refine ⟨?_, ?_, ?_⟩
    · rw [List.filterMap_append]
      exact (List.append_nil _).symm ▸ ih.calls
    · rw [List.filterMap_append]
      refine nodup_concat ih.returns ?_
      rw [mem_filterMap_returned, not_exists]
      exact first
    · intro k r hret
      rw [List.mem_append, List.mem_singleton] at hret
      rcases hret with hold | hnew
      · obtain ⟨i', hpair⟩ := ih.called hold
        exact ⟨i', hpair.trans (List.sublist_append_left _ _)⟩
      · obtain ⟨rfl, rfl⟩ := Act.ret.inj hnew
        refine ⟨o.input, ?_⟩
        exact (List.singleton_sublist.mpr (h.linearizes.called o taken)).append (List.Sublist.refl _)

end RctPower.Lib.Linearization
