import Mathlib.Data.List.Basic

/-!
# Loops with an early exit

A loop over a sequence of items whose body may go on, return from the function
it is in, or panic. Such a loop is what an incremental consumer runs on each
piece of input it is handed, and the interesting facts about it are how it
composes: what a loop over `a ++ b` does is decided by what it does over `a`.

* `loop step s xs` runs the body `step` over `xs` from the state `s`. It ends in
  a state, with the value returned and the number of items taken if the body
  returned, and with nothing if the items ran out first.
* `passed step s xs` is the state after every item of `xs` when the body goes on at
  each of them, and `none` otherwise.

`loop_trichotomy` says that a loop either passes all its items or stops at a
first one, by a return or by a panic; `loop_append` and `loop_stop` say what
follows in each case.
-/

namespace RctPower.Lib.EarlyExit

variable {σ : Type*} {ρ : Type*} {π : Type*} {α : Type*}

/-- What the body of a loop does with one item. -/
inductive Flow (σ : Type*) (ρ : Type*) (π : Type*) where
  /-- Go on with the next item, in state `s`. -/
  | next (s : σ)
  /-- Return `r` from the function, leaving state `s`. -/
  | ret (s : σ) (r : ρ)
  /-- Panic. -/
  | panics (p : π)
  deriving DecidableEq

/-- Continue with the value of a computation that may panic. -/
def Flow.after (x : Except π α) (k : α → Flow σ ρ π) : Flow σ ρ π :=
  match x with
  | .ok a => k a
  | .error p => .panics p

@[simp] theorem Flow.after_ok (a : α) (k : α → Flow σ ρ π) : Flow.after (.ok a) k = k a := rfl

@[simp] theorem Flow.after_error (p : π) (k : α → Flow σ ρ π) : Flow.after (.error p) k = .panics p := rfl

/-- What goes on has computed a value first. -/
theorem Flow.of_after_eq_next {x : Except π α} {k : α → Flow σ ρ π} {s : σ} (h : Flow.after x k = .next s) :
    ∃ a, x = .ok a ∧ k a = .next s := by
  cases x with
  | ok a => exact ⟨a, rfl, h⟩
  | error p => cases h

/-- So has what returns. -/
theorem Flow.of_after_eq_ret {x : Except π α} {k : α → Flow σ ρ π} {s : σ} {r : ρ}
    (h : Flow.after x k = .ret s r) : ∃ a, x = .ok a ∧ k a = .ret s r := by
  cases x with
  | ok a => exact ⟨a, rfl, h⟩
  | error p => cases h

/-- The same in other terms: the state and the value returned are translated. -/
def Flow.map {σ' ρ' : Type*} (f : σ → σ') (g : ρ → ρ') : Flow σ ρ π → Flow σ' ρ' π
  | .next s => .next (f s)
  | .ret s r => .ret (f s) (g r)
  | .panics p => .panics p

/-- What goes on in other terms. -/
theorem Flow.map_after {σ' ρ' : Type*} (f : σ → σ') (g : ρ → ρ') (x : Except π α) (k : α → Flow σ ρ π) :
    (Flow.after x k).map f g = Flow.after x fun a => (k a).map f g := by
  cases x <;> rfl

variable (step : σ → α → Flow σ ρ π)

/-- The loop: the final state, and the value returned with the number of items
taken, the one it returned at included. -/
def loop : σ → List α → Except π (σ × Option (ρ × ℕ))
  | s, [] => .ok (s, none)
  | s, c :: cs =>
    match step s c with
    | .next s' => (loop s' cs).map fun out => (out.1, out.2.map fun r => (r.1, r.2 + 1))
    | .ret s' r => .ok (s', some (r, 1))
    | .panics p => .error p

/-- The state after all of the items, if the body goes on at each of them. -/
def passed : σ → List α → Option σ
  | s, [] => some s
  | s, c :: cs =>
    match step s c with
    | .next s' => passed s' cs
    | _ => none

@[simp] theorem pass_nil (s : σ) : passed step s [] = some s := rfl

theorem pass_cons_next {s s' : σ} {c : α} (h : step s c = .next s') (cs : List α) :
    passed step s (c :: cs) = passed step s' cs := by
  simp only [passed, h]

theorem pass_append (s : σ) (a b : List α) :
    passed step s (a ++ b) = (passed step s a).bind fun s' => passed step s' b := by
  induction a generalizing s with
  | nil => rfl
  | cons c cs ih =>
    simp only [List.cons_append, passed]
    cases step s c with
    | next s' => exact ih s'
    | ret => rfl
    | panics => rfl

theorem pass_append_of {s s' : σ} {a : List α} (h : passed step s a = some s') (b : List α) :
    passed step s (a ++ b) = passed step s' b := by
  rw [pass_append, h]
  rfl

/-- Passing `a ++ b` passes `a`. -/
theorem pass_left {s t : σ} {a b : List α} (h : passed step s (a ++ b) = some t) :
    ∃ s', passed step s a = some s' ∧ passed step s' b = some t := by
  rw [pass_append] at h
  exact Option.bind_eq_some_iff.mp h

theorem pass_concat_next {s s' s'' : σ} {a : List α} {c : α} (h : passed step s a = some s')
    (hc : step s' c = .next s'') : passed step s (a ++ [c]) = some s'' := by
  rw [pass_append_of step h, pass_cons_next step hc, pass_nil]

/-- A property kept by every item that the body goes on at holds after a pass. -/
theorem pass_induction {P : σ → Prop} (hstep : ∀ s c s', P s → step s c = .next s' → P s') {s s' : σ}
    {xs : List α} (hs : P s) (h : passed step s xs = some s') : P s' := by
  induction xs generalizing s with
  | nil =>
    rw [pass_nil, Option.some.injEq] at h
    exact h ▸ hs
  | cons c cs ih =>
    cases hc : step s c with
    | next t => exact ih (hstep s c t hs hc) (by rwa [pass_cons_next step hc] at h)
    | ret => simp [passed, hc] at h
    | panics => simp [passed, hc] at h

/-! ### What a loop does, by how far it passes -/

/-- A loop that passes its first items goes on with the rest from where it got to. -/
theorem loop_append {s s' : σ} {a : List α} (h : passed step s a = some s') (b : List α) :
    loop step s (a ++ b) =
      (loop step s' b).map fun out => (out.1, out.2.map fun r => (r.1, r.2 + a.length)) := by
  induction a generalizing s with
  | nil =>
    rw [pass_nil, Option.some.injEq] at h
    subst h
    cases hl : loop step s b with
    | error p => rw [List.nil_append, hl]; rfl
    | ok out => rw [List.nil_append, hl]; simp [Except.map]
  | cons c cs ih =>
    cases hc : step s c with
    | next t =>
      rw [pass_cons_next step hc] at h
      simp only [List.cons_append, loop, hc, ih h]
      cases loop step s' b with
      | error p => rfl
      | ok out => simp [Except.map, Option.map_map, Function.comp_def, Nat.add_assoc]
    | ret => simp [passed, hc] at h
    | panics => simp [passed, hc] at h

/-- A loop that passes all its items returns nothing. -/
theorem loop_pass {s s' : σ} {a : List α} (h : passed step s a = some s') :
    loop step s a = .ok (s', none) := by
  have := loop_append step h []
  rwa [List.append_nil] at this

/-- A loop stops at the first item it returns at; the items after it have no influence. -/
theorem loop_stop {s s' t : σ} {a : List α} {c : α} {r : ρ} (h : passed step s a = some s')
    (hc : step s' c = .ret t r) (b : List α) :
    loop step s (a ++ c :: b) = .ok (t, some (r, a.length + 1)) := by
  rw [loop_append step h]
  simp [loop, hc, Except.map, Nat.add_comm]

/-- A loop panics at the first item its body panics at. -/
theorem loop_panics {s s' : σ} {a : List α} {c : α} {p : π} (h : passed step s a = some s')
    (hc : step s' c = .panics p) (b : List α) : loop step s (a ++ c :: b) = .error p := by
  rw [loop_append step h]
  simp [loop, hc, Except.map]

/-- A loop passes all its items, or there is a first one it stops at. -/
theorem loop_trichotomy (s : σ) (xs : List α) :
    (∃ s', passed step s xs = some s') ∨
      ∃ a c b s', xs = a ++ c :: b ∧ passed step s a = some s' ∧
        ((∃ t r, step s' c = .ret t r) ∨ ∃ p, step s' c = .panics p) := by
  induction xs generalizing s with
  | nil => exact .inl ⟨s, rfl⟩
  | cons c cs ih =>
    cases hc : step s c with
    | next t =>
      rcases ih t with ⟨s', h⟩ | ⟨a, d, b, s', rfl, h, hd⟩
      · exact .inl ⟨s', by rwa [pass_cons_next step hc]⟩
      · exact .inr ⟨c :: a, d, b, s', rfl, by rwa [pass_cons_next step hc], hd⟩
    | ret t r => exact .inr ⟨[], c, cs, s, rfl, rfl, .inl ⟨t, r, hc⟩⟩
    | panics p => exact .inr ⟨[], c, cs, s, rfl, rfl, .inr ⟨p, hc⟩⟩

/-- If the loop ends without a return, it passed all its items. -/
theorem pass_of_loop {s s' : σ} {xs : List α} (h : loop step s xs = .ok (s', none)) :
    passed step s xs = some s' := by
  rcases loop_trichotomy step s xs with ⟨t, ht⟩ | ⟨a, c, b, t, rfl, ht, ⟨u, r, hc⟩ | ⟨p, hc⟩⟩
  · rw [loop_pass step ht] at h
    simp only [Except.ok.injEq, Prod.mk.injEq, and_true] at h
    exact h ▸ ht
  · rw [loop_stop step ht hc] at h
    simp at h
  · rw [loop_panics step ht hc] at h
    simp at h

/-- If the loop returns, it passed the items before the one it returned at. -/
theorem stop_of_loop {s t : σ} {xs : List α} {r : ρ} {n : ℕ} (h : loop step s xs = .ok (t, some (r, n))) :
    ∃ a c b s', xs = a ++ c :: b ∧ n = a.length + 1 ∧ passed step s a = some s' ∧ step s' c = .ret t r := by
  rcases loop_trichotomy step s xs with ⟨u, hu⟩ | ⟨a, c, b, u, rfl, hu, ⟨v, r', hc⟩ | ⟨p, hc⟩⟩
  · rw [loop_pass step hu] at h
    simp at h
  · rw [loop_stop step hu hc] at h
    simp only [Except.ok.injEq, Prod.mk.injEq, Option.some.injEq] at h
    obtain ⟨rfl, rfl, rfl⟩ := h
    exact ⟨a, c, b, u, rfl, rfl, hu, hc⟩
  · rw [loop_panics step hu hc] at h
    simp at h

/-! ### Two loops in step -/

/-- **Two loops whose bodies agree in other terms agree in these terms**: they end at the same item,
or panic at the same. -/
theorem loop_map {σ' ρ' : Type*} {step' : σ' → α → Flow σ' ρ' π} (f : σ → σ') (g : ρ → ρ')
    (hstep : ∀ s c, step' (f s) c = (step s c).map f g) (s : σ) (xs : List α) :
    loop step' (f s) xs = (loop step s xs).map fun out => (f out.1, out.2.map fun r => (g r.1, r.2)) := by
  induction xs generalizing s with
  | nil => rfl
  | cons c cs ih =>
    rw [loop, loop, hstep]
    cases step s c with
    | next t =>
      simp only [Flow.map, ih]
      cases loop step t cs with
      | error p => rfl
      | ok out => simp [Except.map, Option.map_map, Function.comp_def]
    | ret t r => rfl
    | panics p => rfl

end RctPower.Lib.EarlyExit
