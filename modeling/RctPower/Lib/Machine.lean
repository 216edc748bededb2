import Mathlib.Data.List.Induction
import RctPower.Lib.EarlyExit

/-!
# Machines that take events

A machine is a partial step function: `step s e` is the state after event `e`, if `e` can
happen in state `s`. A run takes one event after the other.

An invariant of the steps is one of the runs (`run_induction`). Often a step keeps the
invariant only under a condition on the state before it; `Meets step ok s es` says that the
run of `es` from `s` meets the condition `ok` at every step.

A loop that waits in each of its turns is part of such a machine: each turn is an event
(`run_of_pass`).
-/

namespace RctPower.Lib.Machine

open RctPower.Lib.EarlyExit

variable {σ ε : Type*}

/-- The state after some events. -/
def run (step : σ → ε → Option σ) : σ → List ε → Option σ
  | s, [] => some s
  | s, e :: es => (step s e).bind fun s' => run step s' es

/-- Every step of the run meets the condition. -/
def Meets (step : σ → ε → Option σ) (ok : σ → ε → Prop) : σ → List ε → Prop
  | _, [] => True
  | s, e :: es =>
    ok s e ∧
      match step s e with
      | some s' => Meets step ok s' es
      | none => True

variable {step : σ → ε → Option σ} {ok : σ → ε → Prop} {P : σ → Prop}

instance decidableMeets [∀ s e, Decidable (ok s e)] (s : σ) : ∀ es, Decidable (Meets step ok s es)
  | [] => .isTrue trivial
  | e :: es =>
    have : Decidable (match step s e with | some s' => Meets step ok s' es | none => True) :=
      match step s e with
      | some s' => decidableMeets s' es
      | none => .isTrue trivial
    inferInstanceAs (Decidable (_ ∧ _))

theorem run_append (s : σ) (as bs : List ε) :
    run step s (as ++ bs) = (run step s as).bind fun s' => run step s' bs := by
  induction as generalizing s with
  | nil => rfl
  | cons e as ih =>
    cases he : step s e with
    | none => simp [run, he]
    | some s' => simpa [run, he] using ih s'

/-- The run meets the condition if the states that it comes to meet it with the next event. -/
theorem meets_iff {s : σ} {es : List ε} :
    Meets step ok s es ↔ ∀ used e rest t, es = used ++ e :: rest → run step s used = some t → ok t e := by
  induction es generalizing s with
  | nil =>
    refine iff_of_true trivial fun used e rest t h => ?_
    exact absurd h (by simp)
  | cons e es ih =>
    constructor
    · rintro ⟨hok, hrest⟩ used e' rest t heq hrun
      cases used with
      | nil =>
        obtain ⟨rfl, -⟩ := List.cons.inj heq
        obtain rfl : s = t := by simpa [run] using hrun
        exact hok
      | cons d used =>
        obtain ⟨rfl, htail⟩ := List.cons.inj heq
        obtain ⟨s', hs', hrun⟩ := Option.bind_eq_some_iff.mp hrun
        rw [hs'] at hrest
        exact ih.mp hrest used e' rest t htail hrun
    · intro h
      refine ⟨h [] e es s rfl rfl, ?_⟩
      cases hs : step s e with
      | none => trivial
      | some s' =>
        refine ih.mpr fun used e' rest t heq hrun => ?_
        apply h (e :: used) e' rest t
        · rw [heq, List.cons_append]
        · rw [run, hs, Option.bind_some, hrun]

/-- Events that can happen in any state meet the condition. -/
theorem meets_of_forall {s : σ} {es : List ε} (h : ∀ e ∈ es, ∀ s, ok s e) : Meets step ok s es := by
  rw [meets_iff]
  rintro used e rest t rfl -
  exact h e (by simp) t

/-- What is left of a run that meets the condition meets it. -/
theorem Meets.rest {s t : σ} {as bs : List ε} (h : Meets step ok s (as ++ bs)) (hrun : run step s as = some t) :
    Meets step ok t bs := by
  rw [meets_iff] at h ⊢
  intro used e rest u heq hu
  apply h (as ++ used) e rest u
  · rw [heq, List.append_assoc]
  · rw [run_append, hrun, Option.bind_some, hu]

/-- A run of one event more. -/
theorem run_concat (s : σ) (es : List ε) (e : ε) : run step s (es ++ [e]) = (run step s es).bind fun t => step t e := by
  rw [run_append]
  congr 1
  funext t
  cases h : step t e <;> simp [run, h]

/-- What every step that meets the condition keeps holds after a run that meets it. -/
theorem run_induction_of (hstep : ∀ {s e s'}, P s → ok s e → step s e = some s' → P s') {s s' : σ} {es : List ε}
    (hs : P s) (hmeets : Meets step ok s es) (h : run step s es = some s') : P s' := by
  induction es generalizing s with
  | nil =>
    obtain rfl : s = s' := by simpa [run] using h
    exact hs
  | cons e es ih =>
    obtain ⟨t, he, hes⟩ := Option.bind_eq_some_iff.mp h
    rw [Meets, he] at hmeets
    exact ih (hstep hs hmeets.1 he) hmeets.2 hes

/-- What every step keeps holds after every run. -/
theorem run_induction (hstep : ∀ {s e s'}, P s → step s e = some s' → P s') {s s' : σ} {es : List ε} (hs : P s)
    (h : run step s es = some s') : P s' := by
  have hmeets : ∀ s, Meets step (fun _ _ => True) s es := by
    clear h hs
    induction es with
    | nil => exact fun _ => trivial
    | cons e es ih =>
      intro s
      cases he : step s e with
      | none => simp [Meets, he]
      | some s' => simpa [Meets, he] using ih s'
  exact run_induction_of (fun hs _ => hstep hs) hs (hmeets s) h

/-- What holds of the events and the state at the start, and after every event if before, holds after every run. -/
theorem run_induction_events {P : List ε → σ → Prop} {s : σ} (hs : P [] s)
    (hstep : ∀ {es t e t'}, run step s es = some t → P es t → step t e = some t' → P (es ++ [e]) t') {s' : σ}
    {es : List ε} (h : run step s es = some s') : P es s' := by
  induction es using List.reverseRecOn generalizing s' with
  | nil =>
    obtain rfl : s = s' := by simpa [run] using h
    exact hs
  | append_singleton es e ih =>
    rw [run_concat] at h
    obtain ⟨t, ht, he⟩ := Option.bind_eq_some_iff.mp h
    exact hstep ht (ih ht) he

/-- A machine that takes the turns of a loop as its events, `place s` being its state when the
loop is in state `s`, runs through what the loop passes. -/
theorem run_of_pass {β ρ π α : Type*} {body : β → α → Flow β ρ π} (place : β → σ) {event : α → ε}
    (hturn : ∀ s c s', body s c = .next s' → step (place s) (event c) = some (place s')) {s s' : β} {cs : List α}
    (h : passed body s cs = some s') : run step (place s) (cs.map event) = some (place s') := by
  induction cs generalizing s with
  | nil =>
    obtain rfl : s = s' := by simpa using h
    rfl
  | cons c cs ih =>
    cases hc : body s c with
    | next t =>
      rw [pass_cons_next _ hc] at h
      rw [List.map_cons, run, hturn s c t hc, Option.bind_some]
      exact ih h
    | ret => simp [passed, hc] at h
    | panics => simp [passed, hc] at h

end RctPower.Lib.Machine
