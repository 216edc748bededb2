import Mathlib.Data.List.Basic
import Mathlib.Data.List.Induction

/-!
# Stuffing with an escape token

A stream uses some items as tokens. To send an item that looks like a token,
an escape token is put before it; the reader takes the item after an escape
token literally. `stuff` is the writer and `unstuff` the reader. The reader is a
left-to-right scan with one bit of state, whether an escape is pending, so it
can be cut anywhere (`unstuff_append`); and it undoes the writer
(`unstuff_stuff`) as long as the writer escapes the escape token itself.

The reader accepts more than the writer produces: it strips an escape token from
before any item, whether the item needed it or not.
-/

namespace RctPower.Lib.Stuffing

variable {α : Type*}

/-- Put the escape token before every special item. -/
def stuff (special : α → Bool) (esc : α) (xs : List α) : List α :=
  xs.flatMap fun x => if special x then [esc, x] else [x]

@[simp] theorem stuff_nil (special : α → Bool) (esc : α) : stuff special esc [] = [] := rfl

theorem stuff_cons (special : α → Bool) (esc x : α) (xs : List α) :
    stuff special esc (x :: xs) = (if special x then [esc, x] else [x]) ++ stuff special esc xs := rfl

/-- What comes after the first of a token is one thing. -/
theorem eq_of_first {a : α} {g g' t t' : List α} (hg : a ∉ g) (hg' : a ∉ g')
    (h : g ++ a :: t = g' ++ a :: t') : t = t' := by
  rcases List.append_eq_append_iff.mp h with ⟨as, rfl, has⟩ | ⟨as, rfl, has⟩
  · cases as with
    | nil => simpa using has
    | cons b as =>
      rw [List.cons_append, List.cons.injEq] at has
      exact absurd (by simp [has.1]) hg'
  · cases as with
    | nil => simpa using has.symm
    | cons b as =>
      rw [List.cons_append, List.cons.injEq] at has
      exact absurd (by simp [has.1]) hg

variable [DecidableEq α]

/-- Strip escape tokens, from a reader with an escape pending or not: what is read,
and whether an escape is pending at the end. -/
def unstuff (esc : α) : Bool → List α → List α × Bool
  | pending, [] => ([], pending)
  | true, c :: cs => (c :: (unstuff esc false cs).1, (unstuff esc false cs).2)
  | false, c :: cs =>
    if c = esc then unstuff esc true cs else (c :: (unstuff esc false cs).1, (unstuff esc false cs).2)

@[simp] theorem unstuff_nil (esc : α) (p : Bool) : unstuff esc p [] = ([], p) := by
  cases p <;> rfl

/-- The reader can stop anywhere and go on later. -/
theorem unstuff_append (esc : α) (p : Bool) (a b : List α) :
    unstuff esc p (a ++ b) =
      ((unstuff esc p a).1 ++ (unstuff esc (unstuff esc p a).2 b).1, (unstuff esc (unstuff esc p a).2 b).2) := by
  induction a generalizing p with
  | nil => simp
  | cons c cs ih =>
    cases p with
    | true => simp only [List.cons_append, unstuff, ih]
    | false =>
      simp only [List.cons_append, unstuff]
      split
      · exact ih true
      · rw [ih]; rfl

/-- An item taken literally: after an escape, or one that is not the escape token. -/
theorem unstuff_concat_literal {esc : α} {p : Bool} {t : List α} {c : α}
    (h : (unstuff esc p t).2 = true ∨ c ≠ esc) :
    unstuff esc p (t ++ [c]) = ((unstuff esc p t).1 ++ [c], false) := by
  rw [unstuff_append]
  rcases h with h | h
  · simp [h, unstuff]
  · cases hp : (unstuff esc p t).2 <;> simp [unstuff, h]

/-- An escape token read when no escape is pending. -/
theorem unstuff_concat_escape {esc : α} {p : Bool} {t : List α} (h : (unstuff esc p t).2 = false) :
    unstuff esc p (t ++ [esc]) = ((unstuff esc p t).1, true) := by
  rw [unstuff_append, h]
  simp [unstuff]

/-- The reader takes at most two items for each that it reads, and the pending escape. -/
theorem length_le_unstuff (esc : α) (t : List α) :
    t.length ≤ 2 * (unstuff esc false t).1.length + (if (unstuff esc false t).2 then 1 else 0) := by
  induction t using List.reverseRecOn with
  | nil => simp
  | append_singleton t c ih =>
    by_cases hlit : (unstuff esc false t).2 = true ∨ c ≠ esc
    · rw [unstuff_concat_literal hlit]
      simp only [List.length_append, List.length_singleton, Bool.false_eq_true, if_false]
      split_ifs at ih <;> omega
    · rw [not_or, Bool.not_eq_true, not_not] at hlit
      obtain ⟨hesc, rfl⟩ := hlit
      rw [unstuff_concat_escape hesc]
      simp only [hesc, Bool.false_eq_true, if_false, if_true, List.length_append, List.length_singleton] at ih ⊢
      omega

/-- An escape is pending after an escape token that is not escaped itself. -/
theorem unstuff_pending_iff {esc : α} {t : List α} :
    (unstuff esc false t).2 = true ↔ ∃ w, t = w ++ [esc] ∧ (unstuff esc false w).2 = false := by
  constructor
  · intro h
    rcases List.eq_nil_or_concat' t with rfl | ⟨w, c, rfl⟩
    · simp at h
    · by_cases hlit : (unstuff esc false w).2 = true ∨ c ≠ esc
      · rw [unstuff_concat_literal hlit] at h
        cases h
      · rw [not_or, Bool.not_eq_true, not_not] at hlit
        exact ⟨w, by rw [hlit.2], hlit.1⟩
  · rintro ⟨w, rfl, hw⟩
    rw [unstuff_concat_escape hw]

/-- **The reader undoes the writer**, if the writer escapes the escape token. -/
theorem unstuff_stuff {special : α → Bool} {esc : α} (hesc : special esc = true) (xs : List α) :
    unstuff esc false (stuff special esc xs) = (xs, false) := by
  induction xs with
  | nil => simp
  | cons x xs ih =>
    rw [stuff_cons]
    by_cases hx : special x = true
    · simp [hx, unstuff, ih]
    · have hne : x ≠ esc := fun h => hx (h ▸ hesc)
      simp [hx, unstuff, hne, ih]

/-- A property of what has been read that holds at the start and fails at the end fails
first at some literal item. -/
theorem exists_first_literal {esc : α} {P : List α → Prop} (hnil : P []) {t : List α}
    (h : ¬ P (unstuff esc false t).1) :
    ∃ t₀ c t₁, t = t₀ ++ c :: t₁ ∧ ((unstuff esc false t₀).2 = true ∨ c ≠ esc) ∧ P (unstuff esc false t₀).1 ∧
      ¬ P ((unstuff esc false t₀).1 ++ [c]) := by
  induction t using List.reverseRecOn with
  | nil => exact absurd hnil (by simpa using h)
  | append_singleton t c ih =>
    by_cases ht : P (unstuff esc false t).1
    · by_cases hlit : (unstuff esc false t).2 = true ∨ c ≠ esc
      · rw [unstuff_concat_literal hlit] at h
        exact ⟨t, c, [], rfl, hlit, ht, h⟩
      · rw [not_or, Bool.not_eq_true, not_not] at hlit
        obtain ⟨hesc, rfl⟩ := hlit
        rw [unstuff_concat_escape hesc] at h
        exact absurd ht h
    · obtain ⟨t₀, d, t₁, rfl, hlit, h₀, h₁⟩ := ih ht
      exact ⟨t₀, d, t₁ ++ [c], by simp, hlit, h₀, h₁⟩

/-- What is read of a literal item and what follows it. -/
theorem unstuff_literal_cons {esc : α} {t₀ : List α} {c : α}
    (h : (unstuff esc false t₀).2 = true ∨ c ≠ esc) (t₁ : List α) :
    (unstuff esc false (t₀ ++ c :: t₁)).1 = (unstuff esc false t₀).1 ++ [c] ++ (unstuff esc false t₁).1 := by
  rw [← List.singleton_append, ← List.append_assoc, unstuff_append, unstuff_concat_literal h]

/-- What ends with no escape pending ends with a literal item. -/
theorem exists_last_literal {esc : α} {t u : List α} {c : α} (h : unstuff esc false t = (u ++ [c], false)) :
    ∃ t₀, t = t₀ ++ [c] ∧ ((unstuff esc false t₀).2 = true ∨ c ≠ esc) ∧ (unstuff esc false t₀).1 = u := by
  rcases List.eq_nil_or_concat' t with rfl | ⟨t₀, d, rfl⟩
  · simp at h
  · by_cases hlit : (unstuff esc false t₀).2 = true ∨ d ≠ esc
    · rw [unstuff_concat_literal hlit, Prod.mk.injEq] at h
      obtain ⟨hu, hd⟩ := List.append_inj' h.1 rfl
      obtain rfl : d = c := by simpa using hd
      exact ⟨t₀, rfl, hlit, hu⟩
    · rw [not_or, Bool.not_eq_true, not_not] at hlit
      obtain ⟨hesc, rfl⟩ := hlit
      rw [unstuff_concat_escape hesc] at h
      simp at h

end RctPower.Lib.Stuffing
