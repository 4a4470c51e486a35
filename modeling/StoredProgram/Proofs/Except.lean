import Mathlib.Data.List.Forall2

/-! # Computations that may fail

A sequence of computations succeeds just if each of them does. Two computations agree if they end alike (`Agree`), and
so do sequences of computations that agree one by one. -/

namespace StoredProgram

variable {ε α β : Type}

theorem bind_eq_ok_iff {x : Except ε α} {f : α → Except ε β} {b : β} :
    x >>= f = .ok b ↔ ∃ a, x = .ok a ∧ f a = .ok b := by
  cases x with
  | error e => exact ⟨fun h => (nomatch h), fun ⟨_, h, _⟩ => (nomatch h)⟩
  | ok a => exact ⟨fun h => ⟨a, rfl, h⟩, fun ⟨_, h, hb⟩ => by cases h; exact hb⟩

theorem bind_eq_error_iff {x : Except ε α} {f : α → Except ε β} {e : ε} :
    x >>= f = .error e ↔ x = .error e ∨ ∃ a, x = .ok a ∧ f a = .error e := by
  cases x with
  | error e' =>
    refine ⟨fun h => Or.inl ?_, fun h => ?_⟩
    · cases h
      rfl
    · obtain h | ⟨_, h, -⟩ := h <;> cases h
      rfl
  | ok a =>
    refine ⟨fun h => Or.inr ⟨a, rfl, h⟩, fun h => ?_⟩
    obtain h | ⟨_, h, he⟩ := h <;> cases h
    exact he

theorem map_eq_error_iff {x : Except ε α} {f : α → β} {e : ε} : x.map f = .error e ↔ x = .error e := by
  cases x <;> simp [Except.map]

theorem map_eq_ok_iff {x : Except ε α} {f : α → β} {b : β} :
    x.map f = .ok b ↔ ∃ a, x = .ok a ∧ f a = b := by
  cases x with
  | error e => exact ⟨fun h => (nomatch h), fun ⟨_, h, _⟩ => (nomatch h)⟩
  | ok a => simp [Except.map]

theorem exists_eq_ok_iff_isOk {x : Except ε α} : (∃ a, x = .ok a) ↔ x.isOk = true := by
  cases x <;> simp [Except.isOk, Except.toBool]

theorem mapError_eq_ok_iff {ε' : Type} {x : Except ε α} {f : ε → ε'} {a : α} :
    x.mapError f = .ok a ↔ x = .ok a := by
  cases x <;> simp [Except.mapError]

theorem mapError_eq_error_iff {ε' : Type} {x : Except ε α} {f : ε → ε'} {e : ε'} :
    x.mapError f = .error e ↔ ∃ e', x = .error e' ∧ f e' = e := by
  cases x <;> simp [Except.mapError]

theorem mapM_eq_ok_iff {f : α → Except ε β} {xs : List α} {ys : List β} :
    xs.mapM f = .ok ys ↔ List.Forall₂ (fun x y => f x = .ok y) xs ys := by
  induction xs generalizing ys with
  | nil =>
    rw [List.mapM_nil, List.forall₂_nil_left_iff]
    exact ⟨fun h => by cases h; rfl, fun h => h ▸ rfl⟩
  | cons x xs ih =>
    rw [List.mapM_cons, bind_eq_ok_iff, List.forall₂_cons_left_iff]
    refine ⟨fun h => ?_, fun h => ?_⟩
    · obtain ⟨y, hy, h⟩ := h
      obtain ⟨ys', hys, h⟩ := bind_eq_ok_iff.mp h
      cases h
      exact ⟨y, ys', hy, ih.mp hys, rfl⟩
    · obtain ⟨y, ys', hy, hys, rfl⟩ := h
      exact ⟨y, hy, bind_eq_ok_iff.mpr ⟨ys', ih.mpr hys, rfl⟩⟩

theorem mapM_eq_error_iff {f : α → Except ε β} {xs : List α} {e : ε} :
    xs.mapM f = .error e ↔
      ∃ before x behind, xs = before ++ x :: behind ∧ (∀ y ∈ before, ∃ b, f y = .ok b) ∧ f x = .error e := by
  induction xs with
  | nil =>
    rw [List.mapM_nil]
    refine ⟨fun h => (nomatch h), fun ⟨before, x, behind, h, _⟩ => ?_⟩
    exact absurd h.symm (by simp)
  | cons x xs ih =>
    rw [List.mapM_cons, bind_eq_error_iff]
    refine ⟨fun h => ?_, fun h => ?_⟩
    · rcases h with h | ⟨b, hb, h⟩
      · exact ⟨[], x, xs, rfl, nofun, h⟩
      · obtain h | ⟨_, _, h⟩ := bind_eq_error_iff.mp h
        · obtain ⟨before, y, behind, rfl, hok, hy⟩ := ih.mp h
          exact ⟨x :: before, y, behind, rfl, List.forall_mem_cons.mpr ⟨⟨b, hb⟩, hok⟩, hy⟩
        · cases h
    · obtain ⟨before, y, behind, hs, hok, hy⟩ := h
      cases before with
      | nil =>
        cases hs
        exact Or.inl hy
      | cons z before =>
        cases hs
        obtain ⟨⟨b, hb⟩, hok⟩ := List.forall_mem_cons.mp hok
        exact Or.inr ⟨b, hb, bind_eq_error_iff.mpr (Or.inl (ih.mpr ⟨before, y, behind, rfl, hok, hy⟩))⟩

/-! ### Two computations -/

section Two

variable {ε' α' β' γ γ' δ δ' : Type}

/-- Two computations agree if both succeed with related results, or both fail with related errors. -/
inductive Agree (E : ε → ε' → Prop) (R : α → α' → Prop) : Except ε α → Except ε' α' → Prop
  | ok {a : α} {a' : α'} (h : R a a') : Agree E R (.ok a) (.ok a')
  | error {e : ε} {e' : ε'} (h : E e e') : Agree E R (.error e) (.error e')

namespace Agree

variable {E : ε → ε' → Prop} {F : δ → δ' → Prop} {R : α → α' → Prop} {S : β → β' → Prop} {Q : γ → γ' → Prop}

theorem refl {E : ε → ε → Prop} (h : ∀ e, E e e) (x : Except ε α) : Agree E Eq x x := by
  cases x with
  | ok a => exact .ok rfl
  | error e => exact .error (h e)

theorem trans {E : ε → ε → Prop} (hE : ∀ e e' e'', E e e' → E e' e'' → E e e'') {x y z : Except ε α}
    (h : Agree E Eq x y) (h' : Agree E Eq y z) : Agree E Eq x z := by
  cases h with
  | ok h =>
    cases h' with
    | ok h' => exact .ok (h.trans h')
  | error h =>
    cases h' with
    | error h' => exact .error (hE _ _ _ h h')

theorem mapError {f : ε → δ} {f' : ε' → δ'} {x : Except ε α} {x' : Except ε' α'} (h : Agree E R x x')
    (hf : ∀ e e', E e e' → F (f e) (f' e')) : Agree F R (x.mapError f) (x'.mapError f') := by
  cases h with
  | ok h => exact .ok h
  | error h => exact .error (hf _ _ h)

theorem bind {x : Except ε α} {x' : Except ε' α'} {f : α → Except ε β} {f' : α' → Except ε' β'} (h : Agree E R x x')
    (hf : ∀ a a', R a a' → Agree E S (f a) (f' a')) : Agree E S (x >>= f) (x' >>= f') := by
  cases h with
  | ok h => exact hf _ _ h
  | error h => exact .error h

/-- Folds over related lists agree if each of their steps keeps related values related. -/
theorem foldlM {f : α → γ → Except ε α} {f' : α' → γ' → Except ε' α'} {xs : List γ} {xs' : List γ'}
    (hs : List.Forall₂ Q xs xs') (hf : ∀ a a' x x', R a a' → Q x x' → Agree E R (f a x) (f' a' x')) {a : α} {a' : α'}
    (ha : R a a') : Agree E R (xs.foldlM f a) (xs'.foldlM f' a') := by
  induction hs generalizing a a' with
  | nil => exact .ok ha
  | cons hx _ ih =>
    rw [List.foldlM_cons, List.foldlM_cons]
    exact (hf _ _ _ _ ha hx).bind fun _ _ => ih

theorem mapM {f : γ → Except ε α} {f' : γ' → Except ε' α'} {xs : List γ} {xs' : List γ'} (hs : List.Forall₂ Q xs xs')
    (hf : ∀ x x', Q x x' → Agree E R (f x) (f' x')) : Agree E (List.Forall₂ R) (xs.mapM f) (xs'.mapM f') := by
  induction hs with
  | nil => exact .ok .nil
  | cons hx _ ih =>
    rw [List.mapM_cons, List.mapM_cons]
    refine (hf _ _ hx).bind fun _ _ h => ih.bind fun _ _ hs => ?_
    exact .ok (.cons h hs)

end Agree
end Two

end StoredProgram
