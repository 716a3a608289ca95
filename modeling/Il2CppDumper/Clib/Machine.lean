import Mathlib.Data.List.Basic

/-!
# State machines and their runs

A machine steps from state to state by actions, and an action that is not possible in a state has no
next state. `Run` are the runs whose every step meets a condition on the state before it and the
action; without a condition these are all runs. `run` replays a list of actions.

`Run.invariant` is the only induction: what holds at the start and is kept by every step, given the
actions so far, holds after every run.
-/

namespace Clib

structure Machine (σ α : Type) where
  init : σ
  step : σ → α → Option σ

namespace Machine
variable {σ α : Type} (M : Machine σ α)

/-- The state after a list of actions. -/
def run (s : σ) : List α → Option σ
  | [] => some s
  | a :: as =>
    match M.step s a with
    | some s => run s as
    | none => none

theorem run_append (s : σ) (as bs : List α) :
    M.run s (as ++ bs) = (M.run s as).bind fun s => M.run s bs := by
  induction as generalizing s with
  | nil => rfl
  | cons a as ih =>
    rw [List.cons_append, run, run]
    cases M.step s a with
    | none => rfl
    | some s => exact ih s

theorem run_singleton (s : σ) (a : α) : M.run s [a] = M.step s a := by
  rw [run]
  cases M.step s a <;> rfl

/-- Every step is allowed. -/
def unguarded (_ : σ) (_ : α) : Prop := True

/-- The runs from a state whose steps all meet `guard`. -/
inductive Run (guard : σ → α → Prop) (s₀ : σ) : List α → σ → Prop
  | nil : Run guard s₀ [] s₀
  | step {as : List α} {s s' : σ} {a : α} : Run guard s₀ as s → guard s a → M.step s a = some s' →
      Run guard s₀ (as ++ [a]) s'

variable {M} {guard : σ → α → Prop} {s₀ : σ}

/-- An invariant of the state and the actions so far. -/
theorem Run.invariant {I : List α → σ → Prop} (hinit : I [] s₀)
    (hstep : ∀ as s a s', I as s → guard s a → M.step s a = some s' → I (as ++ [a]) s')
    {as : List α} {s : σ} (h : M.Run guard s₀ as s) : I as s := by
  induction h with
  | nil => exact hinit
  | step _ hguard hnext ih => exact hstep _ _ _ _ ih hguard hnext

/-- A replay whose actions are all allowed prolongs a run. -/
theorem Run.prolong {as bs : List α} {s s' : σ} (h : M.Run guard s₀ as s)
    (hguard : ∀ b ∈ bs, ∀ s, guard s b) (hrun : M.run s bs = some s') :
    M.Run guard s₀ (as ++ bs) s' := by
  induction bs generalizing as s with
  | nil =>
    obtain rfl := Option.some.inj hrun
    rwa [List.append_nil]
  | cons b bs ih =>
    rw [run] at hrun
    split at hrun
    · rename_i hnext
      have hrest := ih (h.step (hguard b List.mem_cons_self s) hnext)
        (fun c hc => hguard c (List.mem_cons_of_mem b hc)) hrun
      rwa [List.append_assoc, List.singleton_append] at hrest
    · cases hrun

theorem Run.of_run {bs : List α} {s' : σ} (hguard : ∀ b ∈ bs, ∀ s, guard s b)
    (hrun : M.run s₀ bs = some s') : M.Run guard s₀ bs s' :=
  Run.nil.prolong hguard hrun

end Machine

end Clib
