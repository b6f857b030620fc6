import Mathlib.Logic.Relation
import Mathlib.Tactic.Common

/-!
# Runs of a total step function

A system whose every action is answered (an action that is refused leaves the state alone) runs as
a left fold of its step function. This file has the rules such a system is reasoned with.

* `run_invariant`: what every step keeps holds in every state a run reaches;
* `run_rel`: a reflexive and transitive relation that every step whose condition is met establishes
  relates any two states of the run, earlier to later. The condition `Meets P s as` speaks about
  each action at the state it is taken in.
* `run_filter`: a relation that some actions keep on one side and the others on both relates a run
  to the run without the former.
-/

namespace Runs

variable {σ α : Type}

/-- The state after the actions `as`. -/
def run (step : σ → α → σ) (s : σ) (as : List α) : σ := as.foldl step s

/-- `P` holds of every action of the run at the state the action is taken in. -/
def Meets (step : σ → α → σ) (P : σ → α → Prop) : σ → List α → Prop
  | _, [] => True
  | s, a :: as => P s a ∧ Meets step P (step s a) as

variable {step : σ → α → σ}

@[simp] theorem run_nil (s : σ) : run step s [] = s := rfl

@[simp] theorem run_cons (s : σ) (a : α) (as : List α) :
    run step s (a :: as) = run step (step s a) as := rfl

theorem run_append (s : σ) (as bs : List α) :
    run step s (as ++ bs) = run step (run step s as) bs := List.foldl_append

theorem run_append_singleton (s : σ) (as : List α) (a : α) :
    run step s (as ++ [a]) = step (run step s as) a := by
  rw [run_append]
  rfl

theorem meets_append {P : σ → α → Prop} {s : σ} {as bs : List α} :
    Meets step P s (as ++ bs) ↔ Meets step P s as ∧ Meets step P (run step s as) bs := by
  induction as generalizing s with
  | nil => simp [Meets]
  | cons a as ih => simp only [List.cons_append, Meets, ih, run_cons, and_assoc]

theorem meets_of_forall {P : σ → α → Prop} {s : σ} {as : List α} (h : ∀ s, ∀ a ∈ as, P s a) :
    Meets step P s as := by
  induction as generalizing s with
  | nil => trivial
  | cons a as ih =>
      exact ⟨h s a List.mem_cons_self, ih fun s b hb => h s b (List.mem_cons_of_mem a hb)⟩

/-- **The invariant rule.** -/
theorem run_invariant {I : σ → Prop} (hstep : ∀ s a, I s → I (step s a)) {s : σ} (h : I s)
    (as : List α) : I (run step s as) := by
  induction as generalizing s with
  | nil => exact h
  | cons a as ih => exact ih (hstep s a h)

/-- **The two-state rule.** -/
theorem run_rel {P : σ → α → Prop} {R : σ → σ → Prop} (hrefl : ∀ s, R s s)
    (htrans : ∀ a b c, R a b → R b c → R a c) (hstep : ∀ s a, P s a → R s (step s a)) {s : σ}
    {as : List α} (h : Meets step P s as) : R s (run step s as) := by
  induction as generalizing s with
  | nil => exact hrefl s
  | cons a as ih => exact htrans _ _ _ (hstep s a h.1) (ih h.2)

/-- **The two-run rule.** -/
theorem run_filter {P : σ → α → Prop} {R : σ → σ → Prop} {p : α → Bool}
    (hdrop : ∀ s s' a, R s s' → p a = false → R (step s a) s')
    (hkeep : ∀ s s' a, R s s' → p a = true → P s a → R (step s a) (step s' a)) {s s' : σ}
    (h : R s s') {as : List α} (hmeets : Meets step P s as) :
    R (run step s as) (run step s' (as.filter p)) := by
  induction as generalizing s s' with
  | nil => exact h
  | cons a as ih =>
      obtain ⟨ha, hrest⟩ := hmeets
      cases hp : p a with
      | true =>
          rw [List.filter_cons_of_pos hp]
          exact ih (hkeep s s' a h hp ha) hrest
      | false =>
          rw [List.filter_cons_of_neg (by rw [hp]; simp)]
          exact ih (hdrop s s' a h hp) hrest

end Runs
