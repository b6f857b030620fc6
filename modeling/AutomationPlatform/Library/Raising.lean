import Mathlib.Tactic.Common

/-!
# Programs that may raise

`EStateM ε σ α` runs from a state and returns a value or raises an error; either way it leaves a
state. `Spec P m Q E` says of such a program that from a state with `P` it returns with `Q` or
raises with `E`. There is one rule for each way the programs here are put together; the rule of a
loop carries an invariant that knows which entries are done.
-/

namespace Raising

variable {ε σ α β : Type}

/-- From a state with `P` the program returns with `Q` or raises with `E`. -/
def Spec (P : σ → Prop) (m : EStateM ε σ α) (Q : α → σ → Prop) (E : ε → σ → Prop) : Prop :=
  ∀ s, P s →
    match m s with
    | .ok a s' => Q a s'
    | .error e s' => E e s'

variable {P P' : σ → Prop} {Q Q' : α → σ → Prop} {E : ε → σ → Prop} {m : EStateM ε σ α}

theorem Spec.pure {a : α} (h : ∀ s, P s → Q a s) :
    Spec P (Pure.pure a : EStateM ε σ α) Q E := h

theorem Spec.throw {e : ε} (h : ∀ s, P s → E e s) :
    Spec P (MonadExcept.throw e : EStateM ε σ α) Q E := h

theorem Spec.set {s' : σ} {Q : PUnit → σ → Prop} (h : ∀ s, P s → Q ⟨⟩ s') :
    Spec P (MonadStateOf.set s' : EStateM ε σ PUnit) Q E := h

theorem Spec.modify {f : σ → σ} {Q : PUnit → σ → Prop} (h : ∀ s, P s → Q ⟨⟩ (f s)) :
    Spec P (modifyGet (fun s => (⟨⟩, f s)) : EStateM ε σ PUnit) Q E := h

/-- Reading the state: what follows may use what is known of it. -/
theorem Spec.get_bind {f : σ → EStateM ε σ β} {R : β → σ → Prop}
    (h : ∀ s, P s → Spec (fun s' => s' = s) (f s) R E) : Spec P (get >>= f) R E :=
  fun s hs => h s hs s rfl

theorem Spec.bind {f : α → EStateM ε σ β} {R : β → σ → Prop} (hm : Spec P m Q E)
    (hf : ∀ a, Spec (Q a) (f a) R E) : Spec P (m >>= f) R E := by
  intro s hs
  have h := hm s hs
  show match EStateM.bind m f s with
    | .ok a s' => R a s'
    | .error e s' => E e s'
  unfold EStateM.bind
  cases hr : m s with
  | ok a s' =>
      rw [hr] at h
      exact hf a s' h
  | error e s' =>
      rw [hr] at h
      exact h

/-- A handler runs from the state the error left. -/
theorem Spec.tryCatch {h : ε → EStateM ε σ α} {D : ε → σ → Prop} (hm : Spec P m Q D)
    (hh : ∀ e, Spec (D e) (h e) Q E) : Spec P (MonadExcept.tryCatch m h) Q E := by
  intro s hs
  have hr := hm s hs
  show match EStateM.tryCatch m h s with
    | .ok a s' => Q a s'
    | .error e s' => E e s'
  unfold EStateM.tryCatch
  cases hms : m s with
  | ok a s' =>
      rw [hms] at hr
      exact hr
  | error e s' =>
      rw [hms] at hr
      exact hh e s' hr

/-- **Consequence.** -/
theorem Spec.imp (hm : Spec P m Q E) (hP : ∀ s, P' s → P s) (hQ : ∀ a s, Q a s → Q' a s) :
    Spec P' m Q' E := by
  intro s hs
  have h := hm s (hP s hs)
  split
  · rename_i a s' hr
    rw [hr] at h
    exact hQ a s' h
  · rename_i e s' hr
    rw [hr] at h
    exact h

/-- A weaker error postcondition. -/
theorem Spec.weaken {E' : ε → σ → Prop} (hm : Spec P m Q E) (hE : ∀ e s, E e s → E' e s) :
    Spec P m Q E' := by
  intro s hs
  have h := hm s hs
  split
  · rename_i a s' hr
    rw [hr] at h
    exact h
  · rename_i e s' hr
    rw [hr] at h
    exact hE e s' h

/-- A precondition that says something besides the state. -/
theorem Spec.fact {p : Prop} (h : p → Spec P m Q E) : Spec (fun s => p ∧ P s) m Q E :=
  fun s hs => h hs.1 s hs.2

/-- A precondition with two cases. -/
theorem Spec.or (h : Spec P m Q E) (h' : Spec P' m Q E) : Spec (fun s => P s ∨ P' s) m Q E :=
  fun s hs => hs.elim (h s) (h' s)

/-- A precondition with a ghost value. -/
theorem Spec.exists {ι : Type} {P : ι → σ → Prop} (h : ∀ i, Spec (P i) m Q E) :
    Spec (fun s => ∃ i, P i s) m Q E :=
  fun s ⟨i, hs⟩ => h i s hs

/-- What is known of the state at the start may be used afterwards. -/
theorem Spec.of_eq (h : ∀ s, P s → Spec (fun s' => s' = s) m Q E) : Spec P m Q E :=
  fun s hs => h s hs s rfl

/-- **The loop rule**: `I done b` holds when the entries `done` are through. -/
theorem Spec.foldlM {I : List α → β → σ → Prop} {f : β → α → EStateM ε σ β} {xs : List α}
    (hstep : ∀ done x rest b, xs = done ++ x :: rest →
      Spec (I done b) (f b x) (I (done ++ [x])) E) (b : β) :
    Spec (I [] b) (xs.foldlM f b) (I xs) E := by
  have hfrom : ∀ rest done b, xs = done ++ rest → Spec (I done b) (rest.foldlM f b) (I xs) E := by
    intro rest
    induction rest with
    | nil =>
        intro done b e
        rw [List.append_nil] at e
        subst e
        exact Spec.pure fun _ hs => hs
    | cons x rest ih =>
        intro done b e
        rw [List.foldlM_cons]
        exact (hstep done x rest b e).bind fun b' => ih (done ++ [x]) b' (by simp [e])
  exact hfrom xs [] b rfl

theorem Spec.forM {I : List α → σ → Prop} {f : α → EStateM ε σ PUnit} {xs : List α}
    (hstep : ∀ done x rest, xs = done ++ x :: rest →
      Spec (I done) (f x) (fun _ => I (done ++ [x])) E) :
    Spec (I []) (xs.forM f) (fun _ => I xs) E := by
  have hfrom : ∀ rest done, xs = done ++ rest → Spec (I done) (rest.forM f) (fun _ => I xs) E := by
    intro rest
    induction rest with
    | nil =>
        intro done e
        rw [List.append_nil] at e
        subst e
        exact Spec.pure fun _ hs => hs
    | cons x rest ih =>
        intro done e
        exact (hstep done x rest e).bind fun _ => ih (done ++ [x]) (by simp [e])
  exact hfrom xs [] rfl

end Raising
