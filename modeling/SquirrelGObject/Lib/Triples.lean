/- SquirrelGObject/Lib/Triples
   digest: Pre- and postconditions for programs that keep their state when they fail. -/

import Mathlib.Logic.Basic

set_option autoImplicit false
set_option relaxedAutoImplicit false

namespace SquirrelGObject.Lib.Triples

variable {ε σ α β : Type}

/-- From a state with the precondition the program ends in the postcondition of its result, or
fails in that of its error. -/
def Triple (P : σ → Prop) (x : EStateM ε σ α) (Q : α → σ → Prop) (E : ε → σ → Prop) : Prop :=
  ∀ s, P s → match x s with
    | .ok a s' => Q a s'
    | .error e s' => E e s'

variable {P P' : σ → Prop} {Q Q' : α → σ → Prop} {E E' : ε → σ → Prop} {R : β → σ → Prop}
  {x : EStateM ε σ α} {f : α → EStateM ε σ β}

theorem Triple.of_ok (triple : Triple P x Q E) {s s' : σ} {a : α} (holds : P s)
    (result : x s = .ok a s') : Q a s' := by
  have after := triple s holds
  rwa [result] at after

theorem Triple.of_error (triple : Triple P x Q E) {s s' : σ} {e : ε} (holds : P s)
    (result : x s = .error e s') : E e s' := by
  have after := triple s holds
  rwa [result] at after

theorem Triple.succeeds (triple : Triple P x Q fun _ _ => False) {s : σ} (holds : P s) :
    ∃ a s', x s = .ok a s' ∧ Q a s' := by
  cases result : x s with
  | ok a s' => exact ⟨a, s', rfl, triple.of_ok holds result⟩
  | error e s' => exact (triple.of_error holds result).elim

theorem Triple.weaken (triple : Triple P x Q E) (pre : ∀ s, P' s → P s)
    (post : ∀ a s, Q a s → Q' a s) (err : ∀ e s, E e s → E' e s) : Triple P' x Q' E' := by
  intro s holds
  have before := triple s (pre s holds)
  cases result : x s with
  | ok a s' =>
      rw [result] at before
      exact post a s' before
  | error e s' =>
      rw [result] at before
      exact err e s' before

theorem triple_pure {a : α} (holds : ∀ s, P s → Q a s) : Triple P (pure a : EStateM ε σ α) Q E :=
  holds

theorem triple_throw {e : ε} (holds : ∀ s, P s → E e s) :
    Triple P (throw e : EStateM ε σ α) Q E := holds

theorem Triple.bind (first : Triple P x Q E) (second : ∀ a, Triple (Q a) (f a) R E) :
    Triple P (x >>= f) R E := by
  intro s holds
  have after := first s holds
  change match EStateM.bind x f s with
    | .ok a s' => R a s'
    | .error e s' => E e s'
  cases result : x s with
  | ok a s' =>
      rw [result] at after
      simp only [EStateM.bind, result]
      exact second a s' after
  | error e s' =>
      rw [result] at after
      simp only [EStateM.bind, result]
      exact after

theorem Triple.stops (first : Triple P x (fun _ _ => False) E) : Triple P (x >>= f) R E :=
  first.bind fun _ _ never => never.elim

theorem triple_modify {g : σ → σ} {Q : PUnit → σ → Prop} (holds : ∀ s, P s → Q ⟨⟩ (g s)) :
    Triple P (modify g : EStateM ε σ PUnit) Q E := holds

end SquirrelGObject.Lib.Triples
