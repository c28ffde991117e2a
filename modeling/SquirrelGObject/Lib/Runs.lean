/- SquirrelGObject/Lib/Runs
   digest: Runs of a deterministic machine, conditions along a run, and lock-step agreement of two machines. -/

import Mathlib.Data.List.Basic
import Mathlib.Data.List.Forall2
import Mathlib.Logic.Function.Iterate

set_option autoImplicit false
set_option relaxedAutoImplicit false

namespace SquirrelGObject.Lib.Runs

variable {σ τ ι ω ω' : Type*}

def final (step : σ → ι → σ × ω) : σ → List ι → σ
  | s, [] => s
  | s, o :: ops => final step (step s o).1 ops

def outputs (step : σ → ι → σ × ω) : σ → List ι → List ω
  | _, [] => []
  | s, o :: ops => (step s o).2 :: outputs step (step s o).1 ops

/-- A condition on the state before a step and on the step holds at every step of the run. -/
def Along (step : σ → ι → σ × ω) (P : σ → ι → Prop) : σ → List ι → Prop
  | _, [] => True
  | s, o :: ops => P s o ∧ Along step P (step s o).1 ops

@[simp] theorem final_nil (step : σ → ι → σ × ω) (s : σ) : final step s [] = s := rfl

@[simp] theorem final_cons (step : σ → ι → σ × ω) (s : σ) (o : ι) (ops : List ι) :
    final step s (o :: ops) = final step (step s o).1 ops := rfl

@[simp] theorem outputs_nil (step : σ → ι → σ × ω) (s : σ) : outputs step s [] = [] := rfl

@[simp] theorem outputs_cons (step : σ → ι → σ × ω) (s : σ) (o : ι) (ops : List ι) :
    outputs step s (o :: ops) = (step s o).2 :: outputs step (step s o).1 ops := rfl

@[simp] theorem along_nil (step : σ → ι → σ × ω) (P : σ → ι → Prop) (s : σ) :
    Along step P s [] := trivial

@[simp] theorem along_cons (step : σ → ι → σ × ω) (P : σ → ι → Prop) (s : σ) (o : ι)
    (ops : List ι) :
    Along step P s (o :: ops) ↔ P s o ∧ Along step P (step s o).1 ops := Iff.rfl

/-- Repeating a function that lowers a measure whenever it changes anything ends at a fixed
point. -/
theorem iterate_fixed {f : σ → σ} {μ : σ → Nat} (falls : ∀ s, f s ≠ s → μ (f s) < μ s) {n : Nat}
    {s : σ} (enough : μ s ≤ n) : f (f^[n] s) = f^[n] s := by
  induction n generalizing s with
  | zero =>
      by_contra moves
      have fall := falls s moves
      omega
  | succ n ih =>
      rw [Function.iterate_succ_apply]
      by_cases fixed : f s = s
      · rw [fixed, Function.iterate_fixed fixed, fixed]
      · have fall := falls s fixed
        exact ih (by omega)

theorem along_forall (step : σ → ι → σ × ω) (P : ι → Prop) (s : σ) (ops : List ι) :
    Along step (fun _ o => P o) s ops ↔ ∀ o ∈ ops, P o := by
  induction ops generalizing s with
  | nil => simp
  | cons o ops ih => rw [along_cons, ih, List.forall_mem_cons]

/-- Conditional invariance: an invariant that every step meeting the condition keeps, and under
which every such step answers safely, makes all answers of a conditional run safe. -/
theorem safe_outputs {step : σ → ι → σ × ω} {Inv : σ → Prop} {Cond : σ → ι → Prop}
    {Safe : ω → Prop}
    (keeps : ∀ s o, Inv s → Cond s o → Inv (step s o).1)
    (safe : ∀ s o, Inv s → Cond s o → Safe (step s o).2)
    {s : σ} (initial : Inv s) {ops : List ι} (along : Along step Cond s ops) :
    ∀ out ∈ outputs step s ops, Safe out := by
  induction ops generalizing s with
  | nil => simp
  | cons o ops ih =>
      obtain ⟨here, rest⟩ := along
      intro out member
      rcases List.mem_cons.mp member with rfl | later
      · exact safe s o initial here
      · exact ih (keeps s o initial here) rest out later

/-- Simulation: a relation that every admissible step keeps, with answers that agree, is kept by
every run of admissible steps, with answers that agree throughout. -/
private theorem related_along {concrete : σ → ι → σ × ω} {abstract : τ → ι → τ × ω'}
    {R : σ → τ → Prop} {Agree : ω → ω' → Prop} {Admissible : σ → ι → Prop}
    (step : ∀ s t o, R s t → Admissible s o →
      R (concrete s o).1 (abstract t o).1 ∧ Agree (concrete s o).2 (abstract t o).2)
    {s : σ} {t : τ} (related : R s t) {ops : List ι} (along : Along concrete Admissible s ops) :
    R (final concrete s ops) (final abstract t ops) ∧
      List.Forall₂ Agree (outputs concrete s ops) (outputs abstract t ops) := by
  induction ops generalizing s t with
  | nil => exact ⟨related, .nil⟩
  | cons o ops ih =>
      obtain ⟨here, rest⟩ := along
      obtain ⟨kept, alike⟩ := step s t o related here
      obtain ⟨atEnd, agree⟩ := ih kept rest
      exact ⟨atEnd, .cons alike agree⟩

theorem related {concrete : σ → ι → σ × ω} {abstract : τ → ι → τ × ω'} {R : σ → τ → Prop}
    {Agree : ω → ω' → Prop} {Admissible : ι → Prop}
    (step : ∀ s t o, R s t → Admissible o →
      R (concrete s o).1 (abstract t o).1 ∧ Agree (concrete s o).2 (abstract t o).2)
    {s : σ} {t : τ} (related : R s t) {ops : List ι} (admissible : ∀ o ∈ ops, Admissible o) :
    R (final concrete s ops) (final abstract t ops) ∧
      List.Forall₂ Agree (outputs concrete s ops) (outputs abstract t ops) :=
  related_along step related ((along_forall concrete Admissible s ops).mpr admissible)

theorem simulated_along {concrete : σ → ι → σ × ω} {abstract : τ → ι → τ × ω} {R : σ → τ → Prop}
    {Admissible : σ → ι → Prop}
    (step : ∀ s t o, R s t → Admissible s o →
      R (concrete s o).1 (abstract t o).1 ∧ (concrete s o).2 = (abstract t o).2)
    {s : σ} {t : τ} (related : R s t) {ops : List ι} (along : Along concrete Admissible s ops) :
    R (final concrete s ops) (final abstract t ops) ∧
      outputs concrete s ops = outputs abstract t ops := by
  obtain ⟨atEnd, agree⟩ := related_along step related along
  exact ⟨atEnd, List.forall₂_eq_eq_eq ▸ agree⟩

/-- Lock-step comparison of a concrete and an abstract machine. When a good step keeps the
relation and answers alike, and a bad step answers differently at once, the two machines answer
alike along the whole run exactly when every step of it is good. -/
theorem outputs_eq_iff_good {concrete : σ → ι → σ × ω} {abstract : τ → ι → τ × ω}
    {R : σ → τ → Prop} {Admissible Good : τ → ι → Prop}
    (keeps : ∀ s t o, R s t → Admissible t o → Good t o →
      R (concrete s o).1 (abstract t o).1)
    (agrees : ∀ s t o, R s t → Admissible t o → Good t o →
      (concrete s o).2 = (abstract t o).2)
    (differs : ∀ s t o, R s t → Admissible t o → ¬ Good t o →
      (concrete s o).2 ≠ (abstract t o).2)
    {s : σ} {t : τ} (related : R s t) {ops : List ι}
    (admissible : Along abstract Admissible t ops) :
    outputs concrete s ops = outputs abstract t ops ↔ Along abstract Good t ops := by
  induction ops generalizing s t with
  | nil => simp
  | cons o ops ih =>
      obtain ⟨here, rest⟩ := admissible
      rw [outputs_cons, outputs_cons, along_cons, List.cons.injEq]
      by_cases good : Good t o
      · have next := keeps s t o related here good
        rw [ih next rest]
        exact and_congr_left fun _ => iff_of_true (agrees s t o related here good) good
      · have apart := differs s t o related here good
        exact iff_of_false (fun equal => apart equal.1) (fun both => good both.1)

end SquirrelGObject.Lib.Runs
