/- SquirrelGObject/Engine/PinCounts
   digest: Tables that store exactly the objects with a positive count. -/

import SquirrelGObject.Engine.RefTableSpec

set_option autoImplicit false
set_option relaxedAutoImplicit false

namespace SquirrelGObject.Engine.RefTable

variable {α : Type} {hash : α → Nat} {t : RefTable α} {c : α → Nat}

/-- The table stores an object exactly when its count is positive, with that count. -/
def Exact (hash : α → Nat) (t : RefTable α) (c : α → Nat) : Prop :=
  Rep hash t (fun o => c o ≠ 0) c

theorem init_exact : Exact hash (init : RefTable α) fun _ => 0 := by
  have empty : Rep hash (init : RefTable α) (fun _ => False) fun _ => 0 :=
    allocNodes_rep (by decide) []
  simpa only [Exact, ne_eq, not_true_eq_false] using empty

theorem Exact.pinned (exact : Exact hash t c) (o : α) : o ∈ t.pinned ↔ c o ≠ 0 :=
  pinned_iff exact o

variable [DecidableEq α]

theorem Exact.addRef (exact : Exact hash t c) (o : α) :
    Exact hash (t.addRef hash o) (Function.update c o (c o + 1)) ∧
      (t.addRef hash o).failed = t.failed := by
  obtain ⟨rep, failed⟩ := addRef_spec exact (fun _ here => here) o
  have same : (fun x => c x ≠ 0 ∨ x = o) = fun x => Function.update c o (c o + 1) x ≠ 0 := by
    funext x
    by_cases here : x = o
    · subst here
      simp
    · simp [here]
  rw [same] at rep
  exact ⟨rep, failed⟩

theorem Exact.release (exact : Exact hash t c) {o : α} (positive : c o ≠ 0) :
    (t.release hash o).2 = decide (c o = 1) ∧
      Exact hash (t.release hash o).1 (Function.update c o (c o - 1)) ∧
      (t.release hash o).1.failed = t.failed := by
  obtain ⟨last, rep, failed⟩ := release_spec exact positive positive
  have same : (fun x => c x ≠ 0 ∧ (x ≠ o ∨ c o ≠ 1)) =
      fun x => Function.update c o (c o - 1) x ≠ 0 := by
    funext x
    by_cases here : x = o
    · subst here
      simp only [ne_eq, not_true_eq_false, false_or, Function.update_self, eq_iff_iff]
      omega
    · simp [here]
  rw [same] at rep
  exact ⟨last, rep, failed⟩

theorem Exact.get (exact : Exact hash t c) (o : α) :
    (t.get hash o false).ref.isSome = true ↔ c o ≠ 0 :=
  get_isSome_iff exact o

theorem Exact.getRefCount (exact : Exact hash t c) {o : α} (positive : c o ≠ 0) :
    (t.getRefCount hash o).2 = c o ∧ Exact hash (t.getRefCount hash o).1 c ∧
      (t.getRefCount hash o).1.failed = t.failed := by
  obtain ⟨count, rep, failed⟩ := getRefCount_spec exact (fun _ here => here) o
  have same : (fun x => c x ≠ 0 ∨ x = o) = fun x => c x ≠ 0 := by
    funext x
    exact propext (or_iff_left_of_imp fun here => here ▸ positive)
  rw [same] at rep
  exact ⟨count, rep, failed⟩

theorem Exact.getRefCount_pins (exact : Exact hash t c) (o : α) :
    o ∈ (t.getRefCount hash o).1.pinned := by
  obtain ⟨-, rep, -⟩ := getRefCount_spec exact (fun _ here => here) o
  exact (pinned_iff rep o).mpr (.inr rfl)

end SquirrelGObject.Engine.RefTable
