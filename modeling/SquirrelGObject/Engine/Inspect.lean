/- SquirrelGObject/Engine/Inspect
   digest: Inspection of the engine: instances, member handles, and the call stack with source lines. -/

import Mathlib.Logic.Relation
import SquirrelGObject.Engine.Machine

set_option autoImplicit false
set_option relaxedAutoImplicit false

namespace SquirrelGObject.Engine

instance : Inhabited SQLineInfo := ⟨⟨0, 0⟩⟩

/-- The walk up the chain of base classes in search of one that matches. A base has a smaller
address than the class itself, so the address bounds the walk. -/
def walkBases (heap : ClassHeap) (accepts : Address → Bool) : Nat → Address → Bool
  | 0, _ => false
  | fuel + 1, c =>
      if accepts c then true
      else match (heap.at_ c).base with
        | some b => walkBases heap accepts fuel b
        | none => false

/-- One class is the other or inherits from it, through any number of bases. -/
def Inherits (heap : ClassHeap) : Address → Address → Prop :=
  Relation.ReflTransGen fun c b => (heap.at_ c).base = some b

private theorem walkBases_iff (heap : ClassHeap) (accepts : Address → Bool) {fuel : Nat}
    {c : Address} (enough : c < fuel) :
    walkBases heap accepts fuel c = true ↔ ∃ d, Inherits heap c d ∧ accepts d = true := by
  induction fuel generalizing c with
  | zero => exact absurd enough c.not_lt_zero
  | succ fuel ih =>
      rw [walkBases]
      by_cases here : accepts c = true
      · rw [if_pos here]
        exact iff_of_true rfl ⟨c, Relation.ReflTransGen.refl, here⟩
      · rw [if_neg here]
        cases base : (heap.at_ c).base with
        | none =>
            apply iff_of_false Bool.false_ne_true
            rintro ⟨d, inherits, found⟩
            rcases inherits.cases_head with rfl | ⟨b, step, -⟩
            · exact here found
            · rw [base] at step
              cases step
        | some b =>
            have older := heap.older c b base
            change walkBases heap accepts fuel b = true ↔ _
            rw [ih (Nat.lt_of_lt_of_le older (Nat.lt_succ_iff.mp enough))]
            constructor
            · rintro ⟨d, inherits, found⟩
              exact ⟨d, inherits.head base, found⟩
            · rintro ⟨d, inherits, found⟩
              rcases inherits.cases_head with rfl | ⟨b', step, rest⟩
              · exact absurd found here
              · rw [base] at step
                cases step
                exact ⟨d, rest, found⟩

def SQInstance.instanceOf (heap : ClassHeap) (inst : SQInstance) (trg : Address) : Bool :=
  walkBases heap (fun c => c = trg) (inst.cls + 1) inst.cls

theorem SQInstance.instanceOf_iff (heap : ClassHeap) (inst : SQInstance) (trg : Address) :
    inst.instanceOf heap trg = true ↔ Inherits heap inst.cls trg := by
  rw [SQInstance.instanceOf, walkBases_iff heap _ (Nat.lt_succ_self _)]
  simp

section Api

variable (v : HSQUIRRELVM) (m : Machine)

/-- A value stored in an `SQBool`, which is unsigned and 64 bits wide. -/
def toSQBool (r : Int) : Int := r % UInt64.size

/-- `sq_instanceof`: the error code goes out through the same unsigned result. -/
def sqInstanceOf : Machine × Int :=
  match (m.vms v).stackGet (-1), (m.vms v).stackGet (-2) with
  | .inst i, .cls c => (m, toSQBool (if (m.instances i).instanceOf m.classes c then 1 else 0))
  | _, _ =>
      let (m, r) := sqThrowError v "invalid param type" m
      (m, toSQBool r)

end Api

end SquirrelGObject.Engine
