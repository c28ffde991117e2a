/- SquirrelGObject/Wrapper/Results
   digest: Engine results delivered to the host as a gboolean: running a file and testing an instance. -/

import SquirrelGObject.Engine.Inspect
import SquirrelGObject.Wrapper.DoFile

set_option autoImplicit false
set_option relaxedAutoImplicit false

namespace SquirrelGObject.Wrapper

open Engine SQVM

def squirrelVmInstanceOf (self : SquirrelVm) (m : Machine) : Machine × Int :=
  let (m, r) := sqInstanceOf self.vm m
  (m, toGboolean r)

/-- The value on top is an instance of the class below it. -/
def IsInstanceOf (self : SquirrelVm) (m : Machine) : Prop :=
  ∃ i c, (m.vms self.vm).stackGet (-1) = .inst i ∧ (m.vms self.vm).stackGet (-2) = .cls c ∧
    Inherits m.classes (m.instances i).cls c

/-- The value on top is an instance and the one below it a class. -/
def InstanceOverClass (self : SquirrelVm) (m : Machine) : Prop :=
  ((m.vms self.vm).stackGet (-1)).type = .inst ∧ ((m.vms self.vm).stackGet (-2)).type = .cls

private theorem squirrelVmDoFile_ne_zero (host : Host) (loader : Loader) (self : SquirrelVm)
    (path : String) (retval printError : Bool) (m : Machine) :
    (squirrelVmDoFile host loader self path retval printError m).2 ≠ 0 := by
  have codes : ∀ r : Int, r = 1 ∨ r = sqError → toGboolean r ≠ 0 := by
    rintro r (rfl | rfl) <;> decide
  change toGboolean (sqstdDofile host.runtime loader self.vm path retval printError
    (sqPushRootTable self.vm m)).2 ≠ 0
  apply codes
  rw [sqstdDofile]
  split
  · exact .inr rfl
  · dsimp only
    split
    · split
      · exact .inl rfl
      · exact .inr rfl
    · exact .inr rfl

private theorem squirrelVmInstanceOf_of_types {self : SquirrelVm} {m : Machine} {i c : Address}
    (inst : (m.vms self.vm).stackGet (-1) = .inst i)
    (cls : (m.vms self.vm).stackGet (-2) = .cls c) :
    (squirrelVmInstanceOf self m).2 ≠ 0 ↔ Inherits m.classes (m.instances i).cls c := by
  rw [← SQInstance.instanceOf_iff]
  rw [squirrelVmInstanceOf, sqInstanceOf, inst, cls]
  change toGboolean (toSQBool (if (m.instances i).instanceOf m.classes c then 1 else 0)) ≠ 0 ↔
    (m.instances i).instanceOf m.classes c = true
  cases (m.instances i).instanceOf m.classes c <;> decide

private theorem squirrelVmInstanceOf_of_other {self : SquirrelVm} {m : Machine}
    (other : ¬ InstanceOverClass self m) : (squirrelVmInstanceOf self m).2 = -1 := by
  rw [InstanceOverClass] at other
  change toGboolean (sqInstanceOf self.vm m).2 = -1
  rw [sqInstanceOf]
  generalize (m.vms self.vm).stackGet (-1) = top at other ⊢
  generalize (m.vms self.vm).stackGet (-2) = below at other ⊢
  cases top with
  | inst i =>
      cases below with
      | cls c => exact absurd ⟨rfl, rfl⟩ other
      | _ => rfl
  | _ => rfl

/-- When a `gboolean` result is right. Running a file answers true on every path, so it is right
exactly when the file was loaded and its script completed; the instance test is right, over
inheritance chains of any length, exactly when it is given an instance and a class. -/
theorem gboolean_results_right_iff (host : Host) (loader : Loader) (self : SquirrelVm)
    (m : Machine) :
    (∀ path retval printError,
      ((squirrelVmDoFile host loader self path retval printError m).2 ≠ 0 ↔
          Completed host loader self path printError m) ↔
        Completed host loader self path printError m) ∧
    (((squirrelVmInstanceOf self m).2 ≠ 0 ↔ IsInstanceOf self m) ↔ InstanceOverClass self m) := by
  constructor
  · intro path retval printError
    have answer := squirrelVmDoFile_ne_zero host loader self path retval printError m
    exact ⟨fun right => right.mp answer, fun complete => iff_of_true answer complete⟩
  · constructor
    · intro right
      by_contra other
      have answer : (squirrelVmInstanceOf self m).2 ≠ 0 := by
        rw [squirrelVmInstanceOf_of_other other]
        decide
      obtain ⟨i, c, inst, cls, -⟩ := right.mp answer
      exact other ⟨by rw [inst]; rfl, by rw [cls]; rfl⟩
    · rintro ⟨instType, clsType⟩
      obtain ⟨i, inst⟩ : ∃ i, (m.vms self.vm).stackGet (-1) = .inst i := by
        cases value : (m.vms self.vm).stackGet (-1) <;> rw [value] at instType <;> cases instType
        exact ⟨_, rfl⟩
      obtain ⟨c, cls⟩ : ∃ c, (m.vms self.vm).stackGet (-2) = .cls c := by
        cases value : (m.vms self.vm).stackGet (-2) <;> rw [value] at clsType <;> cases clsType
        exact ⟨_, rfl⟩
      rw [squirrelVmInstanceOf_of_types inst cls]
      constructor
      · exact fun inherits => ⟨i, c, inst, cls, inherits⟩
      · rintro ⟨i', c', inst', cls', inherits⟩
        rw [inst] at inst'
        rw [cls] at cls'
        cases inst'
        cases cls'
        exact inherits

/-- A missing file and two integers: both answers are true and should be false. -/
theorem gboolean_results_wrong_on_failure :
    ((squirrelVmDoFile quietHost oneScript ⟨0⟩ "other.nut" false false
          (squirrelVmNew 1024 0).1).2 ≠ 0 ∧
        ¬ Completed quietHost oneScript ⟨0⟩ "other.nut" false (squirrelVmNew 1024 0).1) ∧
      (squirrelVmInstanceOf ⟨0⟩
          ((squirrelVmNew 1024 0).1.onVM 0 (pushAll [.integer 1, .integer 2]))).2 ≠ 0 ∧
        ¬ IsInstanceOf ⟨0⟩
          ((squirrelVmNew 1024 0).1.onVM 0 (pushAll [.integer 1, .integer 2])) := by
  refine ⟨⟨by decide, by decide⟩, by decide, ?_⟩
  rintro ⟨i, c, inst, -⟩
  cases inst

end SquirrelGObject.Wrapper
