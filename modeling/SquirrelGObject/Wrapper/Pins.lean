/- SquirrelGObject/Wrapper/Pins
   digest: Pins held by the host: counts over whole runs of pinning, unpinning, asking and making closures. -/

import Mathlib.Data.Set.Basic
import SquirrelGObject.Engine.PinCounts
import SquirrelGObject.Lib.Runs
import SquirrelGObject.Wrapper.Closure

set_option autoImplicit false
set_option relaxedAutoImplicit false

namespace SquirrelGObject.Wrapper

open Engine SQVM Lib.Runs RefTable

structure SquirrelObj where
  hsqObj : SQObject
  deriving DecidableEq

def squirrelVmAddRef (po : SquirrelObj) (m : Machine) : Machine := sqAddRef po.hsqObj m

def squirrelVmRelease (po : SquirrelObj) (m : Machine) : Machine × Bool := sqRelease po.hsqObj m

def squirrelVmGetRefCount (po : SquirrelObj) (m : Machine) : Machine × Nat :=
  sqGetRefCount po.hsqObj m

def squirrelVmPushObject (self : SquirrelVm) (obj : SquirrelObj) (m : Machine) : Machine :=
  sqPushObject self.vm obj.hsqObj m

inductive PinOp where
  | addRef (po : SquirrelObj)
  | release (po : SquirrelObj)
  | getRefCount (po : SquirrelObj)
  | pushObject (self : SquirrelVm) (obj : SquirrelObj)
  | newClosure (self : SquirrelVm) (c : SquirrelFunction) (userData : Gpointer) (nfreevars : Nat)

inductive PinReply where
  | done
  | released (last : Bool)
  | count (n : Nat)
  deriving DecidableEq

def PinOp.exec (m : Machine) : PinOp → Machine × PinReply
  | addRef po => (squirrelVmAddRef po m, .done)
  | release po =>
      let (m, last) := squirrelVmRelease po m
      (m, .released last)
  | getRefCount po =>
      let (m, n) := squirrelVmGetRefCount po m
      (m, .count n)
  | pushObject self obj => (squirrelVmPushObject self obj m, .done)
  | newClosure self c userData nfreevars =>
      (squirrelVmNewClosure self c userData nfreevars m, .done)

/-- What can be seen of the pins after a call: its answer, the objects the table holds, and the
assertions that have failed so far. -/
structure PinView where
  reply : PinReply
  pinned : Set SQObject
  failed : List RefFault

def pinStep (m : Machine) (op : PinOp) : Machine × PinView :=
  ((op.exec m).1,
    ⟨(op.exec m).2, { o | o ∈ (op.exec m).1.refsTable.pinned }, (op.exec m).1.refsTable.failed⟩)

def countPins (c : SQObject → Nat) : PinOp → (SQObject → Nat) × PinReply
  | .addRef po => (Function.update c po.hsqObj (c po.hsqObj + 1), .done)
  | .release po =>
      (Function.update c po.hsqObj (c po.hsqObj - 1), .released (decide (c po.hsqObj = 1)))
  | .getRefCount po => (c, .count (c po.hsqObj))
  | .pushObject _ _ | .newClosure _ _ _ _ => (c, .done)

def countStep (c : SQObject → Nat) (op : PinOp) : (SQObject → Nat) × PinView :=
  ((countPins c op).1, ⟨(countPins c op).2, { o | (countPins c op).1 o ≠ 0 }, []⟩)

/-- Calls on reference-counted objects, and no release without a pin. -/
def PinOp.Admissible (c : SQObject → Nat) : PinOp → Prop
  | addRef po | getRefCount po => po.hsqObj.isRefCounted = true
  | release po => po.hsqObj.isRefCounted = true ∧ c po.hsqObj ≠ 0
  | _ => True

/-- The call does not ask for the count of an object that has no pin. -/
def PinOp.AsksPinned (c : SQObject → Nat) : PinOp → Prop
  | getRefCount po => c po.hsqObj ≠ 0
  | _ => True

/-- The pin table of the machine holds these counts and no assertion has failed. -/
structure HoldsCounts (m : Machine) (c : SQObject → Nat) : Prop where
  exact : Exact SQObject.hashObj m.refsTable c
  sound : m.refsTable.failed = []

section Shuffle

variable {t : RefTable SQObject} {c : SQObject → Nat}

def addPin (c : SQObject → Nat) (o : SQObject) : SQObject → Nat :=
  if o.isRefCounted then Function.update c o (c o + 1) else c

theorem pin_exact (exact : Exact SQObject.hashObj t c) (o : SQObject) :
    Exact SQObject.hashObj (pin t o) (addPin c o) ∧ (pin t o).failed = t.failed := by
  rw [pin, addPin]
  by_cases counted : o.isRefCounted = true
  · rw [if_pos counted, if_pos counted]
    exact exact.addRef o
  · rw [if_neg counted, if_neg counted]
    exact ⟨exact, rfl⟩

theorem unpin_exact {o : SQObject} (exact : Exact SQObject.hashObj t (addPin c o)) :
    Exact SQObject.hashObj (unpin t o) c ∧ (unpin t o).failed = t.failed := by
  rw [unpin]
  rw [addPin] at exact
  by_cases counted : o.isRefCounted = true
  · rw [if_pos counted] at exact ⊢
    obtain ⟨-, released, failed⟩ := exact.release (o := o) (by simp)
    simp only [Function.update_self, Nat.add_sub_cancel, Function.update_idem,
      Function.update_eq_self] at released
    exact ⟨released, failed⟩
  · rw [if_neg counted] at exact ⊢
    exact ⟨exact, rfl⟩

/-- Pinning a list of values and unpinning it from its end leaves every count as it was, also
when the table is resized on the way. -/
theorem pins_restored (exact : Exact SQObject.hashObj t c) (l : List SQObject) :
    Exact SQObject.hashObj (l.reverse.foldl unpin (l.foldl pin t)) c ∧
      (l.reverse.foldl unpin (l.foldl pin t)).failed = t.failed := by
  induction l generalizing t c with
  | nil => exact ⟨exact, rfl⟩
  | cons o rest ih =>
      obtain ⟨pinned, failed⟩ := pin_exact exact o
      obtain ⟨inner, innerFailed⟩ := ih pinned
      obtain ⟨outer, outerFailed⟩ := unpin_exact inner
      rw [List.foldl_cons, List.reverse_cons, List.foldl_append, List.foldl_cons, List.foldl_nil]
      exact ⟨outer, outerFailed.trans (innerFailed.trans failed)⟩

end Shuffle

/-- Every admissible call except a question about an object without pins keeps the counts and
answers by them. -/
theorem HoldsCounts.step {m : Machine} {c : SQObject → Nat} (holds : HoldsCounts m c) {op : PinOp}
    (admissible : op.Admissible c) (asks : op.AsksPinned c) :
    HoldsCounts (op.exec m).1 (countPins c op).1 ∧ (op.exec m).2 = (countPins c op).2 := by
  cases op with
  | addRef po =>
      have counted : po.hsqObj.isRefCounted = true := admissible
      obtain ⟨exact, failed⟩ := holds.exact.addRef po.hsqObj
      simp only [PinOp.exec, squirrelVmAddRef, sqAddRef, countPins]
      rw [if_pos counted]
      exact ⟨⟨exact, failed.trans holds.sound⟩, trivial⟩
  | release po =>
      obtain ⟨counted, positive⟩ := admissible
      obtain ⟨last, exact, failed⟩ := holds.exact.release positive
      simp only [PinOp.exec, squirrelVmRelease, sqRelease, countPins]
      rw [if_pos counted]
      exact ⟨⟨exact, failed.trans holds.sound⟩, congrArg PinReply.released last⟩
  | getRefCount po =>
      have counted : po.hsqObj.isRefCounted = true := admissible
      obtain ⟨count, exact, failed⟩ := holds.exact.getRefCount asks
      simp only [PinOp.exec, squirrelVmGetRefCount, sqGetRefCount, countPins]
      rw [if_pos counted]
      exact ⟨⟨exact, failed.trans holds.sound⟩, congrArg PinReply.count count⟩
  | pushObject self obj => exact ⟨⟨holds.exact, holds.sound⟩, rfl⟩
  | newClosure self f userData n =>
      obtain ⟨exact, failed⟩ := pins_restored holds.exact ((m.vms self.vm).popped n)
      simp only [PinOp.exec, countPins]
      rw [squirrelVmNewClosure_eq]
      exact ⟨⟨exact, failed.trans holds.sound⟩, trivial⟩

private theorem HoldsCounts.view {m : Machine} {c : SQObject → Nat} (holds : HoldsCounts m c)
    (reply : PinReply) :
    (⟨reply, { o | o ∈ m.refsTable.pinned }, m.refsTable.failed⟩ : PinView) =
      ⟨reply, { o | c o ≠ 0 }, []⟩ := by
  congr 1
  · ext o
    exact holds.exact.pinned o
  · exact holds.sound

private theorem HoldsCounts.question_pins {m : Machine} {c : SQObject → Nat}
    (holds : HoldsCounts m c)
    {op : PinOp} (admissible : op.Admissible c) (asks : ¬ op.AsksPinned c) :
    (pinStep m op).2 ≠ (countStep c op).2 := by
  cases op with
  | getRefCount po =>
      have unpinned : c po.hsqObj = 0 := not_not.mp asks
      have counted : po.hsqObj.isRefCounted = true := admissible
      intro equal
      have sets := congrArg PinView.pinned equal
      have member : po.hsqObj ∈ (pinStep m (.getRefCount po)).2.pinned := by
        simp only [pinStep, PinOp.exec, squirrelVmGetRefCount, sqGetRefCount]
        rw [if_pos counted]
        exact holds.exact.getRefCount_pins po.hsqObj
      rw [sets] at member
      exact member unpinned
  | _ => exact absurd trivial asks

/-- Pin counts are exact over a whole run, in every answer, in the set of pinned objects and
without a failed assertion, exactly when no call of the run asks for the count of an object that
has no pin at that time. -/
theorem pin_runs_exact_iff {m : Machine} (fresh : m.refsTable = RefTable.init) {ops : List PinOp}
    (admissible : Along countStep PinOp.Admissible (fun _ => 0) ops) :
    outputs pinStep m ops = outputs countStep (fun _ => 0) ops ↔
      Along countStep PinOp.AsksPinned (fun _ => 0) ops := by
  have start : HoldsCounts m fun _ => 0 := by
    refine ⟨?_, ?_⟩ <;> rw [fresh]
    · exact init_exact
    · rfl
  refine outputs_eq_iff_good ?_ ?_ ?_ start admissible
  · intro m c op holds admissible asks
    exact (holds.step admissible asks).1
  · intro m c op holds admissible asks
    obtain ⟨next, reply⟩ := holds.step admissible asks
    change (⟨_, _, _⟩ : PinView) = ⟨_, _, _⟩
    rw [next.view, reply]
  · intro m c op holds admissible asks
    exact holds.question_pins admissible asks

/-- The root table pinned twice, asked about, and unpinned around a new closure. -/
theorem pin_runs_exact_on_root_table :
    outputs pinStep (squirrelVmNew 1024 0).1
        [.addRef ⟨.table 0⟩, .addRef ⟨.table 0⟩, .getRefCount ⟨.table 0⟩,
          .pushObject ⟨0⟩ ⟨.table 0⟩, .newClosure ⟨0⟩ 7 0 1, .release ⟨.table 0⟩] =
      outputs countStep (fun _ => 0)
        [.addRef ⟨.table 0⟩, .addRef ⟨.table 0⟩, .getRefCount ⟨.table 0⟩,
          .pushObject ⟨0⟩ ⟨.table 0⟩, .newClosure ⟨0⟩ 7 0 1, .release ⟨.table 0⟩] := by
  have pinned : (2 : Nat) ≠ 0 := by decide
  have admissible : Along countStep PinOp.Admissible (fun _ => 0)
      [.addRef ⟨.table 0⟩, .addRef ⟨.table 0⟩, .getRefCount ⟨.table 0⟩,
        .pushObject ⟨0⟩ ⟨.table 0⟩, .newClosure ⟨0⟩ 7 0 1, .release ⟨.table 0⟩] :=
    ⟨rfl, rfl, rfl, trivial, trivial, ⟨rfl, pinned⟩, trivial⟩
  exact (pin_runs_exact_iff rfl admissible).mpr
    ⟨trivial, trivial, pinned, trivial, trivial, trivial, trivial⟩

/-- One question about an object without pins leaves it in the table, and after four of them the
next pin resizes a table whose counts are zero. -/
theorem question_without_pin_breaks_table :
    outputs pinStep (squirrelVmNew 1024 0).1 [.getRefCount ⟨.table 0⟩] ≠
        outputs countStep (fun _ => 0) [.getRefCount ⟨.table 0⟩] ∧
      (final pinStep (squirrelVmNew 1024 0).1
        [.getRefCount ⟨.table 0⟩, .getRefCount ⟨.table 1⟩, .getRefCount ⟨.table 2⟩,
          .getRefCount ⟨.table 3⟩, .addRef ⟨.table 4⟩]).refsTable.failed ≠ [] := by
  refine ⟨?_, by decide⟩
  intro equal
  have sets := congrArg PinView.pinned (List.cons.inj equal).1
  have member : SQObject.table 0 ∈
      (pinStep (squirrelVmNew 1024 0).1 (.getRefCount ⟨.table 0⟩)).2.pinned := by
    change SQObject.table 0 ∈ ((PinOp.getRefCount ⟨.table 0⟩).exec
      (squirrelVmNew 1024 0).1).1.refsTable.pinned
    decide
  rw [sets] at member
  exact member rfl

end SquirrelGObject.Wrapper
