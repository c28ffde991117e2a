/- SquirrelGObject/Wrapper/FreeVariables
   digest: The free variables of host closures and their clones, compared with vectors of the declared length. -/

import SquirrelGObject.Lib.Runs
import SquirrelGObject.Wrapper.Closure

set_option autoImplicit false
set_option relaxedAutoImplicit false

namespace SquirrelGObject.Wrapper

open Engine SQVM Lib.Window Lib.Runs

/-- Calls on one VM: host pushes and pops, and the free-variable interface. -/
inductive VarOp where
  | push (o : SQObject)
  | pop (sz : Nat)
  | getClosureInfo (idx : Int)
  | getFreeVariable (idx : Int) (nval : Nat)
  | setFreeVariable (idx : Int) (nval : Nat)
  | bindEnv (idx : Int)

inductive VarReply where
  | done
  | info (result : Int) (nfreevars : Option Nat)
  | name (s : CString)
  | result (r : Int)
  deriving DecidableEq

def VarOp.exec (self : SquirrelVm) (m : Machine) : VarOp → Machine × VarReply
  | push o => (m.push self.vm o, .done)
  | pop sz => (sqPop self.vm sz m, .done)
  | getClosureInfo idx =>
      let (m, r, words) := squirrelVmGetClosureInfo self idx m
      (m, .info r (words.map Prod.snd))
  | getFreeVariable idx nval =>
      let (m, name) := squirrelVmGetFreeVariable self idx nval m
      (m, .name name)
  | setFreeVariable idx nval =>
      let (m, r) := squirrelVmSetFreeVariable self idx nval m
      (m, .result r)
  | bindEnv idx =>
      let (m, r) := squirrelVmBindEnv self idx m
      (m, .result r)

def varStep (self : SquirrelVm) (m : Machine) (op : VarOp) :
    Machine × VarReply × List SQObject :=
  ((op.exec self m).1, (op.exec self m).2, ((op.exec self m).1.vms self.vm).visible)

/-- The vector model: one vector per closure, the stack, and where the engine puts the next
object. -/
structure Vectors where
  of : Address → Option (List SQObject)
  stack : List SQObject
  next : Address
  weak : SQObject → Option Address

namespace Vectors

def at_ (t : Vectors) (idx : Int) : List SQObject :=
  match at? t.stack idx with
  | some (.nativeclosure a) => (t.of a).getD []
  | _ => []

def store (t : Vectors) (idx : Int) (nval : Nat) (o : SQObject) : Vectors :=
  match at? t.stack idx with
  | some (.nativeclosure a) =>
      { t with of := Function.update t.of a ((t.of a).map fun xs => xs.set nval o) }
  | _ => t

def reserve (t : Vectors) (env : SQObject) : Vectors :=
  match t.weak env with
  | some _ => t
  | none => { t with next := t.next + 1, weak := Function.update t.weak env (some t.next) }

def clone (t : Vectors) (xs : List SQObject) (env : SQObject) : Vectors :=
  let r := t.reserve env
  { r with
    of := Function.update r.of r.next (some xs)
    next := r.next + 1
    stack := r.stack.dropLast ++ [.nativeclosure r.next] }

def top (t : Vectors) : SQObject := t.stack.getLast?.getD .null

def apply (t : Vectors) : VarOp → Vectors × VarReply
  | .push o => ({ t with stack := t.stack ++ [o] }, .done)
  | .pop sz => ({ t with stack := t.stack.take (t.stack.length - sz) }, .done)
  | .getClosureInfo idx => (t, .info sqOk (some (t.at_ idx).length))
  | .getFreeVariable idx nval =>
      match (t.at_ idx)[nval]? with
      | some o => ({ t with stack := t.stack ++ [o] }, .name (.text "@NATIVE"))
      | none => (t, .name .null)
  | .setFreeVariable idx nval =>
      if nval < (t.at_ idx).length then
        ({ t.store idx nval t.top with stack := t.stack.dropLast }, .result sqOk)
      else (t, .result sqError)
  | .bindEnv idx =>
      if isEnvironment t.top then (t.clone (t.at_ idx) t.top, .result sqOk)
      else (t, .result sqError)

def step (t : Vectors) (op : VarOp) : Vectors × VarReply × List SQObject :=
  ((t.apply op).1, (t.apply op).2, (t.apply op).1.stack)

/-- The index names a tracked closure on the stack. -/
def Names (t : Vectors) (idx : Int) : Prop :=
  InRange t.stack.length idx ∧ ∃ a xs, at? t.stack idx = some (.nativeclosure a) ∧ t.of a = some xs

def Admits (t : Vectors) : VarOp → Prop
  | .push _ => True
  | .pop sz => sz ≤ t.stack.length
  | .getClosureInfo idx | .getFreeVariable idx _ | .setFreeVariable idx _ | .bindEnv idx =>
      t.Names idx

end Vectors

/-- A call that reaches the hidden variable behind `n` declared ones. -/
def VarOp.ReachesHidden (n : Nat) : VarOp → Prop
  | getClosureInfo _ => True
  | getFreeVariable _ nval | setFreeVariable _ nval => nval = n
  | _ => False

/-- The machine holds the vectors: each closure has one more outer value, the pointer. -/
structure HoldsVectors (vm : SquirrelVm) (n : Nat) (m : Machine) (t : Vectors) : Prop where
  frame : (m.vms vm.vm).Frame t.stack
  closure : ∀ a xs, t.of a = some xs → xs.length = n ∧ a < t.next ∧
    ∃ p, (m.nativeClosures a).outervalues = xs ++ [.userpointer p]
  next : m.nextObject = t.next
  weak : m.weakRefOf = t.weak

section Steps

variable {self : SquirrelVm} {n : Nat} {m : Machine} {t : Vectors}

private theorem HoldsVectors.named (holds : HoldsVectors self n m t) {idx : Int}
    (names : t.Names idx) :
    ∃ a xs p, (m.vms self.vm).stackGet idx = .nativeclosure a ∧ t.of a = some xs ∧
      t.at_ idx = xs ∧ at? t.stack idx = some (.nativeclosure a) ∧ xs.length = n ∧
      (m.nativeClosures a).outervalues = xs ++ [.userpointer p] := by
  obtain ⟨inside, a, xs, here, vec⟩ := names
  obtain ⟨length, -, p, outers⟩ := holds.closure a xs vec
  have value := holds.frame.stackGet inside
  rw [here] at value
  refine ⟨a, xs, p, (Option.some.inj value).symm, vec, ?_, here, length, outers⟩
  rw [Vectors.at_, here]
  change (t.of a).getD [] = xs
  rw [vec]
  rfl

theorem HoldsVectors.top (holds : HoldsVectors self n m t) (some : t.stack ≠ []) :
    (m.vms self.vm).stackGet (-1) = t.top := by
  have frame := holds.frame
  rw [← List.dropLast_append_getLast some] at frame
  rw [frame.top, Vectors.top, List.getLast?_eq_some_getLast some]
  rfl

theorem HoldsVectors.dropped (holds : HoldsVectors self n m t) (some : t.stack ≠ []) :
    (pop (m.vms self.vm)).Frame t.stack.dropLast := by
  have frame := holds.frame
  rw [← List.dropLast_append_getLast some] at frame
  exact frame.pop

private theorem Vectors.Names.nonempty {idx : Int} (names : t.Names idx) : t.stack ≠ [] := by
  intro empty
  obtain ⟨inside, -⟩ := names
  rw [empty] at inside
  rcases inside with inside | inside <;> simp only [List.length_nil] at inside <;> omega

theorem HoldsVectors.push (holds : HoldsVectors self n m t) (o : SQObject) :
    HoldsVectors self n (m.push self.vm o) { t with stack := t.stack ++ [o] } where
  frame := by
    rw [Machine.push, Machine.onVM_self]
    exact holds.frame.push o
  closure := holds.closure
  next := holds.next
  weak := holds.weak

theorem HoldsVectors.pop (holds : HoldsVectors self n m t) {sz : Nat}
    (enough : sz ≤ t.stack.length) :
    HoldsVectors self n (sqPop self.vm sz m)
      { t with stack := t.stack.take (t.stack.length - sz) } where
  frame := by
    rw [sqPop, Machine.onVM_self]
    exact holds.frame.popN_take enough
  closure := holds.closure
  next := holds.next
  weak := holds.weak

theorem HoldsVectors.get (holds : HoldsVectors self n m t) {idx : Int} {nval : Nat}
    (names : t.Names idx) (declared : nval ≠ n) :
    HoldsVectors self n (VarOp.exec self m (.getFreeVariable idx nval)).1
        (t.apply (.getFreeVariable idx nval)).1 ∧
      (VarOp.exec self m (.getFreeVariable idx nval)).2 =
        (t.apply (.getFreeVariable idx nval)).2 := by
  obtain ⟨a, xs, p, value, -, vec, -, length, outers⟩ := holds.named names
  have entry : (xs ++ [SQObject.userpointer p])[nval]? = xs[nval]? := by
    by_cases below : nval < xs.length
    · exact List.getElem?_append_left below
    · rw [List.getElem?_eq_none (by simp; omega), List.getElem?_eq_none (by omega)]
  simp only [VarOp.exec, squirrelVmGetFreeVariable, sqGetFreeVariable, value, outers, entry,
    Vectors.apply, vec]
  cases xs[nval]? with
  | none => exact ⟨holds, rfl⟩
  | some o => exact ⟨holds.push o, rfl⟩

theorem HoldsVectors.set (holds : HoldsVectors self n m t) {idx : Int} {nval : Nat}
    (names : t.Names idx) (declared : nval ≠ n) :
    HoldsVectors self n (VarOp.exec self m (.setFreeVariable idx nval)).1
        (t.apply (.setFreeVariable idx nval)).1 ∧
      (VarOp.exec self m (.setFreeVariable idx nval)).2 =
        (t.apply (.setFreeVariable idx nval)).2 := by
  obtain ⟨a, xs, p, value, known, vec, here, length, outers⟩ := holds.named names
  have top := holds.top names.nonempty
  simp only [VarOp.exec, squirrelVmSetFreeVariable, sqSetFreeVariable, value, outers,
    Vectors.apply, vec, top]
  by_cases below : nval < xs.length
  · have stored : t.store idx nval t.top =
        { t with of := Function.update t.of a (some (xs.set nval t.top)) } := by
      rw [Vectors.store, here]
      change ({ t with of := Function.update t.of a ((t.of a).map _) } : Vectors) = _
      rw [known]
      rfl
    rw [if_pos (by rw [List.length_append]; omega), if_pos below, stored]
    refine ⟨⟨?_, ?_, holds.next, holds.weak⟩, rfl⟩
    · rw [Machine.onVM_self]
      exact holds.dropped names.nonempty
    · intro b ys vec'
      by_cases same : b = a
      · subst same
        obtain ⟨-, bound, -⟩ := holds.closure b xs known
        simp only [Function.update_self, Option.some.injEq] at vec'
        subst vec'
        refine ⟨by rw [List.length_set, length], bound, p, ?_⟩
        simp only [Machine.onVM_nativeClosures, Machine.setNativeClosure, Function.update_self]
        exact List.set_append_left nval t.top below
      · simp only [Function.update_of_ne same] at vec'
        simp only [Machine.onVM_nativeClosures, Machine.setNativeClosure,
          Function.update_of_ne same]
        exact holds.closure b ys vec'
  · rw [if_neg (by rw [List.length_append, List.length_singleton]; omega), if_neg below]
    refine ⟨⟨?_, holds.closure, holds.next, holds.weak⟩, rfl⟩
    simp only [sqThrowError, Machine.raise, Machine.onVM_self]
    exact holds.frame

private theorem HoldsVectors.reserve (holds : HoldsVectors self n m t) (env : SQObject) :
    HoldsVectors self n (getWeakRef env m).1 (t.reserve env) := by
  rw [getWeakRef, Vectors.reserve, holds.weak]
  cases t.weak env with
  | some w => exact holds
  | none =>
      refine ⟨holds.frame, ?_, congrArg (· + 1) holds.next, ?_⟩
      · intro a xs vec
        obtain ⟨length, bound, outers⟩ := holds.closure a xs vec
        exact ⟨length, Nat.lt_succ_of_lt bound, outers⟩
      · exact congrArg (fun w => Function.update t.weak env (some w)) holds.next

theorem HoldsVectors.cloned (holds : HoldsVectors self n m t) {a : Address} {xs : List SQObject}
    (known : t.of a = some xs) (some : t.stack ≠ []) (env : Option Address) :
    HoldsVectors self n
      (((m.allocObject.setNativeClosure m.nextObject
        { m.nativeClosures a with env := env }).onVM self.vm SQVM.pop).push self.vm
          (.nativeclosure m.nextObject))
      { t with
        of := Function.update t.of t.next (Option.some xs)
        next := t.next + 1
        stack := t.stack.dropLast ++ [.nativeclosure t.next] } := by
  obtain ⟨length, -, outers⟩ := holds.closure a xs known
  refine ⟨?_, ?_, congrArg (· + 1) holds.next, holds.weak⟩
  · rw [Machine.push, Machine.onVM_onVM, Machine.onVM_self, holds.next]
    exact (holds.dropped some).push _
  · intro b ys vec
    simp only [Machine.push, Machine.onVM_nativeClosures, Machine.setNativeClosure]
    by_cases fresh : b = t.next
    · subst fresh
      rw [← holds.next, Function.update_self]
      simp only [Function.update_self, Option.some.injEq] at vec
      subst vec
      exact ⟨length, by rw [holds.next]; exact Nat.lt_succ_self _, outers⟩
    · simp only [Function.update_of_ne fresh] at vec
      obtain ⟨length', bound, outers'⟩ := holds.closure b ys vec
      rw [Function.update_of_ne (by rw [holds.next]; exact fresh)]
      exact ⟨length', Nat.lt_succ_of_lt bound, outers'⟩

theorem HoldsVectors.bind (holds : HoldsVectors self n m t) {idx : Int} (names : t.Names idx) :
    HoldsVectors self n (VarOp.exec self m (.bindEnv idx)).1 (t.apply (.bindEnv idx)).1 ∧
      (VarOp.exec self m (.bindEnv idx)).2 = (t.apply (.bindEnv idx)).2 := by
  obtain ⟨a, xs, p, value, known, vec, here, length, outers⟩ := holds.named names
  have top := holds.top names.nonempty
  simp only [VarOp.exec, squirrelVmBindEnv, sqBindEnv, value, Vectors.apply, vec, top]
  by_cases environment : isEnvironment t.top = true
  · rw [if_pos environment, if_pos environment]
    have same : (t.reserve t.top).of = t.of ∧ (t.reserve t.top).stack = t.stack := by
      rw [Vectors.reserve]
      split <;> exact ⟨rfl, rfl⟩
    have reserved := holds.reserve t.top
    have made := reserved.cloned (same.1 ▸ known) (same.2 ▸ names.nonempty)
      (some (getWeakRef t.top m).2)
    exact ⟨made, rfl⟩
  · rw [if_neg environment, if_neg environment]
    refine ⟨⟨?_, holds.closure, holds.next, holds.weak⟩, rfl⟩
    simp only [sqThrowError, Machine.raise, Machine.onVM_self]
    exact holds.frame

theorem HoldsVectors.step (holds : HoldsVectors self n m t) {op : VarOp} (admits : t.Admits op)
    (declared : ¬ op.ReachesHidden n) :
    HoldsVectors self n (op.exec self m).1 (t.apply op).1 ∧
      (op.exec self m).2 = (t.apply op).2 := by
  cases op with
  | push o => exact ⟨holds.push o, rfl⟩
  | pop sz => exact ⟨holds.pop admits, rfl⟩
  | getClosureInfo idx => exact absurd trivial declared
  | getFreeVariable idx nval => exact holds.get admits declared
  | setFreeVariable idx nval => exact holds.set admits declared
  | bindEnv idx => exact holds.bind admits

private theorem HoldsVectors.hidden_differs (holds : HoldsVectors self n m t) {op : VarOp}
    (admits : t.Admits op) (reaches : op.ReachesHidden n) :
    (op.exec self m).2 ≠ (t.apply op).2 := by
  cases op with
  | getClosureInfo idx =>
      obtain ⟨a, xs, p, value, -, vec, -, -, outers⟩ := holds.named admits
      simp [VarOp.exec, squirrelVmGetClosureInfo, sqGetClosureInfo, value, outers, Vectors.apply,
        vec]
  | getFreeVariable idx nval =>
      obtain ⟨a, xs, p, value, -, vec, -, length, outers⟩ := holds.named admits
      have last : nval = xs.length := reaches.trans length.symm
      simp [VarOp.exec, squirrelVmGetFreeVariable, sqGetFreeVariable, value, outers,
        Vectors.apply, vec, last]
  | setFreeVariable idx nval =>
      obtain ⟨a, xs, p, value, -, vec, -, length, outers⟩ := holds.named admits
      have last : nval = xs.length := reaches.trans length.symm
      simp [VarOp.exec, squirrelVmSetFreeVariable, sqSetFreeVariable, value, outers,
        Vectors.apply, vec, last, sqOk, sqError]
  | _ => exact reaches.elim

end Steps

/-- The vector model of a closure just made from the values `vs` on top of `xs`. -/
def Vectors.start (m : Machine) (xs vs : List SQObject) : Vectors where
  of := fun a => if a = m.nextObject then some vs.reverse else none
  stack := xs ++ [.nativeclosure m.nextObject]
  next := m.nextObject + 1
  weak := m.weakRefOf

private theorem newClosure_holdsVectors {self : SquirrelVm} {m : Machine} {xs vs : List SQObject}
    (frame : (m.vms self.vm).Frame (xs ++ vs)) (c : SquirrelFunction) (userData : Gpointer) :
    HoldsVectors self vs.length (squirrelVmNewClosure self c userData vs.length m)
      (Vectors.start m xs vs) := by
  rw [squirrelVmNewClosure_eq]
  refine ⟨?_, ?_, rfl, rfl⟩
  · rw [Machine.onVM_self]
    exact frame.replaceTop _
  · intro a ys vec
    have here : a = m.nextObject := by
      by_contra apart
      simp [Vectors.start, apart] at vec
    subst here
    obtain rfl : vs.reverse = ys := by simpa [Vectors.start] using vec
    refine ⟨List.length_reverse, Nat.lt_succ_self _, m.nextCell, ?_⟩
    rw [frame.popped]
    simp only [Machine.onVM_nativeClosures, Machine.setNativeClosure, Function.update_self]
    rfl

/-- The free-variable interface of a host closure and its clones behaves like vectors of the
declared length, in its answers and on the stack after every call of the run, exactly when no call
asks for the number of free variables and none reads or stores at the index after the last. -/
theorem free_variable_runs_agree_iff (self : SquirrelVm) {m : Machine} {xs vs : List SQObject}
    (frame : (m.vms self.vm).Frame (xs ++ vs)) (c : SquirrelFunction) (userData : Gpointer)
    {ops : List VarOp}
    (admissible : Along Vectors.step Vectors.Admits (Vectors.start m xs vs) ops) :
    outputs (varStep self) (squirrelVmNewClosure self c userData vs.length m) ops =
        outputs Vectors.step (Vectors.start m xs vs) ops ↔
      ∀ op ∈ ops, ¬ op.ReachesHidden vs.length := by
  rw [← along_forall Vectors.step (fun op => ¬ op.ReachesHidden vs.length) (Vectors.start m xs vs)]
  refine outputs_eq_iff_good ?_ ?_ ?_ (newClosure_holdsVectors frame c userData) admissible
  · intro m t op holds admits declared
    exact (holds.step admits declared).1
  · intro m t op holds admits declared
    obtain ⟨next, reply⟩ := holds.step admits declared
    exact Prod.ext reply next.frame.visible_eq
  · intro m t op holds admits reaches equal
    exact holds.hidden_differs admits (not_not.mp reaches) (Prod.ext_iff.mp equal).1

def twoIntegers : Machine := (squirrelVmNew 1024 0).1.onVM 0 (pushAll [.integer 10, .integer 20])

private theorem twoIntegers_frame : (twoIntegers.vms 0).Frame ([] ++ [.integer 10, .integer 20]) :=
    by
  have start : ((squirrelVmNew 1024 0).1.vms 0).Frame [] := Holds.nil
  rw [twoIntegers, Machine.onVM_self]
  exact pushAll_holds start _

/-- Reading, storing, cloning and reading past the end of a closure with two free variables. -/
theorem free_variable_runs_agree_on_two :
    outputs (varStep ⟨0⟩) (squirrelVmNewClosure ⟨0⟩ 7 0 2 twoIntegers)
        [.getFreeVariable (-1) 0, .setFreeVariable (-2) 1, .push (.table 0), .bindEnv (-2),
          .getFreeVariable (-1) 3] =
      outputs Vectors.step (Vectors.start twoIntegers [] [.integer 10, .integer 20])
        [.getFreeVariable (-1) 0, .setFreeVariable (-2) 1, .push (.table 0), .bindEnv (-2),
          .getFreeVariable (-1) 3] := by
  refine (free_variable_runs_agree_iff ⟨0⟩ twoIntegers_frame 7 0 ?_).mpr ?_
  · exact ⟨⟨by decide, 2, _, rfl, rfl⟩, ⟨by decide, 2, _, rfl, rfl⟩, trivial,
      ⟨by decide, 2, _, rfl, rfl⟩, ⟨by decide, 4, _, rfl, rfl⟩, trivial⟩
  · simp [VarOp.ReachesHidden]

/-- Asking for the number of free variables, and reading at the index after the last. -/
theorem hidden_variable_is_visible :
    (Along Vectors.step Vectors.Admits
          (Vectors.start twoIntegers [] [.integer 10, .integer 20]) [.getClosureInfo (-1)] ∧
        outputs (varStep ⟨0⟩) (squirrelVmNewClosure ⟨0⟩ 7 0 2 twoIntegers) [.getClosureInfo (-1)] ≠
          outputs Vectors.step (Vectors.start twoIntegers [] [.integer 10, .integer 20])
            [.getClosureInfo (-1)]) ∧
      Along Vectors.step Vectors.Admits
          (Vectors.start twoIntegers [] [.integer 10, .integer 20]) [.getFreeVariable (-1) 2] ∧
        outputs (varStep ⟨0⟩) (squirrelVmNewClosure ⟨0⟩ 7 0 2 twoIntegers)
            [.getFreeVariable (-1) 2] ≠
          outputs Vectors.step (Vectors.start twoIntegers [] [.integer 10, .integer 20])
            [.getFreeVariable (-1) 2] :=
  ⟨⟨⟨⟨by decide, 2, _, rfl, rfl⟩, trivial⟩, by decide +kernel⟩,
    ⟨⟨by decide, 2, _, rfl, rfl⟩, trivial⟩, by decide +kernel⟩

end SquirrelGObject.Wrapper
