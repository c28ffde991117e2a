/- SquirrelGObject/Engine/Alike
   digest: Machines that differ only in dead stack slots and in the closure of one call record, and the native frame over them. -/

import SquirrelGObject.Engine.Entry

set_option autoImplicit false
set_option relaxedAutoImplicit false

namespace SquirrelGObject.Engine

open Lib.Window SQVM

/-- The VMs differ at most in the stack slots from `lo` to `hi` and in the closure of one call
record. -/
structure SQVM.Alike (record lo hi : Int) (vm vm' : SQVM) : Prop where
  rest : vm' = { vm with stack := vm'.stack, callsStack := vm'.callsStack }
  stack : ∀ i, i < lo ∨ hi < i → vm'.stack i = vm.stack i
  records : ∀ j,
    vm'.callsStack j = { vm.callsStack j with closure := (vm'.callsStack j).closure }
  closures : ∀ j, j ≠ record → (vm'.callsStack j).closure = (vm.callsStack j).closure

structure Machine.Alike (v : HSQUIRRELVM) (record lo hi : Int) (m m' : Machine) : Prop where
  rest : m' = { m with vms := m'.vms }
  others : ∀ w, w ≠ v → m'.vms w = m.vms w
  vm : SQVM.Alike record lo hi (m.vms v) (m'.vms v)

section

variable {record lo hi : Int} {vm vm' : SQVM}

theorem SQVM.Alike.top (alike : SQVM.Alike record lo hi vm vm') : vm'.top = vm.top := by
  rw [alike.rest]

theorem SQVM.Alike.callsStackSize (alike : SQVM.Alike record lo hi vm vm') :
    vm'.callsStackSize = vm.callsStackSize := by
  rw [alike.rest]

theorem SQVM.Alike.stackBase (alike : SQVM.Alike record lo hi vm vm') :
    vm'.stackBase = vm.stackBase := by
  rw [alike.rest]

theorem SQVM.Alike.stackGet (alike : SQVM.Alike record lo hi vm vm') {idx : Int}
    (live : (0 ≤ idx ∧ idx + vm.stackBase - 1 < lo) ∨ (idx < 0 ∧ vm.top + idx < lo)) :
    vm'.stackGet idx = vm.stackGet idx := by
  unfold SQVM.stackGet
  rw [alike.top, alike.stackBase]
  split
  · exact alike.stack _ (.inl (by omega))
  · exact alike.stack _ (.inl (by omega))

theorem SQVM.Alike.push (alike : SQVM.Alike record lo hi vm vm') (o : SQObject)
    (here : vm.top = lo) : SQVM.Alike record (lo + 1) hi (vm.push o) (vm'.push o) where
  rest := by
    rw [alike.rest]
    rfl
  stack i outside := by
    rw [push_stack, push_stack, alike.top]
    by_cases pushed : i = vm.top
    · rw [pushed, Function.update_self, Function.update_self]
    · rw [Function.update_of_ne pushed, Function.update_of_ne pushed]
      exact alike.stack i (by omega)
  records := alike.records
  closures := alike.closures

theorem SQVM.Alike.addNativeCalls (alike : SQVM.Alike record lo hi vm vm') (n : Int) :
    SQVM.Alike record lo hi (addNativeCalls n vm) (addNativeCalls n vm') where
  rest := by
    rw [alike.rest]
    rfl
  stack := alike.stack
  records := alike.records
  closures := alike.closures

theorem SQVM.Alike.ci (alike : SQVM.Alike record lo hi vm vm') :
    vm'.ci = { vm.ci with closure := vm'.ci.closure } := by
  rw [SQVM.ci, alike.callsStackSize]
  exact alike.records _

theorem SQVM.Alike.leaveFrame (alike : SQVM.Alike record lo hi vm vm') :
    SQVM.Alike record lo hi (leaveFrame vm) (leaveFrame vm') := by
  have prevStkBase : vm'.ci.prevStkBase = vm.ci.prevStkBase := by rw [alike.ci]
  have prevTop : vm'.ci.prevTop = vm.ci.prevTop := by rw [alike.ci]
  have dropped : { vm'.ci with closure := .null } = { vm.ci with closure := .null } := by
    rw [alike.ci]
  refine ⟨?_, ?_, ?_, ?_⟩
  · unfold SQVM.leaveFrame
    rw [prevStkBase, prevTop, alike.stackBase, alike.callsStackSize]
    rw [alike.rest]
  · intro i outside
    unfold SQVM.leaveFrame
    dsimp only
    rw [prevStkBase, prevTop, alike.stackBase, alike.top]
    split
    · rfl
    · exact alike.stack i outside
  · intro j
    unfold SQVM.leaveFrame
    dsimp only
    rw [dropped, alike.callsStackSize]
    by_cases here : j = vm.callsStackSize - 1
    · rw [here, Function.update_self, Function.update_self]
    · rw [Function.update_of_ne here, Function.update_of_ne here]
      exact alike.records j
  · intro j apart
    unfold SQVM.leaveFrame
    dsimp only
    rw [dropped, alike.callsStackSize]
    by_cases here : j = vm.callsStackSize - 1
    · rw [here, Function.update_self, Function.update_self]
    · rw [Function.update_of_ne here, Function.update_of_ne here]
      exact alike.closures j apart

end

theorem Machine.Alike.onVM {v : HSQUIRRELVM} {record lo hi lo' : Int} {m m' : Machine}
    (alike : Machine.Alike v record lo hi m m') {f : SQVM → SQVM}
    (vm : SQVM.Alike record lo' hi (f (m.vms v)) (f (m'.vms v))) :
    Machine.Alike v record lo' hi (m.onVM v f) (m'.onVM v f) where
  rest := by
    rw [alike.rest]
    rfl
  others w apart := by
    rw [Machine.onVM_of_ne apart, Machine.onVM_of_ne apart, alike.others w apart]
  vm := by
    rw [Machine.onVM_self, Machine.onVM_self]
    exact vm

/-- The outcomes of two native calls that cannot be told apart but for dead slots. -/
structure NativeOutcome.Alike (v : HSQUIRRELVM) (record lo hi : Int) (out out' : NativeOutcome) :
    Prop where
  ok : out'.ok = out.ok
  retval : out'.retval = out.retval
  flags : out'.flags = out.flags
  machine : Machine.Alike v record lo hi out.machine out'.machine

theorem nativeReturn_alike {v : HSQUIRRELVM} {record lo hi : Int} {m m' : Machine}
    (alike : Machine.Alike v record lo hi m m') (live : (m.vms v).top ≤ lo) (ret : Int) :
    NativeOutcome.Alike v record lo hi (nativeReturn v ret m) (nativeReturn v ret m') := by
  have counted := alike.vm.addNativeCalls (-1)
  have left : Machine.Alike v record lo hi
      (m.onVM v fun vm => SQVM.leaveFrame (addNativeCalls (-1) vm))
      (m'.onVM v fun vm => SQVM.leaveFrame (addNativeCalls (-1) vm)) :=
    alike.onVM counted.leaveFrame
  have value : (m'.vms v).getUp (-1) = (m.vms v).getUp (-1) := by
    show (m'.vms v).stack ((m'.vms v).top + -1) = (m.vms v).stack ((m.vms v).top + -1)
    rw [alike.vm.top]
    apply alike.vm.stack
    omega
  by_cases tail : ret = sqTailcallFlag
  · rw [tail, nativeReturn_tailcall, nativeReturn_tailcall]
    exact ⟨rfl, rfl, rfl, alike.onVM counted⟩
  · by_cases failed : ret ≠ sqSuspendFlag ∧ ret < 0
    · rw [nativeReturn_failed tail failed, nativeReturn_failed tail failed]
      exact ⟨rfl, rfl, rfl, left⟩
    · rw [nativeReturn_returned tail failed, nativeReturn_returned tail failed, value]
      exact ⟨rfl, rfl, rfl, left⟩

section Longer

variable {nargs : Nat} {newbase target : Int}

private theorem bindThis_stack_congr (env : Option SQObject) (pos : Int) {vm vm' : SQVM} {i : Int}
    (same : vm'.stack i = vm.stack i) :
    (bindThis env pos vm').stack i = (bindThis env pos vm).stack i := by
  cases env with
  | none => exact same
  | some o =>
      change Function.update vm'.stack pos o i = Function.update vm.stack pos o i
      by_cases here : i = pos
      · rw [here, Function.update_self, Function.update_self]
      · rw [Function.update_of_ne here, Function.update_of_ne here, same]

private theorem setCallee_enteredFrame (closure : SQObject) (newtop : Int) (vm : SQVM) :
    setCallee closure target (enteredFrame newbase newtop vm) =
      { enteredFrame newbase newtop vm with
        callsStack := Function.update vm.callsStack vm.callsStackSize
          { vm.frameInfo newbase with closure := closure, target := target } } := by
  have last : vm.callsStackSize + 1 - 1 = vm.callsStackSize := by omega
  rw [setCallee, SQVM.ci, enteredFrame]
  dsimp only
  rw [last, Function.update_idem, Function.update_self]

theorem layoutNative_enteredFrame (a : Address) (nc : SQNativeClosure) (env : Option SQObject)
    (nargs : Nat) (newbase target newtop : Int) (vm : SQVM) :
    layoutNative a nc env nargs newbase target (enteredFrame newbase newtop vm) =
      { enteredFrame newbase newtop vm with
        stack := (layoutNative a nc env nargs newbase target
          (enteredFrame newbase newtop vm)).stack
        callsStack := Function.update vm.callsStack vm.callsStackSize
          { vm.frameInfo newbase with closure := .nativeclosure a, target := target } } := by
  obtain ⟨same, top⟩ := layoutNative_onlyStack a nc env nargs newbase target
    (enteredFrame newbase newtop vm)
  rw [OnlyStack, top, setCallee_enteredFrame] at same
  exact same

/-- Two closures with the same environment, of which one has one outer value more. Once that value
is popped, their frames differ only in the slot it was in and in the recorded closure. -/
theorem layoutNative_alike {a b : Address} {nc nc' : SQNativeClosure} {o : SQObject}
    (outers : nc'.outervalues = nc.outervalues ++ [o]) (env : Option SQObject) (vm : SQVM) :
    SQVM.Alike vm.callsStackSize (newbase + nargs + nc.outervalues.length)
      (newbase + nargs + nc.outervalues.length)
      (addNativeCalls 1 (layoutNative a nc env nargs newbase target
        (enteredFrame newbase (newbase + nargs + nc.outervalues.length) vm)))
      (popN 1 (addNativeCalls 1 (layoutNative b nc' env nargs newbase target
        (enteredFrame newbase (newbase + nargs + nc'.outervalues.length) vm)))) := by
  have length : (nc'.outervalues.length : Int) = nc.outervalues.length + 1 := by
    rw [outers, List.length_append, List.length_singleton]
    push_cast
    rfl
  have plain := layoutNative_enteredFrame a nc env nargs newbase target
    (newbase + nargs + nc.outervalues.length) vm
  have longer := layoutNative_enteredFrame b nc' env nargs newbase target
    (newbase + nargs + nc'.outervalues.length) vm
  have stack : ∀ i, i ≠ newbase + nargs + nc.outervalues.length →
      (layoutNative b nc' env nargs newbase target
        (enteredFrame newbase (newbase + nargs + nc'.outervalues.length) vm)).stack i =
      (layoutNative a nc env nargs newbase target
        (enteredFrame newbase (newbase + nargs + nc.outervalues.length) vm)).stack i := by
    intro i apart
    rw [layoutNative]
    apply bindThis_stack_congr
    rw [outers, copyOuters_stack, copyOuters_stack, fill_append]
    exact Function.update_of_ne apart _ _
  generalize layoutNative a nc env nargs newbase target _ = p at plain stack ⊢
  generalize layoutNative b nc' env nargs newbase target _ = w at longer stack ⊢
  have above : w.top - 1 = newbase + nargs + nc.outervalues.length := by
    rw [longer]
    change newbase + nargs + nc'.outervalues.length - 1 = _
    rw [length]
    omega
  refine ⟨?_, ?_, ?_, ?_⟩
  · change pop (addNativeCalls 1 w) = { addNativeCalls 1 p with
      stack := (pop (addNativeCalls 1 w)).stack
      callsStack := (pop (addNativeCalls 1 w)).callsStack }
    rw [pop, addNativeCalls]
    dsimp only
    rw [above, plain, longer]
    rfl
  · intro i outside
    change Function.update w.stack (w.top - 1) .null i = p.stack i
    rw [above, Function.update_of_ne (by omega), stack i (by omega)]
  · intro j
    change w.callsStack j = { p.callsStack j with closure := (w.callsStack j).closure }
    rw [plain, longer]
    dsimp only
    by_cases here : j = vm.callsStackSize
    · rw [here, Function.update_self, Function.update_self]
    · rw [Function.update_of_ne here, Function.update_of_ne here]
  · intro j apart
    change (w.callsStack j).closure = (p.callsStack j).closure
    rw [plain, longer]
    dsimp only
    rw [Function.update_of_ne apart, Function.update_of_ne apart]

end Longer

end SquirrelGObject.Engine
