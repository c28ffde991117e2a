/- SquirrelGObject/Engine/Call
   digest: Calling a value: checks, frame entry with outer values and bound environment, return, and the C API call. -/

import SquirrelGObject.Engine.Machine

set_option autoImplicit false
set_option relaxedAutoImplicit false

namespace SquirrelGObject.Engine

open Lib.Window SQVM

/-- What a call runs that is not modelled here: native function pointers, `SQVM::Execute` on
script closures, where an instance keeps its own user memory, and the C library's float printing. -/
structure Runtime where
  function : SQFUNCTION → HSQUIRRELVM → Machine → Machine × Int
  execute : HSQUIRRELVM → Address → Nat → Int → Bool → Machine → Machine × Option SQObject
  instanceData : Address → SQUserPointer
  printFloat : UInt32 → String

/-- What `SQVM::CallNative` hands back. `retval` is empty when the out-parameter is left alone,
`flags` holds `suspend` and `tailcall` when they were written. -/
structure NativeOutcome where
  machine : Machine
  ok : Bool
  retval : Option SQObject
  flags : Option (Bool × Bool)

/-- The least `SQInteger`, whose negation is itself. -/
def sqIntegerMin : Int := -9223372036854775808

/-- The argument count against `_nparamscheck`: exact when positive, a minimum when negative. The
negation is that of a 64-bit integer. -/
def wrongCount (nparamscheck : Int) (nargs : Nat) : Bool :=
  nparamscheck ≠ 0 &&
    ((0 < nparamscheck && nparamscheck ≠ nargs) ||
      (nparamscheck < 0 && (nargs : Int) < (-nparamscheck).bmod 18446744073709551616))

/-- The first argument whose type is not in its mask. -/
def typeFault (arg : Nat → SQObject) : Nat → List (Option Nat) → Nat → Option SQObject
  | i, none :: masks, nargs + 1 => typeFault arg (i + 1) masks nargs
  | i, some mask :: masks, nargs + 1 =>
      if (arg i).type.code &&& mask = 0 then some (paramTypeError i mask (arg i).type)
      else typeFault arg (i + 1) masks nargs
  | _, _, _ => none

/-- The checks before a native frame is entered, with the error the first failing one raises. -/
def checkNative (nc : SQNativeClosure) (nargs : Nat) (newbase : Int) (vm : SQVM) :
    Option SQObject :=
  if maxNativeCalls < vm.nNativeCalls + 1 then
    some (raised "Native stack overflow" "Native stack overflow")
  else if wrongCount nc.nparamscheck nargs then
    some (raised "wrong number of parameters" "wrong number of parameters")
  else typeFault (fun i : Nat => vm.stack (newbase + i)) 0 nc.typecheck nargs

def copyOuters (pos : Int) : List SQObject → SQVM → SQVM
  | [], vm => vm
  | o :: rest, vm => copyOuters (pos + 1) rest (vm.write pos o)

/-- `ci->_closure` and `ci->_target` of the current record. -/
def setCallee (closure : SQObject) (target : Int) (vm : SQVM) : SQVM :=
  { vm with
    callsStack := Function.update vm.callsStack (vm.callsStackSize - 1)
      { vm.ci with closure := closure, target := target } }

def addNativeCalls (n : Int) (vm : SQVM) : SQVM := { vm with nNativeCalls := vm.nNativeCalls + n }

/-- A bound environment replaces the first slot of the frame. -/
def bindThis (env : Option SQObject) (newbase : Int) (vm : SQVM) : SQVM :=
  match env with
  | some o => vm.write newbase o
  | none => vm

/-- The new frame of a native closure: its record, then the outer values behind the arguments,
then the bound environment. -/
def layoutNative (a : Address) (nc : SQNativeClosure) (env : Option SQObject) (nargs : Nat)
    (newbase target : Int) (entered : SQVM) : SQVM :=
  bindThis env newbase
    (copyOuters (newbase + nargs) nc.outervalues (setCallee (.nativeclosure a) target entered))

/-- `SQVM::CallNative` up to the call of the function pointer. A refused call gives the state it
leaves behind. -/
def nativeEntry (v : HSQUIRRELVM) (a : Address) (nargs : Nat) (newbase target : Int)
    (m : Machine) : Except Machine Machine :=
  let nc := m.nativeClosures a
  match checkNative nc nargs newbase (m.vms v) with
  | some e => .error (m.raise v e)
  | none =>
      let (vm, entered) :=
        (m.vms v).enterFrame newbase (newbase + nargs + nc.outervalues.length)
      let m := m.onVM v fun _ => vm
      if entered then
        .ok (m.onVM v fun vm => addNativeCalls 1
          (layoutNative a nc (nc.env.map m.weakRefs) nargs newbase target vm))
      else .error m

/-- `SQVM::CallNative` after the function pointer has returned. -/
def nativeReturn (v : HSQUIRRELVM) (ret : Int) (m : Machine) : NativeOutcome :=
  let m := m.onVM v (addNativeCalls (-1))
  if ret = sqTailcallFlag then ⟨m, true, none, some (false, true)⟩
  else if ret ≠ sqSuspendFlag ∧ ret < 0 then
    ⟨m.onVM v leaveFrame, false, none, some (false, false)⟩
  else
    let retval := if ret ≠ 0 then (m.vms v).getUp (-1) else .null
    ⟨m.onVM v leaveFrame, true, some retval, some (ret = sqSuspendFlag, false)⟩

def callNative (rt : Runtime) (v : HSQUIRRELVM) (a : Address) (nargs : Nat) (newbase target : Int)
    (m : Machine) : NativeOutcome :=
  match nativeEntry v a nargs newbase target m with
  | .error m => ⟨m, false, none, none⟩
  | .ok entry =>
      let (m, ret) := rt.function (m.nativeClosures a).function v entry
      nativeReturn v ret m

/-- What a called value comes down to. A class call carries the instance it made, which is then
the result whatever the constructor returns. -/
inductive Callee where
  | script (a : Address) (inst : Option SQObject)
  | native (a : Address) (inst : Option SQObject)
  | made (inst : SQObject)
  | refused

def createInstance (rt : Runtime) (c : Address) (m : Machine) : Machine × SQObject :=
  let a := m.nextObject
  let up := if (m.classes.at_ c).udSize = 0 then 0 else rt.instanceData a
  ({ m with
      nextObject := a + 1
      instances := Function.update m.instances a { cls := c, userPointer := up } }, .inst a)

/-- The dispatch of `SQVM::Call`. -/
def resolveCall (rt : Runtime) (v : HSQUIRRELVM) (closure : SQObject) (stackbase : Int)
    (m : Machine) : Machine × Callee :=
  match closure with
  | .closure a => (m, .script a none)
  | .nativeclosure a => (m, .native a none)
  | .cls c =>
      let (m, inst) := createInstance rt c m
      match (m.classes.at_ c).constructor with
      | some (.nativeclosure a) => (m.onVM v (write stackbase inst), .native a (some inst))
      | some (.closure a) => (m.onVM v (write stackbase inst), .script a (some inst))
      | _ => (m, .made inst)
  | o =>
      (m.raise v (raised "attempt to call '%s'" ("attempt to call '" ++ o.type.name ++ "'")),
        .refused)

/-- `SQVM::Call`, with the result object as the caller finds it. -/
def call (rt : Runtime) (v : HSQUIRRELVM) (closure : SQObject) (nparams : Nat) (stackbase : Int)
    (raiseerror : Bool) (m : Machine) : Machine × Bool × SQObject :=
  match resolveCall rt v closure stackbase m with
  | (m, .script a inst) =>
      let (m, res) := rt.execute v a nparams stackbase raiseerror m
      (m, res.isSome, inst.getD (res.getD .null))
  | (m, .native a inst) =>
      let out := callNative rt v a nparams stackbase (-1) m
      (out.machine, out.ok, inst.getD (out.retval.getD .null))
  | (m, .made inst) => (m, true, inst)
  | (m, .refused) => (m, false, .null)

/-- `sq_call`: the arguments go, the callable stays; the result is pushed on success only. -/
def sqCall (rt : Runtime) (v : HSQUIRRELVM) (params : Nat) (retval raiseerror : Bool)
    (m : Machine) : Machine × Int :=
  let vm := m.vms v
  match call rt v (vm.getUp (-(params + 1))) params (vm.top - params) raiseerror m with
  | (m, false, _) => (m.onVM v (popN params), sqError)
  | (m, true, res) =>
      let m := if (m.vms v).suspended then m else m.onVM v (popN params)
      (if retval then m.push v res else m, sqOk)

section Place

variable {rt : Runtime} {v : HSQUIRRELVM}

/-- The frame is where it was: same base, same top, and the VM still running. -/
structure SamePlace (vm vm' : SQVM) : Prop where
  stackBase : vm'.stackBase = vm.stackBase
  top : vm'.top = vm.top
  suspended : vm'.suspended = vm.suspended

/-- A native function has come back: the record of its frame leads to the same caller. -/
structure SameFrame (vm vm' : SQVM) : Prop where
  stackBase : vm'.stackBase = vm.stackBase
  prevStkBase : vm'.ci.prevStkBase = vm.ci.prevStkBase
  prevTop : vm'.ci.prevTop = vm.ci.prevTop
  suspended : vm'.suspended = vm.suspended

/-- The function that this call runs, if any, returns without suspending the VM and without
asking for a tail call, and leaves its caller's frame where it found it. -/
def CalleeReturns (rt : Runtime) (v : HSQUIRRELVM) (closure : SQObject) (nparams : Nat)
    (stackbase : Int) (raiseerror : Bool) (m : Machine) : Prop :=
  match resolveCall rt v closure stackbase m with
  | (m, .script a _) =>
      SamePlace (m.vms v) ((rt.execute v a nparams stackbase raiseerror m).1.vms v)
  | (m, .native a _) =>
      ∀ entry, nativeEntry v a nparams stackbase (-1) m = .ok entry →
        SameFrame (entry.vms v) ((rt.function (m.nativeClosures a).function v entry).1.vms v) ∧
          (rt.function (m.nativeClosures a).function v entry).2 ≠ sqSuspendFlag ∧
          (rt.function (m.nativeClosures a).function v entry).2 ≠ sqTailcallFlag
  | _ => True

theorem SamePlace.refl (vm : SQVM) : SamePlace vm vm := ⟨rfl, rfl, rfl⟩

/-- The frame was entered and never left: what an overflow inside a metamethod leaves. -/
structure Stranded (vm vm' : SQVM) (newbase : Int) (nargs : Nat) : Prop where
  stackBase : vm'.stackBase = newbase
  top : newbase + nargs ≤ vm'.top
  suspended : vm'.suspended = vm.suspended

private theorem copyOuters_onlyStack (pos : Int) (l : List SQObject) (vm : SQVM) :
    OnlyStack vm (copyOuters pos l vm) ∧ (copyOuters pos l vm).top = vm.top := by
  induction l generalizing pos vm with
  | nil => exact ⟨rfl, rfl⟩
  | cons o rest ih =>
      obtain ⟨same, top⟩ := ih (pos + 1) (vm.write pos o)
      have first : OnlyStack vm (vm.write pos o) := rfl
      exact ⟨first.trans same, top⟩

private theorem bindThis_onlyStack (env : Option SQObject) (pos : Int) (vm : SQVM) :
    OnlyStack vm (bindThis env pos vm) ∧ (bindThis env pos vm).top = vm.top := by
  cases env <;> exact ⟨rfl, rfl⟩

/-- The frame a native function starts in, apart from the contents of the stack. -/
structure EnteredNative (vm vm' : SQVM) (newbase newtop : Int) : Prop where
  stackBase : vm'.stackBase = newbase
  top : vm'.top = newtop
  prevStkBase : vm'.ci.prevStkBase = newbase - vm.stackBase
  prevTop : vm'.ci.prevTop = vm.top - vm.stackBase
  suspended : vm'.suspended = vm.suspended

theorem layoutNative_onlyStack (a : Address) (nc : SQNativeClosure) (env : Option SQObject)
    (nargs : Nat) (newbase target : Int) (vm : SQVM) :
    OnlyStack (setCallee (.nativeclosure a) target vm)
        (layoutNative a nc env nargs newbase target vm) ∧
      (layoutNative a nc env nargs newbase target vm).top = vm.top := by
  obtain ⟨copied, top⟩ := copyOuters_onlyStack (newbase + nargs) nc.outervalues
    (setCallee (.nativeclosure a) target vm)
  obtain ⟨bound, same⟩ := bindThis_onlyStack env newbase
    (copyOuters (newbase + nargs) nc.outervalues (setCallee (.nativeclosure a) target vm))
  exact ⟨copied.trans bound, same.trans top⟩

private theorem enterFrame_place (newbase newtop : Int) (vm : SQVM) :
    EnteredNative vm (vm.enterFrame newbase newtop).1 newbase newtop := by
  have record : (Function.update vm.callsStack vm.callsStackSize (vm.frameInfo newbase))
      (vm.callsStackSize + 1 - 1) = vm.frameInfo newbase := by
    rw [Int.add_sub_cancel, Function.update_self]
  simp only [enterFrame, enteredFrame]
  split
  · exact ⟨rfl, rfl, congrArg CallInfo.prevStkBase record, congrArg CallInfo.prevTop record, rfl⟩
  · split <;>
      exact ⟨rfl, rfl, congrArg CallInfo.prevStkBase record, congrArg CallInfo.prevTop record, rfl⟩

private theorem EnteredNative.layout {vm vm' : SQVM} {newbase newtop : Int}
    (entered : EnteredNative vm vm' newbase newtop) (a : Address) (nc : SQNativeClosure)
    (env : Option SQObject) (nargs : Nat) (target : Int) :
    EnteredNative vm (addNativeCalls 1 (layoutNative a nc env nargs newbase target vm'))
      newbase newtop := by
  obtain ⟨same, top⟩ := layoutNative_onlyStack a nc env nargs newbase target vm'
  have record : (layoutNative a nc env nargs newbase target vm').ci =
      { vm'.ci with closure := .nativeclosure a, target := target } := by
    rw [same]
    exact Function.update_self _ _ _
  have base : (layoutNative a nc env nargs newbase target vm').stackBase = vm'.stackBase := by
    rw [same]
    rfl
  have suspended :
      (layoutNative a nc env nargs newbase target vm').suspended = vm'.suspended := by
    rw [same]
    rfl
  exact ⟨base.trans entered.stackBase, top.trans entered.top,
    (congrArg CallInfo.prevStkBase record).trans entered.prevStkBase,
    (congrArg CallInfo.prevTop record).trans entered.prevTop,
    suspended.trans entered.suspended⟩

theorem nativeEntry_ok {a : Address} {nargs : Nat} {newbase target : Int} {m entry : Machine}
    (ok : nativeEntry v a nargs newbase target m = .ok entry) :
    checkNative (m.nativeClosures a) nargs newbase (m.vms v) = none ∧
      entry = m.onVM v fun vm => addNativeCalls 1 (layoutNative a (m.nativeClosures a)
        ((m.nativeClosures a).env.map m.weakRefs) nargs newbase target
        (vm.enterFrame newbase (newbase + nargs + (m.nativeClosures a).outervalues.length)).1) := by
  rw [nativeEntry] at ok
  dsimp only at ok
  split at ok
  · cases ok
  · rename_i passed
    split at ok
    · rw [Machine.onVM_onVM] at ok
      cases ok
      exact ⟨passed, Machine.onVM_congr rfl⟩
    · cases ok

theorem nativeEntry_place {a : Address} {nargs : Nat} {newbase target : Int} {m entry : Machine}
    (ok : nativeEntry v a nargs newbase target m = .ok entry) :
    EnteredNative (m.vms v) (entry.vms v) newbase
      (newbase + nargs + (m.nativeClosures a).outervalues.length) := by
  rw [(nativeEntry_ok ok).2, Machine.onVM_self]
  exact (enterFrame_place _ _ _).layout _ _ _ _ _

theorem nativeEntry_error {a : Address} {nargs : Nat} {newbase target : Int} {m left : Machine}
    (error : nativeEntry v a nargs newbase target m = .error left) :
    (∃ e, checkNative (m.nativeClosures a) nargs newbase (m.vms v) = some e ∧
        left = m.raise v e) ∨
      ((m.vms v).enterFrame newbase
          (newbase + nargs + (m.nativeClosures a).outervalues.length)).2 = false ∧
        left = m.onVM v fun vm => (vm.enterFrame newbase
          (newbase + nargs + (m.nativeClosures a).outervalues.length)).1 := by
  simp only [nativeEntry] at error
  cases checked : checkNative (m.nativeClosures a) nargs newbase (m.vms v) with
  | some e =>
      rw [checked] at error
      cases error
      exact .inl ⟨e, rfl, rfl⟩
  | none =>
      rw [checked] at error
      dsimp only at error
      split at error
      · cases error
      · rename_i refused
        cases error
        exact .inr ⟨Bool.not_eq_true _ ▸ refused, Machine.onVM_congr rfl⟩

/-- A refused native call has not moved the frame, unless the stack overflowed inside a
metamethod. -/
private theorem nativeEntry_error_place {a : Address} {nargs : Nat} {newbase target : Int}
    {m left : Machine} (error : nativeEntry v a nargs newbase target m = .error left) :
    SamePlace (m.vms v) (left.vms v) ∨ Stranded (m.vms v) (left.vms v) newbase nargs := by
  rcases nativeEntry_error error with ⟨e, -, rfl⟩ | ⟨-, rfl⟩
  · left
    rw [Machine.raise, Machine.onVM_self]
    exact ⟨rfl, rfl, rfl⟩
  · right
    have place := enterFrame_place newbase
      (newbase + nargs + (m.nativeClosures a).outervalues.length) (m.vms v)
    rw [Machine.onVM_self]
    exact ⟨place.stackBase, by rw [place.top]; omega, place.suspended⟩

theorem nativeReturn_tailcall (m : Machine) :
    nativeReturn v sqTailcallFlag m =
      ⟨m.onVM v (addNativeCalls (-1)), true, none, some (false, true)⟩ := by
  rw [nativeReturn, if_pos rfl]

theorem nativeReturn_failed {ret : Int} (plain : ret ≠ sqTailcallFlag)
    (failed : ret ≠ sqSuspendFlag ∧ ret < 0) (m : Machine) :
    nativeReturn v ret m =
      ⟨m.onVM v fun vm => leaveFrame (addNativeCalls (-1) vm), false, none,
        some (false, false)⟩ := by
  rw [nativeReturn, if_neg plain, if_pos failed, Machine.onVM_onVM]

theorem nativeReturn_returned {ret : Int} (plain : ret ≠ sqTailcallFlag)
    (returned : ¬ (ret ≠ sqSuspendFlag ∧ ret < 0)) (m : Machine) :
    nativeReturn v ret m =
      ⟨m.onVM v fun vm => leaveFrame (addNativeCalls (-1) vm), true,
        some (if ret ≠ 0 then (m.vms v).getUp (-1) else .null),
        some (ret = sqSuspendFlag, false)⟩ := by
  rw [nativeReturn, if_neg plain, if_neg returned, Machine.onVM_onVM, Machine.onVM_self]
  rfl

private theorem EnteredNative.leave {vm vm' vm'' : SQVM} {newbase newtop : Int}
    (entered : EnteredNative vm vm' newbase newtop) (back : SameFrame vm' vm'') :
    SamePlace vm (leaveFrame (addNativeCalls (-1) vm'')) := by
  have base : vm''.stackBase - vm''.ci.prevStkBase = vm.stackBase := by
    rw [back.stackBase, back.prevStkBase, entered.stackBase, entered.prevStkBase]
    omega
  refine ⟨base, ?_, back.suspended.trans entered.suspended⟩
  have top : vm''.stackBase - vm''.ci.prevStkBase + vm''.ci.prevTop = vm.top := by
    rw [base, back.prevTop, entered.prevTop]
    omega
  exact top

private theorem callNative_place {a : Address} {nargs : Nat} {newbase target : Int} {m : Machine}
    (returns : ∀ entry, nativeEntry v a nargs newbase target m = .ok entry →
      SameFrame (entry.vms v) ((rt.function (m.nativeClosures a).function v entry).1.vms v) ∧
        (rt.function (m.nativeClosures a).function v entry).2 ≠ sqSuspendFlag ∧
        (rt.function (m.nativeClosures a).function v entry).2 ≠ sqTailcallFlag) :
    SamePlace (m.vms v) ((callNative rt v a nargs newbase target m).machine.vms v) ∨
      (callNative rt v a nargs newbase target m).ok = false ∧
        Stranded (m.vms v) ((callNative rt v a nargs newbase target m).machine.vms v) newbase
          nargs := by
  rw [callNative]
  cases entered : nativeEntry v a nargs newbase target m with
  | error left =>
      rcases nativeEntry_error_place entered with same | stranded
      · exact .inl same
      · exact .inr ⟨rfl, stranded⟩
  | ok entry =>
      obtain ⟨back, -, plain⟩ := returns entry entered
      have restored := (nativeEntry_place entered).leave back
      left
      by_cases failed : (rt.function (m.nativeClosures a).function v entry).2 ≠ sqSuspendFlag ∧
          (rt.function (m.nativeClosures a).function v entry).2 < 0
      · dsimp only
        rw [nativeReturn_failed plain failed, Machine.onVM_self]
        exact restored
      · dsimp only
        rw [nativeReturn_returned plain failed, Machine.onVM_self]
        exact restored

private theorem resolveCall_place (closure : SQObject) (stackbase : Int) (m : Machine) :
    SamePlace (m.vms v) ((resolveCall rt v closure stackbase m).1.vms v) := by
  unfold resolveCall
  split
  · exact SamePlace.refl _
  · exact SamePlace.refl _
  · dsimp only [createInstance]
    split
    · rw [Machine.onVM_self]
      exact ⟨rfl, rfl, rfl⟩
    · rw [Machine.onVM_self]
      exact ⟨rfl, rfl, rfl⟩
    · exact SamePlace.refl _
  · rw [Machine.raise, Machine.onVM_self]
    exact ⟨rfl, rfl, rfl⟩

theorem SamePlace.trans {a b c : SQVM} (first : SamePlace a b) (second : SamePlace b c) :
    SamePlace a c :=
  ⟨second.stackBase.trans first.stackBase, second.top.trans first.top,
    second.suspended.trans first.suspended⟩

private theorem call_place {closure : SQObject} {nparams : Nat} {stackbase : Int}
    {raiseerror : Bool}
    {m : Machine} (returns : CalleeReturns rt v closure nparams stackbase raiseerror m) :
    SamePlace (m.vms v) ((call rt v closure nparams stackbase raiseerror m).1.vms v) ∨
      (call rt v closure nparams stackbase raiseerror m).2.1 = false ∧
        Stranded (m.vms v) ((call rt v closure nparams stackbase raiseerror m).1.vms v) stackbase
          nparams := by
  have place : SamePlace (m.vms v) ((resolveCall rt v closure stackbase m).1.vms v) :=
    resolveCall_place closure stackbase m
  rw [CalleeReturns] at returns
  rw [call]
  generalize resolveCall rt v closure stackbase m = resolved at place returns ⊢
  obtain ⟨m', callee⟩ := resolved
  cases callee with
  | script a inst => exact .inl (place.trans returns)
  | native a inst =>
      rcases callNative_place returns with same | ⟨failed, stranded⟩
      · exact .inl (place.trans same)
      · exact .inr ⟨failed, stranded.stackBase, stranded.top,
          stranded.suspended.trans place.suspended⟩
  | made inst => exact .inl place
  | refused => exact .inl place

/-- Where `sq_call` leaves the frame when the callee's own frame is gone: on success the
arguments are popped and the result may be there, on failure the arguments are popped. -/
inductive ReturnPlace (vm vm' : SQVM) (params : Nat) (retval : Bool) (result : Int) : Prop where
  | returned (ok : result = sqOk) (stackBase : vm'.stackBase = vm.stackBase)
      (top : vm'.top = vm.top - params + if retval then 1 else 0)
  | failed (error : result = sqError) (stackBase : vm'.stackBase = vm.stackBase)
      (top : vm'.top = vm.top - params)

/-- An overflow inside a metamethod leaves the callee's frame in place. -/
structure StrandedPlace (vm vm' : SQVM) (params : Nat) (result : Int) : Prop where
  error : result = sqError
  stackBase : vm'.stackBase = vm.top - params
  top : vm.top - params ≤ vm'.top

/-- The call that `sq_call` makes: the callable lies below its arguments. -/
def stackCall (rt : Runtime) (v : HSQUIRRELVM) (params : Nat) (raiseerror : Bool) (m : Machine) :
    Machine × Bool × SQObject :=
  call rt v ((m.vms v).getUp (-(params + 1))) params ((m.vms v).top - params) raiseerror m

private theorem sqCall_failed {params : Nat} {retval raiseerror : Bool} {m : Machine}
    (failed : (stackCall rt v params raiseerror m).2.1 = false) :
    sqCall rt v params retval raiseerror m =
      ((stackCall rt v params raiseerror m).1.onVM v (popN params), sqError) := by
  simp only [sqCall]
  change (match stackCall rt v params raiseerror m with
    | (m, false, _) => (m.onVM v (popN params), sqError)
    | (m, true, res) => _) = _
  rcases result : stackCall rt v params raiseerror m with ⟨left, ok, res⟩
  rw [result] at failed
  cases failed
  rfl

private theorem sqCall_returned {params : Nat} {retval raiseerror : Bool} {m : Machine}
    (returned : (stackCall rt v params raiseerror m).2.1 = true) :
    sqCall rt v params retval raiseerror m =
      ((stackCall rt v params raiseerror m).1.onVM v fun vm =>
        let rest := if vm.suspended then vm else popN params vm
        if retval then push (stackCall rt v params raiseerror m).2.2 rest else rest, sqOk) := by
  simp only [sqCall]
  change (match stackCall rt v params raiseerror m with
    | (m, false, _) => (m.onVM v (popN params), sqError)
    | (m, true, res) => _) = _
  rcases result : stackCall rt v params raiseerror m with ⟨left, ok, res⟩
  rw [result] at returned
  cases returned
  have popped : (if (left.vms v).suspended then left else left.onVM v (popN params)) =
      left.onVM v fun vm => if vm.suspended then vm else popN params vm := by
    by_cases asleep : (left.vms v).suspended = true
    · rw [if_pos asleep, Machine.onVM_same]
      exact if_pos asleep
    · rw [if_neg asleep]
      apply Machine.onVM_congr
      exact (if_neg asleep).symm
  dsimp only
  rw [popped]
  cases retval with
  | false => rfl
  | true => simp [Machine.push]

/-- `sq_call` after a call that left the frame where it was. -/
theorem sqCall_place_of_same {params : Nat} {retval raiseerror : Bool} {m : Machine}
    (running : (m.vms v).suspended = false)
    (same : SamePlace (m.vms v) ((stackCall rt v params raiseerror m).1.vms v)) :
    ReturnPlace (m.vms v) ((sqCall rt v params retval raiseerror m).1.vms v) params retval
        (sqCall rt v params retval raiseerror m).2 ∧
      ((sqCall rt v params retval raiseerror m).1.vms v).suspended = false := by
  have awake := same.suspended.trans running
  have base : (popN params ((stackCall rt v params raiseerror m).1.vms v)).stackBase =
      (m.vms v).stackBase := by
    rw [popN_stackBase, same.stackBase]
  have top : (popN params ((stackCall rt v params raiseerror m).1.vms v)).top =
      (m.vms v).top - params := by
    rw [popN_top, same.top]
  have still : (popN params ((stackCall rt v params raiseerror m).1.vms v)).suspended = false := by
    rw [popN_suspended, awake]
  cases ok : (stackCall rt v params raiseerror m).2.1 with
  | false =>
      rw [sqCall_failed ok, Machine.onVM_self]
      exact ⟨.failed rfl base top, still⟩
  | true =>
      rw [sqCall_returned ok, Machine.onVM_self, awake]
      cases retval with
      | false => exact ⟨.returned rfl base (by simpa using top), still⟩
      | true => exact ⟨.returned rfl base (by simpa using top), still⟩

theorem sqCall_place {params : Nat} {retval raiseerror : Bool} {m : Machine}
    (running : (m.vms v).suspended = false)
    (returns : CalleeReturns rt v ((m.vms v).getUp (-(params + 1))) params
      ((m.vms v).top - params) raiseerror m) :
    (ReturnPlace (m.vms v) ((sqCall rt v params retval raiseerror m).1.vms v) params retval
          (sqCall rt v params retval raiseerror m).2 ∨
        StrandedPlace (m.vms v) ((sqCall rt v params retval raiseerror m).1.vms v) params
          (sqCall rt v params retval raiseerror m).2) ∧
      ((sqCall rt v params retval raiseerror m).1.vms v).suspended = false := by
  rcases call_place returns with same | ⟨refused, stranded⟩
  · exact (sqCall_place_of_same running same).imp .inl id
  · have failed : (stackCall rt v params raiseerror m).2.1 = false := refused
    have place : Stranded (m.vms v) ((stackCall rt v params raiseerror m).1.vms v)
      ((m.vms v).top - params) params := stranded
    rw [sqCall_failed failed, Machine.onVM_self]
    refine ⟨.inr ⟨rfl, by rw [popN_stackBase, place.stackBase], ?_⟩,
      by rw [popN_suspended, place.suspended, running]⟩
    have height := place.top
    rw [popN_top]
    omega

end Place

section Thrown

variable {rt : Runtime} {v : HSQUIRRELVM}

end Thrown

end SquirrelGObject.Engine
