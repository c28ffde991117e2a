/- SquirrelGObject/Wrapper/Closure
   digest: Host closures: the trampoline, the free-variable shuffle that makes one, and the calls on it. -/

import SquirrelGObject.Engine.Call

set_option autoImplicit false
set_option relaxedAutoImplicit false

namespace SquirrelGObject.Wrapper

open Engine SQVM

structure SquirrelVm where
  vm : HSQUIRRELVM
  deriving DecidableEq, Repr

def squirrelVmFromHvm (hvm : HSQUIRRELVM) : SquirrelVm := ⟨hvm⟩

/-- A 64-bit engine result returned as a 32-bit `gboolean`. -/
def toGboolean (r : Int) : Int := Int.bmod r UInt32.size

/-- `squirrel_vm_new`: a new engine VM with the standard error handler installed. -/
def squirrelVmNew (initialStackSize : Int) (registered : Address) : Machine × SquirrelVm :=
  let m := sqOpen initialStackSize registered
  let handler := SQObject.nativeclosure m.nextObject
  (m.allocObject.onVM 0 fun vm => { vm with errorHandler := handler }, ⟨0⟩)

/-- The code and memory around the wrapper: host callbacks, other native functions and the script
interpreter, all arbitrary; `uninitialised` is what an unset pointer local holds, `textAt` the
characters at an address that was never set. -/
structure Host where
  callback : SquirrelFunction → SquirrelVm → Gpointer → Machine → Machine × Int
  native : Address → HSQUIRRELVM → Machine → Machine × Int
  execute : HSQUIRRELVM → Address → Nat → Int → Bool → Machine → Machine × Option SQObject
  instanceData : Address → SQUserPointer
  printFloat : UInt32 → String
  uninitialised : SQUserPointer
  textAt : Nat → String

def quietHost : Host where
  callback := fun _ _ _ m => (m, 0)
  native := fun _ _ m => (m, 0)
  execute := fun _ _ _ _ _ m => (m, some .null)
  instanceData := fun a => a
  printFloat := fun _ => "0"
  uninitialised := 0
  textAt := fun _ => ""

/-- The native function behind every host closure. The result of `sq_getuserpointer` is not
looked at. -/
def squirrelExecNativeClosure (host : Host) (hvm : HSQUIRRELVM) (m : Machine) : Machine × Int :=
  let vm := squirrelVmFromHvm hvm
  let (m, _, written) := sqGetUserPointer host.printFloat hvm (-1) m
  let c := written.getD host.uninitialised
  let m := sqPop hvm 1 m
  if c ≠ 0 then host.callback (m.closureData c).func vm (m.closureData c).userData m
  else (m.gWarning "could not get c function pointer from top of stack", 0)

/-- With a pointer on top, the trampoline pops it and calls the function behind it, whatever its
unset local holds. -/
theorem squirrelExecNativeClosure_eq (host : Host) {hvm : HSQUIRRELVM} {m : Machine}
    {p : SQUserPointer} (top : (m.vms hvm).stackGet (-1) = .userpointer p) (set : p ≠ 0) :
    squirrelExecNativeClosure host hvm m =
      host.callback (m.closureData p).func ⟨hvm⟩ (m.closureData p).userData (sqPop hvm 1 m) := by
  rw [squirrelExecNativeClosure, sqGetUserPointer_eq, top]
  exact if_pos set

/-- Native function pointers resolved: the trampoline is the wrapper's own. -/
def Host.runtime (host : Host) : Runtime where
  function
    | .squirrelExecNativeClosure => squirrelExecNativeClosure host
    | .native p => host.native p
  execute := host.execute
  instanceData := host.instanceData
  printFloat := host.printFloat

/-- The calls into the engine that `squirrel_vm_new_closure` makes. A number names an entry of
its array of free variables. -/
inductive EngineCall where
  | getStackObj (idx : Int) (i : Nat)
  | addRef (i : Nat)
  | pop (n : Nat)
  | pushUserPointer (p : SQUserPointer)
  | pushObject (i : Nat)
  | release (i : Nat)
  | newClosure (func : SQFUNCTION) (nfreevars : Nat)

/-- The machine together with the array of free variables. -/
structure Shuffle where
  machine : Machine
  freevars : Nat → SQObject

def EngineCall.exec (v : HSQUIRRELVM) (s : Shuffle) : EngineCall → Shuffle
  | getStackObj idx i =>
      { s with freevars := Function.update s.freevars i (sqGetStackObj v idx s.machine) }
  | addRef i => { s with machine := sqAddRef (s.freevars i) s.machine }
  | pop n => { s with machine := sqPop v n s.machine }
  | pushUserPointer p => { s with machine := sqPushUserPointer v p s.machine }
  | pushObject i => { s with machine := sqPushObject v (s.freevars i) s.machine }
  | release i => { s with machine := (sqRelease (s.freevars i) s.machine).1 }
  | newClosure func nfreevars => { s with machine := sqNewClosure v func nfreevars s.machine }

def runCalls (v : HSQUIRRELVM) (calls : List EngineCall) (s : Shuffle) : Shuffle :=
  calls.foldl (EngineCall.exec v) s

def saveLoop : Nat → Nat → List EngineCall
  | _, 0 => []
  | i, n + 1 => .getStackObj (-1) i :: .addRef i :: .pop 1 :: saveLoop (i + 1) n

def restoreLoop : Nat → List EngineCall
  | 0 => []
  | i + 1 => .pushObject i :: .release i :: restoreLoop i

def newClosureCalls (closureData : SQUserPointer) (nfreevars : Nat) : List EngineCall :=
  (if nfreevars > 0 then
    saveLoop 0 nfreevars ++ .pushUserPointer closureData :: restoreLoop nfreevars
  else [.pushUserPointer closureData]) ++
    [.newClosure .squirrelExecNativeClosure (nfreevars + 1)]

/-- `g_malloc` of the closure data, filled in. -/
def allocClosureData (data : SquirrelClosureData) (m : Machine) : Machine :=
  { m with
    closureData := Function.update m.closureData m.nextCell data
    nextCell := m.nextCell + 1 }

def squirrelVmNewClosure (self : SquirrelVm) (c : SquirrelFunction) (userData : Gpointer)
    (nfreevars : Nat) (m : Machine) : Machine :=
  (runCalls self.vm (newClosureCalls m.nextCell nfreevars)
    ⟨allocClosureData ⟨c, userData⟩ m, fun _ => .null⟩).machine

def squirrelVmSetParamsCheck (self : SquirrelVm) (nparamscheck : Int) (typemark : Option String)
    (m : Machine) : Machine × Int :=
  sqSetParamsCheck self.vm nparamscheck typemark m

def squirrelVmBindEnv (self : SquirrelVm) (idx : Int) (m : Machine) : Machine × Int :=
  sqBindEnv self.vm idx m

def squirrelVmSetFreeVariable (self : SquirrelVm) (idx : Int) (nval : Nat) (m : Machine) :
    Machine × Int :=
  sqSetFreeVariable self.vm idx nval m

def squirrelVmGetFreeVariable (self : SquirrelVm) (idx : Int) (nval : Nat) (m : Machine) :
    Machine × CString :=
  sqGetFreeVariable self.vm idx nval m

def squirrelVmGetClosureInfo (self : SquirrelVm) (idx : Int) (m : Machine) :
    Machine × Int × Option (Int × Nat) :=
  sqGetClosureInfo self.vm idx m

def squirrelVmCall (host : Host) (self : SquirrelVm) (params : Nat) (retval raiseerror : Bool)
    (m : Machine) : Machine × Int :=
  sqCall host.runtime self.vm params retval raiseerror m

/-- The effect of `sq_addref` on the pin table. -/
def pin (t : RefTable SQObject) (o : SQObject) : RefTable SQObject :=
  if o.isRefCounted then t.addRef SQObject.hashObj o else t

/-- The effect of `sq_release` on the pin table. -/
def unpin (t : RefTable SQObject) (o : SQObject) : RefTable SQObject :=
  if o.isRefCounted then (t.release SQObject.hashObj o).1 else t

section Shuffle

variable (v : HSQUIRRELVM)

theorem sqAddRef_eq (o : SQObject) (m : Machine) :
    sqAddRef o m = m.setRefsTable (pin m.refsTable o) := by
  rw [sqAddRef, pin]
  split <;> rfl

theorem sqRelease_eq (o : SQObject) (m : Machine) :
    (sqRelease o m).1 = m.setRefsTable (unpin m.refsTable o) := by
  rw [sqRelease, unpin]
  split <;> rfl

private theorem runCalls_append (xs ys : List EngineCall) (s : Shuffle) :
    runCalls v (xs ++ ys) s = runCalls v ys (runCalls v xs s) :=
  List.foldl_append

theorem saveTurn_run (i : Nat) (s : Shuffle) :
    runCalls v [.getStackObj (-1) i, .addRef i, .pop 1] s =
      ⟨(s.machine.setRefsTable
          (pin s.machine.refsTable ((s.machine.vms v).getUp (-1)))).onVM v pop,
        Function.update s.freevars i ((s.machine.vms v).getUp (-1))⟩ := by
  simp only [runCalls, List.foldl, EngineCall.exec, sqGetStackObj, sqPop, sqAddRef_eq,
    Function.update_self]
  rfl

theorem restoreTurn_run (i : Nat) (s : Shuffle) :
    runCalls v [.pushObject i, .release i] s =
      { s with
        machine := (s.machine.setRefsTable (unpin s.machine.refsTable (s.freevars i))).onVM v
          (push (s.freevars i)) } := by
  simp only [runCalls, List.foldl, EngineCall.exec, sqPushObject, sqRelease_eq]
  rfl

/-- What the first loop leaves: the values popped and pinned, and the array holding them from
entry `i` on. -/
theorem saveLoop_run (i n : Nat) (s : Shuffle) :
    (runCalls v (saveLoop i n) s).machine =
        (s.machine.setRefsTable
          (((s.machine.vms v).popped n).foldl pin s.machine.refsTable)).onVM v (popN n) ∧
      (∀ j < i, (runCalls v (saveLoop i n) s).freevars j = s.freevars j) ∧
      ∀ k < n, ((s.machine.vms v).popped n)[k]? =
        some ((runCalls v (saveLoop i n) s).freevars (i + k)) := by
  induction n generalizing i s with
  | zero =>
      exact ⟨(Machine.onVM_same rfl).symm, fun _ _ => rfl,
        fun k inside => absurd inside k.not_lt_zero⟩
  | succ n ih =>
      have turn : runCalls v (saveLoop i (n + 1)) s =
          runCalls v (saveLoop (i + 1) n) (runCalls v [.getStackObj (-1) i, .addRef i, .pop 1] s) :=
        rfl
      rw [turn, saveTurn_run]
      obtain ⟨machine, below, above⟩ := ih (i + 1)
        ⟨(s.machine.setRefsTable
            (pin s.machine.refsTable ((s.machine.vms v).getUp (-1)))).onVM v pop,
          Function.update s.freevars i ((s.machine.vms v).getUp (-1))⟩
      simp only [Machine.onVM_self, Machine.setRefsTable_vms] at machine above
      refine ⟨?_, ?_, ?_⟩
      · rw [machine]
        simp only [Machine.onVM_setRefsTable, Machine.onVM_onVM]
        rfl
      · intro j before
        rw [below j (by omega)]
        exact Function.update_of_ne (by omega) _ _
      · intro k inside
        cases k with
        | zero =>
            have entry := (below i (by omega)).trans (Function.update_self _ _ _)
            exact congrArg some entry.symm
        | succ k =>
            have next := above k (by omega)
            rw [Nat.add_right_comm] at next
            exact next

private theorem restoreLoop_run (l : List SQObject) (s : Shuffle)
    (array : ∀ k < l.length, l[k]? = some (s.freevars k)) :
    runCalls v (restoreLoop l.length) s =
      { s with
        machine := (s.machine.setRefsTable
          (l.reverse.foldl unpin s.machine.refsTable)).onVM v (pushAll l.reverse) } := by
  induction l using List.reverseRecOn generalizing s with
  | nil =>
      have same : s.machine.onVM v (pushAll []) = s.machine := Machine.onVM_same rfl
      exact congrArg (fun m => ({ s with machine := m } : Shuffle)) same.symm
  | append_singleton l o ih =>
      have last : s.freevars l.length = o := by simpa using (array l.length (by simp)).symm
      have turn : runCalls v (restoreLoop (l ++ [o]).length) s =
          runCalls v (restoreLoop l.length)
            (runCalls v [.pushObject l.length, .release l.length] s) := by
        rw [List.length_append, List.length_singleton]
        rfl
      rw [turn, restoreTurn_run, ih]
      · rw [last, List.reverse_append]
        simp only [Machine.onVM_setRefsTable, Machine.onVM_onVM]
        rfl
      · intro k inside
        have entry := array k (by rw [List.length_append]; omega)
        rwa [List.getElem?_append_left inside] at entry

/-- The state before the closure is made: the pointer lies under the free variables, which are
back in their order and no longer pinned. -/
theorem shuffle_run (p : SQUserPointer) (n : Nat) (s : Shuffle) :
    (runCalls v
        (if n > 0 then saveLoop 0 n ++ .pushUserPointer p :: restoreLoop n
        else [.pushUserPointer p]) s).machine =
      (s.machine.setRefsTable
        (((s.machine.vms v).popped n).reverse.foldl unpin
          (((s.machine.vms v).popped n).foldl pin s.machine.refsTable))).onVM v
        fun vm => pushAll (.userpointer p :: ((s.machine.vms v).popped n).reverse) (popN n vm) := by
  have length : ((s.machine.vms v).popped n).length = n := popped_length n _
  by_cases some : n > 0
  · obtain ⟨machine, -, array⟩ := saveLoop_run v 0 n s
    have pushed := restoreLoop_run v ((s.machine.vms v).popped n)
      (EngineCall.exec v (runCalls v (saveLoop 0 n) s) (.pushUserPointer p)) (by
        intro k inside
        rw [length] at inside
        have entry := array k inside
        rwa [Nat.zero_add] at entry)
    rw [length] at pushed
    rw [if_pos some, runCalls_append]
    change (runCalls v (restoreLoop n) _).machine = _
    rw [pushed]
    simp only [EngineCall.exec, machine, sqPushUserPointer, Machine.push,
      Machine.onVM_setRefsTable, Machine.setRefsTable_setRefsTable, Machine.onVM_onVM,
      Machine.onVM_refsTable, Machine.setRefsTable_refsTable]
    rfl
  · obtain rfl : n = 0 := by omega
    rfl

end Shuffle

/-- The outer values of a closure made by the wrapper: the free variables as they came off the
stack, then the pointer to the closure data. -/
def wrappedOuters (freevars : List SQObject) (p : SQUserPointer) : List SQObject :=
  freevars ++ [.userpointer p]

/-- The whole effect of `squirrel_vm_new_closure`. -/
theorem squirrelVmNewClosure_eq (self : SquirrelVm) (c : SquirrelFunction) (userData : Gpointer)
    (n : Nat) (m : Machine) :
    squirrelVmNewClosure self c userData n m =
      (((allocClosureData ⟨c, userData⟩ m).setRefsTable
        (((m.vms self.vm).popped n).reverse.foldl unpin
          (((m.vms self.vm).popped n).foldl pin m.refsTable))).allocObject.setNativeClosure
        m.nextObject
        (freshClosure .squirrelExecNativeClosure
          (wrappedOuters ((m.vms self.vm).popped n) m.nextCell))).onVM self.vm
        (replaceTop n (.nativeclosure m.nextObject)) := by
  have length : ((m.vms self.vm).popped n).length = n := popped_length n _
  have outers (vm : SQVM) :
      (pushAll (.userpointer m.nextCell :: ((m.vms self.vm).popped n).reverse) vm).popped (n + 1) =
        wrappedOuters ((m.vms self.vm).popped n) m.nextCell := by
    have taken := popped_pushAll (.userpointer m.nextCell :: ((m.vms self.vm).popped n).reverse) vm
    simpa [length, wrappedOuters] using taken
  have replaced (vm : SQVM) : push (.nativeclosure m.nextObject) (popN (n + 1)
      (pushAll (.userpointer m.nextCell :: ((m.vms self.vm).popped n).reverse) (popN n vm))) =
        replaceTop n (.nativeclosure m.nextObject) vm :=
    push_popN_pushAll_popN n _ vm (by simp [length])
  have before : (runCalls self.vm _ ⟨allocClosureData ⟨c, userData⟩ m, fun _ => .null⟩).machine =
      ((allocClosureData ⟨c, userData⟩ m).setRefsTable
        (((m.vms self.vm).popped n).reverse.foldl unpin
          (((m.vms self.vm).popped n).foldl pin m.refsTable))).onVM self.vm fun vm =>
        pushAll (.userpointer m.nextCell :: ((m.vms self.vm).popped n).reverse) (popN n vm) :=
    shuffle_run self.vm m.nextCell n ⟨allocClosureData ⟨c, userData⟩ m, fun _ => .null⟩
  rw [squirrelVmNewClosure, newClosureCalls, runCalls_append]
  change sqNewClosure self.vm .squirrelExecNativeClosure (n + 1) (runCalls self.vm _ _).machine = _
  rw [before, sqNewClosure_eq, Machine.onVM_self, outers, Machine.onVM_nextObject,
    Machine.onVM_allocObject, Machine.onVM_setNativeClosure, Machine.onVM_onVM]
  exact congrArg (fun f => Machine.onVM self.vm f _) (funext replaced)

end SquirrelGObject.Wrapper
