/- SquirrelGObject/Wrapper/Callback
   digest: Signal callbacks: what one emission leaves on the stack, and what a run of them does. -/

import SquirrelGObject.Lib.Runs
import SquirrelGObject.Wrapper.Closure

set_option autoImplicit false
set_option relaxedAutoImplicit false

namespace SquirrelGObject.Wrapper

open Engine SQVM Lib.Window Lib.Runs

def squirrelVmGetLastError (self : SquirrelVm) (m : Machine) : Machine := sqGetLastError self.vm m

def squirrelVmGetString (host : Host) (self : SquirrelVm) (idx : Int) (m : Machine) :
    Machine × Int × Option CString :=
  sqGetString host.printFloat self.vm idx m

/-- What `%s` prints for a pointer. -/
def printPointer (host : Host) : CString → String
  | .null => "(null)"
  | .text s => s
  | .wild p => host.textAt p

/-- `squirrel_vm_run_callback`. `errMsg` is what the unset local of that name holds. -/
def squirrelVmRunCallback (host : Host) (self : SquirrelVm) (nParams : Nat) (signalName : String)
    (errMsg : CString) (m : Machine) : Machine :=
  let (m, result) := squirrelVmCall host self nParams true false m
  if result ≠ sqOk then
    let m := squirrelVmGetLastError self m
    let (m, _, written) := squirrelVmGetString host self (-1) m
    m.gWarning ("Error running Squirrel callback for signal '" ++ signalName ++ "': " ++
      printPointer host (written.getD errMsg))
  else m

/-- One emission of a signal: the host pushes the callable and the parameters. -/
structure Emission where
  callable : SQObject
  params : List SQObject
  signalName : String
  errMsg : CString

def Emission.prepare (self : SquirrelVm) (e : Emission) (m : Machine) : Machine :=
  m.onVM self.vm (pushAll (e.callable :: e.params))

def emit (host : Host) (self : SquirrelVm) (m : Machine) (e : Emission) : Machine :=
  squirrelVmRunCallback host self e.params.length e.signalName e.errMsg (e.prepare self m)

def emissionStep (host : Host) (self : SquirrelVm) (m : Machine) (e : Emission) :
    Machine × Unit :=
  (emit host self m e, ())

/-- The callback of this emission, if it runs, returns without suspending the VM. -/
def Emission.Completes (host : Host) (self : SquirrelVm) (m : Machine) (e : Emission) : Prop :=
  CalleeReturns host.runtime self.vm
    (((e.prepare self m).vms self.vm).getUp (-(e.params.length + 1))) e.params.length
    (((e.prepare self m).vms self.vm).top - e.params.length) false (e.prepare self m)

private theorem squirrelVmGetString_place (host : Host) (self : SquirrelVm) (idx : Int)
    (m : Machine) :
    SamePlace (m.vms self.vm) ((squirrelVmGetString host self idx m).1.vms self.vm) := by
  rw [squirrelVmGetString, sqGetString_eq]
  split
  · exact SamePlace.refl _
  · rw [Machine.raise, Machine.onVM_self]
    exact ⟨rfl, rfl, rfl⟩

private theorem squirrelVmRunCallback_place (host : Host) (self : SquirrelVm) (nParams : Nat)
    (signalName : String) (errMsg : CString) (m : Machine) :
    SamePlace
      (if (squirrelVmCall host self nParams true false m).2 = sqOk then
        (squirrelVmCall host self nParams true false m).1.vms self.vm
      else ((squirrelVmCall host self nParams true false m).1.vms self.vm).push
        ((squirrelVmCall host self nParams true false m).1.vms self.vm).lastError)
      ((squirrelVmRunCallback host self nParams signalName errMsg m).vms self.vm) := by
  rw [squirrelVmRunCallback]
  dsimp only
  by_cases ok : (squirrelVmCall host self nParams true false m).2 = sqOk
  · rw [if_pos ok, if_neg (not_not.mpr ok)]
    exact SamePlace.refl _
  · rw [if_neg ok, if_pos ok]
    have read := squirrelVmGetString_place host self (-1)
      (squirrelVmGetLastError self (squirrelVmCall host self nParams true false m).1)
    have pushed : (squirrelVmGetLastError self
        (squirrelVmCall host self nParams true false m).1).vms self.vm =
          ((squirrelVmCall host self nParams true false m).1.vms self.vm).push
            ((squirrelVmCall host self nParams true false m).1.vms self.vm).lastError :=
      Machine.onVM_self _ _ _
    rw [pushed] at read
    exact read

structure Ready (vm : SQVM) : Prop where
  frame : vm.stackBase ≤ vm.top
  running : vm.suspended = false

private theorem Emission.prepare_place (self : SquirrelVm) (e : Emission) (m : Machine) :
    ((e.prepare self m).vms self.vm).stackBase = (m.vms self.vm).stackBase ∧
      ((e.prepare self m).vms self.vm).top = (m.vms self.vm).top + 1 + e.params.length ∧
      ((e.prepare self m).vms self.vm).suspended = (m.vms self.vm).suspended := by
  have start : (e.prepare self m).vms self.vm =
      pushAll (e.callable :: e.params) (m.vms self.vm) := Machine.onVM_self _ _ _
  refine ⟨by rw [start, pushAll_onlyStack], ?_, by rw [start, pushAll_onlyStack]⟩
  rw [start, pushAll_top, List.length_cons]
  push_cast
  omega

/-- Every emission that completes leaves at least two more values: the callable, and either the
result or the last error. -/
private theorem emit_place {host : Host} {self : SquirrelVm} {m : Machine} {e : Emission}
    (ready : Ready (m.vms self.vm)) (completes : e.Completes host self m) :
    Ready ((emit host self m e).vms self.vm) ∧
      (m.vms self.vm).stackBase ≤ ((emit host self m e).vms self.vm).stackBase ∧
      (m.vms self.vm).top + 2 ≤ ((emit host self m e).vms self.vm).top := by
  obtain ⟨base, top, awake⟩ := e.prepare_place self m
  have running := awake.trans ready.running
  have within := ready.frame
  have final := squirrelVmRunCallback_place host self e.params.length e.signalName e.errMsg
    (e.prepare self m)
  have called :
      (ReturnPlace ((e.prepare self m).vms self.vm)
            ((squirrelVmCall host self e.params.length true false
              (e.prepare self m)).1.vms self.vm) e.params.length true
            (squirrelVmCall host self e.params.length true false (e.prepare self m)).2 ∨
          StrandedPlace ((e.prepare self m).vms self.vm)
            ((squirrelVmCall host self e.params.length true false
              (e.prepare self m)).1.vms self.vm) e.params.length
            (squirrelVmCall host self e.params.length true false (e.prepare self m)).2) ∧
        ((squirrelVmCall host self e.params.length true false
          (e.prepare self m)).1.vms self.vm).suspended = false :=
    sqCall_place running completes
  change Ready ((squirrelVmRunCallback host self e.params.length e.signalName e.errMsg
    (e.prepare self m)).vms self.vm) ∧ _ ≤ ((squirrelVmRunCallback host self e.params.length
    e.signalName e.errMsg (e.prepare self m)).vms self.vm).stackBase ∧
    _ ≤ ((squirrelVmRunCallback host self e.params.length e.signalName e.errMsg
    (e.prepare self m)).vms self.vm).top
  generalize (squirrelVmRunCallback host self e.params.length e.signalName e.errMsg
    (e.prepare self m)).vms self.vm = after at final ⊢
  generalize squirrelVmCall host self e.params.length true false (e.prepare self m) = result
    at called final
  obtain ⟨place, awake⟩ := called
  obtain ⟨stackBase, height, suspended⟩ := final
  have pushed (error : result.2 = sqError) : after.stackBase = (result.1.vms self.vm).stackBase ∧
      after.top = (result.1.vms self.vm).top + 1 ∧
      after.suspended = (result.1.vms self.vm).suspended := by
    have bad : result.2 ≠ sqOk := by rw [error]; decide
    rw [if_neg bad] at stackBase height suspended
    exact ⟨stackBase, height, suspended⟩
  rcases place with (⟨ok, base', top'⟩ | ⟨error, base', top'⟩) | ⟨error, base', top'⟩
  · rw [if_pos ok] at stackBase height suspended
    rw [if_pos rfl] at top'
    exact ⟨⟨by omega, suspended.trans awake⟩, by omega, by omega⟩
  · obtain ⟨stackBase, height, suspended⟩ := pushed error
    exact ⟨⟨by omega, suspended.trans awake⟩, by omega, by omega⟩
  · obtain ⟨stackBase, height, suspended⟩ := pushed error
    exact ⟨⟨by omega, suspended.trans awake⟩, by omega, by omega⟩

private theorem emissions_place {host : Host} {self : SquirrelVm} {m : Machine} {es : List Emission}
    (ready : Ready (m.vms self.vm))
    (completes : Along (emissionStep host self) (Emission.Completes host self) m es) :
    (m.vms self.vm).top + 2 * es.length ≤
        ((final (emissionStep host self) m es).vms self.vm).top ∧
      Ready ((final (emissionStep host self) m es).vms self.vm) := by
  induction es generalizing m with
  | nil => exact ⟨by simp, ready⟩
  | cons e es ih =>
      obtain ⟨here, rest⟩ := completes
      obtain ⟨next, -, grown⟩ := emit_place ready here
      obtain ⟨height, last⟩ := ih next rest
      refine ⟨?_, last⟩
      have step : (emissionStep host self m e).1 = emit host self m e := rfl
      rw [List.length_cons, final_cons, step]
      push_cast
      omega

/-- The stack of a VM: where its frame starts and the values in it. -/
def SameStack (vm vm' : SQVM) : Prop :=
  vm'.stackBase = vm.stackBase ∧ vm'.visible = vm.visible

/-- A run of completed emissions leaves the stack as it was exactly when there were none. -/
theorem emissions_keep_stack_iff_none {host : Host} {self : SquirrelVm} {m : Machine}
    {es : List Emission} (ready : Ready (m.vms self.vm))
    (completes : Along (emissionStep host self) (Emission.Completes host self) m es) :
    SameStack (m.vms self.vm) ((final (emissionStep host self) m es).vms self.vm) ↔ es = [] := by
  constructor
  · rintro ⟨base, visible⟩
    obtain ⟨height, last⟩ := emissions_place ready completes
    have lengths := congrArg List.length visible
    rw [visible_length, visible_length, base] at lengths
    have within := ready.frame
    have none : es.length = 0 := by omega
    exact List.eq_nil_of_length_eq_zero none
  · rintro rfl
    exact ⟨rfl, rfl⟩

/-- One script callback that returns and one value that is not callable. -/
theorem two_emissions_move_the_stack :
    ¬ SameStack ((squirrelVmNew 1024 0).1.vms 0)
      ((final (emissionStep quietHost ⟨0⟩) (squirrelVmNew 1024 0).1
        [⟨.closure 1, [.table 0, .integer 3], "changed", .null⟩,
          ⟨.integer 5, [.table 0], "changed", .null⟩]).vms 0) := by
  have ready : Ready ((squirrelVmNew 1024 0).1.vms 0) := ⟨by decide, by decide⟩
  have completes : Along (emissionStep quietHost ⟨0⟩) (Emission.Completes quietHost ⟨0⟩)
      (squirrelVmNew 1024 0).1
      [⟨.closure 1, [.table 0, .integer 3], "changed", .null⟩,
        ⟨.integer 5, [.table 0], "changed", .null⟩] :=
    ⟨SamePlace.refl _, trivial, trivial⟩
  intro same
  cases (emissions_keep_stack_iff_none ready completes).mp same

/-- One emission with a host callback that returns nothing: the callable and a null stay. -/
theorem emission_of_host_callback_moves_the_stack :
    ¬ SameStack ((squirrelVmNewClosure ⟨0⟩ 7 0 0 (squirrelVmNew 1024 0).1).vms 0)
      ((emit quietHost ⟨0⟩ (squirrelVmNewClosure ⟨0⟩ 7 0 0 (squirrelVmNew 1024 0).1)
        ⟨.nativeclosure 2, [.table 0], "changed", .null⟩).vms 0) := by
  rintro ⟨-, visible⟩
  revert visible
  decide

end SquirrelGObject.Wrapper
