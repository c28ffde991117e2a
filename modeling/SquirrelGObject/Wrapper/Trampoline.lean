/- SquirrelGObject/Wrapper/Trampoline
   digest: A host closure next to a plain native closure: how it is made, what its function sees, and how its calls end. -/

import SquirrelGObject.Engine.Alike
import SquirrelGObject.Wrapper.Closure

set_option autoImplicit false
set_option relaxedAutoImplicit false

namespace SquirrelGObject.Wrapper

open Engine Lib.Window SQVM

/-- The closure is the one that `squirrel_vm_new_closure` made with this function, user data and
free variables. Its parameter check and its environment are free. -/
structure HostClosure (m : Machine) (c : Address) (f : SquirrelFunction) (userData : Gpointer)
    (freevars : List SQObject) : Prop where
  function : (m.nativeClosures c).function = .squirrelExecNativeClosure
  data : ∃ p, p ≠ 0 ∧ (m.nativeClosures c).outervalues = wrappedOuters freevars p ∧
    m.closureData p = ⟨f, userData⟩

/-- The closure is the one that `sq_newclosure` makes of the same free variables and a native
function that calls the host function directly, with the same parameter check and environment. -/
structure PlainTwin (host : Host) (m : Machine) (c plain : Address) (f : SquirrelFunction)
    (userData : Gpointer) (freevars : List SQObject) : Prop where
  function : ∃ k, (m.nativeClosures plain).function = .native k ∧
    ∀ v m, host.native k v m = host.callback f (squirrelVmFromHvm v) userData m
  outervalues : (m.nativeClosures plain).outervalues = freevars
  nparamscheck : (m.nativeClosures plain).nparamscheck = (m.nativeClosures c).nparamscheck
  typecheck : (m.nativeClosures plain).typecheck = (m.nativeClosures c).typecheck
  env : (m.nativeClosures plain).env = (m.nativeClosures c).env

/-- Started here, the function looks neither at slots from its top up to `hi` nor at the closure
that its own call record names, and leaves nothing behind that depends on them. -/
def BlindAt (g : Machine → Machine × Int) (v : HSQUIRRELVM) (hi : Int) (entry : Machine) : Prop :=
  ∀ entry', Machine.Alike v ((entry.vms v).callsStackSize - 1) (entry.vms v).top hi entry entry' →
    (g entry').2 = (g entry).2 ∧
      Machine.Alike v ((entry.vms v).callsStackSize - 1) ((g entry).1.vms v).top hi
        (g entry).1 (g entry').1

/-- The call runs the host function once: on this state, in a frame that holds the arguments, the
first of them replaced by a bound environment, and then the free variables. What it returns decides
how the call ends. -/
structure RunsOnce (host : Host) (m : Machine) (v : HSQUIRRELVM) (c : Address)
    (f : SquirrelFunction) (userData : Gpointer) (freevars : List SQObject) (nargs : Nat)
    (newbase target : Int) (entry : Machine) : Prop where
  frame : (entry.vms v).Frame (bindFirst ((m.nativeClosures c).env.map m.weakRefs)
    (window (m.vms v).stack newbase (newbase + nargs)) ++ freevars)
  outcome : callNative host.runtime v c nargs newbase target m =
    nativeReturn v (host.callback f (squirrelVmFromHvm v) userData entry).2
      (host.callback f (squirrelVmFromHvm v) userData entry).1

section Making

variable (self : SquirrelVm) (f : SquirrelFunction) (userData : Gpointer) {m : Machine}
  {xs vs : List SQObject}

private theorem newClosure_frame (frame : (m.vms self.vm).Frame (xs ++ vs)) :
    ((squirrelVmNewClosure self f userData vs.length m).vms self.vm).Frame
        (xs ++ [.nativeclosure m.nextObject]) ∧
      ((squirrelVmNewClosure self f userData vs.length m).vms self.vm).stackBase =
        (m.vms self.vm).stackBase := by
  rw [squirrelVmNewClosure_eq, Machine.onVM_self]
  exact ⟨Frame.replaceTop frame _, rfl⟩

private theorem newClosure_staysInside (vs : List SQObject)
    (room : (m.vms self.vm).top < (m.vms self.vm).stackSize) {i : Int}
    (outside : (m.vms self.vm).stackSize ≤ i) :
    ((squirrelVmNewClosure self f userData vs.length m).vms self.vm).stack i =
      (m.vms self.vm).stack i := by
  rw [squirrelVmNewClosure_eq, Machine.onVM_self]
  change (if i = (m.vms self.vm).top - vs.length then _ else
    if (m.vms self.vm).top - vs.length < i ∧ i ≤ (m.vms self.vm).top then _ else _) = _
  rw [if_neg (by omega), if_neg (by omega)]
  rfl

private theorem newClosure_hostClosure (cells : 0 < m.nextCell)
    (frame : (m.vms self.vm).Frame (xs ++ vs)) :
    HostClosure (squirrelVmNewClosure self f userData vs.length m) m.nextObject f userData
      vs.reverse := by
  have record : (squirrelVmNewClosure self f userData vs.length m).nativeClosures m.nextObject =
      freshClosure .squirrelExecNativeClosure (wrappedOuters vs.reverse m.nextCell) := by
    rw [squirrelVmNewClosure_eq, Frame.popped frame]
    exact Function.update_self _ _ _
  have data : (squirrelVmNewClosure self f userData vs.length m).closureData m.nextCell =
      ⟨f, userData⟩ := by
    rw [squirrelVmNewClosure_eq]
    exact Function.update_self _ _ _
  exact ⟨by rw [record]; rfl, m.nextCell, Nat.pos_iff_ne_zero.mp cells, by rw [record]; rfl, data⟩

end Making

section Calling

variable {host : Host} {m : Machine} {v : HSQUIRRELVM} {c plain : Address} {f : SquirrelFunction}
  {userData : Gpointer} {freevars : List SQObject} {nargs : Nat} {newbase target : Int}

private theorem PlainTwin.check (twin : PlainTwin host m c plain f userData freevars) :
    checkNative (m.nativeClosures plain) nargs newbase (m.vms v) =
      checkNative (m.nativeClosures c) nargs newbase (m.vms v) := by
  unfold checkNative
  rw [twin.nparamscheck, twin.typecheck]

private theorem callNative_refused {rt : Runtime} {a : Address} {e : SQObject}
    (failed : checkNative (m.nativeClosures a) nargs newbase (m.vms v) = some e) :
    callNative rt v a nargs newbase target m = ⟨m.raise v e, false, none, none⟩ := by
  rw [callNative, nativeEntry]
  dsimp only
  rw [failed]

def plainEntry (m : Machine) (v : HSQUIRRELVM) (plain : Address) (nargs : Nat)
    (newbase target : Int) : Machine :=
  m.onVM v fun vm => addNativeCalls 1 (layoutNative plain (m.nativeClosures plain)
    ((m.nativeClosures plain).env.map m.weakRefs) nargs newbase target
    (enteredFrame newbase (newbase + nargs + (m.nativeClosures plain).outervalues.length) vm))

private theorem plainEntry_place (m : Machine) (v : HSQUIRRELVM) (plain : Address) (nargs : Nat)
    (newbase target : Int) :
    ((plainEntry m v plain nargs newbase target).vms v).callsStackSize - 1 =
        (m.vms v).callsStackSize ∧
      ((plainEntry m v plain nargs newbase target).vms v).top =
        newbase + nargs + (m.nativeClosures plain).outervalues.length := by
  rw [plainEntry, Machine.onVM_self, layoutNative_enteredFrame]
  exact ⟨Int.add_sub_cancel _ _, rfl⟩

private theorem callNative_plain (target : Int)
    (twin : PlainTwin host m c plain f userData freevars)
    (passed : checkNative (m.nativeClosures plain) nargs newbase (m.vms v) = none)
    (fits : newbase + nargs + freevars.length + minStackOverhead ≤ (m.vms v).stackSize) :
    nativeEntry v plain nargs newbase target m = .ok (plainEntry m v plain nargs newbase target) ∧
      callNative host.runtime v plain nargs newbase target m =
        nativeReturn v
          (host.callback f (squirrelVmFromHvm v) userData
            (plainEntry m v plain nargs newbase target)).2
          (host.callback f (squirrelVmFromHvm v) userData
            (plainEntry m v plain nargs newbase target)).1 := by
  obtain ⟨k, function, direct⟩ := twin.function
  have entered := nativeEntry_of_fits target passed (by rwa [twin.outervalues])
  refine ⟨entered, ?_⟩
  rw [callNative, entered, function, ← direct]
  rfl

/-- The state on which the host closure's function starts: the trampoline has popped the pointer. -/
def hostEntry (m : Machine) (v : HSQUIRRELVM) (c : Address) (nargs : Nat)
    (newbase target : Int) : Machine :=
  sqPop v 1 (m.onVM v fun vm => addNativeCalls 1 (layoutNative c (m.nativeClosures c)
    ((m.nativeClosures c).env.map m.weakRefs) nargs newbase target
    (enteredFrame newbase (newbase + nargs + (m.nativeClosures c).outervalues.length) vm)))

private theorem hostEntry_vm (m : Machine) (v : HSQUIRRELVM) (c : Address) (nargs : Nat)
    (newbase target : Int) :
    (hostEntry m v c nargs newbase target).vms v =
      popN 1 (addNativeCalls 1 (layoutNative c (m.nativeClosures c)
        ((m.nativeClosures c).env.map m.weakRefs) nargs newbase target
        (enteredFrame newbase (newbase + nargs + (m.nativeClosures c).outervalues.length)
          (m.vms v)))) := by
  rw [hostEntry, sqPop, Machine.onVM_onVM, Machine.onVM_self]

private theorem callNative_host (host : Host) (target : Int)
    (made : HostClosure m c f userData freevars) (some : 0 < nargs)
    (passed : checkNative (m.nativeClosures c) nargs newbase (m.vms v) = none)
    (fits : newbase + nargs + freevars.length + 1 + minStackOverhead ≤ (m.vms v).stackSize) :
    RunsOnce host m v c f userData freevars nargs newbase target
      (hostEntry m v c nargs newbase target) := by
  obtain ⟨p, set, outers, data⟩ := made.data
  have length : (m.nativeClosures c).outervalues.length = freevars.length + 1 := by
    rw [outers, wrappedOuters, List.length_append, List.length_singleton]
  have entered := nativeEntry_of_fits target passed (by rw [length]; push_cast; omega)
  have listed : bindFirst ((m.nativeClosures c).env.map m.weakRefs)
      (window (m.vms v).stack newbase (newbase + nargs)) ++ (m.nativeClosures c).outervalues =
      bindFirst ((m.nativeClosures c).env.map m.weakRefs)
        (window (m.vms v).stack newbase (newbase + nargs)) ++ freevars ++ [.userpointer p] := by
    rw [outers, wrappedOuters, List.append_assoc]
  have laid := layoutNative_frame c (m.nativeClosures c)
    ((m.nativeClosures c).env.map m.weakRefs) some newbase target (m.vms v)
  rw [listed] at laid
  constructor
  · rw [hostEntry_vm]
    exact Frame.pop laid
  · rw [callNative, entered, made.function]
    dsimp only [Host.runtime]
    rw [squirrelExecNativeClosure_eq host (p := p) _ set]
    · dsimp only [Machine.onVM_closureData]
      rw [data]
      rfl
    · rw [Machine.onVM_self]
      exact Frame.top laid

/-- The two functions start on states that differ only in the slot of the pointer and in the closure
that the record names. -/
private theorem entries_alike (v : HSQUIRRELVM) (nargs : Nat) (newbase target : Int)
    (made : HostClosure m c f userData freevars)
    (twin : PlainTwin host m c plain f userData freevars) :
    Machine.Alike v (m.vms v).callsStackSize (newbase + nargs + freevars.length)
      (newbase + nargs + freevars.length) (plainEntry m v plain nargs newbase target)
      (hostEntry m v c nargs newbase target) := by
  obtain ⟨p, -, outers, -⟩ := made.data
  rw [← twin.outervalues, wrappedOuters] at outers
  refine ⟨rfl, ?_, ?_⟩
  · intro w apart
    rw [plainEntry, hostEntry, sqPop, Machine.onVM_onVM, Machine.onVM_of_ne apart,
      Machine.onVM_of_ne apart]
  · rw [hostEntry_vm, ← twin.env, ← twin.outervalues, plainEntry, Machine.onVM_self]
    exact layoutNative_alike outers _ _

private theorem callNative_alike (made : HostClosure m c f userData freevars)
    (twin : PlainTwin host m c plain f userData freevars) (some : 0 < nargs)
    (passed : checkNative (m.nativeClosures c) nargs newbase (m.vms v) = none)
    (fits : newbase + nargs + freevars.length + 1 + minStackOverhead ≤ (m.vms v).stackSize)
    (blind : ∀ entry, nativeEntry v plain nargs newbase target m = .ok entry →
      BlindAt (host.callback f (squirrelVmFromHvm v) userData) v
        (newbase + nargs + freevars.length) entry) :
    NativeOutcome.Alike v (m.vms v).callsStackSize
      ((host.callback f (squirrelVmFromHvm v) userData
        (hostEntry m v c nargs newbase target)).1.vms v).top
      (newbase + nargs + freevars.length)
      (callNative host.runtime v plain nargs newbase target m)
      (callNative host.runtime v c nargs newbase target m) := by
  have runs := callNative_host host target made some passed fits
  obtain ⟨entered, returned⟩ := callNative_plain target twin (twin.check.trans passed) (by omega)
  have start := entries_alike v nargs newbase target made twin
  obtain ⟨depth, top⟩ := plainEntry_place m v plain nargs newbase target
  rw [twin.outervalues] at top
  have unseen := blind _ entered
  rw [BlindAt, depth, top] at unseen
  obtain ⟨result, after⟩ := unseen _ start
  rw [after.vm.top, returned, runs.outcome, result]
  exact nativeReturn_alike after (Int.le_refl _) _

end Calling

/-- A call of the host closure: a failed check ends it before anything runs, and otherwise the host
function runs once. -/
structure CallsOnce (host : Host) (m : Machine) (v : HSQUIRRELVM) (c : Address)
    (f : SquirrelFunction) (userData : Gpointer) (freevars : List SQObject) (nargs : Nat)
    (newbase target : Int) : Prop where
  refused : ∀ e, checkNative (m.nativeClosures c) nargs newbase (m.vms v) = some e →
    callNative host.runtime v c nargs newbase target m = ⟨m.raise v e, false, none, none⟩
  ran : checkNative (m.nativeClosures c) nargs newbase (m.vms v) = none →
    RunsOnce host m v c f userData freevars nargs newbase target
      (hostEntry m v c nargs newbase target)

/-- The same call of the plain closure. It fails the same checks. Where the host function looks
neither behind its frame nor at the closure it runs in, the calls end alike; they can differ only
in the slots from where the function left its top up to the one behind the free variables. -/
structure CallsAlike (host : Host) (m : Machine) (v : HSQUIRRELVM) (c plain : Address)
    (f : SquirrelFunction) (userData : Gpointer) (freevars : List SQObject) (nargs : Nat)
    (newbase target : Int) : Prop where
  refused : ∀ e, checkNative (m.nativeClosures c) nargs newbase (m.vms v) = some e →
    callNative host.runtime v plain nargs newbase target m = ⟨m.raise v e, false, none, none⟩
  ran : checkNative (m.nativeClosures c) nargs newbase (m.vms v) = none →
    (∀ entry, nativeEntry v plain nargs newbase target m = .ok entry →
      BlindAt (host.callback f (squirrelVmFromHvm v) userData) v
        (newbase + nargs + freevars.length) entry) →
    NativeOutcome.Alike v (m.vms v).callsStackSize
      ((host.callback f (squirrelVmFromHvm v) userData
        (hostEntry m v c nargs newbase target)).1.vms v).top
      (newbase + nargs + freevars.length)
      (callNative host.runtime v plain nargs newbase target m)
      (callNative host.runtime v c nargs newbase target m)

/-- The trampoline does not show: the closure takes the place of exactly the given values, each
later call of it, from any VM and with any parameter check and environment, runs the host function
once on its arguments and free variables, and next to a plain closure with the same free variables
whose function is the host function, it ends alike, provided that function stays inside its
frame. -/
theorem trampoline_transparent (host : Host) (self : SquirrelVm) (f : SquirrelFunction)
    (userData : Gpointer) (m : Machine) (xs vs : List SQObject) (cells : 0 < m.nextCell)
    (frame : (m.vms self.vm).Frame (xs ++ vs))
    (room : (m.vms self.vm).top < (m.vms self.vm).stackSize) :
    (((squirrelVmNewClosure self f userData vs.length m).vms self.vm).Frame
        (xs ++ [.nativeclosure m.nextObject]) ∧
      ((squirrelVmNewClosure self f userData vs.length m).vms self.vm).stackBase =
        (m.vms self.vm).stackBase ∧
      (∀ i, (m.vms self.vm).stackSize ≤ i →
        ((squirrelVmNewClosure self f userData vs.length m).vms self.vm).stack i =
          (m.vms self.vm).stack i) ∧
      HostClosure (squirrelVmNewClosure self f userData vs.length m) m.nextObject f userData
        vs.reverse) ∧
    (∀ k, (sqNewClosure self.vm (.native k) vs.length m).nativeClosures m.nextObject =
      freshClosure (.native k) vs.reverse) ∧
    ∀ (later : Machine) (v : HSQUIRRELVM) (c : Address) (nargs : Nat) (newbase target : Int),
      HostClosure later c f userData vs.reverse →
      0 < nargs →
      newbase + nargs + vs.length + 1 + minStackOverhead ≤ (later.vms v).stackSize →
      CallsOnce host later v c f userData vs.reverse nargs newbase target ∧
        ∀ plain, PlainTwin host later c plain f userData vs.reverse →
          CallsAlike host later v c plain f userData vs.reverse nargs newbase target := by
  obtain ⟨replaced, base⟩ := newClosure_frame self f userData frame
  refine ⟨⟨replaced, base, fun i outside => newClosure_staysInside self f userData vs room outside,
    newClosure_hostClosure self f userData cells frame⟩, ?_, ?_⟩
  · intro k
    rw [sqNewClosure_eq, Frame.popped frame]
    exact Function.update_self _ _ _
  · intro later v c nargs newbase target made some fits
    rw [← List.length_reverse] at fits
    refine ⟨⟨fun e failed => callNative_refused failed, ?_⟩, ?_⟩
    · exact fun passed => callNative_host host target made some passed fits
    · intro plain twin
      refine ⟨fun e failed => callNative_refused (twin.check.trans failed), ?_⟩
      exact fun passed blind => callNative_alike made twin some passed fits blind

def twoClosures : Machine :=
  let values := pushAll [.integer 10, .integer 20]
  let m := squirrelVmNewClosure ⟨0⟩ 7 9 2 ((squirrelVmNew 1024 0).1.onVM 0 values)
  sqPushRootTable 0 (sqNewClosure 0 (.native 5) 2 (m.onVM 0 values))

def returningHost (idx : Int) : Host :=
  { quietHost with
    callback := fun _ vm _ m => (sqPush vm.vm idx m, 1)
    native := fun _ v m => (sqPush v idx m, 1) }

private theorem returningHost_blind (f : SquirrelFunction) (userData : Gpointer) (v : HSQUIRRELVM)
    (hi : Int) (entry : Machine) :
    BlindAt ((returningHost (-1)).callback f (squirrelVmFromHvm v) userData) v hi entry := by
  intro entry' alike
  have value : (entry'.vms v).stackGet (-1) = (entry.vms v).stackGet (-1) :=
    alike.vm.stackGet (.inr ⟨by decide, by omega⟩)
  refine ⟨rfl, ?_⟩
  change Machine.Alike v _ ((entry.onVM v (push ((entry.vms v).stackGet (-1)))).vms v).top hi
    (entry.onVM v (push ((entry.vms v).stackGet (-1))))
    (entry'.onVM v (push ((entry'.vms v).stackGet (-1))))
  rw [value, Machine.onVM_self, push_top]
  exact alike.onVM (alike.vm.push _ rfl)

private theorem twoClosures_host : twoClosures.nativeClosures 2 =
    freshClosure .squirrelExecNativeClosure (wrappedOuters [.integer 20, .integer 10] 1) := by
  decide +kernel

private theorem twoClosures_plain :
    twoClosures.nativeClosures 3 = freshClosure (.native 5) [.integer 20, .integer 10] := by
  decide +kernel

/-- Both closures called with one argument return the last of the free variables. -/
theorem twoClosures_return_alike :
    (callNative (returningHost (-1)).runtime 0 2 1 2 (-1) twoClosures).retval =
      (callNative (returningHost (-1)).runtime 0 3 1 2 (-1) twoClosures).retval := by
  have frame : (((squirrelVmNew 1024 0).1.onVM 0 (pushAll [.integer 10, .integer 20])).vms 0).Frame
      ([] ++ [.integer 10, .integer 20]) := by
    rw [Machine.onVM_self]
    exact pushAll_holds Holds.nil _
  have made : HostClosure twoClosures 2 7 9 [.integer 20, .integer 10] :=
    ⟨by rw [twoClosures_host]; rfl, 1, by decide, by rw [twoClosures_host]; rfl, by decide +kernel⟩
  have twin : PlainTwin (returningHost (-1)) twoClosures 2 3 7 9 [.integer 20, .integer 10] :=
    ⟨⟨5, by rw [twoClosures_plain]; rfl, fun _ _ => rfl⟩, by rw [twoClosures_plain]; rfl,
      by rw [twoClosures_plain, twoClosures_host]; rfl,
      by rw [twoClosures_plain, twoClosures_host]; rfl,
      by rw [twoClosures_plain, twoClosures_host]; rfl⟩
  obtain ⟨-, -, calls⟩ := trampoline_transparent (returningHost (-1)) ⟨0⟩ 7 9 _ []
    [.integer 10, .integer 20] Nat.one_pos frame (by decide)
  obtain ⟨-, alike⟩ := calls twoClosures 0 2 1 2 (-1) made (by decide) (by decide +kernel)
  have same := (alike 3 twin).ran (by decide +kernel)
    (fun entry _ => returningHost_blind _ _ _ _ entry)
  exact same.retval

/-- One closure of each kind without free variables, and the frame of a script function that has a
register above the argument it calls them with. -/
def tallFrame : Machine :=
  let m := squirrelVmNewClosure ⟨0⟩ 7 9 0 (squirrelVmNew 1024 0).1
  (sqNewClosure 0 (.native 5) 0 m).onVM 0 (pushAll [.table 0, .integer 7])

/-- The slot of the pointer is a register of the caller. The call of the host closure clears it, and
a function that reads behind its last argument finds it cleared. -/
theorem trampoline_clears_register :
    HostClosure tallFrame 2 7 9 [] ∧
      2 + 1 + 0 + 1 + minStackOverhead ≤ (tallFrame.vms 0).stackSize ∧
      PlainTwin (returningHost 2) tallFrame 2 3 7 9 [] ∧
      (callNative (returningHost 2).runtime 0 2 1 2 (-1) tallFrame).retval = some .null ∧
      (callNative (returningHost 2).runtime 0 3 1 2 (-1) tallFrame).retval = some (.integer 7) ∧
      PlainTwin quietHost tallFrame 2 3 7 9 [] ∧
      ((callNative quietHost.runtime 0 2 1 2 (-1) tallFrame).machine.vms 0).visible =
        [.nativeclosure 2, .nativeclosure 3, .table 0, .null] ∧
      ((callNative quietHost.runtime 0 3 1 2 (-1) tallFrame).machine.vms 0).visible =
        [.nativeclosure 2, .nativeclosure 3, .table 0, .integer 7] :=
  ⟨⟨rfl, 1, by decide, rfl, rfl⟩, by decide,
    ⟨⟨5, rfl, fun _ _ => rfl⟩, rfl, rfl, rfl, rfl⟩, rfl, rfl,
    ⟨⟨5, rfl, fun _ _ => rfl⟩, rfl, rfl, rfl, rfl⟩, rfl, rfl⟩

end SquirrelGObject.Wrapper
