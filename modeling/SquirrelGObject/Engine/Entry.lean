/- SquirrelGObject/Engine/Entry
   digest: The state in which a native function starts, and the ways in which scripts and hosts get there. -/

import SquirrelGObject.Engine.Call

set_option autoImplicit false
set_option relaxedAutoImplicit false

namespace SquirrelGObject.Engine

open Lib.Window SQVM

section Layout

variable {v : HSQUIRRELVM} {a : Address} {nargs : Nat} {newbase target : Int} {m entry : Machine}

theorem copyOuters_stack (pos : Int) (l : List SQObject) (vm : SQVM) :
    (copyOuters pos l vm).stack = fill vm.stack pos l := by
  induction l generalizing pos vm with
  | nil => rfl
  | cons o rest ih => exact ih (pos + 1) (vm.write pos o)

private theorem copyOuters_holds (pos : Int) (l : List SQObject) (vm : SQVM) :
    Holds (copyOuters pos l vm).stack pos (pos + l.length) l := by
  rw [copyOuters_stack]
  exact fill_holds vm.stack pos l

private theorem bindThis_stack (env : Option SQObject) (pos : Int) (vm : SQVM) {i : Int}
    (apart : i ≠ pos ∨ env = none) : (bindThis env pos vm).stack i = vm.stack i := by
  cases env with
  | none => rfl
  | some o => exact Function.update_of_ne (apart.resolve_right (by simp)) _ _

/-- The last outer value is on top when the function starts, unless it shares its slot with the
bound environment. -/
theorem nativeEntry_top (ok : nativeEntry v a nargs newbase target m = .ok entry)
    {xs : List SQObject} {o : SQObject}
    (outers : (m.nativeClosures a).outervalues = xs ++ [o])
    (room : (m.nativeClosures a).env = none ∨ 0 < nargs + xs.length) :
    (entry.vms v).stackGet (-1) = o := by
  obtain ⟨-, shape⟩ := nativeEntry_ok ok
  have place := nativeEntry_place ok
  have last : (entry.vms v).top + -1 = newbase + nargs + xs.length := by
    rw [place.top, outers, List.length_append, List.length_singleton]
    push_cast
    omega
  rw [stackGet, if_neg (by decide), last, shape, Machine.onVM_self]
  change (bindThis _ newbase _).stack _ = o
  rw [bindThis_stack]
  · have copied := copyOuters_holds (newbase + nargs) (m.nativeClosures a).outervalues
      (setCallee (.nativeclosure a) target ((m.vms v).enterFrame newbase
        (newbase + nargs + (m.nativeClosures a).outervalues.length)).1)
    have cell := copied.cell xs.length (by rw [outers]; simp)
    rw [cell]
    simp [outers]
  · rcases room with free | room
    · exact .inr (by rw [free]; rfl)
    · exact .inl (by omega)

end Layout

section Entered

variable {v : HSQUIRRELVM} {nargs : Nat} {newbase : Int} {m : Machine}

private theorem enterFrame_of_fits {newtop : Int} {vm : SQVM}
    (fits : newtop + minStackOverhead ≤ vm.stackSize) :
    vm.enterFrame newbase newtop = (enteredFrame newbase newtop vm, true) := by
  rw [enterFrame, if_pos fits]

theorem nativeEntry_of_fits {a : Address} (target : Int)
    (passed : checkNative (m.nativeClosures a) nargs newbase (m.vms v) = none)
    (fits : newbase + nargs + (m.nativeClosures a).outervalues.length + minStackOverhead ≤
      (m.vms v).stackSize) :
    nativeEntry v a nargs newbase target m =
      .ok (m.onVM v fun vm => addNativeCalls 1 (layoutNative a (m.nativeClosures a)
        ((m.nativeClosures a).env.map m.weakRefs) nargs newbase target
        (enteredFrame newbase (newbase + nargs + (m.nativeClosures a).outervalues.length)
          vm))) := by
  rw [nativeEntry]
  dsimp only
  rw [passed, enterFrame_of_fits fits]
  dsimp only
  rw [if_pos rfl, Machine.onVM_onVM]
  exact congrArg _ (Machine.onVM_congr rfl)

/-- The arguments as the function finds them: a bound environment takes the place of the first. -/
def bindFirst (env : Option SQObject) : List SQObject → List SQObject
  | [] => []
  | first :: rest => env.getD first :: rest

@[simp] theorem bindFirst_none (args : List SQObject) : bindFirst none args = args := by
  cases args <;> rfl

theorem layoutNative_frame (a : Address) (nc : SQNativeClosure) (env : Option SQObject)
    (some : 0 < nargs) (newbase target : Int) (vm : SQVM) :
    (layoutNative a nc env nargs newbase target
      (enteredFrame newbase (newbase + nargs + nc.outervalues.length) vm)).Frame
      (bindFirst env (window vm.stack newbase (newbase + nargs)) ++ nc.outervalues) := by
  obtain ⟨same, top⟩ := layoutNative_onlyStack a nc env nargs newbase target
    (enteredFrame newbase (newbase + nargs + nc.outervalues.length) vm)
  have base : (layoutNative a nc env nargs newbase target
      (enteredFrame newbase (newbase + nargs + nc.outervalues.length) vm)).stackBase = newbase := by
    rw [same]
    rfl
  have args : (window vm.stack newbase (newbase + nargs)).length = nargs := by
    rw [window_length]
    omega
  have copied : Holds (copyOuters (newbase + nargs) nc.outervalues
      (setCallee (.nativeclosure a) target
        (enteredFrame newbase (newbase + nargs + nc.outervalues.length) vm))).stack
      newbase (newbase + nargs + nc.outervalues.length)
      (window vm.stack newbase (newbase + nargs) ++ nc.outervalues) := by
    refine (Holds.append_iff (by rw [args])).mpr ⟨?_, copyOuters_holds _ _ _⟩
    apply (holds_window vm.stack (by omega)).congr
    intro i _ below
    rw [copyOuters_stack, fill_of_outside (.inl below)]
    rfl
  rw [SQVM.Frame, base, top, layoutNative]
  cases env with
  | none =>
      rw [bindFirst_none]
      exact copied
  | some o =>
      cases shape : window vm.stack newbase (newbase + nargs) with
      | nil =>
          rw [shape, List.length_nil] at args
          omega
      | cons first rest =>
          rw [shape] at copied
          exact copied.setFirst o

end Entered

/-- `sq_call` up to the first instruction of the callee. A native callee is named, and the
machine is then the one its function is called with. -/
def sqCallEntry (rt : Runtime) (v : HSQUIRRELVM) (params : Nat) (m : Machine) :
    Machine × Option Address :=
  let vm := m.vms v
  match resolveCall rt v (vm.getUp (-(params + 1))) (vm.top - params) m with
  | (m, .native a _) =>
      match nativeEntry v a params (vm.top - params) (-1) m with
      | .ok entry => (entry, some a)
      | .error m => (m, none)
  | (m, _) => (m, none)

/-- A start by `sq_call`: the value resolves to the native closure, and its frame is entered. -/
theorem sqCallEntry_some {rt : Runtime} {v : HSQUIRRELVM} {params : Nat} {m entry : Machine}
    {a : Address} (starts : sqCallEntry rt v params m = (entry, some a)) :
    ∃ resolved inst,
      resolveCall rt v ((m.vms v).getUp (-(params + 1))) ((m.vms v).top - params) m =
        (resolved, .native a inst) ∧
      nativeEntry v a params ((m.vms v).top - params) (-1) resolved = .ok entry := by
  rw [sqCallEntry] at starts
  rcases resolves : resolveCall rt v ((m.vms v).getUp (-(params + 1))) ((m.vms v).top - params) m
    with ⟨resolved, callee⟩
  rw [resolves] at starts
  cases callee with
  | native b inst =>
      cases entered : nativeEntry v b params ((m.vms v).top - params) (-1) resolved with
      | error left =>
          simp only [entered] at starts
          cases starts
      | ok entry' =>
          simp only [entered] at starts
          cases starts
          exact ⟨resolved, inst, rfl, entered⟩
  | script b inst => cases starts
  | made inst => cases starts
  | refused => cases starts

section Delegates

variable (rt : Runtime) (v : HSQUIRRELVM) (m : Machine)

/-- `closure_pcall` up to the callee. -/
def closurePcall : Machine × Option Address :=
  sqCallEntry rt v ((m.vms v).getTop - 1).toNat m

/-- `closure_call` up to the callee. When the last argument is a script closure it goes through
`sq_tailcall`, which starts no native function. -/
def closureCall : Machine × Option Address :=
  match (m.vms v).stackGet (-1) with
  | .closure c =>
      if (m.protos (m.closures c).function).bgenerator then closurePcall rt v m else (m, none)
  | _ => closurePcall rt v m

/-- `_closure_acall` up to the callee, for `acall` and `pacall`. -/
def closureAcall : Machine × Option Address :=
  match (m.vms v).stackGet 2 with
  | .array params =>
      let pushed := m.onVM v (pushAll ((m.vms v).stackGet 1 :: m.arrays params))
      sqCallEntry rt v (m.arrays params).length pushed
  | _ => (m, none)

def closureBindenv : Machine × Int :=
  let (m, r) := sqBindEnv v 1 m
  (m, if r < 0 then sqError else 1)

end Delegates

end SquirrelGObject.Engine
