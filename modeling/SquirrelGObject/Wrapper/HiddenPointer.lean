/- SquirrelGObject/Wrapper/HiddenPointer
   digest: The pointer behind every host closure, followed through runs of host and script operations to each entry of the trampoline. -/

import SquirrelGObject.Engine.Entry
import SquirrelGObject.Lib.Runs
import SquirrelGObject.Wrapper.Closure

set_option autoImplicit false
set_option relaxedAutoImplicit false

namespace SquirrelGObject.Wrapper

open Engine SQVM Lib.Runs

/-- What a closure was made with: the address of its closure data and the data stored there. -/
structure Origin where
  pointer : SQUserPointer
  data : SquirrelClosureData
  deriving DecidableEq

/-- The machine, with a record of what each closure was made with. A clone has the record of the
closure it was cloned from. -/
structure Traced where
  machine : Machine
  made : Address → Option Origin

/-- Operations on host closures. A call goes as far as the start of the callee; what the callee
does is again a sequence of operations. `other` stands for everything else that scripts and hosts
do in between, by the machine it leaves. -/
inductive ClosureOp where
  | newClosure (self : SquirrelVm) (c : SquirrelFunction) (userData : Gpointer) (nfreevars : Nat)
  | setFreeVariable (self : SquirrelVm) (idx : Int) (nval : Nat)
  | bindEnv (self : SquirrelVm) (idx : Int)
  | setParamsCheck (self : SquirrelVm) (nparamscheck : Int) (typemark : Option String)
  | call (self : SquirrelVm) (params : Nat)
  | scriptCall (v : HSQUIRRELVM) (a : Address) (nargs : Nat) (newbase target : Int)
  | closureCall (v : HSQUIRRELVM)
  | closurePcall (v : HSQUIRRELVM)
  | closureAcall (v : HSQUIRRELVM)
  | closureBindenv (v : HSQUIRRELVM)
  | push (v : HSQUIRRELVM) (o : SQObject)
  | other (m : Machine)

/-- The start of a native function: the VM, the closure and the state it is called with. -/
structure Entry where
  v : HSQUIRRELVM
  closure : Address
  state : Machine

def scriptCallEntry (v : HSQUIRRELVM) (a : Address) (nargs : Nat) (newbase target : Int)
    (m : Machine) : Machine × Option Address :=
  match nativeEntry v a nargs newbase target m with
  | .ok entry => (entry, some a)
  | .error m => (m, none)

namespace ClosureOp

def exec (rt : Runtime) (m : Machine) : ClosureOp → Machine × Option (HSQUIRRELVM × Address)
  | newClosure self c userData n => (squirrelVmNewClosure self c userData n m, none)
  | setFreeVariable self idx nval => ((squirrelVmSetFreeVariable self idx nval m).1, none)
  | bindEnv self idx => ((squirrelVmBindEnv self idx m).1, none)
  | setParamsCheck self n mask => ((squirrelVmSetParamsCheck self n mask m).1, none)
  | call self params => (sqCallEntry rt self.vm params m).map id (Option.map (Prod.mk self.vm))
  | scriptCall v a nargs newbase target =>
      (scriptCallEntry v a nargs newbase target m).map id (Option.map (Prod.mk v))
  | closureCall v => (Engine.closureCall rt v m).map id (Option.map (Prod.mk v))
  | closurePcall v => (Engine.closurePcall rt v m).map id (Option.map (Prod.mk v))
  | closureAcall v => (Engine.closureAcall rt v m).map id (Option.map (Prod.mk v))
  | closureBindenv v => ((Engine.closureBindenv v m).1, none)
  | push v o => (m.push v o, none)
  | other m => (m, none)

def trace (s : Traced) : ClosureOp → Address → Option Origin
  | newClosure _ c userData _ =>
      Function.update s.made s.machine.nextObject (some ⟨s.machine.nextCell, ⟨c, userData⟩⟩)
  | bindEnv self idx => cloneOrigin self.vm idx
  | closureBindenv v => cloneOrigin v 1
  | _ => s.made
where
  /-- The clone takes the address after the weak reference of its environment. -/
  cloneOrigin (v : HSQUIRRELVM) (idx : Int) : Address → Option Origin :=
    match (s.machine.vms v).stackGet idx with
    | .nativeclosure a =>
        if isEnvironment ((s.machine.vms v).stackGet (-1)) then
          Function.update s.made
            (getWeakRef ((s.machine.vms v).stackGet (-1)) s.machine).1.nextObject (s.made a)
        else s.made
    | _ => s.made

/-- The native closure that `sq_call` comes down to. -/
def calleeOf (rt : Runtime) (v : HSQUIRRELVM) (params : Nat) (m : Machine) : Option Address :=
  match resolveCall rt v ((m.vms v).getUp (-(params + 1))) ((m.vms v).top - params) m with
  | (_, .native a _) => some a
  | _ => none

def callee (rt : Runtime) (m : Machine) : ClosureOp → Option (Address × Nat)
  | call self params => (calleeOf rt self.vm params m).map (·, params)
  | scriptCall _ a nargs _ _ => some (a, nargs)
  | closureCall v =>
      match (m.vms v).stackGet (-1) with
      | .closure c =>
          if (m.protos (m.closures c).function).bgenerator then ofArguments v else none
      | _ => ofArguments v
  | closurePcall v => ofArguments v
  | closureAcall v =>
      match (m.vms v).stackGet 2 with
      | .array params =>
          (calleeOf rt v (m.arrays params).length
            (m.onVM v (pushAll ((m.vms v).stackGet 1 :: m.arrays params)))).map
              (·, (m.arrays params).length)
      | _ => none
  | _ => none
where
  /-- All values of the frame but the first are arguments. -/
  ofArguments (v : HSQUIRRELVM) : Option (Address × Nat) :=
    (calleeOf rt v ((m.vms v).getTop - 1).toNat m).map (·, ((m.vms v).getTop - 1).toNat)

end ClosureOp

def closureStep (rt : Runtime) (s : Traced) (op : ClosureOp) :
    Traced × Option (Entry × Option Origin) :=
  let (m, starts) := op.exec rt s.machine
  (⟨m, op.trace s⟩, starts.map fun (v, a) => (⟨v, a, m⟩, op.trace s a))

/-- A closure made by the wrapper, or a clone of one. -/
def Wrapped (m : Machine) (a : Address) : Prop :=
  (m.nativeClosures a).function = .squirrelExecNativeClosure

/-- Everything that neither makes nor changes a host closure and leaves the closure data alone:
each host closure afterwards was there before, as it is. -/
structure Unrelated (m m' : Machine) : Prop where
  closureData : m'.closureData = m.closureData
  nextCell : m.nextCell ≤ m'.nextCell
  nextObject : m.nextObject ≤ m'.nextObject
  kept : ∀ a, Wrapped m' a → m'.nativeClosures a = m.nativeClosures a

/-- Runs are made of operations on host closures and of steps that are unrelated to them. -/
def ClosureOp.Admissible (s : Traced) : ClosureOp → Prop
  | other m => Unrelated s.machine m
  | _ => True

/-- The checks of the number of parameters that no arguments pass: none at all, and the least
`SQInteger`, whose negation stays negative. -/
def NoMinimum (nparamscheck : Int) : Prop := nparamscheck = 0 ∨ nparamscheck ≤ sqIntegerMin

/-- The bound environment would take the slot of the pointer: no arguments, no free variables, and
a check of the number of parameters that lets this pass. -/
def EnvTakesSlot (m : Machine) (a : Address) (nargs : Nat) : Prop :=
  Wrapped m a ∧ nargs = 0 ∧ (m.nativeClosures a).env.isSome = true ∧
    (m.nativeClosures a).outervalues.length = 1 ∧ NoMinimum (m.nativeClosures a).nparamscheck

/-- Another value would be stored at the index behind the declared free variables. -/
def StoresOverPointer (m : Machine) (v : HSQUIRRELVM) (idx : Int) (nval : Nat) : Prop :=
  ∃ a, (m.vms v).stackGet idx = .nativeclosure a ∧ Wrapped m a ∧
    nval + 1 = (m.nativeClosures a).outervalues.length ∧
    (m.nativeClosures a).outervalues[nval]? ≠ some ((m.vms v).stackGet (-1))

/-- The operation neither stores over the pointer of a host closure nor calls a bound one without
free variables with no arguments at all. -/
def ClosureOp.Respects (rt : Runtime) (s : Traced) (op : ClosureOp) : Prop :=
  (∀ a nargs, op.callee rt s.machine = some (a, nargs) → ¬ EnvTakesSlot s.machine a nargs) ∧
    ∀ self idx nval, op = .setFreeVariable self idx nval →
      ¬ StoresOverPointer s.machine self.vm idx nval

/-- Where the trampoline starts: the pointer on top is the one the closure was made with, the data
behind it is untouched, and the trampoline calls exactly that function with that user data,
whatever its unset local holds. -/
def EntryRight (e : Entry) (origin : Option Origin) : Prop :=
  ∃ o, origin = some o ∧ (e.state.vms e.v).stackGet (-1) = .userpointer o.pointer ∧
    e.state.closureData o.pointer = o.data ∧ o.pointer ≠ 0 ∧
    ∀ host : Host, squirrelExecNativeClosure host e.v e.state =
      host.callback o.data.func ⟨e.v⟩ o.data.userData (sqPop e.v 1 e.state)

/-- Every entry of the trampoline that an operation leads to is right. -/
def StartsRight (out : Option (Entry × Option Origin)) : Prop :=
  ∀ e origin, out = some (e, origin) → Wrapped e.state e.closure → EntryRight e origin

/-- The invariant: each host closure ends in the pointer it was made with. -/
structure Intact (s : Traced) (a : Address) : Prop where
  allocated : a < s.machine.nextObject
  origin : ∃ o xs, s.made a = some o ∧
    (s.machine.nativeClosures a).outervalues = xs ++ [.userpointer o.pointer] ∧
    0 < o.pointer ∧ o.pointer < s.machine.nextCell ∧
    s.machine.closureData o.pointer = o.data

def AllIntact (s : Traced) : Prop :=
  0 < s.machine.nextCell ∧ ∀ a, Wrapped s.machine a → Intact s a

/-- The two machines have the same host closures and closure data. -/
structure SameClosures (m m' : Machine) : Prop where
  nativeClosures : m'.nativeClosures = m.nativeClosures
  closureData : m'.closureData = m.closureData
  nextCell : m'.nextCell = m.nextCell
  nextObject : m.nextObject ≤ m'.nextObject

theorem SameClosures.onVM (v : HSQUIRRELVM) (f : SQVM → SQVM) (m : Machine) :
    SameClosures m (m.onVM v f) := ⟨rfl, rfl, rfl, le_rfl⟩

theorem SameClosures.trans {a b c : Machine} (first : SameClosures a b)
    (second : SameClosures b c) : SameClosures a c :=
  ⟨second.nativeClosures.trans first.nativeClosures, second.closureData.trans first.closureData,
    second.nextCell.trans first.nextCell, Nat.le_trans first.nextObject second.nextObject⟩

private theorem SameClosures.unrelated {m m' : Machine} (same : SameClosures m m') :
    Unrelated m m' where
  closureData := same.closureData
  nextCell := Nat.le_of_eq same.nextCell.symm
  nextObject := same.nextObject
  kept a _ := by rw [same.nativeClosures]

private theorem wrapped_congr {m m' : Machine} {a b : Address}
    (same : m'.nativeClosures b = m.nativeClosures a) : Wrapped m' b ↔ Wrapped m a := by
  rw [Wrapped, Wrapped, same]

section Calls

variable {rt : Runtime} {v : HSQUIRRELVM} {m : Machine}

private theorem resolveCall_same (closure : SQObject) (stackbase : Int) :
    SameClosures m (resolveCall rt v closure stackbase m).1 := by
  unfold resolveCall
  split
  · exact ⟨rfl, rfl, rfl, le_rfl⟩
  · exact ⟨rfl, rfl, rfl, le_rfl⟩
  · dsimp only [createInstance]
    split <;> exact ⟨rfl, rfl, rfl, Nat.le_succ _⟩
  · exact ⟨rfl, rfl, rfl, le_rfl⟩

private theorem nativeEntry_same {a : Address} {nargs : Nat} {newbase target : Int}
    {entry : Machine}
    (ok : nativeEntry v a nargs newbase target m = .ok entry) : SameClosures m entry := by
  rw [(nativeEntry_ok ok).2]
  exact SameClosures.onVM _ _ _

private theorem nativeEntry_error_same {a : Address} {nargs : Nat} {newbase target : Int}
    {left : Machine}
    (error : nativeEntry v a nargs newbase target m = .error left) : SameClosures m left := by
  rcases nativeEntry_error error with ⟨e, -, rfl⟩ | ⟨-, rfl⟩
  · exact SameClosures.onVM _ _ _
  · exact SameClosures.onVM _ _ _

/-- The start of a native function: the frame was entered on a machine with the same closures. -/
structure Enters (m : Machine) (v : HSQUIRRELVM) (a : Address) (nargs : Nat) (entry : Machine) :
    Prop where
  same : SameClosures m entry
  from_ : ∃ before newbase target, SameClosures m before ∧
    nativeEntry v a nargs newbase target before = .ok entry

private theorem sqCallEntry_same (params : Nat) : SameClosures m (sqCallEntry rt v params m).1 := by
  have resolved : SameClosures m (resolveCall rt v ((m.vms v).getUp (-(params + 1)))
      ((m.vms v).top - params) m).1 := resolveCall_same _ _
  unfold sqCallEntry
  dsimp only
  generalize resolveCall rt v ((m.vms v).getUp (-(params + 1))) ((m.vms v).top - params) m =
    callee at resolved ⊢
  obtain ⟨m', callee⟩ := callee
  cases callee with
  | native a inst =>
      dsimp only
      cases entered : nativeEntry v a params ((m.vms v).top - params) (-1) m' with
      | error left => exact resolved.trans (nativeEntry_error_same entered)
      | ok entry => exact resolved.trans (nativeEntry_same entered)
  | script a inst => exact resolved
  | made inst => exact resolved
  | refused => exact resolved

private theorem sqCallEntry_starts {params : Nat} {entry : Machine} {a : Address}
    (starts : sqCallEntry rt v params m = (entry, some a)) :
    ClosureOp.calleeOf rt v params m = some a ∧ Enters m v a params entry := by
  have same : SameClosures m (resolveCall rt v ((m.vms v).getUp (-(params + 1)))
      ((m.vms v).top - params) m).1 := resolveCall_same _ _
  obtain ⟨resolved, inst, resolves, entered⟩ := sqCallEntry_some starts
  rw [resolves] at same
  constructor
  · rw [ClosureOp.calleeOf, resolves]
  · exact ⟨same.trans (nativeEntry_same entered), resolved, _, _, same, entered⟩

private theorem Enters.of_same {m' : Machine} {a : Address} {nargs : Nat} {entry : Machine}
    (same : SameClosures m m') (enters : Enters m' v a nargs entry) : Enters m v a nargs entry := by
  obtain ⟨before, newbase, target, related, entered⟩ := enters.from_
  exact ⟨same.trans enters.same, before, newbase, target, same.trans related, entered⟩

private theorem closureAcall_same : SameClosures m (closureAcall rt v m).1 := by
  rw [closureAcall]
  split
  · exact (SameClosures.onVM v _ m).trans (sqCallEntry_same _)
  · exact ⟨rfl, rfl, rfl, le_rfl⟩

private theorem closureCall_same : SameClosures m (closureCall rt v m).1 := by
  rw [closureCall]
  split
  · split
    · exact sqCallEntry_same _
    · exact ⟨rfl, rfl, rfl, le_rfl⟩
  · exact sqCallEntry_same _

private theorem scriptCallEntry_same (a : Address) (nargs : Nat) (newbase target : Int) :
    SameClosures m (scriptCallEntry v a nargs newbase target m).1 := by
  rw [scriptCallEntry]
  cases entered : nativeEntry v a nargs newbase target m with
  | ok entry => exact nativeEntry_same entered
  | error left => exact nativeEntry_error_same entered

/-- The same with the VM named, as the operations report it, after a prelude that leaves the
closures alone. -/
private theorem sqCall_starts {w : HSQUIRRELVM} {params : Nat} {m' entry : Machine} {a : Address}
    (same : SameClosures m m')
    (called : (sqCallEntry rt w params m').map id (Option.map (Prod.mk w)) =
      (entry, some (v, a))) :
    ClosureOp.calleeOf rt w params m' = some a ∧ Enters m v a params entry := by
  rcases result : sqCallEntry rt w params m' with ⟨left, closure⟩
  rw [result] at called
  cases closure with
  | none => cases called
  | some b =>
      cases called
      obtain ⟨callee, enters⟩ := sqCallEntry_starts result
      exact ⟨callee, enters.of_same same⟩

end Calls

theorem ClosureOp.starts {rt : Runtime} {m : Machine} {op : ClosureOp} {entry : Machine}
    {v : HSQUIRRELVM} {a : Address} (runs : op.exec rt m = (entry, some (v, a))) :
    ∃ nargs, op.callee rt m = some (a, nargs) ∧ Enters m v a nargs entry := by
  have self : SameClosures m m := ⟨rfl, rfl, rfl, le_rfl⟩
  cases op with
  | call w params =>
      obtain ⟨callee, enters⟩ := sqCall_starts self runs
      exact ⟨params, by rw [ClosureOp.callee, callee]; rfl, enters⟩
  | scriptCall w b nargs newbase target =>
      dsimp only [ClosureOp.exec, scriptCallEntry] at runs
      cases entered : nativeEntry w b nargs newbase target m with
      | ok left =>
          rw [entered] at runs
          cases runs
          exact ⟨nargs, rfl, nativeEntry_same entered, m, newbase, target, self, entered⟩
      | error left =>
          rw [entered] at runs
          cases runs
  | closurePcall w =>
      obtain ⟨callee, enters⟩ := sqCall_starts self runs
      exact ⟨_, by rw [ClosureOp.callee, ClosureOp.callee.ofArguments, callee]; rfl, enters⟩
  | closureCall w =>
      dsimp only [ClosureOp.exec, Engine.closureCall, ClosureOp.callee] at runs ⊢
      generalize (m.vms w).stackGet (-1) = last at runs ⊢
      cases last with
      | closure c =>
          dsimp only at runs ⊢
          by_cases generator : (m.protos (m.closures c).function).bgenerator = true
          · rw [if_pos generator] at runs
            obtain ⟨callee, enters⟩ := sqCall_starts self runs
            refine ⟨_, ?_, enters⟩
            rw [if_pos generator, ClosureOp.callee.ofArguments, callee]
            rfl
          · rw [if_neg generator] at runs
            cases runs
      | _ =>
          obtain ⟨callee, enters⟩ := sqCall_starts self runs
          refine ⟨_, ?_, enters⟩
          change ClosureOp.callee.ofArguments rt m w = _
          rw [ClosureOp.callee.ofArguments, callee]
          rfl
  | closureAcall w =>
      dsimp only [ClosureOp.exec, Engine.closureAcall, ClosureOp.callee] at runs ⊢
      generalize (m.vms w).stackGet 2 = second at runs ⊢
      cases second with
      | array params =>
          obtain ⟨callee, enters⟩ := sqCall_starts (SameClosures.onVM w _ m) runs
          refine ⟨_, ?_, enters⟩
          dsimp only
          rw [callee]
          rfl
      | _ => cases runs
  | newClosure | setFreeVariable | bindEnv | setParamsCheck | closureBindenv | push | other =>
      cases runs

section Invariant

variable {s : Traced} {m' : Machine}

private theorem noMinimum_of_no_arguments {nc : SQNativeClosure} {newbase : Int} {vm : SQVM}
    (passed : checkNative nc 0 newbase vm = none) : NoMinimum nc.nparamscheck := by
  rw [checkNative] at passed
  split at passed
  · cases passed
  · split at passed
    · cases passed
    · rename_i count
      by_contra minimum
      rw [NoMinimum, not_or] at minimum
      obtain ⟨checked, least⟩ := minimum
      apply count
      simp only [wrongCount, Bool.and_eq_true, Bool.or_eq_true, decide_eq_true_eq]
      refine ⟨checked, ?_⟩
      rcases Int.lt_or_gt_of_ne checked with negative | positive
      · refine .inr ⟨negative, ?_⟩
        rw [sqIntegerMin] at least
        have same : (-nc.nparamscheck).bmod 18446744073709551616 = -nc.nparamscheck := by
          apply Int.bmod_eq_of_le <;> omega
        rw [same]
        push_cast
        omega
      · exact .inl ⟨positive, by push_cast; exact checked⟩

/-- An entry of the trampoline on an intact closure is right, unless the environment takes the
slot of the pointer. -/
private theorem entry_right (intact : AllIntact s) {v : HSQUIRRELVM} {a : Address} {nargs : Nat}
    {entry : Machine} (enters : Enters s.machine v a nargs entry)
    (wrapped : Wrapped entry a) (room : ¬ EnvTakesSlot s.machine a nargs) :
    EntryRight ⟨v, a, entry⟩ (s.made a) := by
  have made : Wrapped s.machine a :=
    (wrapped_congr (congrFun enters.same.nativeClosures a)).mp wrapped
  obtain ⟨o, xs, origin, outers, positive, -, data⟩ := (intact.2 a made).origin
  obtain ⟨before, newbase, target, same, entered⟩ := enters.from_
  have record : before.nativeClosures a = s.machine.nativeClosures a := by
    rw [same.nativeClosures]
  have top : (entry.vms v).stackGet (-1) = .userpointer o.pointer := by
    apply nativeEntry_top entered (record ▸ outers)
    by_contra clash
    rw [not_or] at clash
    obtain ⟨bound, full⟩ := clash
    obtain rfl : nargs = 0 := by omega
    obtain rfl : xs = [] := List.eq_nil_of_length_eq_zero (by omega)
    refine room ⟨made, rfl, ?_, by rw [outers]; rfl, ?_⟩
    · rw [record] at bound
      exact Option.ne_none_iff_isSome.mp bound
    · have unchecked := noMinimum_of_no_arguments (nativeEntry_ok entered).1
      rwa [record] at unchecked
  have same_data : entry.closureData o.pointer = o.data := by rw [enters.same.closureData, data]
  have set : o.pointer ≠ 0 := Nat.pos_iff_ne_zero.mp positive
  refine ⟨o, origin, top, same_data, set, ?_⟩
  intro host
  rw [squirrelExecNativeClosure_eq host top set]
  dsimp only at same_data ⊢
  rw [same_data]

private theorem AllIntact.unrelated (intact : AllIntact s) (apart : Unrelated s.machine m') :
    AllIntact ⟨m', s.made⟩ := by
  refine ⟨Nat.lt_of_lt_of_le intact.1 apart.nextCell, ?_⟩
  intro a wrapped
  have kept := apart.kept a wrapped
  have before : Wrapped s.machine a := (wrapped_congr kept).mp wrapped
  obtain ⟨allocated, o, xs, origin, outers, positive, below, data⟩ := intact.2 a before
  refine ⟨Nat.lt_of_lt_of_le allocated apart.nextObject, o, xs, origin, ?_, positive,
    Nat.lt_of_lt_of_le below apart.nextCell, ?_⟩
  · rw [kept, outers]
  · rw [apart.closureData, data]

theorem AllIntact.same {m : Machine} {made : Address → Option Origin}
    (intact : AllIntact ⟨m, made⟩) (same : SameClosures m m') : AllIntact ⟨m', made⟩ :=
  intact.unrelated same.unrelated

theorem AllIntact.setNativeClosure (intact : AllIntact s) (a : Address) (nc : SQNativeClosure)
    (function : nc.function = (s.machine.nativeClosures a).function)
    (last : Wrapped s.machine a → ∀ xs o, (s.machine.nativeClosures a).outervalues = xs ++ [o] →
      ∃ ys, nc.outervalues = ys ++ [o]) :
    AllIntact ⟨s.machine.setNativeClosure a nc, s.made⟩ := by
  refine ⟨intact.1, ?_⟩
  intro b wrapped
  by_cases here : b = a
  · subst here
    have now : (s.machine.setNativeClosure b nc).nativeClosures b = nc := Function.update_self _ _ _
    have before : Wrapped s.machine b := by
      rw [Wrapped, ← function, ← now]
      exact wrapped
    obtain ⟨allocated, o, xs, origin, outers, positive, below, data⟩ := intact.2 b before
    obtain ⟨ys, ends⟩ := last before xs _ outers
    exact ⟨allocated, o, ys, origin, by rw [now, ends], positive, below, data⟩
  · have other : (s.machine.setNativeClosure a nc).nativeClosures b =
        s.machine.nativeClosures b := Function.update_of_ne here _ _
    have before : Wrapped s.machine b := (wrapped_congr other).mp wrapped
    obtain ⟨allocated, o, xs, origin, outers, rest⟩ := intact.2 b before
    exact ⟨allocated, o, xs, origin, by rw [other, outers], rest⟩

private theorem AllIntact.alloc (intact : AllIntact s) (nc : SQNativeClosure)
    (origin : Option Origin)
    (good : nc.function = .squirrelExecNativeClosure → ∃ o xs, origin = some o ∧
      nc.outervalues = xs ++ [.userpointer o.pointer] ∧ 0 < o.pointer ∧
      o.pointer < s.machine.nextCell ∧ s.machine.closureData o.pointer = o.data) :
    AllIntact ⟨s.machine.allocObject.setNativeClosure s.machine.nextObject nc,
      Function.update s.made s.machine.nextObject origin⟩ := by
  refine ⟨intact.1, ?_⟩
  intro b wrapped
  by_cases here : b = s.machine.nextObject
  · subst here
    have now : (s.machine.allocObject.setNativeClosure s.machine.nextObject nc).nativeClosures
        s.machine.nextObject = nc := Function.update_self _ _ _
    have function : nc.function = .squirrelExecNativeClosure := by
      rw [← now]
      exact wrapped
    obtain ⟨o, xs, recorded, outers, rest⟩ := good function
    refine ⟨Nat.lt_succ_self _, o, xs, ?_, by rw [now, outers], rest⟩
    exact (Function.update_self _ _ _).trans recorded
  · have other : (s.machine.allocObject.setNativeClosure s.machine.nextObject nc).nativeClosures b =
        s.machine.nativeClosures b := Function.update_of_ne here _ _
    have before : Wrapped s.machine b := (wrapped_congr other).mp wrapped
    obtain ⟨allocated, o, xs, recorded, outers, rest⟩ := intact.2 b before
    refine ⟨Nat.lt_succ_of_lt allocated, o, xs, ?_, by rw [other, outers], rest⟩
    exact (Function.update_of_ne here _ _).trans recorded

private theorem getWeakRef_same (o : SQObject) (m : Machine) :
    SameClosures m (getWeakRef o m).1 := by
  rw [getWeakRef]
  split
  · exact ⟨rfl, rfl, rfl, le_rfl⟩
  · exact ⟨rfl, rfl, rfl, Nat.le_succ _⟩

private theorem newClosure_intact (intact : AllIntact s) (w : SquirrelVm) (c : SquirrelFunction)
    (userData : Gpointer) (n : Nat) :
    AllIntact ⟨squirrelVmNewClosure w c userData n s.machine,
      Function.update s.made s.machine.nextObject
        (some ⟨s.machine.nextCell, ⟨c, userData⟩⟩)⟩ := by
  have stored : AllIntact ⟨allocClosureData ⟨c, userData⟩ s.machine, s.made⟩ := by
    refine ⟨Nat.succ_pos _, ?_⟩
    intro a wrapped
    obtain ⟨allocated, o, xs, origin, outers, positive, below, data⟩ := intact.2 a wrapped
    refine ⟨allocated, o, xs, origin, outers, positive, Nat.lt_succ_of_lt below, ?_⟩
    exact (Function.update_of_ne (Nat.ne_of_lt below) _ _).trans data
  have made := stored.alloc (freshClosure .squirrelExecNativeClosure
    (wrappedOuters ((s.machine.vms w.vm).popped n) s.machine.nextCell))
    (some ⟨s.machine.nextCell, ⟨c, userData⟩⟩) (fun _ => ⟨_, _, rfl, rfl, intact.1,
      Nat.lt_succ_self _, Function.update_self _ _ _⟩)
  rw [squirrelVmNewClosure_eq]
  exact made.same ⟨rfl, rfl, rfl, le_rfl⟩

private theorem setFreeVariable_intact (intact : AllIntact s) (v : HSQUIRRELVM) (idx : Int)
    (nval : Nat) (spared : ¬ StoresOverPointer s.machine v idx nval) :
    AllIntact ⟨(sqSetFreeVariable v idx nval s.machine).1, s.made⟩ := by
  rw [sqSetFreeVariable]
  split
  · dsimp only
    split
    · apply intact.same
      rw [Machine.setOuterValue]
      split <;> exact ⟨rfl, rfl, rfl, le_rfl⟩
    · exact intact.same ⟨rfl, rfl, rfl, le_rfl⟩
  · rename_i a closure
    dsimp only
    split
    · rename_i inside
      refine AllIntact.same (intact.setNativeClosure a _ ?_ ?_) (SameClosures.onVM v _ _)
      · rfl
      intro wrapped xs o outers
      rw [outers, List.length_append, List.length_singleton] at inside
      rcases Nat.lt_succ_iff_lt_or_eq.mp inside with below | atEnd
      · exact ⟨xs.set nval _, by
          dsimp only
          rw [outers, List.set_append_left _ _ below]⟩
      · have kept : (s.machine.nativeClosures a).outervalues[nval]? =
            some ((s.machine.vms v).stackGet (-1)) := by
          by_contra differs
          refine spared ⟨a, closure, wrapped, ?_, differs⟩
          rw [outers, List.length_append, List.length_singleton, atEnd]
        obtain ⟨here, same⟩ := List.getElem?_eq_some_iff.mp kept
        refine ⟨xs, ?_⟩
        dsimp only
        rw [← same, List.set_getElem_self, outers]
    · exact intact.same ⟨rfl, rfl, rfl, le_rfl⟩
  · exact intact.same ⟨rfl, rfl, rfl, le_rfl⟩

private theorem setParamsCheck_intact (intact : AllIntact s) (v : HSQUIRRELVM) (n : Int)
    (mask : Option String) :
    AllIntact ⟨(sqSetParamsCheck v n mask s.machine).1, s.made⟩ := by
  unfold sqSetParamsCheck
  split
  · dsimp only
    split
    · refine AllIntact.same (intact.setNativeClosure _ _ ?_ ?_) ⟨rfl, rfl, rfl, le_rfl⟩
      · rfl
      · exact fun _ xs _ outers => ⟨xs, outers⟩
    · refine intact.setNativeClosure _ _ ?_ ?_
      · rfl
      · exact fun _ xs _ outers => ⟨xs, outers⟩
  · exact intact.same ⟨rfl, rfl, rfl, le_rfl⟩

private theorem bindEnv_intact (intact : AllIntact s) (v : HSQUIRRELVM) (idx : Int) :
    AllIntact ⟨(sqBindEnv v idx s.machine).1, ClosureOp.trace.cloneOrigin s v idx⟩ := by
  have weak := getWeakRef_same ((s.machine.vms v).stackGet (-1)) s.machine
  rw [sqBindEnv, ClosureOp.trace.cloneOrigin]
  generalize (s.machine.vms v).stackGet idx = target
  cases target with
  | nativeclosure a =>
      dsimp only
      split
      · have cloned := (intact.same weak).alloc { s.machine.nativeClosures a with
            env := some (getWeakRef ((s.machine.vms v).stackGet (-1)) s.machine).2 } (s.made a)
          (fun wrapped => by
            obtain ⟨o, xs, origin, outers, positive, below, data⟩ := (intact.2 a wrapped).origin
            exact ⟨o, xs, origin, outers, positive, weak.nextCell ▸ below,
              (congrFun weak.closureData _).trans data⟩)
        rw [← weak.nativeClosures] at cloned
        exact cloned.same ⟨rfl, rfl, rfl, le_rfl⟩
      · exact intact.same ⟨rfl, rfl, rfl, le_rfl⟩
  | closure a =>
      dsimp only
      split
      · exact intact.same (weak.trans ⟨rfl, rfl, rfl, Nat.le_succ _⟩)
      · exact intact.same ⟨rfl, rfl, rfl, le_rfl⟩
  | _ => exact intact.same ⟨rfl, rfl, rfl, le_rfl⟩

private theorem closureStep_intact {rt : Runtime} (intact : AllIntact s) (op : ClosureOp)
    (admissible : op.Admissible s) (respects : op.Respects rt s) :
    AllIntact (closureStep rt s op).1 := by
  cases op with
  | newClosure w c userData n => exact newClosure_intact intact w c userData n
  | setFreeVariable w idx nval =>
      exact setFreeVariable_intact intact w.vm idx nval (respects.2 w idx nval rfl)
  | bindEnv w idx => exact bindEnv_intact intact w.vm idx
  | setParamsCheck w n mask => exact setParamsCheck_intact intact w.vm n mask
  | call w params => exact intact.same (sqCallEntry_same params)
  | scriptCall v a nargs newbase target =>
      exact intact.same (scriptCallEntry_same a nargs newbase target)
  | closureCall v => exact intact.same closureCall_same
  | closurePcall v => exact intact.same (sqCallEntry_same _)
  | closureAcall v => exact intact.same closureAcall_same
  | closureBindenv v => exact bindEnv_intact intact v 1
  | push v o => exact intact.same (SameClosures.onVM v _ _)
  | other m => exact intact.unrelated admissible

private theorem closureStep_starts {rt : Runtime} (intact : AllIntact s) (op : ClosureOp)
    (respects : op.Respects rt s) : StartsRight (closureStep rt s op).2 := by
  intro e origin starts wrapped
  rcases runs : op.exec rt s.machine with ⟨entry, started⟩
  rw [closureStep, runs] at starts
  cases started with
  | none => cases starts
  | some called =>
      obtain ⟨v, a⟩ := called
      cases starts
      obtain ⟨nargs, callee, enters⟩ := ClosureOp.starts runs
      have kept : op.trace s = s.made := by
        cases op <;> first | rfl | cases callee
      rw [kept]
      exact entry_right intact enters wrapped (respects.1 a nargs callee)

end Invariant

/-- A machine in which the wrapper has made no closure yet. The null address is never given out. -/
structure Untouched (m : Machine) : Prop where
  nextCell : 0 < m.nextCell
  unwrapped : ∀ a, ¬ Wrapped m a

/-- Runs of any length, in any order: as long as no operation stores over the pointer of a host
closure or calls a bound one without free variables with no arguments, the trampoline only ever
starts on the pointer its closure was made with. -/
theorem respected_runs_enter_right (rt : Runtime) (m : Machine) (untouched : Untouched m)
    (ops : List ClosureOp)
    (along : Along (closureStep rt) (fun s op => op.Admissible s ∧ op.Respects rt s)
      ⟨m, fun _ => none⟩ ops) :
    ∀ out ∈ outputs (closureStep rt) ⟨m, fun _ => none⟩ ops, StartsRight out := by
  have start : AllIntact ⟨m, fun _ => none⟩ :=
    ⟨untouched.nextCell, fun a wrapped => (untouched.unwrapped a wrapped).elim⟩
  have keeps (s : Traced) (op : ClosureOp) (intact : AllIntact s)
      (cond : op.Admissible s ∧ op.Respects rt s) : AllIntact (closureStep rt s op).1 :=
    closureStep_intact intact op cond.1 cond.2
  have safe (s : Traced) (op : ClosureOp) (intact : AllIntact s)
      (cond : op.Admissible s ∧ op.Respects rt s) : StartsRight (closureStep rt s op).2 :=
    closureStep_starts intact op cond.2
  exact safe_outputs keeps safe start along

def newVm : Machine := (squirrelVmNew 1024 0).1

private theorem newVm_untouched : Untouched newVm := ⟨Nat.one_pos, fun _ wrapped => nomatch wrapped⟩

def boundClosureOps : List ClosureOp :=
  [.newClosure ⟨0⟩ 7 9 0, .push 0 (.table 0), .bindEnv ⟨0⟩ (-2)]

/-- The bound clone called with one argument: the trampoline starts, and it starts right. -/
theorem boundClosure_call_enters_right :
    ∃ out ∈ outputs (closureStep quietHost.runtime) ⟨newVm, fun _ => none⟩
      (boundClosureOps ++ [.push 0 (.integer 5), .call ⟨0⟩ 1]),
      out.isSome = true ∧ StartsRight out := by
  refine ⟨_, List.getElem_mem (n := 4) (by decide), by decide +kernel, ?_⟩
  refine respected_runs_enter_right _ newVm newVm_untouched
    (boundClosureOps ++ [.push 0 (.integer 5), .call ⟨0⟩ 1]) ?_ _ (List.getElem_mem _)
  refine ⟨⟨trivial, nofun, nofun⟩, ⟨trivial, nofun, nofun⟩, ⟨trivial, nofun, nofun⟩,
    ⟨trivial, nofun, nofun⟩, ⟨trivial, ?_, nofun⟩, trivial⟩
  intro a nargs called
  rw [ClosureOp.callee] at called
  obtain ⟨b, -, same⟩ := Option.map_eq_some_iff.mp called
  cases same
  exact fun clash => absurd clash.2.1 Nat.one_ne_zero

def startsOn (out : Option (Entry × Option Origin)) : Option (SQFUNCTION × SQObject) :=
  out.map fun (e, _) =>
    ((e.state.nativeClosures e.closure).function, (e.state.vms e.v).stackGet (-1))

private theorem starts_wrong {out : Option (Entry × Option Origin)} {o : SQObject}
    (started : startsOn out = some (.squirrelExecNativeClosure, o))
    (other : ∀ p, o ≠ .userpointer p) : ¬ StartsRight out := by
  obtain ⟨⟨e, origin⟩, rfl, seen⟩ := Option.map_eq_some_iff.mp started
  obtain ⟨wrapped, top⟩ := Prod.ext_iff.mp seen
  intro right
  obtain ⟨origin', -, pointer, -⟩ := right e origin rfl wrapped
  exact other origin'.pointer (top.symm.trans pointer)

/-- Called with no arguments, the bound clone starts the trampoline on the table, also when its
parameter check is the least `SQInteger`; a closure whose last outer value was overwritten starts
it on the integer stored there. -/
theorem trampoline_enters_on_wrong_values :
    Untouched newVm ∧
      (∃ out ∈ outputs (closureStep quietHost.runtime) ⟨newVm, fun _ => none⟩
        (boundClosureOps ++ [.call ⟨0⟩ 0]), ¬ StartsRight out) ∧
      (∃ out ∈ outputs (closureStep quietHost.runtime) ⟨newVm, fun _ => none⟩
        (boundClosureOps ++ [.setParamsCheck ⟨0⟩ sqIntegerMin none, .call ⟨0⟩ 0]),
        ¬ StartsRight out) ∧
      ∃ out ∈ outputs (closureStep quietHost.runtime) ⟨newVm, fun _ => none⟩
        [.newClosure ⟨0⟩ 7 9 0, .push 0 (.integer 5), .setFreeVariable ⟨0⟩ (-2) 0, .call ⟨0⟩ 0],
        ¬ StartsRight out := by
  have table : ∀ p, SQObject.table 0 ≠ .userpointer p := nofun
  have integer : ∀ p, SQObject.integer 5 ≠ .userpointer p := nofun
  exact ⟨newVm_untouched,
    ⟨_, List.getElem_mem (n := 3) (by decide), starts_wrong (by decide +kernel) table⟩,
    ⟨_, List.getElem_mem (n := 4) (by decide), starts_wrong (by decide +kernel) table⟩,
    ⟨_, List.getElem_mem (n := 3) (by decide), starts_wrong (by decide +kernel) integer⟩⟩

end SquirrelGObject.Wrapper
