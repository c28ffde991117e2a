/- SquirrelGObject/Wrapper/DoFile
   digest: Running a file from the host: the stack it leaves behind on every path. -/

import SquirrelGObject.Engine.Load
import SquirrelGObject.Lib.Runs
import SquirrelGObject.Wrapper.Closure

set_option autoImplicit false
set_option relaxedAutoImplicit false

namespace SquirrelGObject.Wrapper

open Engine SQVM Lib.Window Lib.Runs

/-- `squirrel_vm_do_file`: the environment is pushed here and popped nowhere. -/
def squirrelVmDoFile (host : Host) (loader : Loader) (self : SquirrelVm) (path : String)
    (retval printError : Bool) (m : Machine) : Machine × Int :=
  let (m, r) := sqstdDofile host.runtime loader self.vm path retval printError
    (sqPushRootTable self.vm m)
  (m, toGboolean r)

section Stages

variable (host : Host) (loader : Loader) (self : SquirrelVm) (path : String)
  (retval printError : Bool) (m : Machine)

def loadStage : Machine × Int :=
  sqstdLoadfile loader self.vm path printError (sqPushRootTable self.vm m)

def scriptState : Machine := sqPush self.vm (-2) (loadStage loader self path printError m).1

def callStage : Machine × Int :=
  sqCall host.runtime self.vm 1 retval true (scriptState loader self path printError m)

/-- The script runs on the environment and gives a result, without suspending the VM. -/
def scriptCompletes (c : Address) : Bool :=
  let script := scriptState loader self path printError m
  let (after, result) := host.execute self.vm c 1 ((script.vms self.vm).top - 1) true script
  result.isSome && (!(after.vms self.vm).suspended || (script.vms self.vm).suspended)

/-- The file was loaded, with the environment on the stack, and the script that was loaded ran to
the end. -/
def Completed : Prop :=
  loader.loads self.vm path printError (sqPushRootTable self.vm m) = true ∧
    match ((loadStage loader self path printError m).1.vms self.vm).stackGet (-1) with
    | .closure c => scriptCompletes host loader self path printError m c = true
    | _ => False

instance : Decidable (Completed host loader self path printError m) := by
  unfold Completed
  split <;> exact inferInstance

/-- The script, if one was loaded, leaves its caller's frame where it found it. -/
def ScriptReturns : Prop :=
  ∀ c, 0 ≤ (loadStage loader self path printError m).2 →
    ((loadStage loader self path printError m).1.vms self.vm).stackGet (-1) = .closure c →
    SamePlace ((scriptState loader self path printError m).vms self.vm)
      ((host.execute self.vm c 1 (((scriptState loader self path printError m).vms self.vm).top - 1)
        true (scriptState loader self path printError m)).1.vms self.vm)

/-- The stack before the call, with the result on top exactly when the script completed and a
result was asked for. -/
def Balanced : Prop :=
  ∃ result : SQObject,
    ((squirrelVmDoFile host loader self path retval printError m).1.vms self.vm).visible =
      (m.vms self.vm).visible ++
        if Completed host loader self path printError m ∧ retval = true then [result] else []

end Stages

section Place

variable {host : Host} {loader : Loader} {self : SquirrelVm} {path : String}
  {retval printError : Bool} {m : Machine}

private theorem sqCall_script (rt : Runtime) (retval raiseerror : Bool) {v : HSQUIRRELVM}
    {params : Nat} {c : Address} {m : Machine}
    (callee : (m.vms v).getUp (-(params + 1)) = .closure c) :
    (0 ≤ (sqCall rt v params retval raiseerror m).2 ↔
        (rt.execute v c params ((m.vms v).top - params) raiseerror m).2.isSome = true) ∧
      ((sqCall rt v params retval raiseerror m).1.vms v).suspended =
        ((rt.execute v c params ((m.vms v).top - params) raiseerror m).1.vms v).suspended := by
  have called : call rt v (.closure c) params ((m.vms v).top - params) raiseerror m =
      ((rt.execute v c params ((m.vms v).top - params) raiseerror m).1,
        (rt.execute v c params ((m.vms v).top - params) raiseerror m).2.isSome,
        (rt.execute v c params ((m.vms v).top - params) raiseerror m).2.getD .null) := rfl
  rw [sqCall]
  dsimp only
  rw [callee, called]
  generalize rt.execute v c params ((m.vms v).top - params) raiseerror m = ran
  obtain ⟨m', _ | res⟩ := ran
  · refine ⟨iff_of_false sqError_failed Bool.false_ne_true, ?_⟩
    change ((m'.onVM v (popN params)).vms v).suspended = _
    rw [Machine.onVM_self, popN_suspended]
  · change (0 ≤ sqOk ↔ _) ∧ ((if retval = true then Machine.push v res
        (if (m'.vms v).suspended = true then m' else m'.onVM v (popN params))
      else (if (m'.vms v).suspended = true then m'
        else m'.onVM v (popN params))).vms v).suspended = _
    have popped : ((if (m'.vms v).suspended = true then m' else
        m'.onVM v (popN params)).vms v).suspended = (m'.vms v).suspended := by
      split
      · rfl
      · rw [Machine.onVM_self, popN_suspended]
    refine ⟨iff_of_true sqOk_succeeded rfl, ?_⟩
    split
    · rw [Machine.push, Machine.onVM_self, push_suspended, popped]
    · exact popped

private theorem scriptState_callee {c : Address}
    (found : ((loadStage loader self path printError m).1.vms self.vm).stackGet (-1) =
      .closure c) :
    ((scriptState loader self path printError m).vms self.vm).getUp (-((1 : Nat) + 1)) =
      .closure c := by
  rw [stackGet, if_neg (by decide)] at found
  rw [scriptState, sqPush, Machine.push, Machine.onVM_self, getUp, push_top, push_stack,
    Function.update_of_ne (by push_cast; omega), ← found]
  congr 1
  push_cast
  omega

private theorem completed_iff (retval : Bool) :
    Completed host loader self path printError m ↔
      0 ≤ (loadStage loader self path printError m).2 ∧
        0 ≤ (callStage host loader self path retval printError m).2 ∧
        (((callStage host loader self path retval printError m).1.vms self.vm).suspended = true →
          ((scriptState loader self path printError m).vms self.vm).suspended = true) := by
  have outcome : LoadOutcome self.vm (loader.loads self.vm path printError
      (sqPushRootTable self.vm m)) (loadStage loader self path printError m) :=
    sqstdLoadfile_outcome path printError _
  rw [Completed, outcome.result]
  apply and_congr_right
  intro loaded
  obtain ⟨c, found⟩ := outcome.closure loaded
  have callee := scriptState_callee found
  obtain ⟨result, suspended⟩ := sqCall_script host.runtime retval true callee
  rw [found]
  dsimp only
  rw [callStage, result, suspended, scriptCompletes]
  dsimp only [Host.runtime]
  rw [Bool.and_eq_true, Bool.or_eq_true, Bool.not_eq_true', ← Bool.not_eq_true, ← imp_iff_not_or]
  rfl

private theorem squirrelVmDoFile_eq (frame : (m.vms self.vm).stackBase ≤ (m.vms self.vm).top) :
    squirrelVmDoFile host loader self path retval printError m =
      if 0 ≤ (loadStage loader self path printError m).2 then
        if 0 ≤ (callStage host loader self path retval printError m).2 then
          (sqRemove self.vm (if retval then -2 else -1)
            (callStage host loader self path retval printError m).1, 1)
        else (sqPop self.vm 1 (callStage host loader self path retval printError m).1, -1)
      else ((loadStage loader self path printError m).1, -1) := by
  have height : ((sqPushRootTable self.vm m).vms self.vm).getTop ≠ 0 := by
    rw [sqPushRootTable, Machine.push, Machine.onVM_self, getTop, push_top, push_stackBase]
    omega
  rw [squirrelVmDoFile, sqstdDofile, if_neg height]
  by_cases loaded : 0 ≤ (loadStage loader self path printError m).2
  · by_cases called : 0 ≤ (callStage host loader self path retval printError m).2
    · rw [if_pos loaded, if_pos called]
      simp only [callStage, scriptState, loadStage] at loaded called ⊢
      rw [if_pos loaded, if_pos called]
      rfl
    · rw [if_pos loaded, if_neg called]
      simp only [callStage, scriptState, loadStage] at loaded called ⊢
      rw [if_pos loaded, if_neg called]
      rfl
  · rw [if_neg loaded]
    simp only [loadStage] at loaded ⊢
    rw [if_neg loaded]
    rfl

private theorem loadStage_place (keeps : loader.KeepsPlace self.vm) :
    LoadPlace ((m.vms self.vm).push (m.vms self.vm).rootTable)
      ((loadStage loader self path printError m).1.vms self.vm)
      (loadStage loader self path printError m).2 := by
  have place := sqstdLoadfile_place keeps path printError (sqPushRootTable self.vm m)
  rw [sqPushRootTable, Machine.push, Machine.onVM_self] at place
  exact place

/-- The call stage finds the script two slots above the environment's place and pops the
environment it was given. -/
private theorem callStage_place (running : (m.vms self.vm).suspended = false)
    (keeps : loader.KeepsPlace self.vm) (script : ScriptReturns host loader self path printError m)
    (loaded : 0 ≤ (loadStage loader self path printError m).2) :
    ReturnPlace ((scriptState loader self path printError m).vms self.vm)
        ((callStage host loader self path retval printError m).1.vms self.vm) 1 retval
        (callStage host loader self path retval printError m).2 ∧
      ((callStage host loader self path retval printError m).1.vms self.vm).suspended = false ∧
      ((scriptState loader self path printError m).vms self.vm).stackBase =
        (m.vms self.vm).stackBase ∧
      ((scriptState loader self path printError m).vms self.vm).top = (m.vms self.vm).top + 3 := by
  have place : LoadPlace ((m.vms self.vm).push (m.vms self.vm).rootTable)
      ((loadStage loader self path printError m).1.vms self.vm)
      (loadStage loader self path printError m).2 := loadStage_place keeps
  obtain ⟨base, suspended, ⟨-, top, c, closure⟩ | ⟨error, -⟩⟩ := place
  · have state : (scriptState loader self path printError m).vms self.vm =
        ((loadStage loader self path printError m).1.vms self.vm).push
          (((loadStage loader self path printError m).1.vms self.vm).stackGet (-2)) :=
      Machine.onVM_self _ _ _
    have height : ((scriptState loader self path printError m).vms self.vm).top =
        (m.vms self.vm).top + 3 := by
      rw [state, push_top, top, push_top]
      omega
    have found : ((loadStage loader self path printError m).1.vms self.vm).stackGet (-1) =
        .closure c := by
      rw [stackGet, if_neg (by decide), top, Int.add_neg_cancel_right, closure]
    have callee : ((scriptState loader self path printError m).vms self.vm).getUp
        (-((1 : Nat) + 1)) = .closure c := by
      rw [getUp, height, state, push_stack, top, push_top]
      rw [Function.update_of_ne (by push_cast; omega), ← closure, push_top]
      congr 1
      push_cast
      omega
    have asleep : ((scriptState loader self path printError m).vms self.vm).suspended = false := by
      rw [state, push_suspended, suspended]
      exact running
    have same : SamePlace ((scriptState loader self path printError m).vms self.vm)
        ((call host.runtime self.vm (((scriptState loader self path printError m).vms self.vm).getUp
          (-((1 : Nat) + 1))) 1 (((scriptState loader self path printError m).vms self.vm).top -
          (1 : Nat)) true (scriptState loader self path printError m)).1.vms self.vm) := by
      rw [callee]
      exact script c loaded found
    obtain ⟨called, awake⟩ := sqCall_place_of_same asleep same
    exact ⟨called, awake, by rw [state, push_stackBase, base]; rfl, height⟩
  · exact absurd loaded (by rw [error]; decide)

/-- The frame is where it was and holds `n` more values. -/
structure Higher (vm vm' : SQVM) (n : Int) : Prop where
  stackBase : vm'.stackBase = vm.stackBase
  running : vm'.suspended = false
  top : vm'.top = vm.top + n

private theorem squirrelVmDoFile_place (frame : (m.vms self.vm).stackBase ≤ (m.vms self.vm).top)
    (running : (m.vms self.vm).suspended = false) (keeps : loader.KeepsPlace self.vm)
    (script : ScriptReturns host loader self path printError m) :
    Higher (m.vms self.vm)
      ((squirrelVmDoFile host loader self path retval printError m).1.vms self.vm)
      (1 + if Completed host loader self path printError m ∧ retval = true then 1
        else 0) := by
  rw [squirrelVmDoFile_eq frame]
  by_cases loaded : 0 ≤ (loadStage loader self path printError m).2
  · obtain ⟨called, awake, base, height⟩ :
        ReturnPlace ((scriptState loader self path printError m).vms self.vm)
          ((callStage host loader self path retval printError m).1.vms self.vm) 1 retval
          (callStage host loader self path retval printError m).2 ∧ _ ∧ _ ∧ _ :=
      callStage_place running keeps script loaded
    rw [if_pos loaded]
    rcases called with ⟨returned, base', top⟩ | ⟨failed, base', top⟩
    · have good : 0 ≤ (callStage host loader self path retval printError m).2 := by
        rw [returned]
        decide
      have complete : Completed host loader self path printError m :=
        (completed_iff retval).mpr
          ⟨loaded, good, fun asleep => absurd asleep (by rw [awake]; decide)⟩
      rw [if_pos good, sqRemove, Machine.onVM_self]
      refine ⟨base'.trans base, awake, ?_⟩
      simp only [remove, top, height, complete, true_and]
      push_cast
      omega
    · have bad : ¬ 0 ≤ (callStage host loader self path retval printError m).2 := by
        rw [failed]
        decide
      rw [if_neg bad, if_neg fun both => bad ((completed_iff retval).mp both.1).2.1, sqPop,
        Machine.onVM_self]
      refine ⟨base'.trans base, awake, ?_⟩
      rw [popN_top, top, height]
      push_cast
      omega
  · have place : LoadPlace ((m.vms self.vm).push (m.vms self.vm).rootTable)
        ((loadStage loader self path printError m).1.vms self.vm)
        (loadStage loader self path printError m).2 := loadStage_place keeps
    obtain ⟨base, suspended, ⟨ok, -⟩ | ⟨-, top⟩⟩ := place
    · exact absurd (by rw [ok]; decide) loaded
    · rw [if_neg loaded, if_neg fun both => loaded ((completed_iff retval).mp both.1).1]
      exact ⟨base, suspended.trans running, top⟩

private theorem not_balanced (frame : (m.vms self.vm).stackBase ≤ (m.vms self.vm).top)
    (running : (m.vms self.vm).suspended = false) (keeps : loader.KeepsPlace self.vm)
    (script : ScriptReturns host loader self path printError m) :
    ¬ Balanced host loader self path retval printError m := by
  rintro ⟨result, equal⟩
  have higher : Higher (m.vms self.vm)
      ((squirrelVmDoFile host loader self path retval printError m).1.vms self.vm) _ :=
    squirrelVmDoFile_place frame running keeps script
  have lengths := congrArg List.length equal
  rw [List.length_append, visible_length, visible_length, higher.stackBase, higher.top] at lengths
  split at lengths <;> simp only [List.length_singleton, List.length_nil] at lengths <;> omega

end Place

def doFileStep (host : Host) (loader : Loader) (self : SquirrelVm) (m : Machine)
    (file : String × Bool) : Machine × Unit :=
  ((squirrelVmDoFile host loader self file.1 false file.2 m).1, ())

private theorem doFile_run_place {host : Host} {loader : Loader} {self : SquirrelVm}
    (keeps : loader.KeepsPlace self.vm) {m : Machine} {files : List (String × Bool)}
    (frame : (m.vms self.vm).stackBase ≤ (m.vms self.vm).top)
    (running : (m.vms self.vm).suspended = false)
    (scripts : Along (doFileStep host loader self)
      (fun m file => ScriptReturns host loader self file.1 file.2 m) m files) :
    Higher (m.vms self.vm) ((final (doFileStep host loader self) m files).vms self.vm)
      files.length := by
  induction files generalizing m with
  | nil => exact ⟨rfl, running, by simp⟩
  | cons file files ih =>
      obtain ⟨here, rest⟩ := scripts
      have higher : Higher (m.vms self.vm)
          ((squirrelVmDoFile host loader self file.1 false file.2 m).1.vms self.vm) _ :=
        squirrelVmDoFile_place frame running keeps here
      rw [if_neg fun both => Bool.false_ne_true both.2] at higher
      have last := ih (m := (squirrelVmDoFile host loader self file.1 false file.2 m).1)
        (by rw [higher.stackBase, higher.top]; omega) higher.running rest
      refine ⟨last.stackBase.trans higher.stackBase, last.running, ?_⟩
      rw [List.length_cons]
      push_cast
      have total := last.top
      rw [higher.top] at total
      exact total.trans (by omega)

/-- No call of `squirrel_vm_do_file` leaves the stack as it should: every path, whatever the file
holds, keeps the environment that the wrapper pushed, and a run of calls without results grows the
stack by one value per call. -/
theorem do_file_never_balanced (host : Host) {loader : Loader} (self : SquirrelVm)
    (keeps : loader.KeepsPlace self.vm) {m : Machine}
    (frame : (m.vms self.vm).stackBase ≤ (m.vms self.vm).top)
    (running : (m.vms self.vm).suspended = false) :
    (∀ path retval printError, ScriptReturns host loader self path printError m →
      ¬ Balanced host loader self path retval printError m) ∧
    ∀ files : List (String × Bool),
      Along (doFileStep host loader self)
        (fun m file => ScriptReturns host loader self file.1 file.2 m) m files →
      ((final (doFileStep host loader self) m files).vms self.vm).getTop =
        (m.vms self.vm).getTop + files.length := by
  refine ⟨fun path retval printError script => not_balanced frame running keeps script,
    ?_⟩
  intro files scripts
  have higher := doFile_run_place keeps frame running scripts
  rw [getTop, getTop, higher.stackBase, higher.top]
  omega

def oneScript : Loader where
  fopen path := if path = "main.nut" then some [] else none
  compile _ _ _ _ _ m := (m, some 1)
  load _ _ m := (m, none)

/-- Both the script and a missing file leave one value more. -/
theorem do_file_never_balanced_on_one_script :
    (¬ Balanced quietHost oneScript ⟨0⟩ "main.nut" true true (squirrelVmNew 1024 0).1) ∧
      ((final (doFileStep quietHost oneScript ⟨0⟩) (squirrelVmNew 1024 0).1
        [("main.nut", true), ("other.nut", true)]).vms 0).getTop =
        ((squirrelVmNew 1024 0).1.vms 0).getTop + 2 := by
  have keeps : oneScript.KeepsPlace 0 :=
    ⟨fun _ _ _ _ _ => SamePlace.refl _, fun _ _ => SamePlace.refl _⟩
  have all := do_file_never_balanced quietHost ⟨0⟩ keeps (m := (squirrelVmNew 1024 0).1)
    (by decide) (by decide)
  exact ⟨all.1 _ _ _ fun _ _ _ => SamePlace.refl _,
    all.2 _ ⟨fun _ _ _ => SamePlace.refl _, fun _ _ _ => SamePlace.refl _, trivial⟩⟩

/-- A missing file on a new VM: the stack was empty and now holds the root table. -/
theorem do_file_of_missing_file_leaves_environment :
    ¬ Balanced quietHost oneScript ⟨0⟩ "other.nut" false false (squirrelVmNew 1024 0).1 := by
  rintro ⟨result, equal⟩
  rw [if_neg fun both => Bool.false_ne_true both.2] at equal
  revert equal
  decide

end SquirrelGObject.Wrapper
