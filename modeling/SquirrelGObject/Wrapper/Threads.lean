/- SquirrelGObject/Wrapper/Threads
   digest: Threads and values moved between them, compared with one list per VM. -/

import Mathlib.Data.Finset.Card
import SquirrelGObject.Lib.Runs
import SquirrelGObject.Wrapper.Closure

set_option autoImplicit false
set_option relaxedAutoImplicit false

namespace SquirrelGObject.Wrapper

open Engine SQVM Lib.Window Lib.Runs

def squirrelVmPushInt (self : SquirrelVm) (n : Int) (m : Machine) : Machine :=
  sqPushInteger self.vm n m

def squirrelVmPushString (self : SquirrelVm) (s : String) (m : Machine) : Machine :=
  sqPushString self.vm s m

def squirrelVmPushNull (self : SquirrelVm) (m : Machine) : Machine := sqPushNull self.vm m

def squirrelVmPop (self : SquirrelVm) (sz : Nat) (m : Machine) : Machine := sqPop self.vm sz m

def squirrelVmNewThread (self : SquirrelVm) (initialStackSz : Int) (m : Machine) :
    Machine × SquirrelVm :=
  let (m, hvm) := sqNewThread self.vm initialStackSz m
  (m, squirrelVmFromHvm hvm)

def squirrelVmPushThread (self thread : SquirrelVm) (m : Machine) : Machine :=
  sqPushThread self.vm thread.vm m

/-- The arguments go to `sq_move` in the order in which they came. -/
def squirrelVmMove (self dest : SquirrelVm) (idx : Int) (m : Machine) : Machine :=
  sqMove self.vm dest.vm idx m

inductive ThreadOp where
  | pushInt (self : SquirrelVm) (n : Int)
  | pushString (self : SquirrelVm) (s : String)
  | pushNull (self : SquirrelVm)
  | pop (self : SquirrelVm) (sz : Nat)
  | newThread (self : SquirrelVm) (initialStackSz : Int)
  | pushThread (self thread : SquirrelVm)
  | move (self dest : SquirrelVm) (idx : Int)
  deriving DecidableEq

namespace ThreadOp

def exec (m : Machine) : ThreadOp → Machine
  | pushInt self n => squirrelVmPushInt self n m
  | pushString self s => squirrelVmPushString self s m
  | pushNull self => squirrelVmPushNull self m
  | pop self sz => squirrelVmPop self sz m
  | newThread self sz => (squirrelVmNewThread self sz m).1
  | pushThread self thread => squirrelVmPushThread self thread m
  | move self dest idx => squirrelVmMove self dest idx m

end ThreadOp

def visibleStacks (m : Machine) : List (List SQObject) :=
  (List.range m.nextVm).map fun h => (m.vms h).visible

section Release

variable (roots : HSQUIRRELVM) (m : Machine)

/-- A VM is referenced when it is one of those that are kept from outside, which come first, or
when its object is on a stack. -/
def referenced (h : HSQUIRRELVM) : Bool :=
  h < roots || (visibleStacks m).any fun stack => stack.contains (.thread h)

/-- `SQVM::Finalize`, as far as the stack goes: a VM that is destroyed lets go of its values. -/
def finalizeStack (vm : SQVM) : SQVM := { vm with stack := fun _ => .null, top := vm.stackBase }

def releaseOnce : Machine :=
  { m with
    vms := fun h =>
      if h < m.nextVm ∧ referenced roots m h = false then finalizeStack (m.vms h) else m.vms h }

def releaseThreads : Machine := (releaseOnce roots)^[m.nextVm] m

end Release

def threadStep (roots : HSQUIRRELVM) (m : Machine) (op : ThreadOp) :
    Machine × List (List SQObject) :=
  (releaseThreads roots (op.exec m), visibleStacks (releaseThreads roots (op.exec m)))

/-- The list model: one list of values per VM, and how many VMs are kept from outside. -/
structure Stacks where
  of : HSQUIRRELVM → List SQObject
  next : HSQUIRRELVM
  roots : HSQUIRRELVM

namespace Stacks

def append (h : HSQUIRRELVM) (o : SQObject) (t : Stacks) : Stacks :=
  { t with of := Function.update t.of h (t.of h ++ [o]) }

def apply (t : Stacks) : ThreadOp → Stacks
  | .pushInt self n => t.append self.vm (.integer n)
  | .pushString self s => t.append self.vm (.string s)
  | .pushNull self => t.append self.vm .null
  | .pop self sz =>
      { t with
        of := Function.update t.of self.vm ((t.of self.vm).take ((t.of self.vm).length - sz)) }
  | .newThread self _ =>
      ({ t with of := Function.update t.of t.next [], next := t.next + 1 } : Stacks).append self.vm
        (.thread t.next)
  | .pushThread self thread => t.append self.vm (.thread thread.vm)
  | .move self dest idx => t.append dest.vm ((at? (t.of self.vm) idx).getD .null)

def lists (t : Stacks) : List (List SQObject) := (List.range t.next).map t.of

def refers (t : Stacks) (h : HSQUIRRELVM) : Bool :=
  h < t.roots || t.lists.any fun list => list.contains (.thread h)

def dropOnce (t : Stacks) : Stacks :=
  { t with of := fun h => if h < t.next ∧ t.refers h = false then [] else t.of h }

def drop (t : Stacks) : Stacks := dropOnce^[t.next] t

def step (t : Stacks) (op : ThreadOp) : Stacks × List (List SQObject) :=
  ((t.apply op).drop, (t.apply op).drop.lists)

/-- The VM has been made and not been destroyed. -/
def Alive (t : Stacks) (h : HSQUIRRELVM) : Prop := h < t.next ∧ t.refers h = true

/-- The operation is on VMs that have not been destroyed, which it does not do itself to the one it
works on, and its index or count is in range. -/
def Admits (t : Stacks) : ThreadOp → Prop
  | .pushInt self _ | .pushString self _ | .pushNull self | .newThread self _ => t.Alive self.vm
  | .pop self sz =>
      t.Alive self.vm ∧ sz ≤ (t.of self.vm).length ∧ (t.apply (.pop self sz)).drop.Alive self.vm
  | .pushThread self thread => t.Alive self.vm ∧ t.Alive thread.vm
  | .move self dest idx =>
      t.Alive self.vm ∧ t.Alive dest.vm ∧ InRange (t.of self.vm).length idx

section Drop

variable {t : Stacks} {h : HSQUIRRELVM}

def filled (t : Stacks) : Nat := {h ∈ Finset.range t.next | t.of h ≠ []}.card

private theorem dropOnce_of (t : Stacks) (h : HSQUIRRELVM) :
    t.dropOnce.of h = if h < t.next ∧ t.refers h = false then [] else t.of h := rfl

private theorem dropOnce_filled (t : Stacks) (moves : t.dropOnce ≠ t) :
    t.dropOnce.filled < t.filled := by
  obtain ⟨h, changed⟩ : ∃ h, t.dropOnce.of h ≠ t.of h := by
    by_contra same
    rw [not_exists] at same
    exact moves (congrArg (fun of : HSQUIRRELVM → List SQObject => { t with of := of })
      (funext fun h => not_not.mp (same h)))
  have lost : h < t.next ∧ t.refers h = false := by
    by_contra stays
    exact changed ((dropOnce_of t h).trans (if_neg stays))
  have empty : t.dropOnce.of h = [] := (dropOnce_of t h).trans (if_pos lost)
  apply Finset.card_lt_card
  rw [Finset.ssubset_iff_of_subset]
  · refine ⟨h, Finset.mem_filter.mpr ⟨Finset.mem_range.mpr lost.1, ?_⟩, ?_⟩
    · exact fun was => changed (empty.trans was.symm)
    · exact fun member => (Finset.mem_filter.mp member).2 empty
  · intro k member
    obtain ⟨inside, full⟩ := Finset.mem_filter.mp member
    refine Finset.mem_filter.mpr ⟨inside, fun was => full ?_⟩
    rw [dropOnce_of, was, ite_self]

private theorem drop_fixed (t : Stacks) : t.drop.dropOnce = t.drop := by
  apply iterate_fixed dropOnce_filled
  exact (Finset.card_filter_le _ _).trans (Finset.card_range t.next).le

private theorem drop_of_fixed (fixed : t.dropOnce = t) :
    t.drop = t := Function.iterate_fixed fixed _

private theorem append_fixed (fixed : t.dropOnce = t) (alive : t.Alive h) (o : SQObject) :
    (t.append h o).dropOnce = t.append h o := by
  have kept (k : HSQUIRRELVM) (was : t.refers k = true) : (t.append h o).refers k = true := by
    simp only [refers, lists, Bool.or_eq_true, List.any_eq_true, List.mem_map,
      List.contains_eq_mem, decide_eq_true_eq] at was ⊢
    refine was.imp id ?_
    rintro ⟨-, ⟨j, made, rfl⟩, holds⟩
    refine ⟨_, ⟨j, made, rfl⟩, ?_⟩
    by_cases here : j = h
    · subst here
      simpa only [append, Function.update_self] using List.mem_append_left [o] holds
    · simpa only [append, Function.update_of_ne here] using holds
  refine congrArg (fun of : HSQUIRRELVM → List SQObject => { t with of := of }) (funext fun k => ?_)
  by_cases lost : k < t.next ∧ (t.append h o).refers k = false
  · have unreferred : t.refers k = false := by
      by_contra was
      have still := kept k (Bool.not_eq_false _ ▸ was)
      rw [lost.2] at still
      cases still
    have apart : k ≠ h := by
      rintro rfl
      rw [alive.2] at unreferred
      cases unreferred
    have empty : t.dropOnce.of k = [] := if_pos ⟨lost.1, unreferred⟩
    rw [fixed] at empty
    have same : (t.append h o).of k = t.of k := Function.update_of_ne apart _ _
    change (if _ then [] else _) = (t.append h o).of k
    rw [same, empty, ite_self]
  · exact if_neg lost

end Drop

end Stacks

def ThreadOp.Crosses : ThreadOp → Prop
  | move self dest _ => self ≠ dest
  | _ => False

/-- The frame of every VM holds the list of the model. -/
structure Holding (roots : HSQUIRRELVM) (m : Machine) (t : Stacks) : Prop where
  next : m.nextVm = t.next
  roots : roots = t.roots
  frame : ∀ h < t.next, (m.vms h).Frame (t.of h)

section Holding

variable {roots : HSQUIRRELVM} {m : Machine} {t : Stacks}

theorem Holding.visible (holding : Holding roots m t) :
    visibleStacks m = t.lists := by
  rw [visibleStacks, Stacks.lists, holding.next]
  apply List.map_congr_left
  intro h member
  exact (holding.frame h (List.mem_range.mp member)).visible_eq

private theorem Holding.referenced (holding : Holding roots m t) (h : HSQUIRRELVM) :
    referenced roots m h = t.refers h := by
  rw [Wrapper.referenced, Stacks.refers, holding.roots, holding.visible]

private theorem Holding.releaseOnce (holding : Holding roots m t) :
    Holding roots (releaseOnce roots m) t.dropOnce := by
  refine ⟨holding.next, holding.roots, ?_⟩
  intro h live
  have same := holding.referenced h
  by_cases lost : h < t.next ∧ t.refers h = false
  · have gone : h < m.nextVm ∧ Wrapper.referenced roots m h = false := by
      rw [holding.next, same]
      exact lost
    rw [Wrapper.releaseOnce, Stacks.dropOnce]
    dsimp only
    rw [if_pos gone, if_pos lost]
    exact Holds.nil
  · have stays : ¬ (h < m.nextVm ∧ Wrapper.referenced roots m h = false) := by
      rw [holding.next, same]
      exact lost
    rw [Wrapper.releaseOnce, Stacks.dropOnce]
    dsimp only
    rw [if_neg stays, if_neg lost]
    exact holding.frame h live

private theorem Holding.releaseThreads (holding : Holding roots m t) :
    Holding roots (releaseThreads roots m) t.drop := by
  have turns (n : Nat) : ∀ {m : Machine} {t : Stacks}, Holding roots m t →
      Holding roots ((Wrapper.releaseOnce roots)^[n] m) (Stacks.dropOnce^[n] t) := by
    induction n with
    | zero => exact fun holding => holding
    | succ n ih => exact fun holding => ih holding.releaseOnce
  rw [Wrapper.releaseThreads, Stacks.drop, holding.next]
  exact turns t.next holding

theorem Holding.append (holding : Holding roots m t) (h : HSQUIRRELVM) (o : SQObject) :
    Holding roots (m.push h o) (t.append h o) where
  next := holding.next
  roots := holding.roots
  frame k live := by
    by_cases here : k = h
    · subst here
      simpa [Machine.push, Stacks.append] using (holding.frame k live).push o
    · simpa [Machine.push, Stacks.append, Machine.onVM_of_ne here, here] using holding.frame k live

theorem Holding.pop (holding : Holding roots m t) {self : SquirrelVm} {sz : Nat}
    (enough : sz ≤ (t.of self.vm).length) :
    Holding roots (squirrelVmPop self sz m) (t.apply (.pop self sz)) where
  next := holding.next
  roots := holding.roots
  frame k live := by
    by_cases here : k = self.vm
    · subst here
      have popped := (holding.frame self.vm live).popN_take enough
      simpa [squirrelVmPop, sqPop, Stacks.apply] using popped
    · simpa [squirrelVmPop, sqPop, Stacks.apply, Machine.onVM_of_ne here, here] using
        holding.frame k live

private theorem Holding.newThread (holding : Holding roots m t) (self : SquirrelVm) (sz : Int) :
    Holding roots (squirrelVmNewThread self sz m).1 (t.apply (.newThread self sz)) := by
  have fresh : Holding roots
      { m with
        vms := Function.update m.vms t.next (initThread (m.vms self.vm) sz)
        nextVm := t.next + 1 }
      { t with of := Function.update t.of t.next [], next := t.next + 1 } := by
    refine ⟨rfl, holding.roots, ?_⟩
    intro k live
    by_cases made : k = t.next
    · subst made
      simp only [Function.update_self]
      exact Holds.nil
    · simp only [Function.update_of_ne made]
      exact holding.frame k (Nat.lt_of_le_of_ne (Nat.lt_succ_iff.mp live) made)
  have pushed := fresh.append self.vm (.thread t.next)
  rw [squirrelVmNewThread, sqNewThread, holding.next]
  exact pushed

theorem Holding.step (holding : Holding roots m t) {op : ThreadOp} (admits : t.Admits op)
    (direct : ¬ op.Crosses) : Holding roots (op.exec m) (t.apply op) := by
  cases op with
  | pushInt self n => exact holding.append self.vm (.integer n)
  | pushString self s => exact holding.append self.vm (.string s)
  | pushNull self => exact holding.append self.vm .null
  | pop self sz => exact holding.pop admits.2.1
  | newThread self sz => exact holding.newThread self sz
  | pushThread self thread => exact holding.append self.vm (.thread thread.vm)
  | move self dest idx =>
      have same : self = dest := not_not.mp direct
      subst same
      obtain ⟨alive, -, inside⟩ := admits
      have value := (holding.frame self.vm alive.1).stackGet inside
      simp only [Stacks.apply, value, Option.getD_some]
      exact holding.append self.vm ((m.vms self.vm).stackGet idx)

/-- A move between two VMs grows the stack of the VM that should keep its own. Both are alive, so
neither side destroys anything. -/
private theorem Holding.crossing_differs (holding : Holding roots m t) (fixed : t.dropOnce = t)
    {op : ThreadOp} (admits : t.Admits op) (crosses : op.Crosses) :
    (threadStep roots m op).2 ≠ (t.step op).2 := by
  cases op with
  | move self dest idx =>
      obtain ⟨alive, destAlive, -⟩ := admits
      have apart : self.vm ≠ dest.vm := fun equal => crosses (by cases self; cases dest; simp_all)
      have grown : Holding roots
          (Wrapper.releaseThreads roots (ThreadOp.exec m (.move self dest idx)))
          (t.append self.vm ((m.vms dest.vm).stackGet idx)).drop :=
        (holding.append self.vm ((m.vms dest.vm).stackGet idx)).releaseThreads
      rw [Stacks.drop_of_fixed (Stacks.append_fixed fixed alive _)] at grown
      have declared : (t.apply (.move self dest idx)).drop = t.apply (.move self dest idx) :=
        Stacks.drop_of_fixed (Stacks.append_fixed fixed destAlive _)
      intro equal
      rw [threadStep, Stacks.step, declared] at equal
      have own := congrArg (fun made => (made[self.vm]?).map List.length)
        (grown.visible.symm.trans equal)
      have inside : self.vm < t.next := alive.1
      simp [Stacks.lists, Stacks.append, Stacks.apply, inside, apart] at own
  | _ => exact crosses.elim

end Holding

/-- The list model that starts with what the VMs hold. These are kept from outside. -/
def Stacks.start (m : Machine) : Stacks := ⟨fun h => (m.vms h).visible, m.nextVm, m.nextVm⟩

private theorem Stacks.start_fixed (m : Machine) : (start m).dropOnce = start m := by
  refine congrArg (fun of : HSQUIRRELVM → List SQObject => { start m with of := of })
    (funext fun h => if_neg ?_)
  rintro ⟨live, unreferred⟩
  rw [refers, Bool.or_eq_false_iff] at unreferred
  exact of_decide_eq_false unreferred.1 live

/-- Values move between VMs as declared, on every stack and after every operation of the run,
exactly when no operation moves a value from one VM to another. -/
theorem thread_runs_agree_iff_no_crossing {m : Machine}
    (frames : ∀ h < m.nextVm, (m.vms h).stackBase ≤ (m.vms h).top) {ops : List ThreadOp}
    (admissible : Along Stacks.step Stacks.Admits (Stacks.start m) ops) :
    outputs (threadStep m.nextVm) m ops = outputs Stacks.step (Stacks.start m) ops ↔
      ∀ op ∈ ops, ¬ op.Crosses := by
  have initial : Holding m.nextVm m (Stacks.start m) ∧ (Stacks.start m).dropOnce = Stacks.start m :=
    ⟨⟨rfl, rfl, fun h live => frame_visible (frames h live)⟩, Stacks.start_fixed m⟩
  rw [← along_forall Stacks.step (fun op => ¬ op.Crosses) (Stacks.start m)]
  refine outputs_eq_iff_good (R := fun s t => Holding m.nextVm s t ∧ t.dropOnce = t) ?_ ?_ ?_
    initial admissible
  · intro m t op holding admits direct
    exact ⟨(holding.1.step admits direct).releaseThreads, Stacks.drop_fixed _⟩
  · intro m t op holding admits direct
    exact (holding.1.step admits direct).releaseThreads.visible
  · intro m t op holding admits crosses
    exact holding.1.crossing_differs holding.2 admits (not_not.mp crosses)

/-- A run on a new VM and a thread of it, with one move inside a VM, until the thread is
destroyed. -/
def ownStackOps : List ThreadOp :=
  [.newThread ⟨0⟩ 64, .pushInt ⟨1⟩ 7, .move ⟨1⟩ ⟨1⟩ 1, .pop ⟨1⟩ 1, .pop ⟨0⟩ 1, .pushInt ⟨0⟩ 5]

theorem thread_runs_agree_on_own_stack :
    outputs (threadStep 1) (squirrelVmNew 1024 0).1 ownStackOps =
      outputs Stacks.step (Stacks.start (squirrelVmNew 1024 0).1) ownStackOps :=
  (thread_runs_agree_iff_no_crossing (m := (squirrelVmNew 1024 0).1) (fun h live => by
    obtain rfl : h = 0 := Nat.lt_one_iff.mp live
    decide) (by
    simp only [ownStackOps, along_cons, along_nil, and_true, Stacks.Admits, Stacks.Alive]
    decide)).mpr (by simp [ownStackOps, ThreadOp.Crosses])

/-- Two VMs with one integer each: the value should go from the first to the second, and goes the
other way. -/
theorem move_to_thread_goes_wrong :
    let ops : List ThreadOp :=
      [.newThread ⟨0⟩ 64, .pushInt ⟨0⟩ 7, .pushInt ⟨1⟩ 8, .move ⟨0⟩ ⟨1⟩ (-1)]
    Along Stacks.step Stacks.Admits (Stacks.start (squirrelVmNew 1024 0).1) ops ∧
      outputs (threadStep 1) (squirrelVmNew 1024 0).1 ops ≠
        outputs Stacks.step (Stacks.start (squirrelVmNew 1024 0).1) ops := by
  refine ⟨?_, by decide⟩
  simp only [along_cons, along_nil, and_true, Stacks.Admits, Stacks.Alive]
  decide

end SquirrelGObject.Wrapper
