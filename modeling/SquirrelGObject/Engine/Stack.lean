/- SquirrelGObject/Engine/Stack
   digest: One VM: its value stack, its call stack, and entering and leaving frames. -/

import SquirrelGObject.Engine.Object
import SquirrelGObject.Lib.Window
import Mathlib.Data.List.Induction

set_option autoImplicit false
set_option relaxedAutoImplicit false

namespace SquirrelGObject.Engine

open Lib.Window

structure CallInfo where
  closure : SQObject
  ip : Nat
  prevStkBase : Int
  prevTop : Int
  target : Int
  root : Bool

/-- The state of one VM or thread. Stack positions are integers and every position has a
content, also above the top, where the engine leaves whatever was there. `stackSize` is the
length of the vector behind it. -/
structure SQVM where
  stack : Int → SQObject
  stackSize : Int
  top : Int
  stackBase : Int
  rootTable : SQObject
  lastError : SQObject
  errorHandler : SQObject
  callsStack : Int → CallInfo
  callsStackSize : Int
  nNativeCalls : Int
  nMetamethodsCall : Int
  suspended : Bool

namespace SQVM

def visible (vm : SQVM) : List SQObject := window vm.stack vm.stackBase vm.top

/-- The current frame holds exactly these values. -/
def Frame (vm : SQVM) (xs : List SQObject) : Prop := Holds vm.stack vm.stackBase vm.top xs

def write (i : Int) (o : SQObject) (vm : SQVM) : SQVM :=
  { vm with stack := Function.update vm.stack i o }

/-- `stack_get`: a non-negative index counts from the frame's base, a negative one from the top. -/
def stackGet (vm : SQVM) (idx : Int) : SQObject :=
  if 0 ≤ idx then vm.stack (idx + vm.stackBase - 1) else vm.stack (vm.top + idx)

def getUp (vm : SQVM) (n : Int) : SQObject := vm.stack (vm.top + n)

/-- `SQVM::Push`. It does not look at the size of the vector. -/
def push (o : SQObject) (vm : SQVM) : SQVM :=
  { vm with stack := Function.update vm.stack vm.top o, top := vm.top + 1 }

def pop (vm : SQVM) : SQVM :=
  { vm with stack := Function.update vm.stack (vm.top - 1) .null, top := vm.top - 1 }

/-- `SQVM::Pop(n)`. -/
def popN : Nat → SQVM → SQVM
  | 0, vm => vm
  | n + 1, vm => popN n vm.pop

/-- The topmost `n` values, the top first, as repeated popping sees them. -/
def popped : Nat → SQVM → List SQObject
  | 0, _ => []
  | n + 1, vm => vm.getUp (-1) :: popped n vm.pop

def pushAll : List SQObject → SQVM → SQVM
  | [], vm => vm
  | o :: rest, vm => pushAll rest (vm.push o)

/-- Replace the topmost `n` values by one. The slots it gives up, and the one above, are null. -/
def replaceTop (n : Nat) (o : SQObject) (vm : SQVM) : SQVM :=
  { vm with
    top := vm.top - n + 1
    stack := fun i =>
      if i = vm.top - n then o
      else if vm.top - n < i ∧ i ≤ vm.top then .null
      else vm.stack i }

def getTop (vm : SQVM) : Int := vm.top - vm.stackBase

/-- `SQVM::Remove`: shift everything above the position down by one, the slot above the top
included. -/
def remove (idx : Int) (vm : SQVM) : SQVM :=
  let n := if 0 ≤ idx then idx + vm.stackBase - 1 else vm.top + idx
  { vm with
    stack := fun i =>
      if i = vm.top then .null
      else if n ≤ i ∧ i < vm.top then vm.stack (i + 1)
      else vm.stack i
    top := vm.top - 1 }

/-- `sqvector::resize` to a larger size: the added slots are null. -/
def growStack (size : Int) (vm : SQVM) : SQVM :=
  { vm with
    stack := fun i => if vm.stackSize ≤ i ∧ i < size then .null else vm.stack i
    stackSize := size }

/-- The record `EnterFrame` prepares. -/
def frameInfo (newbase : Int) (vm : SQVM) : CallInfo :=
  { vm.callsStack vm.callsStackSize with
    prevStkBase := newbase - vm.stackBase
    prevTop := vm.top - vm.stackBase
    root := false }

/-- The frame that `EnterFrame` prepares before it looks at the size of the stack. -/
def enteredFrame (newbase newtop : Int) (vm : SQVM) : SQVM :=
  { vm with
    callsStack := Function.update vm.callsStack vm.callsStackSize (vm.frameInfo newbase)
    callsStackSize := vm.callsStackSize + 1
    stackBase := newbase
    top := newtop }

/-- `SQVM::EnterFrame` without the tail call. On overflow inside a metamethod it reports an
error with the frame already entered. -/
def enterFrame (newbase newtop : Int) (vm : SQVM) : SQVM × Bool :=
  let entered := enteredFrame newbase newtop vm
  if newtop + minStackOverhead ≤ vm.stackSize then (entered, true)
  else if vm.nMetamethodsCall ≠ 0 then
    ({ entered with
        lastError := raised "stack overflow, cannot resize stack while in a metamethod"
          "stack overflow, cannot resize stack while in a metamethod" }, false)
  else (entered.growStack (newtop + 4 * minStackOverhead), true)

def ci (vm : SQVM) : CallInfo := vm.callsStack (vm.callsStackSize - 1)

/-- `SQVM::LeaveFrame`: drop the record, return to the previous base and top, and clear from the
old top down to the restored one, both included. -/
def leaveFrame (vm : SQVM) : SQVM :=
  let base := vm.stackBase - vm.ci.prevStkBase
  let top := base + vm.ci.prevTop
  { vm with
    callsStack := Function.update vm.callsStack (vm.callsStackSize - 1)
      { vm.ci with closure := .null }
    callsStackSize := vm.callsStackSize - 1
    stackBase := base
    top := top
    stack := fun i => if top ≤ i ∧ i ≤ vm.top then .null else vm.stack i }

/-- The two states differ at most in the contents of the stack and the position of the top. -/
def OnlyStack (vm vm' : SQVM) : Prop := vm' = { vm with stack := vm'.stack, top := vm'.top }

theorem OnlyStack.trans {a b c : SQVM} (first : OnlyStack a b) (second : OnlyStack b c) :
    OnlyStack a c := by
  rw [OnlyStack] at *
  rw [second, first]

private theorem OnlyStack.eq_of {a b c : SQVM} (left : OnlyStack a b) (right : OnlyStack a c)
    (stack : ∀ i, b.stack i = c.stack i) (top : b.top = c.top) : b = c := by
  rw [OnlyStack] at *
  rw [left, right, funext stack, top]

theorem frame_visible {vm : SQVM} (le : vm.stackBase ≤ vm.top) : vm.Frame vm.visible :=
  holds_window vm.stack le

theorem Frame.visible_eq {vm : SQVM} {xs : List SQObject} (h : vm.Frame xs) : vm.visible = xs :=
  Holds.window_eq h

theorem visible_length (vm : SQVM) : vm.visible.length = (vm.top - vm.stackBase).toNat :=
  window_length _ _ _

theorem Frame.push {vm : SQVM} {xs : List SQObject} (h : vm.Frame xs) (o : SQObject) :
    (vm.push o).Frame (xs ++ [o]) :=
  Holds.push h o

theorem Frame.pop {vm : SQVM} {xs : List SQObject} {o : SQObject} (h : vm.Frame (xs ++ [o])) :
    vm.pop.Frame xs :=
  Holds.pop h .null

theorem Frame.top {vm : SQVM} {xs : List SQObject} {o : SQObject} (h : vm.Frame (xs ++ [o])) :
    vm.stackGet (-1) = o := by
  have := Holds.last h
  simpa [stackGet, Int.sub_eq_add_neg] using this

theorem Frame.stackGet {vm : SQVM} {xs : List SQObject} (h : vm.Frame xs) {idx : Int}
    (inside : InRange xs.length idx) : at? xs idx = some (vm.stackGet idx) :=
  Holds.read h inside

@[simp] theorem push_top (vm : SQVM) (o : SQObject) : (vm.push o).top = vm.top + 1 := rfl
@[simp] theorem push_stackBase (vm : SQVM) (o : SQObject) :
    (vm.push o).stackBase = vm.stackBase := rfl
@[simp] theorem push_suspended (vm : SQVM) (o : SQObject) :
    (vm.push o).suspended = vm.suspended := rfl
@[simp] theorem push_stack (vm : SQVM) (o : SQObject) :
    (vm.push o).stack = Function.update vm.stack vm.top o := rfl
@[simp] theorem push_stackGet (vm : SQVM) (o : SQObject) : (vm.push o).stackGet (-1) = o := by
  rw [stackGet, if_neg (by decide), push_top, push_stack, Int.add_neg_cancel_right,
    Function.update_self]
@[simp] theorem pop_top (vm : SQVM) : vm.pop.top = vm.top - 1 := rfl
@[simp] theorem pop_stack (vm : SQVM) :
    vm.pop.stack = Function.update vm.stack (vm.top - 1) .null := rfl

@[simp] theorem popN_top (n : Nat) (vm : SQVM) : (vm.popN n).top = vm.top - n := by
  induction n generalizing vm with
  | zero => simp [popN]
  | succ n ih =>
      rw [popN, ih, pop_top]
      push_cast
      omega

theorem popN_stack (n : Nat) (vm : SQVM) (i : Int) :
    (vm.popN n).stack i = if vm.top - n ≤ i ∧ i < vm.top then .null else vm.stack i := by
  induction n generalizing vm with
  | zero =>
      rw [if_neg (by push_cast; omega)]
      rfl
  | succ n ih =>
      rw [popN, ih, pop_top, pop_stack]
      by_cases last : i = vm.top - 1
      · subst last
        rw [if_neg (by omega), Function.update_self, if_pos (by push_cast; omega)]
      · rw [Function.update_of_ne last]
        congr 1
        apply propext
        push_cast
        omega

theorem popN_onlyStack (n : Nat) (vm : SQVM) : OnlyStack vm (vm.popN n) := by
  induction n generalizing vm with
  | zero => rfl
  | succ n ih =>
      have first : OnlyStack vm vm.pop := rfl
      exact first.trans (ih vm.pop)

@[simp] theorem popN_stackBase (n : Nat) (vm : SQVM) : (vm.popN n).stackBase = vm.stackBase := by
  rw [popN_onlyStack n vm]

@[simp] theorem popN_suspended (n : Nat) (vm : SQVM) :
    (vm.popN n).suspended = vm.suspended := by
  rw [popN_onlyStack n vm]

theorem Frame.popN {vm : SQVM} {xs vs : List SQObject} (h : vm.Frame (xs ++ vs)) :
    (vm.popN vs.length).Frame xs := by
  have total := Holds.top_eq h
  rw [List.length_append] at total
  push_cast at total
  have low := ((Holds.append_iff rfl).mp h).1
  constructor
  · rw [popN_top, popN_stackBase]
    omega
  · intro i inside
    rw [popN_stackBase, popN_stack, if_neg (by omega)]
    exact low.cell i inside

theorem Frame.popN_take {vm : SQVM} {xs : List SQObject} (h : vm.Frame xs) {n : Nat}
    (enough : n ≤ xs.length) : (vm.popN n).Frame (xs.take (xs.length - n)) := by
  rw [← List.take_append_drop (xs.length - n) xs] at h
  have popped := h.popN
  rwa [List.length_drop, Nat.sub_sub_self enough] at popped

@[simp] theorem popped_length (n : Nat) (vm : SQVM) : (vm.popped n).length = n := by
  induction n generalizing vm with
  | zero => rfl
  | succ n ih => rw [popped, List.length_cons, ih]

@[simp] theorem pushAll_top (l : List SQObject) (vm : SQVM) :
    (vm.pushAll l).top = vm.top + l.length := by
  induction l generalizing vm with
  | nil => simp [pushAll]
  | cons o rest ih =>
      rw [pushAll, ih, push_top, List.length_cons]
      push_cast
      omega

theorem pushAll_onlyStack (l : List SQObject) (vm : SQVM) : OnlyStack vm (vm.pushAll l) := by
  induction l generalizing vm with
  | nil => rfl
  | cons o rest ih =>
      have first : OnlyStack vm (vm.push o) := rfl
      exact first.trans (ih (vm.push o))

private theorem pushAll_stack (l : List SQObject) (vm : SQVM) :
    (vm.pushAll l).stack = fill vm.stack vm.top l := by
  induction l generalizing vm with
  | nil => rfl
  | cons o rest ih => exact ih (vm.push o)

private theorem popped_of_holds {vm : SQVM} {base : Int} {vs : List SQObject}
    (holds : Holds vm.stack base vm.top vs) : vm.popped vs.length = vs.reverse := by
  induction vs using List.reverseRecOn generalizing vm with
  | nil => rfl
  | append_singleton vs o ih =>
      have top : vm.getUp (-1) = o := by
        simpa [getUp, Int.sub_eq_add_neg] using holds.last
      have below : vm.pop.popped vs.length = vs.reverse := ih (holds.pop .null)
      rw [List.length_append, List.length_singleton, popped, top, below, List.reverse_append]
      rfl

theorem Frame.popped {vm : SQVM} {xs vs : List SQObject} (h : vm.Frame (xs ++ vs)) :
    vm.popped vs.length = vs.reverse :=
  popped_of_holds ((Holds.append_iff rfl).mp h).2

theorem pushAll_holds {vm : SQVM} {base : Int} {xs : List SQObject}
    (holds : Holds vm.stack base vm.top xs) (l : List SQObject) :
    Holds (vm.pushAll l).stack base (vm.pushAll l).top (xs ++ l) := by
  rw [pushAll_stack, pushAll_top]
  exact holds.fill l

theorem popped_pushAll (l : List SQObject) (vm : SQVM) :
    (vm.pushAll l).popped l.length = l.reverse := by
  have start : Holds vm.stack vm.top vm.top ([] : List SQObject) := Holds.nil
  exact popped_of_holds (pushAll_holds start l)

/-- Popping `n` values, pushing one more than that and popping them all leaves nulls from the
first slot given up to the highest slot used. -/
theorem push_popN_pushAll_popN (n : Nat) (o : SQObject) {l : List SQObject} (vm : SQVM)
    (length : l.length = n + 1) :
    (((vm.popN n).pushAll l).popN (n + 1)).push o = vm.replaceTop n o := by
  have top : (((vm.popN n).pushAll l).popN (n + 1)).top = vm.top - n := by
    rw [popN_top, pushAll_top, popN_top, length]
    omega
  have same : OnlyStack vm (((vm.popN n).pushAll l).popN (n + 1)) :=
    ((popN_onlyStack n vm).trans (pushAll_onlyStack l _)).trans (popN_onlyStack (n + 1) _)
  refine OnlyStack.eq_of (same.trans rfl) rfl ?_ (by rw [push_top, top]; rfl)
  intro i
  rw [push_stack, top]
  simp only [replaceTop]
  by_cases here : i = vm.top - n
  · rw [if_pos here, here, Function.update_self]
  · rw [if_neg here, Function.update_of_ne here, popN_stack, pushAll_top, popN_top, length]
    by_cases used : vm.top - n < i ∧ i ≤ vm.top
    · rw [if_pos (by push_cast; omega), if_pos used]
    · rw [if_neg (by push_cast; omega), if_neg used,
        pushAll_stack, fill_of_outside (by rw [popN_top, length]; push_cast; omega), popN_stack,
        if_neg (by omega)]

theorem Frame.replaceTop {vm : SQVM} {xs vs : List SQObject} (h : vm.Frame (xs ++ vs))
    (o : SQObject) : (vm.replaceTop vs.length o).Frame (xs ++ [o]) := by
  have total := Holds.top_eq h
  rw [List.length_append] at total
  push_cast at total
  have low := ((Holds.append_iff rfl).mp h).1
  have mid : vm.stackBase + (xs.length : Int) = vm.top - vs.length := by omega
  refine (Holds.append_iff rfl).mpr ⟨low.congr ?_, ?_⟩
  · intro i _ below
    simp only [SQVM.replaceTop]
    rw [if_neg (by omega), if_neg (by omega)]
  · refine Holds.singleton_iff.mpr ⟨?_, ?_⟩
    · simp only [SQVM.replaceTop]
      omega
    · simp only [SQVM.replaceTop]
      rw [if_pos mid]

end SQVM

end SquirrelGObject.Engine
