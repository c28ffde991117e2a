/- SquirrelGObject/Engine/Outers
   digest: Variables that closures share with the stack: capture, closing, relocation, errors. -/

import SquirrelGObject.Engine.Object
import SquirrelGObject.Lib.Chain

set_option autoImplicit false
set_option relaxedAutoImplicit false

namespace SquirrelGObject.Engine

open Lib.Chain

/-- Where an outer finds its value: in a slot of a stack allocation, or in itself. Every allocation
of the stack has its own number. -/
inductive ValPtr where
  | stack (allocation idx : Nat)
  | own
  deriving DecidableEq, Repr

/-- An `SQOuter` with its pointer and its place on the list. -/
structure LinkedOuter (α : Type) where
  valptr : ValPtr
  value : α
  idx : Nat
  next : Option Address

/-- The stack of a VM with the outers in memory. The flag records that a pointer into an
allocation the stack has left was followed. -/
structure OuterStack (α : Type) where
  vals : Nat → α
  size : Nat
  allocated : Nat
  allocation : Nat
  openOuters : Option Address
  outers : Address → Option (LinkedOuter α)
  dangling : Bool

namespace OuterStack

variable {α : Type}

def init (null : α) (size : Nat) : OuterStack α where
  vals := fun _ => null
  size := size
  allocated := size
  allocation := 0
  openOuters := none
  outers := fun _ => none
  dangling := false

def nexts (t : OuterStack α) (a : Address) : Option Address := (t.outers a).bind LinkedOuter.next

def place (t : OuterStack α) (a : Address) : Option Nat :=
  (t.outers a).bind fun o =>
    match o.valptr with
    | .stack allocation i => if allocation = t.allocation then some i else none
    | .own => none

def setOuter (a : Address) (o : LinkedOuter α) (t : OuterStack α) : OuterStack α :=
  { t with outers := Function.update t.outers a (some o) }

def setSlot (i : Nat) (x : α) (t : OuterStack α) : OuterStack α :=
  { t with vals := Function.update t.vals i x }

def insertOuter (null : α) (fresh : Address) (stackindex : Nat) (prev next : Option Address)
    (t : OuterStack α) : OuterStack α :=
  let t := t.setOuter fresh ⟨.stack t.allocation stackindex, null, stackindex, next⟩
  match prev with
  | none => { t with openOuters := some fresh }
  | some p =>
      match t.outers p with
      | none => t
      | some o => t.setOuter p { o with next := some fresh }

/-- `FindOuter`. The walk goes on while the outers are above the slot; there is at most one open
outer for each slot. -/
def findOuter (null : α) (fresh : Address) (stackindex : Nat) (t : OuterStack α) :
    OuterStack α × Address :=
  let found := search t.nexts (fun a => (t.place a).any fun i => decide (i ≤ stackindex))
    t.size none t.openOuters
  match found.1 with
  | some a =>
      if t.place a = some stackindex then (t, a)
      else (t.insertOuter null fresh stackindex found.2 (some a), fresh)
  | none => (t.insertOuter null fresh stackindex found.2 none, fresh)

/-- The loop of `CloseOuters`. The outer takes the value with it, and its place on the list ends. -/
def closeFrom : Nat → Nat → OuterStack α → OuterStack α
  | 0, _, t => t
  | fuel + 1, stackindex, t =>
      match t.openOuters with
      | none => t
      | some p =>
          match t.outers p, t.place p with
          | some o, some i =>
              if stackindex ≤ i then
                closeFrom fuel stackindex
                  { t.setOuter p { o with value := t.vals i, valptr := .own } with
                    openOuters := o.next }
              else t
          | _, _ => t

def closeOuters (stackindex : Nat) (t : OuterStack α) : OuterStack α :=
  closeFrom t.size stackindex t

/-- The loop of `RelocateOuters`. -/
def relocateFrom : Nat → Option Address → OuterStack α → OuterStack α
  | _, none, t => t
  | 0, some _, t => t
  | fuel + 1, some p, t =>
      match t.outers p with
      | none => t
      | some o =>
          relocateFrom fuel o.next (t.setOuter p { o with valptr := .stack t.allocation o.idx })

/-- `_stack.resize`, to a larger size. The values move when they do not fit into the allocation. -/
def resize (null : α) (newsize : Nat) (t : OuterStack α) : OuterStack α :=
  { t with
    vals := fun i => if i < t.size then t.vals i else null
    size := newsize
    allocated := max t.allocated newsize
    allocation := if t.allocated < newsize then t.allocation + 1 else t.allocation }

/-- What `EnterFrame` does to the stack. In a metamethod it fails instead of moving the stack. -/
def enterFrame (null : α) (newtop nmetamethodscall : Nat) (t : OuterStack α) : OuterStack α :=
  if t.size < newtop + minStackOverhead.toNat then
    if nmetamethodscall ≠ 0 then t
    else
      let t := t.resize null (newtop + minStackOverhead.toNat * 4)
      relocateFrom t.size t.openOuters t
  else t

/-- What `sq_reservestack` does to the stack. The outers are not relocated. -/
def sqReserveStack (null : α) (top nsize nmetamethodscall : Nat) (t : OuterStack α) :
    OuterStack α :=
  if t.size < top + nsize then
    if nmetamethodscall ≠ 0 then t
    else t.resize null (t.size + (top + nsize - t.size))
  else t

/-- Null the slots from `top` to `lastTop`. -/
def nullSlots (null : α) (top lastTop : Nat) (t : OuterStack α) : OuterStack α :=
  { t with vals := fun i => if top ≤ i ∧ i ≤ lastTop then null else t.vals i }

/-- What `LeaveFrame` does to the stack. -/
def leaveFrame (null : α) (lastBase top lastTop : Nat) (t : OuterStack α) : OuterStack α :=
  (t.closeOuters lastBase).nullSlots null top lastTop

/-- What catching an exception does to the stack: the value is stored for the handler and the slots
above the frame are cleared. Nothing is closed. -/
def catchError (null : α) (extarget stacksize lastTop : Nat) (error : α) (t : OuterStack α) :
    OuterStack α :=
  (t.setSlot extarget error).nullSlots null stacksize lastTop

def valid (o : LinkedOuter α) (t : OuterStack α) : Bool :=
  match o.valptr with
  | .own => true
  | .stack allocation i => allocation = t.allocation ∧ i < t.size

/-- `*(otr->_valptr)`. -/
def deref (o : LinkedOuter α) (t : OuterStack α) : α :=
  match o.valptr with
  | .own => o.value
  | .stack _ i => t.vals i

/-- `_OP_GETOUTER`. -/
def getOuter (a : Address) (t : OuterStack α) : OuterStack α × Option α :=
  match t.outers a with
  | none => (t, none)
  | some o => ({ t with dangling := t.dangling || !t.valid o }, some (t.deref o))

/-- `_OP_SETOUTER`. -/
def putOuter (a : Address) (x : α) (t : OuterStack α) : OuterStack α :=
  match t.outers a with
  | none => t
  | some o =>
      let t := { t with dangling := t.dangling || !t.valid o }
      match o.valptr with
      | .own => t.setOuter a { o with value := x }
      | .stack _ i => t.setSlot i x

end OuterStack

/-- What the code of a function does with the stack and with the variables its closures share. The
handles are the outers that closures have been made with. -/
inductive OuterOp (α : Type) where
  | read (i : Nat)
  | write (i : Nat) (x : α)
  | capture (i : Nat) (fresh : Address)
  | getOuter (k : Nat)
  | setOuter (k : Nat) (x : α)
  | close (i : Nat)
  | enterFrame (newtop nmetamethodscall : Nat)
  | reserveStack (top nsize nmetamethodscall : Nat)
  | leaveFrame (lastBase top lastTop : Nat)
  | catchError (extarget stacksize lastTop : Nat) (error : α)

structure OuterUse (α : Type) where
  stack : OuterStack α
  handles : List Address

namespace OuterUse

variable {α : Type}

def step (null : α) (u : OuterUse α) : OuterOp α → OuterUse α × Option α
  | .read i => (u, some (u.stack.vals i))
  | .write i x => (⟨u.stack.setSlot i x, u.handles⟩, none)
  | .capture i fresh =>
      let found := u.stack.findOuter null fresh i
      (⟨found.1, u.handles ++ [found.2]⟩, none)
  | .getOuter k =>
      match u.handles[k]? with
      | none => (u, none)
      | some a => (⟨(u.stack.getOuter a).1, u.handles⟩, (u.stack.getOuter a).2)
  | .setOuter k x =>
      match u.handles[k]? with
      | none => (u, none)
      | some a => (⟨u.stack.putOuter a x, u.handles⟩, none)
  | .close i => (⟨u.stack.closeOuters i, u.handles⟩, none)
  | .enterFrame newtop nmetamethodscall =>
      (⟨u.stack.enterFrame null newtop nmetamethodscall, u.handles⟩, none)
  | .reserveStack top nsize nmetamethodscall =>
      (⟨u.stack.sqReserveStack null top nsize nmetamethodscall, u.handles⟩, none)
  | .leaveFrame lastBase top lastTop =>
      (⟨u.stack.leaveFrame null lastBase top lastTop, u.handles⟩, none)
  | .catchError extarget stacksize lastTop error =>
      (⟨u.stack.catchError null extarget stacksize lastTop error, u.handles⟩, none)

end OuterUse

end SquirrelGObject.Engine
