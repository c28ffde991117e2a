/- SquirrelGObject/Engine/Collector
   digest: Collectable objects, their chain and counts; marking, releasing and the two collections. -/

import SquirrelGObject.Engine.Object
import SquirrelGObject.Lib.DepthFirst
import SquirrelGObject.Lib.TwoWay

set_option autoImplicit false
set_option relaxedAutoImplicit false

open SquirrelGObject.Lib.TwoWay (Links addFirst unlink)

namespace SquirrelGObject.Engine

/-- The collectable object a value refers to, by the types `MarkObject` looks at. Strings and weak
references are counted as well, but lie on no chain and refer to nothing collectable. -/
def SQObject.collectable : SQObject → Option Address
  | table a | array a | userdata a | closure a | nativeclosure a | generator a | thread a
  | cls a | inst a | outer a | funcproto a => some a
  | null | integer _ | float _ | bool _ | string _ | userpointer _ | weakref _ => none

namespace Collector

def pointer (kind : Address → SQObject) : Option Address → SQObject
  | some a => kind a
  | none => .null

/-- The references of an `SQVM` and the top of its stack. The calls are the closures of the used
part of the call stack. -/
structure Thread where
  lastError : SQObject
  errorHandler : SQObject
  debugHookClosure : SQObject
  rootTable : SQObject
  tempReg : SQObject
  stack : List SQObject
  top : Nat
  calls : List SQObject
  openOuters : List Address
  deriving DecidableEq, Repr

structure ClassMember where
  val : SQObject
  attrs : SQObject
  deriving DecidableEq, Repr

structure Class where
  members : Option Address
  base : Option Address
  attributes : SQObject
  defaultValues : List ClassMember
  methods : List ClassMember
  metaMethods : List SQObject
  deriving DecidableEq, Repr

/-- The references of the eleven kinds of `SQCollectable`. An outer that is open has the stack index
of its variable; an instance that has been finalized has lost its class and its values. -/
inductive Collectable where
  | table (delegate : Option Address) (nodes : List (SQObject × SQObject))
  | array (values : List SQObject)
  | userData (delegate : Option Address)
  | closure (base : Option Address) (function : Address) (outerValues defaultParams : List SQObject)
  | nativeClosure (outerValues : List SQObject)
  | generator (closure : SQObject) (stack : List SQObject) (ciClosure : SQObject)
  | thread (v : Thread)
  | cls (c : Class)
  | inst (fields : Option (Address × List SQObject))
  | outer (value : SQObject) (idx : Option Nat)
  | funcProto (literals functions : List SQObject)
  deriving DecidableEq, Repr

/-- What is left to do while objects are released: drop a counted reference, `REMOVE_FROM_CHAIN`, or
one turn of `CloseOuters` on the stack of a thread. -/
inductive Task where
  | release (a : Address)
  | removeFromChain (c : Address)
  | closeOuter (p : Address) (stack : List SQObject)
  deriving DecidableEq, Repr

def collectables (l : List SQObject) : List Address := l.filterMap SQObject.collectable

def releases (l : List SQObject) : List Task := (collectables l).map Task.release

namespace ClassMember

/-- In the order of `Null`. -/
def both (m : ClassMember) : List SQObject := [m.val, m.attrs]

/-- In the order of the destructor, which is that of the members reversed. -/
def destroyed (m : ClassMember) : List SQObject := [m.attrs, m.val]

def null (_ : ClassMember) : ClassMember := ⟨.null, .null⟩

end ClassMember

namespace Thread

/-- `CloseOuters` from the bottom of the stack, then the registers, the calls and the stack. -/
def finalizing (v : Thread) : List Task :=
  v.openOuters.map (Task.closeOuter · v.stack) ++
    releases ([v.rootTable, v.lastError, v.errorHandler, v.debugHookClosure, v.tempReg] ++
      v.calls ++ v.stack)

def finalized (v : Thread) : Thread :=
  ⟨.null, .null, .null, .null, .null, v.stack.map fun _ => .null, v.top, [], []⟩

def push (o : SQObject) (v : Thread) : Thread :=
  { v with stack := v.stack.set v.top o, top := v.top + 1 }

end Thread

namespace Class

def finalizing (c : Class) : List Task :=
  releases (c.attributes :: c.defaultValues.flatMap ClassMember.both ++
    c.methods.flatMap ClassMember.destroyed ++ c.metaMethods ++
    [pointer .table c.members, pointer .cls c.base])

def finalized (c : Class) : Class :=
  ⟨none, none, .null, c.defaultValues.map ClassMember.null, [], c.metaMethods.map fun _ => .null⟩

end Class

namespace Collectable

/-- `GetType`, together with the address. -/
def asObject (a : Address) : Collectable → SQObject
  | table .. => .table a
  | array .. => .array a
  | userData .. => .userdata a
  | closure .. => .closure a
  | nativeClosure .. => .nativeclosure a
  | generator .. => .generator a
  | thread .. => .thread a
  | cls .. => .cls a
  | inst .. => .inst a
  | outer .. => .outer a
  | funcProto .. => .funcproto a

/-- What the `Mark` function of the object visits, in order. An open outer leaves its value to the
thread on whose stack it lies, and a thread leaves its open outers to their closures. -/
def marks : Collectable → List SQObject
  | table delegate nodes => pointer .table delegate :: nodes.flatMap fun n => [n.1, n.2]
  | array values => values
  | userData delegate => [pointer .table delegate]
  | closure base function outerValues defaultParams =>
      pointer .cls base :: .funcproto function :: outerValues ++ defaultParams
  | nativeClosure outerValues => outerValues
  | generator running stack _ => stack ++ [running]
  | thread v =>
      [v.lastError, v.errorHandler, v.debugHookClosure, v.rootTable, v.tempReg] ++ v.stack ++
        v.calls
  | cls c =>
      [pointer .table c.members, pointer .cls c.base, c.attributes] ++
        c.defaultValues.flatMap ClassMember.both ++ c.methods.flatMap ClassMember.both ++
        c.metaMethods
  | inst none => []
  | inst (some (theClass, values)) => .cls theClass :: values
  | outer value none => [value]
  | outer _ (some _) => []
  | funcProto literals functions => literals ++ functions

def holds : Collectable → List SQObject
  | generator running stack ciClosure => stack ++ [running, ciClosure]
  | thread v => (thread v).marks ++ v.openOuters.map .outer
  | outer value _ => [value]
  | body => body.marks

/-- What `Finalize` does besides emptying the object. -/
def finalizing : Collectable → List Task
  | table delegate nodes =>
      releases (nodes.flatMap (fun n => [n.1, n.2]) ++ [pointer .table delegate])
  | array values => releases values
  | userData delegate => releases [pointer .table delegate]
  | closure _ _ outerValues defaultParams => releases (outerValues ++ defaultParams)
  | nativeClosure outerValues => releases outerValues
  | generator running stack _ => releases (stack ++ [running])
  | thread v => v.finalizing
  | cls c => c.finalizing
  | inst none => []
  | inst (some (theClass, values)) => releases (.cls theClass :: values)
  | outer value _ => releases [value]
  | funcProto literals _ => releases literals

/-- What `Finalize` leaves. -/
def finalized : Collectable → Collectable
  | table _ nodes => table none (nodes.map fun _ => (.null, .null))
  | array _ => array []
  | userData _ => userData none
  | closure base function outerValues defaultParams =>
      closure base function (outerValues.map fun _ => .null) (defaultParams.map fun _ => .null)
  | nativeClosure outerValues => nativeClosure (outerValues.map fun _ => .null)
  | generator _ _ ciClosure => generator .null [] ciClosure
  | thread v => thread v.finalized
  | cls c => cls c.finalized
  | inst _ => inst none
  | outer _ idx => outer .null idx
  | funcProto literals functions => funcProto (literals.map fun _ => .null) functions

/-- `Release` of the object, with its destructor. -/
def destroy (c : Address) : Collectable → List Task
  | table delegate nodes =>
      releases [pointer .table delegate] ++ .removeFromChain c ::
        releases (nodes.flatMap fun n => [n.1, n.2])
  | array values => .removeFromChain c :: releases values
  | userData delegate => .removeFromChain c :: releases [pointer .table delegate]
  | closure base function outerValues defaultParams =>
      releases (outerValues ++ defaultParams ++ [.funcproto function, pointer .cls base]) ++
        [.removeFromChain c]
  | nativeClosure outerValues => releases outerValues ++ [.removeFromChain c]
  | generator running stack ciClosure =>
      .removeFromChain c :: releases (ciClosure :: stack ++ [running])
  | thread v => v.finalizing ++ [.removeFromChain c]
  | cls k => .removeFromChain c :: k.finalizing
  | inst fields => .removeFromChain c :: (inst fields).finalizing
  | outer value _ => .removeFromChain c :: releases [value]
  | funcProto literals functions => releases (literals ++ functions) ++ [.removeFromChain c]

end Collectable

/-- The root slots of `SQSharedState`. -/
structure Roots where
  rootVm : Address
  refsTable : List SQObject
  registry : SQObject
  consts : SQObject
  metaMethodsMap : SQObject
  tableDefaultDelegate : SQObject
  arrayDefaultDelegate : SQObject
  stringDefaultDelegate : SQObject
  numberDefaultDelegate : SQObject
  generatorDefaultDelegate : SQObject
  threadDefaultDelegate : SQObject
  closureDefaultDelegate : SQObject
  classDefaultDelegate : SQObject
  instanceDefaultDelegate : SQObject
  weakRefDefaultDelegate : SQObject

/-- The slots in the order of `RunMark`. -/
def Roots.visited (r : Roots) : List SQObject :=
  .thread r.rootVm :: r.refsTable ++
    [r.registry, r.consts, r.metaMethodsMap, r.tableDefaultDelegate, r.arrayDefaultDelegate,
      r.stringDefaultDelegate, r.numberDefaultDelegate, r.generatorDefaultDelegate,
      r.threadDefaultDelegate, r.closureDefaultDelegate, r.classDefaultDelegate,
      r.instanceDefaultDelegate, r.weakRefDefaultDelegate]

/-- `SQSharedState` and the memory of the collectable objects. `MARK_FLAG`, the bit `0x80000000` of
`_uiRef`, is kept beside the count. -/
structure SQSharedState where
  objects : Address → Option Collectable
  uiRef : Address → Nat
  marked : Address → Bool
  links : Links Address
  gcChain : Option Address
  roots : Roots

namespace SQSharedState

def setObject (s : SQSharedState) (a : Address) (body : Option Collectable) : SQSharedState :=
  { s with objects := Function.update s.objects a body }

def setRef (s : SQSharedState) (a : Address) (n : Nat) : SQSharedState :=
  { s with uiRef := Function.update s.uiRef a n }

def setMark (s : SQSharedState) (a : Address) (flag : Bool) : SQSharedState :=
  { s with marked := Function.update s.marked a flag }

/-- `__ObjAddRef`. -/
def addRef (s : SQSharedState) (a : Address) : SQSharedState := s.setRef a (s.uiRef a + 1)

/-- `__AddRef`. -/
def addRefs (s : SQSharedState) (o : SQObject) : SQSharedState :=
  match o.collectable with
  | some a => s.addRef a
  | none => s

def removeFromChain (s : SQSharedState) (c : Address) : SQSharedState :=
  { s with links := (unlink c s.links s.gcChain).1, gcChain := (unlink c s.links s.gcChain).2 }

def addToChain (s : SQSharedState) (c : Address) : SQSharedState :=
  { s with links := (addFirst c s.links s.gcChain).1, gcChain := (addFirst c s.links s.gcChain).2 }

def marksAt (s : SQSharedState) (a : Address) : List SQObject :=
  match s.objects a with
  | some body => body.marks
  | none => []

end SQSharedState

abbrev Marking := Option Address × SQSharedState

/-- `END_MARK`: the object goes from the chain of the state to the other one. -/
def endMark (c : Address) (m : Marking) : Marking :=
  let s := m.2.removeFromChain c
  ((addFirst c s.links m.1).2, { s with links := (addFirst c s.links m.1).1 })

/-- `Mark`, recursive in the source; the counter bounds the depth. -/
def mark : Nat → Address → Marking → Marking
  | 0, _, m => m
  | depth + 1, c, m =>
      if m.2.marked c then m
      else
        endMark c ((collectables (m.2.marksAt c)).foldl (fun m a => mark depth a m)
          (m.1, m.2.setMark c true))

/-- `RunMark`: `MarkObject` on every root slot, with the second chain empty at first. -/
def runMark (depth : Nat) (s : SQSharedState) : Marking :=
  (collectables s.roots.visited).foldl (fun m a => mark depth a m) (none, s)

/-- One task: what it makes necessary next, and the state after it. -/
def taskStep : Task → SQSharedState → List Task × SQSharedState
  | .release a, s =>
      let s := s.setRef a (s.uiRef a - 1)
      -- With `MARK_FLAG` set the word `_uiRef` is not zero.
      if s.uiRef a = 0 ∧ s.marked a = false then
        match s.objects a with
        | some body => (body.destroy a, s.setObject a none)
        | none => ([], s)
      else ([], s)
  | .removeFromChain c, s => ([], if s.marked c then s else s.removeFromChain c)
  | .closeOuter p stack, s =>
      match s.objects p with
      | some (.outer value (some idx)) =>
          let v := stack.getD idx .null
          (releases [value] ++ [.release p],
            (s.addRefs v).setObject p (some (.outer v none)))
      | _ => ([.release p], s)

/-- Tasks done depth first, as the calls of `Release` nest. -/
def perform : Nat → List Task → SQSharedState → SQSharedState
  | _, [], s => s
  | 0, _ :: _, s => s
  | fuel + 1, t :: rest, s => perform fuel ((taskStep t s).1 ++ rest) (taskStep t s).2

def finalize (fuel : Nat) (t : Address) (s : SQSharedState) : SQSharedState :=
  match s.objects t with
  | some body => perform fuel body.finalizing (s.setObject t (some body.finalized))
  | none => s

/-- The loop of `CollectGarbage` over the objects left on the chain, each one held while it is
finalized. Its result counts the turns. -/
def sweep (fuel : Nat) : Nat → Option Address → SQSharedState → Nat × SQSharedState
  | _, none, s => (0, s)
  | 0, some _, s => (0, s)
  | steps + 1, some t, s =>
      let s := finalize fuel t s
      let nx := s.links.next t
      let s := match nx with
        | some n => s.addRef n
        | none => s
      let r := sweep fuel steps nx (perform fuel [.release t] s)
      (r.1 + 1, r.2)

/-- `UnMark` along a chain. -/
def unMarkFrom : Nat → Option Address → SQSharedState → SQSharedState
  | _, none, s => s
  | 0, some _, s => s
  | steps + 1, some t, s => unMarkFrom steps ((s.setMark t false).links.next t) (s.setMark t false)

/-- `CollectGarbage`. The bound is for the depth of marking and the number of turns of each loop. -/
def collectGarbage (bound : Nat) (s : SQSharedState) : Nat × SQSharedState :=
  let m := runMark bound s
  let swept := match m.2.gcChain with
    | some t => sweep bound bound (some t) (m.2.addRef t)
    | none => (0, m.2)
  (swept.1, { unMarkFrom bound m.1 swept.2 with gcChain := m.1 })

/-- The loop of `ResurrectUnreachable`: the objects met, in order, and the last of them. -/
def chainFrom (links : Links Address) : Nat → Option Address → List Address
  | _, none => []
  | 0, some _ => []
  | steps + 1, some t => t :: chainFrom links steps (links.next t)

/-- `ret->Append`, for an object of a type that a script can hold. -/
def resurrect (ret : Address) (s : SQSharedState) (t : Address) : SQSharedState :=
  match s.objects t, s.objects ret with
  | some body, some (.array values) =>
      let sqo := body.asObject t
      if sqo.type ≠ .funcproto ∧ sqo.type ≠ .outer then
        (s.addRef t).setObject ret (some (.array (values ++ [sqo])))
      else s
  | _, _ => s

/-- `ResurrectUnreachable` up to its push, with the address the allocator gives the array: the count
and the value to push, which the temporary holds. -/
def resurrectArray (bound : Nat) (fresh : Address) (s : SQSharedState) :
    Nat × SQObject × SQSharedState :=
  let m := runMark bound s
  let resurrected := m.2.gcChain
  let s := { m.2 with gcChain := m.1 }
  match resurrected with
  | none => (0, .null, unMarkFrom bound s.gcChain s)
  | some first =>
      let created := (((s.setObject fresh (some (.array []))).setRef fresh 0).setMark fresh
        false).addToChain fresh
      let met := chainFrom created.links bound (some first)
      let filled := met.foldl (resurrect fresh) created
      -- The last of the objects met is joined to the head of the other chain.
      let joined := match met.getLast?, filled.gcChain with
        | some last, some head =>
            (filled.links.setNext last (some head)).setPrev head (some last)
        | some last, none => filled.links.setNext last none
        | none, _ => filled.links
      let s := { filled with links := joined, gcChain := some first }
      (met.length, .array fresh, (unMarkFrom bound s.gcChain s).addRef fresh)

/-- `Push` on the stack of a VM: the value that lay in the slot is released. -/
def push (fuel : Nat) (vm : Address) (o : SQObject) (s : SQSharedState) : SQSharedState :=
  match s.objects vm with
  | some (.thread v) =>
      perform fuel (releases [v.stack.getD v.top .null])
        ((s.addRefs o).setObject vm (some (.thread (v.push o))))
  | _ => s

/-- `ResurrectUnreachable`: what has been found is pushed, and the temporary dropped. -/
def resurrectUnreachable (bound : Nat) (fresh vm : Address) (s : SQSharedState) :
    Nat × SQSharedState :=
  let r := resurrectArray bound fresh s
  (r.1, perform bound (releases [r.2.1]) (push bound vm r.2.1 r.2.2))

end Collector

end SquirrelGObject.Engine
