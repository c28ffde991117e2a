/- SquirrelGObject/Engine/Table
   digest: The engine's table: one node array, collision chains inside it, removal by blanking, and rehash. -/

import SquirrelGObject.Lib.Chain
import SquirrelGObject.Engine.Object

set_option autoImplicit false
set_option relaxedAutoImplicit false

namespace SquirrelGObject.Engine

open Lib.Chain

/-- The two assertions of the insertion, and a call of `NewSlot` from a `Rehash` that was itself
called from a `Rehash`. -/
inductive TableFault where
  | newSlotNullKey
  | newSlotNoPredecessor
  | rehashNested
  deriving DecidableEq, Repr

/-- A node of the table. A null key marks an unused node; links are indices into the array. -/
structure HashNode where
  val : SQObject
  key : SQObject
  next : Option Nat
  deriving DecidableEq, Repr

def HashNode.fresh : HashNode := { val := .null, key := .null, next := none }

/-- `SQTable`. A failed assertion is recorded and the code runs on. -/
structure SQTable where
  firstFree : Nat
  nodes : Nat → HashNode
  numOfNodes : Nat
  usedNodes : Int
  delegate : Option Address
  failed : List TableFault

namespace SQTable

def minPower2 : Nat := 4

def nexts (t : SQTable) (i : Nat) : Option Nat := (t.nodes i).next

def keyAt (t : SQTable) (i : Nat) : SQObject := (t.nodes i).key

def valAt (t : SQTable) (i : Nat) : SQObject := (t.nodes i).val

def setNode (i : Nat) (node : HashNode) (t : SQTable) : SQTable :=
  { t with nodes := Function.update t.nodes i node }

def setVal (i : Nat) (val : SQObject) (t : SQTable) : SQTable :=
  t.setNode i { t.nodes i with val := val }

def setKey (i : Nat) (key : SQObject) (t : SQTable) : SQTable :=
  t.setNode i { t.nodes i with key := key }

def setNext (i : Nat) (link : Option Nat) (t : SQTable) : SQTable :=
  t.setNode i { t.nodes i with next := link }

def fail (fault : TableFault) (t : SQTable) : SQTable := { t with failed := fault :: t.failed }

/-- `AllocNodes`: a fresh node array, with the last node as the first free one. -/
def allocNodes (size : Nat) (t : SQTable) : SQTable :=
  { t with nodes := fun _ => HashNode.fresh, numOfNodes := size, firstFree := size - 1 }

def roundUp (wanted : Int) : Nat → Nat → Nat
  | 0, size => size
  | fuel + 1, size => if wanted > size then roundUp wanted fuel (size * 2) else size

def create (initialSize : Int) : SQTable :=
  allocNodes (roundUp initialSize initialSize.toNat minPower2)
    { firstFree := 0, nodes := fun _ => HashNode.fresh, numOfNodes := 0, usedNodes := 0,
      delegate := none, failed := [] }

def countUsed (t : SQTable) : Int := t.usedNodes

section Lookup

variable (hash : SQObject → Nat)

def mainPos (key : SQObject) (t : SQTable) : Nat := hash key &&& (t.numOfNodes - 1)

/-- `_Get`: walk the chain of the main position for a node with this key. The null key is equal
to the key of an unused node. No chain is longer than the array, which bounds the walk. -/
def getNode (key : SQObject) (h : Nat) (t : SQTable) : Option Nat :=
  (search t.nexts (fun i => decide (t.keyAt i = key)) t.numOfNodes none (some h)).1

/-- `Get`; a weak reference in the slot is followed by `realval`. -/
def get (realval : SQObject → SQObject) (key : SQObject) (t : SQTable) : Option SQObject :=
  if key = .null then none
  else
    match t.getNode key (t.mainPos hash key) with
    | some n => some (realval (t.valAt n))
    | none => none

def set (key val : SQObject) (t : SQTable) : SQTable × Bool :=
  match t.getNode key (t.mainPos hash key) with
  | some n => (t.setVal n val, true)
  | none => (t, false)

/-- The search of `NewSlot` for the node linked to `mp`, from the main position of the key that
occupies it. -/
def predecessor (mp : Nat) (t : SQTable) : Option Nat :=
  (search t.nexts (fun i => decide (t.nexts i = some mp)) t.numOfNodes none
    (some (t.mainPos hash (t.keyAt mp)))).1

/-- `NewSlot` takes the occupant of `mp`, which sits behind `othern`, to the free node `n`. -/
def moveColliding (othern mp n : Nat) (t : SQTable) : SQTable :=
  let t := t.setNext othern (some n)
  let t := t.setNode n { val := t.valAt mp, key := t.keyAt mp, next := t.nexts mp }
  t.setNode mp HashNode.fresh

/-- `NewSlot` chains the free node `n` behind `mp`. -/
def chainFree (mp n : Nat) (t : SQTable) : SQTable :=
  (t.setNext n (t.nexts mp)).setNext mp (some n)

/-- The part of `NewSlot` that makes room for a key which is not in the table. It answers the
node the key goes to. -/
def makeRoom (key : SQObject) (t : SQTable) : SQTable × Nat :=
  let mp := t.mainPos hash key
  if t.keyAt mp = .null then (t, mp)
  else
    let n := t.firstFree
    if mp > n ∧ t.mainPos hash (t.keyAt mp) ≠ mp then
      match t.predecessor hash mp with
      | some othern => (t.moveColliding othern mp n, mp)
      | none => (t.fail .newSlotNoPredecessor, mp)
    else (t.chainFree mp n, n)

/-- The loop that corrects `_firstfree`: downwards to a node without a key and without a link.
It fails at the start of the array. -/
def correctFirstFree (t : SQTable) : Nat → Option Nat
  | 0 => if t.keyAt 0 = .null ∧ t.nexts 0 = none then some 0 else none
  | i + 1 =>
      if t.keyAt (i + 1) = .null ∧ t.nexts (i + 1) = none then some (i + 1)
      else correctFirstFree t i

/-- The number of nodes as `Rehash` reads it: never less than four. -/
def oldSize (t : SQTable) : Nat := if t.numOfNodes < 4 then 4 else t.numOfNodes

/-- The size that `Rehash` allocates, when it reallocates at all. -/
def rehashSize (force : Bool) (nelems : Int) (oldsize : Nat) : Option Nat :=
  if nelems ≥ ((oldsize - oldsize / 4 : Nat) : Int) then some (oldsize * 2)
  else if nelems ≤ ((oldsize / 4 : Nat) : Int) ∧ oldsize > minPower2 then some (oldsize / 2)
  else if force then some oldsize
  else none

/-- One turn of the loop of `Rehash`. -/
def reinsert (insert : SQObject → SQObject → SQTable → SQTable × Bool) (old : SQTable)
    (t : SQTable) (i : Nat) : SQTable :=
  if old.keyAt i = .null then t else (insert (old.keyAt i) (old.valAt i) t).1

/-- `Rehash`, over the insertion it calls. -/
def rehashWith (insert : SQObject → SQObject → SQTable → SQTable × Bool) (force : Bool)
    (t : SQTable) : SQTable :=
  match rehashSize force t.countUsed t.oldSize with
  | none => t
  | some size =>
      (List.range t.oldSize).foldl (reinsert insert t)
        { t.allocNodes size with usedNodes := 0 }

/-- `NewSlot`. It calls `Rehash`, which calls `NewSlot` again; the counter bounds this nesting. -/
def newSlotWithin : Nat → SQObject → SQObject → SQTable → SQTable × Bool
  | 0, _, _, t => (t.fail .rehashNested, false)
  | depth + 1, key, val, t =>
      let t := if key = .null then t.fail .newSlotNullKey else t
      match t.getNode key (t.mainPos hash key) with
      | some n => (t.setVal n val, false)
      | none =>
          let (t, mp) := t.makeRoom hash key
          let t := t.setKey mp key
          match t.correctFirstFree t.firstFree with
          | some free =>
              ({ t.setVal mp val with firstFree := free, usedNodes := t.usedNodes + 1 }, true)
          | none =>
              newSlotWithin depth key val
                (rehashWith (newSlotWithin depth) true { t with firstFree := 0 })

/-- `NewSlot` as it is called from outside. -/
def newSlot (key val : SQObject) (t : SQTable) : SQTable × Bool := newSlotWithin hash 2 key val t

/-- `Rehash` as it is called from outside. -/
def rehash (force : Bool) (t : SQTable) : SQTable := rehashWith (newSlot hash) force t

/-- `Remove` blanks the node and leaves its link in place. -/
def remove (key : SQObject) (t : SQTable) : SQTable :=
  match t.getNode key (t.mainPos hash key) with
  | some n =>
      rehash hash false
        { t.setNode n { val := .null, key := .null, next := t.nexts n } with
          usedNodes := t.usedNodes - 1 }
  | none => t

def clearNodes (t : SQTable) : SQTable :=
  { t with
    nodes := fun i =>
      if i < t.numOfNodes then { val := .null, key := .null, next := t.nexts i } else t.nodes i }

def clear (t : SQTable) : SQTable := rehash hash true { t.clearNodes with usedNodes := 0 }

end Lookup

/-- The loop of `Next`: the first node with a key from `idx` on. -/
def firstUsed (t : SQTable) : Nat → Nat → Option Nat
  | 0, _ => none
  | fuel + 1, idx => if t.keyAt idx = .null then firstUsed t fuel (idx + 1) else some idx

/-- `Next` from a translated position: the position to continue from, the key and the value. -/
def next (getweakrefs : Bool) (realval : SQObject → SQObject) (idx : Nat) (t : SQTable) :
    Option (Nat × SQObject × SQObject) :=
  match t.firstUsed (t.numOfNodes - idx) idx with
  | some i =>
      some (i + 1, t.keyAt i, if getweakrefs then t.valAt i else realval (t.valAt i))
  | none => none

/-- What a loop over `Next` sees, starting from a position. -/
def visits (getweakrefs : Bool) (realval : SQObject → SQObject) (t : SQTable) :
    Nat → Nat → List (SQObject × SQObject)
  | 0, _ => []
  | fuel + 1, idx =>
      match t.next getweakrefs realval idx with
      | some (idx, entry) => entry :: visits getweakrefs realval t fuel idx
      | none => []

/-- `Clone`: insert what a loop over `Next` sees into a new table of the same size. -/
def clone (hash : SQObject → Nat) (t : SQTable) : SQTable :=
  let copy := (t.visits true id (t.numOfNodes + 1) 0).foldl
    (fun nt entry => (nt.newSlot hash entry.1 entry.2).1) (create t.numOfNodes)
  { copy with delegate := t.delegate }

def finalize (t : SQTable) : SQTable := { t.clearNodes with delegate := none }

end SQTable

end SquirrelGObject.Engine
