/- SquirrelGObject/Engine/RefTable
   digest: The pin table: chained buckets over a node array with a free list and a doubling rehash. -/

import SquirrelGObject.Lib.Chain

set_option autoImplicit false
set_option relaxedAutoImplicit false

namespace SquirrelGObject.Engine

open Lib.Chain

/-- The places where the table asserts, and the one place where it would follow a null free list. -/
inductive RefFault where
  | getFreeListEmpty
  | resizeRefsNonzero
  | resizeAllFound
  | addRefsZero
  | addFreeListNull
  | releasePresent
  deriving DecidableEq, Repr

/-- A node of the table. A null object marks an unused node; links are indices into the node
array. -/
structure RefNode (α : Type) where
  obj : Option α
  refs : Nat
  next : Option Nat

/-- The table over keys of an arbitrary type. A failed assertion is recorded and the code runs
on, so that one model covers builds with and without assertions. -/
structure RefTable (α : Type) where
  numOfSlots : Nat
  slotUsed : Nat
  nodes : Nat → RefNode α
  freeList : Option Nat
  buckets : Nat → Option Nat
  failed : List RefFault

namespace RefTable

variable {α : Type} [DecidableEq α]

/-- Record an assertion that does not hold. -/
def assert (fault : RefFault) (holds : Bool) (t : RefTable α) : RefTable α :=
  if holds then t else { t with failed := fault :: t.failed }

def allocNodes (size : Nat) (failed : List RefFault) : RefTable α where
  numOfSlots := size
  slotUsed := 0
  nodes := fun i => { obj := none, refs := 0, next := if i + 1 < size then some (i + 1) else none }
  freeList := some 0
  buckets := fun _ => none
  failed := failed

def init : RefTable α := allocNodes 4 []

def mainPos (hash : α → Nat) (obj : α) (t : RefTable α) : Nat :=
  hash obj &&& (t.numOfSlots - 1)

def setRefs (i refs : Nat) (t : RefTable α) : RefTable α :=
  { t with nodes := Function.update t.nodes i { t.nodes i with refs := refs } }

/-- `RefTable::Add`: take the first free node and put it at the front of the bucket. -/
def add (mainpos : Nat) (obj : α) (t : RefTable α) : RefTable α × Nat :=
  match t.freeList with
  | none => ({ t with failed := .addFreeListNull :: t.failed }, 0)
  | some newnode =>
      (assert .addRefsZero ((t.nodes newnode).refs == 0)
        { t with
          nodes := Function.update t.nodes newnode
            { obj := some obj, refs := (t.nodes newnode).refs, next := t.buckets mainpos }
          buckets := Function.update t.buckets mainpos (some newnode)
          freeList := (t.nodes newnode).next
          slotUsed := t.slotUsed + 1 },
        newnode)

def resizeStep (hash : α → Nat) (old : RefTable α) (state : RefTable α × Nat) (n : Nat) :
    RefTable α × Nat :=
  match (old.nodes n).obj with
  | none => state
  | some obj =>
      let t := assert .resizeRefsNonzero ((old.nodes n).refs != 0) state.1
      let (t, nn) := t.add (t.mainPos hash obj) obj
      (t.setRefs nn (old.nodes n).refs, state.2 + 1)

def resize (hash : α → Nat) (size : Nat) (t : RefTable α) : RefTable α :=
  let (rehashed, nfound) :=
    (List.range t.numOfSlots).foldl (resizeStep hash t) (allocNodes size t.failed, 0)
  assert .resizeAllFound (nfound == t.numOfSlots) rehashed

structure Found (α : Type) where
  table : RefTable α
  ref : Option Nat
  mainpos : Nat
  prev : Option Nat

/-- `RefTable::Get`. No chain is longer than the node array, which bounds the walk. -/
def get (hash : α → Nat) (obj : α) (insert : Bool) (t : RefTable α) : Found α :=
  let mainpos := t.mainPos hash obj
  let (ref, prev) := search (fun i => (t.nodes i).next)
    (fun i => decide ((t.nodes i).obj = some obj)) t.numOfSlots none (t.buckets mainpos)
  match ref, insert with
  | none, true =>
      if t.numOfSlots = t.slotUsed then
        let grown := resize hash (t.numOfSlots * 2) (assert .getFreeListEmpty t.freeList.isNone t)
        let mainpos := grown.mainPos hash obj
        let (table, ref) := grown.add mainpos obj
        ⟨table, some ref, mainpos, prev⟩
      else
        let (table, ref) := t.add mainpos obj
        ⟨table, some ref, mainpos, prev⟩
  | _, _ => ⟨t, ref, mainpos, prev⟩

def addRef (hash : α → Nat) (obj : α) (t : RefTable α) : RefTable α :=
  let found := t.get hash obj true
  match found.ref with
  | none => found.table
  | some ref => found.table.setRefs ref ((found.table.nodes ref).refs + 1)

/-- `RefTable::GetRefCount`. It looks the object up in the inserting mode. -/
def getRefCount (hash : α → Nat) (obj : α) (t : RefTable α) : RefTable α × Nat :=
  let found := t.get hash obj true
  match found.ref with
  | none => (found.table, 0)
  | some ref => (found.table, (found.table.nodes ref).refs)

/-- Decrement of an unsigned count, which wraps at zero. -/
def predRefs : Nat → Nat
  | 0 => UInt64.size - 1
  | n + 1 => n

def unlink (mainpos ref : Nat) (prev : Option Nat) (t : RefTable α) : RefTable α :=
  let nexts := (t.nodes ref).next
  let t := match prev with
    | some p => { t with nodes := Function.update t.nodes p { t.nodes p with next := nexts } }
    | none => { t with buckets := Function.update t.buckets mainpos nexts }
  { t with
    nodes := Function.update t.nodes ref { obj := none, refs := 0, next := t.freeList }
    freeList := some ref
    slotUsed := t.slotUsed - 1 }

def release (hash : α → Nat) (obj : α) (t : RefTable α) : RefTable α × Bool :=
  let found := t.get hash obj false
  match found.ref with
  | none => ({ t with failed := .releasePresent :: t.failed }, false)
  | some ref =>
      let refs := predRefs (t.nodes ref).refs
      if refs = 0 then (t.unlink found.mainpos ref found.prev, true)
      else (t.setRefs ref refs, false)

def pinned (t : RefTable α) : List α :=
  (List.range t.numOfSlots).filterMap (fun i => (t.nodes i).obj)

end RefTable

end SquirrelGObject.Engine
