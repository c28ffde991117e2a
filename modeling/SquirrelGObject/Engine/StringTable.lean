/- SquirrelGObject/Engine/StringTable
   digest: The string table: interned strings chained in buckets, with counted handles to them. -/

import SquirrelGObject.Engine.Object
import SquirrelGObject.Lib.Chain

set_option autoImplicit false
set_option relaxedAutoImplicit false

namespace SquirrelGObject.Engine

open Lib.Chain

/-- An interned string. Its length is that of the text. -/
structure SQString where
  val : List UInt8
  hash : Nat
  next : Option Address
  uiRef : Nat
  deriving DecidableEq, Repr

/-- `_hashstr`. -/
def hashBytes (val : List UInt8) : Nat :=
  (SQObject.hashStrFrom (fun i => SQObject.wideChar (val.getD i 0)) ((val.length >>> 5) + 1)
    val.length val.length (UInt64.ofNat val.length)).toNat

theorem hashStr_eq_hashBytes (s : String) :
    SQObject.hashStr s = hashBytes s.toUTF8.data.toList := by
  have size : s.toUTF8.size = s.toUTF8.data.toList.length := rfl
  simp only [SQObject.hashStr, hashBytes, size]
  congr 1
  congr 1
  ext i
  simp

/-- The string table together with the strings in memory. Freed memory is `none`. The flag records
that the search in `Remove` has come to its end and the assertion there has failed. -/
structure SQStringTable where
  strings : Nat → Option Address
  numOfSlots : Nat
  slotUsed : Nat
  memory : Address → Option SQString
  failed : Bool

namespace SQStringTable

def allocNodes (size : Nat) (t : SQStringTable) : SQStringTable :=
  { t with numOfSlots := size, strings := fun _ => none }

def init : SQStringTable where
  strings := fun _ => none
  numOfSlots := 4
  slotUsed := 0
  memory := fun _ => none
  failed := false

def nexts (t : SQStringTable) (a : Address) : Option Address := (t.memory a).bind SQString.next

def setString (a : Address) (s : Option SQString) (t : SQStringTable) : SQStringTable :=
  { t with memory := Function.update t.memory a s }

def mainPos (hash : Nat) (t : SQStringTable) : Nat := hash &&& (t.numOfSlots - 1)

def link (a : Address) (s : SQString) (t : SQStringTable) : SQStringTable :=
  { t.setString a (some { s with next := t.strings (t.mainPos s.hash) }) with
    strings := Function.update t.strings (t.mainPos s.hash) (some a) }

/-- The inner loop of `Resize`, over one bucket of the old table. -/
def moveChain : Nat → Option Address → SQStringTable → SQStringTable
  | _, none, t => t
  | 0, some _, t => t
  | fuel + 1, some p, t =>
      match t.memory p with
      | none => t
      | some s => moveChain fuel s.next (t.link p s)

/-- `Resize`. No bucket holds more strings than the table. -/
def resize (size : Nat) (t : SQStringTable) : SQStringTable :=
  (List.range t.numOfSlots).foldl (fun moved i => moveChain t.slotUsed (t.strings i) moved)
    (t.allocNodes size)

/-- The text `Add` is asked for: a negative length means a null-terminated text. -/
def textOf (news : List UInt8) (len : Int) : List UInt8 :=
  if len < 0 then news.takeWhile (· != 0) else news.take len.toNat

/-- `Add`, with the address that the allocator gives to a new string. -/
def add (fresh : Address) (news : List UInt8) (len : Int) (t : SQStringTable) :
    SQStringTable × Address :=
  let text := textOf news len
  let found := search t.nexts (fun a => decide ((t.memory a).map SQString.val = some text))
    t.slotUsed none (t.strings (t.mainPos (hashBytes text)))
  match found.1 with
  | some a => (t, a)
  | none =>
      let t := { t.link fresh ⟨text, hashBytes text, none, 0⟩ with slotUsed := t.slotUsed + 1 }
      (if t.numOfSlots < t.slotUsed then t.resize (t.numOfSlots * 2) else t, fresh)

def unlink (pos : Nat) (prev : Option Address) (a : Address) (t : SQStringTable) :
    SQStringTable :=
  match prev with
  | some p => t.setString p ((t.memory p).map fun s => { s with next := t.nexts a })
  | none => { t with strings := Function.update t.strings pos (t.nexts a) }

def remove (bs : Address) (t : SQStringTable) : SQStringTable :=
  match t.memory bs with
  | none => t
  | some s =>
      let pos := t.mainPos s.hash
      let found := search t.nexts (fun a => decide (a = bs)) t.slotUsed none (t.strings pos)
      match found.1 with
      | some a => { (t.unlink pos found.2 a).setString a none with slotUsed := t.slotUsed - 1 }
      | none => { t with failed := true }

/-- `__AddRef` on a string. -/
def addRef (a : Address) (t : SQStringTable) : SQStringTable :=
  t.setString a ((t.memory a).map fun s => { s with uiRef := s.uiRef + 1 })

/-- `__Release` on a string, whose `Release` removes it from the table. -/
def release (a : Address) (t : SQStringTable) : SQStringTable :=
  match t.memory a with
  | none => t
  | some s =>
      let t := t.setString a (some { s with uiRef := s.uiRef - 1 })
      if s.uiRef - 1 = 0 then t.remove a else t

end SQStringTable

/-- A counted pointer to a string, and the text it was made for. -/
structure StringHandle where
  address : Address
  text : List UInt8
  deriving DecidableEq, Repr

/-- What the holders of `SQObjectPtr` values do with strings: make one for a text, copy one, destroy
one. The address of a new string is the allocator's choice. -/
inductive StringOp where
  | create (fresh : Address) (news : List UInt8) (len : Int)
  | copy (i : Nat)
  | destroy (i : Nat)
  deriving DecidableEq, Repr

/-- The string table with the handles that exist. -/
structure StringUse where
  table : SQStringTable
  handles : List StringHandle

namespace StringUse

def init : StringUse := ⟨SQStringTable.init, []⟩

def step (u : StringUse) : StringOp → StringUse × Option Address
  | .create fresh news len =>
      let added := u.table.add fresh news len
      (⟨added.1.addRef added.2, ⟨added.2, SQStringTable.textOf news len⟩ :: u.handles⟩, added.2)
  | .copy i =>
      match u.handles[i]? with
      | none => (u, none)
      | some h => (⟨u.table.addRef h.address, h :: u.handles⟩, h.address)
  | .destroy i =>
      match u.handles[i]? with
      | none => (u, none)
      | some h => (⟨u.table.release h.address, u.handles.eraseIdx i⟩, none)

end StringUse

end SquirrelGObject.Engine
