/- SquirrelGObject/Engine/Sort
   digest: The array sort: heap sort with a comparison that runs scripts, fails, or touches the array. -/

import SquirrelGObject.Engine.Values
import SquirrelGObject.Lib.Heap

set_option autoImplicit false
set_option relaxedAutoImplicit false

namespace SquirrelGObject.Engine

/-- Why a sort ends early. An access beyond the end of the array is not an error the code raises:
its meaning is undefined there. -/
inductive SortFault where
  | raised (error : SQObject)
  | resized
  | inconsistent
  | outOfBounds
  deriving DecidableEq, Repr

def SortFault.lastError : SortFault → Option SQObject
  | raised error => some error
  | resized => some (Engine.raised "array resized during sort operation"
      "array resized during sort operation")
  | inconsistent => some (Engine.raised "inconsistent compare function"
      "inconsistent compare function")
  | outOfBounds => none

variable {σ α : Type}

/-- The values of the array, and whatever else a comparison can reach. -/
structure SortState (σ α : Type) where
  world : σ
  values : List α

abbrev SortM (σ α : Type) := EStateM SortFault (SortState σ α)

/-- How two values are compared. With `func`, a script function is called: otherwise `ObjCmp`, which
may call a `_cmp` metamethod. The call gives the state after it, whether the storage of the array
has moved, and an integer or an error. -/
structure Comparison (σ α : Type) where
  func : Bool
  call : SortState σ α → α → α → SortState σ α × Bool × Except SQObject Int

/-- An element access, which the code does not check. -/
def elementAt (i : Nat) : SortM σ α α := fun s =>
  match s.values[i]? with
  | some x => .ok x s
  | none => .error .outOfBounds s

/-- `_Swap` of two elements. -/
def swapElements (i j : Nat) : SortM σ α Unit := do
  let _ ← elementAt i
  let _ ← elementAt j
  modify fun s => { s with values := Lib.Heap.swap s.values i j }

/-- The call in `_sort_compare`. Only after a script function has been called is it checked that the
array has neither been resized nor moved. -/
def callCompare (c : Comparison σ α) (a b : α) : SortM σ α Int := fun s =>
  let (after, moved, answer) := c.call s a b
  match answer with
  | .error error => .error (.raised error) after
  | .ok ret =>
      if c.func && (moved || after.values.length != s.values.length) then .error .resized after
      else .ok ret after

def sortCompare (c : Comparison σ α) (i j : Nat) : SortM σ α Int := do
  let a ← elementAt i
  let b ← elementAt j
  callCompare c a b

/-- The child of `root` that `_hsort_sift_down` looks at. -/
def maxChild (c : Comparison σ α) (root bottom : Nat) : SortM σ α Nat :=
  if root * 2 = bottom then pure (root * 2)
  else do
    let ret ← sortCompare c (root * 2) (root * 2 + 1)
    pure (if 0 < ret then root * 2 else root * 2 + 1)

/-- `_hsort_sift_down`. The root grows with every turn. -/
def hsortSiftDown (c : Comparison σ α) : Nat → Nat → Nat → SortM σ α Unit
  | 0, _, _ => pure ()
  | fuel + 1, root, bottom =>
      if root * 2 ≤ bottom then do
        let child ← maxChild c root bottom
        let ret ← sortCompare c root child
        if ret < 0 then
          if root = child then throw .inconsistent
          else do
            swapElements root child
            hsortSiftDown c fuel child bottom
        else pure ()
      else pure ()

/-- The first loop of `_hsort`, down from `i`. -/
def heapify (c : Comparison σ α) (bottom : Nat) : Nat → SortM σ α Unit
  | 0 => hsortSiftDown c (bottom + 1) 0 bottom
  | i + 1 => do
      hsortSiftDown c (bottom + 1) (i + 1) bottom
      heapify c bottom i

/-- The second loop of `_hsort`, down from `i`. -/
def extractMax (c : Comparison σ α) : Nat → SortM σ α Unit
  | 0 => pure ()
  | i + 1 => do
      swapElements 0 (i + 1)
      hsortSiftDown c (i + 1) 0 i
      extractMax c i

def hsort (c : Comparison σ α) (size : Nat) : SortM σ α Unit := do
  heapify c (size - 1) (size / 2)
  extractMax c (size - 1)

def arraySort (c : Comparison σ α) : SortM σ α Unit := fun s =>
  if 1 < s.values.length then hsort c s.values.length s else .ok () s

/-- `scstrcmp` on the bytes up to the terminating null. A shorter text comes before its
extensions. -/
def scstrcmp : List UInt8 → List UInt8 → Int
  | [], [] => 0
  | [], b :: _ => if b = 0 then 0 else -1
  | a :: _, [] => if a = 0 then 0 else 1
  | a :: x, b :: y =>
      if a < b then -1 else if b < a then 1 else if a = 0 then 0 else scstrcmp x y

def floatKey (bits : UInt32) : Option Int :=
  if 0x7f800000 < bits.toNat % 0x80000000 then none
  else some (if bits.toNat < 0x80000000 then bits.toNat else 0x80000000 - bits.toNat)

def lessFloat (a b : UInt32) : Bool :=
  match floatKey a, floatKey b with
  | some x, some y => x < y
  | _, _ => false

def equalFloat (a b : UInt32) : Bool :=
  match floatKey a, floatKey b with
  | some x, some y => x = y
  | _, _ => false

/-- The raw word of a value, as far as `ObjCmp` compares it as a pointer. -/
def SQObject.word : SQObject → Nat
  | table a | array a | userdata a | closure a | nativeclosure a | generator a | thread a
  | funcproto a | cls a | inst a | weakref a | outer a | userpointer a => a
  | bool word => word.toNat
  | _ => 0

/-- Text of `Raise_CompareError`. -/
def compareError (printFloat : UInt32 → String) (o1 o2 : SQObject) : SQObject :=
  Engine.raised "comparison between '%.50s' and '%.50s'"
    ("comparison between '" ++ String.ofList (takeBytes 50 (printObjVal printFloat o1).toList) ++
      "' and '" ++ String.ofList (takeBytes 50 (printObjVal printFloat o2).toList) ++ "'")

/-- A call of the `_cmp` metamethod, where the value has one. -/
abbrev MetaCmp (σ : Type) :=
  SortState σ SQObject → SQObject → SQObject →
    Option (SortState σ SQObject × Bool × Except SQObject Int)

def objCmp (printFloat : UInt32 → String) (metaCmp : MetaCmp σ) (s : SortState σ SQObject)
    (o1 o2 : SQObject) : SortState σ SQObject × Bool × Except SQObject Int :=
  let pointers := if o1.word < o2.word then -1 else 1
  if o1 = o2 then (s, false, .ok 0)
  else match o1, o2 with
    | .string a, .string b =>
        (s, false, .ok (scstrcmp a.toUTF8.data.toList b.toUTF8.data.toList))
    | .integer a, .integer b => (s, false, .ok (if a < b then -1 else 1))
    | .float a, .float b => (s, false, .ok (if lessFloat a b then -1 else 1))
    | .integer a, .float b => (s, false, .ok (if equalFloat (integerToFloat a) b then 0
        else if lessFloat (integerToFloat a) b then -1 else 1))
    | .float a, .integer b => (s, false, .ok (if equalFloat a (integerToFloat b) then 0
        else if lessFloat a (integerToFloat b) then -1 else 1))
    | .table _, .table _ | .userdata _, .userdata _ | .inst _, .inst _ =>
        (metaCmp s o1 o2).getD (s, false, .ok pointers)
    | .null, _ => (s, false, .ok (-1))
    | _, .null => (s, false, .ok 1)
    | _, _ =>
        if o1.type = o2.type then (s, false, .ok pointers)
        else (s, false, .error (compareError printFloat o1 o2))

/-- Sorting without a compare function. -/
def defaultComparison (printFloat : UInt32 → String) (metaCmp : MetaCmp σ) :
    Comparison σ SQObject :=
  ⟨false, objCmp printFloat metaCmp⟩

/-- Sorting with a compare function, given what a call of it does. -/
def functionComparison (platform : Platform)
    (run : SortState σ SQObject → SQObject → SQObject →
      SortState σ SQObject × Bool × Except SQObject SQObject) : Comparison σ SQObject where
  func := true
  call s a b :=
    let (after, moved, result) := run s a b
    (after, moved, match result with
      | .error error =>
          .error (if error.type = .string then error
            else Engine.raised "compare func failed" "compare func failed")
      | .ok value =>
          match integerValue platform value with
          | some ret => .ok ret
          | none => .error (Engine.raised
              "numeric value expected as return value of the compare function"
              "numeric value expected as return value of the compare function"))

end SquirrelGObject.Engine
