/- SquirrelGObject/Engine/Machine
   digest: The shared state: VMs, heap objects, the pin table and host cells, with the C API on them. -/

import SquirrelGObject.Engine.Stack
import SquirrelGObject.Engine.RefTable

set_option autoImplicit false
set_option relaxedAutoImplicit false

namespace SquirrelGObject.Engine

/-- Host-side function pointers and user data, opaque to the engine. -/
abbrev SquirrelFunction := Nat
abbrev Gpointer := Nat

/-- A native function pointer: the wrapper's trampoline, or any other native function. -/
inductive SQFUNCTION where
  | squirrelExecNativeClosure
  | native (p : Address)
  deriving DecidableEq, Repr

/-- A native closure object. The mask `none` in `typecheck` is the word `-1` that accepts every
type; `env` is the weak reference of a bound environment. -/
structure SQNativeClosure where
  nparamscheck : Int
  typecheck : List (Option Nat)
  outervalues : List SQObject
  env : Option Address
  function : SQFUNCTION
  name : SQObject
  deriving DecidableEq

structure SQLineInfo where
  line : Int
  op : Int

structure SQFunctionProto where
  name : SQObject
  sourceName : SQObject
  lineInfos : List SQLineInfo
  nparameters : Int
  outerNames : List String
  bgenerator : Bool

/-- A script closure. Its outer values are cells shared with the frames that declared them. -/
structure SQClosure where
  function : Address
  outervalues : List Address
  env : Option Address
  root : Option Address

/-- A captured variable: still a stack slot of a running frame, or a value of its own. -/
inductive SQOuter where
  | inStack (v : HSQUIRRELVM) (pos : Int)
  | closed (o : SQObject)

/-- A class. `members` is its member table: a key is mapped to the packed word of its slot. -/
structure SQClass where
  members : SQObject → Option Nat
  base : Option Address
  typetag : SQUserPointer
  constructor : Option SQObject
  udSize : Nat

/-- The classes on the heap. A base is given when a class is created and never changed, so it is
always the older of the two. -/
structure ClassHeap where
  at_ : Address → SQClass
  older : ∀ c b, (at_ c).base = some b → b < c

structure SQInstance where
  cls : Address
  userPointer : SQUserPointer

structure SquirrelClosureData where
  func : SquirrelFunction
  userData : Gpointer
  deriving DecidableEq, Repr

/-- A `char` pointer: null, a text, or an arbitrary word that was never set. -/
inductive CString where
  | null
  | text (s : String)
  | wild (p : Nat)
  deriving DecidableEq, Repr

/-- One shared state with all its VMs, the host memory the wrapper allocates, and the messages the
host has logged. -/
structure Machine where
  vms : HSQUIRRELVM → SQVM
  nextVm : HSQUIRRELVM
  nativeClosures : Address → SQNativeClosure
  closures : Address → SQClosure
  outers : Address → SQOuter
  protos : Address → SQFunctionProto
  classes : ClassHeap
  instances : Address → SQInstance
  arrays : Address → List SQObject
  weakRefs : Address → SQObject
  weakRefOf : SQObject → Option Address
  nextObject : Address
  refsTable : RefTable SQObject
  closureData : SQUserPointer → SquirrelClosureData
  nextCell : SQUserPointer
  log : List String

namespace Machine

def onVM (v : HSQUIRRELVM) (f : SQVM → SQVM) (m : Machine) : Machine :=
  { m with vms := Function.update m.vms v (f (m.vms v)) }

def raise (v : HSQUIRRELVM) (e : SQObject) (m : Machine) : Machine :=
  m.onVM v fun vm => { vm with lastError := e }

def push (v : HSQUIRRELVM) (o : SQObject) (m : Machine) : Machine := m.onVM v (SQVM.push o)

def gWarning (message : String) (m : Machine) : Machine := { m with log := m.log ++ [message] }

def outerValue (a : Address) (m : Machine) : SQObject :=
  match m.outers a with
  | .inStack v pos => (m.vms v).stack pos
  | .closed o => o

def setOuterValue (a : Address) (o : SQObject) (m : Machine) : Machine :=
  match m.outers a with
  | .inStack v pos => m.onVM v (SQVM.write pos o)
  | .closed _ => { m with outers := Function.update m.outers a (.closed o) }

def setNativeClosure (a : Address) (nc : SQNativeClosure) (m : Machine) : Machine :=
  { m with nativeClosures := Function.update m.nativeClosures a nc }

def allocObject (m : Machine) : Machine := { m with nextObject := m.nextObject + 1 }

def setRefsTable (t : RefTable SQObject) (m : Machine) : Machine := { m with refsTable := t }

@[simp] theorem onVM_self (v : HSQUIRRELVM) (f : SQVM → SQVM) (m : Machine) :
    (m.onVM v f).vms v = f (m.vms v) := Function.update_self _ _ _

theorem onVM_of_ne {v w : HSQUIRRELVM} (apart : w ≠ v) (f : SQVM → SQVM) (m : Machine) :
    (m.onVM v f).vms w = m.vms w := Function.update_of_ne apart _ _

@[simp] theorem onVM_onVM (v : HSQUIRRELVM) (f g : SQVM → SQVM) (m : Machine) :
    (m.onVM v f).onVM v g = m.onVM v fun vm => g (f vm) := by
  simp [onVM]

@[simp] theorem onVM_nativeClosures (v : HSQUIRRELVM) (f : SQVM → SQVM) (m : Machine) :
    (m.onVM v f).nativeClosures = m.nativeClosures := rfl
@[simp] theorem onVM_closureData (v : HSQUIRRELVM) (f : SQVM → SQVM) (m : Machine) :
    (m.onVM v f).closureData = m.closureData := rfl
@[simp] theorem onVM_nextObject (v : HSQUIRRELVM) (f : SQVM → SQVM) (m : Machine) :
    (m.onVM v f).nextObject = m.nextObject := rfl
@[simp] theorem onVM_refsTable (v : HSQUIRRELVM) (f : SQVM → SQVM) (m : Machine) :
    (m.onVM v f).refsTable = m.refsTable := rfl

@[simp] theorem onVM_setRefsTable (v : HSQUIRRELVM) (f : SQVM → SQVM) (t : RefTable SQObject)
    (m : Machine) : (m.onVM v f).setRefsTable t = (m.setRefsTable t).onVM v f := rfl
@[simp] theorem setRefsTable_refsTable (t : RefTable SQObject) (m : Machine) :
    (m.setRefsTable t).refsTable = t := rfl
@[simp] theorem setRefsTable_vms (t : RefTable SQObject) (m : Machine) :
    (m.setRefsTable t).vms = m.vms := rfl
@[simp] theorem setRefsTable_setRefsTable (t u : RefTable SQObject) (m : Machine) :
    (m.setRefsTable t).setRefsTable u = m.setRefsTable u := rfl
@[simp] theorem onVM_allocObject (v : HSQUIRRELVM) (f : SQVM → SQVM) (m : Machine) :
    (m.onVM v f).allocObject = m.allocObject.onVM v f := rfl
@[simp] theorem onVM_setNativeClosure (v : HSQUIRRELVM) (f : SQVM → SQVM) (a : Address)
    (nc : SQNativeClosure) (m : Machine) :
    (m.onVM v f).setNativeClosure a nc = (m.setNativeClosure a nc).onVM v f := rfl

theorem onVM_congr {v : HSQUIRRELVM} {f g : SQVM → SQVM} {m : Machine}
    (same : f (m.vms v) = g (m.vms v)) : m.onVM v f = m.onVM v g := by
  rw [onVM, same, onVM]

theorem onVM_same {v : HSQUIRRELVM} {f : SQVM → SQVM} {m : Machine}
    (same : f (m.vms v) = m.vms v) : m.onVM v f = m := by
  rw [onVM, same, Function.update_eq_self]

end Machine

section Api

open SQVM

def sqThrowError (v : HSQUIRRELVM) (err : String) (m : Machine) : Machine × Int :=
  (m.raise v (.string err), sqError)

def sqAuxGetTypedArg (printFloat : UInt32 → String) (v : HSQUIRRELVM) (idx : Int)
    (type : SQObjectType) (m : Machine) : Machine × Option SQObject :=
  let o := (m.vms v).stackGet idx
  if o.type = type then (m, some o)
  else (m.raise v (wrongArgumentType printFloat type o), none)

def sqAuxInvalidType (v : HSQUIRRELVM) (type : SQObjectType) (m : Machine) : Machine × Int :=
  sqThrowError v ("unexpected type " ++ type.name) m

def sqPushNull (v : HSQUIRRELVM) (m : Machine) : Machine := m.push v .null

/-- `sq_pushstring` with a non-null text. -/
def sqPushString (v : HSQUIRRELVM) (s : String) (m : Machine) : Machine := m.push v (.string s)

def sqPushInteger (v : HSQUIRRELVM) (n : Int) (m : Machine) : Machine := m.push v (.integer n)

def sqPushUserPointer (v : HSQUIRRELVM) (p : SQUserPointer) (m : Machine) : Machine :=
  m.push v (.userpointer p)

def sqPushObject (v : HSQUIRRELVM) (o : SQObject) (m : Machine) : Machine := m.push v o

def sqPushRootTable (v : HSQUIRRELVM) (m : Machine) : Machine := m.push v (m.vms v).rootTable

def sqPushThread (v thread : HSQUIRRELVM) (m : Machine) : Machine := m.push v (.thread thread)

def sqPush (v : HSQUIRRELVM) (idx : Int) (m : Machine) : Machine :=
  m.push v ((m.vms v).stackGet idx)

def sqPop (v : HSQUIRRELVM) (n : Nat) (m : Machine) : Machine := m.onVM v (popN n)

def sqRemove (v : HSQUIRRELVM) (idx : Int) (m : Machine) : Machine := m.onVM v (remove idx)

def sqGetLastError (v : HSQUIRRELVM) (m : Machine) : Machine := m.push v (m.vms v).lastError

def sqGetStackObj (v : HSQUIRRELVM) (idx : Int) (m : Machine) : SQObject :=
  (m.vms v).stackGet idx

def sqAddRef (po : SQObject) (m : Machine) : Machine :=
  if po.isRefCounted then { m with refsTable := m.refsTable.addRef SQObject.hashObj po } else m

def sqRelease (po : SQObject) (m : Machine) : Machine × Bool :=
  if po.isRefCounted then
    let (table, last) := m.refsTable.release SQObject.hashObj po
    ({ m with refsTable := table }, last)
  else (m, true)

def sqGetRefCount (po : SQObject) (m : Machine) : Machine × Nat :=
  if po.isRefCounted then
    let (table, count) := m.refsTable.getRefCount SQObject.hashObj po
    ({ m with refsTable := table }, count)
  else (m, 0)

/-- `sq_move`: the destination comes first. -/
def sqMove (dest src : HSQUIRRELVM) (idx : Int) (m : Machine) : Machine :=
  m.push dest ((m.vms src).stackGet idx)

/-- `SQVM::Init` for a thread of an existing VM. -/
def initThread (friend : SQVM) (stacksize : Int) : SQVM where
  stack := fun _ => .null
  stackSize := stacksize
  top := 0
  stackBase := 0
  rootTable := friend.rootTable
  lastError := .null
  errorHandler := friend.errorHandler
  callsStack := fun _ =>
    { closure := .null, ip := 0, prevStkBase := 0, prevTop := 0, target := 0, root := false }
  callsStackSize := 0
  nNativeCalls := 0
  nMetamethodsCall := 0
  suspended := false

/-- `sq_open`: one VM with an empty stack, whose root table is the first heap object. The base
library has made `registered` more objects; their contents play no part here. -/
def sqOpen (initialstacksize : Int) (registered : Address) : Machine where
  vms := fun _ =>
    { stack := fun _ => .null
      stackSize := initialstacksize
      top := 0
      stackBase := 0
      rootTable := .table 0
      lastError := .null
      errorHandler := .null
      callsStack := fun _ =>
        { closure := .null, ip := 0, prevStkBase := 0, prevTop := 0, target := 0, root := false }
      callsStackSize := 0
      nNativeCalls := 0
      nMetamethodsCall := 0
      suspended := false }
  nextVm := 1
  nativeClosures := fun _ =>
    { nparamscheck := 0, typecheck := [], outervalues := [], env := none, function := .native 0,
      name := .null }
  closures := fun _ => { function := 0, outervalues := [], env := none, root := none }
  outers := fun _ => .closed .null
  protos := fun _ =>
    { name := .null, sourceName := .null, lineInfos := [], nparameters := 0, outerNames := [],
      bgenerator := false }
  classes :=
    { at_ := fun _ =>
        { members := fun _ => none, base := none, typetag := 0, constructor := none, udSize := 0 }
      older := fun _ _ none => nomatch none }
  instances := fun _ => { cls := 0, userPointer := 0 }
  arrays := fun _ => []
  weakRefs := fun _ => .null
  weakRefOf := fun _ => none
  nextObject := registered + 1
  refsTable := RefTable.init
  closureData := fun _ => ⟨0, 0⟩
  nextCell := 1
  log := []

/-- `sq_newthread`: the new VM is pushed on the VM it was made from. -/
def sqNewThread (friend : HSQUIRRELVM) (stacksize : Int) (m : Machine) : Machine × HSQUIRRELVM :=
  let v := m.nextVm
  let made : Machine :=
    { m with vms := Function.update m.vms v (initThread (m.vms friend) stacksize), nextVm := v + 1 }
  (made.push friend (.thread v), v)

/-- Take `n` values off the stack into the outer values, the topmost first. -/
def takeOuters (v : HSQUIRRELVM) : Nat → Machine → List SQObject × Machine
  | 0, m => ([], m)
  | n + 1, m =>
      let o := (m.vms v).getUp (-1)
      let (rest, m) := takeOuters v n (m.onVM v pop)
      (o :: rest, m)

private theorem takeOuters_eq (v : HSQUIRRELVM) (n : Nat) (m : Machine) :
    takeOuters v n m = ((m.vms v).popped n, m.onVM v (popN n)) := by
  induction n generalizing m with
  | zero => exact Prod.ext rfl (Machine.onVM_same rfl).symm
  | succ n ih =>
      simp only [takeOuters, ih, Machine.onVM_self, Machine.onVM_onVM]
      rfl

/-- A native closure as `sq_newclosure` leaves it. -/
def freshClosure (func : SQFUNCTION) (outervalues : List SQObject) : SQNativeClosure where
  nparamscheck := 0
  typecheck := []
  outervalues := outervalues
  env := none
  function := func
  name := .null

def sqNewClosure (v : HSQUIRRELVM) (func : SQFUNCTION) (nfreevars : Nat) (m : Machine) : Machine :=
  let nc := m.nextObject
  let (outers, m) := takeOuters v nfreevars m.allocObject
  (m.setNativeClosure nc (freshClosure func outers)).push v (.nativeclosure nc)

theorem sqNewClosure_eq (v : HSQUIRRELVM) (func : SQFUNCTION) (n : Nat) (m : Machine) :
    sqNewClosure v func n m =
      (m.allocObject.setNativeClosure m.nextObject
        (freshClosure func ((m.vms v).popped n))).onVM v
        fun vm => push (.nativeclosure m.nextObject) (popN n vm) := by
  simp only [sqNewClosure, takeOuters_eq, Machine.push, Machine.onVM_setNativeClosure,
    Machine.onVM_onVM]
  rfl

/-- `sq_getclosureinfo`, with the two words it stores. -/
def sqGetClosureInfo (v : HSQUIRRELVM) (idx : Int) (m : Machine) :
    Machine × Int × Option (Int × Nat) :=
  match (m.vms v).stackGet idx with
  | .closure a =>
      let proto := m.protos (m.closures a).function
      (m, sqOk, some (proto.nparameters, proto.outerNames.length))
  | .nativeclosure a =>
      (m, sqOk, some ((m.nativeClosures a).nparamscheck, (m.nativeClosures a).outervalues.length))
  | _ =>
      let (m, r) := sqThrowError v "the object is not a closure" m
      (m, r, none)

def typeBits : Char → Option Nat
  | 'o' => some (SQObjectType.raw .null)
  | 'i' => some (SQObjectType.raw .integer)
  | 'f' => some (SQObjectType.raw .float)
  | 'n' => some (SQObjectType.raw .float ||| SQObjectType.raw .integer)
  | 's' => some (SQObjectType.raw .string)
  | 't' => some (SQObjectType.raw .table)
  | 'a' => some (SQObjectType.raw .array)
  | 'u' => some (SQObjectType.raw .userdata)
  | 'c' => some (SQObjectType.raw .closure ||| SQObjectType.raw .nativeclosure)
  | 'b' => some (SQObjectType.raw .bool)
  | 'g' => some (SQObjectType.raw .generator)
  | 'p' => some (SQObjectType.raw .userpointer)
  | 'v' => some (SQObjectType.raw .thread)
  | 'x' => some (SQObjectType.raw .inst)
  | 'y' => some (SQObjectType.raw .cls)
  | 'r' => some (SQObjectType.raw .weakref)
  | _ => none

/-- `CompileTypemask`. A bar joins two letters into one mask; a bar at the end is refused. -/
def compileTypemask : List Char → Nat → Option (List (Option Nat))
  | [], _ => some []
  | '.' :: rest, _ => (compileTypemask rest 0).map (none :: ·)
  | ' ' :: rest, mask => compileTypemask rest mask
  | letter :: rest, mask =>
      match typeBits letter, rest with
      | none, _ => none
      | some _, ['|'] => none
      | some bits, '|' :: rest => compileTypemask rest (mask ||| bits)
      | some bits, rest => (compileTypemask rest 0).map (some (mask ||| bits) :: ·)
  termination_by letters => letters.length

/-- `sq_setparamscheck`. The count is stored before the mask is compiled. -/
def sqSetParamsCheck (v : HSQUIRRELVM) (nparamscheck : Int) (typemask : Option String)
    (m : Machine) : Machine × Int :=
  match (m.vms v).stackGet (-1) with
  | .nativeclosure a =>
      let nc := { m.nativeClosures a with nparamscheck := nparamscheck }
      let masks : Option (List (Option Nat)) := match typemask with
        | some mask => compileTypemask mask.toList 0
        | none => some []
      match masks with
      | none => sqThrowError v "invalid typemask" (m.setNativeClosure a nc)
      | some res =>
          let count := if nparamscheck = sqMatchTypemaskString then (res.length : Int)
            else nparamscheck
          (m.setNativeClosure a { nc with typecheck := res, nparamscheck := count }, sqOk)
  | _ => sqThrowError v "native closure expected" m

/-- `SQRefCounted::GetWeakRef`: one weak reference object per object, made on first use. -/
def getWeakRef (o : SQObject) (m : Machine) : Machine × Address :=
  match m.weakRefOf o with
  | some w => (m, w)
  | none =>
      let w := m.nextObject
      ({ m with
          nextObject := w + 1
          weakRefs := Function.update m.weakRefs w o
          weakRefOf := Function.update m.weakRefOf o (some w) }, w)

@[simp] theorem getWeakRef_vms (o : SQObject) (m : Machine) : (getWeakRef o m).1.vms = m.vms := by
  rw [getWeakRef]
  split <;> rfl

def isEnvironment (o : SQObject) : Bool :=
  match o.type with
  | .table | .array | .cls | .inst => true
  | _ => false

/-- `sq_bindenv`: a clone with the given environment takes the place of the environment on the
stack. -/
def sqBindEnv (v : HSQUIRRELVM) (idx : Int) (m : Machine) : Machine × Int :=
  match (m.vms v).stackGet idx with
  | .nativeclosure a =>
      let env := (m.vms v).stackGet (-1)
      if isEnvironment env then
        let (m, w) := getWeakRef env m
        let c := m.nextObject
        let clone : SQNativeClosure := { m.nativeClosures a with env := some w }
        (((m.allocObject.setNativeClosure c clone).onVM v pop).push v (.nativeclosure c), sqOk)
      else sqThrowError v "invalid environment" m
  | .closure a =>
      let env := (m.vms v).stackGet (-1)
      if isEnvironment env then
        let (m, w) := getWeakRef env m
        let c := m.nextObject
        let clone : SQClosure := { m.closures a with env := some w }
        let m :=
          { m with nextObject := c + 1, closures := Function.update m.closures c clone }
        ((m.onVM v pop).push v (.closure c), sqOk)
      else sqThrowError v "invalid environment" m
  | _ => sqThrowError v "the target is not a closure" m

/-- `sq_getfreevariable`. The name is the same for every outer value of a native closure. -/
def sqGetFreeVariable (v : HSQUIRRELVM) (idx : Int) (nval : Nat) (m : Machine) :
    Machine × CString :=
  match (m.vms v).stackGet idx with
  | .closure a =>
      let clo := m.closures a
      match (m.protos clo.function).outerNames[nval]? with
      | some name => (m.push v (m.outerValue (clo.outervalues.getD nval 0)), .text name)
      | none => (m, .null)
  | .nativeclosure a =>
      match (m.nativeClosures a).outervalues[nval]? with
      | some o => (m.push v o, .text "@NATIVE")
      | none => (m, .null)
  | _ => (m, .null)

def sqSetFreeVariable (v : HSQUIRRELVM) (idx : Int) (nval : Nat) (m : Machine) : Machine × Int :=
  match (m.vms v).stackGet idx with
  | .closure a =>
      let clo := m.closures a
      if nval < (m.protos clo.function).outerNames.length then
        let m := m.setOuterValue (clo.outervalues.getD nval 0) ((m.vms v).stackGet (-1))
        (m.onVM v pop, sqOk)
      else sqThrowError v "invalid free var index" m
  | .nativeclosure a =>
      let nc := m.nativeClosures a
      if nval < nc.outervalues.length then
        let nc := { nc with outervalues := nc.outervalues.set nval ((m.vms v).stackGet (-1)) }
        ((m.setNativeClosure a nc).onVM v pop, sqOk)
      else sqThrowError v "invalid free var index" m
  | o => sqAuxInvalidType v o.type m

/-- `sq_getuserpointer`: the out-parameter is written only on success. -/
def sqGetUserPointer (printFloat : UInt32 → String) (v : HSQUIRRELVM) (idx : Int) (m : Machine) :
    Machine × Int × Option SQUserPointer :=
  match sqAuxGetTypedArg printFloat v idx .userpointer m with
  | (m, some (.userpointer p)) => (m, sqOk, some p)
  | (m, _) => (m, sqError, none)

def sqGetString (printFloat : UInt32 → String) (v : HSQUIRRELVM) (idx : Int) (m : Machine) :
    Machine × Int × Option CString :=
  match sqAuxGetTypedArg printFloat v idx .string m with
  | (m, some (.string s)) => (m, sqOk, some (.text s))
  | (m, _) => (m, sqError, none)

theorem sqGetUserPointer_eq (printFloat : UInt32 → String) (v : HSQUIRRELVM) (idx : Int)
    (m : Machine) :
    sqGetUserPointer printFloat v idx m =
      match (m.vms v).stackGet idx with
      | .userpointer p => (m, sqOk, some p)
      | o => (m.raise v (wrongArgumentType printFloat .userpointer o), sqError, none) := by
  rw [sqGetUserPointer, sqAuxGetTypedArg]
  cases (m.vms v).stackGet idx <;> rfl

theorem sqGetString_eq (printFloat : UInt32 → String) (v : HSQUIRRELVM) (idx : Int)
    (m : Machine) :
    sqGetString printFloat v idx m =
      match (m.vms v).stackGet idx with
      | .string s => (m, sqOk, some (.text s))
      | o => (m.raise v (wrongArgumentType printFloat .string o), sqError, none) := by
  rw [sqGetString, sqAuxGetTypedArg]
  cases (m.vms v).stackGet idx <;> rfl

end Api

end SquirrelGObject.Engine
