/- SquirrelGObject/Engine/Bytecode
   digest: The bytecode stream of a closure: writing a tree of function prototypes and reading it back. -/

import SquirrelGObject.Engine.Object
import SquirrelGObject.Lib.Bytes
import SquirrelGObject.Lib.Streams

set_option autoImplicit false
set_option relaxedAutoImplicit false

namespace SquirrelGObject.Engine.Bytecode

open Lib.Bytes Lib.Streams

/-- Where writing or reading a closure stops. `undefined` stands for what the code does not guard
against: a negative count or length, one that no allocation can serve, and nesting that exhausts the
C stack. The name of an unknown type is a null pointer. -/
inductive StreamError where
  | writeFailure
  | readFailure
  | corrupted
  | cannotSerialize (name : Option String)
  | freeVariables
  | io
  | invalidStream
  | undefined
  deriving DecidableEq, Repr

def StreamError.text : StreamError → Option String
  | writeFailure => some "io error (write function failure)"
  | readFailure =>
      some "io error, read function failure, the origin stream could be corrupted/trucated"
  | corrupted => some "invalid or corrupted closure stream"
  | cannotSerialize name => name.map ("cannot serialize a " ++ ·)
  | freeVariables => some "a closure with free variables bound cannot be serialized"
  | io => some "io error"
  | invalidStream => some "invalid stream"
  | undefined => none

def storable : List SQObjectType := [.null, .integer, .float, .bool, .string]

/-- A value as the prototypes of a compiled script hold it. Strings are byte strings, and a
Boolean is the whole word of the union. -/
inductive SQLiteral where
  | null
  | integer (word : UInt64)
  | float (bits : UInt32)
  | bool (word : UInt64)
  | string (bytes : List UInt8)
  | other (type : SQObjectType) (kind : type ∉ storable)
  deriving DecidableEq, Repr

def SQLiteral.type : SQLiteral → SQObjectType
  | null => .null
  | integer _ => .integer
  | float _ => .float
  | bool _ => .bool
  | string _ => .string
  | other t _ => t

/-- A free variable of a prototype. The type is an `int`; four bytes of padding follow it in
memory. -/
structure SQOuterVar where
  type : UInt32
  padding : UInt32
  name : SQLiteral
  src : SQLiteral
  deriving DecidableEq, Repr

structure SQLocalVarInfo where
  name : SQLiteral
  pos : UInt64
  startOp : UInt64
  endOp : UInt64
  deriving DecidableEq, Repr

structure SQLineInfo where
  line : UInt64
  op : UInt64
  deriving DecidableEq, Repr

structure SQInstruction where
  arg1 : UInt32
  op : UInt8
  arg0 : UInt8
  arg2 : UInt8
  arg3 : UInt8
  deriving DecidableEq, Repr

structure ProtoData where
  sourcename : SQLiteral
  name : SQLiteral
  literals : List SQLiteral
  parameters : List SQLiteral
  outervalues : List SQOuterVar
  localvarinfos : List SQLocalVarInfo
  lineinfos : List SQLineInfo
  defaultparams : List UInt64
  instructions : List SQInstruction
  stacksize : UInt64
  bgenerator : UInt8
  varparams : UInt64
  deriving DecidableEq, Repr

inductive SQFunctionProto where
  | mk (data : ProtoData) (functions : List SQFunctionProto)

def SQFunctionProto.data : SQFunctionProto → ProtoData
  | mk data _ => data

def streamHead : UInt32 := 0x53514952
def streamPart : UInt32 := 0x50415254
def streamTail : UInt32 := 0x5441494C
def streamTag : Nat := 0xFAFA
def sizeOfSQChar : UInt32 := 1
def sizeOfSQInteger : UInt32 := 8
def sizeOfSQFloat : UInt32 := 4

section Layout

variable (order : ByteOrder)

def word32 (n : UInt32) : List UInt8 := encode order 4 n.toNat
def word64 (n : UInt64) : List UInt8 := encode order 8 n.toNat
def toWord32 (bytes : List UInt8) : UInt32 := UInt32.ofNat (unsigned order bytes)
def toWord64 (bytes : List UInt8) : UInt64 := UInt64.ofNat (unsigned order bytes)

def lineInfoBytes (info : SQLineInfo) : List UInt8 := word64 order info.line ++ word64 order info.op

def instructionBytes (i : SQInstruction) : List UInt8 :=
  word32 order i.arg1 ++ [i.op, i.arg0, i.arg2, i.arg3]

def toLineInfo (bytes : List UInt8) : SQLineInfo :=
  { line := toWord64 order (bytes.take 8), op := toWord64 order (bytes.drop 8) }

def toInstruction (bytes : List UInt8) : SQInstruction :=
  { arg1 := toWord32 order (bytes.take 4), op := bytes.getD 4 0, arg0 := bytes.getD 5 0,
    arg2 := bytes.getD 6 0, arg3 := bytes.getD 7 0 }

def toArray {α : Type} (size : Nat) (toRecord : List UInt8 → α) : Nat → List UInt8 → List α
  | 0, _ => []
  | n + 1, bytes => toRecord (bytes.take size) :: toArray size toRecord n (bytes.drop size)

end Layout

section Save

variable (order : ByteOrder)

abbrev Save := Writer UInt8 StreamError Unit

def safeWrite (bytes : List UInt8) : Save := put .writeFailure bytes

def writeTag (tag : UInt32) : Save := safeWrite (word32 order tag)

def writeObject (o : SQLiteral) : Save := do
  safeWrite (word32 order (UInt32.ofNat o.type.code))
  match o with
  | .string bytes =>
      safeWrite (word64 order (UInt64.ofNat bytes.length))
      safeWrite bytes
  | .bool word | .integer word => safeWrite (word64 order word)
  | .float bits => safeWrite (word32 order bits)
  | .null => pure ()
  | .other t _ => abort (.cannotSerialize (some t.name))

/-- A count is written as a machine integer. -/
def writeCount (n : Nat) : Save := safeWrite (word64 order (UInt64.ofNat n))

/-- A free variable. The write of the type takes as many bytes as an `SQUnsignedInteger` has, so
the padding goes with it. -/
def writeOuterVar (v : SQOuterVar) : Save := do
  safeWrite (word32 order v.type ++ word32 order v.padding)
  writeObject order v.src
  writeObject order v.name

def writeLocalVarInfo (lvi : SQLocalVarInfo) : Save := do
  writeObject order lvi.name
  safeWrite (word64 order lvi.pos)
  safeWrite (word64 order lvi.startOp)
  safeWrite (word64 order lvi.endOp)

/-- `SQFunctionProto::Save` up to the nested prototypes. -/
def saveData (f : ProtoData) (nfunctions : Nat) : Save := do
  writeTag order streamPart
  writeObject order f.sourcename
  writeObject order f.name
  writeTag order streamPart
  writeCount order f.literals.length
  writeCount order f.parameters.length
  writeCount order f.outervalues.length
  writeCount order f.localvarinfos.length
  writeCount order f.lineinfos.length
  writeCount order f.defaultparams.length
  writeCount order f.instructions.length
  writeCount order nfunctions
  writeTag order streamPart
  each (writeObject order) f.literals
  writeTag order streamPart
  each (writeObject order) f.parameters
  writeTag order streamPart
  each (writeOuterVar order) f.outervalues
  writeTag order streamPart
  each (writeLocalVarInfo order) f.localvarinfos
  writeTag order streamPart
  safeWrite (f.lineinfos.flatMap (lineInfoBytes order))
  writeTag order streamPart
  safeWrite (f.defaultparams.flatMap (word64 order))
  writeTag order streamPart
  safeWrite (f.instructions.flatMap (instructionBytes order))
  writeTag order streamPart

/-- What `SQFunctionProto::Save` writes after the nested prototypes. -/
def saveEnd (f : ProtoData) : Save := do
  safeWrite (word64 order f.stacksize)
  safeWrite [f.bgenerator]
  safeWrite (word64 order f.varparams)

mutual

/-- `SQFunctionProto::Save`. -/
def saveProto : SQFunctionProto → Save
  | .mk data functions => do
      saveData order data functions.length
      saveFunctions functions
      saveEnd order data

def saveFunctions : List SQFunctionProto → Save
  | [] => pure ()
  | f :: functions => do
      saveProto f
      saveFunctions functions

end

/-- `SQClosure::Save`. -/
def saveClosure (function : SQFunctionProto) : Save := do
  writeTag order streamHead
  writeTag order sizeOfSQChar
  writeTag order sizeOfSQInteger
  writeTag order sizeOfSQFloat
  saveProto order function
  writeTag order streamTail

/-- `sq_writeclosure` for a closure over the prototype. -/
def sqWriteClosure (function : SQFunctionProto) : Save :=
  if function.data.outervalues.length ≠ 0 then abort .freeVariables
  else do
    put .io (encode order 2 streamTag)
    saveClosure order function

end Save

section Load

variable (order : ByteOrder)

abbrev Load (α : Type) := Reader UInt8 StreamError α

/-- `SafeRead`. Nothing is asked of the source for a size of zero. -/
def safeRead (size : Nat) : Load (List UInt8) :=
  if size = 0 then pure [] else take .readFailure size

def readWord32 : Load UInt32 := do
  let bytes ← safeRead 4
  pure (toWord32 order bytes)

def readWord64 : Load UInt64 := do
  let bytes ← safeRead 8
  pure (toWord64 order bytes)

def checkTag (tag : UInt32) : Load Unit := do
  let t ← readWord32 order
  if t ≠ tag then refuse .corrupted else pure ()

/-- `IdType2Name` for a type word from the stream. -/
def typeWordName (word : UInt32) : Option String :=
  (SQObjectType.all.find? (fun t => t.raw = word.toNat &&& 0x00FFFFFF)).map SQObjectType.name

variable (memory : Nat)

/-- Make room for a number of entries or bytes. A signed number below zero is a large word; the code
neither refuses it nor one that is too large. -/
def allocate (n : UInt64) : Load Nat :=
  if n.toNat ≤ memory then pure n.toNat else refuse .undefined

def storableCase (word : UInt32) : Option SQObjectType :=
  storable.find? (fun t => t.code = word.toNat)

def readObject : Load SQLiteral := do
  let type ← readWord32 order
  match storableCase type with
  | some .string => do
      let len ← readWord64 order
      let size ← allocate memory len
      let bytes ← safeRead size
      pure (.string bytes)
  | some .integer => do
      let i ← readWord64 order
      pure (.integer i)
  | some .bool => do
      let i ← readWord64 order
      pure (.bool i)
  | some .float => do
      let f ← readWord32 order
      pure (.float f)
  | some .null => pure .null
  | _ => refuse (.cannotSerialize (typeWordName type))

variable (junk : UInt32)

/-- A free variable. The type is read as an `SQUnsignedInteger` and cut to an `int`; the padding
of the new record is whatever the memory held. -/
def readOuterVar : Load SQOuterVar := do
  let type ← readWord64 order
  let src ← readObject order memory
  let name ← readObject order memory
  pure { type := type.toUInt32, padding := junk, name := name, src := src }

def readLocalVarInfo : Load SQLocalVarInfo := do
  let name ← readObject order memory
  let pos ← readWord64 order
  let startOp ← readWord64 order
  let endOp ← readWord64 order
  pure { name := name, pos := pos, startOp := startOp, endOp := endOp }

def readArray {α : Type} (size : Nat) (toRecord : List UInt8 → α) (n : Nat) : Load (List α) := do
  let bytes ← safeRead (size * n)
  pure (toArray size toRecord n bytes)

/-- `SQFunctionProto::Load`. The counter is the nesting that the C stack allows. -/
def loadProto : Nat → Load SQFunctionProto
  | 0 => refuse .undefined
  | depth + 1 => do
      checkTag order streamPart
      let sourcename ← readObject order memory
      let name ← readObject order memory
      checkTag order streamPart
      let nliterals ← readWord64 order
      let nparameters ← readWord64 order
      let noutervalues ← readWord64 order
      let nlocalvarinfos ← readWord64 order
      let nlineinfos ← readWord64 order
      let ndefaultparams ← readWord64 order
      let ninstructions ← readWord64 order
      let nfunctions ← readWord64 order
      let nliterals ← allocate memory nliterals
      let nparameters ← allocate memory nparameters
      let noutervalues ← allocate memory noutervalues
      let nlocalvarinfos ← allocate memory nlocalvarinfos
      let nlineinfos ← allocate memory nlineinfos
      let ndefaultparams ← allocate memory ndefaultparams
      let ninstructions ← allocate memory ninstructions
      let nfunctions ← allocate memory nfunctions
      checkTag order streamPart
      let literals ← times (readObject order memory) nliterals
      checkTag order streamPart
      let parameters ← times (readObject order memory) nparameters
      checkTag order streamPart
      let outervalues ← times (readOuterVar order memory junk) noutervalues
      checkTag order streamPart
      let localvarinfos ← times (readLocalVarInfo order memory) nlocalvarinfos
      checkTag order streamPart
      let lineinfos ← readArray 16 (toLineInfo order) nlineinfos
      checkTag order streamPart
      let defaultparams ← readArray 8 (toWord64 order) ndefaultparams
      checkTag order streamPart
      let instructions ← readArray 8 (toInstruction order) ninstructions
      checkTag order streamPart
      let functions ← times (loadProto depth) nfunctions
      let stacksize ← readWord64 order
      let bgenerator ← safeRead 1
      let varparams ← readWord64 order
      pure (.mk
        { sourcename, name, literals, parameters, outervalues, localvarinfos, lineinfos,
          defaultparams, instructions, stacksize, bgenerator := bgenerator.getD 0 0, varparams }
        functions)

/-- `SQClosure::Load`. -/
def loadClosure (depth : Nat) : Load SQFunctionProto := do
  checkTag order streamHead
  checkTag order sizeOfSQChar
  checkTag order sizeOfSQInteger
  checkTag order sizeOfSQFloat
  let function ← loadProto order memory junk depth
  checkTag order streamTail
  pure function

/-- `sq_readclosure` up to the push of the closure. -/
def sqReadClosure (depth : Nat) : Load SQFunctionProto := do
  let tag ← take .io 2
  if unsigned order tag ≠ streamTag then refuse .invalidStream
  else loadClosure order memory junk depth

end Load

end SquirrelGObject.Engine.Bytecode
