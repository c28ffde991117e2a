/- SquirrelGObject/Engine/Object
   digest: Tagged values of the engine, their type words, and the type names used in error texts. -/

import Mathlib.Data.Nat.Basic

set_option autoImplicit false
set_option relaxedAutoImplicit false

namespace SquirrelGObject.Engine

/-- Engine VM handles, heap addresses and raw host pointers. A host pointer is null when zero. -/
abbrev HSQUIRRELVM := Nat
abbrev Address := Nat
abbrev SQUserPointer := Nat

def sqOk : Int := 0
def sqError : Int := -1

theorem sqOk_succeeded : 0 ≤ sqOk := by decide

theorem sqError_failed : ¬ 0 ≤ sqError := by decide

/-- `SQ_SUSPEND_FLAG` and `SQ_TAILCALL_FLAG` share the result channel of a native function. -/
def sqSuspendFlag : Int := -666
def sqTailcallFlag : Int := -777
def sqMatchTypemaskString : Int := -99999

def maxNativeCalls : Int := 100
def minStackOverhead : Int := 15

inductive SQObjectType where
  | null | integer | float | bool | string | table | array | userdata | closure | nativeclosure
  | generator | userpointer | thread | funcproto | cls | inst | weakref | outer
  deriving DecidableEq, Repr

namespace SQObjectType

/-- The `_RT_*` bit of a type. -/
def raw : SQObjectType → Nat
  | null => 0x00000001
  | integer => 0x00000002
  | float => 0x00000004
  | bool => 0x00000008
  | string => 0x00000010
  | table => 0x00000020
  | array => 0x00000040
  | userdata => 0x00000080
  | closure => 0x00000100
  | nativeclosure => 0x00000200
  | generator => 0x00000400
  | userpointer => 0x00000800
  | thread => 0x00001000
  | funcproto => 0x00002000
  | cls => 0x00004000
  | inst => 0x00008000
  | weakref => 0x00010000
  | outer => 0x00020000

def refCounted : Nat := 0x08000000
def numeric : Nat := 0x04000000
def delegable : Nat := 0x02000000
def canBeFalse : Nat := 0x01000000

/-- The full type word: the raw bit together with the property flags. -/
def code : SQObjectType → Nat
  | null => raw null ||| canBeFalse
  | integer => raw integer ||| numeric ||| canBeFalse
  | float => raw float ||| numeric ||| canBeFalse
  | bool => raw bool ||| canBeFalse
  | string => raw string ||| refCounted
  | table => raw table ||| refCounted ||| delegable
  | array => raw array ||| refCounted
  | userdata => raw userdata ||| refCounted ||| delegable
  | closure => raw closure ||| refCounted
  | nativeclosure => raw nativeclosure ||| refCounted
  | generator => raw generator ||| refCounted
  | userpointer => raw userpointer
  | thread => raw thread ||| refCounted
  | funcproto => raw funcproto ||| refCounted
  | cls => raw cls ||| refCounted
  | inst => raw inst ||| refCounted ||| delegable
  | weakref => raw weakref ||| refCounted
  | outer => raw outer ||| refCounted

def isRefCounted (t : SQObjectType) : Bool := t.code &&& refCounted != 0

/-- `IdType2Name`. Closures and function prototypes share a name, as do the two user kinds. -/
def name : SQObjectType → String
  | null => "null"
  | integer => "integer"
  | float => "float"
  | bool => "bool"
  | string => "string"
  | table => "table"
  | array => "array"
  | generator => "generator"
  | closure | nativeclosure | funcproto => "function"
  | userdata | userpointer => "userdata"
  | thread => "thread"
  | cls => "class"
  | inst => "instance"
  | weakref => "weakref"
  | outer => "outer"

def all : List SQObjectType :=
  [null, integer, float, bool, string, table, array, userdata, closure, nativeclosure,
    generator, userpointer, thread, funcproto, cls, inst, weakref, outer]

end SQObjectType

/-- A tagged value. Strings are interned by the engine, so two string values are the same object
exactly when their texts are equal; every other reference-counted value is a heap address. A bool
is a whole word: the engine itself makes 0 and 1, but a bytecode stream may hold any. -/
inductive SQObject where
  | null
  | integer (n : Int)
  | float (bits : UInt32)
  | bool (word : UInt64)
  | string (s : String)
  | table (a : Address)
  | array (a : Address)
  | userdata (a : Address)
  | closure (a : Address)
  | nativeclosure (a : Address)
  | generator (a : Address)
  | userpointer (p : SQUserPointer)
  | thread (a : Address)
  | funcproto (a : Address)
  | cls (a : Address)
  | inst (a : Address)
  | weakref (a : Address)
  | outer (a : Address)
  deriving DecidableEq, Repr

instance : Inhabited SQObject := ⟨.null⟩

namespace SQObject

/-- `sq_type`. -/
def type : SQObject → SQObjectType
  | null => .null
  | integer _ => .integer
  | float _ => .float
  | bool _ => .bool
  | string _ => .string
  | table _ => .table
  | array _ => .array
  | userdata _ => .userdata
  | closure _ => .closure
  | nativeclosure _ => .nativeclosure
  | generator _ => .generator
  | userpointer _ => .userpointer
  | thread _ => .thread
  | funcproto _ => .funcproto
  | cls _ => .cls
  | inst _ => .inst
  | weakref _ => .weakref
  | outer _ => .outer

def isRefCounted (o : SQObject) : Bool := o.type.isRefCounted

/-- The hash of a string as the engine computes it, from the end and with a stride that skips
characters of long strings. -/
def hashStrFrom (bytes : Nat → UInt64) (step : Nat) : Nat → Nat → UInt64 → UInt64
  | 0, _, h => h
  | fuel + 1, l1, h =>
      if step ≤ l1 then
        hashStrFrom bytes step fuel (l1 - step) (h ^^^ ((h <<< 5) + (h >>> 2) + bytes (l1 - 1)))
      else h

/-- A character is widened to `unsigned short` from a signed `char`. -/
def wideChar (b : UInt8) : UInt64 :=
  if b < 128 then b.toUInt64 else b.toUInt64 + 0xff00

def hashStr (s : String) : Nat :=
  let bytes := s.toUTF8
  let len := bytes.size
  (hashStrFrom (fun i => wideChar (bytes.data.getD i 0)) ((len >>> 5) + 1) len len
    (UInt64.ofNat len)).toNat

/-- `HashObj` on reference-counted keys: strings carry their own hash, addresses lose three bits. -/
def hashObj : SQObject → Nat
  | string s => hashStr s
  | table a | array a | userdata a | closure a | nativeclosure a | generator a | thread a
  | funcproto a | cls a | inst a | weakref a | outer a | userpointer a => a >>> 3
  | integer n => (n % UInt64.size).toNat
  | bool word => word.toNat
  | float _ | null => 0

end SQObject

/-- `SQVM::PrintObjVal`. Printing a float is the C library's `%.14g`. -/
def printObjVal (printFloat : UInt32 → String) : SQObject → String
  | .string s => s
  | .integer n => toString n
  | .float bits => printFloat bits
  | o => o.type.name

/-- The beginning of a text that fits in a number of bytes. A character that the limit splits is
left out, where C keeps its first bytes. -/
def takeBytes : Nat → List Char → List Char
  | n, c :: rest => if c.utf8Size ≤ n then c :: takeBytes (n - c.utf8Size) rest else []
  | _, [] => []

/-- `Raise_Error` formats into a scratch buffer of the format's length plus one hundred, so the
text it stores is cut to one byte less. -/
def raised (format text : String) : SQObject :=
  .string (String.ofList (takeBytes (format.utf8ByteSize + 99) text.toList))

/-- Text of `sq_aux_gettypedarg` for a value of the wrong type. -/
def wrongArgumentType (printFloat : UInt32 → String) (expected : SQObjectType) (o : SQObject) :
    SQObject :=
  raised "wrong argument type, expected '%s' got '%.50s'"
    ("wrong argument type, expected '" ++ expected.name ++ "' got '" ++
      String.ofList (takeBytes 50 (printObjVal printFloat o).toList) ++ "'")

/-- Names of the types whose raw bits are set in a mask, joined by bars. Only the first sixteen
raw types are looked at. -/
def expectedTypes (typemask : Nat) : String :=
  String.intercalate "|"
    (((SQObjectType.all.take 16).filter (fun t => typemask &&& t.raw != 0)).map
      SQObjectType.name)

/-- Text of `Raise_ParamTypeError`. -/
def paramTypeError (nparam : Nat) (typemask : Nat) (type : SQObjectType) : SQObject :=
  raised "parameter %d has an invalid type '%s' ; expected: '%s'"
    ("parameter " ++ toString nparam ++ " has an invalid type '" ++ type.name ++
      "' ; expected: '" ++ expectedTypes typemask ++ "'")

end SquirrelGObject.Engine
