/- SquirrelGObject/Engine/Values
   digest: The engine's getters, which store truth values, numbers, strings and closure sizes through the caller's pointers. -/

import SquirrelGObject.Engine.Machine
import SquirrelGObject.Lib.Bytes

set_option autoImplicit false
set_option relaxedAutoImplicit false

namespace SquirrelGObject.Engine

open Lib.Bytes

/-- The types of the engine's headers on the 64-bit build without doubles. A float and a pointer are
the words they are stored as. -/
def sqInteger : IntType := ⟨8, true⟩
def sqBool : IntType := ⟨8, false⟩
def sqFloat : IntType := ⟨4, false⟩
def sqCharPointer : IntType := ⟨8, false⟩

/-- What the machine adds to the language: its byte order, where the characters of a string are
kept, and the result of converting a float that no `SQInteger` can hold. -/
structure Platform where
  order : ByteOrder
  stringval : String → Nat
  unrepresentable : UInt32 → Int

/-- `(SQInteger)` of a float: its value without the fraction. -/
def floatToInteger (platform : Platform) (bits : UInt32) : Int :=
  let exponent := bits.toNat / 0x800000 % 256
  let fraction := bits.toNat % 0x800000
  let mantissa := if exponent = 0 then fraction else fraction + 0x800000
  -- the value is the mantissa times two to the exponent less 150
  let magnitude :=
    if 150 ≤ exponent then mantissa <<< (exponent - 150) else mantissa >>> (150 - exponent)
  let value : Int := if bits.toNat < 0x80000000 then magnitude else -magnitude
  if exponent ≠ 255 ∧ sqInteger.wrap value = value then value
  else platform.unrepresentable bits

def nearestFloat (n : Nat) : Nat :=
  let exponent := Nat.log2 n
  if n = 0 then 0
  else if exponent ≤ 23 then (exponent + 126) * 0x800000 + (n <<< (23 - exponent))
  else
    let kept := n >>> (exponent - 23)
    let rest := n % (1 <<< (exponent - 23))
    let half := 1 <<< (exponent - 24)
    -- a carry out of the fraction moves on into the exponent
    (exponent + 126) * 0x800000 + kept +
      if half < rest ∨ (rest = half ∧ kept % 2 = 1) then 1 else 0

/-- `(SQFloat)` of an integer. -/
def integerToFloat (n : Int) : UInt32 :=
  UInt32.ofNat (nearestFloat n.natAbs + if n < 0 then 0x80000000 else 0)

/-- `SQVM::IsFalse`. The whole word of a value is compared with zero, and a float also in itself, so
that both zeros of the format are false. The word of a counted value is a pointer, never null. -/
def SQObject.isFalse : SQObject → Bool
  | .null => true
  | .integer n => n = 0
  | .float bits => bits &&& 0x7fffffff = 0
  | .bool word => word = 0
  | .userpointer p => p = 0
  | _ => false

/-- `SQTrue` or `SQFalse`. -/
def truthWord (b : Bool) : Int := if b then 1 else 0

/-- What `sq_getinteger` stores: a number as `tointeger` converts it, or the truth value of a
bool. -/
def integerValue (platform : Platform) : SQObject → Option Int
  | .integer n => some n
  | .float bits => some (floatToInteger platform bits)
  | .bool word => some (truthWord (word ≠ 0))
  | _ => none

/-- What `sq_getfloat` stores: a number as `tofloat` converts it. -/
def floatValue : SQObject → Option Int
  | .integer n => some (integerToFloat n).toNat
  | .float bits => some bits.toNat
  | _ => none

/-- What `sq_getbool` stores: the word of the bool, whatever it is. -/
def boolValue : SQObject → Option Int
  | .bool word => some word.toNat
  | _ => none

/-- What `sq_getstringandsize` stores. -/
def stringValue (platform : Platform) : SQObject → Option (Int × Int)
  | .string s => some (platform.stringval s, s.utf8ByteSize)
  | _ => none

/-- What `sq_getclosureinfo` stores: the parameters and the free variables of either kind of
closure. -/
def closureValue (m : Machine) : SQObject → Option (Int × Int)
  | .closure a =>
      let proto := m.protos (m.closures a).function
      some (proto.nparameters, proto.outerNames.length)
  | .nativeclosure a =>
      some ((m.nativeClosures a).nparamscheck, (m.nativeClosures a).outervalues.length)
  | _ => none

def storeOne (order : ByteOrder) (t : IntType) (p : Int) (mem : Memory) :
    Option Int → Int × Memory
  | some x => (sqOk, store order t p x mem)
  | none => (sqError, mem)

/-- Two assignments in the order of the source. -/
def storeTwo (order : ByteOrder) (t u : IntType) (p q : Int) (mem : Memory) :
    Option (Int × Int) → Memory
  | some (x, y) => store order u q y (store order t p x mem)
  | none => mem

namespace Stored

variable (platform : Platform) (v : HSQUIRRELVM) (idx : Int)

def sqToBool (b : Int) (m : Machine) (mem : Memory) : Memory :=
  store platform.order sqBool b (truthWord !((m.vms v).stackGet idx).isFalse) mem

def sqGetInteger (i : Int) (m : Machine) (mem : Memory) : Int × Memory :=
  storeOne platform.order sqInteger i mem (integerValue platform ((m.vms v).stackGet idx))

def sqGetFloat (f : Int) (m : Machine) (mem : Memory) : Int × Memory :=
  storeOne platform.order sqFloat f mem (floatValue ((m.vms v).stackGet idx))

def sqGetBool (b : Int) (m : Machine) (mem : Memory) : Int × Memory :=
  storeOne platform.order sqBool b mem (boolValue ((m.vms v).stackGet idx))

def sqGetStringAndSize (printFloat : UInt32 → String) (c size : Int) (m : Machine) (mem : Memory) :
    Machine × Int × Memory :=
  match sqAuxGetTypedArg printFloat v idx .string m with
  | (m, some o) =>
      (m, sqOk, storeTwo platform.order sqCharPointer sqInteger c size mem (stringValue platform o))
  | (m, none) => (m, sqError, mem)

def sqGetClosureInfo (nparams nfreevars : Int) (m : Machine) (mem : Memory) :
    Machine × Int × Memory :=
  let (m, r, found) := Engine.sqGetClosureInfo v idx m
  (m, r, storeTwo platform.order sqInteger sqInteger nparams nfreevars mem
    (found.map fun (counts : Int × Nat) => (counts.1, (counts.2 : Int))))

end Stored

section Stores

variable {order : ByteOrder} {p q : Int} {mem : Memory}

theorem storeOne_staysInside (order : ByteOrder) (t : IntType) (p : Int) (mem : Memory)
    (found : Option Int) :
    StaysInside order [⟨p, t⟩] (found.map fun x => [t.wrap x]) mem
      (storeOne order t p mem found).2 := by
  cases found with
  | none => exact staysInside_none order _ mem
  | some x => exact store_staysInside order t p x mem

theorem storeTwo_staysInside_iff {t t' u u' : IntType} (sizes : t'.size = t.size)
    (sizes' : u'.size = u.size) (found : Option (Int × Int)) :
    StaysInside order [⟨p, t⟩, ⟨q, u⟩]
        (found.map fun (words : Int × Int) => [t'.wrap words.1, u'.wrap words.2]) mem
        (storeTwo order t' u' p q mem found) ↔
      ∀ x y, found = some (x, y) → t.wrap x = t'.wrap x ∧ u.wrap y = u'.wrap y ∧
        Agree p (encode order t'.size x) q (encode order u'.size y) := by
  cases found with
  | none =>
      apply iff_of_true (staysInside_none order _ mem)
      intro x y found
      cases found
  | some words =>
      obtain ⟨x, y⟩ := words
      refine (store_store_staysInside_iff sizes sizes').trans ⟨?_, ?_⟩
      · intro right x' y' found
        cases found
        exact right
      · intro right
        exact right x y rfl

end Stores

theorem sqGetClosureInfo_found (v : HSQUIRRELVM) (idx : Int) (m : Machine) :
    ((sqGetClosureInfo v idx m).2.2.map fun (counts : Int × Nat) => (counts.1, (counts.2 : Int))) =
      closureValue m ((m.vms v).stackGet idx) := by
  rw [sqGetClosureInfo]
  cases (m.vms v).stackGet idx <;> rfl

end SquirrelGObject.Engine
