/- SquirrelGObject/Wrapper/Storage
   digest: Wrappers that hand the caller's pointer on: which bytes of the caller's storage change, and what they read as. -/

import SquirrelGObject.Engine.Values
import SquirrelGObject.Wrapper.Closure

set_option autoImplicit false
set_option relaxedAutoImplicit false

namespace SquirrelGObject.Wrapper

open Engine SQVM Lib.Bytes Lib.Window

def gboolean : IntType := ⟨4, true⟩
def glong : IntType := ⟨8, true⟩
def gulong : IntType := ⟨8, false⟩
def gfloat : IntType := ⟨4, false⟩
def gcharPointer : IntType := ⟨8, false⟩

namespace Stored

variable (platform : Platform) (self : SquirrelVm) (m : Machine) (idx : Int)

def squirrelVmToBool (b : Int) (storage : Memory) : Memory :=
  Engine.Stored.sqToBool platform self.vm idx b m storage

def squirrelVmGetStringAndSize (host : Host) (s sz : Int) (storage : Memory) :
    Machine × Int × Memory :=
  Engine.Stored.sqGetStringAndSize platform self.vm idx host.printFloat s sz m storage

def squirrelVmGetInt (i : Int) (storage : Memory) : Int × Memory :=
  Engine.Stored.sqGetInteger platform self.vm idx i m storage

def squirrelVmGetFloat (f : Int) (storage : Memory) : Int × Memory :=
  Engine.Stored.sqGetFloat platform self.vm idx f m storage

def squirrelVmGetBool (b : Int) (storage : Memory) : Int × Memory :=
  Engine.Stored.sqGetBool platform self.vm idx b m storage

def squirrelVmGetClosureInfo (nparams nfreevars : Int) (storage : Memory) :
    Machine × Int × Memory :=
  Engine.Stored.sqGetClosureInfo platform self.vm idx nparams nfreevars m storage

end Stored

section Right

variable (host : Host) (platform : Platform) (self : SquirrelVm) (m : Machine) (idx : Int)
  (storage : Memory)

/-- `squirrel_vm_to_bool` changes the declared bytes only, and they read as the engine's value. -/
def ToBoolRight (b : Int) : Prop :=
  StaysInside platform.order [⟨b, gboolean⟩]
    (some [sqBool.wrap (truthWord !((m.vms self.vm).stackGet idx).isFalse)]) storage
    (Stored.squirrelVmToBool platform self m idx b storage)

/-- The other five produce a value on success only. -/
def GetBoolRight (b : Int) : Prop :=
  StaysInside platform.order [⟨b, gboolean⟩]
    ((boolValue ((m.vms self.vm).stackGet idx)).map fun x => [sqBool.wrap x]) storage
    (Stored.squirrelVmGetBool platform self m idx b storage).2

def GetIntRight (i : Int) : Prop :=
  StaysInside platform.order [⟨i, glong⟩]
    ((integerValue platform ((m.vms self.vm).stackGet idx)).map fun x => [sqInteger.wrap x]) storage
    (Stored.squirrelVmGetInt platform self m idx i storage).2

def GetFloatRight (f : Int) : Prop :=
  StaysInside platform.order [⟨f, gfloat⟩]
    ((floatValue ((m.vms self.vm).stackGet idx)).map fun x => [sqFloat.wrap x]) storage
    (Stored.squirrelVmGetFloat platform self m idx f storage).2

def GetStringAndSizeRight (s sz : Int) : Prop :=
  StaysInside platform.order [⟨s, gcharPointer⟩, ⟨sz, glong⟩]
    ((stringValue platform ((m.vms self.vm).stackGet idx)).map fun (words : Int × Int) =>
      [sqCharPointer.wrap words.1, sqInteger.wrap words.2]) storage
    (Stored.squirrelVmGetStringAndSize platform self m idx host s sz storage).2.2

def GetClosureInfoRight (nparams nfreevars : Int) : Prop :=
  StaysInside platform.order [⟨nparams, gulong⟩, ⟨nfreevars, gulong⟩]
    ((closureValue m ((m.vms self.vm).stackGet idx)).map fun (counts : Int × Int) =>
      [sqInteger.wrap counts.1, sqInteger.wrap counts.2]) storage
    (Stored.squirrelVmGetClosureInfo platform self m idx nparams nfreevars storage).2.2

end Right

/-- The four bytes behind a `gboolean` are zero. -/
def ZeroBehind (storage : Memory) (b : Int) : Prop :=
  window storage (b + 4) (b + 8) = [0, 0, 0, 0]

section Iffs

variable {host : Host} {platform : Platform} {self : SquirrelVm} {m : Machine} {idx : Int}
  {storage : Memory}

/-- A word stored as an `SQBool` where a `gboolean` is declared. The four bytes behind it are
written too; of the word itself, the declared bytes get the low half or the high half. -/
private theorem storeWord_right_iff (order : ByteOrder) (word : Nat) (below : word < 2 ^ 64)
    (b : Int) (storage : Memory) :
    StaysInside order [⟨b, gboolean⟩] (some [sqBool.wrap word]) storage
        (store order sqBool b word storage) ↔
      ZeroBehind storage b ∧ (order = .little ∧ word < 2 ^ 31 ∨ word = 0) := by
  obtain ⟨declared, behind⟩ := encode_halves order 4 word below
  have whole : sqBool.wrap word = word := by
    change (word : Int) % ((256 ^ 8 : Nat) : Int) = word
    exact Int.emod_eq_of_lt (Int.natCast_nonneg word) (by exact_mod_cast below)
  have read (n : Nat) : gboolean.read order (order.arrange (digits 4 n)) =
      Int.bmod (n % 256 ^ 4 : Nat) (256 ^ 4) := by
    have bytes := read_arrange_digits gboolean order n
    rw [IntType.wrap, if_pos (show gboolean.signed = true from rfl)] at bytes
    exact bytes
  have zeros : order.arrange (digits 4 0) = [0, 0, 0, 0] := by cases order <;> rfl
  rw [store_staysInside_iff (by decide)]
  change window storage (b + 4) (b + 8) = (encode order (4 + 4) word).drop 4 ∧
    gboolean.read order ((encode order (4 + 4) word).take 4) = sqBool.wrap word ↔ _
  rw [declared, behind, read, whole, ZeroBehind]
  cases order with
  | little =>
      simp only [if_true, true_and]
      by_cases fits : word < 2 ^ 31
      · have same : Int.bmod (word % 256 ^ 4 : Nat) (256 ^ 4) = word := by
          rw [Int.bmod]
          split <;> omega
        rw [Nat.div_eq_of_lt (by omega), zeros, same]
        exact and_congr_right fun _ => iff_of_true rfl (.inl fits)
      · refine iff_of_false ?_ (by omega)
        rintro ⟨-, same⟩
        rw [Int.bmod] at same
        split at same <;> omega
  | big =>
      simp only [reduceCtorEq, if_false, false_and, false_or]
      by_cases zero : word = 0
      · subst zero
        rw [zeros]
        exact and_congr_right fun _ => iff_of_true rfl rfl
      · refine iff_of_false ?_ fun right => zero right.2
        rintro ⟨-, same⟩
        -- the high half is below the word, and its signed value is no more
        have smaller : word / 256 ^ 4 < word := Nat.div_lt_self (by omega) (by decide)
        generalize word / 256 ^ 4 = high at same smaller
        rw [Int.bmod] at same
        split at same <;> omega

private theorem storeTruth_right_iff (order : ByteOrder) (value : Bool) (b : Int) (storage : Memory)
    :
    StaysInside order [⟨b, gboolean⟩] (some [sqBool.wrap (truthWord value)]) storage
        (store order sqBool b (truthWord value) storage) ↔
      ZeroBehind storage b ∧ (order = .little ∨ value = false) := by
  cases value with
  | false => simpa [truthWord] using storeWord_right_iff order 0 (by decide) b storage
  | true => simpa [truthWord] using storeWord_right_iff order 1 (by decide) b storage

private theorem toBoolRight_iff {b : Int} :
    ToBoolRight platform self m idx storage b ↔ ZeroBehind storage b ∧
      (platform.order = .little ∨ ((m.vms self.vm).stackGet idx).isFalse = true) := by
  have written := storeTruth_right_iff platform.order
    (!((m.vms self.vm).stackGet idx).isFalse) b storage
  rw [Bool.not_eq_false'] at written
  exact written

private theorem getBoolRight_iff {b : Int} :
    GetBoolRight platform self m idx storage b ↔
      ∀ word, (m.vms self.vm).stackGet idx = .bool word →
        ZeroBehind storage b ∧ (platform.order = .little ∧ word.toNat < 2 ^ 31 ∨ word = 0) := by
  rw [GetBoolRight, Stored.squirrelVmGetBool, Engine.Stored.sqGetBool]
  cases (m.vms self.vm).stackGet idx with
  | bool word =>
      apply (storeWord_right_iff platform.order word.toNat word.toNat_lt b storage).trans
      have zero : word.toNat = 0 ↔ word = 0 := UInt64.toNat_inj (b := 0)
      rw [zero]
      constructor
      · intro right other same
        cases same
        exact right
      · intro right
        exact right word rfl
  | _ =>
      apply iff_of_true (staysInside_none _ _ _)
      intro word same
      cases same

private theorem getIntRight (i : Int) : GetIntRight platform self m idx storage i :=
  storeOne_staysInside platform.order sqInteger i storage _

private theorem getFloatRight (f : Int) : GetFloatRight platform self m idx storage f :=
  storeOne_staysInside platform.order sqFloat f storage _

private theorem squirrelVmGetStringAndSize_storage (s sz : Int) :
    (Stored.squirrelVmGetStringAndSize platform self m idx host s sz storage).2.2 =
      storeTwo platform.order sqCharPointer sqInteger s sz storage
        (stringValue platform ((m.vms self.vm).stackGet idx)) := by
  rw [Stored.squirrelVmGetStringAndSize, Engine.Stored.sqGetStringAndSize, sqAuxGetTypedArg]
  cases (m.vms self.vm).stackGet idx <;> rfl

private theorem getStringAndSizeRight_iff {s sz : Int} :
    GetStringAndSizeRight host platform self m idx storage s sz ↔
      ∀ text, (m.vms self.vm).stackGet idx = .string text →
        Agree s (encode platform.order 8 (platform.stringval text))
          sz (encode platform.order 8 text.utf8ByteSize) := by
  have pointers : sqCharPointer.size = gcharPointer.size := rfl
  have lengths : sqInteger.size = glong.size := rfl
  rw [GetStringAndSizeRight, squirrelVmGetStringAndSize_storage,
    storeTwo_staysInside_iff pointers lengths]
  constructor
  · intro right text value
    exact (right _ _ (by rw [value]; rfl)).2.2
  · intro right x y found
    cases value : (m.vms self.vm).stackGet idx <;> rw [value] at found <;> cases found
    exact ⟨rfl, rfl, right _ value⟩

private theorem gulong_wrap_iff (x : Int) :
    gulong.wrap x = sqInteger.wrap x ↔ 0 ≤ sqInteger.wrap x := by
  have natural := Int.emod_nonneg x (show ((256 ^ 8 : Nat) : Int) ≠ 0 by decide)
  have below := Int.emod_lt_of_pos x (show (0 : Int) < (256 ^ 8 : Nat) by decide)
  change x % (256 ^ 8 : Nat) = x.bmod (256 ^ 8) ↔ 0 ≤ x.bmod (256 ^ 8)
  rw [Int.bmod]
  split <;> omega

private theorem getClosureInfoRight_iff {nparams nfreevars : Int} :
    GetClosureInfoRight platform self m idx storage nparams nfreevars ↔
      ∀ params freevars,
        closureValue m ((m.vms self.vm).stackGet idx) = some (params, freevars) →
          0 ≤ sqInteger.wrap params ∧ 0 ≤ sqInteger.wrap freevars ∧
            Agree nparams (encode platform.order 8 params)
              nfreevars (encode platform.order 8 freevars) := by
  have stored : (Stored.squirrelVmGetClosureInfo platform self m idx nparams nfreevars
      storage).2.2 = storeTwo platform.order sqInteger sqInteger nparams nfreevars storage
        (closureValue m ((m.vms self.vm).stackGet idx)) := by
    rw [← sqGetClosureInfo_found]
    rfl
  have sizes : sqInteger.size = gulong.size := rfl
  rw [GetClosureInfoRight, stored, storeTwo_staysInside_iff sizes sizes]
  simp only [gulong_wrap_iff]
  rfl

end Iffs

theorem getters_succeed_iff (host : Host) (platform : Platform) (self : SquirrelVm) (m : Machine)
    (idx p q : Int) (storage : Memory) :
    let o := (m.vms self.vm).stackGet idx
    ((Stored.squirrelVmGetBool platform self m idx p storage).1 = sqOk ↔
        (boolValue o).isSome = true) ∧
      ((Stored.squirrelVmGetInt platform self m idx p storage).1 = sqOk ↔
        (integerValue platform o).isSome = true) ∧
      ((Stored.squirrelVmGetFloat platform self m idx p storage).1 = sqOk ↔
        (floatValue o).isSome = true) ∧
      ((Stored.squirrelVmGetStringAndSize platform self m idx host p q storage).2.1 = sqOk ↔
        (stringValue platform o).isSome = true) ∧
      ((Stored.squirrelVmGetClosureInfo platform self m idx p q storage).2.1 = sqOk ↔
        (closureValue m o).isSome = true) := by
  intro o
  have one (t : IntType) (found : Option Int) :
      (storeOne platform.order t p storage found).1 = sqOk ↔ found.isSome = true := by
    cases found <;> simp [storeOne, sqOk, sqError]
  refine ⟨one sqBool _, one sqInteger _, one sqFloat _, ?_, ?_⟩
  · rw [Stored.squirrelVmGetStringAndSize, Engine.Stored.sqGetStringAndSize, sqAuxGetTypedArg]
    change _ ↔ (stringValue platform ((m.vms self.vm).stackGet idx)).isSome = true
    cases (m.vms self.vm).stackGet idx <;>
      simp [SQObject.type, stringValue, sqOk, sqError]
  · rw [Stored.squirrelVmGetClosureInfo, Engine.Stored.sqGetClosureInfo, sqGetClosureInfo]
    change _ ↔ (closureValue m ((m.vms self.vm).stackGet idx)).isSome = true
    cases (m.vms self.vm).stackGet idx <;>
      simp [closureValue, sqThrowError, sqOk, sqError]

/-- When the six wrappers keep to the declared bytes and leave the engine's value in them. The two
that declare a `gboolean` have the engine write eight bytes there; the counts of a closure are
signed in the engine and unsigned in the header. -/
theorem out_parameters_right_iff (host : Host) (platform : Platform) (self : SquirrelVm)
    (m : Machine) (idx : Int) (storage : Memory) :
    (∀ b, ToBoolRight platform self m idx storage b ↔ ZeroBehind storage b ∧
      (platform.order = .little ∨ ((m.vms self.vm).stackGet idx).isFalse = true)) ∧
    (∀ b, GetBoolRight platform self m idx storage b ↔
      ∀ word, (m.vms self.vm).stackGet idx = .bool word →
        ZeroBehind storage b ∧ (platform.order = .little ∧ word.toNat < 2 ^ 31 ∨ word = 0)) ∧
    (∀ i, GetIntRight platform self m idx storage i) ∧
    (∀ f, GetFloatRight platform self m idx storage f) ∧
    (∀ s sz, GetStringAndSizeRight host platform self m idx storage s sz ↔
      ∀ text, (m.vms self.vm).stackGet idx = .string text →
        Agree s (encode platform.order 8 (platform.stringval text))
          sz (encode platform.order 8 text.utf8ByteSize)) ∧
    (∀ nparams nfreevars, GetClosureInfoRight platform self m idx storage nparams nfreevars ↔
      ∀ params freevars,
        closureValue m ((m.vms self.vm).stackGet idx) = some (params, freevars) →
          0 ≤ sqInteger.wrap params ∧ 0 ≤ sqInteger.wrap freevars ∧
            Agree nparams (encode platform.order 8 params)
              nfreevars (encode platform.order 8 freevars)) :=
  ⟨fun _ => toBoolRight_iff, fun _ => getBoolRight_iff, getIntRight, getFloatRight,
    fun _ _ => getStringAndSizeRight_iff, fun _ _ => getClosureInfoRight_iff⟩

def littleEndian : Platform := ⟨.little, fun _ => 4096, fun _ => 0⟩

/-- A `gboolean` at address zero with another field right behind it. -/
def withNeighbour : Memory := fun i => if i = 4 then 7 else 0

def closureBelowTrue : Machine :=
  (squirrelVmSetParamsCheck ⟨0⟩ (-2) none
    (squirrelVmNewClosure ⟨0⟩ 5 6 0 (squirrelVmNew 1024 0).1)).1.push 0 (.bool 1)

/-- Both truth getters report true and clear the field behind the `gboolean`; the closure wants
18446744073709551614 parameters, where the engine says minus two. -/
theorem out_parameters_wrong_with_neighbour :
    (withNeighbour 4 = 7 ∧
        Stored.squirrelVmToBool littleEndian ⟨0⟩ closureBelowTrue (-1) 0 withNeighbour 4 = 0 ∧
        ¬ ToBoolRight littleEndian ⟨0⟩ closureBelowTrue (-1) withNeighbour 0) ∧
      ((Stored.squirrelVmGetBool littleEndian ⟨0⟩ closureBelowTrue (-1) 0 withNeighbour).2 4 = 0 ∧
        ¬ GetBoolRight littleEndian ⟨0⟩ closureBelowTrue (-1) withNeighbour 0) ∧
      (closureValue closureBelowTrue ((closureBelowTrue.vms 0).stackGet 1) = some (-2, 1) ∧
        Slot.load .little ⟨0, gulong⟩ (Stored.squirrelVmGetClosureInfo littleEndian ⟨0⟩
          closureBelowTrue 1 0 8 withNeighbour).2.2 = 18446744073709551614 ∧
        ¬ GetClosureInfoRight littleEndian ⟨0⟩ closureBelowTrue 1 withNeighbour 0 8) := by
  have outside : ∀ s ∈ [Slot.mk 0 gboolean], ¬ s.Covers 4 := by
    intro s member
    obtain rfl := List.mem_singleton.mp member
    decide
  refine ⟨⟨by decide, by decide, ?_⟩, ⟨by decide, ?_⟩,
    by decide, by decide, ?_⟩
  · intro right
    exact absurd (right.kept 4 outside) (by decide)
  · intro right
    exact absurd (right.kept 4 outside) (by decide)
  · intro right
    exact absurd (right.decoded _ rfl) (by decide)

end SquirrelGObject.Wrapper
