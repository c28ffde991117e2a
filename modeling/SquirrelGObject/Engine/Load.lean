/- SquirrelGObject/Engine/Load
   digest: Loading a file: byte order marks, bytecode, the compiler, and running what was loaded. -/

import SquirrelGObject.Engine.Call

set_option autoImplicit false
set_option relaxedAutoImplicit false

namespace SquirrelGObject.Engine

open SQVM

inductive LexFeed where
  | plain | ucs2BE | ucs2LE
  deriving DecidableEq, Repr

/-- What loading rests on: the file system, the compiler and the bytecode reader. `fopen` gives
the bytes of a file, the other two a function prototype and a closure, or nothing on failure. -/
structure Loader where
  fopen : String → Option (List UInt8)
  compile : HSQUIRRELVM → LexFeed → List UInt8 → String → Bool → Machine →
    Machine × Option Address
  load : HSQUIRRELVM → List UInt8 → Machine → Machine × Option Address

def sqBytecodeStreamTag : Nat := 0xFAFA

/-- Two bytes read into an `unsigned short` on a little-endian machine. -/
def word (low high : UInt8) : Nat := low.toNat + 256 * high.toNat

def firstWord : List UInt8 → Nat
  | low :: high :: _ => word low high
  | _ => 0

/-- `sq_readclosure` from the start of a file. -/
def sqReadClosure (loader : Loader) (v : HSQUIRRELVM) (bytes : List UInt8) (m : Machine) :
    Machine × Int :=
  match bytes with
  | low :: high :: rest =>
      if word low high ≠ sqBytecodeStreamTag then sqThrowError v "invalid stream" m
      else match loader.load v rest m with
        | (m, some closure) => (m.push v (.closure closure), sqOk)
        | (m, none) => (m, sqError)
  | _ => sqThrowError v "io error" m

/-- `sq_compile`: a closure over the compiled prototype, rooted in the VM's root table. -/
def sqCompile (loader : Loader) (v : HSQUIRRELVM) (read : LexFeed) (bytes : List UInt8)
    (sourcename : String) (raiseerror : Bool) (m : Machine) : Machine × Int :=
  match loader.compile v read bytes sourcename raiseerror m with
  | (m, some proto) =>
      let (m, root) := getWeakRef (m.vms v).rootTable m
      let c := m.nextObject
      let closure : SQClosure :=
        { function := proto, outervalues := [], env := none, root := some root }
      let m := { m.allocObject with closures := Function.update m.closures c closure }
      (m.push v (.closure c), sqOk)
  | (m, none) => (m, sqError)

def sqstdLoadfile (loader : Loader) (v : HSQUIRRELVM) (filename : String) (printerror : Bool)
    (m : Machine) : Machine × Int :=
  match loader.fopen filename with
  | none => sqThrowError v "cannot open the file" m
  | some bytes =>
      if firstWord bytes = sqBytecodeStreamTag then
        -- a bytecode file that does not load is reported without an error text of its own
        let (m, r) := sqReadClosure loader v bytes m
        if 0 ≤ r then (m, sqOk) else (m, sqError)
      else
        let compiled (read : LexFeed) (rest : List UInt8) :=
          let (m, r) := sqCompile loader v read rest filename printerror m
          if 0 ≤ r then (m, sqOk) else (m, sqError)
        if firstWord bytes = 0xFFFE then compiled .ucs2BE (bytes.drop 2)
        else if firstWord bytes = 0xFEFF then compiled .ucs2LE (bytes.drop 2)
        else if firstWord bytes = 0xBBEF then
          match bytes.drop 2 with
          | [] => sqThrowError v "io error" m
          | mark :: rest =>
              if mark ≠ 0xBF then sqThrowError v "Unrecognized encoding" m
              else compiled .plain rest
        else compiled .plain bytes

/-- The text of a source file and how it is fed to the compiler; nothing when its byte order mark
is cut off or unknown. -/
def sourceText (bytes : List UInt8) : Option (LexFeed × List UInt8) :=
  if firstWord bytes = 0xFFFE then some (.ucs2BE, bytes.drop 2)
  else if firstWord bytes = 0xFEFF then some (.ucs2LE, bytes.drop 2)
  else if firstWord bytes = 0xBBEF then
    match bytes.drop 2 with
    | [] => none
    | mark :: rest => if mark ≠ 0xBF then none else some (.plain, rest)
  else some (.plain, bytes)

/-- The file opens, and the bytecode reader or the compiler accepts what it holds. -/
def Loader.loads (loader : Loader) (v : HSQUIRRELVM) (filename : String) (printerror : Bool)
    (m : Machine) : Bool :=
  match loader.fopen filename with
  | none => false
  | some bytes =>
      if firstWord bytes = sqBytecodeStreamTag then (loader.load v (bytes.drop 2) m).2.isSome
      else match sourceText bytes with
        | none => false
        | some (read, text) => (loader.compile v read text filename printerror m).2.isSome

/-- `sqstd_dofile`: one on success, the error code otherwise. -/
def sqstdDofile (rt : Runtime) (loader : Loader) (v : HSQUIRRELVM) (filename : String)
    (retval printerror : Bool) (m : Machine) : Machine × Int :=
  if (m.vms v).getTop = 0 then sqThrowError v "environment table expected" m
  else
    let (m, loaded) := sqstdLoadfile loader v filename printerror m
    if 0 ≤ loaded then
      let (m, called) := sqCall rt v 1 retval true (sqPush v (-2) m)
      if 0 ≤ called then (sqRemove v (if retval then -2 else -1) m, 1)
      else (sqPop v 1 m, sqError)
    else (m, sqError)

/-- The compiler and the bytecode reader leave the frame of the VM they run on where it was. -/
structure Loader.KeepsPlace (loader : Loader) (v : HSQUIRRELVM) : Prop where
  compile : ∀ read bytes name raise m,
    SamePlace (m.vms v) ((loader.compile v read bytes name raise m).1.vms v)
  load : ∀ bytes m, SamePlace (m.vms v) ((loader.load v bytes m).1.vms v)

/-- Where loading leaves the frame: one closure higher on success, unmoved on failure. -/
structure LoadPlace (vm vm' : SQVM) (result : Int) : Prop where
  stackBase : vm'.stackBase = vm.stackBase
  suspended : vm'.suspended = vm.suspended
  outcome : (result = sqOk ∧ vm'.top = vm.top + 1 ∧ ∃ c, vm'.stack vm.top = .closure c) ∨
    (result = sqError ∧ vm'.top = vm.top)

variable {loader : Loader} {v : HSQUIRRELVM}

private theorem sqThrowError_place (err : String) (m : Machine) :
    LoadPlace (m.vms v) ((sqThrowError v err m).1.vms v) (sqThrowError v err m).2 := by
  rw [sqThrowError, Machine.raise, Machine.onVM_self]
  exact ⟨rfl, rfl, .inr ⟨rfl, rfl⟩⟩

theorem LoadPlace.pushed {vm vm' : SQVM} (same : SamePlace vm vm') (c : Address) :
    LoadPlace vm (vm'.push (.closure c)) sqOk :=
  ⟨same.stackBase, same.suspended, .inl ⟨rfl, by rw [push_top, same.top], c,
    by rw [push_stack, same.top, Function.update_self]⟩⟩

theorem LoadPlace.refused {vm vm' : SQVM} (same : SamePlace vm vm') : LoadPlace vm vm' sqError :=
  ⟨same.stackBase, same.suspended, .inr ⟨rfl, same.top⟩⟩

private theorem sqReadClosure_place (keeps : loader.KeepsPlace v) (bytes : List UInt8) (m : Machine)
    :
    LoadPlace (m.vms v) ((sqReadClosure loader v bytes m).1.vms v)
      (sqReadClosure loader v bytes m).2 := by
  unfold sqReadClosure
  split
  · rename_i low high rest
    split
    · exact sqThrowError_place _ _
    · have same := keeps.load rest m
      split <;> rename_i m' _ found <;> rw [found] at same
      · rw [Machine.push, Machine.onVM_self]
        exact LoadPlace.pushed same _
      · exact LoadPlace.refused same
  · exact sqThrowError_place _ _

private theorem sqCompile_place (keeps : loader.KeepsPlace v) (read : LexFeed) (bytes : List UInt8)
    (sourcename : String) (raiseerror : Bool) (m : Machine) :
    LoadPlace (m.vms v) ((sqCompile loader v read bytes sourcename raiseerror m).1.vms v)
      (sqCompile loader v read bytes sourcename raiseerror m).2 := by
  have same := keeps.compile read bytes sourcename raiseerror m
  rw [sqCompile]
  split <;> rename_i m' _ found <;> rw [found] at same
  · dsimp only
    rw [Machine.push, Machine.onVM_self]
    refine LoadPlace.pushed (same.trans ?_) _
    change SamePlace (m'.vms v) ((getWeakRef (m'.vms v).rootTable m').1.vms v)
    rw [getWeakRef_vms]
    exact SamePlace.refl _
  · exact LoadPlace.refused same

private theorem loadPlace_passed_on {vm : SQVM} {r : Machine × Int}
    (place : LoadPlace vm (r.1.vms v) r.2) :
    LoadPlace vm ((if 0 ≤ r.2 then (r.1, sqOk) else (r.1, sqError)).1.vms v)
      (if 0 ≤ r.2 then (r.1, sqOk) else (r.1, sqError)).2 := by
  obtain ⟨base, suspended, ⟨ok, top⟩ | ⟨error, top⟩⟩ := place
  · rw [if_pos (by rw [ok]; decide)]
    exact ⟨base, suspended, .inl ⟨rfl, top⟩⟩
  · rw [if_neg (by rw [error]; decide)]
    exact ⟨base, suspended, .inr ⟨rfl, top⟩⟩

theorem sqstdLoadfile_place (keeps : loader.KeepsPlace v) (filename : String) (printerror : Bool)
    (m : Machine) :
    LoadPlace (m.vms v) ((sqstdLoadfile loader v filename printerror m).1.vms v)
      (sqstdLoadfile loader v filename printerror m).2 := by
  have compiled (read : LexFeed) (rest : List UInt8) :=
    loadPlace_passed_on (sqCompile_place keeps read rest filename printerror m)
  rw [sqstdLoadfile]
  split
  · exact sqThrowError_place _ _
  · rename_i bytes _
    dsimp only
    split
    · exact loadPlace_passed_on (sqReadClosure_place keeps bytes m)
    · split
      · exact compiled _ _
      · split
        · exact compiled _ _
        · split
          · split
            · exact sqThrowError_place _ _
            · split
              · exact sqThrowError_place _ _
              · exact compiled _ _
          · exact compiled _ _

/-- Loading answers success exactly when something was loaded, and then a closure is on top. -/
structure LoadOutcome (v : HSQUIRRELVM) (loads : Bool) (r : Machine × Int) : Prop where
  result : 0 ≤ r.2 ↔ loads = true
  closure : loads = true → ∃ c, (r.1.vms v).stackGet (-1) = .closure c

private theorem loadOutcome_refused (m : Machine) : LoadOutcome v false (m, sqError) :=
  ⟨iff_of_false sqError_failed Bool.false_ne_true, fun loaded => absurd loaded Bool.false_ne_true⟩

private theorem loadOutcome_pushed (c : Address) (m : Machine) :
    LoadOutcome v true (m.push v (.closure c), sqOk) := by
  refine ⟨iff_of_true sqOk_succeeded rfl, fun _ => ⟨c, ?_⟩⟩
  rw [Machine.push, Machine.onVM_self, push_stackGet]

private theorem loadOutcome_passed_on {loads : Bool} {r : Machine × Int}
    (outcome : LoadOutcome v loads r) :
    LoadOutcome v loads (if 0 ≤ r.2 then (r.1, sqOk) else (r.1, sqError)) := by
  obtain ⟨result, closure⟩ := outcome
  by_cases loaded : 0 ≤ r.2
  · rw [if_pos loaded]
    exact ⟨iff_of_true sqOk_succeeded (result.mp loaded), closure⟩
  · rw [if_neg loaded]
    exact ⟨iff_of_false sqError_failed fun done => loaded (result.mpr done), closure⟩

private theorem sqReadClosure_outcome {bytes : List UInt8}
    (tagged : firstWord bytes = sqBytecodeStreamTag) (m : Machine) :
    LoadOutcome v (loader.load v (bytes.drop 2) m).2.isSome (sqReadClosure loader v bytes m) := by
  match bytes with
  | [] | [_] => cases tagged
  | low :: high :: rest =>
      change word low high = sqBytecodeStreamTag at tagged
      rw [sqReadClosure, if_neg (not_not.mpr tagged)]
      change LoadOutcome v (loader.load v rest m).2.isSome _
      rcases loader.load v rest m with ⟨m', _ | c⟩
      · exact loadOutcome_refused m'
      · exact loadOutcome_pushed c m'

private theorem sqCompile_outcome (loader : Loader) (v : HSQUIRRELVM) (read : LexFeed)
    (text : List UInt8) (sourcename : String) (raiseerror : Bool) (m : Machine) :
    LoadOutcome v (loader.compile v read text sourcename raiseerror m).2.isSome
      (sqCompile loader v read text sourcename raiseerror m) := by
  rw [sqCompile]
  rcases loader.compile v read text sourcename raiseerror m with ⟨m', _ | proto⟩
  · exact loadOutcome_refused m'
  · exact loadOutcome_pushed _ _

theorem sqstdLoadfile_outcome (filename : String) (printerror : Bool) (m : Machine) :
    LoadOutcome v (loader.loads v filename printerror m)
      (sqstdLoadfile loader v filename printerror m) := by
  rw [sqstdLoadfile, Loader.loads]
  cases loader.fopen filename with
  | none => exact loadOutcome_refused _
  | some bytes =>
      dsimp only
      by_cases tagged : firstWord bytes = sqBytecodeStreamTag
      · rw [if_pos tagged, if_pos tagged]
        exact loadOutcome_passed_on (sqReadClosure_outcome tagged m)
      · have compiled (read : LexFeed) (text : List UInt8) :=
          loadOutcome_passed_on (sqCompile_outcome loader v read text filename printerror m)
        rw [if_neg tagged, if_neg tagged, sourceText]
        by_cases big : firstWord bytes = 0xFFFE
        · rw [if_pos big, if_pos big]
          exact compiled _ _
        rw [if_neg big, if_neg big]
        by_cases little : firstWord bytes = 0xFEFF
        · rw [if_pos little, if_pos little]
          exact compiled _ _
        rw [if_neg little, if_neg little]
        by_cases utf8 : firstWord bytes = 0xBBEF
        · rw [if_pos utf8, if_pos utf8]
          cases bytes.drop 2 with
          | nil => exact loadOutcome_refused _
          | cons mark rest =>
              dsimp only
              by_cases bad : mark ≠ 0xBF
              · rw [if_pos bad, if_pos bad]
                exact loadOutcome_refused _
              · rw [if_neg bad, if_neg bad]
                exact compiled _ _
        · rw [if_neg utf8, if_neg utf8]
          exact compiled _ _

end SquirrelGObject.Engine
