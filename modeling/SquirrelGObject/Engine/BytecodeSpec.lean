/- SquirrelGObject/Engine/BytecodeSpec
   digest: What is written is read back, a cut stream is refused, and what is accepted is a written stream. -/

import SquirrelGObject.Engine.Bytecode

set_option autoImplicit false
set_option relaxedAutoImplicit false

namespace SquirrelGObject.Engine.Bytecode

open Lib.Bytes Lib.Streams

variable {order : ByteOrder} {memory : Nat} {junk : UInt32}

section Format

variable (order : ByteOrder)

def payloadBytes : SQLiteral → List UInt8
  | .string bytes => word64 order (UInt64.ofNat bytes.length) ++ bytes
  | .bool word | .integer word => word64 order word
  | .float bits => word32 order bits
  | .null | .other _ _ => []

def objectBytes (o : SQLiteral) : List UInt8 :=
  word32 order (UInt32.ofNat o.type.code) ++ payloadBytes order o

def outerBytes (v : SQOuterVar) : List UInt8 :=
  (word32 order v.type ++ word32 order v.padding) ++ (objectBytes order v.src ++
    objectBytes order v.name)

def localBytes (lvi : SQLocalVarInfo) : List UInt8 :=
  objectBytes order lvi.name ++ (word64 order lvi.pos ++ (word64 order lvi.startOp ++
    word64 order lvi.endOp))

def countBytes (n : Nat) : List UInt8 := word64 order (UInt64.ofNat n)

def dataBytes (f : ProtoData) (nfunctions : Nat) : List UInt8 :=
  word32 order streamPart ++ (objectBytes order f.sourcename ++ (objectBytes order f.name ++
    (word32 order streamPart ++ (countBytes order f.literals.length ++
      (countBytes order f.parameters.length ++ (countBytes order f.outervalues.length ++
        (countBytes order f.localvarinfos.length ++ (countBytes order f.lineinfos.length ++
          (countBytes order f.defaultparams.length ++ (countBytes order f.instructions.length ++
            (countBytes order nfunctions ++ (word32 order streamPart ++
    (f.literals.flatMap (objectBytes order) ++ (word32 order streamPart ++
    (f.parameters.flatMap (objectBytes order) ++ (word32 order streamPart ++
    (f.outervalues.flatMap (outerBytes order) ++ (word32 order streamPart ++
    (f.localvarinfos.flatMap (localBytes order) ++ (word32 order streamPart ++
    (f.lineinfos.flatMap (lineInfoBytes order) ++ (word32 order streamPart ++
    (f.defaultparams.flatMap (word64 order) ++ (word32 order streamPart ++
    (f.instructions.flatMap (instructionBytes order) ++ word32 order streamPart
    )))))))))))))))))))))))))

def endBytes (f : ProtoData) : List UInt8 :=
  word64 order f.stacksize ++ ([f.bgenerator] ++ word64 order f.varparams)

mutual

def protoBytes : SQFunctionProto → List UInt8
  | .mk data functions =>
      dataBytes order data functions.length ++ (functionsBytes functions ++ endBytes order data)

def functionsBytes : List SQFunctionProto → List UInt8
  | [] => []
  | f :: functions => protoBytes f ++ functionsBytes functions

end

def closureBytes (f : SQFunctionProto) : List UInt8 :=
  word32 order streamHead ++ (word32 order sizeOfSQChar ++ (word32 order sizeOfSQInteger ++
    (word32 order sizeOfSQFloat ++ (protoBytes order f ++ word32 order streamTail))))

def streamBytes (f : SQFunctionProto) : List UInt8 :=
  encode order 2 streamTag ++ closureBytes order f

end Format

section Trees

mutual

def SQFunctionProto.All (P : ProtoData → Nat → Prop) : SQFunctionProto → Prop
  | .mk data functions => P data functions.length ∧ allFunctions P functions

def allFunctions (P : ProtoData → Nat → Prop) : List SQFunctionProto → Prop
  | [] => True
  | f :: functions => f.All P ∧ allFunctions P functions

end

mutual

def SQFunctionProto.depth : SQFunctionProto → Nat
  | .mk _ functions => depthOf functions + 1

def depthOf : List SQFunctionProto → Nat
  | [] => 0
  | f :: functions => max f.depth (depthOf functions)

end

/-- Every value of the prototype has a form in the stream. -/
def ProtoData.EveryObject (P : SQLiteral → Prop) (f : ProtoData) : Prop :=
  P f.sourcename ∧ P f.name ∧ (∀ o ∈ f.literals, P o) ∧ (∀ o ∈ f.parameters, P o) ∧
    (∀ v ∈ f.outervalues, P v.src ∧ P v.name) ∧ ∀ lvi ∈ f.localvarinfos, P lvi.name

def SQLiteral.Serializable (o : SQLiteral) : Prop := o.type ∈ storable

end Trees

section Saving

private theorem saves_safeWrite (bytes : List UInt8) :
    Saves .writeFailure (safeWrite bytes) bytes True :=
  (writes_put bytes).saves

private theorem saves_writeTag (order : ByteOrder) (tag : UInt32) :
    Saves .writeFailure (writeTag order tag) (word32 order tag) True :=
  saves_safeWrite _

private theorem saves_writeCount (order : ByteOrder) (n : Nat) :
    Saves .writeFailure (writeCount order n) (countBytes order n) True :=
  saves_safeWrite _

private theorem saves_writeObject (order : ByteOrder) (o : SQLiteral) :
    Saves .writeFailure (writeObject order o) (objectBytes order o) o.Serializable := by
  have type := saves_safeWrite (word32 order (UInt32.ofNat o.type.code))
  cases o with
  | string bytes =>
      refine (type.seq ((saves_safeWrite _).seq (saves_safeWrite bytes))).of_iff ?_
      simp [SQLiteral.Serializable, SQLiteral.type, storable]
  | integer word =>
      refine (type.seq (saves_safeWrite (word64 order word))).of_iff ?_
      simp [SQLiteral.Serializable, SQLiteral.type, storable]
  | bool word =>
      refine (type.seq (saves_safeWrite (word64 order word))).of_iff ?_
      simp [SQLiteral.Serializable, SQLiteral.type, storable]
  | float bits =>
      refine (type.seq (saves_safeWrite (word32 order bits))).of_iff ?_
      simp [SQLiteral.Serializable, SQLiteral.type, storable]
  | null =>
      refine (type.seq writes_pure.saves).of_iff ?_
      simp [SQLiteral.Serializable, SQLiteral.type, storable]
  | other t kind =>
      have never : Saves StreamError.writeFailure
          (abort (.cannotSerialize (some t.name)) : Save) [] False :=
        ⟨False.elim, fun _ => ⟨[], _, writes_abort⟩⟩
      refine (type.seq never).of_iff ?_
      simp [SQLiteral.Serializable, SQLiteral.type, kind]

private theorem saves_writeOuterVar (order : ByteOrder) (v : SQOuterVar) :
    Saves .writeFailure (writeOuterVar order v) (outerBytes order v)
      (v.src.Serializable ∧ v.name.Serializable) := by
  refine ((saves_safeWrite _).seq ((saves_writeObject order v.src).seq
    (saves_writeObject order v.name))).of_iff ?_
  simp

private theorem saves_writeLocalVarInfo (order : ByteOrder) (lvi : SQLocalVarInfo) :
    Saves .writeFailure (writeLocalVarInfo order lvi) (localBytes order lvi)
      lvi.name.Serializable := by
  refine ((saves_writeObject order lvi.name).seq ((saves_safeWrite _).seq
    ((saves_safeWrite _).seq (saves_safeWrite _)))).of_iff ?_
  simp

private theorem saves_saveData (order : ByteOrder) (f : ProtoData) (nfunctions : Nat) :
    Saves .writeFailure (saveData order f nfunctions) (dataBytes order f nfunctions)
      (f.EveryObject SQLiteral.Serializable) := by
  have tag := saves_writeTag order streamPart
  have object := saves_writeObject order
  have count := saves_writeCount order
  have raw := saves_safeWrite
  have literals := saves_each (l := f.literals) fun o _ => object o
  have parameters := saves_each (l := f.parameters) fun o _ => object o
  have outers := saves_each (l := f.outervalues) fun v _ => saves_writeOuterVar order v
  have locals := saves_each (l := f.localvarinfos) fun v _ => saves_writeLocalVarInfo order v
  -- The prototype is put together from its end: the arrays, the counts in front of them, the names.
  have fromInstructions := tag.seq ((raw (f.instructions.flatMap (instructionBytes order))).seq tag)
  have fromDefaults := tag.seq ((raw (f.defaultparams.flatMap (word64 order))).seq fromInstructions)
  have fromLines := tag.seq ((raw (f.lineinfos.flatMap (lineInfoBytes order))).seq fromDefaults)
  have fromLocals := tag.seq (locals.seq fromLines)
  have fromOuters := tag.seq (outers.seq fromLocals)
  have fromParameters := tag.seq (parameters.seq fromOuters)
  have fromLiterals := tag.seq (literals.seq fromParameters)
  have fromLastCounts := (count f.lineinfos.length).seq ((count f.defaultparams.length).seq
    ((count f.instructions.length).seq ((count nfunctions).seq fromLiterals)))
  have fromCounts := (count f.literals.length).seq ((count f.parameters.length).seq
    ((count f.outervalues.length).seq ((count f.localvarinfos.length).seq fromLastCounts)))
  have whole := tag.seq ((object f.sourcename).seq ((object f.name).seq (tag.seq fromCounts)))
  refine whole.of_iff ?_
  simp only [ProtoData.EveryObject, true_and, and_true]

private theorem saves_saveEnd (order : ByteOrder) (f : ProtoData) :
    Saves .writeFailure (saveEnd order f) (endBytes order f) True := by
  refine ((saves_safeWrite _).seq ((saves_safeWrite _).seq (saves_safeWrite _))).of_iff ?_
  simp

mutual

/-- A prototype is written in its form when all values in its tree have one; otherwise the writing
stops. -/
private theorem saves_saveProto (order : ByteOrder) : ∀ f : SQFunctionProto,
    Saves .writeFailure (saveProto order f) (protoBytes order f)
      (f.All fun data _ => data.EveryObject SQLiteral.Serializable)
  | .mk data functions => by
      rw [saveProto, protoBytes]
      refine ((saves_saveData order data functions.length).seq
        ((saves_saveFunctions order functions).seq (saves_saveEnd order data))).of_iff ?_
      rw [SQFunctionProto.All, and_true]

private theorem saves_saveFunctions (order : ByteOrder) : ∀ functions : List SQFunctionProto,
    Saves .writeFailure (saveFunctions order functions) (functionsBytes order functions)
      (allFunctions (fun data _ => data.EveryObject SQLiteral.Serializable) functions)
  | [] => by
      rw [saveFunctions, functionsBytes, allFunctions]
      exact writes_pure.saves
  | f :: functions => by
      rw [saveFunctions, functionsBytes, allFunctions]
      exact (saves_saveProto order f).seq (saves_saveFunctions order functions)

end

/-- Every value in the tree of prototypes has a form in the stream. -/
def SQFunctionProto.Serializable (f : SQFunctionProto) : Prop :=
  f.All fun data _ => data.EveryObject SQLiteral.Serializable

private theorem saves_saveClosure (order : ByteOrder) (f : SQFunctionProto) :
    Saves .writeFailure (saveClosure order f) (closureBytes order f) f.Serializable := by
  have tag := saves_writeTag order
  refine ((tag _).seq ((tag _).seq ((tag _).seq ((tag _).seq ((saves_saveProto order f).seq
    (tag _)))))).of_iff ?_
  simp [SQFunctionProto.Serializable]

end Saving

section Words

private theorem word32_length (order : ByteOrder) (n : UInt32) : (word32 order n).length = 4 :=
  encode_length order 4 _

private theorem word64_length (order : ByteOrder) (n : UInt64) : (word64 order n).length = 8 :=
  encode_length order 8 _

private theorem unsigned_word32 (order : ByteOrder) (n : UInt32) :
    unsigned order (word32 order n) = n.toNat := by
  have value := unsigned_encode order 4 n.toNat
  have bound := n.toNat_lt
  rw [word32]
  norm_num at value bound ⊢
  omega

private theorem unsigned_word64 (order : ByteOrder) (n : UInt64) :
    unsigned order (word64 order n) = n.toNat := by
  have value := unsigned_encode order 8 n.toNat
  have bound := n.toNat_lt
  rw [word64]
  norm_num at value bound ⊢
  omega

private theorem toWord32_word32 (order : ByteOrder) (n : UInt32) :
    toWord32 order (word32 order n) = n := by
  rw [toWord32, unsigned_word32, UInt32.ofNat_toNat]

private theorem toWord64_word64 (order : ByteOrder) (n : UInt64) :
    toWord64 order (word64 order n) = n := by
  rw [toWord64, unsigned_word64, UInt64.ofNat_toNat]

private theorem word32_toWord32 (order : ByteOrder) {bytes : List UInt8} (length : bytes.length = 4)
    :
    word32 order (toWord32 order bytes) = bytes := by
  apply unsigned_injective order ((word32_length order _).trans length.symm)
  have value := unsigned_encode order 4 (toWord32 order bytes).toNat
  have bound := unsigned_lt order length
  have back : (toWord32 order bytes).toNat = unsigned order bytes := by
    rw [toWord32, UInt32.toNat_ofNat']
    norm_num at bound ⊢
    omega
  rw [word32]
  rw [back] at value ⊢
  norm_num at value bound ⊢
  omega

private theorem word64_toWord64 (order : ByteOrder) {bytes : List UInt8} (length : bytes.length = 8)
    :
    word64 order (toWord64 order bytes) = bytes := by
  apply unsigned_injective order ((word64_length order _).trans length.symm)
  have value := unsigned_encode order 8 (toWord64 order bytes).toNat
  have bound := unsigned_lt order length
  have back : (toWord64 order bytes).toNat = unsigned order bytes := by
    rw [toWord64, UInt64.toNat_ofNat']
    norm_num at bound ⊢
    omega
  rw [word64]
  rw [back] at value ⊢
  norm_num at value bound ⊢
  omega

end Words

section Reloading

/-- A free variable as it comes back from the stream. Of the eight bytes written for the type the
reader keeps the four low ones: the type on a little-endian machine, the padding on a big-endian
one. -/
def SQOuterVar.reload (order : ByteOrder) (junk : UInt32) (v : SQOuterVar) : SQOuterVar :=
  { v with
    type := match order with
      | .little => v.type
      | .big => v.padding
    padding := junk }

def ProtoData.reload (order : ByteOrder) (junk : UInt32) (f : ProtoData) : ProtoData :=
  { f with outervalues := f.outervalues.map (SQOuterVar.reload order junk) }

mutual

def SQFunctionProto.reload (order : ByteOrder) (junk : UInt32) : SQFunctionProto → SQFunctionProto
  | .mk data functions => .mk (data.reload order junk) (reloadFunctions order junk functions)

def reloadFunctions (order : ByteOrder) (junk : UInt32) :
    List SQFunctionProto → List SQFunctionProto
  | [] => []
  | f :: functions => f.reload order junk :: reloadFunctions order junk functions

end

def SQLiteral.Portable (memory : Nat) : SQLiteral → Prop
  | .string bytes => bytes.length ≤ memory
  | .other _ _ => False
  | _ => True

def SQLiteral.Fits (memory : Nat) : SQLiteral → Prop
  | .string bytes => bytes.length ≤ memory
  | _ => True

/-- The values of a prototype have the property, and its arrays fit into memory. -/
structure ProtoData.Within (P : SQLiteral → Prop) (memory : Nat) (f : ProtoData)
    (nfunctions : Nat) : Prop where
  objects : f.EveryObject P
  literals : f.literals.length ≤ memory
  parameters : f.parameters.length ≤ memory
  outervalues : f.outervalues.length ≤ memory
  localvarinfos : f.localvarinfos.length ≤ memory
  lineinfos : f.lineinfos.length ≤ memory
  defaultparams : f.defaultparams.length ≤ memory
  instructions : f.instructions.length ≤ memory
  functions : nfunctions ≤ memory

/-- The whole tree can be read back by a machine with so much memory. -/
def SQFunctionProto.Portable (memory : Nat) (f : SQFunctionProto) : Prop :=
  f.All (ProtoData.Within (SQLiteral.Portable memory) memory)

/-- The whole tree fits into memory. -/
def SQFunctionProto.Fits (memory : Nat) (f : SQFunctionProto) : Prop :=
  f.All (ProtoData.Within (SQLiteral.Fits memory) memory)

end Reloading

section Loading

private theorem toWord64_pair (order : ByteOrder) (a b : UInt32) :
    (toWord64 order (word32 order a ++ word32 order b)).toUInt32 =
      match order with
      | .little => a
      | .big => b := by
  have first := unsigned_word32 order a
  have second := unsigned_word32 order b
  have length := word32_length order
  apply UInt32.toNat_inj.mp
  rw [toWord64, UInt64.toNat_toUInt32, UInt64.toNat_ofNat']
  have bound := a.toNat_lt
  have bound' := b.toNat_lt
  cases order with
  | little =>
      simp only [unsigned, ByteOrder.arrange, List.map_append, Nat.ofDigits_append,
        List.length_map, length] at first second ⊢
      rw [first, second]
      norm_num at bound bound' ⊢
  | big =>
      simp only [unsigned, ByteOrder.arrange, List.reverse_append, List.map_append,
        Nat.ofDigits_append, List.length_map, List.length_reverse, length] at first second ⊢
      rw [first, second]
      norm_num at bound bound' ⊢

private theorem reads_safeRead (bytes : List UInt8) :
    Reads .readFailure (safeRead bytes.length) bytes bytes := by
  rw [safeRead]
  split_ifs with none
  · rw [List.length_eq_zero_iff] at none
    subst none
    exact reads_pure []
  · exact reads_take bytes

private theorem reads_word32 (order : ByteOrder) (n : UInt32) :
    Reads .readFailure (readWord32 order) (word32 order n) n := by
  have bytes := reads_safeRead (word32 order n)
  rw [word32_length] at bytes
  have value := bytes.map (toWord32 order)
  rwa [toWord32_word32] at value

private theorem reads_word64 (order : ByteOrder) (n : UInt64) :
    Reads .readFailure (readWord64 order) (word64 order n) n := by
  have bytes := reads_safeRead (word64 order n)
  rw [word64_length] at bytes
  have value := bytes.map (toWord64 order)
  rwa [toWord64_word64] at value

private theorem reads_checkTag (order : ByteOrder) (tag : UInt32) :
    Reads .readFailure (checkTag order tag) (word32 order tag) () := by
  rw [checkTag, ← List.append_nil (word32 order tag)]
  refine (reads_word32 order tag).bind ?_
  rw [if_neg (not_not.mpr rfl)]
  exact reads_pure ()

private theorem reads_allocate (small : memory < UInt64.size) {n : Nat} (fits : n ≤ memory) :
    Reads .readFailure (allocate memory (UInt64.ofNat n)) [] n := by
  have value : (UInt64.ofNat n).toNat = n := by
    rw [UInt64.toNat_ofNat', Nat.mod_eq_of_lt]
    exact lt_of_le_of_lt fits small
  rw [allocate, value, if_pos fits]
  exact reads_pure n

private theorem storableCase_code (t : SQObjectType) :
    storableCase (UInt32.ofNat t.code) = if t ∈ storable then some t else none := by
  cases t <;> decide

private theorem reads_object (order : ByteOrder) (small : memory < UInt64.size) {o : SQLiteral}
    (portable : o.Portable memory) :
    Reads .readFailure (readObject order memory) (objectBytes order o) o := by
  rw [readObject, objectBytes]
  refine (reads_word32 order _).bind ?_
  rw [storableCase_code]
  cases o with
  | string bytes =>
      refine (reads_word64 order _).bind ?_
      refine (reads_allocate small portable).silent ?_
      exact (reads_safeRead bytes).map SQLiteral.string
  | integer word => exact (reads_word64 order word).map SQLiteral.integer
  | bool word => exact (reads_word64 order word).map SQLiteral.bool
  | float bits => exact (reads_word32 order bits).map SQLiteral.float
  | null => exact reads_pure SQLiteral.null
  | other t kind => exact absurd portable id

private theorem reads_outerVar (order : ByteOrder) (junk : UInt32) (small : memory < UInt64.size)
    {v : SQOuterVar} (portable : v.src.Portable memory ∧ v.name.Portable memory) :
    Reads .readFailure (readOuterVar order memory junk) (outerBytes order v)
      (v.reload order junk) := by
  have pair : Reads .readFailure (readWord64 order) (word32 order v.type ++ word32 order v.padding)
      (toWord64 order (word32 order v.type ++ word32 order v.padding)) := by
    have bytes := reads_safeRead (word32 order v.type ++ word32 order v.padding)
    rw [List.length_append, word32_length, word32_length] at bytes
    exact bytes.map (toWord64 order)
  have same : v.reload order junk = { type := (toWord64 order (word32 order v.type ++
      word32 order v.padding)).toUInt32, padding := junk, name := v.name, src := v.src } := by
    rw [toWord64_pair]
    rfl
  rw [readOuterVar, outerBytes, same]
  refine pair.bind ?_
  refine (reads_object order small portable.1).bind ?_
  exact (reads_object order small portable.2).map _

private theorem reads_localVarInfo (order : ByteOrder) (small : memory < UInt64.size)
    {lvi : SQLocalVarInfo} (portable : lvi.name.Portable memory) :
    Reads .readFailure (readLocalVarInfo order memory) (localBytes order lvi) lvi := by
  rw [readLocalVarInfo, localBytes]
  refine (reads_object order small portable).bind ?_
  refine (reads_word64 order _).bind ?_
  refine (reads_word64 order _).bind ?_
  exact (reads_word64 order _).map _

private theorem toArray_flatMap {α : Type} {size : Nat} {bytes : α → List UInt8}
    {toRecord : List UInt8 → α} (sized : ∀ x, (bytes x).length = size)
    (back : ∀ x, toRecord (bytes x) = x) (l : List α) :
    toArray size toRecord l.length (l.flatMap bytes) = l := by
  induction l with
  | nil => rfl
  | cons x l ih =>
      rw [List.flatMap_cons, List.length_cons, toArray, List.take_left' (sized x),
        List.drop_left' (sized x), back, ih]

private theorem length_flatMap {α : Type} {size : Nat} {bytes : α → List UInt8}
    (sized : ∀ x, (bytes x).length = size) (l : List α) :
    (l.flatMap bytes).length = size * l.length := by
  induction l with
  | nil => rfl
  | cons x l ih =>
      rw [List.flatMap_cons, List.length_append, sized, ih, List.length_cons, Nat.mul_succ]
      omega

private theorem reads_array {α : Type} {size : Nat} {bytes : α → List UInt8}
    {toRecord : List UInt8 → α} (sized : ∀ x, (bytes x).length = size)
    (back : ∀ x, toRecord (bytes x) = x) (l : List α) :
    Reads .readFailure (readArray size toRecord l.length) (l.flatMap bytes) l := by
  have whole := reads_safeRead (l.flatMap bytes)
  rw [length_flatMap sized] at whole
  have value := whole.map (toArray size toRecord l.length)
  rwa [toArray_flatMap sized back] at value

private theorem lineInfoBytes_length (order : ByteOrder) (info : SQLineInfo) :
    (lineInfoBytes order info).length = 16 := by
  rw [lineInfoBytes, List.length_append, word64_length, word64_length]

private theorem toLineInfo_lineInfoBytes (order : ByteOrder) (info : SQLineInfo) :
    toLineInfo order (lineInfoBytes order info) = info := by
  rw [toLineInfo, lineInfoBytes, List.take_left' (word64_length order _),
    List.drop_left' (word64_length order _), toWord64_word64, toWord64_word64]

private theorem instructionBytes_length (order : ByteOrder) (i : SQInstruction) :
    (instructionBytes order i).length = 8 := by
  rw [instructionBytes, List.length_append, word32_length]
  rfl

private theorem toInstruction_instructionBytes (order : ByteOrder) (i : SQInstruction) :
    toInstruction order (instructionBytes order i) = i := by
  have length := word32_length order i.arg1
  have arg1 : toWord32 order ((instructionBytes order i).take 4) = i.arg1 := by
    rw [instructionBytes, List.take_left' length, toWord32_word32]
  rw [toInstruction, arg1, instructionBytes]
  simp [length]

mutual

private theorem reads_loadProto (order : ByteOrder) (junk : UInt32) (small : memory < UInt64.size) :
    ∀ (f : SQFunctionProto) (depth : Nat), f.Portable memory → f.depth ≤ depth →
      Reads .readFailure (loadProto order memory junk depth) (protoBytes order f)
        (f.reload order junk)
  | .mk data functions, depth, portable, deep => by
      rw [SQFunctionProto.Portable, SQFunctionProto.All] at portable
      obtain ⟨here, below⟩ := portable
      obtain ⟨sourcename, name, literals, parameters, outers, locals⟩ := here.objects
      rw [SQFunctionProto.depth] at deep
      obtain ⟨depth, rfl⟩ : ∃ d, depth = d + 1 := ⟨depth - 1, by omega⟩
      have object := fun {o} => reads_object order small (o := o)
      have tag := reads_checkTag order streamPart
      have word := reads_word64 order
      have room := fun {n} => reads_allocate small (n := n)
      rw [loadProto, protoBytes, dataBytes, endBytes, SQFunctionProto.reload, ProtoData.reload]
      simp only [List.append_assoc]
      refine tag.bind ?_
      refine (object sourcename).bind ?_
      refine (object name).bind ?_
      refine tag.bind ?_
      refine (word _).bind ?_
      refine (word _).bind ?_
      refine (word _).bind ?_
      refine (word _).bind ?_
      refine (word _).bind ?_
      refine (word _).bind ?_
      refine (word _).bind ?_
      refine (word _).bind ?_
      refine (room here.literals).silent ?_
      refine (room here.parameters).silent ?_
      refine (room here.outervalues).silent ?_
      refine (room here.localvarinfos).silent ?_
      refine (room here.lineinfos).silent ?_
      refine (room here.defaultparams).silent ?_
      refine (room here.instructions).silent ?_
      refine (room here.functions).silent ?_
      refine tag.bind ?_
      refine (reads_times fun o member => object (literals o member)).bind ?_
      refine tag.bind ?_
      refine (reads_times fun o member => object (parameters o member)).bind ?_
      refine tag.bind ?_
      refine (reads_times fun v member => reads_outerVar order junk small (outers v member)).bind ?_
      refine tag.bind ?_
      refine (reads_times fun v member => reads_localVarInfo order small (locals v member)).bind ?_
      refine tag.bind ?_
      refine (reads_array (lineInfoBytes_length order) (toLineInfo_lineInfoBytes order) _).bind ?_
      refine tag.bind ?_
      refine (reads_array (word64_length order) (toWord64_word64 order) _).bind ?_
      refine tag.bind ?_
      refine (reads_array (instructionBytes_length order)
        (toInstruction_instructionBytes order) _).bind ?_
      refine tag.bind ?_
      refine (reads_loadFunctions order junk small functions depth below (by omega)).bind ?_
      refine (word _).bind ?_
      refine (reads_safeRead [data.bgenerator]).bind ?_
      have last := (word data.varparams).map fun varparams => SQFunctionProto.mk
        { data with
          outervalues := data.outervalues.map (SQOuterVar.reload order junk)
          varparams := varparams } (reloadFunctions order junk functions)
      simpa using last

private theorem reads_loadFunctions (order : ByteOrder) (junk : UInt32)
    (small : memory < UInt64.size) :
    ∀ (functions : List SQFunctionProto) (depth : Nat),
      allFunctions (ProtoData.Within (SQLiteral.Portable memory) memory) functions →
      depthOf functions ≤ depth →
      Reads .readFailure (times (loadProto order memory junk depth) functions.length)
        (functionsBytes order functions) (reloadFunctions order junk functions)
  | [], depth, _, _ => by
      rw [functionsBytes, reloadFunctions]
      exact reads_pure []
  | f :: functions, depth, portable, deep => by
      rw [allFunctions] at portable
      rw [depthOf] at deep
      rw [functionsBytes, reloadFunctions]
      refine (reads_loadProto order junk small f depth portable.1 (by omega)).bind ?_
      exact (reads_loadFunctions order junk small functions depth portable.2 (by omega)).map _

end

end Loading

section Accepting

variable {source rest : List UInt8}

private theorem safeRead_eq_ok {size : Nat} {bytes : List UInt8}
    (done : safeRead size source = .ok (bytes, rest)) :
    source = bytes ++ rest ∧ bytes.length = size := by
  rw [safeRead] at done
  split_ifs at done with none
  · cases done
    exact ⟨rfl, none.symm⟩
  · exact take_eq_ok done

private theorem readWord32_eq_ok {w : UInt32} (done : readWord32 order source = .ok (w, rest)) :
    source = word32 order w ++ rest := by
  obtain ⟨bytes, middle, read, finish⟩ := bind_eq_ok done
  cases finish
  obtain ⟨rfl, length⟩ := safeRead_eq_ok read
  rw [word32_toWord32 order length]

private theorem readWord64_eq_ok {w : UInt64} (done : readWord64 order source = .ok (w, rest)) :
    source = word64 order w ++ rest := by
  obtain ⟨bytes, middle, read, finish⟩ := bind_eq_ok done
  cases finish
  obtain ⟨rfl, length⟩ := safeRead_eq_ok read
  rw [word64_toWord64 order length]

private theorem checkTag_eq_ok {tag : UInt32} {u : Unit}
    (done : checkTag order tag source = .ok (u, rest)) : source = word32 order tag ++ rest := by
  obtain ⟨t, middle, read, finish⟩ := bind_eq_ok done
  split_ifs at finish with same
  · cases finish
  · rw [not_not] at same
    cases finish
    rw [readWord32_eq_ok read, same]

private theorem allocate_eq_ok {w : UInt64} {n : Nat}
    (done : allocate memory w source = .ok (n, rest)) :
    source = rest ∧ w = UInt64.ofNat n ∧ n ≤ memory := by
  rw [allocate] at done
  split_ifs at done with fits
  · cases done
    exact ⟨rfl, UInt64.ofNat_toNat.symm, fits⟩
  · cases done

private theorem storableCase_eq_some {word : UInt32} {t : SQObjectType}
    (selected : storableCase word = some t) : word = UInt32.ofNat t.code := by
  have same := List.find?_some selected
  rw [decide_eq_true_iff] at same
  rw [same, UInt32.ofNat_toNat]

private theorem readObject_eq_ok {o : SQLiteral}
    (done : readObject order memory source = .ok (o, rest)) :
    o.Portable memory ∧ source = objectBytes order o ++ rest := by
  obtain ⟨type, middle, read, finish⟩ := bind_eq_ok done
  rw [readWord32_eq_ok read]
  cases selected : storableCase type with
  | none =>
      rw [selected] at finish
      cases finish
  | some t =>
      rw [selected] at finish
      rw [storableCase_eq_some selected]
      cases t with
      | string =>
          obtain ⟨len, middle, readLen, finish⟩ := bind_eq_ok finish
          obtain ⟨size, middle, room, finish⟩ := bind_eq_ok finish
          obtain ⟨bytes, middle, readBytes, finish⟩ := bind_eq_ok finish
          cases finish
          obtain ⟨rfl, rfl, fits⟩ := allocate_eq_ok room
          obtain ⟨rfl, rfl⟩ := safeRead_eq_ok readBytes
          refine ⟨fits, ?_⟩
          rw [readWord64_eq_ok readLen, objectBytes, payloadBytes, List.append_assoc,
            List.append_assoc]
          rfl
      | integer | bool =>
          obtain ⟨word, middle, readWord, finish⟩ := bind_eq_ok finish
          cases finish
          refine ⟨trivial, ?_⟩
          rw [readWord64_eq_ok readWord, objectBytes, List.append_assoc]
          rfl
      | float =>
          obtain ⟨bits, middle, readBits, finish⟩ := bind_eq_ok finish
          cases finish
          refine ⟨trivial, ?_⟩
          rw [readWord32_eq_ok readBits, objectBytes, List.append_assoc]
          rfl
      | null =>
          cases finish
          refine ⟨trivial, ?_⟩
          rw [objectBytes, List.append_assoc]
          rfl
      | _ => cases finish

private theorem readOuterVar_eq_ok {v : SQOuterVar}
    (done : readOuterVar order memory junk source = .ok (v, rest)) :
    ∃ w : SQOuterVar, (w.src.Portable memory ∧ w.name.Portable memory) ∧
      w.reload order junk = v ∧ source = outerBytes order w ++ rest := by
  obtain ⟨type, middle, readType, finish⟩ := bind_eq_ok done
  obtain ⟨src, middle, readSrc, finish⟩ := bind_eq_ok finish
  obtain ⟨name, middle, readName, finish⟩ := bind_eq_ok finish
  cases finish
  obtain ⟨srcPortable, rfl⟩ := readObject_eq_ok readSrc
  obtain ⟨namePortable, rfl⟩ := readObject_eq_ok readName
  -- The eight bytes of the type are those of the type and the padding.
  have length := word64_length order type
  set first := toWord32 order ((word64 order type).take 4) with first_eq
  set second := toWord32 order ((word64 order type).drop 4) with second_eq
  have split : word64 order type = word32 order first ++ word32 order second := by
    rw [word32_toWord32 order (by rw [List.length_take, length]; rfl),
      word32_toWord32 order (by rw [List.length_drop, length]), List.take_append_drop]
  refine ⟨{ type := first, padding := second, name := name, src := src },
    ⟨srcPortable, namePortable⟩, ?_, ?_⟩
  · have half := toWord64_pair order first second
    rw [← split, toWord64_word64] at half
    rw [half]
    rfl
  · rw [readWord64_eq_ok readType, split, outerBytes]
    simp only [List.append_assoc]

private theorem readLocalVarInfo_eq_ok {lvi : SQLocalVarInfo}
    (done : readLocalVarInfo order memory source = .ok (lvi, rest)) :
    lvi.name.Portable memory ∧ source = localBytes order lvi ++ rest := by
  obtain ⟨name, middle, readName, finish⟩ := bind_eq_ok done
  obtain ⟨pos, middle, readPos, finish⟩ := bind_eq_ok finish
  obtain ⟨startOp, middle, readStart, finish⟩ := bind_eq_ok finish
  obtain ⟨endOp, middle, readEnd, finish⟩ := bind_eq_ok finish
  cases finish
  obtain ⟨portable, rfl⟩ := readObject_eq_ok readName
  refine ⟨portable, ?_⟩
  rw [readWord64_eq_ok readPos, readWord64_eq_ok readStart, readWord64_eq_ok readEnd, localBytes]
  simp only [List.append_assoc]

private theorem flatMap_toArray {α : Type} {size : Nat} {bytes : α → List UInt8}
    {toRecord : List UInt8 → α}
    (forth : ∀ chunk, chunk.length = size → bytes (toRecord chunk) = chunk) {n : Nat}
    {raw : List UInt8} (length : raw.length = size * n) :
    (toArray size toRecord n raw).flatMap bytes = raw ∧
      (toArray size toRecord n raw).length = n := by
  induction n generalizing raw with
  | zero =>
      rw [Nat.mul_zero, List.length_eq_zero_iff] at length
      exact ⟨length.symm, rfl⟩
  | succ n ih =>
      rw [Nat.mul_succ] at length
      have head : (raw.take size).length = size := by
        rw [List.length_take]
        omega
      have tail : (raw.drop size).length = size * n := by
        rw [List.length_drop]
        omega
      obtain ⟨rest, count⟩ := ih tail
      rw [toArray, List.flatMap_cons, forth _ head, rest, List.take_append_drop, List.length_cons,
        count]
      exact ⟨rfl, rfl⟩

private theorem readArray_eq_ok {α : Type} {size n : Nat} {bytes : α → List UInt8}
    {toRecord : List UInt8 → α} {l : List α}
    (forth : ∀ chunk, chunk.length = size → bytes (toRecord chunk) = chunk)
    (done : readArray size toRecord n source = .ok (l, rest)) :
    l.length = n ∧ source = l.flatMap bytes ++ rest := by
  obtain ⟨raw, middle, read, finish⟩ := bind_eq_ok done
  cases finish
  obtain ⟨rfl, length⟩ := safeRead_eq_ok read
  obtain ⟨whole, count⟩ := flatMap_toArray forth length
  exact ⟨count, by rw [whole]⟩

private theorem lineInfoBytes_toLineInfo {chunk : List UInt8} (length : chunk.length = 16) :
    lineInfoBytes order (toLineInfo order chunk) = chunk := by
  rw [lineInfoBytes, toLineInfo, word64_toWord64 order (by rw [List.length_take, length]; rfl),
    word64_toWord64 order (by rw [List.length_drop, length]), List.take_append_drop]

private theorem instructionBytes_toInstruction {chunk : List UInt8} (length : chunk.length = 8) :
    instructionBytes order (toInstruction order chunk) = chunk := by
  rw [instructionBytes, toInstruction,
    word32_toWord32 order (by rw [List.length_take, length]; rfl)]
  match chunk, length with
  | [_, _, _, _, _, _, _, _], _ => rfl

private theorem functionsBytes_eq (order : ByteOrder) (functions : List SQFunctionProto) :
    functionsBytes order functions = functions.flatMap (protoBytes order) := by
  induction functions with
  | nil => rw [functionsBytes, List.flatMap_nil]
  | cons f functions ih => rw [functionsBytes, ih, List.flatMap_cons]

private theorem reloadFunctions_eq (order : ByteOrder) (junk : UInt32)
    (functions : List SQFunctionProto) :
    reloadFunctions order junk functions = functions.map (SQFunctionProto.reload order junk) := by
  induction functions with
  | nil => rw [reloadFunctions, List.map_nil]
  | cons f functions ih => rw [reloadFunctions, ih, List.map_cons]

private theorem allFunctions_iff {P : ProtoData → Nat → Prop} {functions : List SQFunctionProto} :
    allFunctions P functions ↔ ∀ f ∈ functions, f.All P := by
  induction functions with
  | nil => simp [allFunctions]
  | cons f functions ih => rw [allFunctions, ih, List.forall_mem_cons]

private theorem depthOf_le_iff {functions : List SQFunctionProto} {depth : Nat} :
    depthOf functions ≤ depth ↔ ∀ f ∈ functions, f.depth ≤ depth := by
  induction functions with
  | nil => simp [depthOf]
  | cons f functions ih => rw [depthOf, Nat.max_le, ih, List.forall_mem_cons]

private theorem loadProto_eq_ok {depth : Nat} {v : SQFunctionProto}
    (done : loadProto order memory junk depth source = .ok (v, rest)) :
    ∃ f : SQFunctionProto, (f.Portable memory ∧ f.depth ≤ depth) ∧ f.reload order junk = v ∧
      source = protoBytes order f ++ rest := by
  induction depth generalizing source rest v with
  | zero => cases done
  | succ depth ih =>
      rw [loadProto] at done
      obtain ⟨_, _, tag₁, done⟩ := bind_eq_ok done
      obtain ⟨sourcename, _, readSourcename, done⟩ := bind_eq_ok done
      obtain ⟨name, _, readName, done⟩ := bind_eq_ok done
      obtain ⟨_, _, tag₂, done⟩ := bind_eq_ok done
      obtain ⟨nliterals, _, count₁, done⟩ := bind_eq_ok done
      obtain ⟨nparameters, _, count₂, done⟩ := bind_eq_ok done
      obtain ⟨noutervalues, _, count₃, done⟩ := bind_eq_ok done
      obtain ⟨nlocalvarinfos, _, count₄, done⟩ := bind_eq_ok done
      obtain ⟨nlineinfos, _, count₅, done⟩ := bind_eq_ok done
      obtain ⟨ndefaultparams, _, count₆, done⟩ := bind_eq_ok done
      obtain ⟨ninstructions, _, count₇, done⟩ := bind_eq_ok done
      obtain ⟨nfunctions, _, count₈, done⟩ := bind_eq_ok done
      obtain ⟨_, _, room₁, done⟩ := bind_eq_ok done
      obtain ⟨_, _, room₂, done⟩ := bind_eq_ok done
      obtain ⟨_, _, room₃, done⟩ := bind_eq_ok done
      obtain ⟨_, _, room₄, done⟩ := bind_eq_ok done
      obtain ⟨_, _, room₅, done⟩ := bind_eq_ok done
      obtain ⟨_, _, room₆, done⟩ := bind_eq_ok done
      obtain ⟨_, _, room₇, done⟩ := bind_eq_ok done
      obtain ⟨_, _, room₈, done⟩ := bind_eq_ok done
      obtain ⟨_, _, tag₃, done⟩ := bind_eq_ok done
      obtain ⟨literals, _, readLiterals, done⟩ := bind_eq_ok done
      obtain ⟨_, _, tag₄, done⟩ := bind_eq_ok done
      obtain ⟨parameters, _, readParameters, done⟩ := bind_eq_ok done
      obtain ⟨_, _, tag₅, done⟩ := bind_eq_ok done
      obtain ⟨outervalues, _, readOuters, done⟩ := bind_eq_ok done
      obtain ⟨_, _, tag₆, done⟩ := bind_eq_ok done
      obtain ⟨localvarinfos, _, readLocals, done⟩ := bind_eq_ok done
      obtain ⟨_, _, tag₇, done⟩ := bind_eq_ok done
      obtain ⟨lineinfos, _, readLines, done⟩ := bind_eq_ok done
      obtain ⟨_, _, tag₈, done⟩ := bind_eq_ok done
      obtain ⟨defaultparams, _, readDefaults, done⟩ := bind_eq_ok done
      obtain ⟨_, _, tag₉, done⟩ := bind_eq_ok done
      obtain ⟨instructions, _, readInstructions, done⟩ := bind_eq_ok done
      obtain ⟨_, _, tag₀, done⟩ := bind_eq_ok done
      obtain ⟨functions, _, readFunctions, done⟩ := bind_eq_ok done
      obtain ⟨stacksize, _, readStack, done⟩ := bind_eq_ok done
      obtain ⟨generator, _, readGenerator, done⟩ := bind_eq_ok done
      obtain ⟨varparams, _, readVarparams, done⟩ := bind_eq_ok done
      cases done
      obtain ⟨sourcenamePortable, rfl⟩ := readObject_eq_ok readSourcename
      obtain ⟨namePortable, rfl⟩ := readObject_eq_ok readName
      obtain ⟨rfl, rfl, fits₁⟩ := allocate_eq_ok room₁
      obtain ⟨rfl, rfl, fits₂⟩ := allocate_eq_ok room₂
      obtain ⟨rfl, rfl, fits₃⟩ := allocate_eq_ok room₃
      obtain ⟨rfl, rfl, fits₄⟩ := allocate_eq_ok room₄
      obtain ⟨rfl, rfl, fits₅⟩ := allocate_eq_ok room₅
      obtain ⟨rfl, rfl, fits₆⟩ := allocate_eq_ok room₆
      obtain ⟨rfl, rfl, fits₇⟩ := allocate_eq_ok room₇
      obtain ⟨rfl, rfl, fits₈⟩ := allocate_eq_ok room₈
      obtain ⟨rfl, literalsPortable, rfl⟩ :=
        times_eq_ok_self (fun _ _ _ done => readObject_eq_ok done) readLiterals
      obtain ⟨rfl, parametersPortable, rfl⟩ := times_eq_ok_self
        (fun _ _ _ done => readObject_eq_ok done) readParameters
      obtain ⟨outers, rfl, outersPortable, rfl, rfl⟩ :=
        times_eq_ok (fun _ _ _ done => readOuterVar_eq_ok done) readOuters
      obtain ⟨rfl, localsPortable, rfl⟩ := times_eq_ok_self
        (fun _ _ _ done => readLocalVarInfo_eq_ok done) readLocals
      obtain ⟨rfl, rfl⟩ := readArray_eq_ok (fun _ => lineInfoBytes_toLineInfo) readLines
      obtain ⟨rfl, rfl⟩ := readArray_eq_ok (fun _ => word64_toWord64 order) readDefaults
      obtain ⟨rfl, rfl⟩ := readArray_eq_ok (fun _ => instructionBytes_toInstruction)
        readInstructions
      obtain ⟨nested, rfl, nestedPortable, rfl, rfl⟩ :=
        times_eq_ok (fun _ _ _ done => ih done) readFunctions
      obtain ⟨rfl, single⟩ := safeRead_eq_ok readGenerator
      obtain ⟨generator, rfl⟩ := List.length_eq_one_iff.mp single
      refine ⟨.mk
        { sourcename, name, literals, parameters, outervalues := outers, localvarinfos, lineinfos,
          defaultparams, instructions, stacksize, bgenerator := generator, varparams } nested,
        ⟨?_, ?_⟩, ?_, ?_⟩
      · rw [SQFunctionProto.Portable, SQFunctionProto.All, allFunctions_iff]
        exact ⟨⟨⟨sourcenamePortable, namePortable, literalsPortable, parametersPortable,
          outersPortable, localsPortable⟩, fits₁, fits₂, fits₃, fits₄, fits₅, fits₆, fits₇, fits₈⟩,
          fun f member => (nestedPortable f member).1⟩
      · rw [SQFunctionProto.depth, Nat.add_le_add_iff_right, depthOf_le_iff]
        exact fun f member => (nestedPortable f member).2
      · rw [SQFunctionProto.reload, reloadFunctions_eq]
        rfl
      · rw [checkTag_eq_ok tag₁, checkTag_eq_ok tag₂, readWord64_eq_ok count₁,
          readWord64_eq_ok count₂, readWord64_eq_ok count₃, readWord64_eq_ok count₄,
          readWord64_eq_ok count₅, readWord64_eq_ok count₆, readWord64_eq_ok count₇,
          readWord64_eq_ok count₈, checkTag_eq_ok tag₃, checkTag_eq_ok tag₄, checkTag_eq_ok tag₅,
          checkTag_eq_ok tag₆, checkTag_eq_ok tag₇, checkTag_eq_ok tag₈, checkTag_eq_ok tag₉,
          checkTag_eq_ok tag₀, readWord64_eq_ok readStack, readWord64_eq_ok readVarparams,
          protoBytes, functionsBytes_eq, dataBytes, endBytes]
        simp only [countBytes, List.append_assoc]

end Accepting

section Closures

private theorem tag_length (order : ByteOrder) : (encode order 2 streamTag).length = 2 :=
  encode_length order 2 _

private theorem unsigned_tag (order : ByteOrder) :
    unsigned order (encode order 2 streamTag) = streamTag := by
  have value := unsigned_encode order 2 streamTag
  exact_mod_cast value

private theorem reads_loadClosure (order : ByteOrder) (junk : UInt32)
    (small : memory < UInt64.size) {f : SQFunctionProto} {depth : Nat}
    (portable : f.Portable memory) (deep : f.depth ≤ depth) :
    Reads .readFailure (loadClosure order memory junk depth) (closureBytes order f)
      (f.reload order junk) := by
  have tag := reads_checkTag order
  rw [loadClosure, closureBytes]
  refine (tag _).bind ?_
  refine (tag _).bind ?_
  refine (tag _).bind ?_
  refine (tag _).bind ?_
  refine (reads_loadProto order junk small f depth portable deep).bind ?_
  exact (tag _).map _

private theorem sqReadClosure_tagged (order : ByteOrder) (memory : Nat) (junk : UInt32)
    (depth : Nat) (rest : List UInt8) :
    sqReadClosure order memory junk depth (encode order 2 streamTag ++ rest) =
      loadClosure order memory junk depth rest := by
  have head : take StreamError.io 2 (encode order 2 streamTag ++ rest) =
      .ok (encode order 2 streamTag, rest) := by
    have reads : Reads StreamError.io (take .io (encode order 2 streamTag).length)
        (encode order 2 streamTag) (encode order 2 streamTag) := reads_take _
    rw [tag_length] at reads
    exact reads.whole rest
  rw [sqReadClosure, bind_ok head, unsigned_tag, if_neg (not_not.mpr rfl)]

private theorem sqReadClosure_streamBytes (order : ByteOrder) (junk : UInt32)
    (small : memory < UInt64.size) {f : SQFunctionProto} {depth : Nat}
    (portable : f.Portable memory) (deep : f.depth ≤ depth) (rest : List UInt8) :
    sqReadClosure order memory junk depth (streamBytes order f ++ rest) =
      .ok (f.reload order junk, rest) := by
  rw [streamBytes, List.append_assoc, sqReadClosure_tagged]
  exact (reads_loadClosure order junk small portable deep).whole rest

/-- `sq_writeclosure` succeeds exactly when the function has no free variables, all values in the
tree have a form and the sink has room for the stream; then the sink has taken the stream. -/
private theorem sqWriteClosure_eq (order : ByteOrder) (f : SQFunctionProto) (s : Sink UInt8) :
    ((sqWriteClosure order f s).1 = .ok () ↔ f.data.outervalues = [] ∧ f.Serializable ∧
        (streamBytes order f).length ≤ s.room) ∧
      ((sqWriteClosure order f s).1 = .ok () →
        (sqWriteClosure order f s).2 = s.push (streamBytes order f)) := by
  have length : (streamBytes order f).length = 2 + (closureBytes order f).length := by
    rw [streamBytes, List.length_append, tag_length]
  have pushed : (s.push (encode order 2 streamTag)).push (closureBytes order f) =
      s.push (streamBytes order f) := by
    simp [Sink.push, streamBytes, Nat.sub_sub]
  rw [sqWriteClosure]
  by_cases free : f.data.outervalues = []
  · rw [if_neg (by rw [free]; decide)]
    by_cases room : 2 ≤ s.room
    · have tagged : put StreamError.io (encode order 2 streamTag) s =
          (.ok (), s.push (encode order 2 streamTag)) := by
        rw [put, tag_length, if_pos room]
      have left : (s.push (encode order 2 streamTag)).room = s.room - 2 := by
        rw [Sink.push, tag_length]
      rw [seq_ok tagged]
      by_cases serializable : f.Serializable
      · rw [(saves_saveClosure order f).all serializable, left]
        by_cases enough : (closureBytes order f).length ≤ s.room - 2
        · rw [if_pos enough, pushed]
          exact ⟨iff_of_true rfl ⟨free, serializable, by omega⟩, fun _ => rfl⟩
        · rw [if_neg enough]
          refine ⟨iff_of_false (fun impossible => by cases impossible) ?_,
            fun impossible => by cases impossible⟩
          rintro ⟨-, -, bound⟩
          omega
      · obtain ⟨part, e, stops⟩ := (saves_saveClosure order f).stops serializable
        have failed : ∃ e', (saveClosure order f (s.push (encode order 2 streamTag))).1 =
            .error e' := by
          rw [stops]
          split_ifs
          · exact ⟨e, rfl⟩
          · exact ⟨_, rfl⟩
        obtain ⟨e', failed⟩ := failed
        rw [failed]
        refine ⟨iff_of_false (fun impossible => by cases impossible) ?_,
          fun impossible => by cases impossible⟩
        rintro ⟨-, other, -⟩
        exact serializable other
    · have failed : put StreamError.io (encode order 2 streamTag) s =
          (.error StreamError.io, s.fill (encode order 2 streamTag)) := by
        rw [put, tag_length, if_neg room]
      rw [seq_error failed]
      refine ⟨iff_of_false (fun impossible => by cases impossible) ?_,
        fun impossible => by cases impossible⟩
      rintro ⟨-, -, bound⟩
      omega
  · rw [if_pos (by rwa [Ne, List.length_eq_zero_iff])]
    refine ⟨iff_of_false (fun impossible => by cases impossible) ?_,
      fun impossible => by cases impossible⟩
    rintro ⟨none, -⟩
    exact free none

private theorem SQLiteral.portable_iff (memory : Nat) (o : SQLiteral) :
    o.Portable memory ↔ o.Serializable ∧ o.Fits memory := by
  cases o with
  | other t kind => simp [SQLiteral.Portable, SQLiteral.Serializable, SQLiteral.type, kind]
  | _ =>
      simp [SQLiteral.Portable, SQLiteral.Serializable, SQLiteral.type, SQLiteral.Fits, storable]

mutual

private theorem SQFunctionProto.all_congr {P Q : ProtoData → Nat → Prop}
    (same : ∀ d n, P d n ↔ Q d n) : ∀ f : SQFunctionProto, f.All P ↔ f.All Q
  | .mk data functions => by
      rw [SQFunctionProto.All, SQFunctionProto.All, same, allFunctions_congr same functions]

private theorem allFunctions_congr {P Q : ProtoData → Nat → Prop} (same : ∀ d n, P d n ↔ Q d n) :
    ∀ functions : List SQFunctionProto, allFunctions P functions ↔ allFunctions Q functions
  | [] => by rw [allFunctions, allFunctions]
  | f :: functions => by
      rw [allFunctions, allFunctions, SQFunctionProto.all_congr same f,
        allFunctions_congr same functions]

end

mutual

private theorem SQFunctionProto.all_and {P Q : ProtoData → Nat → Prop} :
    ∀ f : SQFunctionProto, f.All (fun d n => P d n ∧ Q d n) ↔ f.All P ∧ f.All Q
  | .mk data functions => by
      rw [SQFunctionProto.All, SQFunctionProto.All, SQFunctionProto.All,
        allFunctions_and functions, and_and_and_comm]

private theorem allFunctions_and {P Q : ProtoData → Nat → Prop} :
    ∀ functions : List SQFunctionProto, allFunctions (fun d n => P d n ∧ Q d n) functions ↔
      allFunctions P functions ∧ allFunctions Q functions
  | [] => by simp [allFunctions]
  | f :: functions => by
      rw [allFunctions, allFunctions, allFunctions, SQFunctionProto.all_and f,
        allFunctions_and functions, and_and_and_comm]

end

private theorem SQFunctionProto.portable_iff {f : SQFunctionProto} :
    f.Portable memory ↔ f.Serializable ∧ f.Fits memory := by
  rw [SQFunctionProto.Portable, SQFunctionProto.Serializable, SQFunctionProto.Fits,
    ← SQFunctionProto.all_and]
  refine SQFunctionProto.all_congr ?_ f
  intro d n
  have every : d.EveryObject (SQLiteral.Portable memory) ↔
      d.EveryObject SQLiteral.Serializable ∧ d.EveryObject (SQLiteral.Fits memory) := by
    simp only [ProtoData.EveryObject, SQLiteral.portable_iff]
    grind
  constructor
  · intro within
    exact ⟨(every.mp within.objects).1, { within with objects := (every.mp within.objects).2 }⟩
  · rintro ⟨objects, within⟩
    exact { within with objects := every.mpr ⟨objects, within.objects⟩ }

/-- Round trip: when `sq_writeclosure` has succeeded, on whatever sink, `sq_readclosure` reads what
the sink has taken, followed by anything, and leaves what follows. The prototypes come back at every
depth, up to the padding of the records of free variables. -/
theorem written_closure_reads_back (order : ByteOrder) (junk : UInt32)
    (small : memory < UInt64.size) (f : SQFunctionProto) (fits : f.Fits memory) (depth : Nat)
    (deep : f.depth ≤ depth) (s : Sink UInt8)
    (done : (sqWriteClosure order f s).1 = .ok ()) :
    ∃ bytes, (sqWriteClosure order f s).2.written = s.written ++ bytes ∧
      ∀ rest, sqReadClosure order memory junk depth (bytes ++ rest) =
        .ok (f.reload order junk, rest) := by
  obtain ⟨exactly, taken⟩ := sqWriteClosure_eq order f s
  have portable := SQFunctionProto.portable_iff.mpr ⟨(exactly.mp done).2.1, fits⟩
  refine ⟨streamBytes order f, ?_, ?_⟩
  · rw [taken done]
    rfl
  · exact sqReadClosure_streamBytes order junk small portable deep

def innerProto : SQFunctionProto :=
  .mk
    { sourcename := .string [97], name := .null,
      literals := [.string [120, 121], .float 1065353216], parameters := [.string [116]],
      outervalues := [⟨0, 7, .string [118], .integer 1⟩],
      localvarinfos := [⟨.string [118], 0, 0, 2⟩], lineinfos := [⟨3, 0⟩], defaultparams := [1],
      instructions := [⟨1, 2, 3, 4, 5⟩], stacksize := 4, bgenerator := 0, varparams := 0 } []

def mainProto : SQFunctionProto :=
  .mk
    { sourcename := .string [97], name := .string [109], literals := [.integer 5, .bool 1],
      parameters := [], outervalues := [], localvarinfos := [], lineinfos := [],
      defaultparams := [], instructions := [⟨0, 9, 0, 0, 0⟩], stacksize := 2, bgenerator := 0,
      varparams := 0 } [innerProto, innerProto]

private theorem mainProto_portable : mainProto.Portable 100 := by
  have inner : innerProto.Portable 100 := by
    rw [innerProto, SQFunctionProto.Portable, SQFunctionProto.All, allFunctions]
    refine ⟨⟨?_, ?_, ?_, ?_, ?_, ?_, ?_, ?_, ?_⟩, trivial⟩ <;>
      simp [ProtoData.EveryObject, SQLiteral.Portable]
  rw [mainProto, SQFunctionProto.Portable, SQFunctionProto.All, allFunctions_iff]
  refine ⟨⟨?_, ?_, ?_, ?_, ?_, ?_, ?_, ?_, ?_⟩, ?_⟩
  on_goal 10 =>
    intro f member
    simp only [List.mem_cons, List.not_mem_nil, or_false, or_self] at member
    subst member
    exact inner
  all_goals simp [ProtoData.EveryObject, SQLiteral.Portable]

theorem written_closure_reads_back_nested :
    (sqWriteClosure .little mainProto ⟨[], 1000⟩).1 = .ok () ∧
      ∃ bytes, (sqWriteClosure .little mainProto ⟨[], 1000⟩).2.written = [] ++ bytes ∧
        ∀ rest, sqReadClosure .little 100 0 2 (bytes ++ rest) =
          .ok (mainProto.reload .little 0, rest) := by
  obtain ⟨serializable, fits⟩ := SQFunctionProto.portable_iff.mp mainProto_portable
  have done : (sqWriteClosure .little mainProto ⟨[], 1000⟩).1 = .ok () :=
    (sqWriteClosure_eq .little mainProto ⟨[], 1000⟩).1.mpr ⟨rfl, serializable, by decide +kernel⟩
  exact ⟨done, written_closure_reads_back .little 0 (by decide) mainProto fits 2 (by decide)
    ⟨[], 1000⟩ done⟩

/-- Truncation: a stream that is cut anywhere is refused, with the error of a failed read. -/
theorem cut_stream_refused (order : ByteOrder) (junk : UInt32) (small : memory < UInt64.size)
    (f : SQFunctionProto) (portable : f.Portable memory) (depth : Nat) (deep : f.depth ≤ depth)
    (p q : List UInt8) (more : q ≠ []) (split : streamBytes order f = p ++ q) :
    sqReadClosure order memory junk depth p =
      .error (if p.length < 2 then .io else .readFailure) := by
  split_ifs with short
  · refine bind_error ?_
    rw [take, if_neg (by omega)]
  · rw [streamBytes] at split
    rcases List.append_eq_append_iff.mp split with ⟨p', rfl, split'⟩ | ⟨q', split', rfl⟩
    · rw [sqReadClosure_tagged]
      exact (reads_loadClosure order junk small portable deep).part p' q more split'
    · -- The cut is then right behind the tag.
      have length := congrArg List.length split'
      rw [tag_length, List.length_append] at length
      obtain rfl : q' = [] := List.length_eq_zero_iff.mp (by omega)
      rw [List.append_nil] at split'
      rw [← split', ← List.append_nil (encode order 2 streamTag), sqReadClosure_tagged]
      exact (reads_loadClosure order junk small portable deep).part [] (closureBytes order f)
        (by simpa using more) rfl

theorem cut_stream_refused_nested :
    sqReadClosure .little 100 0 2 ((streamBytes .little mainProto).take 300) =
      .error .readFailure := by
  have long : (streamBytes .little mainProto).length = 751 := by decide +kernel
  have refused := cut_stream_refused .little 0 (by decide) mainProto mainProto_portable 2
    (by decide) ((streamBytes .little mainProto).take 300)
    ((streamBytes .little mainProto).drop 300)
    (by rw [Ne, List.drop_eq_nil_iff, long]; decide) (List.take_append_drop _ _).symm
  rw [List.length_take, long] at refused
  exact refused

/-- No count or length in the stream is negative or beyond the memory, which is smaller than the
greatest `SQInteger`, and prototypes are nested no deeper than the C stack allows. -/
structure Guarded (order : ByteOrder) (memory : Nat) (junk : UInt32) (depth : Nat)
    (source : List UInt8) : Prop where
  signed : memory ≤ 0x7FFFFFFFFFFFFFFF
  served : sqReadClosure order memory junk depth source ≠ .error .undefined

/-- `sq_readclosure` with what it does to the other streams: a prototype with a negative count, for
one, is laid out over itself and may be accepted. -/
def sqReadClosureWith (unguarded : List UInt8 → Except StreamError (SQFunctionProto × List UInt8))
    (order : ByteOrder) (memory : Nat) (junk : UInt32) (depth : Nat) (source : List UInt8) :
    Except StreamError (SQFunctionProto × List UInt8) :=
  match sqReadClosure order memory junk depth source with
  | .error .undefined => unguarded source
  | answer => answer

private theorem sqReadClosureWith_eq
    (unguarded : List UInt8 → Except StreamError (SQFunctionProto × List UInt8)) {depth : Nat}
    {source : List UInt8} (guarded : Guarded order memory junk depth source) :
    sqReadClosureWith unguarded order memory junk depth source =
      sqReadClosure order memory junk depth source := by
  rw [sqReadClosureWith]
  split
  · rename_i undefined
    exact absurd undefined guarded.served
  · rfl

/-- Exactness: whatever `sq_readclosure` accepts of the streams with counts that it can serve starts
with the stream of a tree of prototypes that fits into memory, is read to its end and comes back as
the one read. -/
theorem accepted_stream_is_written
    (unguarded : List UInt8 → Except StreamError (SQFunctionProto × List UInt8))
    (order : ByteOrder) (memory : Nat) (junk : UInt32) (depth : Nat) (source rest : List UInt8)
    (v : SQFunctionProto) (guarded : Guarded order memory junk depth source)
    (done : sqReadClosureWith unguarded order memory junk depth source = .ok (v, rest)) :
    ∃ f : SQFunctionProto, f.Portable memory ∧ f.depth ≤ depth ∧ f.reload order junk = v ∧
      source = streamBytes order f ++ rest := by
  rw [sqReadClosureWith_eq unguarded guarded] at done
  obtain ⟨tag, middle, readTag, loaded⟩ := bind_eq_ok done
  obtain ⟨rfl, length⟩ := take_eq_ok readTag
  split_ifs at loaded with other
  · cases loaded
  · rw [not_not] at other
    obtain rfl : tag = encode order 2 streamTag := by
      apply unsigned_injective order (length.trans (tag_length order).symm)
      rw [other, unsigned_tag]
    rw [loadClosure] at loaded
    obtain ⟨_, _, tag₁, loaded⟩ := bind_eq_ok loaded
    obtain ⟨_, _, tag₂, loaded⟩ := bind_eq_ok loaded
    obtain ⟨_, _, tag₃, loaded⟩ := bind_eq_ok loaded
    obtain ⟨_, _, tag₄, loaded⟩ := bind_eq_ok loaded
    obtain ⟨function, _, readFunction, loaded⟩ := bind_eq_ok loaded
    obtain ⟨_, _, tag₅, loaded⟩ := bind_eq_ok loaded
    cases loaded
    obtain ⟨f, ⟨portable, deep⟩, same, split⟩ := loadProto_eq_ok readFunction
    refine ⟨f, portable, deep, same, ?_⟩
    rw [checkTag_eq_ok tag₁, checkTag_eq_ok tag₂, checkTag_eq_ok tag₃, checkTag_eq_ok tag₄, split,
      checkTag_eq_ok tag₅, streamBytes, closureBytes]
    simp only [List.append_assoc]

theorem accepted_stream_is_written_nested :
    sqReadClosure .big 100 0 2 (streamBytes .big mainProto ++ [1, 2]) =
        .ok (mainProto.reload .big 0, [1, 2]) ∧
      ∃ f : SQFunctionProto, f.Portable 100 ∧ f.depth ≤ 2 ∧
        f.reload .big 0 = mainProto.reload .big 0 ∧
        streamBytes .big mainProto ++ [1, 2] = streamBytes .big f ++ [1, 2] := by
  have done := sqReadClosure_streamBytes .big 0 (by decide) mainProto_portable
    (show mainProto.depth ≤ 2 by decide) [1, 2]
  have guarded : Guarded .big 100 0 2 (streamBytes .big mainProto ++ [1, 2]) := by
    refine ⟨by decide, ?_⟩
    rw [done]
    exact fun impossible => by cases impossible
  exact ⟨done, accepted_stream_is_written (fun _ => .error .corrupted) .big 100 0 2 _ [1, 2] _
    guarded ((sqReadClosureWith_eq _ guarded).trans done)⟩

end Closures

end SquirrelGObject.Engine.Bytecode
