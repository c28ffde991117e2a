/- SquirrelGObject/Wrapper/Custody
   digest: Who holds the free variables while a host closure is made: every reference the engine calls take and give up. -/

import SquirrelGObject.Lib.CountedStore
import SquirrelGObject.Wrapper.Pins

set_option autoImplicit false
set_option relaxedAutoImplicit false

namespace SquirrelGObject.Wrapper

open Engine Engine.RefTable Lib.CountedStore SQVM

/-- A place that holds a counted reference: a stack slot, the node of an object in the pin table,
an outer value of a native closure, a temporary of the running engine call, or any other place in
memory. -/
inductive Cell where
  | slot (v : HSQUIRRELVM) (i : Int)
  | node (o : SQObject)
  | outer (c : Address) (j : Nat)
  | temp
  | elsewhere (k : Nat)
  deriving DecidableEq

/-- What the cells hold between two engine calls. The outer values of a closure exist from its
allocation on; `other` is the rest of memory. -/
def cells (other : Nat → SQObject) (m : Machine) : Cell → SQObject
  | .slot v i => (m.vms v).stack i
  | .node o => if o ∈ m.refsTable.pinned then o else .null
  | .outer c j => if c < m.nextObject then (m.nativeClosures c).outervalues.getD j .null else .null
  | .temp => .null
  | .elsewhere k => other k

/-- The references a call moves, in the order of the engine's assignments. -/
abbrev Writes := List (Cell × SQObject)

def borrowed (o : SQObject) : Writes := [(.temp, o), (.temp, .null)]

/-- `RefTable::AddRef`: an object without a node gets one. When the table is full, each stored
object is first taken by its node in the new array and then given up by the old one. -/
def addRefWrites (t : RefTable SQObject) (o : SQObject) : Writes :=
  if (t.get SQObject.hashObj o false).ref.isSome then []
  else (if t.numOfSlots = t.slotUsed then t.pinned.flatMap borrowed else []) ++ [(.node o, o)]

/-- `RefTable::Release`: with the last pin the node is emptied, while a temporary holds the
object. -/
def releaseWrites (t : RefTable SQObject) (o : SQObject) : Writes :=
  if (t.release SQObject.hashObj o).2 then [(.temp, o), (.node o, .null), (.temp, .null)] else []

def popWrites (v : HSQUIRRELVM) : Nat → SQVM → Writes
  | 0, _ => []
  | n + 1, vm => (.slot v (vm.top - 1), .null) :: popWrites v n vm.pop

/-- `SQVM::Push` of an object pointer made for the call. -/
def pushWrites (v : HSQUIRRELVM) (o : SQObject) (vm : SQVM) : Writes :=
  [(.temp, o), (.slot v vm.top, o), (.temp, .null)]

/-- The loop of `sq_newclosure`: each value is copied into its outer value and popped. -/
def takeWrites (v : HSQUIRRELVM) (c : Address) : Nat → Nat → SQVM → Writes
  | _, 0, _ => []
  | j, n + 1, vm =>
      (.outer c j, vm.getUp (-1)) :: (.slot v (vm.top - 1), .null) ::
        takeWrites v c (j + 1) n vm.pop

def EngineCall.writes (v : HSQUIRRELVM) (s : Shuffle) : EngineCall → Writes
  | getStackObj _ _ => []
  | addRef i =>
      if (s.freevars i).isRefCounted then addRefWrites s.machine.refsTable (s.freevars i) else []
  | pop n => popWrites v n (s.machine.vms v)
  | pushUserPointer p => [(.slot v (s.machine.vms v).top, .userpointer p)]
  | pushObject i => pushWrites v (s.freevars i) (s.machine.vms v)
  | release i =>
      if (s.freevars i).isRefCounted then releaseWrites s.machine.refsTable (s.freevars i) else []
  | newClosure _ n =>
      takeWrites v s.machine.nextObject 0 n (s.machine.vms v) ++
        pushWrites v (.nativeclosure s.machine.nextObject) (popN n (s.machine.vms v))

def callWrites (v : HSQUIRRELVM) : List EngineCall → Shuffle → Writes
  | [], _ => []
  | call :: calls, s => call.writes v s ++ callWrites v calls (call.exec v s)

/-- The writes of each call lead from what the cells held before it to what they hold after it. -/
def Linked (other : Nat → SQObject) (v : HSQUIRRELVM) : List EngineCall → Shuffle → Prop
  | [], _ => True
  | call :: calls, s =>
      writeAll (cells other s.machine) (call.writes v s) = cells other (call.exec v s).machine ∧
        Linked other v calls (call.exec v s)

/-- The calls write only the given cells, and every overwritten object stays held in the region. -/
structure Accounted (R W : Set Cell) (other : Nat → SQObject) (v : HSQUIRRELVM)
    (calls : List EngineCall) (s : Shuffle) : Prop where
  linked : Linked other v calls s
  covered : Covered SQObject.isRefCounted R (cells other s.machine) (callWrites v calls s)
  inside : ∀ w ∈ callWrites v calls s, w.1 ∈ W

/-- The same, except that the first write to the cell `z` may lose what was there. -/
structure Lossy (z : Cell) (R : Set Cell) (other : Nat → SQObject) (v : HSQUIRRELVM)
    (calls : List EngineCall) (s : Shuffle) : Prop where
  linked : Linked other v calls s
  loss : OneLoss SQObject.isRefCounted z R (cells other s.machine) (callWrites v calls s)

section Account

variable {R W : Set Cell} {z : Cell} {other : Nat → SQObject} {v : HSQUIRRELVM} {s : Shuffle}

private theorem callWrites_append (xs ys : List EngineCall) :
    callWrites v (xs ++ ys) s = callWrites v xs s ++ callWrites v ys (runCalls v xs s) := by
  induction xs generalizing s with
  | nil => rfl
  | cons call xs ih =>
      rw [List.cons_append, callWrites, callWrites, ih, List.append_assoc]
      rfl

private theorem linked_append {xs ys : List EngineCall} :
    Linked other v (xs ++ ys) s ↔ Linked other v xs s ∧ Linked other v ys (runCalls v xs s) := by
  induction xs generalizing s with
  | nil => exact (iff_of_eq (true_and _)).symm
  | cons call xs ih =>
      rw [List.cons_append, Linked, Linked, ih, and_assoc]
      rfl

theorem Linked.final {calls : List EngineCall} (linked : Linked other v calls s) :
    writeAll (cells other s.machine) (callWrites v calls s) =
      cells other (runCalls v calls s).machine := by
  induction calls generalizing s with
  | nil => rfl
  | cons call calls ih =>
      rw [callWrites, writeAll_append, linked.1]
      exact ih linked.2

theorem Linked.take {calls : List EngineCall} (linked : Linked other v calls s) (k : Nat) :
    callWrites v (calls.take k) s <+: callWrites v calls s ∧
      writeAll (cells other s.machine) (callWrites v (calls.take k) s) =
        cells other (runCalls v (calls.take k) s).machine := by
  rw [← List.take_append_drop k calls] at linked
  have whole := callWrites_append (v := v) (s := s) (calls.take k) (calls.drop k)
  rw [List.take_append_drop] at whole
  exact ⟨whole ▸ List.prefix_append _ _, (linked_append.mp linked).1.final⟩

theorem Accounted.append {xs ys : List EngineCall} (first : Accounted R W other v xs s)
    (second : Accounted R W other v ys (runCalls v xs s)) :
    Accounted R W other v (xs ++ ys) s := by
  refine ⟨linked_append.mpr ⟨first.linked, second.linked⟩, ?_, ?_⟩
  · rw [callWrites_append, covered_append, first.linked.final]
    exact ⟨first.covered, second.covered⟩
  · rw [callWrites_append, List.forall_mem_append]
    exact ⟨first.inside, second.inside⟩

theorem Lossy.prepend {xs ys : List EngineCall} (first : Accounted (R \ {z}) {z}ᶜ other v xs s)
    (second : Lossy z R other v ys (runCalls v xs s)) : Lossy z R other v (xs ++ ys) s := by
  refine ⟨linked_append.mpr ⟨first.linked, second.linked⟩, ?_⟩
  rw [callWrites_append]
  apply OneLoss.prepend first.covered first.inside
  rw [first.linked.final]
  exact second.loss

theorem Lossy.append {xs ys : List EngineCall} (first : Lossy z R other v xs s)
    (second : Accounted R Set.univ other v ys (runCalls v xs s)) :
    Lossy z R other v (xs ++ ys) s := by
  refine ⟨linked_append.mpr ⟨first.linked, second.linked⟩, ?_⟩
  rw [callWrites_append]
  apply OneLoss.append first.loss
  rw [first.linked.final]
  exact second.covered

theorem Accounted.single {call : EngineCall}
    (linked : writeAll (cells other s.machine) (call.writes v s) =
      cells other (call.exec v s).machine)
    (covered : Covered SQObject.isRefCounted R (cells other s.machine) (call.writes v s))
    (inside : ∀ w ∈ call.writes v s, w.1 ∈ W) : Accounted R W other v [call] s := by
  have same : callWrites v [call] s = call.writes v s := List.append_nil _
  exact ⟨⟨linked, trivial⟩, same ▸ covered, same ▸ inside⟩

private theorem Accounted.idle {call : EngineCall} (none : call.writes v s = [])
    (same : cells other (call.exec v s).machine = cells other s.machine) :
    Accounted R W other v [call] s := by
  refine Accounted.single ?_ ?_ ?_
  · rw [none, same]
    rfl
  · rw [none]
    trivial
  · rw [none]
    exact fun _ member => absurd member List.not_mem_nil

end Account

section Calls

variable {R W : Set Cell} {other : Nat → SQObject} {v : HSQUIRRELVM} {s : Shuffle}
  {c : SQObject → Nat}

private theorem null_uncounted : ¬ SQObject.null.isRefCounted = true := by decide

private theorem cells_onVM {f : SQVM → SQVM} {m : Machine} {i : Int} {o : SQObject}
    (stack : (f (m.vms v)).stack = Function.update (m.vms v).stack i o) :
    cells other (m.onVM v f) = Function.update (cells other m) (.slot v i) o := by
  funext cell
  cases cell with
  | slot w j =>
      by_cases here : w = v
      · subst here
        change ((m.onVM w f).vms w).stack j = _
        rw [Machine.onVM_self, stack]
        by_cases there : j = i
        · subst there
          rw [Function.update_self, Function.update_self]
        · rw [Function.update_of_ne there,
            Function.update_of_ne fun same => there (Cell.slot.inj same).2]
          rfl
      · rw [Function.update_of_ne fun same => here (Cell.slot.inj same).1]
        change ((m.onVM v f).vms w).stack j = (m.vms w).stack j
        rw [Machine.onVM_of_ne here]
  | _ => rw [Function.update_of_ne (by simp)]; rfl

private theorem cells_setRefsTable {m : Machine} {t : RefTable SQObject} {o : SQObject}
    (same : ∀ x, x ≠ o → (x ∈ t.pinned ↔ x ∈ m.refsTable.pinned)) :
    cells other (m.setRefsTable t) =
      Function.update (cells other m) (.node o) (if o ∈ t.pinned then o else .null) := by
  funext cell
  cases cell with
  | node x =>
      by_cases here : x = o
      · subst here
        rw [Function.update_self]
        rfl
      · rw [Function.update_of_ne fun same => here (Cell.node.inj same)]
        change (if x ∈ t.pinned then x else .null) = if x ∈ m.refsTable.pinned then x else .null
        simp only [same x here]
  | _ => rw [Function.update_of_ne (by simp)]; rfl

private theorem writeAll_borrowed {f : Cell → SQObject} (free : f .temp = .null) (l : List SQObject)
    :
    writeAll f (l.flatMap borrowed) = f := by
  induction l with
  | nil => rfl
  | cons o rest ih =>
      rw [List.flatMap_cons, writeAll_append]
      change writeAll (Function.update (Function.update f .temp o) .temp .null) _ = f
      rw [Function.update_idem, ← free, Function.update_eq_self]
      exact ih

private theorem covered_borrowed {f : Cell → SQObject} (free : f .temp = .null) {l : List SQObject}
    (held : ∀ o ∈ l, Held (R \ {.temp}) f o) :
    Covered SQObject.isRefCounted R f (l.flatMap borrowed) := by
  induction l with
  | nil => trivial
  | cons o rest ih =>
      rw [List.flatMap_cons, covered_append]
      refine ⟨⟨?_, ?_, trivial⟩, ?_⟩
      · intro count
        rw [free] at count
        exact absurd count null_uncounted
      · intro count
        obtain ⟨d, inside, holds⟩ := held o List.mem_cons_self
        refine ⟨d, inside.1, ?_⟩
        rw [Function.update_of_ne inside.2, Function.update_of_ne inside.2, Function.update_self,
          holds]
      · have back := writeAll_borrowed free [o]
        rw [List.flatMap_singleton] at back
        rw [back]
        exact ih fun x member => held x (List.mem_cons_of_mem _ member)

private theorem cells_node (other : Nat → SQObject) {m : Machine}
    (exact : Exact SQObject.hashObj m.refsTable c) (o : SQObject) :
    cells other m (.node o) = if c o = 0 then .null else o := by
  change (if o ∈ m.refsTable.pinned then o else .null) = _
  by_cases zero : c o = 0
  · rw [if_pos zero, if_neg fun member => (exact.pinned o).mp member zero]
  · rw [if_neg zero, if_pos ((exact.pinned o).mpr zero)]

private theorem addPin_self {o : SQObject} (counted : o.isRefCounted = true) :
    addPin c o o = c o + 1 := by
  rw [addPin, if_pos counted, Function.update_self]

private theorem addPin_of_ne {o x : SQObject} (apart : x ≠ o) : addPin c o x = c x := by
  rw [addPin]
  split
  · exact Function.update_of_ne apart _ _
  · rfl

private theorem cells_pin {m : Machine} (exact : Exact SQObject.hashObj m.refsTable c)
    {o : SQObject} (counted : o.isRefCounted = true) :
    cells other (m.setRefsTable (pin m.refsTable o)) =
      Function.update (cells other m) (.node o) o := by
  have pinned := (pin_exact exact o).1
  have there : o ∈ (pin m.refsTable o).pinned := by
    rw [pinned.pinned, addPin_self counted]
    exact Nat.succ_ne_zero _
  rw [cells_setRefsTable (o := o) fun x apart => ?_, if_pos there]
  rw [pinned.pinned, exact.pinned, addPin_of_ne apart]

private theorem cells_unpin {m : Machine} {o : SQObject}
    (exact : Exact SQObject.hashObj m.refsTable (addPin c o)) :
    cells other (m.setRefsTable (unpin m.refsTable o)) =
      Function.update (cells other m) (.node o) (if c o = 0 then .null else o) := by
  have rest := (unpin_exact exact).1
  rw [cells_setRefsTable (o := o) fun x apart => ?_]
  · congr 1
    by_cases zero : c o = 0
    · rw [if_pos zero, if_neg fun member => (rest.pinned o).mp member zero]
    · rw [if_neg zero, if_pos ((rest.pinned o).mpr zero)]
  · rw [rest.pinned, exact.pinned, addPin_of_ne apart]

private theorem addRef_accounted (nodes : ∀ o, .node o ∈ R) (writable : ∀ o, .node o ∈ W)
    (temp : .temp ∈ W) (exact : Exact SQObject.hashObj s.machine.refsTable c) (i : Nat) :
    Accounted R W other v [.addRef i] s := by
  have moved : (EngineCall.addRef i).exec v s =
      { s with machine := s.machine.setRefsTable (pin s.machine.refsTable (s.freevars i)) } := by
    rw [EngineCall.exec, sqAddRef_eq]
  have node := cells_node other exact (s.freevars i)
  by_cases counted : (s.freevars i).isRefCounted = true
  · have writes : (EngineCall.addRef i).writes v s =
        addRefWrites s.machine.refsTable (s.freevars i) := if_pos counted
    by_cases zero : c (s.freevars i) = 0
    · have missing : ¬ (s.machine.refsTable.get SQObject.hashObj (s.freevars i) false).ref.isSome =
          true := fun found => (exact.get _).mp found zero
      have free : cells other s.machine .temp = .null := rfl
      have resized : ∃ l : List SQObject, (∀ o ∈ l, o ∈ s.machine.refsTable.pinned) ∧
          (EngineCall.addRef i).writes v s =
            l.flatMap borrowed ++ [(.node (s.freevars i), s.freevars i)] := by
        rw [writes, addRefWrites, if_neg missing]
        split
        · exact ⟨s.machine.refsTable.pinned, fun _ member => member, rfl⟩
        · exact ⟨[], fun _ member => absurd member List.not_mem_nil, rfl⟩
      obtain ⟨l, stored, shape⟩ := resized
      refine Accounted.single ?_ ?_ ?_
      · rw [shape, writeAll_append, writeAll_borrowed free, moved, cells_pin exact counted]
        rfl
      · rw [shape, covered_append, writeAll_borrowed free]
        refine ⟨covered_borrowed free ?_, ?_, trivial⟩
        · intro o member
          exact ⟨.node o, ⟨nodes o, by simp⟩, if_pos (stored o member)⟩
        · intro count
          rw [if_pos zero] at node
          rw [node] at count
          exact absurd count null_uncounted
      · rw [shape, List.forall_mem_append, List.forall_mem_singleton]
        refine ⟨?_, writable _⟩
        intro w member
        obtain ⟨o, -, taken⟩ := List.mem_flatMap.mp member
        rcases List.mem_pair.mp taken with rfl | rfl <;> exact temp
    · have stored := (exact.get (s.freevars i)).mpr zero
      rw [if_neg zero] at node
      refine Accounted.idle ?_ ?_
      · rw [writes, addRefWrites, if_pos stored]
      · rw [moved, cells_pin exact counted]
        exact Function.update_eq_self_iff.mpr node.symm
  · have same : pin s.machine.refsTable (s.freevars i) = s.machine.refsTable := if_neg counted
    refine Accounted.idle (if_neg counted) ?_
    rw [moved, same]
    rfl

private theorem pop_accounted (nodes : ∀ o, .node o ∈ R)
    (writable : .slot v ((s.machine.vms v).top - 1) ∈ W)
    (pinned : ((s.machine.vms v).getUp (-1)).isRefCounted = true →
      (s.machine.vms v).getUp (-1) ∈ s.machine.refsTable.pinned) :
    Accounted R W other v [.pop 1] s := by
  refine Accounted.single ?_ ⟨?_, trivial⟩ ?_
  · change Function.update _ _ _ = cells other (s.machine.onVM v (popN 1))
    exact (cells_onVM rfl).symm
  · intro count
    refine ⟨.node ((s.machine.vms v).getUp (-1)), nodes _, ?_⟩
    rw [Function.update_of_ne (by simp)]
    exact if_pos (pinned count)
  · exact List.forall_mem_singleton.mpr writable

private theorem pushUserPointer_accounted (p : SQUserPointer)
    (writable : .slot v (s.machine.vms v).top ∈ W)
    (unused : ((s.machine.vms v).stack (s.machine.vms v).top).isRefCounted = false) :
    Accounted R W other v [.pushUserPointer p] s := by
  refine Accounted.single ?_ ⟨?_, trivial⟩ ?_
  · change Function.update _ _ _ = cells other (s.machine.onVM v (push (.userpointer p)))
    exact (cells_onVM rfl).symm
  · intro count
    exact absurd (count.symm.trans unused) (by decide)
  · exact List.forall_mem_singleton.mpr writable

private theorem writeAll_through {f : Cell → SQObject} (free : f .temp = .null) {cell : Cell}
    (apart : cell ≠ .temp) (o x : SQObject) :
    writeAll f [(.temp, o), (cell, x), (.temp, .null)] = Function.update f cell x := by
  change Function.update (Function.update (Function.update f .temp o) cell x) .temp .null = _
  rw [Function.update_comm apart.symm, Function.update_idem]
  apply Function.update_eq_self_iff.mpr
  rw [Function.update_of_ne apart.symm, free]

private theorem writeAll_push (m : Machine) (o : SQObject) :
    writeAll (cells other m) (pushWrites v o (m.vms v)) = cells other (m.onVM v (push o)) := by
  rw [cells_onVM rfl]
  exact writeAll_through rfl (by simp) o o

private theorem covered_push_end {f : Cell → SQObject} {o : SQObject} {i : Int}
    (slot : .slot v i ∈ R) (temp : f .temp = o) (there : f (.slot v i) = o) :
    Covered SQObject.isRefCounted R f [(.temp, .null)] := by
  refine ⟨fun _ => ⟨.slot v i, slot, ?_⟩, trivial⟩
  rw [Function.update_of_ne (by simp), temp, there]

private theorem pushObject_accounted (i : Nat) (slot : .slot v (s.machine.vms v).top ∈ R)
    (writable : .slot v (s.machine.vms v).top ∈ W) (temp : .temp ∈ W)
    (unused : ((s.machine.vms v).stack (s.machine.vms v).top).isRefCounted = false) :
    Accounted R W other v [.pushObject i] s := by
  refine Accounted.single (writeAll_push s.machine _) ⟨?_, ?_, ?_⟩ ?_
  · intro count
    exact absurd count null_uncounted
  · intro count
    rw [Function.update_of_ne (by simp)] at count
    exact absurd (count.symm.trans unused) (by decide)
  · refine covered_push_end slot ?_ (Function.update_self _ _ _)
    rw [Function.update_of_ne (by simp), Function.update_self]
  · intro w member
    rcases List.mem_cons.mp member with rfl | member
    · exact temp
    · rcases List.mem_pair.mp member with rfl | rfl
      · exact writable
      · exact temp

private theorem release_accounted {o : SQObject} {k : Nat} (value : s.freevars k = o)
    (writable : ∀ o, .node o ∈ W) (temp : .temp ∈ W) (borrow : .temp ∈ R)
    (exact : Exact SQObject.hashObj s.machine.refsTable (addPin c o))
    {i : Int} (slot : .slot v i ∈ R) (there : (s.machine.vms v).stack i = o) :
    Accounted R W other v [.release k] s := by
  have moved : (EngineCall.release k).exec v s =
      { s with machine := s.machine.setRefsTable (unpin s.machine.refsTable o) } := by
    rw [EngineCall.exec, sqRelease_eq, value]
  have node := cells_node other exact o
  by_cases counted : o.isRefCounted = true
  · have writes : (EngineCall.release k).writes v s = releaseWrites s.machine.refsTable o := by
      rw [EngineCall.writes, value]
      exact if_pos counted
    have last : (s.machine.refsTable.release SQObject.hashObj o).2 = decide (addPin c o o = 1) :=
      (exact.release (by rw [addPin_self counted]; exact Nat.succ_ne_zero _)).1
    rw [addPin_self counted] at last node
    by_cases zero : c o = 0
    · have shape : (EngineCall.release k).writes v s =
          [(.temp, o), (.node o, .null), (.temp, .null)] := by
        rw [writes, releaseWrites, last, zero]
        rfl
      refine Accounted.single ?_ ?_ ?_
      · rw [shape, moved, cells_unpin exact, if_pos zero]
        exact writeAll_through rfl (by simp) o .null
      · rw [shape]
        refine ⟨fun count => absurd count null_uncounted, fun _ => ⟨.temp, borrow, ?_⟩,
          covered_push_end (o := o) slot ?_ ?_⟩
        · rw [Function.update_of_ne (by simp), Function.update_self,
            Function.update_of_ne (by simp), node]
          rfl
        · rw [Function.update_of_ne (by simp), Function.update_self]
        · rw [Function.update_of_ne (by simp), Function.update_of_ne (by simp)]
          exact there
      · rw [shape]
        intro w member
        rcases List.mem_cons.mp member with rfl | member
        · exact temp
        · rcases List.mem_pair.mp member with rfl | rfl
          · exact writable o
          · exact temp
    · refine Accounted.idle ?_ ?_
      · rw [writes, releaseWrites, last]
        exact if_neg (by simpa using zero)
      · rw [moved, cells_unpin exact, if_neg zero]
        apply Function.update_eq_self_iff.mpr
        rw [node, if_neg (Nat.succ_ne_zero _)]
  · have same : unpin s.machine.refsTable o = s.machine.refsTable := if_neg counted
    refine Accounted.idle ?_ ?_
    · rw [EngineCall.writes, value]
      exact if_neg counted
    · rw [moved, same]
      rfl

/-- What the loop of `sq_newclosure` leaves in the cells. -/
structure Taken (v : HSQUIRRELVM) (a : Address) (j n : Nat) (vm : SQVM) (f g : Cell → SQObject) :
    Prop where
  slot : ∀ i, g (.slot v i) = (popN n vm).stack i
  outer : ∀ k, g (.outer a k) =
    if j ≤ k ∧ k < j + n then (popped n vm).getD (k - j) .null else f (.outer a k)
  rest : ∀ cell, (∀ i, cell ≠ .slot v i) → (∀ k, cell ≠ .outer a k) → g cell = f cell

private theorem takeTurn_stack (a : Address) (j : Nat) {vm : SQVM} {f : Cell → SQObject}
    (stack : ∀ i, f (.slot v i) = vm.stack i) (i : Int) :
    Function.update (Function.update f (.outer a j) (vm.getUp (-1))) (.slot v (vm.top - 1)) .null
      (.slot v i) = vm.pop.stack i := by
  rw [pop_stack]
  by_cases here : i = vm.top - 1
  · subst here
    rw [Function.update_self, Function.update_self]
  · rw [Function.update_of_ne here, Function.update_of_ne (by simpa using here),
      Function.update_of_ne (by simp), stack]

private theorem takeWrites_taken (a : Address) (j n : Nat) {vm : SQVM} {f : Cell → SQObject}
    (stack : ∀ i, f (.slot v i) = vm.stack i) :
    Taken v a j n vm f (writeAll f (takeWrites v a j n vm)) := by
  induction n generalizing j vm f with
  | zero =>
      refine ⟨stack, ?_, fun _ _ _ => rfl⟩
      intro k
      rw [if_neg (by omega)]
      rfl
  | succ n ih =>
      have next := ih (j + 1) (takeTurn_stack a j stack)
      refine ⟨next.slot, ?_, ?_⟩
      · intro k
        change writeAll _ (takeWrites v a (j + 1) n vm.pop) (.outer a k) = _
        rw [next.outer, Function.update_of_ne (by simp)]
        by_cases first : k = j
        · subst first
          rw [if_neg (by omega), Function.update_self, if_pos (by omega), Nat.sub_self]
          rfl
        · rw [Function.update_of_ne fun same => first (Cell.outer.inj same).2]
          by_cases inside : j + 1 ≤ k ∧ k < j + 1 + n
          · obtain ⟨d, rfl⟩ := Nat.exists_eq_add_of_le inside.1
            rw [if_pos inside, if_pos (by omega), Nat.add_sub_cancel_left,
              show j + 1 + d - j = d + 1 by omega]
            rfl
          · rw [if_neg inside, if_neg (by omega)]
      · intro cell apart other
        change writeAll _ (takeWrites v a (j + 1) n vm.pop) cell = _
        rw [next.rest cell apart other, Function.update_of_ne (apart _),
          Function.update_of_ne (other _)]

private theorem takeWrites_covered {a : Address} (outers : ∀ k, .outer a k ∈ R) {j n : Nat}
    {vm : SQVM} {f : Cell → SQObject} (stack : ∀ i, f (.slot v i) = vm.stack i)
    (fresh : ∀ k, j ≤ k → f (.outer a k) = .null) :
    Covered SQObject.isRefCounted R f (takeWrites v a j n vm) := by
  induction n generalizing j vm f with
  | zero => trivial
  | succ n ih =>
      refine ⟨?_, fun _ => ⟨.outer a j, outers j, ?_⟩,
        ih (takeTurn_stack a j stack) ?_⟩
      · intro count
        rw [fresh j le_rfl] at count
        exact absurd count null_uncounted
      · rw [Function.update_of_ne (by simp), Function.update_self,
          Function.update_of_ne (by simp), stack]
        rfl
      · intro k later
        rw [Function.update_of_ne (by simp),
          Function.update_of_ne fun same => absurd (Cell.outer.inj same).2 (by omega)]
        exact fresh k (by omega)

def takenMachine (v : HSQUIRRELVM) (func : SQFUNCTION) (n : Nat) (m : Machine) : Machine :=
  (m.allocObject.setNativeClosure m.nextObject
    (freshClosure func ((m.vms v).popped n))).onVM v (popN n)

private theorem cells_takenMachine (func : SQFUNCTION) (n : Nat) (m : Machine) :
    writeAll (cells other m) (takeWrites v m.nextObject 0 n (m.vms v)) =
      cells other (takenMachine v func n m) := by
  have taken : Taken v m.nextObject 0 n (m.vms v) (cells other m) _ :=
    takeWrites_taken m.nextObject 0 n fun _ => rfl
  funext cell
  cases cell with
  | slot w i =>
      by_cases here : w = v
      · subst here
        rw [taken.slot]
        change _ = ((takenMachine w func n m).vms w).stack i
        rw [takenMachine, Machine.onVM_self]
        rfl
      · rw [taken.rest _ (fun j same => here (Cell.slot.inj same).1) (by simp)]
        change (m.vms w).stack i = ((takenMachine v func n m).vms w).stack i
        rw [takenMachine, Machine.onVM_of_ne here]
        rfl
  | outer d k =>
      by_cases here : d = m.nextObject
      · subst here
        have made : cells other (takenMachine v func n m) (.outer m.nextObject k) =
            ((m.vms v).popped n).getD k .null := by
          change (if m.nextObject < m.nextObject + 1 then ((Function.update m.nativeClosures
            m.nextObject _) m.nextObject).outervalues.getD k .null else .null) = _
          rw [if_pos (Nat.lt_succ_self _), Function.update_self]
          rfl
        rw [taken.outer, made, Nat.zero_add, Nat.sub_zero]
        by_cases inside : k < n
        · rw [if_pos ⟨Nat.zero_le _, inside⟩]
        · have past : ((m.vms v).popped n)[k]? = none := by
            rw [List.getElem?_eq_none_iff, popped_length]
            exact Nat.le_of_not_lt inside
          rw [if_neg fun both => inside both.2, List.getD_eq_getElem?_getD, past]
          exact if_neg (Nat.lt_irrefl _)
      · rw [taken.rest _ (by simp) (fun j same => here (Cell.outer.inj same).1)]
        change (if d < m.nextObject then (m.nativeClosures d).outervalues.getD k .null else .null) =
          if d < m.nextObject + 1 then ((Function.update m.nativeClosures m.nextObject _)
            d).outervalues.getD k .null else .null
        rw [Function.update_of_ne here]
        by_cases old : d < m.nextObject
        · rw [if_pos old, if_pos (Nat.lt_succ_of_lt old)]
        · rw [if_neg old, if_neg fun new => here (Nat.le_antisymm (Nat.le_of_lt_succ new)
            (Nat.le_of_not_lt old))]
  | node o => rw [taken.rest _ (by simp) (by simp)]; rfl
  | temp => rw [taken.rest _ (by simp) (by simp)]; rfl
  | elsewhere k => rw [taken.rest _ (by simp) (by simp)]; rfl

private theorem newClosure_accounted (func : SQFUNCTION) (n : Nat)
    (outers : ∀ k, .outer s.machine.nextObject k ∈ R)
    (slot : .slot v ((s.machine.vms v).top - (n + 1)) ∈ R) :
    Accounted R Set.univ other v [.newClosure func (n + 1)] s := by
  have place : (takenMachine v func (n + 1) s.machine).vms v = popN (n + 1) (s.machine.vms v) := by
    rw [takenMachine, Machine.onVM_self]
    rfl
  have top : (popN (n + 1) (s.machine.vms v)).top = (s.machine.vms v).top - (n + 1) := by
    rw [popN_top]
    push_cast
    rfl
  have taken : writeAll (cells other s.machine) (takeWrites v s.machine.nextObject 0 (n + 1)
      (s.machine.vms v)) = cells other (takenMachine v func (n + 1) s.machine) :=
    cells_takenMachine func (n + 1) s.machine
  have made : (EngineCall.newClosure func (n + 1)).exec v s =
      { s with
        machine := (takenMachine v func (n + 1) s.machine).onVM v
          (push (.nativeclosure s.machine.nextObject)) } := by
    rw [EngineCall.exec, sqNewClosure_eq, takenMachine, Machine.onVM_onVM]
  refine Accounted.single ?_ ?_ fun _ _ => trivial
  · rw [EngineCall.writes, writeAll_append, taken, ← place, writeAll_push, made]
  · rw [EngineCall.writes, covered_append, taken]
    refine ⟨takeWrites_covered outers (fun _ => rfl) fun k _ => if_neg (Nat.lt_irrefl _),
      fun count => absurd count null_uncounted, ?_, ?_⟩
    · intro count
      -- the slot of the lowest value is empty by now
      rw [Function.update_of_ne (by simp)] at count
      change (((takenMachine v func (n + 1) s.machine).vms v).stack _).isRefCounted = true at count
      rw [place, top, popN_stack, if_pos (by push_cast; omega)] at count
      exact absurd count null_uncounted
    · refine covered_push_end (o := .nativeclosure s.machine.nextObject) (top ▸ slot) ?_
        (Function.update_self _ _ _)
      rw [Function.update_of_ne (by simp), Function.update_self]

end Calls

section Loops

variable {R W : Set Cell} {other : Nat → SQObject} {v : HSQUIRRELVM} {c : SQObject → Nat}

private theorem saveLoop_accounted (nodes : ∀ o, .node o ∈ R) (writable : ∀ o, .node o ∈ W)
    (temp : .temp ∈ W) (i n : Nat) (s : Shuffle)
    (slots : ∀ j < (s.machine.vms v).top, .slot v j ∈ W)
    (exact : Exact SQObject.hashObj s.machine.refsTable c) :
    Accounted R W other v (saveLoop i n) s := by
  induction n generalizing i s c with
  | zero => exact ⟨trivial, trivial, fun _ member => absurd member List.not_mem_nil⟩
  | succ n ih =>
      have value : (EngineCall.exec v s (.getStackObj (-1) i)).freevars i =
          (s.machine.vms v).getUp (-1) := Function.update_self _ _ _
      have table : (runCalls v [.getStackObj (-1) i, .addRef i] s).machine =
          s.machine.setRefsTable (pin s.machine.refsTable ((s.machine.vms v).getUp (-1))) := by
        change sqAddRef ((EngineCall.exec v s (.getStackObj (-1) i)).freevars i) s.machine = _
        rw [value, sqAddRef_eq]
      have pinned := (pin_exact exact ((s.machine.vms v).getUp (-1))).1
      have first : Accounted R W other v [.getStackObj (-1) i] s := Accounted.idle rfl rfl
      have second : Accounted R W other v [.addRef i] (runCalls v [.getStackObj (-1) i] s) :=
        addRef_accounted (s := runCalls v [.getStackObj (-1) i] s) nodes writable temp exact i
      have third : Accounted R W other v [.pop 1]
          (runCalls v [.getStackObj (-1) i, .addRef i] s) := by
        refine pop_accounted nodes ?_ ?_
        · rw [table]
          exact slots _ (by rw [Machine.setRefsTable_vms]; omega)
        · intro counted
          rw [table] at counted ⊢
          apply (pinned.pinned _).mpr
          rw [Machine.setRefsTable_vms] at counted ⊢
          rw [addPin_self counted]
          exact Nat.succ_ne_zero _
      have turn : Accounted R W other v [.getStackObj (-1) i, .addRef i, .pop 1] s :=
        first.append (second.append third)
      have after := saveTurn_run v i s
      refine turn.append (ih (i + 1) _ (fun j below => slots j ?_) ?_
        (c := addPin c ((s.machine.vms v).getUp (-1))))
      · rw [after, Machine.onVM_self, Machine.setRefsTable_vms, pop_top] at below
        exact Int.lt_of_lt_of_le below (by omega)
      · rw [after]
        exact pinned

private theorem pushObject_stack (k : Nat) (s : Shuffle) :
    ((runCalls v [.pushObject k] s).machine.vms v).stack (s.machine.vms v).top = s.freevars k := by
  change ((s.machine.onVM v (push (s.freevars k))).vms v).stack _ = s.freevars k
  rw [Machine.onVM_self, push_stack, Function.update_self]

private theorem restoreTurn_accounted {o : SQObject} {k : Nat} {s : Shuffle}
    (value : s.freevars k = o) (writable : ∀ o, .node o ∈ W) (temp : .temp ∈ W) (borrow : .temp ∈ R)
    (exact : Exact SQObject.hashObj s.machine.refsTable (addPin c o))
    (slot : .slot v (s.machine.vms v).top ∈ R) (free : .slot v (s.machine.vms v).top ∈ W)
    (unused : ((s.machine.vms v).stack (s.machine.vms v).top).isRefCounted = false) :
    Accounted R W other v [.pushObject k, .release k] s := by
  have first : Accounted R W other v [.pushObject k] s :=
    pushObject_accounted k slot free temp unused
  exact first.append (release_accounted (s := runCalls v [.pushObject k] s) value writable temp
    borrow exact slot ((pushObject_stack k s).trans value))

private theorem pushObject_lossy (k : Nat) (s : Shuffle) (slot : .slot v (s.machine.vms v).top ∈ R)
    :
    Lossy (.slot v (s.machine.vms v).top) R other v [.pushObject k] s := by
  refine ⟨⟨writeAll_push s.machine _, trivial⟩, [(.temp, s.freevars k)], s.freevars k,
    [(.temp, .null)], rfl, ⟨fun count => absurd count null_uncounted, trivial⟩, ?_, ?_⟩
  · exact List.forall_mem_singleton.mpr (by simp)
  · refine covered_push_end (o := s.freevars k) slot ?_ (Function.update_self _ _ _)
    rw [List.singleton_append, writeAll_cons, writeAll_cons, writeAll_nil,
      Function.update_of_ne (by simp), Function.update_self]

private theorem pushUserPointer_lossy (p : SQUserPointer) (s : Shuffle) :
    Lossy (.slot v (s.machine.vms v).top) R other v [.pushUserPointer p] s :=
  ⟨⟨(cells_onVM rfl).symm, trivial⟩, [], .userpointer p, [], rfl, trivial,
    fun _ member => absurd member List.not_mem_nil, trivial⟩

/-- What the second loop finds before each turn: the values that are left in the array, one pin for
each of them, and free slots from the top up to the last one it will use, which may be in use. -/
structure Restorable (R : Set Cell) (c : SQObject → Nat) (v : HSQUIRRELVM) (l : List SQObject)
    (o : SQObject) (s : Shuffle) : Prop where
  array : ∀ k < (l ++ [o]).length, (l ++ [o])[k]? = some (s.freevars k)
  exact : Exact SQObject.hashObj s.machine.refsTable ((l ++ [o]).foldl addPin c)
  slots : ∀ j, (s.machine.vms v).top ≤ j → j ≤ (s.machine.vms v).top + l.length → .slot v j ∈ R
  unused : ∀ j, (s.machine.vms v).top ≤ j → j < (s.machine.vms v).top + l.length →
    ((s.machine.vms v).stack j).isRefCounted = false

theorem Restorable.value {l : List SQObject} {o : SQObject} {s : Shuffle}
    (ready : Restorable R c v l o s) : s.freevars l.length = o := by
  have entry := ready.array l.length (by simp)
  rw [List.getElem?_append_right (Nat.le_refl _), Nat.sub_self] at entry
  exact (Option.some.inj entry).symm

private theorem restoreTurn_top (k : Nat) (s : Shuffle) :
    ((runCalls v [.pushObject k, .release k] s).machine.vms v).top =
      (s.machine.vms v).top + 1 := by
  rw [restoreTurn_run, Machine.onVM_self]
  rfl

theorem Restorable.turn {l : List SQObject} {o o' : SQObject} {s : Shuffle}
    (ready : Restorable R c v (l ++ [o']) o s) :
    Restorable R c v l o'
      (runCalls v [.pushObject (l ++ [o']).length, .release (l ++ [o']).length] s) := by
  have after := restoreTurn_run v (l ++ [o']).length s
  have top := restoreTurn_top (v := v) (l ++ [o']).length s
  have length : ((l ++ [o']).length : Int) = l.length + 1 := by simp
  have pinned := ready.exact
  rw [List.foldl_append] at pinned
  rw [ready.value] at after
  refine ⟨?_, ?_, ?_, ?_⟩
  · intro k inside
    have entry := ready.array k (by rw [List.length_append]; omega)
    rw [List.getElem?_append_left inside] at entry
    rwa [after]
  · rw [after]
    exact (unpin_exact pinned).1
  · intro j low high
    rw [top] at low high
    exact ready.slots j (by omega) (by omega)
  · intro j low high
    rw [top] at low high
    have above : j ≠ (s.machine.vms v).top := by omega
    rw [after, Machine.onVM_self, push_stack, Machine.setRefsTable_vms,
      Function.update_of_ne above]
    exact ready.unused j (by omega) (by omega)

private theorem restoreLoop_lossy (borrow : .temp ∈ R) (l : List SQObject) (o : SQObject)
    (s : Shuffle) (ready : Restorable R c v l o s) :
    Lossy (.slot v ((s.machine.vms v).top + l.length)) R other v (restoreLoop (l.length + 1))
      s := by
  induction l using List.reverseRecOn generalizing o s with
  | nil =>
      have here : .slot v (s.machine.vms v).top ∈ R := ready.slots _ (Int.le_refl _) (by simp)
      have lossy : Lossy (.slot v (s.machine.vms v).top) R other v [.pushObject 0, .release 0] s :=
        (pushObject_lossy 0 s here).append (release_accounted (s := runCalls v [.pushObject 0] s)
          ready.value (fun _ => trivial) trivial borrow ready.exact here
          ((pushObject_stack 0 s).trans ready.value))
      change Lossy (.slot v ((s.machine.vms v).top + 0)) R other v _ s
      rw [Int.add_zero]
      exact lossy
  | append_singleton l o' ih =>
      have length : ((l ++ [o']).length : Int) = l.length + 1 := by simp
      have apart : Cell.slot v (s.machine.vms v).top ≠
          .slot v ((s.machine.vms v).top + (l ++ [o']).length) := by
        intro same
        have equal := (Cell.slot.inj same).2
        omega
      have pinned := ready.exact
      rw [List.foldl_append] at pinned
      have turn : Accounted (R \ {.slot v ((s.machine.vms v).top + (l ++ [o']).length)})
          {.slot v ((s.machine.vms v).top + (l ++ [o']).length)}ᶜ other v
          [.pushObject (l ++ [o']).length, .release (l ++ [o']).length] s :=
        restoreTurn_accounted ready.value (by simp) (by simp) ⟨borrow, by simp⟩ pinned
          ⟨ready.slots _ (Int.le_refl _) (by omega), apart⟩ apart
          (ready.unused _ (Int.le_refl _) (by omega))
      have rest := ih o' _ ready.turn
      rw [restoreTurn_top, Int.add_assoc, Int.add_comm 1, ← length] at rest
      have shorter : l.length + 1 = (l ++ [o']).length := by simp
      rw [shorter] at rest
      exact Lossy.prepend turn rest

/-- The cells through which the values pass: the slots from the lowest value up to the one above
the frame, the pin table, the new closure, and the temporary. -/
def Cell.InReach (v : HSQUIRRELVM) (low high : Int) (a : Address) : Cell → Prop
  | .slot w i => w = v ∧ low ≤ i ∧ i ≤ high
  | .node _ => True
  | .outer c _ => c = a
  | .temp => True
  | .elsewhere _ => False

def reach (v : HSQUIRRELVM) (low high : Int) (a : Address) : Set Cell :=
  { cell | cell.InReach v low high a }

private theorem pins_exact {t : RefTable SQObject} (exact : Exact SQObject.hashObj t c)
    (l : List SQObject) : Exact SQObject.hashObj (l.foldl pin t) (l.foldl addPin c) := by
  induction l generalizing t c with
  | nil => exact exact
  | cons o rest ih => exact ih (pin_exact exact o).1

private theorem popped_empty (n : Nat) (vm : SQVM) {j : Int} (low : vm.top - n ≤ j)
    (high : j < vm.top) :
    (popN n vm).stack j = .null := by
  rw [popN_stack, if_pos ⟨low, high⟩]

private theorem restored_lossy {vm : SQVM} (p : SQUserPointer) (n : Nat) (a : Address) (s : Shuffle)
    (place : s.machine.vms v = push (.userpointer p) (popN (n + 1) vm))
    (array : ∀ k < n + 1, (popped (n + 1) vm)[k]? = some (s.freevars k))
    (exact : Exact SQObject.hashObj s.machine.refsTable ((popped (n + 1) vm).foldl addPin c)) :
    Lossy (.slot v vm.top) (reach v (vm.top - (n + 1 : Nat)) vm.top a) other v
      (restoreLoop (n + 1)) s := by
  have length : (popped (n + 1) vm).length = n + 1 := popped_length _ _
  obtain ⟨l, o, split⟩ : ∃ l o, popped (n + 1) vm = l ++ [o] := by
    rcases List.eq_nil_or_concat (popped (n + 1) vm) with none | ⟨l, o, split⟩
    · rw [none] at length
      cases length
    · exact ⟨l, o, by rw [split, List.concat_eq_append]⟩
  rw [split] at length array exact
  have counted : l.length = n := by
    rw [List.length_append] at length
    exact Nat.succ.inj length
  have top : (s.machine.vms v).top = vm.top - n := by
    rw [place, push_top, popN_top]
    push_cast
    omega
  have ready : Restorable (reach v (vm.top - (n + 1 : Nat)) vm.top a) c v l o s := by
    refine ⟨by rwa [length], exact, ?_, ?_⟩
    · intro j low high
      exact ⟨rfl, by push_cast; omega, by omega⟩
    · intro j low high
      rw [top] at low high
      have above : j ≠ (popN (n + 1) vm).top := by
        rw [popN_top]
        push_cast
        omega
      rw [place, push_stack, Function.update_of_ne above,
        popped_empty _ vm (by push_cast; omega) (by omega)]
      rfl
  have borrow : .temp ∈ reach v (vm.top - (n + 1 : Nat)) vm.top a := trivial
  have lossy : Lossy _ _ other v _ s := restoreLoop_lossy borrow l o s ready
  rw [top, counted, Int.sub_add_cancel] at lossy
  exact lossy

private theorem shuffle_lossy (p : SQUserPointer) (n : Nat) (a : Address) (s : Shuffle)
    (exact : Exact SQObject.hashObj s.machine.refsTable c) :
    Lossy (.slot v (s.machine.vms v).top)
      (reach v ((s.machine.vms v).top - (n + 1 : Nat)) (s.machine.vms v).top a) other v
      (saveLoop 0 (n + 1) ++ ([.pushUserPointer p] ++ restoreLoop (n + 1))) s := by
  obtain ⟨machine, -, array⟩ := saveLoop_run v 0 (n + 1) s
  have saved : (runCalls v (saveLoop 0 (n + 1)) s).machine.vms v =
      popN (n + 1) (s.machine.vms v) := by
    rw [machine, Machine.onVM_self]
    rfl
  refine Lossy.prepend ?_ (Lossy.prepend ?_ (restored_lossy (c := c) p n a _ ?_ ?_ ?_))
  · refine saveLoop_accounted ?_ (by simp) (by simp) 0 (n + 1) s ?_ exact
    · exact fun o => ⟨trivial, by simp⟩
    · intro j below same
      exact absurd (Cell.slot.inj same).2 (Int.ne_of_lt below)
  · refine pushUserPointer_accounted p ?_ ?_
    · intro same
      have equal := (Cell.slot.inj same).2
      rw [saved, popN_top] at equal
      omega
    · rw [saved, popN_top, popped_empty _ _ (Int.le_refl _) (by omega)]
      rfl
  · change ((Machine.onVM v (push (.userpointer p))
      (runCalls v (saveLoop 0 (n + 1)) s).machine).vms v) = _
    rw [Machine.onVM_self, saved]
  · intro k inside
    have entry := array k inside
    rwa [Nat.zero_add] at entry
  · change Exact SQObject.hashObj (runCalls v (saveLoop 0 (n + 1)) s).machine.refsTable _
    rw [machine]
    exact pins_exact exact _

/-- The whole of `squirrel_vm_new_closure`: the only write that can lose an object is the one to
the slot above the frame. -/
private theorem newClosureCalls_lossy (p : SQUserPointer) (n : Nat) (s : Shuffle)
    (exact : Exact SQObject.hashObj s.machine.refsTable c) :
    Lossy (.slot v (s.machine.vms v).top)
      (reach v ((s.machine.vms v).top - n) (s.machine.vms v).top s.machine.nextObject) other v
      (newClosureCalls p n) s := by
  have before := shuffle_run v p n s
  have top : ((s.machine.vms v).popN n).top = (s.machine.vms v).top - n := popN_top _ _
  rw [newClosureCalls]
  refine Lossy.append ?_ (newClosure_accounted _ n ?_ ?_)
  · cases n with
    | zero => exact pushUserPointer_lossy p s
    | succ n => exact shuffle_lossy p n s.machine.nextObject s exact
  · rw [before]
    exact fun k => rfl
  · rw [before, Machine.onVM_self, Machine.setRefsTable_vms, pushAll_top, top, List.length_cons,
      List.length_reverse, popped_length]
    exact ⟨rfl, by push_cast; omega, by push_cast; omega⟩

/-- The cells that the call itself works on. No object that could be destroyed owns them: the host
keeps the VM, and the closure is new. -/
def Cell.Working (v : HSQUIRRELVM) (a : Address) : Cell → Prop
  | .slot w _ => w = v
  | .node _ => True
  | .outer c _ => c = a
  | .temp => True
  | .elsewhere _ => False

def working (v : HSQUIRRELVM) (a : Address) : Set Cell := { cell | cell.Working v a }

private theorem reach_subset_working (v : HSQUIRRELVM) (low high : Int) (a : Address) :
    reach v low high a ⊆ working v a := by
  intro cell member
  cases cell with
  | slot w i => exact member.1
  | _ => exact member

private theorem pushWrites_working (o : SQObject) (vm : SQVM) (a : Address) :
    ∀ w ∈ pushWrites v o vm, w.1 ∈ working v a := by
  intro w member
  rcases List.mem_cons.mp member with rfl | member
  · exact trivial
  · rcases List.mem_pair.mp member with rfl | rfl
    · exact rfl
    · exact trivial

private theorem popWrites_working (n : Nat) (vm : SQVM) (a : Address) :
    ∀ w ∈ popWrites v n vm, w.1 ∈ working v a := by
  induction n generalizing vm with
  | zero => exact fun w member => absurd member List.not_mem_nil
  | succ n ih =>
      rw [popWrites, List.forall_mem_cons]
      exact ⟨rfl, ih vm.pop⟩

private theorem takeWrites_working (a : Address) (j n : Nat) (vm : SQVM) :
    ∀ w ∈ takeWrites v a j n vm, w.1 ∈ working v a := by
  induction n generalizing j vm with
  | zero => exact fun w member => absurd member List.not_mem_nil
  | succ n ih =>
      rw [takeWrites, List.forall_mem_cons, List.forall_mem_cons]
      exact ⟨rfl, rfl, ih (j + 1) vm.pop⟩

private theorem addRefWrites_working (t : RefTable SQObject) (o : SQObject) (a : Address) :
    ∀ w ∈ addRefWrites t o, w.1 ∈ working v a := by
  rw [addRefWrites]
  split
  · exact fun w member => absurd member List.not_mem_nil
  · rw [List.forall_mem_append, List.forall_mem_singleton]
    refine ⟨?_, trivial⟩
    split
    · intro w member
      obtain ⟨x, -, taken⟩ := List.mem_flatMap.mp member
      rcases List.mem_pair.mp taken with rfl | rfl <;> exact trivial
    · exact fun w member => absurd member List.not_mem_nil

private theorem releaseWrites_working (t : RefTable SQObject) (o : SQObject) (a : Address) :
    ∀ w ∈ releaseWrites t o, w.1 ∈ working v a := by
  rw [releaseWrites]
  split
  · rw [List.forall_mem_cons, List.forall_mem_cons, List.forall_mem_singleton]
    exact ⟨trivial, trivial, trivial⟩
  · exact fun w member => absurd member List.not_mem_nil

private theorem writes_working (call : EngineCall) (s : Shuffle) :
    ∀ w ∈ call.writes v s, w.1 ∈ working v s.machine.nextObject := by
  cases call with
  | getStackObj idx i => exact fun w member => absurd member List.not_mem_nil
  | addRef i =>
      rw [EngineCall.writes]
      split
      · exact addRefWrites_working _ _ _
      · exact fun w member => absurd member List.not_mem_nil
  | pop n => exact popWrites_working n _ _
  | pushUserPointer p => exact List.forall_mem_singleton.mpr rfl
  | pushObject i => exact pushWrites_working _ _ _
  | release i =>
      rw [EngineCall.writes]
      split
      · exact releaseWrites_working _ _ _
      · exact fun w member => absurd member List.not_mem_nil
  | newClosure func n =>
      rw [EngineCall.writes, List.forall_mem_append]
      exact ⟨takeWrites_working _ _ _ _, pushWrites_working _ _ _⟩

private theorem exec_nextObject {call : EngineCall} (making : ∀ func n, call ≠ .newClosure func n)
    (s : Shuffle) : (call.exec v s).machine.nextObject = s.machine.nextObject := by
  cases call with
  | addRef i => rw [EngineCall.exec, sqAddRef_eq]; rfl
  | release i => rw [EngineCall.exec, sqRelease_eq]; rfl
  | newClosure func n => exact absurd rfl (making func n)
  | _ => rfl

private theorem callWrites_working {calls : List EngineCall}
    (making : ∀ call ∈ calls, ∀ func n, call ≠ .newClosure func n) (last : EngineCall)
    (s : Shuffle) :
    ∀ w ∈ callWrites v (calls ++ [last]) s, w.1 ∈ working v s.machine.nextObject := by
  induction calls generalizing s with
  | nil =>
      change ∀ w ∈ last.writes v s ++ [], _
      rw [List.append_nil]
      exact writes_working last s
  | cons call calls ih =>
      rw [List.forall_mem_cons] at making
      rw [List.cons_append, callWrites, List.forall_mem_append]
      have later := ih making.2 (call.exec v s)
      rw [exec_nextObject making.1] at later
      exact ⟨writes_working call s, later⟩

private theorem saveLoop_making (i n : Nat) :
    ∀ call ∈ saveLoop i n, ∀ func k, call ≠ .newClosure func k := by
  induction n generalizing i with
  | zero => exact fun call member => absurd member List.not_mem_nil
  | succ n ih =>
      rw [saveLoop, List.forall_mem_cons, List.forall_mem_cons, List.forall_mem_cons]
      exact ⟨by simp, by simp, by simp, ih (i + 1)⟩

private theorem restoreLoop_making (n : Nat) :
    ∀ call ∈ restoreLoop n, ∀ func k, call ≠ .newClosure func k := by
  induction n with
  | zero => exact fun call member => absurd member List.not_mem_nil
  | succ n ih =>
      rw [restoreLoop, List.forall_mem_cons, List.forall_mem_cons]
      exact ⟨by simp, by simp, ih⟩

private theorem newClosureCalls_working (p : SQUserPointer) (n : Nat) (s : Shuffle) :
    ∀ w ∈ callWrites v (newClosureCalls p n) s, w.1 ∈ working v s.machine.nextObject := by
  rw [newClosureCalls]
  apply callWrites_working
  split
  · rw [List.forall_mem_append, List.forall_mem_cons]
    exact ⟨saveLoop_making 0 n, by simp, restoreLoop_making n⟩
  · exact List.forall_mem_singleton.mpr (by simp)

end Loops

/-- A counted reference to the object, seen from the machine: a stack slot of the frame, a node of
the pin table, or an outer value of the new closure. -/
def HasReference (m : Machine) (v : HSQUIRRELVM) (low high : Int) (a : Address) (o : SQObject) :
    Prop :=
  (∃ i, low ≤ i ∧ i ≤ high ∧ (m.vms v).stack i = o) ∨ o ∈ m.refsTable.pinned ∨
    (a < m.nextObject ∧ o ∈ (m.nativeClosures a).outervalues)

private theorem hasReference_of_held {other : Nat → SQObject} {m : Machine} {v : HSQUIRRELVM}
    {low high : Int} {a : Address} {o : SQObject} (counted : o.isRefCounted = true)
    (held : Held (reach v low high a) (cells other m) o) : HasReference m v low high a o := by
  have real : o ≠ .null := fun null => null_uncounted (null ▸ counted)
  obtain ⟨cell, inside, holds⟩ := held
  cases cell with
  | slot w i =>
      obtain ⟨rfl, above, below⟩ := inside
      exact .inl ⟨i, above, below, holds⟩
  | node x =>
      change (if x ∈ m.refsTable.pinned then x else .null) = o at holds
      split at holds
      · rename_i pinned
        exact .inr (.inl (holds ▸ pinned))
      · exact absurd holds.symm real
  | outer d j =>
      obtain rfl : d = a := inside
      change (if d < m.nextObject then (m.nativeClosures d).outervalues.getD j .null else .null) =
        o at holds
      split at holds
      · rename_i made
        rw [List.getD_eq_getElem?_getD] at holds
        cases entry : (m.nativeClosures d).outervalues[j]? with
        | none =>
            rw [entry] at holds
            exact absurd holds.symm real
        | some x =>
            rw [entry] at holds
            obtain rfl : x = o := holds
            exact .inr (.inr ⟨made, List.mem_of_getElem? entry⟩)
      · exact absurd holds.symm real
  | temp => exact absurd holds.symm real
  | elsewhere k => exact inside.elim

/-- The state in which `squirrel_vm_new_closure` makes its first engine call. -/
def newClosureStart (f : SquirrelFunction) (userData : Gpointer) (m : Machine) : Shuffle :=
  ⟨allocClosureData ⟨f, userData⟩ m, fun _ => .null⟩

abbrev Heap := Layout Cell SQObject.isRefCounted .null

/-- The references, the destroyed objects and the hooks that have run at the end of
`squirrel_vm_new_closure`. A hook leaves the VM alone. -/
def newClosureStore (heap : Heap) (self : SquirrelVm) (f : SquirrelFunction) (userData : Gpointer)
    (n : Nat) (m : Machine) (other : Nat → SQObject) (refs : SQObject → Nat) :
    Store Cell SQObject :=
  run heap (callWrites self.vm (newClosureCalls m.nextCell n) (newClosureStart f userData m))
    ⟨cells other m, refs, [], [], []⟩

private theorem slot_of_frame {other : Nat → SQObject} {m : Machine} {v : HSQUIRRELVM} {a : Address}
    {xs vs : List SQObject} {o : SQObject} (frame : (m.vms v).Frame (xs ++ vs)) (member : o ∈ vs) :
    Held (reach v ((m.vms v).top - vs.length) (m.vms v).top a \ {.slot v (m.vms v).top})
      (cells other m) o := by
  have high := ((Lib.Window.Holds.append_iff rfl).mp frame).2
  have top := high.top_eq
  obtain ⟨i, inside, rfl⟩ := List.getElem_of_mem member
  refine ⟨.slot v ((m.vms v).stackBase + xs.length + i), ⟨⟨rfl, by omega, by omega⟩, ?_⟩,
    high.cell i inside⟩
  exact fun same => absurd (Cell.slot.inj same).2 (by omega)

/-- All that was destroyed is the object in the slot above the frame and what only it held, and
none of the values; the hooks that ran are theirs; every release was carried through; and the cells
that the calls work on hold what the machine has there. -/
structure OnlyStaleGone (heap : Heap) (other : Nat → SQObject) (m : Machine) (v : HSQUIRRELVM)
    (vs : List SQObject) (after : Machine) (store : Store Cell SQObject) : Prop where
  gone : GoneWith heap (cells other m) ((m.vms v).stack (m.vms v).top)
    (· = .slot v (m.vms v).top) store.destroyed
  spared : ∀ o ∈ vs, o ∉ store.destroyed
  hooks : store.hooks = store.destroyed.filter heap.hooked
  pending : store.pending = []
  content : ∀ cell ∈ working v m.nextObject, store.content cell = cells other after cell

/-- Between any two engine calls each of the values has a counted reference and all pin counts are
restored without a failed assertion. All that can be destroyed on the way is the object in the slot
above the frame, when no other cell holds it, and what only it held, directly or through one
another; the hooks that run are theirs. -/
theorem free_variables_kept (heap : Heap) (self : SquirrelVm) (f : SquirrelFunction)
    (userData : Gpointer) (m : Machine) (xs vs : List SQObject)
    (frame : (m.vms self.vm).Frame (xs ++ vs)) (counts : SQObject → Nat)
    (exact : Exact SQObject.hashObj m.refsTable counts) (other : Nat → SQObject)
    (refs : SQObject → Nat)
    (sound : Sound SQObject.isRefCounted ⟨cells other m, refs, [], [], []⟩)
    (roots : ∀ cell ∈ working self.vm m.nextObject, ∀ o, cell ∉ heap.fields o) :
    (∀ k, ∀ o ∈ vs, o.isRefCounted = true →
      HasReference (runCalls self.vm ((newClosureCalls m.nextCell vs.length).take k)
        (newClosureStart f userData m)).machine self.vm ((m.vms self.vm).top - vs.length)
        (m.vms self.vm).top m.nextObject o) ∧
    OnlyStaleGone heap other m self.vm vs (squirrelVmNewClosure self f userData vs.length m)
      (newClosureStore heap self f userData vs.length m other refs) ∧
    Exact SQObject.hashObj (squirrelVmNewClosure self f userData vs.length m).refsTable counts ∧
    (squirrelVmNewClosure self f userData vs.length m).refsTable.failed = m.refsTable.failed := by
  have lossy : Lossy _ _ other self.vm _ (newClosureStart f userData m) :=
    newClosureCalls_lossy m.nextCell vs.length (newClosureStart f userData m) exact
  have start (o : SQObject) (member : o ∈ vs) : Held (reach self.vm
      ((m.vms self.vm).top - vs.length) (m.vms self.vm).top m.nextObject \
        {.slot self.vm (m.vms self.vm).top}) (cells other m) o := slot_of_frame frame member
  refine ⟨?_, ?_, ?_⟩
  · intro k o member counted
    obtain ⟨initial, reached⟩ := lossy.linked.take k
    have held := lossy.loss.held initial counted (start o member)
    rw [reached] at held
    exact hasReference_of_held counted held
  · obtain ⟨gone, hooks, pending, content⟩ := OneLoss.run (L := heap) sound rfl rfl rfl
      (newClosureCalls_working m.nextCell vs.length (newClosureStart f userData m)) roots
      (lossy.loss.mono (reach_subset_working _ _ _ _))
    refine ⟨gone, ?_, hooks, pending, ?_⟩
    · intro o member destroyed
      obtain ⟨cell, ⟨within, apart⟩, holds⟩ := start o member
      rcases gone.spared destroyed cell holds with same | ⟨e, owned⟩
      · exact apart same
      · exact roots cell (reach_subset_working _ _ _ _ within) e owned
    · intro cell member
      rw [newClosureStore, content cell member]
      exact congrFun lossy.linked.final cell
  · rw [squirrelVmNewClosure_eq]
    exact pins_restored exact ((m.vms self.vm).popped vs.length)

private theorem cells_new (other : Nat → SQObject) : cells other (squirrelVmNew 1024 0).1 =
    fun cell => match cell with
      | .elsewhere k => other k
      | _ => .null := by
  funext cell
  cases cell with
  | slot v i =>
      change ((squirrelVmNew 1024 0).1.vms v).stack i = .null
      rw [squirrelVmNew]
      by_cases here : v = 0
      · subst here
        rw [Machine.onVM_self]
        rfl
      · rw [Machine.onVM_of_ne here]
        rfl
  | outer a j =>
      change (if _ then ([] : List SQObject).getD j .null else .null) = .null
      split <;> rfl
  | _ => rfl

def staleSlot : Machine := (squirrelVmNew 1024 0).1.onVM 0 (write 0 (.table 5))

def tableSlot (o : SQObject) : Nat → SQObject := fun k => if k = 0 then o else .null

def tableHeap : Heap where
  fields o := if o = .table 5 then [.elsewhere 0] else []
  owners := {.table 5}
  hooked o := o.type = .inst
  nodup o := by
    split
    · exact List.nodup_singleton _
    · exact List.nodup_nil
  owned o outside := if_neg fun same => outside (Finset.mem_singleton.mpr same)
  blank := rfl

private theorem tableHeap_roots (v : HSQUIRRELVM) (a : Address) :
    ∀ cell ∈ working v a, ∀ o, cell ∉ tableHeap.fields o := by
  intro cell member o owned
  change cell ∈ (if o = .table 5 then [Cell.elsewhere 0] else []) at owned
  split at owned
  · rw [List.mem_singleton.mp owned] at member
    exact member
  · cases owned

/-- One object in one slot of the stack and one in the slot of the table, each with one
reference. -/
private theorem oneSlot_sound {f : SQVM → SQVM} {o x : SQObject} {i : Int} (apart : o ≠ x)
    (stack : (f ((squirrelVmNew 1024 0).1.vms 0)).stack =
      Function.update ((squirrelVmNew 1024 0).1.vms 0).stack i o) :
    Sound SQObject.isRefCounted
      ⟨cells (tableSlot x) ((squirrelVmNew 1024 0).1.onVM 0 f), fun _ => 1, [], [], []⟩ := by
  rw [cells_onVM stack, cells_new]
  intro y counted places holds
  have only : places ⊆ {if y = o then .slot 0 i else .elsewhere 0} := by
    intro cell member
    have content := holds cell member
    dsimp only at content
    rw [Finset.mem_singleton]
    by_cases inStack : cell = .slot 0 i
    · rw [inStack, Function.update_self] at content
      rw [if_pos content.symm, inStack]
    · rw [Function.update_of_ne inStack] at content
      cases cell with
      | elsewhere k =>
          change (if k = 0 then x else .null) = y at content
          by_cases zero : k = 0
          · rw [if_pos zero] at content
            rw [if_neg fun same => apart (same.symm.trans content.symm), zero]
          · rw [if_neg zero] at content
            exact absurd (content ▸ counted) null_uncounted
      | _ =>
          change SQObject.null = y at content
          exact absurd (content ▸ counted) null_uncounted
  simpa using Finset.card_le_card only

/-- An array that only its stack slot keeps alive, made the free variable of a closure: it is still
referenced after the third call, which has popped it. -/
theorem array_kept : HasReference
    (runCalls 0 ((newClosureCalls 1 1).take 3)
      (newClosureStart 7 9 ((squirrelVmNew 1024 0).1.onVM 0 (push (.array 5))))).machine
    0 0 1 2 (.array 5) := by
  have frame : (((squirrelVmNew 1024 0).1.onVM 0 (push (.array 5))).vms 0).Frame
      ([] ++ [.array 5]) := by
    rw [Machine.onVM_self]
    exact pushAll_holds Lib.Window.Holds.nil [.array 5]
  have kept := free_variables_kept tableHeap ⟨0⟩ 7 9 _ [] [.array 5] frame (fun _ => 0) init_exact
    _ _ (oneSlot_sound (x := .null) (by decide) rfl) (tableHeap_roots _ _)
  exact kept.1 3 (.array 5) List.mem_cons_self rfl

/-- The last reference to a stale table is overwritten by the pointer of a closure without free
variables. The table goes, and with it an instance that only the table held, whose hook runs. -/
theorem newClosure_destroys_stale_table :
    (staleSlot.vms 0).Frame ([] ++ []) ∧
      Exact SQObject.hashObj staleSlot.refsTable (fun _ => 0) ∧
      Sound SQObject.isRefCounted ⟨cells (tableSlot (.inst 6)) staleSlot, fun _ => 1, [], [], []⟩ ∧
      (∀ cell ∈ working 0 staleSlot.nextObject, ∀ o, cell ∉ tableHeap.fields o) ∧
      (newClosureStore tableHeap ⟨0⟩ 7 9 0 staleSlot (tableSlot (.inst 6)) fun _ => 1).destroyed =
        [.inst 6, .table 5] ∧
      (newClosureStore tableHeap ⟨0⟩ 7 9 0 staleSlot (tableSlot (.inst 6)) fun _ => 1).hooks =
        [.inst 6] :=
  ⟨Lib.Window.Holds.nil, init_exact, oneSlot_sound (by decide) rfl, tableHeap_roots _ _, rfl, rfl⟩

end SquirrelGObject.Wrapper
