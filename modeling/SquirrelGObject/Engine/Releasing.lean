/- SquirrelGObject/Engine/Releasing
   digest: Counts stay exact while releases cascade, the chain keeps up, and marked objects stay. -/

import Mathlib.Algebra.Order.BigOperators.Group.Finset
import Mathlib.Algebra.Order.Ring.Nat
import SquirrelGObject.Engine.Marking

set_option autoImplicit false
set_option relaxedAutoImplicit false

open SquirrelGObject.Lib.TwoWay

namespace SquirrelGObject.Engine.Collector

open SQSharedState

section Tasks

def Task.refs : Task → List Address
  | release a => [a]
  | removeFromChain _ => []
  | closeOuter p _ => [p]

def Task.unlinks : Task → List Address
  | removeFromChain c => [c]
  | release _ | closeOuter _ _ => []

def Task.closings : Task → List (Address × List SQObject)
  | closeOuter p stack => [(p, stack)]
  | release _ | removeFromChain _ => []

def Task.weight : Task → Nat
  | release _ | removeFromChain _ => 1
  | closeOuter _ _ => 4

def refsOf (tasks : List Task) : List Address := tasks.flatMap Task.refs

def unlinksOf (tasks : List Task) : List Address := tasks.flatMap Task.unlinks

def closingsOf (tasks : List Task) : List (Address × List SQObject) := tasks.flatMap Task.closings

def weightOf (tasks : List Task) : Nat := (tasks.map Task.weight).sum

variable {l l' : List SQObject} {tasks tasks' : List Task} {t : Task}

@[simp] theorem collectable_null : SQObject.null.collectable = none := rfl

@[simp] theorem collectables_nil : collectables [] = [] := rfl

@[simp] theorem collectables_cons (o : SQObject) :
    collectables (o :: l) = o.collectable.toList ++ collectables l := by
  rw [collectables, List.filterMap_cons]
  cases o.collectable <;> rfl

@[simp] theorem collectables_append : collectables (l ++ l') = collectables l ++ collectables l' :=
  List.filterMap_append

@[simp] theorem releases_nil : releases [] = [] := rfl

@[simp] theorem refsOf_nil : refsOf [] = [] := rfl

@[simp] theorem refsOf_cons : refsOf (t :: tasks) = t.refs ++ refsOf tasks := rfl

@[simp] theorem refsOf_append : refsOf (tasks ++ tasks') = refsOf tasks ++ refsOf tasks' :=
  List.flatMap_append

@[simp] theorem refsOf_releases : refsOf (releases l) = collectables l := by
  simp [refsOf, releases, List.flatMap_map, Task.refs]

@[simp] theorem unlinksOf_nil : unlinksOf [] = [] := rfl

@[simp] theorem unlinksOf_cons : unlinksOf (t :: tasks) = t.unlinks ++ unlinksOf tasks := rfl

@[simp] theorem unlinksOf_append :
    unlinksOf (tasks ++ tasks') = unlinksOf tasks ++ unlinksOf tasks' := List.flatMap_append

@[simp] theorem unlinksOf_releases : unlinksOf (releases l) = [] := by
  simp [unlinksOf, releases, Task.unlinks]

@[simp] theorem closingsOf_nil : closingsOf [] = [] := rfl

@[simp] theorem closingsOf_cons : closingsOf (t :: tasks) = t.closings ++ closingsOf tasks := rfl

@[simp] theorem closingsOf_append :
    closingsOf (tasks ++ tasks') = closingsOf tasks ++ closingsOf tasks' := List.flatMap_append

@[simp] theorem closingsOf_releases : closingsOf (releases l) = [] := by
  simp [closingsOf, releases, Task.closings]

@[simp] theorem weightOf_nil : weightOf [] = 0 := rfl

@[simp] theorem weightOf_cons : weightOf (t :: tasks) = t.weight + weightOf tasks := by
  simp [weightOf]

@[simp] theorem weightOf_append :
    weightOf (tasks ++ tasks') = weightOf tasks + weightOf tasks' := by simp [weightOf]

@[simp] theorem weightOf_releases : weightOf (releases l) = (collectables l).length := by
  simp [weightOf, releases, Task.weight, Function.comp_def]

end Tasks

namespace Collectable

def refs (body : Collectable) : List Address := collectables body.holds

private theorem pointer_none (kind : Address → SQObject) : pointer kind none = .null := rfl

private theorem openOuters_refs (l : List Address) : collectables (l.map .outer) = l := by
  induction l with
  | nil => rfl
  | cons p l ih => simp [ih, SQObject.collectable]

private theorem closing_refs (l : List Address) (stack : List SQObject) :
    refsOf (l.map (Task.closeOuter · stack)) = l := by
  simp [refsOf, List.flatMap_map, Task.refs]

private theorem closing_unlinks (l : List Address) (stack : List SQObject) :
    unlinksOf (l.map (Task.closeOuter · stack)) = [] := by
  simp [unlinksOf, Task.unlinks]

private theorem count_destroyed (ms : List ClassMember) (a : Address) :
    (collectables (ms.flatMap ClassMember.destroyed)).count a =
      (collectables (ms.flatMap ClassMember.both)).count a := by
  induction ms with
  | nil => rfl
  | cons m ms ih => simp [ClassMember.destroyed, ClassMember.both, ih]; omega

private theorem collectables_null (n : Nat) : collectables (List.replicate n .null) = [] := by
  induction n with
  | zero => rfl
  | succ n ih => simpa [List.replicate_succ] using ih

private theorem collectables_null_nodes (n : Nat) :
    collectables ((List.replicate n (SQObject.null, SQObject.null)).flatMap fun n => [n.1, n.2]) =
      [] := by
  induction n with
  | zero => rfl
  | succ n ih => simpa [List.replicate_succ] using ih

private theorem collectables_null_members (l : List ClassMember) :
    collectables ((l.map ClassMember.null).flatMap ClassMember.both) = [] := by
  induction l with
  | nil => rfl
  | cons _ l ih => simpa [ClassMember.null, ClassMember.both] using ih

theorem count_destroy (body : Collectable) (c a : Address) :
    (refsOf (body.destroy c)).count a = body.refs.count a := by
  cases body with
  | thread v =>
      simp [destroy, Thread.finalizing, refs, holds, marks, Task.refs, closing_refs,
        openOuters_refs]
      omega
  | cls k =>
      simp [destroy, Class.finalizing, refs, holds, marks, Task.refs, count_destroyed]
      omega
  | inst fields =>
      cases fields <;> simp [destroy, finalizing, refs, holds, marks, Task.refs]
  | _ =>
      simp [destroy, refs, holds, marks, Task.refs]
      try omega

/-- `Finalize` drops some of the references and leaves the others. -/
theorem count_finalizing (body : Collectable) (a : Address) :
    (refsOf body.finalizing).count a + body.finalized.refs.count a = body.refs.count a := by
  cases body with
  | thread v =>
      simp [finalizing, finalized, Thread.finalizing, Thread.finalized, refs, holds, marks,
        closing_refs, openOuters_refs, collectables_null]
      omega
  | cls k =>
      simp [finalizing, finalized, Class.finalizing, Class.finalized, refs, holds, marks,
        count_destroyed, collectables_null, collectables_null_members, pointer_none]
      omega
  | inst fields =>
      cases fields <;> simp [finalizing, finalized, refs, holds, marks]
  | _ =>
      simp [finalizing, finalized, refs, holds, marks, pointer_none, collectables_null,
        collectables_null_nodes]
      try omega

/-- The references that survive `Finalize`. -/
def leftover : Collectable → List SQObject
  | closure base function _ _ => [pointer .cls base, .funcproto function]
  | generator _ _ ciClosure => [ciClosure]
  | funcProto _ functions => functions
  | table .. | array _ | userData _ | nativeClosure _ | thread _ | cls _ | inst _ | outer .. => []

theorem finalized_refs (body : Collectable) : body.finalized.refs = collectables body.leftover := by
  cases body <;>
    simp [finalized, leftover, refs, holds, marks, Thread.finalized, Class.finalized, pointer_none,
      collectables_null, collectables_null_nodes, collectables_null_members]

@[simp] theorem unlinks_destroy (body : Collectable) (c : Address) :
    unlinksOf (body.destroy c) = [c] := by
  cases body with
  | inst fields => cases fields <;> simp [destroy, finalizing, Task.unlinks]
  | _ => simp [destroy, Thread.finalizing, Class.finalizing, Task.unlinks, closing_unlinks]

@[simp] theorem unlinks_finalizing (body : Collectable) : unlinksOf body.finalizing = [] := by
  cases body with
  | inst fields => cases fields <;> simp [finalizing]
  | _ => simp [finalizing, Thread.finalizing, Class.finalizing, closing_unlinks]

@[simp] theorem closings_destroy (body : Collectable) (c : Address) :
    closingsOf (body.destroy c) = closingsOf body.finalizing := by
  cases body with
  | inst fields => cases fields <;> simp [destroy, finalizing, Task.closings]
  | _ => simp [destroy, finalizing, Class.finalizing, Task.closings]

@[simp] theorem closings_finalized (body : Collectable) :
    closingsOf body.finalized.finalizing = [] := by
  cases body <;>
    simp [finalized, finalizing, Thread.finalizing, Thread.finalized, Class.finalizing]

theorem weight_finalizing (body : Collectable) (c : Address) :
    weightOf body.finalizing + weightOf (body.finalized.destroy c) = weightOf (body.destroy c) := by
  cases body with
  | inst fields => cases fields <;> simp [finalizing, finalized, destroy, Task.weight]; omega
  | _ =>
      simp [finalizing, finalized, destroy, Thread.finalizing, Thread.finalized, Class.finalizing,
        Class.finalized, Task.weight, pointer_none, collectables_null, collectables_null_nodes,
        collectables_null_members]
      try omega

end Collectable

namespace SQSharedState

def refsAt (s : SQSharedState) (a : Address) : List Address :=
  match s.objects a with
  | some body => body.refs
  | none => []

/-- The references to an object that the objects of a finite set hold. -/
def inbound (all : Finset Address) (s : SQSharedState) (a : Address) : Nat :=
  ∑ b ∈ all, (s.refsAt b).count a

def workAt (s : SQSharedState) (a : Address) : Nat :=
  match s.objects a with
  | some body => weightOf (body.destroy a)
  | none => 0

def work (all : Finset Address) (s : SQSharedState) : Nat := ∑ b ∈ all, s.workAt b

end SQSharedState

/-- A stack whose variables are still to be closed is released only later. -/
def Orderly : List Task → Prop
  | [] => True
  | .closeOuter _ stack :: rest => (∀ a ∈ collectables stack, a ∈ refsOf rest) ∧ Orderly rest
  | .release _ :: rest | .removeFromChain _ :: rest => Orderly rest

/-- While tasks are pending, the count of a live object is the number of references to it: from
outside, from the tasks and from the other objects. No reference dangles. -/
structure Balanced (all : Finset Address) (held : Address → Nat) (tasks : List Task)
    (s : SQSharedState) : Prop where
  inside : ∀ a, s.Live a → a ∈ all
  known : ∀ b, ∀ a ∈ s.refsAt b, s.Live a
  pending : ∀ a ∈ refsOf tasks, s.Live a
  orderly : Orderly tasks
  exact : ∀ a, s.Live a → s.uiRef a = held a + (refsOf tasks).count a + inbound all s a

/-- The chain lists the unmarked live objects and those whose destructor has not come to
`REMOVE_FROM_CHAIN` yet. -/
structure Linked (g : List Address) (tasks : List Task) (s : SQSharedState) : Prop where
  chain : Chained s.links s.gcChain g
  mem : ∀ a, a ∈ g ↔ (s.Live a ∧ s.marked a = false) ∨ a ∈ unlinksOf tasks
  nodup : (unlinksOf tasks).Nodup
  gone : ∀ a ∈ unlinksOf tasks, ¬ s.Live a ∧ s.marked a = false

section Step

variable {all : Finset Address} {held : Address → Nat} {rest tasks tasks' : List Task}
  {s s' : SQSharedState} {g : List Address} {a p : Address} {stack : List SQObject}

theorem sum_change {f f' : Address → Nat} (member : p ∈ all)
    (same : ∀ b, b ≠ p → f' b = f b) : ∑ b ∈ all, f' b + f p = ∑ b ∈ all, f b + f' p := by
  have others : ∑ b ∈ all.erase p, f' b = ∑ b ∈ all.erase p, f b :=
    Finset.sum_congr rfl fun b erased => same b (Finset.ne_of_mem_erase erased)
  have split := Finset.add_sum_erase all f member
  have split' := Finset.add_sum_erase all f' member
  omega

theorem orderly_releases (l : List SQObject) (orderly : Orderly rest) :
    Orderly (releases l ++ rest) := by
  rw [releases]
  induction collectables l with
  | nil => exact orderly
  | cons a l ih => exact ih

private theorem orderly_closing (l : List Address)
    (later : ∀ a ∈ collectables stack, a ∈ refsOf rest) (orderly : Orderly rest) :
    Orderly (l.map (Task.closeOuter · stack) ++ rest) := by
  induction l with
  | nil => exact orderly
  | cons p l ih =>
      refine ⟨fun a member => ?_, ih⟩
      change a ∈ refsOf (l.map (Task.closeOuter · stack) ++ rest)
      rw [refsOf_append]
      exact List.mem_append_right _ (later a member)

private theorem orderly_thread (v : Thread) (orderly : Orderly rest) :
    Orderly (v.finalizing ++ rest) := by
  rw [Thread.finalizing, List.append_assoc]
  refine orderly_closing _ (fun a member => ?_) (orderly_releases _ orderly)
  simp [member]

theorem Collectable.orderly_finalizing (body : Collectable) (orderly : Orderly rest) :
    Orderly (body.finalizing ++ rest) := by
  cases body with
  | thread v => exact orderly_thread v orderly
  | inst fields =>
      cases fields with
      | none => exact orderly
      | some f => exact orderly_releases _ orderly
  | _ => exact orderly_releases _ orderly

private theorem Collectable.orderly_destroy (body : Collectable) (orderly : Orderly rest) :
    Orderly (body.destroy a ++ rest) := by
  cases body with
  | thread v =>
      rw [destroy, List.append_assoc]
      exact orderly_thread v orderly
  | inst fields => exact orderly_finalizing (.inst fields) orderly
  | table =>
      rw [destroy, List.append_assoc]
      exact orderly_releases _ (orderly_releases _ orderly)
  | closure | nativeClosure | funcProto =>
      rw [destroy, List.append_assoc]
      exact orderly_releases _ orderly
  | _ => exact orderly_releases _ orderly

theorem taskStep_release (live : s.Live a) :
    (∃ body, s.objects a = some body ∧ s.uiRef a - 1 = 0 ∧ s.marked a = false ∧
      taskStep (.release a) s = (body.destroy a, (s.setRef a 0).setObject a none)) ∨
    ((s.marked a = false → s.uiRef a - 1 ≠ 0) ∧
      taskStep (.release a) s = ([], s.setRef a (s.uiRef a - 1))) := by
  obtain ⟨body, here⟩ := Option.isSome_iff_exists.mp live
  have count : (s.setRef a (s.uiRef a - 1)).uiRef a = s.uiRef a - 1 := Function.update_self _ _ _
  have same : (s.setRef a (s.uiRef a - 1)).objects a = some body := here
  by_cases zero : s.uiRef a - 1 = 0 ∧ s.marked a = false
  · refine Or.inl ⟨body, here, zero.1, zero.2, ?_⟩
    have flag : (s.setRef a (s.uiRef a - 1)).marked a = false := zero.2
    simp only [taskStep]
    rw [count, same, if_pos ⟨zero.1, flag⟩, zero.1]
  · refine Or.inr ⟨fun clear => ?_, ?_⟩
    · exact fun none => zero ⟨none, clear⟩
    · have flag : (s.setRef a (s.uiRef a - 1)).marked a = s.marked a := rfl
      simp only [taskStep]
      rw [count, flag, if_neg zero]

theorem taskStep_closeOuter (p : Address) (stack : List SQObject) (s : SQSharedState) :
    (∃ value idx, s.objects p = some (.outer value (some idx)) ∧
      taskStep (.closeOuter p stack) s = (releases [value] ++ [.release p],
        (s.addRefs (stack.getD idx .null)).setObject p
          (some (.outer (stack.getD idx .null) none)))) ∨
    taskStep (.closeOuter p stack) s = ([.release p], s) := by
  rw [taskStep]
  split
  · rename_i value idx here
    exact Or.inl ⟨value, idx, here, rfl⟩
  · exact Or.inr rfl

@[simp] theorem setObject_refsAt (s : SQSharedState) (a b : Address) (body : Option Collectable) :
    (s.setObject a body).refsAt b =
      if b = a then (body.map Collectable.refs).getD [] else s.refsAt b := by
  rw [refsAt, refsAt, setObject]
  simp only [Function.update_apply]
  split_ifs with equal
  · cases body <;> rfl
  · rfl

@[simp] theorem setObject_live (s : SQSharedState) (a b : Address) (body : Option Collectable) :
    (s.setObject a body).Live b ↔ if b = a then body.isSome = true else s.Live b := by
  change (Function.update s.objects a body b).isSome = true ↔ _
  rw [Function.update_apply]
  split_ifs <;> rfl

theorem setObject_workAt_of_ne {b : Address} (s : SQSharedState) (body : Option Collectable)
    (other : b ≠ a) : (s.setObject a body).workAt b = s.workAt b := by
  have same : (s.setObject a body).objects b = s.objects b := Function.update_of_ne other _ _
  rw [workAt, workAt, same]

@[simp] theorem setRef_refsAt (s : SQSharedState) (a : Address) (n : Nat) :
    (s.setRef a n).refsAt = s.refsAt := rfl

@[simp] theorem setRef_live (s : SQSharedState) (a : Address) (n : Nat) :
    (s.setRef a n).Live = s.Live := rfl

theorem Balanced.congr (balanced : Balanced all held tasks s) (objects : s'.objects = s.objects)
    (counts : s'.uiRef = s.uiRef) (refs : ∀ a, (refsOf tasks').count a = (refsOf tasks).count a)
    (orderly : Orderly tasks') : Balanced all held tasks' s' := by
  have live : s'.Live = s.Live := by
    funext a
    rw [Live, Live, objects]
  have refsAt : s'.refsAt = s.refsAt := by
    funext a
    rw [SQSharedState.refsAt, SQSharedState.refsAt, objects]
  refine ⟨?_, ?_, ?_, orderly, ?_⟩
  · rw [live]
    exact balanced.inside
  · rw [live, refsAt]
    exact balanced.known
  · intro a member
    rw [live]
    refine balanced.pending a (List.count_pos_iff.mp ?_)
    rw [← refs a]
    exact List.count_pos_iff.mpr member
  · intro a here
    rw [live] at here
    rw [counts, refs a, inbound, refsAt]
    exact balanced.exact a here

private theorem balanced_dropped (balanced : Balanced all held (.release a :: rest) s) :
    Balanced all held rest (s.setRef a (s.uiRef a - 1)) := by
  refine ⟨balanced.inside, balanced.known, fun b member => ?_, balanced.orderly, ?_⟩
  · exact balanced.pending b (by simp [member])
  · intro b live
    have exact := balanced.exact b live
    change Function.update s.uiRef a (s.uiRef a - 1) b = _ + inbound all s b
    rw [refsOf_cons, List.count_append, Task.refs, List.count_singleton] at exact
    rw [Function.update_apply]
    by_cases equal : b = a
    · subst equal
      simp at exact ⊢
      omega
    · have apart : (a == b) = false := by simpa using Ne.symm equal
      simp [apart, equal] at exact ⊢
      omega

private theorem balanced_freed {body : Collectable}
    (balanced : Balanced all held (.release a :: rest) s) (here : s.objects a = some body)
    (last : s.uiRef a - 1 = 0) :
    Balanced all held (body.destroy a ++ rest) ((s.setRef a 0).setObject a none) ∧
      held a = 0 ∧ (∀ b, a ∉ s.refsAt b) := by
  have live : s.Live a := by simp [Live, here]
  have refs : s.refsAt a = body.refs := by simp [refsAt, here]
  have exact := balanced.exact a live
  rw [refsOf_cons, List.count_append, Task.refs, List.count_singleton] at exact
  simp only [beq_self_eq_true, if_true] at exact
  have nobody : ∀ b, a ∉ s.refsAt b := by
    intro b member
    have alive : s.Live b := by
      rw [Live, Option.isSome_iff_ne_none]
      intro none
      simp [refsAt, none] at member
    have positive := List.count_pos_iff.mpr member
    have part : (s.refsAt b).count a ≤ inbound all s a :=
      Finset.single_le_sum (f := fun b => (s.refsAt b).count a) (fun _ _ => Nat.zero_le _)
        (balanced.inside b alive)
    omega
  have untasked : a ∉ refsOf rest := by
    intro member
    have positive := List.count_pos_iff.mpr member
    omega
  refine ⟨⟨?_, ?_, ?_, body.orderly_destroy balanced.orderly, ?_⟩, by omega, nobody⟩
  · intro b alive
    simp only [setObject_live, setRef_live] at alive
    split_ifs at alive with equal
    · cases alive
    · exact balanced.inside b alive
  · intro b c member
    simp only [setObject_refsAt, setRef_refsAt, setObject_live, setRef_live] at member ⊢
    split_ifs at member with equal
    · cases member
    · rw [if_neg]
      · exact balanced.known b c member
      · intro equal'
        exact nobody b (equal' ▸ member)
  · intro c member
    simp only [setObject_live, setRef_live]
    rw [refsOf_append, List.mem_append] at member
    rcases member with member | member
    · have held' : c ∈ s.refsAt a := by
        rw [refs]
        rw [← List.count_pos_iff, ← body.count_destroy a c]
        exact List.count_pos_iff.mpr member
      rw [if_neg]
      · exact balanced.known a c held'
      · intro equal
        exact nobody a (equal ▸ held')
    · rw [if_neg]
      · exact balanced.pending c (by simp [member])
      · intro equal
        exact untasked (equal ▸ member)
  · intro c alive
    simp only [setObject_live, setRef_live] at alive
    split_ifs at alive with equal
    · cases alive
    · have before := balanced.exact c alive
      have apart : (a == c) = false := by simpa using Ne.symm equal
      rw [refsOf_cons, List.count_append, Task.refs, List.count_singleton, apart] at before
      have moved : inbound all ((s.setRef a 0).setObject a none) c + body.refs.count c =
          inbound all s c := by
        have others : ∀ b, b ≠ a → (((s.setRef a 0).setObject a none).refsAt b).count c =
            (s.refsAt b).count c := by
          intro b other
          simp [other]
        have change := sum_change (balanced.inside a live) others
        rw [setObject_refsAt, if_pos rfl, refs] at change
        simpa [inbound] using change
      change Function.update s.uiRef a 0 c = _
      rw [Function.update_of_ne equal, refsOf_append, List.count_append, body.count_destroy]
      simp at before
      omega

theorem addRefs_uiRef (s : SQSharedState) (o : SQObject) (b : Address) :
    (s.addRefs o).uiRef b = s.uiRef b + (collectables [o]).count b := by
  rw [addRefs]
  cases here : o.collectable with
  | none => simp [here]
  | some a =>
      change Function.update s.uiRef a (s.uiRef a + 1) b = _
      rw [Function.update_apply]
      by_cases equal : b = a
      · simp [equal, here]
      · simp [equal, here, Ne.symm equal]

theorem addRefs_objects (s : SQSharedState) (o : SQObject) :
    (s.addRefs o).objects = s.objects := by
  rw [addRefs]
  cases o.collectable <;> rfl

@[simp] theorem addRefs_refsAt (s : SQSharedState) (o : SQObject) :
    (s.addRefs o).refsAt = s.refsAt := by
  funext a
  rw [refsAt, refsAt, addRefs_objects]

@[simp] theorem addRefs_live (s : SQSharedState) (o : SQObject) :
    (s.addRefs o).Live = s.Live := by
  funext a
  rw [Live, Live, addRefs_objects]

theorem collectables_getD {idx : Nat} (member : a ∈ collectables [stack.getD idx .null]) :
    a ∈ collectables stack := by
  rw [List.getD_eq_getElem?_getD] at member
  cases slot : stack[idx]? with
  | none => simp [slot] at member
  | some o =>
      obtain ⟨o', single, here⟩ := List.mem_filterMap.mp member
      obtain rfl : o' = o := by simpa [slot] using single
      exact List.mem_filterMap.mpr ⟨o', List.mem_of_getElem? slot, here⟩

private theorem balanced_closed {value : SQObject} {idx : Nat}
    (balanced : Balanced all held (.closeOuter p stack :: rest) s)
    (here : s.objects p = some (.outer value (some idx))) :
    Balanced all held (releases [value] ++ [.release p] ++ rest)
      ((s.addRefs (stack.getD idx .null)).setObject p
        (some (.outer (stack.getD idx .null) none))) := by
  obtain ⟨later, orderly⟩ := balanced.orderly
  have live : s.Live p := by simp [Live, here]
  have refs : s.refsAt p = collectables [value] := by simp [refsAt, here, Collectable.refs,
    Collectable.holds]
  refine ⟨?_, ?_, ?_, ?_, ?_⟩
  · intro b alive
    simp only [setObject_live, addRefs_live] at alive
    split_ifs at alive with equal
    · exact equal ▸ balanced.inside p live
    · exact balanced.inside b alive
  · intro b c member
    have alive : s.Live c := by
      simp only [setObject_refsAt, addRefs_refsAt] at member
      split_ifs at member with equal
      · have slot := later c (collectables_getD member)
        exact balanced.pending c (by simp [slot])
      · exact balanced.known b c member
    simp only [setObject_live, addRefs_live]
    split_ifs
    · rfl
    · exact alive
  · intro c member
    have alive : s.Live c := by
      rw [refsOf_append, refsOf_append, refsOf_releases, ← refs] at member
      simp only [List.mem_append, refsOf_cons, refsOf_nil, Task.refs, List.append_nil,
        List.mem_singleton] at member
      rcases member with (member | rfl) | member
      · exact balanced.known p c member
      · exact live
      · exact balanced.pending c (by simp [member])
    simp only [setObject_live, addRefs_live]
    split_ifs
    · rfl
    · exact alive
  · rw [List.append_assoc]
    exact orderly_releases _ orderly
  · intro c alive
    have before : s.Live c := by
      simp only [setObject_live, addRefs_live] at alive
      split_ifs at alive with equal
      · exact equal ▸ live
      · exact alive
    have exact := balanced.exact c before
    have others : ∀ b, b ≠ p → (((s.addRefs (stack.getD idx .null)).setObject p
        (some (.outer (stack.getD idx .null) none))).refsAt b).count c = (s.refsAt b).count c := by
      intro b other
      simp [other]
    have change := sum_change (balanced.inside p live) others
    rw [setObject_refsAt, if_pos rfl, refs] at change
    change (s.addRefs (stack.getD idx .null)).uiRef c = _
    rw [addRefs_uiRef]
    simp only [refsOf_append, refsOf_releases, refsOf_cons, refsOf_nil, Task.refs,
      List.count_append, List.append_nil, Option.map_some, Option.getD_some, Collectable.refs,
      Collectable.holds] at exact change ⊢
    rw [inbound] at exact ⊢
    omega

theorem Balanced.step {t : Task} (balanced : Balanced all held (t :: rest) s) :
    Balanced all held ((taskStep t s).1 ++ rest) (taskStep t s).2 := by
  cases t with
  | release a =>
      have live : s.Live a := balanced.pending a (by simp [Task.refs])
      obtain ⟨body, here, last, -, step⟩ | ⟨-, step⟩ := taskStep_release live
      · rw [step]
        exact (balanced_freed balanced here last).1
      · rw [step]
        exact balanced_dropped balanced
  | removeFromChain c =>
      rw [taskStep, List.nil_append]
      refine balanced.congr ?_ ?_ (fun a => rfl) balanced.orderly
      · split_ifs <;> rfl
      · split_ifs <;> rfl
  | closeOuter p stack =>
      obtain ⟨value, idx, here, step⟩ | step := taskStep_closeOuter p stack s
      · rw [step]
        exact balanced_closed balanced here
      · rw [step]
        exact balanced.congr rfl rfl (fun a => rfl) balanced.orderly.2

theorem linked_same (linked : Linked g tasks s) (links : s'.links = s.links)
    (head : s'.gcChain = s.gcChain) (flags : s'.marked = s.marked)
    (live : ∀ a, s'.Live a ↔ s.Live a)
    (unlinks : unlinksOf tasks' = unlinksOf tasks) : Linked g tasks' s' := by
  refine ⟨?_, ?_, ?_, ?_⟩
  · rw [links, head]
    exact linked.chain
  · intro a
    rw [live a, flags, unlinks]
    exact linked.mem a
  · rw [unlinks]
    exact linked.nodup
  · intro a member
    rw [unlinks] at member
    rw [live a, flags]
    exact linked.gone a member

theorem Linked.step {t : Task} (linked : Linked g (t :: rest) s)
    (live : ∀ a ∈ t.refs, s.Live a) :
    ∃ g', g'.Sublist g ∧ Linked g' ((taskStep t s).1 ++ rest) (taskStep t s).2 := by
  cases t with
  | release a =>
      refine ⟨g, List.Sublist.refl g, ?_⟩
      obtain ⟨body, here, -, clear, step⟩ | ⟨-, step⟩ :=
        taskStep_release (live a (by simp [Task.refs]))
      · have alive := live a (by simp [Task.refs])
        have unlisted : a ∉ unlinksOf rest := fun member => (linked.gone a member).1 alive
        rw [step]
        refine ⟨linked.chain, ?_, ?_, ?_⟩
        · intro b
          rw [linked.mem b]
          simp only [unlinksOf_append, body.unlinks_destroy, setObject_live, setRef_live,
            unlinksOf_cons, Task.unlinks, List.nil_append, List.singleton_append, List.mem_cons]
          by_cases equal : b = a
          · simp [equal, alive, clear]
          · simp only [equal, if_false, false_or]
            exact Iff.rfl
        · simp only [unlinksOf_append, body.unlinks_destroy, List.singleton_append]
          exact List.nodup_cons.mpr ⟨unlisted, linked.nodup⟩
        · intro b member
          simp only [unlinksOf_append, body.unlinks_destroy, List.singleton_append,
            List.mem_cons] at member
          simp only [setObject_live, setRef_live]
          rcases member with rfl | member
          · exact ⟨by simp, clear⟩
          · refine ⟨?_, (linked.gone b member).2⟩
            split_ifs
            · simp
            · exact (linked.gone b member).1
      · rw [step]
        exact linked_same linked rfl rfl rfl (fun a => Iff.rfl) rfl
  | removeFromChain c =>
      obtain ⟨dead, clear⟩ := linked.gone c (by simp [Task.unlinks])
      have here : c ∈ g := (linked.mem c).mpr (Or.inr (by simp [Task.unlinks]))
      have once := linked.nodup
      rw [unlinksOf_cons, Task.unlinks, List.singleton_append, List.nodup_cons] at once
      have step : taskStep (.removeFromChain c) s = ([], s.removeFromChain c) := by
        rw [taskStep, if_neg (by simp [clear])]
      rw [step]
      refine ⟨g.erase c, List.erase_sublist, linked.chain.erase here, ?_, once.2, ?_⟩
      · intro a
        rw [List.Nodup.mem_erase_iff linked.chain.nodup, linked.mem a, unlinksOf_cons, Task.unlinks,
          List.singleton_append, List.mem_cons, List.nil_append]
        change _ ↔ (s.Live a ∧ s.marked a = false) ∨ _
        by_cases equal : a = c
        · subst equal
          simp [dead, once.1]
        · simp [equal]
      · intro a member
        exact linked.gone a (List.mem_append_right _ member)
  | closeOuter p stack =>
      refine ⟨g, List.Sublist.refl g, ?_⟩
      obtain ⟨value, idx, here, step⟩ | step := taskStep_closeOuter p stack s
      · have alive := live p (by simp [Task.refs])
        rw [step]
        refine linked_same linked ?_ ?_ ?_ ?_ ?_
        · rw [setObject, addRefs]
          split <;> rfl
        · rw [setObject, addRefs]
          split <;> rfl
        · rw [setObject, addRefs]
          split <;> rfl
        · intro a
          simp only [setObject_live, addRefs_live]
          split_ifs with equal
          · simp [equal, alive]
          · rfl
        · simp [Task.unlinks]
      · rw [step]
        exact linked_same linked rfl rfl rfl (fun a => Iff.rfl) rfl

/-- Variables are closed only as a condition allows: in the tasks, and in every unmarked object,
which a task may destroy. -/
structure Allows (C : Address → List SQObject → Prop) (tasks : List Task) (s : SQSharedState) :
    Prop where
  tasks : ∀ c ∈ closingsOf tasks, C c.1 c.2
  objects : ∀ a body, s.objects a = some body → s.marked a = false →
    ∀ c ∈ closingsOf body.finalizing, C c.1 c.2

/-- A reference from outside, or from a marked object, keeps the object. -/
def Anchored (held : Address → Nat) (s : SQSharedState) (a : Address) : Prop :=
  held a ≠ 0 ∨ ∃ b, s.marked b = true ∧ a ∈ s.refsAt b

/-- What becomes of the state when tasks are performed: an object stays, is destroyed, or is an
outer that gets closed. Marked and anchored objects stay, as does a chain of marked objects, and a
count that is not zero never becomes so. -/
structure Later (C : Address → List SQObject → Prop) (held : Address → Nat)
    (s s' : SQSharedState) : Prop where
  marked : s'.marked = s.marked
  roots : s'.roots = s.roots
  object : ∀ a, s'.objects a = s.objects a ∨ s'.objects a = none ∨
    ∃ value idx stack, s.objects a = some (.outer value (some idx)) ∧ C a stack ∧
      s'.objects a = some (.outer (stack.getD idx .null) none)
  shelter : ∀ a, s.marked a = true → s'.objects a = s.objects a
  keeps : ∀ a, s.Live a → Anchored held s a → s'.Live a
  positive : ∀ a, s.marked a = false → 0 < s.uiRef a → s'.Live a → 0 < s'.uiRef a
  chain : ∀ head l, Chained s.links head l → (∀ a ∈ l, s.marked a = true) →
    Chained s'.links head l

variable {C : Address → List SQObject → Prop} {s'' : SQSharedState}

theorem Linked.unmarked (linked : Linked g tasks s) (member : a ∈ g) : s.marked a = false := by
  rcases (linked.mem a).mp member with alive | listed
  · exact alive.2
  · exact (linked.gone a listed).2

theorem later_of_counts (marked : s'.marked = s.marked) (roots : s'.roots = s.roots)
    (objects : s'.objects = s.objects) (links : s'.links = s.links)
    (counts : ∀ a, s.uiRef a ≤ s'.uiRef a) : Later C held s s' := by
  refine ⟨marked, roots, fun a => Or.inl (by rw [objects]), fun a _ => by rw [objects], ?_, ?_, ?_⟩
  · intro a live _
    rwa [Live, objects]
  · intro a _ positive _
    exact Nat.lt_of_lt_of_le positive (counts a)
  · intro head l chained _
    rwa [links]

theorem Later.refl (s : SQSharedState) : Later C held s s :=
  later_of_counts rfl rfl rfl rfl fun _ => Nat.le_refl _

theorem Later.mono {held' : Address → Nat} (later : Later C held' s s')
    (more : ∀ a, held a ≤ held' a) : Later C held s s' := by
  refine { later with keeps := fun a live anchored => later.keeps a live ?_ }
  rcases anchored with outside | inside
  · have grows := more a
    exact Or.inl (by omega)
  · exact Or.inr inside

theorem Later.live (later : Later C held s s') (alive : s'.Live a) : s.Live a := by
  rcases later.object a with same | gone | ⟨value, idx, stack, before, -, -⟩
  · rwa [Live, ← same]
  · simp [Live, gone] at alive
  · simp [Live, before]

private theorem Later.refsAt_marked (later : Later C held s s') (flag : s.marked a = true) :
    s'.refsAt a = s.refsAt a := by
  rw [refsAt, refsAt, later.shelter a flag]

theorem Later.trans (later : Later C held s s') (later' : Later C held s' s'') :
    Later C held s s'' := by
  refine ⟨later'.marked.trans later.marked, later'.roots.trans later.roots, ?_, ?_, ?_, ?_, ?_⟩
  · intro a
    rcases later'.object a with same | gone | ⟨value, idx, stack, before, allowed, after⟩
    · rw [same]
      exact later.object a
    · exact Or.inr (Or.inl gone)
    · rcases later.object a with same | gone | ⟨value', idx', stack', -, -, closed⟩
      · exact Or.inr (Or.inr ⟨value, idx, stack, same ▸ before, allowed, after⟩)
      · rw [gone] at before
        cases before
      · rw [closed] at before
        simp at before
  · intro a flag
    rw [later'.shelter a (later.marked ▸ flag), later.shelter a flag]
  · intro a live anchored
    refine later'.keeps a (later.keeps a live anchored) ?_
    rcases anchored with outside | ⟨b, flag, inside⟩
    · exact Or.inl outside
    · exact Or.inr ⟨b, later.marked ▸ flag, by rwa [later.refsAt_marked flag]⟩
  · intro a clear positive alive
    have middle : s'.Live a := later'.live alive
    exact later'.positive a (later.marked ▸ clear) (later.positive a clear positive middle) alive
  · intro head l chained flagged
    refine later'.chain head l (later.chain head l chained flagged) fun a member => ?_
    rw [later.marked]
    exact flagged a member

theorem Later.step {t : Task} (spares : ∀ p stack, C p stack → s.marked p = false)
    (balanced : Balanced all held (t :: rest) s) (linked : Linked g (t :: rest) s)
    (allows : Allows C (t :: rest) s) : Later C held s (taskStep t s).2 := by
  cases t with
  | release a =>
      have live : s.Live a := balanced.pending a (by simp [Task.refs])
      obtain ⟨body, here, last, clear, step⟩ | ⟨more, step⟩ := taskStep_release live
      · obtain ⟨-, outside, inside⟩ := balanced_freed balanced here last
        rw [step]
        refine ⟨rfl, rfl, fun b => ?_, fun b flag => ?_, fun b alive anchored => ?_,
          fun b _ positive alive => ?_, fun _ _ chained _ => chained⟩
        · by_cases equal : b = a
          · subst equal
            exact Or.inr (Or.inl (Function.update_self _ _ _))
          · exact Or.inl (Function.update_of_ne equal _ _)
        · refine Function.update_of_ne ?_ _ _
          rintro rfl
          simp [clear] at flag
        · rw [setObject_live, if_neg]
          · exact alive
          · rintro rfl
            rcases anchored with holds | ⟨c, -, holds⟩
            · exact holds outside
            · exact inside c holds
        · rw [setObject_live] at alive
          split_ifs at alive with equal
          · simp at alive
          · change 0 < Function.update s.uiRef a 0 b
            rwa [Function.update_of_ne equal]
      · rw [step]
        refine ⟨rfl, rfl, fun _ => Or.inl rfl, fun _ _ => rfl, fun _ alive _ => alive,
          fun b clear positive _ => ?_, fun _ _ chained _ => chained⟩
        change 0 < Function.update s.uiRef a (s.uiRef a - 1) b
        rw [Function.update_apply]
        split_ifs with equal
        · have remains := more (equal ▸ clear)
          omega
        · exact positive
  | removeFromChain c =>
      have here : c ∈ g := (linked.mem c).mpr (Or.inr (by simp [Task.unlinks]))
      rw [taskStep, if_neg (by simp [linked.unmarked here])]
      refine ⟨rfl, rfl, fun _ => Or.inl rfl, fun _ _ => rfl, fun _ alive _ => alive,
        fun _ _ positive _ => positive, ?_⟩
      intro head l chained flagged
      refine linked.chain.erase_other here chained fun a member inside => ?_
      exact absurd (flagged a member) (by simp [linked.unmarked inside])
  | closeOuter p stack =>
      have allowed : C p stack := allows.tasks (p, stack) (by simp [Task.closings])
      obtain ⟨value, idx, here, step⟩ | step := taskStep_closeOuter p stack s
      · have links : (s.addRefs (stack.getD idx .null)).links = s.links := by
          rw [addRefs]
          split <;> rfl
        rw [step]
        refine ⟨?_, ?_, fun b => ?_, fun b flag => ?_, fun b alive _ => ?_,
          fun b _ positive _ => ?_, fun head l chained _ => ?_⟩
        · rw [setObject, addRefs]
          split <;> rfl
        · rw [setObject, addRefs]
          split <;> rfl
        · by_cases equal : b = p
          · subst equal
            exact Or.inr (Or.inr ⟨value, idx, stack, here, allowed, Function.update_self _ _ _⟩)
          · refine Or.inl ?_
            change Function.update (s.addRefs _).objects p _ b = _
            rw [Function.update_of_ne equal, addRefs_objects]
        · change Function.update (s.addRefs _).objects p _ b = _
          rw [Function.update_of_ne, addRefs_objects]
          rintro rfl
          simp [spares b stack allowed] at flag
        · simp only [setObject_live, addRefs_live]
          split_ifs
          · rfl
          · exact alive
        · change 0 < (s.addRefs _).uiRef b
          rw [addRefs_uiRef]
          omega
        · change Chained (s.addRefs _).links head l
          rwa [links]
      · rw [step]
        exact Later.refl s

theorem Allows.step {t : Task} (live : ∀ a ∈ t.refs, s.Live a) (allows : Allows C (t :: rest) s) :
    Allows C ((taskStep t s).1 ++ rest) (taskStep t s).2 := by
  have others : ∀ c ∈ closingsOf rest, C c.1 c.2 := fun c member =>
    allows.tasks c (List.mem_append_right _ member)
  cases t with
  | release a =>
      obtain ⟨body, here, -, clear, step⟩ | ⟨-, step⟩ :=
        taskStep_release (live a (by simp [Task.refs]))
      · rw [step]
        refine ⟨fun c member => ?_, fun b body' here' clear' => ?_⟩
        · rw [closingsOf_append, body.closings_destroy, List.mem_append] at member
          rcases member with member | member
          · exact allows.objects a body here clear c member
          · exact others c member
        · change Function.update s.objects a none b = some body' at here'
          rw [Function.update_apply] at here'
          split_ifs at here'
          exact allows.objects b body' here' clear'
      · rw [step]
        exact ⟨others, allows.objects⟩
  | removeFromChain c =>
      refine ⟨others, ?_⟩
      rw [taskStep]
      split_ifs
      · exact allows.objects
      · exact allows.objects
  | closeOuter p stack =>
      obtain ⟨value, idx, here, step⟩ | step := taskStep_closeOuter p stack s
      · rw [step]
        refine ⟨fun c member => ?_, fun b body' here' clear' => ?_⟩
        · refine others c ?_
          simpa [Task.closings] using member
        · have flags : (s.addRefs (stack.getD idx .null)).marked = s.marked := by
            rw [addRefs]
            split <;> rfl
          change Function.update (s.addRefs _).objects p _ b = some body' at here'
          change (s.addRefs _).marked b = false at clear'
          rw [flags] at clear'
          rw [Function.update_apply, addRefs_objects] at here'
          split_ifs at here' with equal
          · cases here'
            simp [Collectable.finalizing]
          · exact allows.objects b body' here' clear'
      · rw [step]
        exact ⟨others, allows.objects⟩

private theorem weight_step {t : Task} (balanced : Balanced all held (t :: rest) s) :
    weightOf ((taskStep t s).1 ++ rest) + work all (taskStep t s).2 <
      weightOf (t :: rest) + work all s := by
  cases t with
  | release a =>
      have live : s.Live a := balanced.pending a (by simp [Task.refs])
      obtain ⟨body, here, -, -, step⟩ | ⟨-, step⟩ := taskStep_release live
      · rw [step]
        have others : ∀ b, b ≠ a → ((s.setRef a 0).setObject a none).workAt b = s.workAt b :=
          fun b other => setObject_workAt_of_ne _ _ other
        have change := sum_change (balanced.inside a live) others
        have after : ((s.setRef a 0).setObject a none).workAt a = 0 := by
          simp [workAt, setObject]
        have before : s.workAt a = weightOf (body.destroy a) := by simp [workAt, here]
        rw [before, after] at change
        simp only [weightOf_append, weightOf_cons, Task.weight, work]
        omega
      · rw [step]
        change weightOf rest + work all s < _
        rw [weightOf_cons, Task.weight]
        omega
  | removeFromChain c =>
      have same : work all (taskStep (.removeFromChain c) s).2 = work all s := by
        rw [taskStep]
        split_ifs <;> rfl
      rw [same, weightOf_cons, Task.weight]
      change weightOf rest + _ < _
      omega
  | closeOuter p stack =>
      obtain ⟨value, idx, here, step⟩ | step := taskStep_closeOuter p stack s
      · rw [step]
        have live : s.Live p := balanced.pending p (by simp [Task.refs])
        set v := stack.getD idx .null
        have others : ∀ b, b ≠ p →
            ((s.addRefs v).setObject p (some (.outer v none))).workAt b = s.workAt b := by
          intro b other
          rw [setObject_workAt_of_ne _ _ other, workAt, workAt, addRefs_objects]
        have change := sum_change (balanced.inside p live) others
        have before : s.workAt p = 1 + (collectables [value]).length := by
          simp [workAt, here, Collectable.destroy, Task.weight]
        have after : ((s.addRefs v).setObject p (some (.outer v none))).workAt p =
            1 + (collectables [v]).length := by
          simp [workAt, setObject, Collectable.destroy, Task.weight]
        have short : (collectables [v]).length ≤ 1 := List.length_filterMap_le _ _
        rw [before, after] at change
        simp only [weightOf_append, weightOf_releases, weightOf_cons, weightOf_nil, Task.weight,
          work]
        omega
      · rw [step]
        simp only [List.cons_append, List.nil_append, weightOf_cons, Task.weight]
        omega

/-- With enough fuel all tasks are done: the counts are exact again, the chain lists the unmarked
live objects in the order it had, and the work that is left has become less. -/
theorem perform_spec (fuel : Nat) (spares : ∀ p stack, C p stack → s.marked p = false)
    (balanced : Balanced all held tasks s) (linked : Linked g tasks s) (allows : Allows C tasks s)
    (enough : weightOf tasks + work all s ≤ fuel) :
    Balanced all held [] (perform fuel tasks s) ∧
      (∃ g', g'.Sublist g ∧ Linked g' [] (perform fuel tasks s)) ∧
      Allows C [] (perform fuel tasks s) ∧ Later C held s (perform fuel tasks s) ∧
      work all (perform fuel tasks s) + tasks.length ≤ weightOf tasks + work all s := by
  induction fuel generalizing tasks s g with
  | zero =>
      cases tasks with
      | nil =>
          exact ⟨balanced, ⟨g, List.Sublist.refl g, linked⟩, allows, Later.refl s,
            by simp [perform]⟩
      | cons t rest =>
          have less := weight_step balanced
          omega
  | succ fuel ih =>
      cases tasks with
      | nil =>
          exact ⟨balanced, ⟨g, List.Sublist.refl g, linked⟩, allows, Later.refl s,
            by simp [perform]⟩
      | cons t rest =>
          have live : ∀ a ∈ t.refs, s.Live a := fun a member =>
            balanced.pending a (List.mem_append_left _ member)
          obtain ⟨g', sub, linked'⟩ := linked.step live
          have less := weight_step balanced
          have first := Later.step spares balanced linked allows
          obtain ⟨balanced'', ⟨g'', sub', linked''⟩, allows'', later, bound⟩ := ih
            (fun p stack allowed => by rw [first.marked]; exact spares p stack allowed)
            balanced.step linked' (allows.step live) (by omega)
          refine ⟨balanced'', ⟨g'', sub'.trans sub, linked''⟩, allows'', first.trans later, ?_⟩
          rw [List.length_append] at bound
          rw [List.length_cons]
          change work all (perform fuel _ _) + _ ≤ _
          omega

end Step

end SquirrelGObject.Engine.Collector
