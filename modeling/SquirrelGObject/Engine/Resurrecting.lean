/- SquirrelGObject/Engine/Resurrecting
   digest: What `ResurrectUnreachable` pushes, and what its push releases. -/

import SquirrelGObject.Engine.Collecting

set_option autoImplicit false
set_option relaxedAutoImplicit false

open SquirrelGObject.Lib.TwoWay
open SquirrelGObject.Lib.DepthFirst

namespace SquirrelGObject.Engine.Collector

open SQSharedState

/-- A path of counted references leads from the value to the object. -/
def SQSharedState.HeldFrom (s : SQSharedState) (o : SQObject) (a : Address) : Prop :=
  Reachable s.refsAt (collectables [o]) a

section Frame

variable {region : Address → Prop} {tasks rest : List Task} {s s' : SQSharedState}
  {a : Address}

/-- Tasks that concern a region of the heap which no reference leaves. -/
structure Confined (region : Address → Prop) (tasks : List Task) (s : SQSharedState) : Prop where
  refs : ∀ a ∈ refsOf tasks, region a
  closings : ∀ c ∈ closingsOf tasks, ∀ a ∈ collectables c.2, region a
  closed : ∀ a, region a → ∀ b ∈ s.refsAt a, region b

/-- Outside of the region two states are the same. -/
def SameBeyond (region : Address → Prop) (s s' : SQSharedState) : Prop :=
  ∀ a, ¬ region a → s'.objects a = s.objects a ∧ s'.uiRef a = s.uiRef a

theorem SameBeyond.trans {s'' : SQSharedState} (first : SameBeyond region s s')
    (second : SameBeyond region s' s'') : SameBeyond region s s'' := fun a beyond =>
  ⟨(second a beyond).1.trans (first a beyond).1, (second a beyond).2.trans (first a beyond).2⟩

private theorem ne_of_beyond {b : Address} (inside : region a) (beyond : ¬ region b) : b ≠ a :=
  fun equal => beyond (equal ▸ inside)

private theorem sameBeyond_setRef (n : Nat) (inside : region a) :
    SameBeyond region s (s.setRef a n) :=
  fun _ beyond => ⟨rfl, Function.update_of_ne (ne_of_beyond inside beyond) _ _⟩

private theorem sameBeyond_setObject (body : Option Collectable) (inside : region a) :
    SameBeyond region s (s.setObject a body) :=
  fun _ beyond => ⟨Function.update_of_ne (ne_of_beyond inside beyond) _ _, rfl⟩

private theorem sameBeyond_addRefs {o : SQObject} (inside : ∀ a ∈ collectables [o], region a) :
    SameBeyond region s (s.addRefs o) := by
  rw [addRefs]
  cases here : o.collectable with
  | none => exact fun _ _ => ⟨rfl, rfl⟩
  | some a => exact sameBeyond_setRef _ (inside a (by simp [here]))

private theorem refs_of_destroy {body : Collectable} {c : Address}
    (member : a ∈ refsOf (body.destroy c)) : a ∈ body.refs := by
  rw [← List.count_pos_iff, ← body.count_destroy c]
  exact List.count_pos_iff.mpr member

private theorem stack_of_destroy {body : Collectable} {c : Address}
    {closing : Address × List SQObject}
    (member : closing ∈ closingsOf (body.destroy c)) (held : a ∈ collectables closing.2) :
    a ∈ body.refs := by
  rw [body.closings_destroy] at member
  obtain ⟨v, rfl, -, stack⟩ := mem_closings member
  rw [stack] at held
  simp [Collectable.refs, Collectable.holds, Collectable.marks, held]

private theorem taskStep_release_gone (dead : ¬ s.Live a) :
    taskStep (.release a) s = ([], s.setRef a (s.uiRef a - 1)) := by
  have gone : s.objects a = none := by simpa [Live] using dead
  have same : (s.setRef a (s.uiRef a - 1)).objects a = none := gone
  simp only [taskStep, same]
  split_ifs <;> rfl

/-- What one task does stays in the region, and so do the tasks it leaves. -/
def StepConfined (region : Address → Prop) (t : Task) (rest : List Task)
    (s : SQSharedState) : Prop :=
  Confined region ((taskStep t s).1 ++ rest) (taskStep t s).2 ∧
    SameBeyond region s (taskStep t s).2

private theorem Confined.removeFromChain {c : Address}
    (confined : Confined region (.removeFromChain c :: rest) s) :
    StepConfined region (.removeFromChain c) rest s := by
  obtain ⟨refs, closings, closed⟩ := confined
  have same : ((taskStep (.removeFromChain c) s).2).objects = s.objects ∧
      ((taskStep (.removeFromChain c) s).2).uiRef = s.uiRef := by
    simp only [taskStep]
    split_ifs <;> exact ⟨rfl, rfl⟩
  refine ⟨⟨refs, closings, fun a inside b member => closed a inside b ?_⟩,
    fun a _ => ⟨congrFun same.1 a, congrFun same.2 a⟩⟩
  rwa [refsAt, same.1] at member

private theorem Confined.release (confined : Confined region (.release a :: rest) s) :
    StepConfined region (.release a) rest s := by
  obtain ⟨refs, closings, closed⟩ := confined
  simp only [refsOf_cons, closingsOf_cons, List.forall_mem_append] at refs closings
  have inside : region a := refs.1 a (by simp [Task.refs])
  by_cases live : s.Live a
  · obtain ⟨body, here, -, -, step⟩ | ⟨-, step⟩ := taskStep_release live
    · have held : ∀ b ∈ body.refs, region b := by
        intro b member
        exact closed a inside b (by simpa [refsAt, here] using member)
      rw [StepConfined, step]
      refine ⟨⟨?_, ?_, ?_⟩, (sameBeyond_setRef 0 inside).trans (sameBeyond_setObject none inside)⟩
      · rw [refsOf_append, List.forall_mem_append]
        exact ⟨fun b member => held b (refs_of_destroy member), refs.2⟩
      · rw [closingsOf_append, List.forall_mem_append]
        exact ⟨fun c member b stack => held b (stack_of_destroy member stack), closings.2⟩
      · intro b within c member
        rw [setObject_refsAt] at member
        split_ifs at member
        · simp at member
        · exact closed b within c member
    · rw [StepConfined, step]
      exact ⟨⟨refs.2, closings.2, closed⟩, sameBeyond_setRef _ inside⟩
  · rw [StepConfined, taskStep_release_gone live]
    exact ⟨⟨refs.2, closings.2, closed⟩, sameBeyond_setRef _ inside⟩

private theorem Confined.closeOuter {p : Address} {stack : List SQObject}
    (confined : Confined region (.closeOuter p stack :: rest) s) :
    StepConfined region (.closeOuter p stack) rest s := by
  obtain ⟨refs, closings, closed⟩ := confined
  simp only [refsOf_cons, closingsOf_cons, List.forall_mem_append] at refs closings
  have inside : region p := refs.1 p (by simp [Task.refs])
  obtain ⟨value, idx, here, step⟩ | step := taskStep_closeOuter p stack s
  · have slot : ∀ a ∈ collectables [stack.getD idx .null], region a := fun a member =>
      closings.1 (p, stack) (by simp [Task.closings]) a (collectables_getD member)
    have held : ∀ a ∈ collectables [value], region a := fun a member =>
      closed p inside a (by
        simpa [refsAt, here, Collectable.refs, Collectable.holds] using member)
    rw [StepConfined, step]
    refine ⟨⟨?_, ?_, ?_⟩, (sameBeyond_addRefs slot).trans (sameBeyond_setObject _ inside)⟩
    · rw [refsOf_append, List.forall_mem_append]
      refine ⟨fun a member => ?_, refs.2⟩
      rw [refsOf_append, refsOf_releases, List.mem_append] at member
      rcases member with old | outer
      · exact held a old
      · obtain rfl : a = p := by simpa [refsOf, Task.refs] using outer
        exact inside
    · simpa [Task.closings] using closings.2
    · intro b within c member
      rw [setObject_refsAt] at member
      split_ifs at member with equal
      · exact slot c (by simpa [Collectable.refs, Collectable.holds] using member)
      · exact closed b within c (by rwa [addRefs_refsAt] at member)
  · rw [StepConfined, step]
    refine ⟨⟨?_, closings.2, closed⟩, fun _ _ => ⟨rfl, rfl⟩⟩
    rw [refsOf_append, List.forall_mem_append]
    refine ⟨fun a member => ?_, refs.2⟩
    obtain rfl : a = p := by simpa [refsOf, Task.refs] using member
    exact inside

theorem Confined.step {t : Task} (confined : Confined region (t :: rest) s) :
    StepConfined region t rest s := by
  cases t with
  | removeFromChain c => exact confined.removeFromChain
  | release a => exact confined.release
  | closeOuter p stack => exact confined.closeOuter

theorem Confined.perform (confined : Confined region tasks s) (fuel : Nat) :
    (∀ a, region a → ∀ b ∈ (perform fuel tasks s).refsAt a, region b) ∧
      SameBeyond region s (perform fuel tasks s) := by
  induction fuel generalizing tasks s with
  | zero =>
      cases tasks with
      | nil => exact ⟨confined.closed, fun _ _ => ⟨rfl, rfl⟩⟩
      | cons t rest => exact ⟨confined.closed, fun _ _ => ⟨rfl, rfl⟩⟩
  | succ fuel ih =>
      cases tasks with
      | nil => exact ⟨confined.closed, fun _ _ => ⟨rfl, rfl⟩⟩
      | cons t rest =>
          obtain ⟨confined', first⟩ := confined.step
          obtain ⟨closed, later⟩ := ih confined'
          exact ⟨closed, first.trans later⟩

end Frame

section Push

variable {all all' : Finset Address} {held : Address → Nat} {tasks : List Task}
  {s : SQSharedState} {vm fresh a : Address} {v : Thread} {o : SQObject} {i : Nat}

private theorem orderly_released {l : List SQObject} : Orderly (releases l) := by
  have orderly : Orderly (releases l ++ []) := orderly_releases l trivial
  rwa [List.append_nil] at orderly

private theorem Balanced.over (balanced : Balanced all held tasks s)
    (inside : ∀ a, s.Live a → a ∈ all') :
    Balanced all' held tasks s := by
  have nothing : ∀ a b, ¬ s.Live b → (s.refsAt b).count a = 0 := by
    intro a b dead
    have gone : s.objects b = none := by simpa [Live] using dead
    simp [refsAt, gone]
  refine { balanced with inside := inside, exact := fun a live => ?_ }
  have same : inbound all s a = inbound all' s a := by
    rw [inbound, inbound]
    refine Finset.sum_congr_of_eq_on_inter ?_ ?_ ?_
    · exact fun b _ out => nothing a b fun alive => out (inside b alive)
    · exact fun b _ out => nothing a b fun alive => out (balanced.inside b alive)
    · exact fun _ _ _ => rfl
  rw [← same]
  exact balanced.exact a live

theorem Balanced.create {s' : SQSharedState} {body : Collectable}
    (balanced : Balanced all held [] s) (new : ¬ s.Live fresh) (inside : fresh ∈ all)
    (unheld : held fresh = 0) (known : ∀ a ∈ body.refs, s.Live a)
    (objects : s'.objects = Function.update s.objects fresh (some body))
    (counts : ∀ a, s'.uiRef a = if a = fresh then 1 else s.uiRef a + body.refs.count a) :
    Balanced all (fun a => held a + (collectables [.array fresh]).count a) [] s' := by
  have refs : ∀ b, s'.refsAt b = if b = fresh then body.refs else s.refsAt b := by
    intro b
    simp only [refsAt, objects, Function.update_apply]
    split_ifs <;> rfl
  have live : ∀ b, s'.Live b ↔ b = fresh ∨ s.Live b := by
    intro b
    rw [Live, Live, objects, Function.update_apply]
    split_ifs with equal <;> simp [equal]
  have nothing : s.refsAt fresh = [] := by
    have gone : s.objects fresh = none := by simpa [Live] using new
    simp [refsAt, gone]
  refine ⟨?_, ?_, by simp, trivial, ?_⟩
  · intro a alive
    rcases (live a).mp alive with rfl | before
    · exact inside
    · exact balanced.inside a before
  · intro b a member
    rw [refs] at member
    refine (live a).mpr (Or.inr ?_)
    split_ifs at member
    · exact known a member
    · exact balanced.known b a member
  · intro a alive
    have others : ∀ b, b ≠ fresh → (s'.refsAt b).count a = (s.refsAt b).count a := by
      intro b other
      rw [refs, if_neg other]
    have change := sum_change inside others
    rw [refs, if_pos rfl, nothing, List.count_nil] at change
    have moved : inbound all s' a = inbound all s a + body.refs.count a := by
      simpa [inbound] using change
    rw [counts, moved]
    split_ifs with equal
    · subst equal
      have unreferenced : inbound all s a = 0 := by
        refine Finset.sum_eq_zero fun b _ => List.count_eq_zero.mpr fun member => ?_
        exact new (balanced.known b a member)
      have apart : body.refs.count a = 0 :=
        List.count_eq_zero.mpr fun member => new (known a member)
      simp [unheld, unreferenced, apart, SQObject.collectable]
    · have before := balanced.exact a (((live a).mp alive).resolve_left equal)
      have away : (collectables [SQObject.array fresh]).count a = 0 := by
        simp [SQObject.collectable, Ne.symm equal]
      rw [refsOf_nil, List.count_nil] at before
      rw [away]
      simp
      omega

private theorem collectables_set {l : List SQObject} (inside : i < l.length) (a : Address) :
    (collectables (l.set i o)).count a + (collectables [l.getD i .null]).count a =
      (collectables l).count a + (collectables [o]).count a := by
  induction l generalizing i with
  | nil => simp at inside
  | cons x l ih =>
      cases i with
      | zero => simp; omega
      | succ i =>
          have rest := ih (i := i) (by simpa using inside)
          simp at rest ⊢
          omega

private theorem push_refs (room : v.top < v.stack.length) (a : Address) :
    (Collectable.thread (v.push o)).refs.count a +
        (collectables [v.stack.getD v.top .null]).count a =
      (Collectable.thread v).refs.count a + (collectables [o]).count a := by
  have slot := collectables_set (o := o) room a
  simp only [Collectable.refs, Collectable.holds, Collectable.marks, Thread.push,
    collectables_append, List.count_append]
  omega

/-- The state with the value pushed, to which the temporary still refers as well. -/
def pushedOn (vm : Address) (v : Thread) (o : SQObject) (u : SQSharedState) : SQSharedState :=
  (u.addRefs o).setObject vm (some (.thread (v.push o)))

private theorem pushedOn_live (here : s.objects vm = some (.thread v)) (a : Address) :
    (pushedOn vm v o s).Live a ↔ s.Live a := by
  rw [pushedOn, setObject_live, addRefs_live]
  split_ifs with equal
  · simp [equal, Live, here]
  · rfl

private theorem pushedOn_refsAt (b : Address) :
    (pushedOn vm v o s).refsAt b =
      if b = vm then (Collectable.thread (v.push o)).refs else s.refsAt b := by
  rw [pushedOn, setObject_refsAt, addRefs_refsAt]
  rfl

private theorem pushedOn_uiRef (a : Address) :
    (pushedOn vm v o s).uiRef a = s.uiRef a + (collectables [o]).count a :=
  addRefs_uiRef s o a

private theorem push_held (room : v.top < v.stack.length) (held : o.collectable = some a) :
    a ∈ (Collectable.thread (v.push o)).refs := by
  have slot : o ∈ v.stack.set v.top o :=
    List.mem_iff_getElem.mpr ⟨v.top, by simpa using room, by simp⟩
  have member : a ∈ collectables (v.stack.set v.top o) :=
    List.mem_filterMap.mpr ⟨o, slot, held⟩
  simp [Collectable.refs, Collectable.holds, Collectable.marks, Thread.push, member]

theorem Balanced.push (balanced : Balanced all held [] s) (here : s.objects vm = some (.thread v))
    (room : v.top < v.stack.length) (known : ∀ a ∈ collectables [o], s.Live a) :
    Balanced all held (releases [v.stack.getD v.top .null]) (pushedOn vm v o s) := by
  have alive : s.Live vm := by simp [Live, here]
  have refs : s.refsAt vm = (Collectable.thread v).refs := by simp [refsAt, here]
  have either : ∀ a, a ∈ (Collectable.thread (v.push o)).refs ∨
      a ∈ collectables [v.stack.getD v.top .null] → s.Live a := by
    intro a member
    have traded := push_refs (o := o) room a
    have positive : 0 < (Collectable.thread v).refs.count a + (collectables [o]).count a := by
      rw [← traded]
      rcases member with member | member
      · exact Nat.add_pos_left (List.count_pos_iff.mpr member) _
      · exact Nat.add_pos_right _ (List.count_pos_iff.mpr member)
    rcases Nat.add_pos_iff_pos_or_pos.mp positive with old | new
    · exact balanced.known vm a (refs ▸ List.count_pos_iff.mp old)
    · exact known a (List.count_pos_iff.mp new)
  refine ⟨fun a after => balanced.inside a ((pushedOn_live here a).mp after), ?_, ?_,
    orderly_released, ?_⟩
  · intro b a member
    rw [pushedOn_live here]
    rw [pushedOn_refsAt] at member
    split_ifs at member
    · exact either a (Or.inl member)
    · exact balanced.known b a member
  · intro a member
    rw [pushedOn_live here]
    rw [refsOf_releases] at member
    exact either a (Or.inr member)
  · intro a after
    have before := balanced.exact a ((pushedOn_live here a).mp after)
    have others : ∀ b, b ≠ vm →
        ((pushedOn vm v o s).refsAt b).count a = (s.refsAt b).count a := by
      intro b other
      rw [pushedOn_refsAt, if_neg other]
    have change := sum_change (balanced.inside vm alive) others
    rw [pushedOn_refsAt, if_pos rfl, refs] at change
    have traded := push_refs (o := o) room a
    rw [refsOf_nil, List.count_nil] at before
    rw [pushedOn_uiRef, refsOf_releases]
    rw [inbound] at before ⊢
    omega

private theorem Balanced.dropValue
    (balanced : Balanced all (fun a => held a + (collectables [o]).count a) [] s)
    (live : ∀ a ∈ collectables [o], s.Live a) : Balanced all held (releases [o]) s := by
  refine ⟨balanced.inside, balanced.known, fun a member => ?_, orderly_released,
    fun a alive => ?_⟩
  · exact live a (by rwa [refsOf_releases] at member)
  · have before := balanced.exact a alive
    rw [refsOf_nil, List.count_nil] at before
    rw [refsOf_releases]
    omega

private theorem length_collectables_set {l : List SQObject} :
    (collectables (l.set i o)).length ≤ (collectables l).length + 1 := by
  induction l generalizing i with
  | nil => simp
  | cons x l ih =>
      cases i with
      | zero =>
          have short : o.collectable.toList.length ≤ 1 := by cases o.collectable <;> simp
          simp
          omega
      | succ i =>
          have rest := ih (i := i)
          simp
          omega

private theorem weight_thread (v : Thread) (c : Address) :
    weightOf ((Collectable.thread v).destroy c) = 4 * v.openOuters.length +
      (collectables ([v.rootTable, v.lastError, v.errorHandler, v.debugHookClosure, v.tempReg] ++
        v.calls)).length + (collectables v.stack).length + 1 := by
  have outers : weightOf (v.openOuters.map (Task.closeOuter · v.stack)) =
      4 * v.openOuters.length := by
    induction v.openOuters with
    | nil => rfl
    | cons p l ih => simp [Task.weight, ih]; omega
  simp only [Collectable.destroy, Thread.finalizing, weightOf_append, weightOf_releases, outers,
    weightOf_cons, weightOf_nil, Task.weight, collectables_append, List.length_append]
  omega

private theorem weight_push (c : Address) :
    weightOf ((Collectable.thread (v.push o)).destroy c) ≤
      weightOf ((Collectable.thread v).destroy c) + 1 := by
  have longer := length_collectables_set (l := v.stack) (i := v.top) (o := o)
  rw [weight_thread, weight_thread]
  simp only [Thread.push]
  omega

end Push

section Resurrect

variable {s u : SQSharedState} {external : Address → Nat} {g lost : List Address}
  {fresh vm : Address} {v : Thread} {bound : Nat} {r : Nat × SQObject × SQSharedState}

def SQSharedState.pushFound (s : SQSharedState) (fresh vm : Address) (v : Thread)
    (lost : List Address) : SQSharedState :=
  (s.withFound fresh lost).setObject vm (some (.thread (v.push (foundValue fresh lost))))

private theorem carried_live (members : ∀ a, a ∈ lost ↔ s.Live a ∧ ¬ s.Reach a) {a : Address}
    (member : a ∈ (Collectable.array (s.carried lost)).refs) : s.Live a :=
  ((members a).mp (collectables_carried member)).1

theorem Resurrected.balanced (resurrected : Resurrected s fresh lost r)
    (sound : s.Sound external g) (members : ∀ a, a ∈ lost ↔ s.Live a ∧ ¬ s.Reach a)
    (new : ¬ s.Live fresh) (unheld : external fresh = 0) :
    Balanced (insert fresh g.toFinset)
      (fun a => s.heldBy external a + (collectables [foundValue fresh lost]).count a) [] r.2.2 := by
  have wide : Balanced (insert fresh g.toFinset) (s.heldBy external) [] s :=
    sound.balanced.over fun a live =>
      Finset.mem_insert_of_mem (List.mem_toFinset.mpr ((sound.listed.mem a).mpr live))
  have objects := resurrected.objects
  have counts := resurrected.uiRef
  by_cases none : lost = []
  · rw [withFound, if_pos none] at objects counts
    simpa [foundValue, none] using wide.congr objects counts (fun _ => rfl) trivial
  · rw [withFound, if_neg none] at objects counts
    rw [foundValue, if_neg none]
    refine wide.create new (Finset.mem_insert_self _ _) ?_ (fun a => carried_live members) objects
      (congrFun counts)
    have unrooted : (collectables s.roots.visited).count fresh = 0 :=
      List.count_eq_zero.mpr fun root => new (sound.rooted fresh root)
    rw [heldBy, unrooted, unheld]

theorem Resurrected.array (resurrected : Resurrected s fresh lost r) (some : lost ≠ []) :
    r.2.2.objects fresh = .some (.array (s.carried lost)) := by
  rw [resurrected.objects, withFound, if_neg some]
  exact Function.update_self _ _ _

theorem Resurrected.known (resurrected : Resurrected s fresh lost r) :
    ∀ a ∈ collectables [foundValue fresh lost], r.2.2.Live a := by
  intro a member
  by_cases none : lost = []
  · simp [foundValue, none] at member
  · obtain rfl : a = fresh := by simpa [foundValue, none, SQObject.collectable] using member
    simp [Live, resurrected.array none]

theorem Resurrected.other (resurrected : Resurrected s fresh lost r) {a : Address}
    (other : a ≠ fresh) : r.2.2.objects a = s.objects a := by
  rw [resurrected.objects, withFound]
  split_ifs
  · rfl
  · exact Function.update_of_ne other _ _

theorem Resurrected.work (resurrected : Resurrected s fresh lost r) (listed : s.Listed g)
    (sub : lost.Sublist g) (new : ¬ s.Live fresh) (calling : s.objects vm = some (.thread v)) :
    work (insert fresh g.toFinset) (pushedOn vm v (foundValue fresh lost) r.2.2) ≤
      2 * work g.toFinset s + 2 := by
  set s' := pushedOn vm v (foundValue fresh lost) r.2.2 with pushed
  have apart : vm ≠ fresh := by
    intro equal
    exact new (equal ▸ by simp [Live, calling])
  have out : fresh ∉ g.toFinset := fun member =>
    new ((listed.mem fresh).mp (List.mem_toFinset.mp member))
  have inside : vm ∈ g.toFinset :=
    List.mem_toFinset.mpr ((listed.mem vm).mpr (by simp [Live, calling]))
  have few : lost.length ≤ SQSharedState.work g.toFinset s :=
    sub.length_le.trans (length_le_work listed)
  have array : r.2.2.workAt fresh ≤ lost.length + 1 := by
    by_cases none : lost = []
    · have gone : s.objects fresh = .none := by simpa [Live] using new
      have same : r.2.2.objects fresh = .none := by
        rw [resurrected.objects, withFound, if_pos none, gone]
      simp [workAt, same]
    · have carried : (collectables (s.carried lost)).length ≤ lost.length :=
        (List.length_filterMap_le _ _).trans
          ((List.length_filter_le _ _).trans (List.length_filterMap_le _ _))
      rw [workAt, resurrected.array none]
      simp only [Collectable.destroy, weightOf_cons, Task.weight, weightOf_releases]
      omega
  have created : ∑ a ∈ g.toFinset, r.2.2.workAt a = SQSharedState.work g.toFinset s :=
    Finset.sum_congr rfl fun a member => by
      rw [workAt, workAt, resurrected.other fun equal => out (equal ▸ member)]
  have others : ∀ b, b ≠ vm → s'.workAt b = r.2.2.workAt b := by
    intro b other
    rw [pushed, pushedOn, setObject_workAt_of_ne _ _ other, workAt, workAt, addRefs_objects]
  have change := sum_change inside others
  have caller : s'.workAt vm ≤ r.2.2.workAt vm + 1 := by
    have here : r.2.2.objects vm = some (.thread v) := (resurrected.other apart).trans calling
    have after : s'.objects vm = some (.thread (v.push (foundValue fresh lost))) :=
      Function.update_self _ _ _
    rw [workAt, workAt, here, after]
    exact weight_push vm
  rw [SQSharedState.work, Finset.sum_insert out, others fresh apart.symm]
  omega

/-- Between two calls of the engine releasing a value keeps the counts exact and the chain in step,
and destroys nothing that is held from outside. -/
structure Settled (all : Finset Address) (held : Address → Nat) (s s' : SQSharedState) : Prop where
  balanced : Balanced all held [] s'
  linked : ∃ g', Linked g' [] s'
  clear : ∀ a, s'.marked a = false
  later : Later (fun _ _ => True) held s s'
  less : work all s' ≤ work all s

private theorem release_settled {all : Finset Address} {held : Address → Nat} {o : SQObject}
    {g' : List Address} (bound : Nat) (clear : ∀ a, u.marked a = false)
    (balanced : Balanced all held (releases [o]) u) (linked : Linked g' [] u)
    (enough : work all u < bound) :
    Settled all held u (perform bound (releases [o]) u) := by
  have single : weightOf (releases [o]) = (releases [o]).length ∧ (releases [o]).length ≤ 1 := by
    cases here : o.collectable <;> simp [releases, here, Task.weight]
  have linked' : Linked g' (releases [o]) u :=
    linked_same linked rfl rfl rfl (fun _ => Iff.rfl) (by simp)
  obtain ⟨balanced, ⟨g'', -, linked⟩, -, later, less⟩ := perform_spec (C := fun _ _ => True) bound
    (fun p _ _ => clear p) balanced linked'
    ⟨fun _ _ => trivial, fun _ _ _ _ _ _ => trivial⟩ (by omega)
  exact ⟨balanced, ⟨g'', linked⟩, fun a => (congrFun later.marked a).trans (clear a), later,
    by omega⟩

/-- What lay in the overwritten slot is released, then the reference of the temporary. -/
def released (bound : Nat) (old o : SQObject) (s : SQSharedState) : SQSharedState :=
  perform bound (releases [o]) (perform bound (releases [old]) s)

private theorem released_settled {all : Finset Address} {held : Address → Nat}
    {old o : SQObject} {g' : List Address} (bound : Nat) (clear : ∀ a, u.marked a = false)
    (balanced : Balanced all (fun a => held a + (collectables [o]).count a) (releases [old]) u)
    (linked : Linked g' [] u) (live : ∀ a ∈ collectables [o], u.Live a)
    (enough : work all u < bound) : Settled all held u (released bound old o u) := by
  have first := release_settled bound clear balanced linked enough
  obtain ⟨g₁, linked₁⟩ := first.linked
  have still : ∀ a ∈ collectables [o], (perform bound (releases [old]) u).Live a := by
    intro a member
    have positive := List.count_pos_iff.mpr member
    refine first.later.keeps a (live a member) (Or.inl ?_)
    change held a + _ ≠ 0
    omega
  have less := first.less
  have second := release_settled bound first.clear (first.balanced.dropValue still) linked₁
    (by omega)
  have before : Later (fun _ _ => True) held u (perform bound (releases [old]) u) :=
    first.later.mono fun a => Nat.le_add_right _ _
  exact ⟨second.balanced, second.linked, second.clear, before.trans second.later,
    second.less.trans less⟩

private theorem pushedOn_linked {o : SQObject} (listed : u.Listed g)
    (here : u.objects vm = some (.thread v)) :
    Linked g [] (pushedOn vm v o u) ∧ (∀ a, (pushedOn vm v o u).marked a = false) ∧
      (pushedOn vm v o u).roots = u.roots := by
  obtain ⟨links, head, marked, roots⟩ : (pushedOn vm v o u).links = u.links ∧
      (pushedOn vm v o u).gcChain = u.gcChain ∧ (pushedOn vm v o u).marked = u.marked ∧
      (pushedOn vm v o u).roots = u.roots := by
    rw [pushedOn, addRefs]
    cases o.collectable <;> exact ⟨rfl, rfl, rfl, rfl⟩
  have before : Linked g [] u :=
    ⟨listed.chain, fun a => by simp [listed.mem, listed.unmarked], List.nodup_nil, by simp⟩
  exact ⟨linked_same before links head marked (pushedOn_live here) rfl,
    fun a => (congrFun marked a).trans (listed.unmarked a), roots⟩

private theorem Settled.listed {all : Finset Address} {held : Address → Nat}
    {s' : SQSharedState} (settled : Settled all held s s') : ∃ g', s'.Listed g' := by
  obtain ⟨g', linked⟩ := settled.linked
  refine ⟨g', linked.chain, fun a => ?_, settled.clear⟩
  refine (linked.mem a).trans ⟨?_, fun alive => Or.inl ⟨alive, settled.clear a⟩⟩
  rintro (⟨alive, -⟩ | task)
  · exact alive
  · simp at task

theorem Resurrected.settled (resurrected : Resurrected s fresh lost r) (sound : s.Sound external g)
    (members : ∀ a, a ∈ lost ↔ s.Live a ∧ ¬ s.Reach a) (sub : lost.Sublist g)
    (calling : s.objects vm = some (.thread v)) (room : v.top < v.stack.length)
    (new : ¬ s.Live fresh) (unheld : external fresh = 0)
    (enough : 2 * SQSharedState.work g.toFinset s + 2 < bound) :
    Settled (insert fresh g.toFinset) (s.heldBy external)
        (pushedOn vm v (foundValue fresh lost) r.2.2)
        (released bound (v.stack.getD v.top .null) (foundValue fresh lost)
          (pushedOn vm v (foundValue fresh lost) r.2.2)) ∧
      (pushedOn vm v (foundValue fresh lost) r.2.2).roots = s.roots := by
  have here : r.2.2.objects vm = some (.thread v) := by
    refine (resurrected.other fun equal => new ?_).trans calling
    simp [← equal, Live, calling]
  have limit := resurrected.work sound.listed sub new calling
  have balanced := (resurrected.balanced sound members new unheld).push here room resurrected.known
  obtain ⟨g₀, listed⟩ := resurrected.listed
  obtain ⟨linked, clear, roots⟩ := pushedOn_linked (o := foundValue fresh lost) listed here
  exact ⟨released_settled bound clear balanced linked
    (fun a member => (pushedOn_live here a).mpr (resurrected.known a member)) (by omega),
    roots.trans resurrected.roots⟩

private theorem Resurrected.pushed_objects (resurrected : Resurrected s fresh lost r)
    (vm : Address) (v : Thread) :
    (pushedOn vm v (foundValue fresh lost) r.2.2).objects =
      (s.pushFound fresh vm v lost).objects := by
  change Function.update (r.2.2.addRefs _).objects vm _ = Function.update _ vm _
  rw [addRefs_objects, resurrected.objects]

private theorem pushFound_live {a : Address} (live : s.Live a) :
    (s.pushFound fresh vm v lost).Live a := by
  rw [pushFound, setObject_live]
  split_ifs
  · rfl
  rw [withFound]
  split_ifs
  · exact live
  · change (Function.update s.objects fresh _ a).isSome = true
    rw [Function.update_apply]
    split_ifs
    · rfl
    · exact live

private theorem Settled.sound {u u' : SQSharedState} {all : Finset Address}
    (settled : Settled all (s.heldBy external) u u') (roots : u.roots = s.roots)
    (rooted : ∀ a ∈ collectables s.roots.visited, u.Live a) : ∃ g', u'.Sound external g' := by
  obtain ⟨g', listed⟩ := settled.listed
  have same : u'.roots = s.roots := settled.later.roots.trans roots
  refine ⟨g', listed, fun a root => ?_, ?_⟩
  · rw [same] at root
    have positive : 0 < s.heldBy external a :=
      Nat.add_pos_left (List.count_pos_iff.mpr root) _
    exact settled.later.keeps a (rooted a root) (Or.inl (by omega))
  · have held : u'.heldBy external = s.heldBy external := by
      funext a
      rw [heldBy, heldBy, same]
    rw [held]
    exact settled.balanced.over fun a live => List.mem_toFinset.mpr ((listed.mem a).mpr live)

private theorem perform_release_kept {a : Address} (bound : Nat) (live : u.Live a)
    (more : 1 < u.uiRef a) (some : 0 < bound) :
    perform bound [.release a] u = u.setRef a (u.uiRef a - 1) := by
  obtain ⟨fuel, rfl⟩ := Nat.exists_eq_add_one.mpr some
  obtain ⟨-, -, last, -, -⟩ | ⟨-, step⟩ := taskStep_release live
  · omega
  · cases fuel <;> simp [perform, step]

private theorem Resurrected.pushed_uiRef (resurrected : Resurrected s fresh lost r)
    (vm : Address) (v : Thread) (a : Address) :
    (pushedOn vm v (foundValue fresh lost) r.2.2).uiRef a =
      (s.pushFound fresh vm v lost).uiRef a + (collectables [foundValue fresh lost]).count a := by
  rw [pushedOn_uiRef, resurrected.uiRef]
  rfl

private theorem Resurrected.confined (resurrected : Resurrected s fresh lost r)
    (vm : Address) (v : Thread) (old : SQObject) :
    Confined ((s.pushFound fresh vm v lost).HeldFrom old) (releases [old])
      (pushedOn vm v (foundValue fresh lost) r.2.2) := by
  refine ⟨fun b member => ?_, by simp, fun b reach c member => ?_⟩
  · exact ⟨b, by rwa [refsOf_releases] at member, .refl⟩
  · exact reach.child (by rwa [refsAt, resurrected.pushed_objects] at member)

private theorem Resurrected.pushed_array (resurrected : Resurrected s fresh lost r)
    (some : lost ≠ []) (other : fresh ≠ vm) :
    (pushedOn vm v (.array fresh) r.2.2).objects fresh = .some (.array (s.carried lost)) ∧
      (pushedOn vm v (.array fresh) r.2.2).uiRef fresh = 2 := by
  constructor
  · change Function.update (r.2.2.addRefs _).objects vm _ fresh = _
    rw [Function.update_of_ne other, addRefs_objects, resurrected.array some]
  · rw [pushedOn_uiRef, resurrected.uiRef]
    simp [withFound, some, SQObject.collectable]

theorem Resurrected.frame (resurrected : Resurrected s fresh lost r) (new : ¬ s.Live fresh)
    (calling : s.objects vm = some (.thread v)) (old : SQObject) (some : 0 < bound) {a : Address}
    (apart : ¬ (s.pushFound fresh vm v lost).HeldFrom old a) :
    (released bound old (foundValue fresh lost)
        (pushedOn vm v (foundValue fresh lost) r.2.2)).objects a =
          (s.pushFound fresh vm v lost).objects a ∧
      (released bound old (foundValue fresh lost)
        (pushedOn vm v (foundValue fresh lost) r.2.2)).uiRef a =
          (s.pushFound fresh vm v lost).uiRef a := by
  have objects := resurrected.pushed_objects vm v
  have counts := resurrected.pushed_uiRef vm v
  obtain ⟨closed, first⟩ := (resurrected.confined vm v old).perform bound
  rw [released]
  by_cases none : lost = []
  · have null : foundValue fresh lost = .null := if_pos none
    rw [null] at objects counts first ⊢
    have done : ∀ u, perform bound (releases [.null]) u = u := by
      intro u
      cases bound <;> rfl
    rw [done, (first a apart).1, (first a apart).2, objects, counts]
    exact ⟨rfl, rfl⟩
  have array : foundValue fresh lost = .array fresh := if_neg none
  rw [array] at objects counts closed first ⊢
  by_cases inside : (s.pushFound fresh vm v lost).HeldFrom old fresh
  · -- The array is itself held by the released value.
    have confined : Confined ((s.pushFound fresh vm v lost).HeldFrom old)
        (releases [.array fresh])
        (perform bound (releases [old]) (pushedOn vm v (.array fresh) r.2.2)) := by
      refine ⟨fun b member => ?_, by simp, closed⟩
      obtain rfl : b = fresh := by simpa [SQObject.collectable] using member
      exact inside
    have both := first.trans (confined.perform bound).2
    have other : a ≠ fresh := ne_of_beyond inside apart
    rw [(both a apart).1, (both a apart).2, objects, counts]
    simp [SQObject.collectable, other.symm]
  · -- The stack keeps the array when the temporary lets go of it.
    have other : fresh ≠ vm := by
      intro equal
      exact new (by simp [equal, Live, calling])
    have kept := first fresh inside
    obtain ⟨here, twice⟩ := resurrected.pushed_array (v := v) none other
    have dropped := perform_release_kept bound
      (u := perform bound (releases [old]) (pushedOn vm v (.array fresh) r.2.2)) (a := fresh)
      (by rw [Live, kept.1, here]; rfl) (by rw [kept.2, twice]; decide) some
    change (perform bound [.release fresh] _).objects a = _ ∧
      (perform bound [.release fresh] _).uiRef a = _
    rw [dropped]
    refine ⟨(first a apart).1.trans (congrFun objects a), ?_⟩
    change Function.update _ fresh _ a = _
    rw [Function.update_apply, (first a apart).2, kept.2, counts, counts]
    split_ifs with equal
    · simp [equal, SQObject.collectable]
    · simp [SQObject.collectable, Ne.symm equal]

/-- What becomes of an object when something is released: it stays, is destroyed, or is an outer
that gets closed. -/
def AfterRelease (before after : Option Collectable) : Prop :=
  after = before ∨ after = none ∨
    ∃ value idx o, before = some (.outer value (some idx)) ∧ after = some (.outer o none)

/-- What `ResurrectUnreachable` has done with the objects it has found. -/
structure PushedFound (s : SQSharedState) (external : Address → Nat) (fresh vm : Address)
    (v : Thread) (lost : List Address) (r : Nat × SQSharedState) : Prop where
  count : r.1 = lost.length
  pushed : r.2.Live vm → r.2.objects vm = some (.thread (v.push (foundValue fresh lost))) ∧
    (lost ≠ [] → r.2.objects fresh = some (.array (s.carried lost)))
  sound : ∃ g', r.2.Sound external g'
  survives : ∀ a, s.Live a → s.heldBy external a ≠ 0 → r.2.Live a
  object : ∀ a, AfterRelease ((s.pushFound fresh vm v lost).objects a) (r.2.objects a)
  beyond : ∀ a, ¬ (s.pushFound fresh vm v lost).HeldFrom (v.stack.getD v.top .null) a →
    r.2.objects a = (s.pushFound fresh vm v lost).objects a ∧
      r.2.uiRef a = (s.pushFound fresh vm v lost).uiRef a

private theorem AfterRelease.stays {before after : Option Collectable} {body : Collectable}
    (released : AfterRelease before after) (here : before = some body) (alive : after.isSome)
    (kind : ∀ o p, body ≠ .outer o p) : after = some body := by
  rcases released with same | gone | ⟨value, idx, o, outer, -⟩
  · exact same.trans here
  · simp [gone] at alive
  · rw [here] at outer
    exact absurd (Option.some.inj outer) (kind value (some idx))

private theorem Settled.released {u u' : SQSharedState} {all : Finset Address}
    {held : Address → Nat} (settled : Settled all held u u') (a : Address) :
    AfterRelease (u.objects a) (u'.objects a) := by
  rcases settled.later.object a with same | gone | ⟨value, idx, stack, outer, -, closed⟩
  · exact Or.inl same
  · exact Or.inr (Or.inl gone)
  · exact Or.inr (Or.inr ⟨value, idx, _, outer, closed⟩)

/-- The VM holds the array, so that both stay or neither does. -/
private theorem pushed_of_released (sound : u.Sound external g)
    (released : ∀ a, AfterRelease ((s.pushFound fresh vm v lost).objects a) (u.objects a))
    (room : v.top < v.stack.length) (apart : fresh ≠ vm) (alive : u.Live vm) :
    u.objects vm = some (.thread (v.push (foundValue fresh lost))) ∧
      (lost ≠ [] → u.objects fresh = some (.array (s.carried lost))) := by
  have thread : u.objects vm = some (.thread (v.push (foundValue fresh lost))) :=
    (released vm).stays (Function.update_self vm _ _) alive (by simp)
  refine ⟨thread, fun some => ?_⟩
  have array : (s.pushFound fresh vm v lost).objects fresh = .some (.array (s.carried lost)) := by
    rw [pushFound, withFound, if_neg some]
    change Function.update (Function.update _ _ _) _ _ _ = _
    rw [Function.update_of_ne apart, Function.update_self]
  have slot : fresh ∈ u.refsAt vm := by
    rw [refsAt, thread]
    exact push_held room (by simp [foundValue, some, SQObject.collectable])
  exact (released fresh).stays array (sound.balanced.known vm fresh slot) (by simp)

/-- `ResurrectUnreachable` counts the live objects that marking does not reach and pushes them in an
array, without the prototypes and outers, or null when there are none. Nothing is lost: the chain
lists the live objects again, with no flag set and every count exact. Besides the array and the
stack of the VM only what the value in the overwritten slot held can have changed. -/
theorem resurrect_unreachable_exact (s : SQSharedState) (external : Address → Nat)
    (g : List Address) (bound : Nat) (fresh vm : Address) (v : Thread)
    (sound : s.Sound external g) (calling : s.objects vm = some (.thread v))
    (room : v.top < v.stack.length) (new : ¬ s.Live fresh) (unheld : external fresh = 0)
    (enough : 2 * work g.toFinset s + 2 < bound) :
    ∃ lost : List Address, lost.Sublist g ∧ (∀ a, a ∈ lost ↔ s.Live a ∧ ¬ s.Reach a) ∧
      PushedFound s external fresh vm v lost (resurrectUnreachable bound fresh vm s) := by
  have short := length_le_work sound.listed
  obtain ⟨lost, sub, members, resurrected⟩ := resurrectArray_resurrected bound
    sound.closed sound.listed new (by omega)
  have apart : fresh ≠ vm := by
    intro equal
    exact new (by simp [equal, Live, calling])
  have here : (resurrectArray bound fresh s).2.2.objects vm = some (.thread v) :=
    (resurrected.other apart.symm).trans calling
  obtain ⟨settled, roots⟩ := resurrected.settled sound members sub calling room new unheld enough
  have pushed := resurrected.pushed_objects vm v
  set o := foundValue fresh lost with value
  have result : (resurrectUnreachable bound fresh vm s).2 =
      released bound (v.stack.getD v.top .null) o
        (pushedOn vm v o (resurrectArray bound fresh s).2.2) := by
    simp only [resurrectUnreachable, push, here, resurrected.value, released, pushedOn, ← value]
  have live : ∀ a, s.Live a → (pushedOn vm v o (resurrectArray bound fresh s).2.2).Live a := by
    intro a alive
    rw [Live, pushed]
    exact pushFound_live alive
  rw [← result] at settled
  have object := settled.released
  rw [pushed] at object
  obtain ⟨g', sound'⟩ := settled.sound roots fun a root => live a (sound.rooted a root)
  refine ⟨lost, sub, members, resurrected.count,
    pushed_of_released sound' object room apart, ⟨g', sound'⟩,
    fun a alive held => settled.later.keeps a (live a alive) (Or.inl held), object,
    fun a away => ?_⟩
  rw [result]
  exact resurrected.frame new calling _ (by omega) away

/-- The cyclic heap with a table that only the free part of the stack of the first thread refers to
any more. -/
def staleHeap : List (Address × Collectable) :=
  [(10, .table none []),
    (9, .funcProto [.string "x"] []),
    (8, .closure none 9 [] []),
    (7, .array [.table 6, .closure 8]),
    (6, .table none [(.string "list", .array 7)]),
    (2, .table none []),
    (1, .thread { idleThread 2 with stack := [.table 10, .null] })]

def staleState : SQSharedState := stateOf staleHeap (fun _ => 1) (rootsOf 1 [])

/-- Four objects are out of reach; the prototype among them stays out of the array. The push
destroys the table in the slot it overwrites. -/
theorem resurrect_unreachable_exact_stale :
    let v : Thread := { idleThread 2 with stack := [.table 10, .null] }
    let r := resurrectUnreachable 100 100 1 staleState
    (r.1 = 4 ∧ r.2.objects 10 = none ∧
        r.2.objects 100 = some (.array [.closure 8, .array 7, .table 6])) ∧
      ∃ lost : List Address, lost.Sublist [10, 9, 8, 7, 6, 2, 1] ∧
        (∀ a, a ∈ lost ↔ staleState.Live a ∧ ¬ staleState.Reach a) ∧
        PushedFound staleState (fun _ => 0) 100 1 v lost r :=
  ⟨by decide +kernel, resurrect_unreachable_exact staleState (fun _ => 0) [10, 9, 8, 7, 6, 2, 1] 100
    100 1 { idleThread 2 with stack := [.table 10, .null] }
    (stateOf_sound _ (by decide) (by decide +kernel) (by decide +kernel) (by decide +kernel)) rfl
    (by decide) (by decide +kernel) rfl (by decide +kernel)⟩

end Resurrect

end SquirrelGObject.Engine.Collector
