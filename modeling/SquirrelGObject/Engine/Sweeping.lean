/- SquirrelGObject/Engine/Sweeping
   digest: Collecting garbage destroys exactly the unreachable objects when nothing else holds them. -/

import SquirrelGObject.Engine.Releasing

set_option autoImplicit false
set_option relaxedAutoImplicit false

open SquirrelGObject.Lib.TwoWay

namespace SquirrelGObject.Engine.Collector

open SQSharedState

def addHeld (held : Address → Nat) (t : Address) (a : Address) : Nat :=
  held a + if a = t then 1 else 0

section Moves

variable {all : Finset Address} {held : Address → Nat} {tasks : List Task} {s : SQSharedState}
  {g : List Address} {t : Address} {C : Address → List SQObject → Prop}

/-- `Finalize` turns references of the object into tasks. -/
theorem Balanced.finalizing {body : Collectable} (balanced : Balanced all held [] s)
    (here : s.objects t = some body) :
    Balanced all held body.finalizing (s.setObject t (some body.finalized)) := by
  have live : s.Live t := by simp [Live, here]
  have refs : s.refsAt t = body.refs := by simp [refsAt, here]
  have same : ∀ a, (s.setObject t (some body.finalized)).Live a ↔ s.Live a := by
    intro a
    rw [setObject_live]
    split_ifs with equal
    · simp [equal, live]
    · rfl
  refine ⟨fun a alive => balanced.inside a ((same a).mp alive), ?_, ?_, ?_, ?_⟩
  · intro b a member
    rw [same]
    rw [setObject_refsAt] at member
    split_ifs at member with equal
    · refine balanced.known t a ?_
      rw [refs, ← List.count_pos_iff, ← body.count_finalizing a]
      have positive := List.count_pos_iff.mpr member
      simp only [Option.map_some, Option.getD_some] at positive
      omega
    · exact balanced.known b a member
  · intro a member
    rw [same]
    refine balanced.known t a ?_
    rw [refs, ← List.count_pos_iff, ← body.count_finalizing a]
    have positive := List.count_pos_iff.mpr member
    omega
  · have orderly : Orderly (body.finalizing ++ []) := body.orderly_finalizing trivial
    rwa [List.append_nil] at orderly
  · intro a alive
    have exact := balanced.exact a ((same a).mp alive)
    have others : ∀ b, b ≠ t → ((s.setObject t (some body.finalized)).refsAt b).count a =
        (s.refsAt b).count a := by
      intro b other
      rw [setObject_refsAt, if_neg other]
    have change := sum_change (balanced.inside t live) others
    have split := body.count_finalizing a
    rw [setObject_refsAt, if_pos rfl, refs] at change
    simp only [Option.map_some, Option.getD_some] at change
    change s.uiRef a = _
    rw [refsOf_nil, List.count_nil] at exact
    rw [inbound] at exact ⊢
    omega

theorem Linked.finalizing {body : Collectable} (linked : Linked g [] s)
    (here : s.objects t = some body) :
    Linked g body.finalizing (s.setObject t (some body.finalized)) := by
  refine linked_same linked rfl rfl rfl (fun a => ?_) (by simp)
  rw [setObject_live]
  split_ifs with equal
  · simp [equal, Live, here]
  · rfl

theorem Allows.finalizing {body : Collectable} (allows : Allows C [] s)
    (here : s.objects t = some body) (clear : s.marked t = false) :
    Allows C body.finalizing (s.setObject t (some body.finalized)) := by
  refine ⟨allows.objects t body here clear, fun a body' here' clear' => ?_⟩
  change Function.update s.objects t _ a = some body' at here'
  rw [Function.update_apply] at here'
  split_ifs at here' with equal
  · cases here'
    simp
  · exact allows.objects a body' here' clear'

private theorem work_finalizing {body : Collectable} (inside : t ∈ all)
    (here : s.objects t = some body) :
    weightOf body.finalizing + work all (s.setObject t (some body.finalized)) = work all s := by
  have others : ∀ b, b ≠ t → (s.setObject t (some body.finalized)).workAt b = s.workAt b :=
    fun b other => setObject_workAt_of_ne s _ other
  have change := sum_change inside others
  have before : s.workAt t = weightOf (body.destroy t) := by simp [workAt, here]
  have after : (s.setObject t (some body.finalized)).workAt t =
      weightOf (body.finalized.destroy t) := by simp [workAt, setObject]
  have split := body.weight_finalizing t
  rw [before, after] at change
  rw [work, work]
  omega

/-- `t->_uiRef++`. -/
theorem Balanced.addRef (balanced : Balanced all held tasks s) (t : Address) :
    Balanced all (addHeld held t) tasks (s.addRef t) := by
  refine ⟨balanced.inside, balanced.known, balanced.pending, balanced.orderly, fun a live => ?_⟩
  have exact := balanced.exact a live
  change Function.update s.uiRef t (s.uiRef t + 1) a = _ + inbound all s a
  rw [Function.update_apply, addHeld]
  split_ifs with equal
  · subst equal
    omega
  · omega

theorem Balanced.drop (balanced : Balanced all (addHeld held t) [] s) (live : s.Live t) :
    Balanced all held [.release t] s := by
  refine ⟨balanced.inside, balanced.known, fun a member => ?_, trivial, fun a alive => ?_⟩
  · obtain rfl : a = t := by simpa [refsOf, Task.refs] using member
    exact live
  · have exact := balanced.exact a alive
    rw [addHeld, refsOf_nil, List.count_nil] at exact
    rw [refsOf_cons, refsOf_nil, Task.refs, List.append_nil, List.count_singleton]
    by_cases equal : a = t
    · simp [equal] at exact ⊢
      omega
    · have apart : (t == a) = false := by simpa using Ne.symm equal
      simp [apart, equal] at exact ⊢
      omega

end Moves

/-- Closing a variable is harmless to what follows: the outer is not marked, and every object on the
stack is of a lower rank. -/
def Harmless (marked : Address → Bool) (rank : Address → Nat) (p : Address)
    (stack : List SQObject) : Prop :=
  marked p = false ∧ ∀ a ∈ collectables stack, rank a < rank p

/-- What `Finalize` leaves in an object refers to objects of a lower rank. -/
def Falls (rank : Address → Nat) (s : SQSharedState) : Prop :=
  ∀ a body, s.objects a = some body → ∀ b ∈ body.finalized.refs, rank b < rank a

section Sweep

variable {all : Finset Address} {held : Address → Nat} {rank : Address → Nat}
  {s s' : SQSharedState} {visited rest : List Address} {t a : Address} {marks : Address → Bool}

theorem Later.falls (later : Later (Harmless marks rank) held s s') (falls : Falls rank s) :
    Falls rank s' := by
  intro a body here b member
  rcases later.object a with same | gone | ⟨value, idx, stack, -, -, closed⟩
  · exact falls a body (same ▸ here) b member
  · rw [gone] at here
    cases here
  · rw [closed] at here
    cases here
    simp [Collectable.finalized, Collectable.refs, Collectable.holds] at member

theorem Later.drained (later : Later (Harmless marks rank) held s s')
    (drained : ∀ b ∈ s.refsAt a, rank b < rank a) : ∀ b ∈ s'.refsAt a, rank b < rank a := by
  intro b member
  rcases later.object a with same | gone | ⟨value, idx, stack, -, harmless, closed⟩
  · rw [refsAt, same] at member
    exact drained b member
  · simp [refsAt, gone] at member
  · have slot : b ∈ collectables [stack.getD idx .null] := by
      simpa [refsAt, closed, Collectable.refs, Collectable.holds] using member
    exact harmless.2 b (collectables_getD slot)

/-- The loop at an object: those before it on the chain have been finalized, and what they still
refer to is of lower rank; the object itself is held. -/
structure AtTurn (all : Finset Address) (held rank : Address → Nat) (visited : List Address)
    (t : Address) (rest : List Address) (s : SQSharedState) : Prop where
  balanced : Balanced all (addHeld held t) [] s
  linked : Linked (visited ++ t :: rest) [] s
  allows : Allows (Harmless s.marked rank) [] s
  falls : Falls rank s
  drained : ∀ a ∈ visited, ∀ b ∈ s.refsAt a, rank b < rank a
  counted : ∀ a ∈ visited, 0 < s.uiRef a

/-- The state when the loop has come to the end of the chain. -/
structure AtEnd (all : Finset Address) (held rank : Address → Nat) (visited : List Address)
    (s : SQSharedState) : Prop where
  balanced : Balanced all held [] s
  linked : Linked visited [] s
  drained : ∀ a ∈ visited, ∀ b ∈ s.refsAt a, rank b < rank a
  counted : ∀ a ∈ visited, 0 < s.uiRef a

private theorem sublist_around {g : List Address} (sub : g.Sublist (visited ++ t :: rest))
    (nodup : (visited ++ t :: rest).Nodup) (member : t ∈ g) :
    ∃ v r, g = v ++ t :: r ∧ v.Sublist visited ∧ r.Sublist rest := by
  obtain ⟨fresh, -⟩ := List.nodup_cons.mp (List.nodup_middle.mp nodup)
  obtain ⟨v, r, rfl, left, right⟩ := List.sublist_append_iff.mp sub
  cases right with
  | cons _ right =>
      rcases List.mem_append.mp member with inside | inside
      · exact absurd (List.mem_append_left rest (left.subset inside)) fresh
      · exact absurd (List.mem_append_right visited (right.subset inside)) fresh
  | cons_cons _ right => exact ⟨v, _, rfl, left, right⟩

/-- What holds across several turns: marked and anchored objects stay, nothing new appears, and a
chain of marked objects stays. -/
structure Spares (held : Address → Nat) (s s' : SQSharedState) : Prop where
  marked : s'.marked = s.marked
  roots : s'.roots = s.roots
  shelter : ∀ a, s.marked a = true → s'.objects a = s.objects a
  keeps : ∀ a, s.Live a → Anchored held s a → s'.Live a
  live : ∀ a, s'.Live a → s.Live a
  chain : ∀ head l, Chained s.links head l → (∀ a ∈ l, s.marked a = true) →
    Chained s'.links head l

theorem Later.spares {C : Address → List SQObject → Prop} (later : Later C held s s') :
    Spares held s s' :=
  ⟨later.marked, later.roots, later.shelter, later.keeps, fun _ => later.live, later.chain⟩

theorem Spares.trans {s'' : SQSharedState} (spares : Spares held s s')
    (spares' : Spares held s' s'') : Spares held s s'' := by
  refine ⟨spares'.marked.trans spares.marked, spares'.roots.trans spares.roots, ?_, ?_,
    fun a live => spares.live a (spares'.live a live), ?_⟩
  · intro a flag
    rw [spares'.shelter a (spares.marked ▸ flag), spares.shelter a flag]
  · intro a live anchored
    refine spares'.keeps a (spares.keeps a live anchored) ?_
    rcases anchored with outside | ⟨b, flag, inside⟩
    · exact Or.inl outside
    · refine Or.inr ⟨b, spares.marked ▸ flag, ?_⟩
      rwa [refsAt, spares.shelter b flag]
  · intro head l chained flagged
    refine spares'.chain head l (spares.chain head l chained flagged) fun a member => ?_
    rw [spares.marked]
    exact flagged a member

private theorem spares_setObject {body : Collectable} (live : s.Live t) (clear : s.marked t = false)
    :
    Spares held s (s.setObject t (some body)) := by
  refine ⟨rfl, rfl, ?_, ?_, ?_, fun _ _ chained _ => chained⟩
  · intro a flag
    refine Function.update_of_ne ?_ _ _
    rintro rfl
    simp [clear] at flag
  · intro a alive _
    rw [setObject_live]
    split_ifs
    · rfl
    · exact alive
  · intro a alive
    rw [setObject_live] at alive
    split_ifs at alive with equal
    · exact equal ▸ live
    · exact alive

private theorem addHeld_le (held : Address → Nat) (t a : Address) : held a ≤ addHeld held t a :=
  Nat.le_add_right _ _

theorem Later.carries {v : List Address} (later : Later (Harmless marks rank) held s s')
    (sub : v ⊆ visited)
    (alive : ∀ a ∈ v, s'.Live a ∧ s'.marked a = false)
    (drained : ∀ a ∈ visited, ∀ b ∈ s.refsAt a, rank b < rank a)
    (counted : ∀ a ∈ visited, 0 < s.uiRef a) :
    (∀ a ∈ v, ∀ b ∈ s'.refsAt a, rank b < rank a) ∧ ∀ a ∈ v, 0 < s'.uiRef a := by
  refine ⟨fun a member => later.drained (drained a (sub member)), fun a member => ?_⟩
  refine later.positive a ?_ (counted a (sub member)) (alive a member).1
  rw [← later.marked]
  exact (alive a member).2

theorem Linked.alive {g : List Address} (linked : Linked g [] s) (member : a ∈ g) :
    s.Live a ∧ s.marked a = false :=
  ((linked.mem a).mp member).resolve_right (by simp)

/-- `Finalize` at a turn. The object itself stays, because it is held. -/
theorem AtTurn.finalize {fuel : Nat} (turn : AtTurn all held rank visited t rest s)
    (enough : work all s < fuel) :
    ∃ v r, r.Sublist rest ∧ AtTurn all held rank v t r (finalize fuel t s) ∧
      (∀ b ∈ (finalize fuel t s).refsAt t, rank b < rank t) ∧
      Spares held s (finalize fuel t s) ∧ work all (finalize fuel t s) ≤ work all s := by
  obtain ⟨live, clear⟩ := turn.linked.alive (a := t) (by simp)
  obtain ⟨body, here⟩ := Option.isSome_iff_exists.mp live
  have nodup := turn.linked.chain.nodup
  have final : Collector.finalize fuel t s =
      perform fuel body.finalizing (s.setObject t (some body.finalized)) := by
    rw [Collector.finalize, here]
  have cost := work_finalizing (turn.balanced.inside t live) here
  have spares : ∀ p stack, Harmless s.marked rank p stack →
      (s.setObject t (some body.finalized)).marked p = false := fun p stack harmless => harmless.1
  obtain ⟨balanced, ⟨g, sub, linked⟩, allows, later, bound⟩ := perform_spec fuel spares
    (turn.balanced.finalizing here) (turn.linked.finalizing here)
    (turn.allows.finalizing here clear) (by omega)
  rw [← final] at balanced linked allows later bound
  have stays : (Collector.finalize fuel t s).Live t := by
    refine later.keeps t (by simp [setObject_live]) (Or.inl ?_)
    simp [addHeld]
  have flag : (Collector.finalize fuel t s).marked t = false := by
    rw [later.marked]
    exact clear
  obtain ⟨v, r, rfl, left, right⟩ := sublist_around sub nodup
    ((linked.mem t).mpr (Or.inl ⟨stays, flag⟩))
  -- The finalized object is not among the visited ones, whose references are as before.
  have fresh : t ∉ visited := fun inside =>
    (List.nodup_cons.mp (List.nodup_middle.mp nodup)).1 (List.mem_append_left rest inside)
  have falls : Falls rank (s.setObject t (some body.finalized)) := by
    intro a body' here' b member
    change Function.update s.objects t _ a = some body' at here'
    rw [Function.update_apply] at here'
    split_ifs at here' with equal
    · cases here'
      refine equal ▸ turn.falls t body here b ?_
      rw [← List.count_pos_iff, ← body.finalized.count_finalizing b]
      have positive := List.count_pos_iff.mpr member
      omega
    · exact turn.falls a body' here' b member
  have emptied : ∀ b ∈ (s.setObject t (some body.finalized)).refsAt t, rank b < rank t := by
    intro b member
    rw [setObject_refsAt, if_pos rfl] at member
    exact turn.falls t body here b member
  have same : ∀ a ∈ visited, (s.setObject t (some body.finalized)).refsAt a = s.refsAt a := by
    intro a member
    rw [setObject_refsAt, if_neg]
    intro equal
    exact fresh (equal ▸ member)
  obtain ⟨drained, counted⟩ := later.carries left.subset
    (fun a member => linked.alive (List.mem_append_left _ member))
    (fun a member => same a member ▸ turn.drained a member) turn.counted
  have flags : (Collector.finalize fuel t s).marked = s.marked := later.marked
  refine ⟨v, r, right, ⟨balanced, linked, ?_, later.falls falls, drained, counted⟩,
    later.drained emptied, ?_, by omega⟩
  · rw [flags]
    exact allows
  · exact (spares_setObject live clear).trans (later.mono (addHeld_le held t)).spares

theorem later_addRef {C : Address → List SQObject → Prop} (nx : Address) :
    Later C held s (s.addRef nx) := by
  refine later_of_counts rfl rfl rfl rfl fun a => ?_
  change s.uiRef a ≤ Function.update s.uiRef nx (s.uiRef nx + 1) a
  rw [Function.update_apply]
  split_ifs with equal
  · subst equal
    omega
  · exact Nat.le_refl _

private theorem AtTurn.hold (turn : AtTurn all held rank visited t rest s) (nx : Address) :
    AtTurn all (addHeld held nx) rank visited t rest (s.addRef nx) := by
  have swap : addHeld (addHeld held t) nx = addHeld (addHeld held nx) t := by
    funext a
    simp only [addHeld]
    omega
  refine ⟨swap ▸ turn.balanced.addRef nx, ?_, ⟨turn.allows.tasks, turn.allows.objects⟩, turn.falls,
    turn.drained, ?_⟩
  · exact linked_same turn.linked rfl rfl rfl (fun a => Iff.rfl) rfl
  · intro a member
    have positive := turn.counted a member
    change 0 < Function.update s.uiRef nx (s.uiRef nx + 1) a
    rw [Function.update_apply]
    split_ifs <;> omega

/-- The object at turn is dropped after it has been finalized. Where it survives, something still
counts it, and what it refers to is of lower rank. -/
theorem AtTurn.drop (fuel : Nat) (turn : AtTurn all held rank visited t rest s)
    (emptied : ∀ b ∈ s.refsAt t, rank b < rank t) (enough : work all s < fuel) :
    ∃ g, g.Sublist (visited ++ t :: rest) ∧ Balanced all held [] (perform fuel [.release t] s) ∧
      Linked g [] (perform fuel [.release t] s) ∧
      Allows (Harmless s.marked rank) [] (perform fuel [.release t] s) ∧
      Falls rank (perform fuel [.release t] s) ∧
      (∀ v ⊆ visited ++ [t], v ⊆ g →
        (∀ a ∈ v, ∀ b ∈ (perform fuel [.release t] s).refsAt a, rank b < rank a) ∧
        ∀ a ∈ v, 0 < (perform fuel [.release t] s).uiRef a) ∧
      Later (Harmless s.marked rank) held s (perform fuel [.release t] s) ∧
      work all (perform fuel [.release t] s) ≤ work all s := by
  obtain ⟨live, clear⟩ := turn.linked.alive (a := t) (by simp)
  have linked : Linked (visited ++ t :: rest) [.release t] s :=
    linked_same turn.linked rfl rfl rfl (fun a => Iff.rfl) rfl
  have allows : Allows (Harmless s.marked rank) [.release t] s := by
    refine ⟨fun c member => ?_, turn.allows.objects⟩
    simp [Task.closings] at member
  have cost : weightOf [.release t] = 1 := rfl
  obtain ⟨balanced', ⟨g, sub, linked'⟩, allows', later, bound⟩ := perform_spec fuel
    (fun p stack harmless => harmless.1) (turn.balanced.drop live) linked allows (by omega)
  refine ⟨g, sub, balanced', linked', allows', later.falls turn.falls, ?_, later, ?_⟩
  · intro v sub' inside
    have one : 0 < s.uiRef t := by
      have exact := turn.balanced.exact t live
      simp only [addHeld, if_true] at exact
      omega
    refine later.carries sub' (fun a member => linked'.alive (inside member)) ?_ ?_
    · intro a member
      rcases List.mem_append.mp member with member | member
      · exact turn.drained a member
      · obtain rfl : a = t := by simpa using member
        exact emptied
    · intro a member
      rcases List.mem_append.mp member with member | member
      · exact turn.counted a member
      · obtain rfl : a = t := by simpa using member
        exact one
  · simp only [List.length_singleton] at bound
    omega

theorem AtTurn.next (fuel : Nat) {nx : Address}
    (turn : AtTurn all held rank visited t (nx :: rest) s)
    (emptied : ∀ b ∈ s.refsAt t, rank b < rank t) (enough : work all s < fuel) :
    ∃ v r, r.Sublist rest ∧ AtTurn all held rank v nx r (perform fuel [.release t] (s.addRef nx)) ∧
      Spares held s (perform fuel [.release t] (s.addRef nx)) ∧
      work all (perform fuel [.release t] (s.addRef nx)) ≤ work all s := by
  obtain ⟨live, clear⟩ := turn.linked.alive (a := nx) (by simp)
  obtain ⟨g, sub, balanced, linked, allows, falls, after, later, bound⟩ :=
    (turn.hold nx).drop fuel emptied enough
  have stays := later.keeps nx live (Or.inl (by simp [addHeld]))
  have flags : (perform fuel [.release t] (s.addRef nx)).marked = s.marked := later.marked
  have whole : visited ++ t :: nx :: rest = (visited ++ [t]) ++ nx :: rest := by simp
  have nodup := turn.linked.chain.nodup
  rw [whole] at sub nodup
  obtain ⟨v, r, rfl, left, right⟩ := sublist_around sub nodup
    ((linked.mem nx).mpr (Or.inl ⟨stays, flags ▸ clear⟩))
  obtain ⟨drained, counted⟩ := after v left.subset (List.subset_append_left v _)
  refine ⟨v, r, right, ⟨balanced, linked, flags ▸ allows, falls, drained, counted⟩, ?_, bound⟩
  exact ((later_addRef nx).trans (later.mono (addHeld_le held nx))).spares

theorem AtTurn.last (fuel : Nat) (turn : AtTurn all held rank visited t [] s)
    (emptied : ∀ b ∈ s.refsAt t, rank b < rank t) (enough : work all s < fuel) :
    ∃ v, AtEnd all held rank v (perform fuel [.release t] s) ∧
      Spares held s (perform fuel [.release t] s) := by
  obtain ⟨g, sub, balanced, linked, -, -, after, later, -⟩ := turn.drop fuel emptied enough
  obtain ⟨drained, counted⟩ := after g sub.subset (List.Subset.refl g)
  exact ⟨g, ⟨balanced, linked, drained, counted⟩, later.spares⟩

theorem sweep_spec (fuel steps : Nat) (turn : AtTurn all held rank visited t rest s)
    (long : rest.length < steps) (enough : work all s < fuel) :
    ∃ v, AtEnd all held rank v (sweep fuel steps (some t) s).2 ∧
      Spares held s (sweep fuel steps (some t) s).2 ∧
      0 < (sweep fuel steps (some t) s).1 ∧ (sweep fuel steps (some t) s).1 ≤ rest.length + 1 := by
  induction steps generalizing visited t rest s with
  | zero => omega
  | succ steps ih =>
      obtain ⟨v, r, shorter, turn', emptied, spares, bound⟩ := turn.finalize enough
      have length := shorter.length_le
      have next : (finalize fuel t s).links.next t = r.head? := turn'.linked.chain.next v t r rfl
      rw [sweep, next]
      cases r with
      | nil =>
          obtain ⟨v', ends, spares'⟩ := turn'.last fuel emptied (by omega)
          refine ⟨v', ?_, ?_, ?_⟩
          · cases steps <;> exact ends
          · cases steps <;> exact spares.trans spares'
          · cases steps <;> simp [sweep]
      | cons nx r =>
          obtain ⟨v', r', shorter', turn'', spares', bound'⟩ := turn'.next fuel emptied
            (by omega)
          have length' := shorter'.length_le
          simp only [List.length_cons] at length
          obtain ⟨v'', ends, spares'', positive, most⟩ := ih turn'' (by omega) (by omega)
          refine ⟨v'', ends, spares.trans (spares'.trans spares''), by simp, ?_⟩
          simp only [List.head?_cons]
          omega

end Sweep

end SquirrelGObject.Engine.Collector
