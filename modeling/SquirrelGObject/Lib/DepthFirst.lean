/- SquirrelGObject/Lib/DepthFirst
   digest: What a depth-first visit finds, composed from its calls, and why that is what is reachable. -/

import Mathlib.Data.List.Nodup
import Mathlib.Logic.Relation

set_option autoImplicit false
set_option relaxedAutoImplicit false

namespace SquirrelGObject.Lib.DepthFirst

variable {κ : Type*}

/-- A path of edges leads from one of the starts to the node. -/
def Reachable (children : κ → List κ) (starts : List κ) (i : κ) : Prop :=
  ∃ r ∈ starts, Relation.ReflTransGen (fun i j => j ∈ children i) r i

theorem Reachable.child {children : κ → List κ} {starts : List κ} {i j : κ}
    (reach : Reachable children starts i) (edge : j ∈ children i) :
    Reachable children starts j := by
  obtain ⟨r, start, path⟩ := reach
  exact ⟨r, start, path.tail edge⟩

theorem Reachable.mono {children : κ → List κ} {starts starts' : List κ} {i : κ}
    (reach : Reachable children starts i) (sub : ∀ r ∈ starts, r ∈ starts') :
    Reachable children starts' i := by
  obtain ⟨r, start, path⟩ := reach
  exact ⟨r, sub r start, path⟩

/-- The nodes found are new, are reached from the starts, and together with the nodes seen before
they contain the starts and every child of a node found. -/
structure Visits (children : κ → List κ) (seen : κ → Prop) (starts found : List κ) : Prop where
  nodup : found.Nodup
  fresh : ∀ i ∈ found, ¬ seen i
  begun : ∀ i ∈ starts, seen i ∨ i ∈ found
  closed : ∀ i ∈ found, ∀ j ∈ children i, seen j ∨ j ∈ found
  reached : ∀ i ∈ found, Reachable children starts i

variable {children : κ → List κ} {seen : κ → Prop} {starts found found' : List κ} {i : κ}

theorem visits_nil : Visits children seen [] [] :=
  ⟨List.nodup_nil, by simp, by simp, by simp, by simp⟩

theorem visits_seen (before : seen i) : Visits children seen [i] [] :=
  ⟨List.nodup_nil, by simp, by simp [before], by simp, by simp⟩

theorem Visits.node (new : ¬ seen i)
    (visits : Visits children (fun j => seen j ∨ j = i) (children i) found) :
    Visits children seen [i] (i :: found) := by
  have apart : i ∉ found := fun member => visits.fresh i member (Or.inr rfl)
  refine ⟨List.nodup_cons.mpr ⟨apart, visits.nodup⟩, ?_, by simp, ?_, ?_⟩
  · intro j member before
    rcases List.mem_cons.mp member with rfl | member
    · exact new before
    · exact visits.fresh j member (Or.inl before)
  · intro j member k edge
    have known : (seen k ∨ k = i) ∨ k ∈ found := by
      rcases List.mem_cons.mp member with rfl | member
      · exact visits.begun k edge
      · exact visits.closed j member k edge
    rw [List.mem_cons]
    tauto
  · intro j member
    rcases List.mem_cons.mp member with rfl | member
    · exact ⟨j, by simp, .refl⟩
    · obtain ⟨r, edge, path⟩ := visits.reached j member
      exact ⟨i, by simp, .head edge path⟩

theorem Visits.append {starts' : List κ} (visits : Visits children seen starts found)
    (visits' : Visits children (fun j => seen j ∨ j ∈ found) starts' found') :
    Visits children seen (starts ++ starts') (found' ++ found) := by
  refine ⟨?_, ?_, ?_, ?_, ?_⟩
  · refine List.nodup_append.mpr ⟨visits'.nodup, visits.nodup, ?_⟩
    intro j new k old equal
    exact visits'.fresh j new (Or.inr (equal ▸ old))
  · intro j member before
    rcases List.mem_append.mp member with new | old
    · exact visits'.fresh j new (Or.inl before)
    · exact visits.fresh j old before
  · intro j start
    rw [List.mem_append]
    rcases List.mem_append.mp start with start | start
    · have known := visits.begun j start
      tauto
    · have known := visits'.begun j start
      tauto
  · intro j member k edge
    rw [List.mem_append]
    rcases List.mem_append.mp member with new | old
    · have known := visits'.closed j new k edge
      tauto
    · have known := visits.closed j old k edge
      tauto
  · intro j member
    rcases List.mem_append.mp member with new | old
    · exact (visits'.reached j new).mono fun r start => List.mem_append_right _ start
    · exact (visits.reached j old).mono fun r start => List.mem_append_left _ start

theorem Visits.mem_iff (visits : Visits children (fun _ => False) starts found) :
    i ∈ found ↔ Reachable children starts i := by
  refine ⟨visits.reached i, ?_⟩
  intro reach
  obtain ⟨r, start, path⟩ := reach
  induction path with
  | refl => exact (visits.begun r start).resolve_left id
  | tail _ edge ih => exact (visits.closed _ ih _ edge).resolve_left id

end SquirrelGObject.Lib.DepthFirst
