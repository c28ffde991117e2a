/- SquirrelGObject/Lib/Chain
   digest: Null-terminated chains through a successor map, a bounded search along them, and unlinking. -/

import Mathlib.Data.List.Nodup
import Mathlib.Logic.Function.Basic

set_option autoImplicit false
set_option relaxedAutoImplicit false

namespace SquirrelGObject.Lib.Chain

variable {κ : Type*}

/-- Following `next` from `head` visits exactly the listed nodes and then meets null. -/
def Linked (next : κ → Option κ) : Option κ → List κ → Prop
  | head, [] => head = none
  | head, i :: l => head = some i ∧ Linked next (next i) l

/-- Search a chain for the first node with the property, remembering the node before it. The
counter bounds the number of nodes visited. -/
def search (next : κ → Option κ) (p : κ → Bool) :
    Nat → Option κ → Option κ → Option κ × Option κ
  | _, prev, none => (none, prev)
  | 0, prev, some _ => (none, prev)
  | fuel + 1, prev, some i => if p i then (some i, prev) else search next p fuel (some i) (next i)

variable {next next' : κ → Option κ} {head : Option κ} {l a b : List κ} {i : κ}

@[simp] theorem linked_nil : Linked next head [] ↔ head = none := Iff.rfl

@[simp] theorem linked_cons : Linked next head (i :: l) ↔ head = some i ∧ Linked next (next i) l :=
  Iff.rfl

theorem linked_head (h : Linked next head l) : head = l.head? := by
  cases l with
  | nil => exact h
  | cons i l => exact h.1

theorem linked_congr (h : Linked next head l) (same : ∀ i ∈ l, next' i = next i) :
    Linked next' head l := by
  induction l generalizing head with
  | nil => exact h
  | cons i l ih =>
      refine ⟨h.1, ?_⟩
      rw [same i List.mem_cons_self]
      exact ih h.2 fun j member => same j (List.mem_cons_of_mem i member)

private theorem linked_unique {l' : List κ} (h : Linked next head l) (h' : Linked next head l') :
    l = l' := by
  induction l generalizing head l' with
  | nil =>
      cases l' with
      | nil => rfl
      | cons j l' => exact absurd (h.symm.trans h'.1) (by simp)
  | cons i l ih =>
      cases l' with
      | nil => exact absurd (h.1.symm.trans h') (by simp)
      | cons j l' =>
          have same : i = j := Option.some.inj (h.1.symm.trans h'.1)
          subst same
          rw [ih h.2 h'.2]

theorem linked_drop (h : Linked next head (a ++ i :: b)) : Linked next (some i) (i :: b) := by
  induction a generalizing head with
  | nil => exact ⟨rfl, h.2⟩
  | cons j a ih => exact ih h.2

theorem linked_nodup (h : Linked next head l) : l.Nodup := by
  induction l generalizing head with
  | nil => exact List.nodup_nil
  | cons i l ih =>
      refine List.nodup_cons.mpr ⟨?_, ih h.2⟩
      intro member
      obtain ⟨a, b, rfl⟩ := List.append_of_mem member
      have again : Linked next (some i) (i :: b) := linked_drop h.2
      have whole : Linked next (some i) (i :: (a ++ i :: b)) := ⟨rfl, h.2⟩
      have lengths := congrArg List.length (linked_unique whole again)
      simp at lengths
      omega

theorem search_none {p : κ → Bool} {fuel : Nat} {prev : Option κ} (h : Linked next head l)
    (enough : l.length ≤ fuel) (misses : ∀ i ∈ l, p i = false) :
    (search next p fuel prev head).1 = none := by
  induction l generalizing head prev fuel with
  | nil =>
      obtain rfl := h
      cases fuel <;> rfl
  | cons i l ih =>
      obtain ⟨rfl, tail⟩ := h
      obtain ⟨fuel, rfl⟩ : ∃ k, fuel = k + 1 := ⟨fuel - 1, by simp at enough; omega⟩
      simp only [search, misses i List.mem_cons_self]
      exact ih tail (by simpa using enough) fun j member => misses j (List.mem_cons_of_mem i member)

/-- With enough fuel the search stops at the first node with the property, and hands back the
node just before it, or the initial one when there is none. -/
theorem search_some {p : κ → Bool} {fuel : Nat} {prev : Option κ}
    (h : Linked next head (a ++ i :: b)) (enough : (a ++ i :: b).length ≤ fuel)
    (misses : ∀ j ∈ a, p j = false) (hit : p i = true) :
    search next p fuel prev head = (some i, a.getLast?.or prev) := by
  induction a generalizing head prev fuel with
  | nil =>
      obtain ⟨rfl, -⟩ := h
      obtain ⟨fuel, rfl⟩ : ∃ k, fuel = k + 1 := ⟨fuel - 1, by simp at enough; omega⟩
      simp [search, hit]
  | cons j a ih =>
      obtain ⟨rfl, tail⟩ := h
      obtain ⟨fuel, rfl⟩ : ∃ k, fuel = k + 1 := ⟨fuel - 1, by simp at enough; omega⟩
      simp only [search, misses j List.mem_cons_self]
      rw [if_neg (by simp), ih tail (by simpa using enough)
        fun k member => misses k (List.mem_cons_of_mem j member)]
      rw [List.getLast?_cons]
      cases a.getLast? <;> simp

theorem search_split {p : κ → Bool} {fuel : Nat} {prev : Option κ} (h : Linked next head (a ++ b))
    (enough : (a ++ b).length ≤ fuel) (misses : ∀ j ∈ a, p j = false)
    (hit : ∀ i, b.head? = some i → p i = true) :
    search next p fuel prev head = (b.head?, a.getLast?.or prev) := by
  cases b with
  | cons i b => exact search_some h enough misses (hit i rfl)
  | nil =>
      rw [List.append_nil] at h enough
      induction a generalizing head prev fuel with
      | nil =>
          obtain rfl := h
          cases fuel <;> rfl
      | cons j a ih =>
          obtain ⟨rfl, tail⟩ := h
          obtain ⟨fuel, rfl⟩ : ∃ k, fuel = k + 1 := ⟨fuel - 1, by simp at enough; omega⟩
          simp only [search, misses j List.mem_cons_self]
          rw [if_neg (by simp), ih (fun k member => misses k (List.mem_cons_of_mem j member)) tail
            (by simpa using enough), List.getLast?_cons]
          cases a.getLast? <;> simp

section Unlink

variable [DecidableEq κ]

theorem linked_unlink {j : κ} (h : Linked next head (a ++ j :: i :: b)) :
    Linked (Function.update next j (next i)) head (a ++ j :: b) := by
  have nodup := linked_nodup h
  induction a generalizing head with
  | nil =>
      obtain ⟨first, -, rest⟩ := h
      refine ⟨first, ?_⟩
      rw [Function.update_self]
      refine linked_congr rest fun k member => Function.update_of_ne ?_ _ _
      rintro rfl
      simp [member] at nodup
  | cons k a ih =>
      refine ⟨h.1, ?_⟩
      have apart : k ≠ j := by
        rintro rfl
        simp at nodup
      rw [Function.update_of_ne apart]
      exact ih h.2 (List.nodup_cons.mp nodup).2

theorem linked_link (h : Linked next head l) (fresh : i ∉ l) :
    Linked (Function.update next i head) (some i) (i :: l) := by
  refine ⟨rfl, ?_⟩
  rw [Function.update_self]
  refine linked_congr h fun j member => Function.update_of_ne ?_ _ _
  rintro rfl
  exact fresh member

theorem linked_insert {j : κ} (h : Linked next head (a ++ j :: b)) (fresh : i ∉ a ++ j :: b) :
    Linked (Function.update (Function.update next i b.head?) j (some i)) head
      (a ++ j :: i :: b) := by
  have nodup := linked_nodup h
  induction a generalizing head with
  | nil =>
      obtain ⟨first, tail⟩ := h
      have other : i ≠ j := fun equal => fresh (by simp [equal])
      refine ⟨first, ?_⟩
      rw [Function.update_self]
      refine ⟨rfl, ?_⟩
      rw [Function.update_of_ne other, Function.update_self, ← linked_head tail]
      refine linked_congr tail fun k member => ?_
      rw [Function.update_of_ne, Function.update_of_ne]
      · intro equal
        exact fresh (by simp [← equal, member])
      · intro equal
        simp [← equal, member] at nodup
  | cons k a ih =>
      refine ⟨h.1, ?_⟩
      have apart : k ≠ j := by
        intro equal
        simp [equal] at nodup
      have other : k ≠ i := by
        intro equal
        exact fresh (by simp [equal])
      rw [Function.update_of_ne apart, Function.update_of_ne other]
      have absent : i ∉ a ++ j :: b := fun member => fresh (List.mem_cons_of_mem k member)
      exact ih h.2 absent (List.nodup_cons.mp nodup).2

end Unlink

end SquirrelGObject.Lib.Chain
