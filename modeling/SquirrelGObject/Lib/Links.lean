/- SquirrelGObject/Lib/Links
   digest: Well-founded successor maps: reachability, bounded search, inserting a node and moving one. -/

import SquirrelGObject.Lib.Chain
import Mathlib.Data.Finset.Card
import Mathlib.Logic.Relation

set_option autoImplicit false
set_option relaxedAutoImplicit false

namespace SquirrelGObject.Lib.Links

open Chain

variable {κ : Type*} {next : κ → Option κ} {i j k : κ}

/-- The node `j` is met when the links are followed from `i`. -/
def Reaches (next : κ → Option κ) : κ → κ → Prop :=
  Relation.ReflTransGen fun i j => next i = some j

/-- Every link goes down in some rank, so every walk along the links ends. -/
def Ranked (next : κ → Option κ) : Prop :=
  ∃ rank : κ → Nat, ∀ i j, next i = some j → rank j < rank i

/-- No two links have the same target. -/
def Single (next : κ → Option κ) : Prop :=
  ∀ i i' j, next i = some j → next i' = some j → i = i'

theorem Reaches.refl : Reaches next i i := Relation.ReflTransGen.refl

theorem Reaches.head (link : next i = some j) (rest : Reaches next j k) : Reaches next i k :=
  Relation.ReflTransGen.head link rest

theorem Reaches.eq_of_none (path : Reaches next i j) (last : next i = none) : j = i := by
  rcases Relation.ReflTransGen.cases_head path with same | ⟨k, link, -⟩
  · exact same.symm
  · rw [last] at link
    cases link

theorem Reaches.exists_link (path : Reaches next i j) (apart : i ≠ j) :
    ∃ k, Reaches next i k ∧ next k = some j := by
  rcases Relation.ReflTransGen.cases_tail path with same | ⟨k, before, link⟩
  · exact absurd same.symm apart
  · exact ⟨k, before, link⟩

theorem Ranked.ne (ranked : Ranked next) (link : next i = some j) : i ≠ j := by
  rintro rfl
  obtain ⟨rank, down⟩ := ranked
  exact lt_irrefl _ (down i i link)

theorem Ranked.linked (ranked : Ranked next) (i : κ) : ∃ l, Linked next (some i) (i :: l) := by
  obtain ⟨rank, down⟩ := ranked
  induction bound : rank i using Nat.strong_induction_on generalizing i with
  | _ r ih =>
      subst bound
      cases link : next i with
      | none => exact ⟨[], rfl, link⟩
      | some j =>
          obtain ⟨l, tail⟩ := ih (rank j) (down i j link) j rfl
          refine ⟨j :: l, rfl, ?_⟩
          rw [link]
          exact tail

private theorem mem_iff_reaches {l : List κ} (linked : Linked next (some i) l) :
    j ∈ l ↔ Reaches next i j := by
  induction l generalizing i with
  | nil => exact absurd linked (by simp)
  | cons head l ih =>
      obtain ⟨first, tail⟩ := linked
      obtain rfl := Option.some.inj first
      rw [List.mem_cons]
      constructor
      · rintro (rfl | later)
        · exact Reaches.refl
        · cases link : next i with
          | none =>
              rw [link] at tail
              cases l with
              | nil => cases later
              | cons k l => exact absurd tail.1 (by simp)
          | some k =>
              rw [link] at tail
              exact Reaches.head link ((ih tail).mp later)
      · intro path
        rcases Relation.ReflTransGen.cases_head path with same | ⟨k, link, rest⟩
        · exact Or.inl same.symm
        · rw [link] at tail
          exact Or.inr ((ih tail).mpr rest)

section Search

variable {next : Nat → Option Nat} {n i j : Nat} {p : Nat → Bool}

/-- The walk from a node of an array of `n` nodes has at most `n` nodes. -/
theorem linked_length_le {l : List Nat} (inside : ∀ i j, next i = some j → j < n) (start : i < n)
    (linked : Linked next (some i) l) : l.length ≤ n := by
  have subset : l.toFinset ⊆ Finset.range n := by
    intro j member
    have path := (mem_iff_reaches linked).mp (List.mem_toFinset.mp member)
    rw [Finset.mem_range]
    by_cases same : i = j
    · rwa [← same]
    · obtain ⟨k, -, link⟩ := path.exists_link same
      exact inside k j link
  have card := Finset.card_le_card subset
  rwa [List.toFinset_card_of_nodup (linked_nodup linked), Finset.card_range] at card

private theorem search_eq_find {head : Option Nat} {l : List Nat} {fuel : Nat} {prev : Option Nat}
    (linked : Linked next head l) (enough : l.length ≤ fuel) :
    (search next p fuel prev head).1 = l.find? p := by
  induction l generalizing head fuel prev with
  | nil =>
      obtain rfl := linked
      cases fuel <;> rfl
  | cons i l ih =>
      obtain ⟨rfl, tail⟩ := linked
      obtain ⟨fuel, rfl⟩ : ∃ k, fuel = k + 1 := ⟨fuel - 1, by simp at enough; omega⟩
      rw [search, List.find?_cons]
      cases hit : p i with
      | true => rfl
      | false => exact ih tail (by simpa using enough)

variable (ranked : Ranked next) (inside : ∀ i j, next i = some j → j < n) (start : i < n)

include ranked inside start

theorem search_eq_none_iff :
    (search next p n none (some i)).1 = none ↔ ∀ j, Reaches next i j → p j = false := by
  obtain ⟨l, linked⟩ := ranked.linked i
  rw [search_eq_find linked (linked_length_le inside start linked), List.find?_eq_none]
  constructor
  · intro missed j path
    simpa using missed j ((mem_iff_reaches linked).mpr path)
  · intro missed j member
    simpa using missed j ((mem_iff_reaches linked).mp member)

theorem search_eq_some (found : (search next p n none (some i)).1 = some j) :
    Reaches next i j ∧ p j = true := by
  obtain ⟨l, linked⟩ := ranked.linked i
  rw [search_eq_find linked (linked_length_le inside start linked)] at found
  have member := List.mem_of_find?_eq_some found
  exact ⟨(mem_iff_reaches linked).mp member, List.find?_some found⟩

end Search

section Insert

variable [DecidableEq κ] {a n : κ}

/-- Insert the node `n` behind the node `a`. -/
def insertAfter (next : κ → Option κ) (a n : κ) : κ → Option κ :=
  Function.update (Function.update next n (next a)) a (some n)

theorem insertAfter_eq_some (link : insertAfter next a n i = some j) :
    (i = a ∧ j = n) ∨ (i = n ∧ next a = some j) ∨ (i ≠ a ∧ i ≠ n ∧ next i = some j) := by
  by_cases first : i = a
  · subst first
    rw [insertAfter, Function.update_self] at link
    exact Or.inl ⟨rfl, (Option.some.inj link).symm⟩
  · rw [insertAfter, Function.update_of_ne first] at link
    by_cases second : i = n
    · subst second
      rw [Function.update_self] at link
      exact Or.inr (Or.inl ⟨rfl, link⟩)
    · rw [Function.update_of_ne second] at link
      exact Or.inr (Or.inr ⟨first, second, link⟩)

variable (apart : n ≠ a) (fresh : ∀ i, next i ≠ some n)

include apart fresh

theorem ranked_insertAfter (ranked : Ranked next) : Ranked (insertAfter next a n) := by
  obtain ⟨rank, down⟩ := ranked
  -- The new node gets a rank between those of its two neighbours.
  refine ⟨fun x => if x = n then 2 * rank a + 1 else 2 * rank x + 2, ?_⟩
  intro i j link
  rcases insertAfter_eq_some link with ⟨rfl, rfl⟩ | ⟨rfl, old⟩ | ⟨-, other, old⟩
  · simp [apart.symm]
  · have target : j ≠ i := by
      rintro rfl
      exact fresh a old
    have := down a j old
    simp only [if_neg target, if_true]
    omega
  · have target : j ≠ n := by
      rintro rfl
      exact fresh i old
    have := down i j old
    simp only [if_neg target, if_neg other]
    omega

theorem single_insertAfter (single : Single next) : Single (insertAfter next a n) := by
  intro i i' j link link'
  rcases insertAfter_eq_some link with ⟨rfl, rfl⟩ | ⟨rfl, old⟩ | ⟨first, -, old⟩ <;>
    rcases insertAfter_eq_some link' with ⟨rfl, same⟩ | ⟨rfl, old'⟩ | ⟨first', -, old'⟩
  · rfl
  · exact absurd old' (fresh _)
  · exact absurd old' (fresh _)
  · exact absurd (same ▸ old) (fresh _)
  · rfl
  · exact absurd (single _ _ _ old old').symm first'
  · exact absurd (same ▸ old) (fresh _)
  · exact absurd (single _ _ _ old old') first
  · exact single _ _ _ old old'

omit fresh in
theorem reaches_insertAfter (unlinked : next n = none) (path : Reaches next i j) :
    Reaches (insertAfter next a n) i j := by
  refine Relation.reflTransGen_closed ?_ i j path
  intro x y link
  by_cases first : x = a
  · subst first
    refine Reaches.head (j := n) (by simp [insertAfter]) (Relation.ReflTransGen.single ?_)
    simp [insertAfter, apart, link]
  · have second : x ≠ n := by
      rintro rfl
      rw [unlinked] at link
      cases link
    apply Relation.ReflTransGen.single
    simp [insertAfter, first, second, link]

end Insert

section Move

variable [DecidableEq κ] {a n before : κ}

/-- Move the node `a`, which stands behind `before`, to the place `n`. -/
def moveNode (next : κ → Option κ) (before a n : κ) : κ → Option κ :=
  Function.update (Function.update (Function.update next before (some n)) n (next a)) a none

def moved (a n i : κ) : κ := if i = a then n else i

/-- A link after the move is an old link between nodes that stay, or leads to or from the new
place. -/
theorem moveNode_eq_some (link : moveNode next before a n i = some j) :
    (i = before ∧ j = n) ∨ (i = n ∧ next a = some j) ∨
      (i ≠ before ∧ i ≠ n ∧ i ≠ a ∧ next i = some j) := by
  have left : i ≠ a := by
    rintro rfl
    simp [moveNode] at link
  rw [moveNode, Function.update_of_ne left] at link
  by_cases new : i = n
  · subst new
    rw [Function.update_self] at link
    exact Or.inr (Or.inl ⟨rfl, link⟩)
  · rw [Function.update_of_ne new] at link
    by_cases first : i = before
    · subst first
      rw [Function.update_self] at link
      exact Or.inl ⟨rfl, (Option.some.inj link).symm⟩
    · rw [Function.update_of_ne first] at link
      exact Or.inr (Or.inr ⟨first, new, left, link⟩)

variable (link : next before = some a) (unlinked : next n = none) (fresh : ∀ i, next i ≠ some n)

include link unlinked fresh

theorem ranked_moveNode (ranked : Ranked next) : Ranked (moveNode next before a n) := by
  obtain ⟨rank, down⟩ := ranked
  refine ⟨fun x => if x = n then rank a else rank x, ?_⟩
  intro i j new
  have target : ∀ x y, next x = some y → y ≠ n := by
    rintro x y old rfl
    exact fresh x old
  rcases moveNode_eq_some new with ⟨rfl, rfl⟩ | ⟨rfl, old⟩ | ⟨-, other, -, old⟩
  · have source : i ≠ j := by
      rintro rfl
      rw [unlinked] at link
      cases link
    simpa [source] using down i a link
  · simpa [target a j old] using down a j old
  · simpa [target i j old, other] using down i j old

omit unlinked in
theorem single_moveNode (single : Single next) : Single (moveNode next before a n) := by
  intro i i' j new new'
  rcases moveNode_eq_some new with ⟨rfl, rfl⟩ | ⟨rfl, old⟩ | ⟨first, -, gone, old⟩ <;>
    rcases moveNode_eq_some new' with ⟨rfl, same⟩ | ⟨rfl, old'⟩ | ⟨first', -, gone', old'⟩
  · rfl
  · exact absurd old' (fresh _)
  · exact absurd old' (fresh _)
  · exact absurd (same ▸ old) (fresh _)
  · rfl
  · exact absurd (single _ _ _ old old').symm gone'
  · exact absurd (same ▸ old) (fresh _)
  · exact absurd (single _ _ _ old old') gone
  · exact single _ _ _ old old'

omit fresh in
theorem reaches_moveNode (ranked : Ranked next) (single : Single next) (path : Reaches next i j) :
    Reaches (moveNode next before a n) (moved a n i) (moved a n j) := by
  refine Relation.ReflTransGen.lift (moved a n) ?_ i j path
  intro x y old
  have source : x ≠ n := by
    rintro rfl
    rw [unlinked] at old
    cases old
  by_cases gone : x = a
  · subst gone
    have target : y ≠ x := (ranked.ne old).symm
    have apart : n ≠ x := source.symm
    simp [moved, moveNode, Function.onFun, target, apart, old]
  · by_cases first : x = before
    · subst first
      obtain rfl : a = y := Option.some.inj (link.symm.trans old)
      simp [moved, moveNode, Function.onFun, gone, source]
    · have target : y ≠ a := by
        rintro rfl
        exact first (single _ _ _ old link)
      simp [moved, moveNode, Function.onFun, gone, source, first, target, old]

end Move

end SquirrelGObject.Lib.Links
