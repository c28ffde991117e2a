/- SquirrelGObject/Lib/Heap
   digest: Heaps in an array where entry i has the children 2i and 2i+1, so that entry 0 is its own child. -/

import Mathlib.Data.List.Basic

set_option autoImplicit false
set_option relaxedAutoImplicit false

namespace SquirrelGObject.Lib.Heap

variable {α : Type*}

def Child (i j : Nat) : Prop := j = 2 * i ∨ j = 2 * i + 1

def swap (v : List α) (i j : Nat) : List α :=
  match v[i]?, v[j]? with
  | some x, some y => (v.set i y).set j x
  | _, _ => v

section Swap

variable {v : List α} {i j : Nat}

private theorem swap_eq (left : i < v.length) (right : j < v.length) :
    swap v i j = (v.set i v[j]).set j v[i] := by
  simp [swap, left, right]

@[simp] theorem swap_length (v : List α) (i j : Nat) : (swap v i j).length = v.length := by
  unfold swap
  split <;> simp

theorem swap_perm (left : i < v.length) (right : j < v.length) : (swap v i j).Perm v := by
  rw [swap_eq left right]
  exact List.set_set_perm left right

private theorem swap_getElem? (left : i < v.length) (right : j < v.length) (k : Nat) :
    (swap v i j)[k]? = if k = j then v[i]? else if k = i then v[j]? else v[k]? := by
  rw [swap_eq left right, List.getElem?_set, List.getElem?_set]
  simp only [List.length_set]
  by_cases atJ : k = j
  · subst atJ
    simp [left, right]
  · by_cases atI : k = i
    · subst atI
      simp [atJ, Ne.symm atJ, left, right]
    · simp [atJ, atI, Ne.symm atJ, Ne.symm atI]

end Swap

/-- One array has the entries of the other, rearranged up to the bound and the same beyond it. -/
structure Within (bottom : Nat) (v v' : List α) : Prop where
  length : v'.length = v.length
  beyond : ∀ j, bottom < j → v'[j]? = v[j]?
  inside : ∀ j ≤ bottom, ∃ j' ≤ bottom, v'[j]? = v[j']?

theorem Within.refl (bottom : Nat) (v : List α) : Within bottom v v :=
  ⟨rfl, fun _ _ => rfl, fun j below => ⟨j, below, rfl⟩⟩

theorem Within.trans {bottom : Nat} {v v' v'' : List α} (first : Within bottom v v')
    (second : Within bottom v' v'') : Within bottom v v'' := by
  refine ⟨second.length.trans first.length, ?_, ?_⟩
  · intro j above
    rw [second.beyond j above, first.beyond j above]
  · intro j below
    obtain ⟨j', below', same⟩ := second.inside j below
    obtain ⟨j'', below'', same'⟩ := first.inside j' below'
    exact ⟨j'', below'', same.trans same'⟩

theorem within_swap {bottom i j : Nat} {v : List α} (left : i ≤ bottom) (right : j ≤ bottom)
    (inside : bottom < v.length) : Within bottom v (swap v i j) := by
  have entry := swap_getElem? (v := v) (i := i) (j := j) (by omega) (by omega)
  refine ⟨swap_length v i j, ?_, ?_⟩
  · intro k above
    rw [entry, if_neg (by omega), if_neg (by omega)]
  · intro k below
    rw [entry]
    split_ifs
    · exact ⟨i, left, rfl⟩
    · exact ⟨j, right, rfl⟩
    · exact ⟨k, below, rfl⟩

variable {le : α → α → Prop} {v : List α} {k hole bottom : Nat}

/-- Entry `i` is at least entry `j`. -/
def Above (le : α → α → Prop) (v : List α) (i j : Nat) : Prop :=
  ∀ x y, v[i]? = some x → v[j]? = some y → le y x

theorem Above.trans (transitive : ∀ a b c, le a b → le b c → le a c) {i j m : Nat}
    (inside : j < v.length) (first : Above le v i j) (second : Above le v j m) :
    Above le v i m := by
  intro x z atI atM
  have atJ : v[j]? = some v[j] := List.getElem?_eq_getElem inside
  exact transitive z v[j] x (second _ z atJ atM) (first x _ atI atJ)

theorem above_self (reflexive : ∀ a, le a a) (v : List α) (i : Nat) : Above le v i i := by
  intro x y first second
  obtain rfl := Option.some.inj (first.symm.trans second)
  exact reflexive x

/-- From `k` on, no entry up to the bottom exceeds its parent. -/
def HeapFrom (le : α → α → Prop) (k bottom : Nat) (v : List α) : Prop :=
  ∀ i j, k ≤ i → j ≤ bottom → Child i j → Above le v i j

/-- The same except for the children of one entry, which do not exceed the parent of the entry. -/
structure HeapBut (le : α → α → Prop) (k hole bottom : Nat) (v : List α) : Prop where
  others : ∀ i j, k ≤ i → i ≠ hole → j ≤ bottom → Child i j → Above le v i j
  across : ∀ p j, k ≤ p → p ≠ hole → Child p hole → j ≤ bottom → Child hole j → Above le v p j

theorem HeapFrom.extend (heap : HeapFrom le (k + 1) bottom v) : HeapBut le k k bottom v := by
  constructor
  · intro i j from_k apart below child
    exact heap i j (by omega) below child
  · intro p j from_k apart parent below child
    unfold Child at parent
    omega

theorem HeapBut.stop (heap : HeapBut le k hole bottom v)
    (settled : ∀ j ≤ bottom, Child hole j → Above le v hole j) : HeapFrom le k bottom v := by
  intro i j from_k below child
  by_cases equal : i = hole
  · subst equal
    exact settled j below child
  · exact heap.others i j from_k equal below child

theorem HeapBut.sink (heap : HeapBut le k hole bottom v) (from_k : k ≤ hole) {m : Nat}
    (child : Child hole m) (below : m ≤ bottom) (apart : hole ≠ m) (inside : bottom < v.length)
    (largest : ∀ j ≤ bottom, Child hole j → Above le v m j)
    (larger : Above le v m hole) : HeapBut le k m bottom (swap v hole m) := by
  have deeper : hole < m := by
    unfold Child at child
    omega
  have entry := swap_getElem? (v := v) (i := hole) (j := m) (by omega) (by omega)
  have atHole : (swap v hole m)[hole]? = v[m]? := by
    rw [entry, if_neg apart, if_pos rfl]
  have atOther : ∀ i, i ≠ m → i ≠ hole → (swap v hole m)[i]? = v[i]? := by
    intro i other other'
    rw [entry, if_neg other, if_neg other']
  constructor
  · intro i j from_k' other below' child'
    by_cases equal : i = hole
    · subst equal
      intro x y first second
      rw [atHole] at first
      rw [entry] at second
      split_ifs at second with atM atI
      · exact larger x y first second
      · exact largest m below child x y first second
      · exact largest j below' child' x y first second
    · intro x y first second
      rw [atOther i other equal] at first
      have otherChild : j ≠ m := by
        unfold Child at child child'
        omega
      by_cases parent : j = hole
      · rw [parent, atHole] at second
        exact heap.across i m from_k' equal (parent ▸ child') below child x y first second
      · rw [atOther j otherChild parent] at second
        exact heap.others i j from_k' equal below' child' x y first second
  · intro p j from_k' other parent below' child'
    obtain rfl : p = hole := by
      unfold Child at child parent
      omega
    intro x y first second
    rw [atHole] at first
    rw [atOther j (by unfold Child at child'; omega) (by unfold Child at child'; omega)] at second
    exact heap.others m j (by omega) (Ne.symm apart) below' child' x y first second

theorem HeapFrom.top (reflexive : ∀ a, le a a) (transitive : ∀ a b c, le a b → le b c → le a c)
    (heap : HeapFrom le 0 bottom v) (inside : bottom < v.length) (j : Nat) (below : j ≤ bottom) :
    Above le v 0 j := by
  induction j using Nat.strongRecOn with
  | ind j ih =>
      by_cases first : j = 0
      · subst first
        exact above_self reflexive v 0
      · have parent : Child (j / 2) j := by
          unfold Child
          omega
        exact (ih (j / 2) (by omega) (by omega)).trans transitive (by omega)
          (heap (j / 2) j (Nat.zero_le _) below parent)

theorem HeapFrom.withoutTop (heap : HeapFrom le 0 (bottom + 1) v) (inside : bottom + 1 < v.length) :
    HeapFrom le 1 bottom (swap v 0 (bottom + 1)) := by
  intro i j from_one below child
  have later : i ≤ j := by
    unfold Child at child
    omega
  have entry := swap_getElem? (v := v) (i := 0) (j := bottom + 1) (by omega) inside
  intro x y first second
  rw [entry, if_neg (by omega), if_neg (by omega)] at first second
  exact heap i j (Nat.zero_le i) (by omega) child x y first second

/-- From `i` on the entries are in order, and none before is larger. -/
def SortedFrom (le : α → α → Prop) (i : Nat) (v : List α) : Prop :=
  ∀ a b, i ≤ b → a ≤ b → Above le v b a

theorem SortedFrom.within {v' : List α} {i : Nat} (sorted : SortedFrom le (i + 1) v)
    (within : Within i v v') : SortedFrom le (i + 1) v' := by
  intro a b after before x y first second
  rw [within.beyond b (by omega)] at first
  by_cases low : a ≤ i
  · obtain ⟨a', low', same⟩ := within.inside a low
    exact sorted a' b after (by omega) x y first (same ▸ second)
  · rw [within.beyond a (by omega)] at second
    exact sorted a b after before x y first second

theorem SortedFrom.extend {i : Nat} (sorted : SortedFrom le (i + 1) v) (inside : i < v.length)
    (largest : ∀ j ≤ i, Above le v 0 j) : SortedFrom le i (swap v 0 i) := by
  have within : Within i v (swap v 0 i) := within_swap (Nat.zero_le i) (Nat.le_refl i) inside
  intro a b after before
  by_cases here : b = i
  · subst here
    intro x y first second
    obtain ⟨a', low, same⟩ := within.inside a before
    rw [swap_getElem? (by omega) inside, if_pos rfl] at first
    exact largest a' low x y first (same ▸ second)
  · exact sorted.within within a b (by omega) before

theorem SortedFrom.pairwise (sorted : SortedFrom le 1 v) : v.Pairwise le := by
  rw [List.pairwise_iff_getElem]
  intro i j left right before
  exact sorted i j (by omega) (by omega) v[j] v[i] (List.getElem?_eq_getElem right)
    (List.getElem?_eq_getElem left)

end SquirrelGObject.Lib.Heap
