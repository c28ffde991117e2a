/- SquirrelGObject/Engine/SortSpec
   digest: Sorting stays inside the array, rearranges it under any comparison, and orders it under an order. -/

import Mathlib.Data.List.Lex
import SquirrelGObject.Engine.Sort
import SquirrelGObject.Lib.Triples

set_option autoImplicit false
set_option relaxedAutoImplicit false

namespace SquirrelGObject.Engine

open Lib.Heap Lib.Triples

variable {σ α : Type} {c : Comparison σ α} {n bottom : Nat}

section Elements

variable {P : SortState σ α → Prop} {E : SortFault → SortState σ α → Prop} {i j : Nat}

private theorem triple_elementAt (inside : ∀ s, P s → i < s.values.length) :
    Triple P (elementAt i) (fun x s => P s ∧ s.values[i]? = some x) E := by
  intro s holds
  obtain ⟨x, found⟩ : ∃ x, s.values[i]? = some x :=
    ⟨_, List.getElem?_eq_getElem (inside s holds)⟩
  simp only [elementAt, found]
  exact ⟨holds, trivial⟩

private theorem triple_swapElements {Q : Unit → SortState σ α → Prop}
    (inside : ∀ s, P s → i < s.values.length ∧ j < s.values.length)
    (swapped : ∀ s, P s → Q () { s with values := swap s.values i j }) :
    Triple P (swapElements i j) Q E := by
  unfold swapElements
  apply (triple_elementAt fun s holds => (inside s holds).1).bind
  intro x
  apply (triple_elementAt fun s holds => (inside s holds.1).2).bind
  intro y
  exact triple_modify fun s holds => swapped s holds.1.1

private theorem triple_sortCompare {Q : Int → SortState σ α → Prop}
    (inside : ∀ s, P s → i < s.values.length ∧ j < s.values.length)
    (called : ∀ a b, Triple (fun s => P s ∧ s.values[i]? = some a ∧ s.values[j]? = some b)
      (callCompare c a b) Q E) :
    Triple P (sortCompare c i j) Q E := by
  unfold sortCompare
  apply (triple_elementAt fun s holds => (inside s holds).1).bind
  intro a
  apply (triple_elementAt fun s holds => (inside s holds.1).2).bind
  intro b
  exact (called a b).weaken (fun s holds => ⟨holds.1.1, holds.1.2, holds.2⟩)
    (fun _ _ after => after) fun _ _ failed => failed

end Elements

private theorem callCompare_cases (c : Comparison σ α) (a b : α) (s : SortState σ α) :
    (∃ error, callCompare c a b s = .error (.raised error) (c.call s a b).1) ∨
      callCompare c a b s = .error .resized (c.call s a b).1 ∨
      ∃ ret, callCompare c a b s = .ok ret (c.call s a b).1 ∧ (c.call s a b).2.2 = .ok ret ∧
        (c.func = true → (c.call s a b).1.values.length = s.values.length) := by
  unfold callCompare
  rcases c.call s a b with ⟨after, moved, answer⟩
  cases answer with
  | error error => exact Or.inl ⟨error, rfl⟩
  | ok ret =>
      refine Or.inr ?_
      simp only
      split_ifs with resized
      · exact Or.inl rfl
      · refine Or.inr ⟨ret, rfl, rfl, fun given => ?_⟩
        simp only [given, Bool.true_and, Bool.or_eq_true, bne_iff_ne, ne_eq, not_or,
          not_not] at resized
        exact resized.2

/-- A property of the state that comparisons and exchanges keep, and what is known when the sort
fails. -/
structure Keeps (c : Comparison σ α) (n : Nat) (I : SortState σ α → Prop)
    (E : SortFault → SortState σ α → Prop) : Prop where
  length : ∀ s, I s → s.values.length = n
  swap : ∀ s i j, I s → i < n → j < n → I { s with values := swap s.values i j }
  call : ∀ a b, Triple I (callCompare c a b) (fun _ => I) E
  inconsistent : ∀ s, I s → E .inconsistent s

section Keeps

variable {I : SortState σ α → Prop} {E : SortFault → SortState σ α → Prop}

theorem Keeps.sortCompare (keeps : Keeps c n I E) {i j : Nat} (left : i < n) (right : j < n) :
    Triple I (sortCompare c i j) (fun _ => I) E := by
  apply triple_sortCompare
  · intro s holds
    rw [keeps.length s holds]
    exact ⟨left, right⟩
  · intro a b
    exact (keeps.call a b).weaken (fun s holds => holds.1) (fun _ _ after => after)
      fun _ _ failed => failed

theorem Keeps.swapElements (keeps : Keeps c n I E) {i j : Nat} (left : i < n) (right : j < n) :
    Triple I (swapElements i j) (fun _ => I) E := by
  apply triple_swapElements
  · intro s holds
    rw [keeps.length s holds]
    exact ⟨left, right⟩
  · intro s holds
    exact keeps.swap s i j holds left right

theorem Keeps.maxChild (keeps : Keeps c n I E) {root : Nat} (below : root * 2 ≤ bottom)
    (inside : bottom < n) :
    Triple I (maxChild c root bottom) (fun m s => I s ∧ m ≤ bottom) E := by
  unfold Engine.maxChild
  split_ifs with last
  · exact triple_pure fun s holds => ⟨holds, below⟩
  · apply (keeps.sortCompare (by omega) (by omega)).bind
    intro ret
    apply triple_pure
    intro s holds
    refine ⟨holds, ?_⟩
    split_ifs <;> omega

theorem Keeps.hsortSiftDown (keeps : Keeps c n I E) (inside : bottom < n) (fuel root : Nat) :
    Triple I (hsortSiftDown c fuel root bottom) (fun _ => I) E := by
  induction fuel generalizing root with
  | zero => exact triple_pure fun s holds => holds
  | succ fuel ih =>
      unfold Engine.hsortSiftDown
      split_ifs with below
      · apply (keeps.maxChild below inside).bind
        intro child s holds
        obtain ⟨holds, reached⟩ := holds
        refine (Triple.bind (keeps.sortCompare (by omega) (by omega)) ?_) s holds
        intro ret
        split_ifs with less self
        · exact triple_throw keeps.inconsistent
        · exact (keeps.swapElements (by omega) (by omega)).bind fun _ => ih child
        · exact triple_pure fun s holds => holds
      · exact triple_pure fun s holds => holds

theorem Keeps.heapify (keeps : Keeps c n I E) (inside : bottom < n) (i : Nat) :
    Triple I (heapify c bottom i) (fun _ => I) E := by
  induction i with
  | zero => exact keeps.hsortSiftDown inside (bottom + 1) 0
  | succ i ih => exact (keeps.hsortSiftDown inside (bottom + 1) (i + 1)).bind fun _ => ih

theorem Keeps.extractMax (keeps : Keeps c n I E) (i : Nat) (inside : i < n) :
    Triple I (extractMax c i) (fun _ => I) E := by
  induction i with
  | zero => exact triple_pure fun s holds => holds
  | succ i ih =>
      apply (keeps.swapElements (by omega) inside).bind
      intro _
      apply (keeps.hsortSiftDown (by omega) (i + 1) 0).bind
      exact fun _ => ih (by omega)

theorem Keeps.arraySort (keeps : Keeps c n I E) : Triple I (arraySort c) (fun _ => I) E := by
  intro s holds
  have length := keeps.length s holds
  unfold Engine.arraySort
  rw [length]
  split_ifs with several
  · exact ((keeps.heapify (by omega) (n / 2)).bind fun _ =>
      keeps.extractMax (n - 1) (by omega)) s holds
  · exact holds

end Keeps

section Inside

private theorem keeps_length (given : c.func = true) (n : Nat) :
    Keeps c n (fun s => s.values.length = n) fun e _ => e ≠ .outOfBounds where
  length s holds := holds
  swap s i j holds _ _ := (swap_length s.values i j).trans holds
  call a b := by
    intro s holds
    rcases callCompare_cases c a b s with ⟨error, result⟩ | result | ⟨ret, result, -, same⟩
    · rw [result]
      simp
    · rw [result]
      simp
    · rw [result]
      exact (same given).trans holds
  inconsistent s _ := by simp

/-- A `_cmp` metamethod that empties the array, whatever integer it answers. -/
def clearingCmp (answer : SortState σ SQObject → SQObject → SQObject → Int) : MetaCmp σ :=
  fun s a b => some ({ s with values := [] }, true, .ok (answer s a b))

variable {E : SortFault → SortState σ α → Prop}
  {answer : SortState σ SQObject → SQObject → SQObject → Int}

private theorem sortCompare_cleared (c : Comparison σ α) (i j : Nat) :
    Triple (fun s => s.values = []) (sortCompare c i j) (fun _ _ => False)
      fun e _ => e = .outOfBounds := by
  apply Triple.stops
  intro s cleared
  have missed : elementAt i s = .error .outOfBounds s := by
    simp only [elementAt, cleared, List.getElem?_nil]
  rw [missed]

private theorem swapElements_cleared (i j : Nat) :
    Triple (fun s : SortState σ α => s.values = []) (swapElements i j) (fun _ _ => False)
      fun e _ => e = .outOfBounds := by
  apply Triple.stops
  intro s cleared
  have missed : elementAt i s = .error .outOfBounds s := by
    simp only [elementAt, cleared, List.getElem?_nil]
  rw [missed]

private theorem siftDown_cleared (c : Comparison σ α) (fuel : Nat) {root : Nat}
    (below : root * 2 ≤ bottom) :
    Triple (fun s => s.values = []) (hsortSiftDown c (fuel + 1) root bottom) (fun _ _ => False)
      fun e _ => e = .outOfBounds := by
  unfold hsortSiftDown maxChild
  rw [if_pos below]
  split_ifs with last
  · exact (sortCompare_cleared c root (root * 2)).stops
  · exact (sortCompare_cleared c (root * 2) (root * 2 + 1)).stops.stops

private theorem heapify_cleared (c : Comparison σ α) (bottom i : Nat) :
    Triple (fun s => s.values = []) (heapify c bottom i) (fun _ _ => False)
      fun e _ => e = .outOfBounds := by
  induction i with
  | zero => exact siftDown_cleared c bottom (Nat.zero_le _)
  | succ i ih =>
      by_cases below : (i + 1) * 2 ≤ bottom
      · exact (siftDown_cleared c bottom below).stops
      · unfold heapify hsortSiftDown
        rw [if_neg below]
        exact (triple_pure fun s cleared => cleared).bind fun _ => ih

private theorem sortCompare_clears {printFloat : UInt32 → String} {v : List SQObject}
    (different : v.Nodup) (tables : ∀ x ∈ v, x.type = .table) {i j : Nat} (left : i < v.length)
    (right : j < v.length) (apart : i ≠ j) {E : SortFault → SortState σ SQObject → Prop} :
    Triple (fun s => s.values = v)
      (sortCompare (defaultComparison printFloat (clearingCmp answer)) i j)
      (fun _ s => s.values = []) E := by
  apply triple_sortCompare
  · intro s holds
    rw [holds]
    exact ⟨left, right⟩
  · intro a b s holds
    obtain ⟨holds, atI, atJ⟩ := holds
    rw [holds] at atI atJ
    have unequal : a ≠ b := by
      intro equal
      subst equal
      exact apart ((List.getElem?_inj left different).mp (atI.trans atJ.symm))
    have kinds := And.intro (tables a (List.mem_of_getElem? atI))
      (tables b (List.mem_of_getElem? atJ))
    have called : (defaultComparison printFloat (clearingCmp answer)).call s a b =
        ({ s with values := [] }, true, .ok (answer s a b)) := by
      cases a <;> cases b <;> simp [SQObject.type] at kinds
      simp only [defaultComparison, objCmp, if_neg unequal]
      rfl
    have result : callCompare (defaultComparison printFloat (clearingCmp answer)) a b s =
        .ok (answer s a b) { s with values := [] } := by
      simp only [callCompare, called]
      rfl
    rw [result]

private theorem siftDown_clears {printFloat : UInt32 → String} {v : List SQObject}
    (different : v.Nodup) (tables : ∀ x ∈ v, x.type = .table) (length : v.length = bottom + 1)
    (several : 0 < bottom) (fuel : Nat) {root : Nat} (below : root * 2 ≤ bottom) :
    Triple (fun s : SortState σ SQObject => s.values = v)
      (hsortSiftDown (defaultComparison printFloat (clearingCmp answer)) (fuel + 1) root bottom)
      (fun _ s => 0 < root ∧ s.values = []) fun e _ => e = .outOfBounds := by
  unfold hsortSiftDown maxChild
  rw [if_pos below]
  split_ifs with last
  · rw [pure_bind]
    apply (sortCompare_clears different tables (by omega) (by omega) (by omega)).bind
    intro ret
    split_ifs with negative same
    · omega
    · -- The two elements to be exchanged are gone.
      exact (swapElements_cleared root (root * 2)).stops
    · exact triple_pure fun s after => ⟨by omega, after⟩
  · have first : Triple (fun s : SortState σ SQObject => s.values = v)
        (do
          let ret ← sortCompare (defaultComparison printFloat (clearingCmp answer)) (root * 2)
            (root * 2 + 1)
          pure (if 0 < ret then root * 2 else root * 2 + 1))
        (fun _ s => s.values = []) fun e _ => e = .outOfBounds := by
      apply (sortCompare_clears different tables (by omega) (by omega) (by omega)).bind
      exact fun _ => triple_pure fun s after => after
    exact first.bind fun child => (sortCompare_cleared _ root child).stops

private theorem heapify_clears {printFloat : UInt32 → String} {v : List SQObject}
    (different : v.Nodup) (tables : ∀ x ∈ v, x.type = .table) (length : v.length = bottom + 1)
    (several : 0 < bottom) (i : Nat) :
    Triple (fun s : SortState σ SQObject => s.values = v)
      (heapify (defaultComparison printFloat (clearingCmp answer)) bottom i) (fun _ _ => False)
      fun e _ => e = .outOfBounds := by
  induction i with
  | zero =>
      exact (siftDown_clears different tables length several bottom (Nat.zero_le _)).weaken
        (fun _ holds => holds) (fun _ _ after => absurd after.1 (Nat.lt_irrefl 0))
        fun _ _ failed => failed
  | succ i ih =>
      by_cases below : (i + 1) * 2 ≤ bottom
      · apply (siftDown_clears different tables length several bottom below).bind
        intro _
        exact (heapify_cleared _ bottom i).weaken (fun s after => after.2)
          (fun _ _ after => after) fun _ _ failed => failed
      · unfold heapify hsortSiftDown
        rw [if_neg below]
        exact (triple_pure fun s holds => holds).bind fun _ => ih

/-- With a compare function, whatever that does, a sort never reads or writes beyond the end of the
array, and one that succeeds leaves the size. Without one there is no such guarantee: sorting any
two or more tables whose `_cmp` empties the array does. -/
theorem sort_stays_inside :
    (∀ (c : Comparison σ α) (s : SortState σ α), c.func = true →
      (∀ s', arraySort c s = .ok () s' → s'.values.length = s.values.length) ∧
        ∀ s', arraySort c s ≠ .error .outOfBounds s') ∧
    ∀ (printFloat : UInt32 → String) (answer : SortState σ SQObject → SQObject → SQObject → Int)
      (s : SortState σ SQObject), s.values.Nodup → (∀ x ∈ s.values, x.type = .table) →
      2 ≤ s.values.length →
      ∃ s', arraySort (defaultComparison printFloat (clearingCmp answer)) s =
        .error .outOfBounds s' := by
  constructor
  · intro c s given
    have triple := (keeps_length given s.values.length).arraySort
    refine ⟨fun s' result => triple.of_ok rfl result, fun s' result => ?_⟩
    exact triple.of_error rfl result rfl
  · intro printFloat answer s different tables several
    have fails : Triple (fun s' : SortState σ SQObject => s'.values = s.values)
        (hsort (defaultComparison printFloat (clearingCmp answer)) s.values.length)
        (fun _ _ => False) fun e _ => e = .outOfBounds :=
      (heapify_clears different tables (by omega) (by omega) (s.values.length / 2)).stops
    unfold arraySort
    rw [if_pos (by omega)]
    cases result : hsort (defaultComparison printFloat (clearingCmp answer)) s.values.length s with
    | ok a s' => exact (fails.of_ok rfl result).elim
    | error e s' => exact ⟨s', by rw [fails.of_error rfl result]⟩

def plainPlatform : Platform := ⟨.little, fun _ => 0, fun _ => 0⟩

theorem sort_stays_inside_clearing :
    arraySort (functionComparison plainPlatform fun s _ _ =>
        ({ s with values := [] }, true, .ok (.integer 0)))
          ⟨(), [.table 8, .table 16, .table 24]⟩ = .error .resized ⟨(), []⟩ ∧
      (∀ s', arraySort (functionComparison plainPlatform fun s _ _ =>
        ({ s with values := [] }, true, .ok (.integer 0)))
          ⟨(), [.table 8, .table 16, .table 24]⟩ ≠ .error .outOfBounds s') ∧
      ∃ s', arraySort (defaultComparison (fun _ => "") (clearingCmp fun _ _ _ => -1))
        ⟨(), [.table 8, .table 16, .table 24]⟩ = .error .outOfBounds s' := by
  have inside := sort_stays_inside (σ := Unit) (α := SQObject)
  refine ⟨rfl, (inside.1 _ _ rfl).2, inside.2 _ _ _ (by decide) (by decide) (by decide)⟩

end Inside

section Rearranging

private theorem keeps_perm (reads : ∀ s a b, (c.call s a b).1.values = s.values) (v : List α) :
    Keeps c v.length (fun s => s.values.Perm v) fun e s => s.values.Perm v ∧ e ≠ .outOfBounds where
  length s holds := holds.length_eq
  swap s i j holds left right := by
    rw [← holds.length_eq] at left right
    exact (swap_perm left right).trans holds
  call a b := by
    intro s holds
    have same : (c.call s a b).1.values.Perm v := by
      rw [reads s a b]
      exact holds
    rcases callCompare_cases c a b s with ⟨error, result⟩ | result | ⟨ret, result, -, -⟩
    · rw [result]
      exact ⟨same, by simp⟩
    · rw [result]
      exact ⟨same, by simp⟩
    · rw [result]
      exact same
  inconsistent s holds := ⟨holds, by simp⟩

/-- Whatever a comparison that leaves the array alone answers, consistent or not, and wherever it
fails: a sort only rearranges the array. -/
theorem sort_rearranges (c : Comparison σ α) (s : SortState σ α)
    (reads : ∀ s a b, (c.call s a b).1.values = s.values) :
    (∀ s', arraySort c s = .ok () s' → s'.values.Perm s.values) ∧
      ∀ e s', arraySort c s = .error e s' → s'.values.Perm s.values ∧ e ≠ .outOfBounds := by
  have triple := (keeps_perm reads s.values).arraySort
  exact ⟨fun s' result => triple.of_ok (List.Perm.refl _) result,
    fun e s' result => triple.of_error (List.Perm.refl _) result⟩

def constantComparison (ret : Int) : Comparison Unit SQObject :=
  functionComparison plainPlatform fun s _ _ => (s, false, .ok (.integer ret))

theorem sort_rearranges_inconsistent :
    arraySort (constantComparison 1) ⟨(), [.integer 1, .integer 2, .integer 3]⟩ =
        .ok () ⟨(), [.integer 2, .integer 3, .integer 1]⟩ ∧
      ∀ s', arraySort (constantComparison 1) ⟨(), [.integer 1, .integer 2, .integer 3]⟩ =
        .ok () s' → s'.values.Perm [.integer 1, .integer 2, .integer 3] :=
  ⟨rfl, (sort_rearranges (constantComparison 1) _ fun _ _ _ => rfl).1⟩

end Rearranging

section Ordering

/-- On the elements of the array the comparison answers as a total preorder does, and leaves the
array alone. -/
structure Orders (c : Comparison σ α) (le : α → α → Prop) (elements : List α) : Prop where
  refl : ∀ a, le a a
  trans : ∀ a b d, le a b → le b d → le a d
  reads : ∀ s, ∀ a ∈ elements, ∀ b ∈ elements,
    (c.call s a b).1.values = s.values ∧ (c.call s a b).2.1 = false
  answers : ∀ s, ∀ a ∈ elements, ∀ b ∈ elements, ∃ ret, (c.call s a b).2.2 = .ok ret ∧
    (ret < 0 ↔ ¬ le b a) ∧ (0 < ret ↔ ¬ le a b)

variable {le : α → α → Prop} {elements v : List α}

theorem Orders.sortCompare (orders : Orders c le elements) (known : ∀ x ∈ v, x ∈ elements)
    {i j : Nat} (left : i < v.length) (right : j < v.length) :
    Triple (fun s => s.values = v) (sortCompare c i j)
      (fun ret s => s.values = v ∧ (¬ 0 < ret → Above le v j i) ∧ (¬ ret < 0 → Above le v i j) ∧
        (ret < 0 → i ≠ j)) fun _ _ => False := by
  apply triple_sortCompare
  · intro s holds
    rw [holds]
    exact ⟨left, right⟩
  · intro a b s holds
    obtain ⟨holds, atI, atJ⟩ := holds
    rw [holds] at atI atJ
    have knownA := known a (List.mem_of_getElem? atI)
    have knownB := known b (List.mem_of_getElem? atJ)
    obtain ⟨ret, answer, less, greater⟩ := orders.answers s a knownA b knownB
    obtain ⟨same, still⟩ := orders.reads s a knownA b knownB
    have result : callCompare c a b s = .ok ret (c.call s a b).1 := by
      simp only [callCompare, answer, still, same]
      simp
    rw [result]
    refine ⟨same.trans holds, ?_, ?_, ?_⟩
    · intro notGreater x y atX atY
      obtain rfl := Option.some.inj (atJ.symm.trans atX)
      obtain rfl := Option.some.inj (atI.symm.trans atY)
      exact not_not.mp fun apart => notGreater (greater.mpr apart)
    · intro notLess x y atX atY
      obtain rfl := Option.some.inj (atI.symm.trans atX)
      obtain rfl := Option.some.inj (atJ.symm.trans atY)
      exact not_not.mp fun apart => notLess (less.mpr apart)
    · intro isLess equal
      subst equal
      obtain rfl := Option.some.inj (atI.symm.trans atJ)
      exact less.mp isLess (orders.refl a)

theorem Orders.maxChild (orders : Orders c le elements) (known : ∀ x ∈ v, x ∈ elements)
    {root : Nat} (below : root * 2 ≤ bottom) (inside : bottom < v.length) :
    Triple (fun s => s.values = v) (maxChild c root bottom)
      (fun m s => s.values = v ∧ m ≤ bottom ∧ Child root m ∧
        ∀ j ≤ bottom, Child root j → Above le v m j) fun _ _ => False := by
  unfold Engine.maxChild
  split_ifs with last
  · apply triple_pure
    intro s holds
    refine ⟨holds, below, Or.inl (Nat.mul_comm root 2), ?_⟩
    intro j within child
    obtain rfl : j = root * 2 := by
      unfold Child at child
      omega
    exact above_self orders.refl v _
  · apply (orders.sortCompare known (by omega) (by omega)).bind
    intro ret
    apply triple_pure
    intro s holds
    obtain ⟨holds, notGreater, notLess, -⟩ := holds
    have either : ∀ j, Child root j → j = root * 2 ∨ j = root * 2 + 1 := by
      intro j child
      unfold Child at child
      omega
    split_ifs with greater
    · refine ⟨holds, below, Or.inl (Nat.mul_comm root 2), fun j within child => ?_⟩
      rcases either j child with rfl | rfl
      · exact above_self orders.refl v _
      · exact notLess (by omega)
    · refine ⟨holds, by omega, Or.inr (by omega), fun j within child => ?_⟩
      rcases either j child with rfl | rfl
      · exact notGreater greater
      · exact above_self orders.refl v _

private theorem triple_swapped {E : SortFault → SortState σ α → Prop} {i j : Nat}
    (left : i < v.length) (right : j < v.length) :
    Triple (fun s => s.values = v) (swapElements i j) (fun _ s => s.values = swap v i j) E := by
  apply triple_swapElements
  · intro s holds
    rw [holds]
    exact ⟨left, right⟩
  · intro s holds
    rw [holds]

theorem Orders.hsortSiftDown (orders : Orders c le elements) {k : Nat} (fuel root : Nat)
    (known : ∀ x ∈ v, x ∈ elements) (inside : bottom < v.length) (from_k : k ≤ root)
    (enough : bottom < root + fuel) (heap : HeapBut le k root bottom v) :
    Triple (fun s => s.values = v) (hsortSiftDown c fuel root bottom)
      (fun _ s => HeapFrom le k bottom s.values ∧ Within bottom v s.values ∧ s.values.Perm v)
      fun _ _ => False := by
  induction fuel generalizing root v with
  | zero =>
      apply triple_pure
      intro s holds
      rw [holds]
      refine ⟨heap.stop ?_, Within.refl bottom v, List.Perm.refl v⟩
      intro j within child
      unfold Child at child
      omega
  | succ fuel ih =>
      unfold Engine.hsortSiftDown
      split_ifs with below
      · apply (orders.maxChild known below inside).bind
        intro child s holds
        obtain ⟨holds, reached, isChild, largest⟩ := holds
        refine (Triple.bind (orders.sortCompare known (by omega) (by omega)) ?_) s holds
        intro ret s holds
        obtain ⟨holds, notGreater, notLess, proper⟩ := holds
        have settled : ¬ ret < 0 → HeapFrom le k bottom v := fun done =>
          heap.stop fun j within child' =>
            (notLess done).trans orders.trans (by omega) (largest j within child')
        split_ifs with less self
        · exact proper less self
        · have apart : root ≠ child := self
          have next := heap.sink from_k isChild reached apart inside largest
            (notGreater (by omega))
          have deeper : root < child := by
            unfold Child at isChild
            omega
          have within : Within bottom v (swap v root child) :=
            within_swap (by omega) reached inside
          have perm : (swap v root child).Perm v := swap_perm (by omega) (by omega)
          refine (triple_swapped (by omega) (by omega)).bind (fun _ => ?_) s holds
          refine (ih child (fun x member => known x (perm.subset member)) (by rwa [swap_length])
            (by omega) (by omega) next).weaken (fun _ holds => holds) ?_ fun _ _ failed => failed
          intro _ s' after
          exact ⟨after.1, within.trans after.2.1, after.2.2.trans perm⟩
        · change HeapFrom le k bottom s.values ∧ Within bottom v s.values ∧ s.values.Perm v
          rw [holds]
          exact ⟨settled less, Within.refl bottom v, List.Perm.refl v⟩
      · apply triple_pure
        intro s holds
        rw [holds]
        refine ⟨heap.stop ?_, Within.refl bottom v, List.Perm.refl v⟩
        intro j within child
        unfold Child at child
        omega

theorem Orders.heapify (orders : Orders c le elements) (i : Nat) (known : ∀ x ∈ v, x ∈ elements)
    (inside : bottom < v.length) (heap : HeapFrom le (i + 1) bottom v) :
    Triple (fun s => s.values = v) (heapify c bottom i)
      (fun _ s => HeapFrom le 0 bottom s.values ∧ s.values.Perm v) fun _ _ => False := by
  induction i generalizing v with
  | zero =>
      exact (orders.hsortSiftDown (bottom + 1) 0 known inside le_rfl (by omega) heap.extend).weaken
        (fun _ holds => holds) (fun _ _ after => ⟨after.1, after.2.2⟩) fun _ _ failed => failed
  | succ i ih =>
      apply (orders.hsortSiftDown (bottom + 1) (i + 1) known inside le_rfl (by omega)
        heap.extend).bind
      intro _ s after
      obtain ⟨heap', -, perm⟩ := after
      have rest := ih (v := s.values) (fun x member => known x (perm.subset member))
        (by rwa [perm.length_eq]) heap'
      exact rest.weaken (fun _ holds => holds) (fun _ _ after => ⟨after.1, after.2.trans perm⟩)
        (fun _ _ failed => failed) s rfl

theorem Orders.extractMax (orders : Orders c le elements) (i : Nat)
    (known : ∀ x ∈ v, x ∈ elements) (inside : i < v.length) (heap : HeapFrom le 0 i v)
    (sorted : SortedFrom le (i + 1) v) :
    Triple (fun s => s.values = v) (extractMax c i)
      (fun _ s => s.values.Pairwise le ∧ s.values.Perm v) fun _ _ => False := by
  induction i generalizing v with
  | zero =>
      apply triple_pure
      intro s holds
      rw [holds]
      exact ⟨sorted.pairwise, List.Perm.refl v⟩
  | succ i ih =>
      have perm : (swap v 0 (i + 1)).Perm v := swap_perm (by omega) inside
      have sorted' : SortedFrom le (i + 1) (swap v 0 (i + 1)) :=
        sorted.extend inside (heap.top orders.refl orders.trans inside)
      have known' : ∀ x ∈ swap v 0 (i + 1), x ∈ elements :=
        fun x member => known x (perm.subset member)
      have rest : HeapFrom le 1 i (swap v 0 (i + 1)) := heap.withoutTop inside
      apply (triple_swapped (by omega) inside).bind
      intro _
      apply (orders.hsortSiftDown (i + 1) 0 known' (by rw [swap_length]; omega) le_rfl (by omega)
        rest.extend).bind
      intro _ s after
      obtain ⟨heap', within, perm'⟩ := after
      have next := ih (v := s.values) (fun x member => known' x (perm'.subset member))
        (by rw [perm'.length_eq, swap_length]; omega) heap' (sorted'.within within)
      exact next.weaken (fun _ holds => holds)
        (fun _ _ after => ⟨after.1, after.2.trans (perm'.trans perm)⟩)
        (fun _ _ failed => failed) s rfl

theorem Orders.hsort (orders : Orders c le v) (several : 1 < v.length) :
    Triple (fun s => s.values = v) (hsort c v.length)
      (fun _ s => s.values.Pairwise le ∧ s.values.Perm v) fun _ _ => False := by
  have start : HeapFrom le (v.length / 2 + 1) (v.length - 1) v := by
    intro i j after below child
    unfold Child at child
    omega
  apply (orders.heapify (v.length / 2) (fun x member => member) (by omega) start).bind
  intro _ s after
  obtain ⟨heap, perm⟩ := after
  have sorted : SortedFrom le (v.length - 1 + 1) s.values := by
    intro a b after before x y atB
    rw [List.getElem?_eq_none (by rw [perm.length_eq]; omega)] at atB
    cases atB
  have rest := orders.extractMax (v.length - 1) (fun x member => perm.subset member)
    (by rw [perm.length_eq]; omega) heap sorted
  exact rest.weaken (fun _ holds => holds) (fun _ _ after => ⟨after.1, after.2.trans perm⟩)
    (fun _ _ failed => failed) s rfl

theorem Orders.arraySort (orders : Orders c le v) :
    Triple (fun s => s.values = v) (arraySort c)
      (fun _ s => s.values.Pairwise le ∧ s.values.Perm v) fun _ _ => False := by
  intro s holds
  unfold Engine.arraySort
  rw [holds]
  split_ifs with several
  · exact orders.hsort several s holds
  · refine ⟨?_, by rw [holds]⟩
    rw [holds]
    exact List.pairwise_iff_getElem.mpr fun i j left right before => by omega

/-- Under a comparison that answers as a total preorder on the elements does, a sort succeeds, and
gives the elements in that order. -/
theorem sort_orders (c : Comparison σ α) (le : α → α → Prop) (s : SortState σ α)
    (orders : Orders c le s.values) :
    ∃ s', arraySort c s = .ok () s' ∧ s'.values.Pairwise le ∧ s'.values.Perm s.values := by
  obtain ⟨_, s', result, sorted, perm⟩ := orders.arraySort.succeeds rfl
  exact ⟨s', result, sorted, perm⟩

def descending : Comparison Unit SQObject :=
  functionComparison plainPlatform fun s a b =>
    (s, false, match a, b with
      | .integer m, .integer n => .ok (.integer (n - m))
      | _, _ => .error .null)

theorem sort_orders_descending :
    ∃ s', arraySort descending ⟨(), [.integer 2, .integer (-4), .integer 9]⟩ = .ok () s' ∧
      s'.values = [.integer 9, .integer 2, .integer (-4)] := by
  have orders : Orders descending (fun a b => (match b with | .integer n => n | _ => 0) ≤
      (match a with | .integer n => n | _ => 0)) [.integer 2, .integer (-4), .integer 9] := by
    refine ⟨fun a => Int.le_refl _, fun a b d first second => Int.le_trans second first,
      fun s a _ b _ => ⟨rfl, rfl⟩, ?_⟩
    intro s a left b right
    simp only [List.mem_cons, List.not_mem_nil, or_false] at left right
    rcases left with rfl | rfl | rfl <;> rcases right with rfl | rfl | rfl <;>
      exact ⟨_, rfl, by decide⟩
  obtain ⟨s', result, -, -⟩ := sort_orders descending _ ⟨(), _⟩ orders
  refine ⟨s', result, ?_⟩
  have run : arraySort descending ⟨(), [.integer 2, .integer (-4), .integer 9]⟩ =
      .ok () ⟨(), [.integer 9, .integer 2, .integer (-4)]⟩ := by
    rfl
  cases result.symm.trans run
  rfl

end Ordering

section Default

def cString : List UInt8 → List Nat
  | [] => []
  | a :: x => if a = 0 then [] else a.toNat :: cString x

private theorem pos_of_ne_zero {a : UInt8} (apart : a ≠ 0) : 0 < a := by
  rw [UInt8.lt_iff_toNat_lt]
  have other := mt UInt8.toNat_inj.mp apart
  simp only [UInt8.toNat_zero] at other ⊢
  omega

private theorem scstrcmp_eq (x y : List UInt8) : scstrcmp x y =
    if cString x < cString y then -1 else if cString y < cString x then 1 else 0 := by
  induction x generalizing y with
  | nil =>
      cases y with
      | nil => rfl
      | cons b y =>
          simp only [scstrcmp, cString]
          split_ifs <;> simp_all
  | cons a x ih =>
      cases y with
      | nil =>
          simp only [scstrcmp, cString]
          split_ifs <;> simp_all
      | cons b y =>
          simp only [scstrcmp, cString, ih]
          by_cases zero : a = 0
          · subst zero
            by_cases zero' : b = 0
            · subst zero'
              simp
            · simp [pos_of_ne_zero zero', zero']
          · by_cases zero' : b = 0
            · subst zero'
              have pos := pos_of_ne_zero zero
              simp [pos, zero, UInt8.lt_asymm pos]
            · simp only [zero, zero', if_false, List.cons_lt_cons_iff, UInt8.lt_iff_toNat_lt]
              rcases Nat.lt_trichotomy a.toNat b.toNat with less | same | greater
              · simp [less]
              · simp [same]
              · simp [greater, Nat.lt_asymm greater, Nat.ne_of_gt greater, Nat.ne_of_lt greater]

/-- Null comes before the integers, and these before the strings. -/
def kindRank : SQObject → Nat
  | .null => 0
  | .integer _ => 1
  | .string _ => 2
  | _ => 3

def numberOf : SQObject → Int
  | .integer n => n
  | _ => 0

def textBytes : SQObject → List Nat
  | .string s => cString s.toUTF8.data.toList
  | _ => []

/-- The order in which values of one kind are sorted by default, with nulls first. -/
def DefaultLe (a b : SQObject) : Prop :=
  kindRank a < kindRank b ∨
    kindRank a = kindRank b ∧ numberOf a ≤ numberOf b ∧ textBytes a ≤ textBytes b

theorem DefaultLe.refl (a : SQObject) : DefaultLe a a := Or.inr ⟨rfl, Int.le_refl _, le_refl _⟩

theorem DefaultLe.trans (a b d : SQObject) (first : DefaultLe a b) (second : DefaultLe b d) :
    DefaultLe a d := by
  rcases first with less | ⟨same, numbers, texts⟩
  · rcases second with less' | ⟨same', -, -⟩
    · exact Or.inl (less.trans less')
    · exact Or.inl (same' ▸ less)
  · rcases second with less' | ⟨same', numbers', texts'⟩
    · exact Or.inl (same ▸ less')
    · exact Or.inr ⟨same.trans same', numbers.trans numbers', texts.trans texts'⟩

private theorem objCmp_default (printFloat : UInt32 → String) (metaCmp : MetaCmp σ)
    (s : SortState σ SQObject) {a b : SQObject}
    (alike : (a.type = .null ∨ a.type = .integer) ∧ (b.type = .null ∨ b.type = .integer) ∨
      (a.type = .null ∨ a.type = .string) ∧ (b.type = .null ∨ b.type = .string)) :
    ∃ ret, objCmp printFloat metaCmp s a b = (s, false, .ok ret) ∧
      (ret < 0 ↔ ¬ DefaultLe b a) ∧ (0 < ret ↔ ¬ DefaultLe a b) := by
  by_cases equal : a = b
  · subst equal
    exact ⟨0, by simp [objCmp], by simp [DefaultLe.refl]⟩
  · cases a <;> cases b <;> simp [SQObject.type] at alike
    case null.null => exact absurd rfl equal
    case null.integer => exact ⟨-1, by simp [objCmp], by simp [DefaultLe, kindRank]⟩
    case null.string => exact ⟨-1, by simp [objCmp], by simp [DefaultLe, kindRank]⟩
    case integer.null => exact ⟨1, by simp [objCmp], by simp [DefaultLe, kindRank]⟩
    case string.null => exact ⟨1, by simp [objCmp], by simp [DefaultLe, kindRank]⟩
    case integer.integer m n =>
      refine ⟨if m < n then -1 else 1, by simp only [objCmp, if_neg equal], ?_⟩
      have apart : m ≠ n := fun same => equal (congrArg SQObject.integer same)
      simp only [DefaultLe, kindRank, numberOf, textBytes, Nat.lt_irrefl, false_or, true_and,
        le_refl, and_true]
      split_ifs <;> omega
    case string.string x y =>
      refine ⟨scstrcmp x.toUTF8.data.toList y.toUTF8.data.toList,
        by simp only [objCmp, if_neg equal], ?_⟩
      simp only [DefaultLe, kindRank, numberOf, textBytes, Nat.lt_irrefl, false_or, true_and,
        le_refl, not_le, scstrcmp_eq]
      generalize cString x.toUTF8.data.toList = p
      generalize cString y.toUTF8.data.toList = q
      split_ifs with less greater
      · simp [less, less.le]
      · simp [greater, greater.le]
      · simp [not_lt.mp less, not_lt.mp greater]

/-- Without a compare function, an array of integers and nulls, or of strings and nulls, is sorted
with the nulls first and the others in ascending order. -/
theorem default_sort_orders (printFloat : UInt32 → String) (metaCmp : MetaCmp σ)
    (s : SortState σ SQObject)
    (alike : (∀ x ∈ s.values, x.type = .null ∨ x.type = .integer) ∨
      ∀ x ∈ s.values, x.type = .null ∨ x.type = .string) :
    ∃ s', arraySort (defaultComparison printFloat metaCmp) s = .ok () s' ∧
      s'.values.Pairwise DefaultLe ∧ s'.values.Perm s.values := by
  have answers : ∀ (s' : SortState σ SQObject), ∀ a ∈ s.values, ∀ b ∈ s.values,
      ∃ ret, objCmp printFloat metaCmp s' a b = (s', false, .ok ret) ∧
        (ret < 0 ↔ ¬ DefaultLe b a) ∧ (0 < ret ↔ ¬ DefaultLe a b) := by
    intro s' a left b right
    apply objCmp_default
    rcases alike with numbers | texts
    · exact Or.inl ⟨numbers a left, numbers b right⟩
    · exact Or.inr ⟨texts a left, texts b right⟩
  have orders : Orders (defaultComparison printFloat metaCmp) DefaultLe s.values := by
    refine ⟨DefaultLe.refl, DefaultLe.trans, ?_, ?_⟩
    · intro s' a left b right
      obtain ⟨ret, result, -⟩ := answers s' a left b right
      simp only [defaultComparison, result, and_self]
    · intro s' a left b right
      obtain ⟨ret, result, order⟩ := answers s' a left b right
      refine ⟨ret, ?_, order⟩
      simp only [defaultComparison, result]
  obtain ⟨_, s', result, sorted, perm⟩ := orders.arraySort.succeeds rfl
  exact ⟨s', result, sorted, perm⟩

theorem default_sort_orders_mixed :
    ∃ s', arraySort (defaultComparison (fun _ => "") fun _ _ _ => none)
        ⟨(), [.integer 3, .null, .integer (-5), .integer 7, .null, .integer 3]⟩ = .ok () s' ∧
      s'.values = [.null, .null, .integer (-5), .integer 3, .integer 3, .integer 7] ∧
      s'.values.Pairwise DefaultLe := by
  obtain ⟨s', result, sorted, -⟩ := default_sort_orders (fun _ => "") (fun _ _ _ => none)
    ⟨(), [.integer 3, .null, .integer (-5), .integer 7, .null, .integer 3]⟩
    (Or.inl (by decide))
  refine ⟨s', result, ?_, sorted⟩
  have run : arraySort (defaultComparison (σ := Unit) (fun _ => "") fun _ _ _ => none)
      ⟨(), [.integer 3, .null, .integer (-5), .integer 7, .null, .integer 3]⟩ =
        .ok () ⟨(), [.null, .null, .integer (-5), .integer 3, .integer 3, .integer 7]⟩ := by
    rfl
  cases result.symm.trans run
  rfl

end Default

end SquirrelGObject.Engine
