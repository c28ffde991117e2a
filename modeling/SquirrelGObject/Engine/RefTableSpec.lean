/- SquirrelGObject/Engine/RefTableSpec
   digest: The pin table represents a set of pinned objects with counts, through every operation and rehash. -/

import SquirrelGObject.Engine.RefTable
import Mathlib.Data.Finset.Card
import Mathlib.Data.Fintype.Basic
import Mathlib.Tactic.Set

set_option autoImplicit false
set_option relaxedAutoImplicit false

namespace SquirrelGObject.Engine.RefTable

open Lib.Chain

variable {α : Type} {hash : α → Nat} {t : RefTable α} {P : α → Prop} {c : α → Nat} {o : α}

def nexts (t : RefTable α) (i : Nat) : Option Nat := (t.nodes i).next

/-- The table stores exactly the objects in `P`, each in one node of its own bucket with its
count, and every other node is on the free list with count zero. -/
structure Rep (hash : α → Nat) (t : RefTable α) (P : α → Prop) (c : α → Nat) : Prop where
  slots_pos : 0 < t.numOfSlots
  bucket : ∀ b < t.numOfSlots, ∃ l, Linked t.nexts (t.buckets b) l ∧
    ∀ i, i ∈ l ↔ i < t.numOfSlots ∧ ∃ o, (t.nodes i).obj = some o ∧ t.mainPos hash o = b
  free : ∃ l, Linked t.nexts t.freeList l ∧
    (∀ i, i ∈ l ↔ i < t.numOfSlots ∧ (t.nodes i).obj = none) ∧
      t.slotUsed + l.length = t.numOfSlots
  free_refs : ∀ i < t.numOfSlots, (t.nodes i).obj = none → (t.nodes i).refs = 0
  unique : ∀ i < t.numOfSlots, ∀ j < t.numOfSlots, ∀ o,
    (t.nodes i).obj = some o → (t.nodes j).obj = some o → i = j
  present : ∀ o, P o ↔ ∃ i < t.numOfSlots, (t.nodes i).obj = some o
  count : ∀ i < t.numOfSlots, ∀ o, (t.nodes i).obj = some o → (t.nodes i).refs = c o
  absent : ∀ o, ¬ P o → c o = 0

theorem mainPos_lt (rep : Rep hash t P c) (o : α) : t.mainPos hash o < t.numOfSlots := by
  have := rep.slots_pos
  have : t.mainPos hash o ≤ t.numOfSlots - 1 := Nat.and_le_right
  omega

private theorem linked_length_le {next : Nat → Option Nat} {head : Option Nat} {l : List Nat}
    {n : Nat} (linked : Linked next head l) (inside : ∀ i ∈ l, i < n) : l.length ≤ n := by
  have subset : l.toFinset ⊆ Finset.range n := by
    intro i member
    exact Finset.mem_range.mpr (inside i (List.mem_toFinset.mp member))
  have card := Finset.card_le_card subset
  rwa [List.toFinset_card_of_nodup (linked_nodup linked), Finset.card_range] at card

theorem pinned_iff (rep : Rep hash t P c) (o : α) : o ∈ t.pinned ↔ P o := by
  rw [rep.present]
  simp [pinned]

theorem allocNodes_rep {size : Nat} (positive : 0 < size) (failed : List RefFault) :
    Rep hash (allocNodes size failed) (fun _ => False) (fun _ => 0) where
  slots_pos := positive
  bucket b _ := ⟨[], by simp [allocNodes], by simp [allocNodes]⟩
  free := by
    refine ⟨List.range size, ?_, by simp [allocNodes], by simp [allocNodes]⟩
    -- The tail of the free list from position `k` on.
    have tail : ∀ d k, k + d = size → 0 < d →
        Linked (allocNodes size failed : RefTable α).nexts (some k) (List.range' k d) := by
      intro d
      induction d with
      | zero => omega
      | succ d ih =>
          intro k total _
          refine ⟨rfl, ?_⟩
          cases d with
          | zero => simp [nexts, allocNodes, ← total]
          | succ d =>
              have step := ih (k + 1) (by omega) (by omega)
              rw [show (allocNodes size failed : RefTable α).nexts k = some (k + 1) by
                simp only [nexts, allocNodes]
                rw [if_pos (by omega)]]
              exact step
    have whole := tail size 0 (by omega) positive
    rwa [← List.range_eq_range'] at whole
  free_refs i _ _ := rfl
  unique i _ j _ o used _ := by simp [allocNodes] at used
  present o := by simp [allocNodes]
  count i _ o used := by simp [allocNodes] at used
  absent _ _ := rfl

@[simp] theorem setRefs_numOfSlots (i refs : Nat) :
    (t.setRefs i refs).numOfSlots = t.numOfSlots := rfl

@[simp] theorem setRefs_slotUsed (i refs : Nat) : (t.setRefs i refs).slotUsed = t.slotUsed := rfl

@[simp] theorem setRefs_failed (i refs : Nat) : (t.setRefs i refs).failed = t.failed := rfl

@[simp] theorem setRefs_obj (i refs j : Nat) :
    ((t.setRefs i refs).nodes j).obj = (t.nodes j).obj := by
  by_cases same : j = i
  · subst same
    simp [setRefs]
  · simp [setRefs, Function.update_of_ne same]

@[simp] theorem setRefs_nexts (i refs : Nat) : (t.setRefs i refs).nexts = t.nexts := by
  funext j
  by_cases same : j = i
  · subst same
    simp [nexts, setRefs]
  · simp [nexts, setRefs, Function.update_of_ne same]

private theorem setRefs_refs (i refs j : Nat) : ((t.setRefs i refs).nodes j).refs =
    if j = i then refs else (t.nodes j).refs := by
  by_cases same : j = i
  · subst same
    simp [setRefs]
  · simp [setRefs, same]

@[simp] theorem assert_true (fault : RefFault) : t.assert fault true = t := rfl

section Add

/-- The table with the node `new` taken off the free list and put, with count zero, in front of
the bucket of the object. -/
private def linkFront (hash : α → Nat) (t : RefTable α) (o : α) (new : Nat) : RefTable α :=
  { t with
    nodes := Function.update t.nodes new
      { obj := some o, refs := 0, next := t.buckets (t.mainPos hash o) }
    buckets := Function.update t.buckets (t.mainPos hash o) (some new)
    freeList := (t.nodes new).next
    slotUsed := t.slotUsed + 1 }

variable {new : Nat}

private theorem linkFront_new : (linkFront hash t o new).nodes new =
    { obj := some o, refs := 0, next := t.buckets (t.mainPos hash o) } :=
  Function.update_self _ _ _

private theorem linkFront_other {i : Nat} (apart : i ≠ new) :
    (linkFront hash t o new).nodes i = t.nodes i :=
  Function.update_of_ne apart _ _

private theorem linkFront_nexts : (linkFront hash t o new).nexts =
    Function.update t.nexts new (t.buckets (t.mainPos hash o)) := by
  funext i
  by_cases same : i = new
  · subst same
    simp [nexts, linkFront_new]
  · simp [nexts, linkFront_other same, Function.update_of_ne same]

private theorem linkFront_obj_iff (unused : (t.nodes new).obj = none) (i : Nat) (x : α) :
    ((linkFront hash t o new).nodes i).obj = some x ↔
      (i = new ∧ x = o) ∨ (t.nodes i).obj = some x := by
  by_cases same : i = new
  · subst same
    simp [linkFront_new, unused, eq_comm]
  · simp [linkFront_other same, same]

private theorem linkFront_linked {head : Option Nat} {l : List Nat} (linked : Linked t.nexts head l)
    (off : new ∉ l) : Linked (linkFront hash t o new).nexts head l := by
  rw [linkFront_nexts]
  refine linked_congr linked fun i member => Function.update_of_ne ?_ _ _
  rintro rfl
  exact off member

private theorem linkFront_bucket (inside : new < t.numOfSlots) (unused : (t.nodes new).obj = none)
    {b : Nat} {l : List Nat} (linked : Linked t.nexts (t.buckets b) l)
    (members : ∀ i, i ∈ l ↔ i < t.numOfSlots ∧
      ∃ x, (t.nodes i).obj = some x ∧ t.mainPos hash x = b) :
    ∃ l', Linked (linkFront hash t o new).nexts ((linkFront hash t o new).buckets b) l' ∧
      ∀ i, i ∈ l' ↔ i < t.numOfSlots ∧
        ∃ x, ((linkFront hash t o new).nodes i).obj = some x ∧ t.mainPos hash x = b := by
  have off : new ∉ l := by
    intro member
    obtain ⟨-, x, stored, -⟩ := (members new).mp member
    rw [unused] at stored
    cases stored
  simp only [linkFront_obj_iff unused]
  by_cases own : b = t.mainPos hash o
  · subst own
    refine ⟨new :: l, ?_, ?_⟩
    · rw [linkFront_nexts]
      simpa [linkFront] using linked_link linked off
    · intro i
      rw [List.mem_cons, members i]
      constructor
      · rintro (rfl | ⟨below, x, stored, pos⟩)
        · exact ⟨inside, o, .inl ⟨rfl, rfl⟩, rfl⟩
        · exact ⟨below, x, .inr stored, pos⟩
      · rintro ⟨below, x, ⟨rfl, -⟩ | stored, pos⟩
        · exact .inl rfl
        · exact .inr ⟨below, x, stored, pos⟩
  · have sameBucket : (linkFront hash t o new).buckets b = t.buckets b :=
      Function.update_of_ne own _ _
    refine ⟨l, by rw [sameBucket]; exact linkFront_linked linked off, ?_⟩
    intro i
    rw [members i]
    constructor
    · rintro ⟨below, x, stored, pos⟩
      exact ⟨below, x, .inr stored, pos⟩
    · rintro ⟨below, x, ⟨-, rfl⟩ | stored, pos⟩
      · exact absurd pos.symm own
      · exact ⟨below, x, stored, pos⟩

private theorem linkFront_rep (rep : Rep hash t P c) (missing : ¬ P o) {rest : List Nat}
    (linked : Linked t.nexts t.freeList (new :: rest))
    (members : ∀ i, i ∈ new :: rest ↔ i < t.numOfSlots ∧ (t.nodes i).obj = none)
    (total : t.slotUsed + (new :: rest).length = t.numOfSlots) :
    Rep hash (linkFront hash t o new) (fun x => P x ∨ x = o) c := by
  obtain ⟨inside, unused⟩ := (members new).mp List.mem_cons_self
  have off : new ∉ rest := (List.nodup_cons.mp (linked_nodup linked)).1
  have unstored : ∀ i < t.numOfSlots, (t.nodes i).obj ≠ some o :=
    fun i below stored => missing ((rep.present o).mpr ⟨i, below, stored⟩)
  refine ⟨rep.slots_pos, ?_, ⟨rest, linkFront_linked linked.2 off, ?_, ?_⟩, ?_, ?_, ?_,
    ?_, ?_⟩
  · intro b below
    obtain ⟨l, chain, listed⟩ := rep.bucket b below
    exact linkFront_bucket inside unused chain listed
  · intro i
    have listed := members i
    rw [List.mem_cons] at listed
    by_cases same : i = new
    · subst same
      simp [linkFront_new, off]
    · rw [linkFront_other same]
      change i ∈ rest ↔ i < t.numOfSlots ∧ (t.nodes i).obj = none
      simpa [same] using listed
  · change t.slotUsed + 1 + rest.length = t.numOfSlots
    rw [List.length_cons] at total
    omega
  · intro i below free
    have apart : i ≠ new := by
      rintro rfl
      rw [linkFront_new] at free
      cases free
    rw [linkFront_other apart] at free ⊢
    exact rep.free_refs i below free
  · intro i below j below' x first second
    rw [linkFront_obj_iff unused] at first second
    rcases first with ⟨rfl, rfl⟩ | old <;> rcases second with ⟨rfl, same⟩ | old'
    · rfl
    · exact absurd old' (unstored j below')
    · exact absurd (same ▸ old) (unstored i below)
    · exact rep.unique i below j below' x old old'
  · intro x
    simp only [linkFront_obj_iff unused]
    rw [rep.present]
    constructor
    · rintro (⟨i, below, stored⟩ | rfl)
      · exact ⟨i, below, .inr stored⟩
      · exact ⟨new, inside, .inl ⟨rfl, rfl⟩⟩
    · rintro ⟨i, below, ⟨-, rfl⟩ | stored⟩
      · exact .inr rfl
      · exact .inl ⟨i, below, stored⟩
  · intro i below x stored
    by_cases same : i = new
    · subst same
      rw [linkFront_new] at stored ⊢
      obtain rfl : o = x := Option.some.inj stored
      exact (rep.absent o missing).symm
    · rw [linkFront_other same] at stored ⊢
      exact rep.count i below x stored
  · intro x neither
    exact rep.absent x fun here => neither (.inl here)

/-- What a successful insertion of an absent object leaves behind. -/
structure Added (hash : α → Nat) (t : RefTable α) (P : α → Prop) (c : α → Nat) (o : α)
    (result : RefTable α × Nat) : Prop where
  rep : Rep hash result.1 (fun x => P x ∨ x = o) c
  inside : result.2 < result.1.numOfSlots
  stored : (result.1.nodes result.2).obj = some o
  slots : result.1.numOfSlots = t.numOfSlots
  used : result.1.slotUsed = t.slotUsed + 1
  failed : result.1.failed = t.failed

private theorem add_spec (rep : Rep hash t P c) (room : t.slotUsed < t.numOfSlots) (missing : ¬ P o)
    :
    Added hash t P c o (t.add (t.mainPos hash o) o) := by
  obtain ⟨free, linked, members, total⟩ := rep.free
  obtain ⟨new, rest, rfl⟩ : ∃ new rest, free = new :: rest := by
    cases free with
    | nil => simp at total; omega
    | cons new rest => exact ⟨new, rest, rfl⟩
  obtain ⟨inside, unused⟩ := (members new).mp List.mem_cons_self
  -- The assertion on the taken node is discharged by its zero count.
  have shape : t.add (t.mainPos hash o) o = (linkFront hash t o new, new) := by
    simp [add, linkFront, linked.1, rep.free_refs new inside unused]
  rw [shape]
  exact ⟨linkFront_rep rep missing linked members total, inside,
    (linkFront_obj_iff unused new o).mpr (.inl ⟨rfl, rfl⟩), rfl, rfl, rfl⟩

end Add

variable [DecidableEq α]

private theorem setRefs_rep (rep : Rep hash t P c) {i : Nat} (inside : i < t.numOfSlots)
    (used : (t.nodes i).obj = some o) (refs : Nat) :
    Rep hash (t.setRefs i refs) P (Function.update c o refs) := by
  refine ⟨rep.slots_pos, ?_, ?_, ?_, ?_, ?_, ?_, ?_⟩
  · intro b below
    obtain ⟨l, linked, members⟩ := rep.bucket b below
    refine ⟨l, by rw [setRefs_nexts]; exact linked, ?_⟩
    intro j
    simp only [setRefs_obj]
    exact members j
  · obtain ⟨l, linked, members, total⟩ := rep.free
    refine ⟨l, by rw [setRefs_nexts]; exact linked, ?_, total⟩
    intro j
    rw [setRefs_obj]
    exact members j
  · intro j below unused
    rw [setRefs_obj] at unused
    have apart : j ≠ i := by
      rintro rfl
      rw [used] at unused
      cases unused
    rw [setRefs_refs, if_neg apart]
    exact rep.free_refs j below unused
  · intro j below k below' o'
    rw [setRefs_obj, setRefs_obj]
    exact rep.unique j below k below' o'
  · intro o'
    simp only [setRefs_obj]
    exact rep.present o'
  · intro j below o' stored
    rw [setRefs_obj] at stored
    rw [setRefs_refs]
    by_cases same : j = i
    · subst same
      obtain rfl : o' = o := Option.some.inj (stored.symm.trans used)
      rw [if_pos rfl, Function.update_self]
    · have apart : o' ≠ o := by
        rintro rfl
        exact same (rep.unique j below i inside _ stored used)
      rw [if_neg same, Function.update_of_ne apart]
      exact rep.count j below o' stored
  · intro o' missing
    have apart : o' ≠ o := by
      rintro rfl
      exact missing ((rep.present _).mpr ⟨i, inside, used⟩)
    rw [Function.update_of_ne apart]
    exact rep.absent o' missing

/-- The rehash loop after `k` old nodes, when no old node is unused or has a zero count: the new
table holds exactly the objects seen so far, with their counts. -/
private theorem resize_loop (rep : Rep hash t P c) (size : Nat) (larger : t.numOfSlots ≤ size)
    (full : ∀ i < t.numOfSlots, ∃ x, (t.nodes i).obj = some x)
    (positive : ∀ x, P x → c x ≠ 0) (k : Nat) (bound : k ≤ t.numOfSlots) :
    ∃ (t' : RefTable α) (P' : α → Prop) (c' : α → Nat),
      (List.range k).foldl (resizeStep hash t) (allocNodes size t.failed, 0) = (t', k) ∧
      Rep hash t' P' c' ∧ t'.numOfSlots = size ∧ t'.slotUsed = k ∧ t'.failed = t.failed ∧
      (∀ x, P' x ↔ ∃ i < k, (t.nodes i).obj = some x) ∧ ∀ x, P' x → c' x = c x := by
  have sizePos : 0 < size := lt_of_lt_of_le rep.slots_pos larger
  induction k with
  | zero =>
      exact ⟨_, _, _, rfl, allocNodes_rep sizePos t.failed, rfl, rfl, rfl, by simp, by simp⟩
  | succ k ih =>
      obtain ⟨t', P', c', fold, rep', slots, used, failed, seen, counts⟩ := ih (by omega)
      obtain ⟨x, stored⟩ := full k (by omega)
      have pinned : P x := (rep.present x).mpr ⟨k, by omega, stored⟩
      have refs : (t.nodes k).refs = c x := rep.count k (by omega) x stored
      have nonzero : (c x != 0) = true := bne_iff_ne.mpr (positive x pinned)
      have fresh : ¬ P' x := by
        intro earlier
        obtain ⟨i, below, stored'⟩ := (seen x).mp earlier
        have := rep.unique i (by omega) k (by omega) x stored' stored
        omega
      have added := add_spec rep' (by omega) fresh
      refine ⟨(t'.add (t'.mainPos hash x) x).1.setRefs (t'.add (t'.mainPos hash x) x).2 (c x),
        fun y => P' y ∨ y = x, Function.update c' x (c x), ?_,
        setRefs_rep added.rep added.inside added.stored _, ?_, ?_, ?_, ?_, ?_⟩
      · rw [List.range_succ, List.foldl_append, fold]
        simp [resizeStep, stored, refs, nonzero]
      · rw [setRefs_numOfSlots, added.slots, slots]
      · rw [setRefs_slotUsed, added.used, used]
      · rw [setRefs_failed, added.failed, failed]
      · intro y
        change P' y ∨ y = x ↔ _
        rw [seen]
        constructor
        · rintro (⟨i, below, stored'⟩ | rfl)
          · exact ⟨i, by omega, stored'⟩
          · exact ⟨k, by omega, stored⟩
        · rintro ⟨i, below, stored'⟩
          by_cases last : i = k
          · subst last
            exact .inr (Option.some.inj (stored'.symm.trans stored))
          · exact .inl ⟨i, by omega, stored'⟩
      · rintro y (earlier | rfl)
        · have apart : y ≠ x := by
            rintro rfl
            exact fresh earlier
          rw [Function.update_of_ne apart]
          exact counts y earlier
        · rw [Function.update_self]

omit [DecidableEq α] in
private theorem used_of_full (rep : Rep hash t P c) (full : t.numOfSlots = t.slotUsed) :
    t.freeList = none ∧ ∀ i < t.numOfSlots, ∃ x, (t.nodes i).obj = some x := by
  obtain ⟨l, linked, members, total⟩ := rep.free
  have empty : l = [] := List.eq_nil_of_length_eq_zero (by omega)
  subst empty
  refine ⟨linked, ?_⟩
  intro i below
  have notFree : ¬ (i < t.numOfSlots ∧ (t.nodes i).obj = none) :=
    fun free => absurd ((members i).mpr free) (by simp)
  cases stored : (t.nodes i).obj with
  | none => exact absurd ⟨below, stored⟩ notFree
  | some x => exact ⟨x, rfl⟩

/-- Doubling a full table whose counts are all positive keeps what it represents, and none of
its assertions fails. -/
theorem resize_spec (rep : Rep hash t P c) (full : t.numOfSlots = t.slotUsed)
    (positive : ∀ x, P x → c x ≠ 0) :
    Rep hash (t.resize hash (t.numOfSlots * 2)) P c ∧
      (t.resize hash (t.numOfSlots * 2)).numOfSlots = t.numOfSlots * 2 ∧
      (t.resize hash (t.numOfSlots * 2)).slotUsed = t.slotUsed ∧
      (t.resize hash (t.numOfSlots * 2)).failed = t.failed := by
  obtain ⟨-, allUsed⟩ := used_of_full rep full
  obtain ⟨t', P', c', fold, rep', slots, used, failed, seen, counts⟩ :=
    resize_loop rep (t.numOfSlots * 2) (by omega) allUsed positive t.numOfSlots le_rfl
  have shape : t.resize hash (t.numOfSlots * 2) = t' := by
    simp [resize, fold]
  have sameSet : ∀ x, P' x ↔ P x := fun x => (seen x).trans (rep.present x).symm
  have sameCount : c' = c := by
    funext x
    by_cases here : P' x
    · exact counts x here
    · rw [rep'.absent x here, rep.absent x fun there => here ((sameSet x).mpr there)]
  have sameP : P' = P := funext fun x => propext (sameSet x)
  rw [shape]
  subst sameCount sameP
  exact ⟨rep', slots, used.trans full, failed⟩

/-- A node that stores the object, and where it stands in the object's bucket. -/
structure Located (hash : α → Nat) (t : RefTable α) (o : α) (ref : Nat) (a b : List Nat) :
    Prop where
  inside : ref < t.numOfSlots
  stored : (t.nodes ref).obj = some o
  linked : Linked t.nexts (t.buckets (t.mainPos hash o)) (a ++ ref :: b)
  members : ∀ i, i ∈ a ++ ref :: b ↔ i < t.numOfSlots ∧
    ∃ x, (t.nodes i).obj = some x ∧ t.mainPos hash x = t.mainPos hash o

private theorem search_stored (rep : Rep hash t P c) (insert : Bool) (here : P o) :
    ∃ ref a b, Located hash t o ref a b ∧
      t.get hash o insert = ⟨t, some ref, t.mainPos hash o, a.getLast?⟩ := by
  obtain ⟨ref, inside, stored⟩ := (rep.present o).mp here
  obtain ⟨l, linked, members⟩ := rep.bucket _ (mainPos_lt rep o)
  have onBucket : ref ∈ l := (members ref).mpr ⟨inside, o, stored, rfl⟩
  obtain ⟨a, b, rfl⟩ := List.append_of_mem onBucket
  have nodup := linked_nodup linked
  have misses : ∀ j ∈ a, decide ((t.nodes j).obj = some o) = false := by
    intro j member
    apply decide_eq_false
    intro same
    have below := ((members j).mp (List.mem_append_left _ member)).1
    have equal := rep.unique j below ref inside o same stored
    subst equal
    exact (List.nodup_append.mp nodup).2.2 j member j List.mem_cons_self rfl
  have enough : (a ++ ref :: b).length ≤ t.numOfSlots :=
    linked_length_le linked fun i member => ((members i).mp member).1
  have walk : search t.nexts (fun i => decide ((t.nodes i).obj = some o)) t.numOfSlots none
      (t.buckets (t.mainPos hash o)) = (some ref, a.getLast?.or none) :=
    search_some linked enough misses (by simpa using stored)
  refine ⟨ref, a, b, ⟨inside, stored, linked, members⟩, ?_⟩
  rw [Option.or_none] at walk
  simp only [get]
  rw [show search (fun i => (t.nodes i).next) (fun i => decide ((t.nodes i).obj = some o))
    t.numOfSlots none (t.buckets (t.mainPos hash o)) = (some ref, a.getLast?) from walk]

private theorem search_absent (rep : Rep hash t P c) (missing : ¬ P o) :
    (search (fun i => (t.nodes i).next) (fun i => decide ((t.nodes i).obj = some o))
      t.numOfSlots none (t.buckets (t.mainPos hash o))).1 = none := by
  obtain ⟨l, linked, members⟩ := rep.bucket _ (mainPos_lt rep o)
  have inside : ∀ i ∈ l, i < t.numOfSlots := fun i member => ((members i).mp member).1
  apply search_none linked (linked_length_le linked inside)
  intro i member
  exact decide_eq_false fun stored => missing ((rep.present o).mpr ⟨i, inside i member, stored⟩)

theorem get_isSome_iff (rep : Rep hash t P c) (o : α) :
    (t.get hash o false).ref.isSome = true ↔ P o := by
  by_cases here : P o
  · obtain ⟨ref, a, b, -, shape⟩ := search_stored rep false here
    rw [shape]
    exact iff_of_true rfl here
  · have miss := search_absent rep here
    simp only [get]
    generalize search (fun i => (t.nodes i).next) (fun i => decide ((t.nodes i).obj = some o))
      t.numOfSlots none (t.buckets (t.mainPos hash o)) = found at miss
    obtain ⟨ref, prev⟩ := found
    simp only at miss
    subst miss
    exact iff_of_false Bool.false_ne_true here

/-- What the inserting lookup leaves behind: the object is stored, and the answer names its
node. -/
structure Inserted (hash : α → Nat) (t : RefTable α) (P : α → Prop) (c : α → Nat) (o : α)
    (found : Found α) (ref : Nat) : Prop where
  answer : found.ref = some ref
  inside : ref < found.table.numOfSlots
  stored : (found.table.nodes ref).obj = some o
  rep : Rep hash found.table (fun x => P x ∨ x = o) c
  failed : found.table.failed = t.failed

/-- The inserting lookup of an absent object adds it with its count zero. A rehash on the way
needs all stored counts to be positive. -/
private theorem get_absent (rep : Rep hash t P c) (positive : ∀ x, P x → c x ≠ 0)
    (missing : ¬ P o) : ∃ ref, Inserted hash t P c o (t.get hash o true) ref := by
  have miss := search_absent rep missing
  have capacity : t.slotUsed ≤ t.numOfSlots := by
    obtain ⟨l, -, -, total⟩ := rep.free
    omega
  generalize walk : search (fun i => (t.nodes i).next)
    (fun i => decide ((t.nodes i).obj = some o)) t.numOfSlots none
    (t.buckets (t.mainPos hash o)) = found at miss
  obtain ⟨ref, prev⟩ := found
  simp only at miss
  subst miss
  by_cases full : t.numOfSlots = t.slotUsed
  · obtain ⟨emptyFree, -⟩ := used_of_full rep full
    obtain ⟨rep', slots, used, failed⟩ := resize_spec rep full positive
    have added := add_spec (o := o) rep' (by have := rep.slots_pos; omega) missing
    have shape : t.get hash o true =
        ⟨((t.resize hash (t.numOfSlots * 2)).add
            ((t.resize hash (t.numOfSlots * 2)).mainPos hash o) o).1,
          some ((t.resize hash (t.numOfSlots * 2)).add
            ((t.resize hash (t.numOfSlots * 2)).mainPos hash o) o).2,
          (t.resize hash (t.numOfSlots * 2)).mainPos hash o, prev⟩ := by
      simp only [get, walk]
      rw [if_pos full, emptyFree]
      rfl
    rw [shape]
    exact ⟨_, rfl, added.inside, added.stored, added.rep, added.failed.trans failed⟩
  · have added := add_spec (o := o) rep (by omega) missing
    have shape : t.get hash o true =
        ⟨(t.add (t.mainPos hash o) o).1, some (t.add (t.mainPos hash o) o).2,
          t.mainPos hash o, prev⟩ := by
      simp only [get, walk]
      rw [if_neg full]
    rw [shape]
    exact ⟨_, rfl, added.inside, added.stored, added.rep, added.failed⟩

private theorem get_inserting (rep : Rep hash t P c) (positive : ∀ x, P x → c x ≠ 0) (o : α) :
    ∃ ref, Inserted hash t P c o (t.get hash o true) ref := by
  by_cases here : P o
  · obtain ⟨ref, a, b, located, shape⟩ := search_stored rep true here
    have sameP : (fun x => P x ∨ x = o) = P := by
      funext x
      exact propext ⟨fun either => either.elim id (fun same => same ▸ here), .inl⟩
    refine ⟨ref, ?_⟩
    rw [shape]
    refine ⟨rfl, located.inside, located.stored, ?_, rfl⟩
    rw [sameP]
    exact rep
  · exact get_absent rep positive here

/-- `AddRef` pins the object once more. -/
theorem addRef_spec (rep : Rep hash t P c) (positive : ∀ x, P x → c x ≠ 0) (o : α) :
    Rep hash (t.addRef hash o) (fun x => P x ∨ x = o) (Function.update c o (c o + 1)) ∧
      (t.addRef hash o).failed = t.failed := by
  obtain ⟨ref, inserted⟩ := get_inserting rep positive o
  have refs := inserted.rep.count ref inserted.inside o inserted.stored
  have shape : t.addRef hash o = (t.get hash o true).table.setRefs ref (c o + 1) := by
    simp only [addRef, inserted.answer]
    rw [refs]
  rw [shape]
  exact ⟨setRefs_rep inserted.rep inserted.inside inserted.stored _, inserted.failed⟩

/-- `GetRefCount` answers the count, and leaves the object stored whether or not it was. -/
theorem getRefCount_spec (rep : Rep hash t P c) (positive : ∀ x, P x → c x ≠ 0) (o : α) :
    (t.getRefCount hash o).2 = c o ∧
      Rep hash (t.getRefCount hash o).1 (fun x => P x ∨ x = o) c ∧
      (t.getRefCount hash o).1.failed = t.failed := by
  obtain ⟨ref, inserted⟩ := get_inserting rep positive o
  have refs := inserted.rep.count ref inserted.inside o inserted.stored
  have shape : t.getRefCount hash o = ((t.get hash o true).table, c o) := by
    simp only [getRefCount, inserted.answer]
    rw [refs]
  rw [shape]
  exact ⟨rfl, inserted.rep, inserted.failed⟩

section Unlink

variable (mainpos ref : Nat) (prev : Option Nat)

omit [DecidableEq α] in
@[simp] theorem unlink_numOfSlots : (t.unlink mainpos ref prev).numOfSlots = t.numOfSlots := by
  cases prev <;> rfl

omit [DecidableEq α] in
@[simp] theorem unlink_freeList : (t.unlink mainpos ref prev).freeList = some ref := by
  cases prev <;> rfl

omit [DecidableEq α] in
@[simp] theorem unlink_slotUsed : (t.unlink mainpos ref prev).slotUsed = t.slotUsed - 1 := by
  cases prev <;> rfl

omit [DecidableEq α] in
@[simp] theorem unlink_failed : (t.unlink mainpos ref prev).failed = t.failed := by
  cases prev <;> rfl

omit [DecidableEq α] in
@[simp] theorem unlink_mainPos (x : α) :
    (t.unlink mainpos ref prev).mainPos hash x = t.mainPos hash x := by
  cases prev <;> rfl

omit [DecidableEq α] in
private theorem unlink_buckets_of_ne {d : Nat} (away : d ≠ mainpos) :
    (t.unlink mainpos ref prev).buckets d = t.buckets d := by
  cases prev with
  | none => exact Function.update_of_ne away _ _
  | some p => rfl

omit [DecidableEq α] in
private theorem unlink_self :
    (t.unlink mainpos ref prev).nodes ref = { obj := none, refs := 0, next := t.freeList } := by
  cases prev <;> simp [unlink]

omit [DecidableEq α] in
private theorem unlink_other {i : Nat} (away : i ≠ ref) :
    ((t.unlink mainpos ref prev).nodes i).obj = (t.nodes i).obj ∧
      ((t.unlink mainpos ref prev).nodes i).refs = (t.nodes i).refs := by
  cases prev with
  | none => simp [unlink, Function.update_of_ne away]
  | some p =>
      by_cases same : i = p
      · subst same
        simp [unlink, Function.update_of_ne away]
      · simp [unlink, Function.update_of_ne away, Function.update_of_ne same]

omit [DecidableEq α] in
private theorem unlink_obj_iff (i : Nat) (x : α) :
    ((t.unlink mainpos ref prev).nodes i).obj = some x ↔
      i ≠ ref ∧ (t.nodes i).obj = some x := by
  by_cases same : i = ref
  · subst same
    simp [unlink_self]
  · simp [(unlink_other mainpos ref prev same).1, same]

omit [DecidableEq α] in
private theorem unlink_nexts : (t.unlink mainpos ref prev).nexts =
    Function.update (prev.elim t.nexts fun p => Function.update t.nexts p (t.nexts ref))
      ref t.freeList := by
  funext i
  by_cases away : i = ref
  · subst away
    cases prev <;> simp [nexts, unlink]
  · cases prev with
    | none => simp [nexts, unlink, Function.update_of_ne away]
    | some p =>
        by_cases same : i = p
        · subst same
          simp [nexts, unlink, Function.update_of_ne away]
        · simp [nexts, unlink, Function.update_of_ne away, Function.update_of_ne same]

end Unlink

section Removal

variable {ref : Nat} {a b : List Nat}

omit [DecidableEq α] in
private theorem Located.off (located : Located hash t o ref a b) : ref ∉ a ++ b :=
  (List.nodup_cons.mp (List.nodup_middle.mp (linked_nodup located.linked))).1

omit [DecidableEq α] in
private theorem Located.bucket (located : Located hash t o ref a b) :
    Linked (t.unlink (t.mainPos hash o) ref a.getLast?).nexts
      ((t.unlink (t.mainPos hash o) ref a.getLast?).buckets (t.mainPos hash o)) (a ++ b) := by
  have framed : ∀ {next : Nat → Option Nat} {head : Option Nat},
      Linked next head (a ++ b) → Linked (Function.update next ref t.freeList) head (a ++ b) := by
    intro next head chain
    refine linked_congr chain fun i member => Function.update_of_ne ?_ _ _
    rintro rfl
    exact located.off member
  have linked := located.linked
  rw [unlink_nexts]
  apply framed
  rcases List.eq_nil_or_concat a with rfl | ⟨front, p, rfl⟩
  · have tail : Linked t.nexts (t.nodes ref).next b := linked.2
    simpa [unlink] using tail
  · rw [List.concat_eq_append] at linked ⊢
    rw [List.append_assoc] at linked ⊢
    have chain := linked_unlink (a := front) (j := p) (i := ref) (b := b) linked
    simpa [unlink] using chain

omit [DecidableEq α] in
/-- A chain that shares no node with the bucket is untouched by the removal: the redirected
predecessor lives on the bucket. -/
private theorem Located.elsewhere (located : Located hash t o ref a b) {head : Option Nat}
    {l : List Nat} (chain : Linked t.nexts head l)
    (disjoint : ∀ i ∈ l, ∀ x, (t.nodes i).obj = some x → t.mainPos hash x ≠ t.mainPos hash o) :
    Linked (t.unlink (t.mainPos hash o) ref a.getLast?).nexts head l := by
  have apart : ∀ i ∈ l, ∀ j ∈ a ++ ref :: b, i ≠ j := by
    rintro i member j onBucket rfl
    obtain ⟨-, x, stored, pos⟩ := (located.members i).mp onBucket
    exact disjoint i member x stored pos
  rw [unlink_nexts]
  apply linked_congr chain
  intro i member
  rw [Function.update_of_ne (apart i member ref (by simp))]
  cases last : a.getLast? with
  | none => rfl
  | some p =>
      have onBucket : p ∈ a ++ ref :: b := List.mem_append_left _ (List.mem_of_getLast? last)
      exact Function.update_of_ne (apart i member p onBucket) _ _

omit [DecidableEq α] in
private theorem Located.buckets (located : Located hash t o ref a b) {d : Nat} {l : List Nat}
    (chain : Linked t.nexts (t.buckets d) l)
    (listed : ∀ i, i ∈ l ↔ i < t.numOfSlots ∧
      ∃ x, (t.nodes i).obj = some x ∧ t.mainPos hash x = d) :
    ∃ l', Linked (t.unlink (t.mainPos hash o) ref a.getLast?).nexts
        ((t.unlink (t.mainPos hash o) ref a.getLast?).buckets d) l' ∧
      ∀ i, i ∈ l' ↔ i < t.numOfSlots ∧
        ∃ x, (i ≠ ref ∧ (t.nodes i).obj = some x) ∧ t.mainPos hash x = d := by
  by_cases own : d = t.mainPos hash o
  · subst own
    refine ⟨a ++ b, located.bucket, ?_⟩
    intro i
    have shorter : i ∈ a ++ b ↔ i ≠ ref ∧ i ∈ a ++ ref :: b := by
      by_cases same : i = ref
      · subst same
        simp [located.off]
      · simp [same]
    rw [shorter, located.members i]
    constructor
    · rintro ⟨away, below, x, object, pos⟩
      exact ⟨below, x, ⟨away, object⟩, pos⟩
    · rintro ⟨below, x, ⟨away, object⟩, pos⟩
      exact ⟨away, below, x, object, pos⟩
  · have disjoint : ∀ i ∈ l, ∀ x, (t.nodes i).obj = some x →
        t.mainPos hash x ≠ t.mainPos hash o := by
      intro i member x object pos
      obtain ⟨-, y, object', pos'⟩ := (listed i).mp member
      obtain rfl : x = y := Option.some.inj (object.symm.trans object')
      exact own (pos'.symm.trans pos)
    refine ⟨l, ?_, ?_⟩
    · rw [unlink_buckets_of_ne _ _ _ own]
      exact located.elsewhere chain disjoint
    · intro i
      rw [listed i]
      constructor
      · rintro ⟨below, x, object, pos⟩
        refine ⟨below, x, ⟨?_, object⟩, pos⟩
        rintro rfl
        exact disjoint i ((listed i).mpr ⟨below, x, object, pos⟩) o located.stored rfl
      · rintro ⟨below, x, ⟨-, object⟩, pos⟩
        exact ⟨below, x, object, pos⟩

omit [DecidableEq α] in
private theorem Located.free (located : Located hash t o ref a b) {l : List Nat}
    (chain : Linked t.nexts t.freeList l)
    (listed : ∀ i, i ∈ l ↔ i < t.numOfSlots ∧ (t.nodes i).obj = none) :
    Linked (t.unlink (t.mainPos hash o) ref a.getLast?).nexts (some ref) (ref :: l) ∧
      (ref :: l).length ≤ t.numOfSlots ∧
      ∀ i, i ∈ ref :: l ↔ i < t.numOfSlots ∧
        ((t.unlink (t.mainPos hash o) ref a.getLast?).nodes i).obj = none := by
  have unstored : ∀ i ∈ l, ∀ x, (t.nodes i).obj ≠ some x := by
    intro i member x object
    rw [((listed i).mp member).2] at object
    cases object
  have tail : (t.unlink (t.mainPos hash o) ref a.getLast?).nexts ref = t.freeList := by
    rw [unlink_nexts, Function.update_self]
  have linked : Linked (t.unlink (t.mainPos hash o) ref a.getLast?).nexts (some ref)
      (ref :: l) := by
    refine ⟨rfl, ?_⟩
    rw [tail]
    exact located.elsewhere chain fun i member x object =>
      absurd object (unstored i member x)
  refine ⟨linked, linked_length_le linked ?_, ?_⟩
  · intro i member
    rcases List.mem_cons.mp member with rfl | later
    · exact located.inside
    · exact ((listed i).mp later).1
  · intro i
    rw [List.mem_cons, listed i]
    by_cases same : i = ref
    · subst same
      simp [unlink_self, located.inside]
    · simp [same, (unlink_other (t.mainPos hash o) ref a.getLast? same).1]

private theorem unlink_rep (rep : Rep hash t P c) (located : Located hash t o ref a b) :
    Rep hash (t.unlink (t.mainPos hash o) ref a.getLast?) (fun x => P x ∧ x ≠ o)
      (Function.update c o 0) := by
  have atRef : ∀ i < t.numOfSlots, (t.nodes i).obj = some o → i = ref :=
    fun i below object => rep.unique i below ref located.inside o object located.stored
  refine ⟨?_, ?_, ?_, ?_, ?_, ?_, ?_, ?_⟩
  · rw [unlink_numOfSlots]
    exact rep.slots_pos
  · intro d below
    rw [unlink_numOfSlots] at below ⊢
    simp only [unlink_obj_iff, unlink_mainPos]
    obtain ⟨l, chain, listed⟩ := rep.bucket d below
    exact located.buckets chain listed
  · obtain ⟨l, chain, listed, total⟩ := rep.free
    obtain ⟨linked, bound, members⟩ := located.free chain listed
    rw [List.length_cons] at bound
    refine ⟨ref :: l, by rw [unlink_freeList]; exact linked, ?_, ?_⟩
    · rw [unlink_numOfSlots]
      exact members
    · rw [unlink_slotUsed, unlink_numOfSlots, List.length_cons]
      omega
  · intro i below unused
    rw [unlink_numOfSlots] at below
    by_cases same : i = ref
    · subst same
      rw [unlink_self]
    · obtain ⟨object, refs⟩ := unlink_other (t := t) (t.mainPos hash o) ref a.getLast? same
      rw [object] at unused
      rw [refs]
      exact rep.free_refs i below unused
  · intro i below j below' x first second
    rw [unlink_numOfSlots] at below below'
    rw [unlink_obj_iff] at first second
    exact rep.unique i below j below' x first.2 second.2
  · intro x
    simp only [unlink_obj_iff, unlink_numOfSlots]
    rw [rep.present]
    constructor
    · rintro ⟨⟨i, below, object⟩, away⟩
      refine ⟨i, below, ?_, object⟩
      rintro rfl
      exact away (Option.some.inj (object.symm.trans located.stored))
    · rintro ⟨i, below, away, object⟩
      refine ⟨⟨i, below, object⟩, ?_⟩
      rintro rfl
      exact away (atRef i below object)
  · intro i below x object
    rw [unlink_numOfSlots] at below
    rw [unlink_obj_iff] at object
    obtain ⟨away, object⟩ := object
    have apart : x ≠ o := by
      rintro rfl
      exact away (atRef i below object)
    rw [(unlink_other _ _ _ away).2, Function.update_of_ne apart]
    exact rep.count i below x object
  · intro x gone
    by_cases same : x = o
    · subst same
      exact Function.update_self _ _ _
    · rw [Function.update_of_ne same]
      exact rep.absent x fun here => gone ⟨here, same⟩

end Removal

/-- `Release` drops one pin, answers whether it was the last, and forgets the object then. -/
theorem release_spec (rep : Rep hash t P c) (here : P o) (positive : c o ≠ 0) :
    (t.release hash o).2 = decide (c o = 1) ∧
      Rep hash (t.release hash o).1 (fun x => P x ∧ (x ≠ o ∨ c o ≠ 1))
        (Function.update c o (c o - 1)) ∧
      (t.release hash o).1.failed = t.failed := by
  obtain ⟨ref, a, b, located, shape⟩ := search_stored rep false here
  have refs := rep.count ref located.inside o located.stored
  obtain ⟨k, count⟩ : ∃ k, c o = k + 1 := ⟨c o - 1, by omega⟩
  have pred : predRefs (t.nodes ref).refs = k := by rw [refs, count]; rfl
  by_cases last : k = 0
  · have result : t.release hash o = (t.unlink (t.mainPos hash o) ref a.getLast?, true) := by
      simp [release, shape, pred, last]
    have sameP : (fun x => P x ∧ (x ≠ o ∨ c o ≠ 1)) = fun x => P x ∧ x ≠ o := by
      funext x
      simp [count, last]
    rw [result, sameP, count, last]
    exact ⟨by simp, unlink_rep rep located, unlink_failed _ _ _⟩
  · have result : t.release hash o = (t.setRefs ref k, false) := by
      simp [release, shape, pred, last]
    have sameP : (fun x => P x ∧ (x ≠ o ∨ c o ≠ 1)) = P := by
      funext x
      simp [count, last]
    rw [result, sameP, count]
    exact ⟨by simp [last], setRefs_rep rep located.inside located.stored k, rfl⟩

end SquirrelGObject.Engine.RefTable
