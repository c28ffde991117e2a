/- SquirrelGObject/Engine/TableSpec
   digest: The node array of a table stays sound through insertion, removal and rehash, and keeps its slots. -/

import SquirrelGObject.Engine.Table
import SquirrelGObject.Lib.Links
import Mathlib.Data.Finset.Card
import Mathlib.Algebra.Ring.Nat
import Mathlib.Tactic.Set

set_option autoImplicit false
set_option relaxedAutoImplicit false

namespace SquirrelGObject.Engine.SQTable

open Lib.Chain Lib.Links

variable {hash : SQObject → Nat} {t : SQTable} {key val : SQObject}

/-- The chains of the node array. A key is reached from its main position; links lead to nodes
above the first free one, each from one place; a key that sits away from its main position sits
where no other key has its main position. -/
structure Sound (hash : SQObject → Nat) (t : SQTable) : Prop where
  size : ∃ e, t.numOfNodes = 2 ^ (e + 2)
  outside : ∀ i, t.numOfNodes ≤ i → t.keyAt i = .null
  firstFree_lt : t.firstFree < t.numOfNodes
  target : ∀ i j, t.nexts i = some j →
    j < t.numOfNodes ∧ t.firstFree ≤ j ∧ (j = t.firstFree → t.keyAt j ≠ .null)
  single : Single t.nexts
  ranked : Ranked t.nexts
  home : ∀ i, t.keyAt i ≠ .null → Reaches t.nexts (t.mainPos hash (t.keyAt i)) i
  settled : ∀ i j, t.keyAt i ≠ .null → t.keyAt j ≠ .null →
    t.mainPos hash (t.keyAt j) = i → t.mainPos hash (t.keyAt i) = i
  unique : ∀ i j, t.keyAt i ≠ .null → t.keyAt i = t.keyAt j → i = j

def live (t : SQTable) : Finset Nat := (Finset.range t.numOfNodes).filter (t.keyAt · ≠ .null)

/-- A table between two calls: sound, with a free node left and the number of used nodes right. -/
structure Good (hash : SQObject → Nat) (t : SQTable) : Prop where
  sound : Sound hash t
  free : t.keyAt t.firstFree = .null ∧ t.nexts t.firstFree = none
  used : t.usedNodes = t.live.card

/-- The table has a slot with this key and this value. -/
def Maps (t : SQTable) (k v : SQObject) : Prop :=
  k ≠ .null ∧ ∃ i, t.keyAt i = k ∧ t.valAt i = v

section Nodes

variable (i : Nat) (node : HashNode)

@[simp] theorem setNode_nexts : (t.setNode i node).nexts = Function.update t.nexts i node.next := by
  funext j
  by_cases same : j = i
  · subst same
    simp [nexts, setNode]
  · simp [nexts, setNode, Function.update_of_ne same]

@[simp] theorem setNode_keyAt : (t.setNode i node).keyAt = Function.update t.keyAt i node.key := by
  funext j
  by_cases same : j = i
  · subst same
    simp [keyAt, setNode]
  · simp [keyAt, setNode, Function.update_of_ne same]

@[simp] theorem setNode_valAt : (t.setNode i node).valAt = Function.update t.valAt i node.val := by
  funext j
  by_cases same : j = i
  · subst same
    simp [valAt, setNode]
  · simp [valAt, setNode, Function.update_of_ne same]

@[simp] theorem setNode_numOfNodes : (t.setNode i node).numOfNodes = t.numOfNodes := rfl

@[simp] theorem setNode_firstFree : (t.setNode i node).firstFree = t.firstFree := rfl

@[simp] theorem setVal_nexts : (t.setVal i val).nexts = t.nexts := by
  simp [setVal, nexts]

@[simp] theorem setVal_keyAt : (t.setVal i val).keyAt = t.keyAt := by
  simp [setVal, keyAt]

@[simp] theorem setVal_valAt : (t.setVal i val).valAt = Function.update t.valAt i val := by
  simp [setVal]

@[simp] theorem setKey_nexts : (t.setKey i key).nexts = t.nexts := by
  simp [setKey, nexts]

@[simp] theorem setKey_keyAt : (t.setKey i key).keyAt = Function.update t.keyAt i key := by
  simp [setKey]

@[simp] theorem setKey_valAt : (t.setKey i key).valAt = t.valAt := by
  simp [setKey, valAt]

@[simp] theorem setNext_nexts (link : Option Nat) :
    (t.setNext i link).nexts = Function.update t.nexts i link := by
  simp [setNext]

@[simp] theorem setNext_keyAt (link : Option Nat) : (t.setNext i link).keyAt = t.keyAt := by
  simp [setNext, keyAt]

@[simp] theorem setNext_valAt (link : Option Nat) : (t.setNext i link).valAt = t.valAt := by
  simp [setNext, valAt]

@[simp] theorem mainPos_setNode : (t.setNode i node).mainPos hash key = t.mainPos hash key := rfl

@[simp] theorem mem_live : i ∈ t.live ↔ i < t.numOfNodes ∧ t.keyAt i ≠ .null := by
  simp [live]

end Nodes

namespace Sound

variable (sound : Sound hash t)

include sound

theorem four_le : 4 ≤ t.numOfNodes := by
  obtain ⟨e, size⟩ := sound.size
  rw [size, Nat.pow_add]
  have := Nat.one_le_two_pow (n := e)
  omega

theorem mainPos_lt (key : SQObject) : t.mainPos hash key < t.numOfNodes := by
  have := sound.four_le
  have : t.mainPos hash key ≤ t.numOfNodes - 1 := Nat.and_le_right
  omega

theorem lt_of_live {i : Nat} (used : t.keyAt i ≠ .null) : i < t.numOfNodes := by
  by_contra outside
  exact used (sound.outside i (by omega))

private theorem getNode_eq_some_iff (valid : key ≠ .null) {i : Nat} :
    t.getNode key (t.mainPos hash key) = some i ↔ t.keyAt i = key := by
  have inside : ∀ i j, t.nexts i = some j → j < t.numOfNodes := by
    intro i j link
    exact (sound.target i j link).1
  constructor
  · intro found
    simpa using (search_eq_some sound.ranked inside (sound.mainPos_lt key) found).2
  · rintro rfl
    cases found : t.getNode (t.keyAt i) (t.mainPos hash (t.keyAt i)) with
    | none =>
        have missed := (search_eq_none_iff sound.ranked inside (sound.mainPos_lt _)).mp found i
          (sound.home i valid)
        simp at missed
    | some j =>
        have same := (search_eq_some sound.ranked inside (sound.mainPos_lt _) found).2
        rw [sound.unique i j valid (by simpa [eq_comm] using same)]

private theorem getNode_eq_none_iff (valid : key ≠ .null) :
    t.getNode key (t.mainPos hash key) = none ↔ ∀ i, t.keyAt i ≠ key := by
  rw [Option.eq_none_iff_forall_ne_some]
  exact forall_congr' fun i => not_congr (sound.getNode_eq_some_iff valid)

theorem congr {t' : SQTable} (keys : t'.keyAt = t.keyAt) (links : t'.nexts = t.nexts)
    (size : t'.numOfNodes = t.numOfNodes) (first : t'.firstFree = t.firstFree) :
    Sound hash t' := by
  have main : ∀ k, t'.mainPos hash k = t.mainPos hash k := by
    intro k
    rw [mainPos, mainPos, size]
  constructor
  · rw [size]
    exact sound.size
  · rw [size, keys]
    exact sound.outside
  · rw [size, first]
    exact sound.firstFree_lt
  · rw [size, first, keys, links]
    exact sound.target
  · rw [links]
    exact sound.single
  · rw [links]
    exact sound.ranked
  · simpa only [main, keys, links] using sound.home
  · simpa only [main, keys] using sound.settled
  · rw [keys]
    exact sound.unique

theorem lower {f : Nat} (below : f ≤ t.firstFree) : Sound hash { t with firstFree := f } := by
  refine { sound with firstFree_lt := ?_, target := ?_ }
  · exact lt_of_le_of_lt below sound.firstFree_lt
  · intro i j link
    obtain ⟨inside, above, filled⟩ := sound.target i j link
    refine ⟨inside, below.trans above, ?_⟩
    rintro rfl
    exact filled (le_antisymm below above)

end Sound

namespace Good

variable (good : Good hash t)

include good

private theorem firstFree_fresh (i : Nat) : t.nexts i ≠ some t.firstFree := by
  intro link
  exact (good.sound.target i _ link).2.2 rfl good.free.1

private theorem target_gt {i j : Nat} (link : t.nexts i = some j) : t.firstFree < j := by
  obtain ⟨-, above, filled⟩ := good.sound.target i j link
  refine lt_of_le_of_ne above ?_
  rintro rfl
  exact filled rfl good.free.1

private theorem mainPos_ne_firstFree {i : Nat} (used : t.keyAt i ≠ .null) :
    t.mainPos hash (t.keyAt i) ≠ t.firstFree := by
  intro main
  have path := good.sound.home i used
  rw [main] at path
  have same := path.eq_of_none good.free.2
  subst same
  exact used good.free.1

end Good

section Placing

/-- A key that was not in the table has been written into the node `mp`: the table is sound, one
node more is in use, and the other slots are where the chains find them. -/
structure Placed (hash : SQObject → Nat) (t : SQTable) (key : SQObject) (t' : SQTable) (mp : Nat) :
    Prop where
  sound : Sound hash t'
  key_eq : t'.keyAt mp = key
  first : t'.firstFree = t.firstFree
  size : t'.numOfNodes = t.numOfNodes
  used : t'.usedNodes = t.usedNodes
  delegate : t'.delegate = t.delegate
  failed : t'.failed = t.failed
  others : ∀ k, k ≠ key → ∀ v, t'.Maps k v ↔ t.Maps k v
  taken : ∃ x < t.numOfNodes, t.keyAt x = .null ∧
    ∀ i, t'.keyAt i = .null ↔ t.keyAt i = .null ∧ i ≠ x
  unlinked : ∀ i, t'.keyAt i = .null → t.nexts i = none → t'.nexts i = none

/-- The used nodes of `t` are found in `t'` under the renaming `place`, and `t'` has one more,
at `mp`, with the new key. -/
private structure Relocated (t : SQTable) (key : SQObject) (t' : SQTable) (mp : Nat)
    (place : Nat → Nat) : Prop where
  key_eq : t'.keyAt mp = key
  forth : ∀ i, t.keyAt i ≠ .null → t'.keyAt (place i) = t.keyAt i ∧ t'.valAt (place i) = t.valAt i
  back : ∀ i, t'.keyAt i ≠ .null → i = mp ∨ ∃ j, t.keyAt j ≠ .null ∧ place j = i

variable {t' : SQTable} {mp : Nat} {place : Nat → Nat}

private theorem Relocated.sound (relocated : Relocated t key t' mp place) (sound : Sound hash t)
    (absent : ∀ i, t.keyAt i ≠ key) (size : t'.numOfNodes = t.numOfNodes)
    (first : t'.firstFree = t.firstFree) (outside : ∀ i, t.numOfNodes ≤ i → t'.keyAt i = .null)
    (target : ∀ i j, t'.nexts i = some j →
      j < t.numOfNodes ∧ t.firstFree ≤ j ∧ (j = t.firstFree → t'.keyAt j ≠ .null))
    (single : Single t'.nexts) (ranked : Ranked t'.nexts)
    (homeNew : Reaches t'.nexts (t.mainPos hash key) mp)
    (homeOld : ∀ i, t.keyAt i ≠ .null →
      Reaches t'.nexts (t.mainPos hash (t.keyAt i)) (place i))
    (settledNew : t.mainPos hash key = mp ∨ ∀ i, t.keyAt i ≠ .null →
      t.mainPos hash (t.keyAt i) ≠ mp)
    (settledOld : ∀ i, t.keyAt i ≠ .null → (t.mainPos hash key = place i ∨
      ∃ j, t.keyAt j ≠ .null ∧ t.mainPos hash (t.keyAt j) = place i) →
        t.mainPos hash (t.keyAt i) = place i) :
    Sound hash t' := by
  have main : ∀ k, t'.mainPos hash k = t.mainPos hash k := by
    intro k
    rw [mainPos, mainPos, size]
  constructor
  · rw [size]
    exact sound.size
  · rwa [size]
  · rw [size, first]
    exact sound.firstFree_lt
  · rwa [size, first]
  · exact single
  · exact ranked
  · intro i used
    rcases relocated.back i used with rfl | ⟨j, before, rfl⟩
    · rw [relocated.key_eq, main]
      exact homeNew
    · rw [(relocated.forth j before).1, main]
      exact homeOld j before
  · intro i j used used' same
    rw [main] at same ⊢
    rcases relocated.back i used with rfl | ⟨i, before, rfl⟩
    · rw [relocated.key_eq]
      rcases relocated.back j used' with rfl | ⟨j, before', rfl⟩
      · rw [relocated.key_eq] at same
        exact same
      · rw [(relocated.forth j before').1] at same
        exact settledNew.resolve_right fun none => none j before' same
    · rw [(relocated.forth i before).1]
      apply settledOld i before
      rcases relocated.back j used' with rfl | ⟨j, before', rfl⟩
      · rw [relocated.key_eq] at same
        exact Or.inl same
      · rw [(relocated.forth j before').1] at same
        exact Or.inr ⟨j, before', same⟩
  · intro i j used same
    have used' : t'.keyAt j ≠ .null := same ▸ used
    rcases relocated.back i used with rfl | ⟨i, before, rfl⟩ <;>
      rcases relocated.back j used' with rfl | ⟨j, before', rfl⟩
    · rfl
    · rw [relocated.key_eq, (relocated.forth j before').1] at same
      exact absurd same.symm (absent j)
    · rw [relocated.key_eq, (relocated.forth i before).1] at same
      exact absurd same (absent i)
    · rw [(relocated.forth i before).1, (relocated.forth j before').1] at same
      rw [sound.unique i j before same]

private theorem Relocated.others (relocated : Relocated t key t' mp place) (k : SQObject)
    (other : k ≠ key) (v : SQObject) : t'.Maps k v ↔ t.Maps k v := by
  refine and_congr_right ?_
  intro valid
  constructor
  · rintro ⟨i, rfl, rfl⟩
    rcases relocated.back i valid with rfl | ⟨j, before, rfl⟩
    · exact absurd relocated.key_eq other
    · obtain ⟨sameKey, sameVal⟩ := relocated.forth j before
      exact ⟨j, sameKey.symm, sameVal.symm⟩
  · rintro ⟨i, rfl, rfl⟩
    exact ⟨place i, relocated.forth i valid⟩

private theorem update_eq_null_iff {keys : Nat → SQObject} {i x : Nat} (valid : key ≠ .null) :
    Function.update keys x key i = .null ↔ keys i = .null ∧ i ≠ x := by
  by_cases same : i = x
  · subst same
    simp [valid]
  · simp [same]

variable (good : Good hash t) (valid : key ≠ .null) (absent : ∀ i, t.keyAt i ≠ key)

include good valid absent

private theorem placed_free (vacant : t.keyAt (t.mainPos hash key) = .null) :
    Placed hash t key (t.setKey (t.mainPos hash key) key) (t.mainPos hash key) := by
  set mp := t.mainPos hash key with position
  have inside : mp < t.numOfNodes := good.sound.mainPos_lt key
  have apart : ∀ i, t.keyAt i ≠ .null → i ≠ mp := by
    rintro i used rfl
    exact used vacant
  have relocated : Relocated t key (t.setKey mp key) mp id := by
    constructor
    · simp
    · intro i used
      simp [apart i used]
    · intro i used
      by_cases same : i = mp
      · exact Or.inl same
      · rw [setKey_keyAt, Function.update_of_ne same] at used
        exact Or.inr ⟨i, used, rfl⟩
  refine ⟨?_, relocated.key_eq, rfl, rfl, rfl, rfl, rfl, relocated.others, ⟨mp, inside, vacant, ?_⟩,
    ?_⟩
  · apply relocated.sound good.sound absent rfl rfl
    · intro i beyond
      rw [setKey_keyAt, Function.update_of_ne (by omega)]
      exact good.sound.outside i beyond
    · intro i j link
      rw [setKey_nexts] at link
      refine ⟨(good.sound.target i j link).1, (good.sound.target i j link).2.1, ?_⟩
      rintro rfl
      exact absurd link (good.firstFree_fresh i)
    · rw [setKey_nexts]
      exact good.sound.single
    · rw [setKey_nexts]
      exact good.sound.ranked
    · exact Reaches.refl
    · intro i used
      rw [setKey_nexts]
      exact good.sound.home i used
    · exact Or.inl rfl
    · rintro i used (same | ⟨j, used', same⟩)
      · exact absurd same.symm (apart i used)
      · exact good.sound.settled i j used used' same
  · intro i
    rw [setKey_keyAt]
    exact update_eq_null_iff valid
  · intro i _ unlinked
    rw [setKey_nexts]
    exact unlinked

/-- The main position is taken by a key that belongs elsewhere: that key moves to the free node
and the new one takes the main position. -/
private theorem placed_move {othern : Nat} (occupied : t.keyAt (t.mainPos hash key) ≠ .null)
    (stranger : t.mainPos hash (t.keyAt (t.mainPos hash key)) ≠ t.mainPos hash key)
    (link : t.nexts othern = some (t.mainPos hash key)) :
    Placed hash t key
      ((t.moveColliding othern (t.mainPos hash key) t.firstFree).setKey (t.mainPos hash key) key)
      (t.mainPos hash key) := by
  set mp := t.mainPos hash key with position
  set n := t.firstFree with freeNode
  have inside : mp < t.numOfNodes := good.sound.mainPos_lt key
  have vacant : t.keyAt n = .null := good.free.1
  have apart : n ≠ mp := by
    intro same
    rw [same] at vacant
    exact occupied vacant
  have links : ((t.moveColliding othern mp n).setKey mp key).nexts =
      moveNode t.nexts othern mp n := by
    simp [moveColliding, moveNode, HashNode.fresh, (good.sound.ranked.ne link).symm]
  have keys : ((t.moveColliding othern mp n).setKey mp key).keyAt =
      Function.update (Function.update t.keyAt n (t.keyAt mp)) mp key := by
    simp [moveColliding]
  have vals : ((t.moveColliding othern mp n).setKey mp key).valAt =
      Function.update (Function.update t.valAt n (t.valAt mp)) mp .null := by
    simp [moveColliding, HashNode.fresh]
  have relocated : Relocated t key ((t.moveColliding othern mp n).setKey mp key) mp
      (moved mp n) := by
    constructor
    · simp [keys]
    · intro i used
      by_cases same : i = mp
      · subst same
        simp [keys, vals, moved, apart]
      · have other : i ≠ n := by
          rintro rfl
          exact used vacant
        simp [keys, vals, moved, same, other]
    · intro i used
      by_cases same : i = mp
      · exact Or.inl same
      · refine Or.inr ?_
        by_cases new : i = n
        · exact ⟨mp, occupied, by simp [moved, new]⟩
        · rw [keys, Function.update_of_ne same, Function.update_of_ne new] at used
          exact ⟨i, used, by simp [moved, same]⟩
  have position_ne : ∀ i, t.keyAt i ≠ .null → t.mainPos hash (t.keyAt i) ≠ mp := by
    intro i used main
    exact stranger (good.sound.settled mp i occupied used main)
  refine ⟨?_, relocated.key_eq, rfl, rfl, rfl, rfl, rfl, relocated.others,
    ⟨n, good.sound.firstFree_lt, vacant, ?_⟩, ?_⟩
  · apply relocated.sound good.sound absent rfl rfl
    · intro i beyond
      rw [keys, Function.update_of_ne (by omega), Function.update_of_ne]
      · exact good.sound.outside i beyond
      · have := good.sound.firstFree_lt
        omega
    · intro i j new
      rw [links] at new
      rcases moveNode_eq_some new with ⟨-, rfl⟩ | ⟨-, old⟩ | ⟨-, -, -, old⟩
      · refine ⟨good.sound.firstFree_lt, le_refl _, ?_⟩
        intro _
        rw [keys, Function.update_of_ne apart, Function.update_self]
        exact occupied
      all_goals
        refine ⟨(good.sound.target _ j old).1, (good.sound.target _ j old).2.1, ?_⟩
        rintro rfl
        exact absurd old (good.firstFree_fresh _)
    · rw [links]
      exact single_moveNode link good.firstFree_fresh good.sound.single
    · rw [links]
      exact ranked_moveNode link good.free.2 good.firstFree_fresh good.sound.ranked
    · exact Reaches.refl
    · intro i used
      rw [links]
      have walk := reaches_moveNode link good.free.2 good.sound.ranked good.sound.single
        (good.sound.home i used)
      rwa [show moved mp n (t.mainPos hash (t.keyAt i)) = t.mainPos hash (t.keyAt i) by
        simp [moved, position_ne i used]] at walk
    · exact Or.inl rfl
    · rintro i used (same | ⟨j, used', same⟩)
      · exact absurd same (by
          rw [moved]
          split_ifs with here
          · exact apart.symm
          · exact fun equal => here equal.symm)
      · rw [moved] at same ⊢
        split_ifs at same ⊢ with here
        · exact absurd same (good.mainPos_ne_firstFree used')
        · exact good.sound.settled i j used used' same
  · intro i
    rw [keys, update_eq_null_iff valid, update_eq_null_iff occupied]
    constructor
    · rintro ⟨both, -⟩
      exact both
    · rintro ⟨dead, other⟩
      refine ⟨⟨dead, other⟩, ?_⟩
      rintro rfl
      exact occupied dead
  · intro i dead unlinked
    rw [keys, update_eq_null_iff valid, update_eq_null_iff occupied] at dead
    rw [links]
    by_contra linked
    obtain ⟨j, new⟩ := Option.ne_none_iff_exists'.mp linked
    rcases moveNode_eq_some new with ⟨rfl, -⟩ | ⟨rfl, -⟩ | ⟨-, -, -, old⟩
    · rw [unlinked] at link
      cases link
    · exact dead.1.2 rfl
    · rw [unlinked] at old
      cases old

/-- The main position is taken by a key that belongs there: the new key goes to the free node,
chained behind it. -/
private theorem placed_chain (occupied : t.keyAt (t.mainPos hash key) ≠ .null)
    (resident : t.mainPos hash (t.keyAt (t.mainPos hash key)) = t.mainPos hash key) :
    Placed hash t key ((t.chainFree (t.mainPos hash key) t.firstFree).setKey t.firstFree key)
      t.firstFree := by
  set mp := t.mainPos hash key with position
  set n := t.firstFree with freeNode
  have vacant : t.keyAt n = .null := good.free.1
  have apart : n ≠ mp := by
    intro same
    rw [same] at vacant
    exact occupied vacant
  have links : ((t.chainFree mp n).setKey n key).nexts = insertAfter t.nexts mp n := by
    simp [chainFree, insertAfter]
  have keys : ((t.chainFree mp n).setKey n key).keyAt = Function.update t.keyAt n key := by
    simp [chainFree]
  have vals : ((t.chainFree mp n).setKey n key).valAt = t.valAt := by
    simp [chainFree]
  have other : ∀ i, t.keyAt i ≠ .null → i ≠ n := by
    rintro i used rfl
    exact used vacant
  have relocated : Relocated t key ((t.chainFree mp n).setKey n key) n id := by
    constructor
    · simp [keys]
    · intro i used
      simp [keys, vals, other i used]
    · intro i used
      by_cases same : i = n
      · exact Or.inl same
      · rw [keys, Function.update_of_ne same] at used
        exact Or.inr ⟨i, used, rfl⟩
  refine ⟨?_, relocated.key_eq, rfl, rfl, rfl, rfl, rfl, relocated.others,
    ⟨n, good.sound.firstFree_lt, vacant, ?_⟩, ?_⟩
  · apply relocated.sound good.sound absent rfl rfl
    · intro i beyond
      rw [keys, Function.update_of_ne]
      · exact good.sound.outside i beyond
      · have := good.sound.firstFree_lt
        omega
    · intro i j new
      rw [links] at new
      rcases insertAfter_eq_some new with ⟨-, rfl⟩ | ⟨-, old⟩ | ⟨-, -, old⟩
      · refine ⟨good.sound.firstFree_lt, le_refl _, ?_⟩
        intro _
        rw [keys, Function.update_self]
        exact valid
      all_goals
        refine ⟨(good.sound.target _ j old).1, (good.sound.target _ j old).2.1, ?_⟩
        rintro rfl
        exact absurd old (good.firstFree_fresh _)
    · rw [links]
      exact single_insertAfter apart good.firstFree_fresh good.sound.single
    · rw [links]
      exact ranked_insertAfter apart good.firstFree_fresh good.sound.ranked
    · rw [links]
      refine Reaches.head (j := n) ?_ Reaches.refl
      rw [← position, insertAfter, Function.update_self]
    · intro i used
      rw [links]
      exact reaches_insertAfter apart good.free.2 (good.sound.home i used)
    · exact Or.inr fun i used => good.mainPos_ne_firstFree used
    · rintro i used (same | ⟨j, used', same⟩)
      · obtain rfl : mp = i := same
        exact resident
      · exact good.sound.settled i j used used' same
  · intro i
    rw [keys]
    exact update_eq_null_iff valid
  · intro i dead unlinked
    rw [keys, update_eq_null_iff valid] at dead
    rw [links]
    by_contra linked
    obtain ⟨j, new⟩ := Option.ne_none_iff_exists'.mp linked
    rcases insertAfter_eq_some new with ⟨rfl, -⟩ | ⟨rfl, -⟩ | ⟨-, -, old⟩
    · exact occupied dead.1
    · exact dead.2 rfl
    · rw [unlinked] at old
      cases old

private theorem makeRoom_placed :
    Placed hash t key ((t.makeRoom hash key).1.setKey (t.makeRoom hash key).2 key)
      (t.makeRoom hash key).2 := by
  by_cases vacant : t.keyAt (t.mainPos hash key) = .null
  · simpa [makeRoom, vacant] using placed_free good valid absent vacant
  by_cases resident : t.mainPos hash (t.keyAt (t.mainPos hash key)) = t.mainPos hash key
  · simpa [makeRoom, vacant, resident] using placed_chain good valid absent vacant resident
  -- A key away from its main position sits at the target of a link, so above the free node.
  have walk := good.sound.home _ vacant
  obtain ⟨before, reached, link⟩ := walk.exists_link resident
  have above : t.mainPos hash key > t.firstFree := good.target_gt link
  have inside : ∀ i j, t.nexts i = some j → j < t.numOfNodes := by
    intro i j link
    exact (good.sound.target i j link).1
  cases found : t.predecessor hash (t.mainPos hash key) with
  | none =>
      have missed := (search_eq_none_iff good.sound.ranked inside (good.sound.mainPos_lt _)).mp
        found before reached
      simp [link] at missed
  | some othern =>
      have hit := (search_eq_some good.sound.ranked inside (good.sound.mainPos_lt _) found).2
      simpa [makeRoom, vacant, resident, above, found] using
        placed_move good valid absent vacant resident (by simpa using hit)

end Placing

section FirstFree

private theorem correctFirstFree_eq_some {i f : Nat} (found : t.correctFirstFree i = some f) :
    f ≤ i ∧ t.keyAt f = .null ∧ t.nexts f = none ∧
      ∀ j, f < j → j ≤ i → ¬ (t.keyAt j = .null ∧ t.nexts j = none) := by
  induction i with
  | zero =>
      rw [correctFirstFree] at found
      split_ifs at found with free
      obtain rfl := Option.some.inj found
      exact ⟨le_refl _, free.1, free.2, by omega⟩
  | succ i ih =>
      rw [correctFirstFree] at found
      split_ifs at found with free
      · obtain rfl := Option.some.inj found
        exact ⟨le_refl _, free.1, free.2, by omega⟩
      · obtain ⟨below, key_null, no_link, above⟩ := ih found
        refine ⟨by omega, key_null, no_link, ?_⟩
        intro j lower upper
        rcases Nat.lt_or_eq_of_le upper with inside | rfl
        · exact above j lower (by omega)
        · exact free

private theorem correctFirstFree_eq_none {i : Nat} (missed : t.correctFirstFree i = none) :
    ∀ j ≤ i, ¬ (t.keyAt j = .null ∧ t.nexts j = none) := by
  induction i with
  | zero =>
      rw [correctFirstFree] at missed
      split_ifs at missed with free
      intro j upper
      obtain rfl : j = 0 := by omega
      exact free
  | succ i ih =>
      rw [correctFirstFree] at missed
      split_ifs at missed with free
      intro j upper
      rcases Nat.lt_or_eq_of_le upper with inside | rfl
      · exact ih missed j (by omega)
      · exact free

end FirstFree

section Insert

/-- No node has been blanked since the array was allocated: unused nodes have no link, and all
nodes above the first free one are in use. -/
def Tidy (t : SQTable) : Prop :=
  (∀ i, t.keyAt i = .null → t.nexts i = none) ∧
    ∀ i, t.firstFree < i → i < t.numOfNodes → t.keyAt i ≠ .null

structure Extended (hash : SQObject → Nat) (t : SQTable) (key val : SQObject) (t' : SQTable) :
    Prop where
  good : Good hash t'
  size : t'.numOfNodes = t.numOfNodes
  delegate : t'.delegate = t.delegate
  failed : t'.failed = t.failed
  maps : ∀ k v, t'.Maps k v ↔ (k = key ∧ v = val) ∨ t.Maps k v
  card : t'.live.card = t.live.card + 1
  tidy : t.Tidy → t'.Tidy

variable {t' : SQTable} {mp : Nat}

namespace Placed

variable (placed : Placed hash t key t' mp)

include placed

private theorem card_live : t'.live.card = t.live.card + 1 := by
  obtain ⟨x, inside, vacant, dead⟩ := placed.taken
  have grown : t'.live = insert x t.live := by
    ext i
    rw [Finset.mem_insert, mem_live, mem_live, placed.size, Ne, dead]
    by_cases same : i = x
    · subst same
      simp [inside]
    · simp [same]
  rw [grown, Finset.card_insert_of_notMem (by simp [vacant])]

private theorem correct_ne_none (tidy : t.Tidy) (room : t.live.card + 1 < t.numOfNodes) :
    t'.correctFirstFree t'.firstFree ≠ none := by
  intro missed
  obtain ⟨x, inside, vacant, dead⟩ := placed.taken
  -- Otherwise every node of the array is in use.
  have full : Finset.range t.numOfNodes ⊆ t'.live := by
    intro i member
    rw [Finset.mem_range] at member
    rw [mem_live, placed.size]
    refine ⟨member, ?_⟩
    intro unused
    have before : t.keyAt i = .null := ((dead i).mp unused).1
    have low : i ≤ t'.firstFree := by
      rw [placed.first]
      by_contra high
      exact tidy.2 i (by omega) member before
    exact correctFirstFree_eq_none missed i low
      ⟨unused, placed.unlinked i unused (tidy.1 i before)⟩
  have card := Finset.card_le_card full
  rw [Finset.card_range, placed.card_live] at card
  omega

theorem extended (good : Good hash t) (valid : key ≠ .null) (absent : ∀ i, t.keyAt i ≠ key)
    {free : Nat} (found : t'.correctFirstFree t'.firstFree = some free) :
    Extended hash t key val
      { t'.setVal mp val with firstFree := free, usedNodes := t'.usedNodes + 1 } := by
  obtain ⟨below, key_null, no_link, above⟩ := correctFirstFree_eq_some found
  set final : SQTable := { t'.setVal mp val with firstFree := free, usedNodes := t'.usedNodes + 1 }
  have keys : final.keyAt = t'.keyAt := setVal_keyAt mp
  have links : final.nexts = t'.nexts := setVal_nexts mp
  have vals : final.valAt = Function.update t'.valAt mp val := setVal_valAt mp
  have live_eq : final.live = t'.live := by
    ext i
    rw [mem_live, mem_live, keys]
    rfl
  refine ⟨⟨?_, ?_, ?_⟩, placed.size, placed.delegate, placed.failed, ?_, ?_, ?_⟩
  · exact (placed.sound.lower below).congr keys links rfl rfl
  · rw [keys, links]
    exact ⟨key_null, no_link⟩
  · rw [live_eq, placed.card_live]
    change t'.usedNodes + 1 = _
    rw [placed.used, good.used]
    push_cast
    rfl
  · intro k v
    by_cases same : k = key
    · subst same
      constructor
      · rintro ⟨-, i, here, rfl⟩
        rw [keys] at here
        obtain rfl : i = mp :=
          placed.sound.unique i mp (here ▸ valid) (here.trans placed.key_eq.symm)
        exact Or.inl ⟨rfl, by rw [vals, Function.update_self]⟩
      · rintro (⟨-, rfl⟩ | ⟨-, i, here, -⟩)
        · exact ⟨valid, mp, by rw [keys, placed.key_eq], by rw [vals, Function.update_self]⟩
        · exact absurd here (absent i)
    · rw [← placed.others k same v]
      simp only [same, false_and, false_or]
      refine and_congr_right ?_
      intro _
      apply exists_congr
      intro i
      rw [keys]
      apply and_congr_right
      rintro rfl
      have apart : i ≠ mp := by
        rintro rfl
        exact same placed.key_eq
      rw [vals, Function.update_of_ne apart]
  · rw [live_eq, placed.card_live]
  · rintro ⟨noLinks, full⟩
    obtain ⟨x, inside, vacant, dead⟩ := placed.taken
    have unlinked : ∀ i, final.keyAt i = .null → final.nexts i = none := by
      intro i unused
      rw [keys] at unused
      rw [links]
      exact placed.unlinked i unused (noLinks i ((dead i).mp unused).1)
    refine ⟨unlinked, ?_⟩
    intro i high bound unused
    have bound' : i < t.numOfNodes := placed.size ▸ bound
    by_cases low : i ≤ t'.firstFree
    · exact above i high low ⟨keys ▸ unused, links ▸ unlinked i unused⟩
    · rw [placed.first] at low
      rw [keys] at unused
      exact full i (by omega) bound' ((dead i).mp unused).1

end Placed

variable (good : Good hash t) (valid : key ≠ .null)

include good valid

private theorem newSlotWithin_present (depth : Nat) {n : Nat} (here : t.keyAt n = key) :
    newSlotWithin hash (depth + 1) key val t = (t.setVal n val, false) := by
  simp only [newSlotWithin, if_neg valid, (good.sound.getNode_eq_some_iff valid).mpr here]

private theorem newSlotWithin_absent (val : SQObject) (depth : Nat) (absent : ∀ i, t.keyAt i ≠ key)
    {free : Nat}
    (found : ((t.makeRoom hash key).1.setKey (t.makeRoom hash key).2 key).correctFirstFree
      ((t.makeRoom hash key).1.setKey (t.makeRoom hash key).2 key).firstFree = some free) :
    ∃ t', newSlotWithin hash (depth + 1) key val t = (t', true) ∧ Extended hash t key val t' := by
  refine ⟨_, ?_, (makeRoom_placed good valid absent).extended good valid absent found⟩
  simp only [newSlotWithin, if_neg valid, (good.sound.getNode_eq_none_iff valid).mpr absent, found]

/-- In a tidy table with a node to spare `NewSlot` does not rehash. -/
theorem newSlotWithin_tidy (val : SQObject) (depth : Nat) (absent : ∀ i, t.keyAt i ≠ key)
    (tidy : t.Tidy)
    (room : t.live.card + 1 < t.numOfNodes) :
    ∃ t', newSlotWithin hash (depth + 1) key val t = (t', true) ∧ Extended hash t key val t' := by
  have placed := makeRoom_placed good valid absent
  obtain ⟨free, found⟩ := Option.ne_none_iff_exists'.mp (placed.correct_ne_none tidy room)
  exact newSlotWithin_absent good valid val depth absent found

end Insert

section Overwrite

theorem Good.setVal (good : Good hash t) (n : Nat) (val : SQObject) :
    Good hash (t.setVal n val) := by
  have live_eq : (t.setVal n val).live = t.live := by
    ext i
    rw [mem_live, mem_live, setVal_keyAt]
    rfl
  refine ⟨good.sound.congr (setVal_keyAt n) (setVal_nexts n) rfl rfl, ?_, ?_⟩
  · rw [setVal_keyAt, setVal_nexts]
    exact good.free
  · rw [live_eq]
    exact good.used

private theorem maps_setVal (sound : Sound hash t) {n : Nat} (valid : t.keyAt n ≠ .null)
    (k v : SQObject) :
    (t.setVal n val).Maps k v ↔ if k = t.keyAt n then v = val else t.Maps k v := by
  rw [Maps, setVal_keyAt, setVal_valAt]
  split_ifs with same
  · subst same
    constructor
    · rintro ⟨-, i, here, rfl⟩
      obtain rfl := sound.unique i n (here ▸ valid) here
      rw [Function.update_self]
    · rintro rfl
      exact ⟨valid, n, rfl, Function.update_self _ _ _⟩
  · refine and_congr_right fun _ => exists_congr fun i => and_congr_right ?_
    rintro rfl
    have apart : i ≠ n := by
      rintro rfl
      exact same rfl
    rw [Function.update_of_ne apart]

end Overwrite

section Rehash

/-- What `Rehash` needs of the nodes it reads: no key twice, and no key outside the array. -/
structure Distinct (t : SQTable) : Prop where
  size : ∃ e, t.numOfNodes = 2 ^ (e + 2)
  outside : ∀ i, t.numOfNodes ≤ i → t.keyAt i = .null
  unique : ∀ i j, t.keyAt i ≠ .null → t.keyAt i = t.keyAt j → i = j

private theorem Distinct.oldSize_eq (distinct : Distinct t) : t.oldSize = t.numOfNodes := by
  obtain ⟨e, sized⟩ := distinct.size
  have positive := Nat.two_pow_pos e
  rw [Nat.pow_add] at sized
  rw [oldSize, if_neg (by omega)]

theorem Sound.distinct (sound : Sound hash t) : Distinct t :=
  ⟨sound.size, sound.outside, sound.unique⟩

/-- The state of the loop of `Rehash` after the first `i` nodes. -/
private structure Refilled (hash : SQObject → Nat) (t : SQTable) (size i : Nat) (t' : SQTable) :
    Prop where
  good : Good hash t'
  tidy : t'.Tidy
  size : t'.numOfNodes = size
  delegate : t'.delegate = t.delegate
  failed : t'.failed = t.failed
  maps : ∀ k v, t'.Maps k v ↔ k ≠ .null ∧ ∃ j < i, t.keyAt j = k ∧ t.valAt j = v
  card : t'.live.card = ((Finset.range i).filter (t.keyAt · ≠ .null)).card

theorem allocNodes_good (hash : SQObject → Nat) (e : Nat) (t : SQTable) :
    Good hash { t.allocNodes (2 ^ (e + 2)) with usedNodes := 0 } ∧
      Tidy { t.allocNodes (2 ^ (e + 2)) with usedNodes := 0 } := by
  have positive : 0 < 2 ^ (e + 2) := Nat.two_pow_pos _
  set fresh : SQTable := { t.allocNodes (2 ^ (e + 2)) with usedNodes := 0 }
  have keys : ∀ i, fresh.keyAt i = .null := fun _ => rfl
  have links : ∀ i, fresh.nexts i = none := fun _ => rfl
  have empty : fresh.live = ∅ := by
    simp [live, keys]
  refine ⟨⟨⟨⟨e, rfl⟩, fun i _ => rfl, ?_, ?_, ?_, ⟨fun _ => 0, ?_⟩, ?_, ?_, ?_⟩, ⟨rfl, rfl⟩, ?_⟩,
    fun i _ => rfl, ?_⟩
  · change 2 ^ (e + 2) - 1 < 2 ^ (e + 2)
    omega
  · intro i j link
    cases link
  · intro i i' j link
    cases link
  · intro i j link
    cases link
  · intro i used
    exact absurd rfl used
  · intro i j used
    exact absurd rfl used
  · intro i j used
    exact absurd rfl used
  · rw [empty]
    rfl
  · intro i high bound
    change 2 ^ (e + 2) - 1 < i at high
    change i < 2 ^ (e + 2) at bound
    omega

variable {size e : Nat}

private theorem refilled (hash : SQObject → Nat) (distinct : Distinct t) (depth : Nat)
    (sized : size = 2 ^ (e + 2))
    (room : t.live.card < size) (i : Nat) (bound : i ≤ t.numOfNodes) :
    Refilled hash t size i ((List.range i).foldl (reinsert (newSlotWithin hash (depth + 1)) t)
      { t.allocNodes size with usedNodes := 0 }) := by
  induction i with
  | zero =>
      subst sized
      obtain ⟨good, tidy⟩ := allocNodes_good hash e t
      refine ⟨good, tidy, rfl, rfl, rfl, ?_, ?_⟩
      · intro k v
        constructor
        · rintro ⟨valid, i, rfl, -⟩
          exact absurd rfl valid
        · rintro ⟨-, j, impossible, -⟩
          omega
      · have used := good.used
        simpa using used.symm
  | succ i ih =>
      have before := ih (by omega)
      rw [List.range_succ, List.foldl_append, List.foldl_cons, List.foldl_nil]
      set filled := (List.range i).foldl (reinsert (newSlotWithin hash (depth + 1)) t)
        { t.allocNodes size with usedNodes := 0 }
      rw [reinsert]
      have range : (Finset.range (i + 1)).filter (t.keyAt · ≠ .null) =
          if t.keyAt i = .null then (Finset.range i).filter (t.keyAt · ≠ .null)
          else insert i ((Finset.range i).filter (t.keyAt · ≠ .null)) := by
        rw [Finset.range_add_one, Finset.filter_insert, ite_not]
      split_ifs with unused
      · refine ⟨before.good, before.tidy, before.size, before.delegate, before.failed, ?_, ?_⟩
        · intro k v
          rw [before.maps]
          refine and_congr_right ?_
          intro valid
          constructor
          · rintro ⟨j, low, here⟩
            exact ⟨j, by omega, here⟩
          · rintro ⟨j, low, rfl, rfl⟩
            refine ⟨j, ?_, rfl, rfl⟩
            rcases Nat.lt_succ_iff_lt_or_eq.mp low with below | rfl
            · exact below
            · exact absurd unused valid
        · rw [range, if_pos unused]
          exact before.card
      · rw [if_neg unused] at range
        have absent : ∀ j, filled.keyAt j ≠ t.keyAt i := by
          intro j here
          obtain ⟨-, k, low, same, -⟩ := (before.maps _ _).mp ⟨unused, j, here, rfl⟩
          have := distinct.unique i k unused same.symm
          omega
        have fits : filled.live.card + 1 < filled.numOfNodes := by
          have subset : (Finset.range (i + 1)).filter (t.keyAt · ≠ .null) ⊆ t.live :=
            Finset.filter_subset_filter _ (Finset.range_mono bound)
          have card := Finset.card_le_card subset
          rw [range, Finset.card_insert_of_notMem (by simp), ← before.card] at card
          rw [before.size]
          omega
        obtain ⟨t', stored, extended⟩ := newSlotWithin_tidy before.good unused
          (t.valAt i) depth absent before.tidy fits
        rw [stored]
        refine ⟨extended.good, extended.tidy before.tidy, extended.size.trans before.size,
          extended.delegate.trans before.delegate, extended.failed.trans before.failed, ?_, ?_⟩
        · intro k v
          rw [extended.maps, before.maps]
          constructor
          · rintro (⟨rfl, rfl⟩ | ⟨valid, j, low, here⟩)
            · exact ⟨unused, i, by omega, rfl, rfl⟩
            · exact ⟨valid, j, by omega, here⟩
          · rintro ⟨valid, j, low, rfl, rfl⟩
            rcases Nat.lt_succ_iff_lt_or_eq.mp low with below | rfl
            · exact Or.inr ⟨valid, j, below, rfl, rfl⟩
            · exact Or.inl ⟨rfl, rfl⟩
        · rw [extended.card, before.card, range, Finset.card_insert_of_notMem (by simp)]

/-- The size that `Rehash` picks is a power of two with a node to spare, also when one key more
than counted is in the nodes. -/
private theorem rehashSize_room {force : Bool} (distinct : Distinct t)
    (counted : (t.live.card : Int) ≤ t.usedNodes + 1)
    (picked : rehashSize force t.countUsed t.oldSize = some size) :
    (∃ e, size = 2 ^ (e + 2)) ∧ t.live.card < size := by
  obtain ⟨e, sized⟩ := distinct.size
  have bound : t.live.card ≤ t.numOfNodes := by
    have card := Finset.card_le_card
      (Finset.filter_subset (t.keyAt · ≠ .null) (Finset.range t.numOfNodes))
    rwa [Finset.card_range] at card
  have positive := Nat.two_pow_pos e
  rw [Nat.pow_add] at sized
  rw [distinct.oldSize_eq, rehashSize, countUsed, minPower2] at picked
  split at picked
  · obtain rfl := Option.some.inj picked
    refine ⟨⟨e + 1, ?_⟩, by omega⟩
    rw [sized, Nat.pow_add, Nat.pow_succ]
    omega
  · split at picked
    · obtain rfl := Option.some.inj picked
      -- More than four nodes are at least eight.
      obtain ⟨e, rfl⟩ : ∃ k, e = k + 1 := by
        refine ⟨e - 1, ?_⟩
        rcases Nat.eq_zero_or_pos e with rfl | large
        · simp at sized
          omega
        · omega
      rw [Nat.pow_succ] at sized
      refine ⟨⟨e, ?_⟩, by omega⟩
      rw [sized, Nat.pow_add]
      omega
    · split at picked
      · obtain rfl := Option.some.inj picked
        refine ⟨⟨e, ?_⟩, by omega⟩
        rw [sized, Nat.pow_add]
      · cases picked

structure Rebuilt (hash : SQObject → Nat) (t t' : SQTable) : Prop where
  good : Good hash t'
  delegate : t'.delegate = t.delegate
  failed : t'.failed = t.failed
  maps : ∀ k v, t'.Maps k v ↔ t.Maps k v

/-- `Rehash`, when it reallocates, puts every slot of the old nodes into a good and tidy table of
the picked size. -/
private theorem rehashWith_rebuilt (hash : SQObject → Nat) {force : Bool} (distinct : Distinct t)
    (depth : Nat)
    (counted : (t.live.card : Int) ≤ t.usedNodes + 1)
    (picked : rehashSize force t.countUsed t.oldSize = some size) :
    Rebuilt hash t (rehashWith (newSlotWithin hash (depth + 1)) force t) ∧
      (rehashWith (newSlotWithin hash (depth + 1)) force t).Tidy ∧
      (rehashWith (newSlotWithin hash (depth + 1)) force t).numOfNodes = size := by
  obtain ⟨⟨e, sized⟩, room⟩ := rehashSize_room distinct counted picked
  have done := refilled hash distinct depth sized room t.numOfNodes (le_refl _)
  simp only [rehashWith, picked]
  rw [distinct.oldSize_eq]
  refine ⟨⟨done.good, done.delegate, done.failed, ?_⟩, done.tidy, done.size⟩
  intro k v
  rw [done.maps]
  refine and_congr_right ?_
  intro valid
  constructor
  · rintro ⟨j, -, here⟩
    exact ⟨j, here⟩
  · rintro ⟨j, rfl, rfl⟩
    refine ⟨j, ?_, rfl, rfl⟩
    by_contra beyond
    exact valid (distinct.outside j (by omega))

end Rehash

section Operations

private theorem rehashSize_force (nelems : Int) (oldsize : Nat) :
    ∃ size, rehashSize true nelems oldsize = some size := by
  rw [rehashSize]
  split
  · exact ⟨_, rfl⟩
  · split
    · exact ⟨_, rfl⟩
    · exact ⟨_, rfl⟩

/-- What `NewSlot` leaves when the new key has taken the last free node: a rehashed table, of the
size `Rehash` picks for the old count, in which the key is found and given its value. -/
structure Overfull (hash : SQObject → Nat) (t : SQTable) (key : SQObject) (again : SQTable)
    (n : Nat) : Prop where
  good : Good hash again
  tidy : again.Tidy
  picked : rehashSize true t.usedNodes t.numOfNodes = some again.numOfNodes
  delegate : again.delegate = t.delegate
  failed : again.failed = t.failed
  key_eq : again.keyAt n = key
  others : ∀ k, k ≠ key → ∀ v, again.Maps k v ↔ t.Maps k v

variable (good : Good hash t)

include good

private theorem newSlot_overfull (valid : key ≠ .null) (val : SQObject)
    (absent : ∀ i, t.keyAt i ≠ key)
    (missed : ((t.makeRoom hash key).1.setKey (t.makeRoom hash key).2 key).correctFirstFree
      ((t.makeRoom hash key).1.setKey (t.makeRoom hash key).2 key).firstFree = none) :
    ∃ again n, t.newSlot hash key val = (again.setVal n val, false) ∧
      Overfull hash t key again n := by
  have placed := makeRoom_placed good valid absent
  set put := (t.makeRoom hash key).1.setKey (t.makeRoom hash key).2 key with put_eq
  -- The key is in the nodes already, with the value still to be written.
  set full : SQTable := { put with firstFree := 0 } with full_eq
  have counted : (full.live.card : Int) ≤ full.usedNodes + 1 := by
    change (put.live.card : Int) ≤ put.usedNodes + 1
    rw [placed.card_live, placed.used, good.used]
    push_cast
    exact le_refl _
  have distinct : Distinct full := ⟨placed.sound.size, placed.sound.outside, placed.sound.unique⟩
  obtain ⟨size, picked⟩ := rehashSize_force full.countUsed full.oldSize
  obtain ⟨rebuilt, tidy, sized⟩ := rehashWith_rebuilt hash distinct 0 counted picked
  set again := rehashWith (newSlotWithin hash 1) true full with again_eq
  have whole : t.newSlot hash key val = newSlotWithin hash 1 key val again := by
    rw [newSlot, newSlotWithin]
    simp only [if_neg valid, (good.sound.getNode_eq_none_iff valid).mpr absent, ← put_eq,
      missed, ← full_eq, ← again_eq]
  obtain ⟨-, n, here, -⟩ := (rebuilt.maps key _).mpr
    ⟨valid, (t.makeRoom hash key).2, placed.key_eq, rfl⟩
  refine ⟨again, n, ?_, rebuilt.good, tidy, ?_, rebuilt.delegate.trans placed.delegate,
    rebuilt.failed.trans placed.failed, here, ?_⟩
  · rw [whole, newSlotWithin_present rebuilt.good valid 0 here]
  · rw [sized, ← picked, distinct.oldSize_eq]
    change _ = rehashSize true put.usedNodes put.numOfNodes
    rw [placed.used, placed.size]
  · intro k other v
    exact (rebuilt.maps k v).trans (placed.others k other v)

/-- The three ways `NewSlot` can end. -/
theorem newSlot_cases (valid : key ≠ .null) (val : SQObject) :
    (∃ n, t.keyAt n = key ∧ t.newSlot hash key val = (t.setVal n val, false)) ∨
      ((∀ i, t.keyAt i ≠ key) ∧
        ((∃ t', t.newSlot hash key val = (t', true) ∧ Extended hash t key val t') ∨
          ∃ again n, t.newSlot hash key val = (again.setVal n val, false) ∧
            Overfull hash t key again n)) := by
  by_cases present : ∃ n, t.keyAt n = key
  · obtain ⟨n, here⟩ := present
    exact Or.inl ⟨n, here, newSlotWithin_present good valid 1 here⟩
  · have absent : ∀ i, t.keyAt i ≠ key := not_exists.mp present
    refine Or.inr ⟨absent, ?_⟩
    set put := (t.makeRoom hash key).1.setKey (t.makeRoom hash key).2 key with put_eq
    cases found : put.correctFirstFree put.firstFree with
    | some free => exact Or.inl (newSlotWithin_absent good valid val 1 absent found)
    | none => exact Or.inr (newSlot_overfull good valid val absent found)

/-- `NewSlot` writes the one slot, whether it overwrites, inserts, or rehashes and inserts. -/
theorem newSlot_spec (valid : key ≠ .null) (val : SQObject) :
    Good hash (t.newSlot hash key val).1 ∧
      (t.newSlot hash key val).1.delegate = t.delegate ∧
      (t.newSlot hash key val).1.failed = t.failed ∧
      ∀ k v, (t.newSlot hash key val).1.Maps k v ↔ if k = key then v = val else t.Maps k v := by
  rcases newSlot_cases good valid val with
    ⟨n, rfl, done⟩ | ⟨absent, ⟨t', done, extended⟩ | ⟨again, n, done, overfull⟩⟩
  · rw [done]
    exact ⟨good.setVal n val, rfl, rfl, maps_setVal good.sound valid⟩
  · have none : ∀ v, ¬ t.Maps key v := by
      rintro v ⟨-, i, here, -⟩
      exact absent i here
    rw [done]
    refine ⟨extended.good, extended.delegate, extended.failed, ?_⟩
    intro k v
    rw [extended.maps]
    split_ifs with same
    · subst same
      simp [none]
    · simp [same]
  · have valid' : again.keyAt n ≠ .null := overfull.key_eq ▸ valid
    rw [done]
    refine ⟨overfull.good.setVal n val, overfull.delegate, overfull.failed, ?_⟩
    intro k v
    rw [maps_setVal overfull.good.sound valid', overfull.key_eq]
    split_ifs with same
    · exact Iff.rfl
    · exact overfull.others k same v

private theorem rehash_rebuilt (force : Bool) : Rebuilt hash t (t.rehash hash force) := by
  cases picked : rehashSize force t.countUsed t.oldSize with
  | none =>
      have same : t.rehash hash force = t := by
        simp [rehash, rehashWith, picked]
      rw [same]
      exact ⟨good, rfl, rfl, fun _ _ => Iff.rfl⟩
  | some size =>
      refine (rehashWith_rebuilt hash good.sound.distinct 1 ?_ picked).1
      rw [good.used]
      omega

omit good in
theorem Good.blank (good : Good hash t) {n : Nat} (used : t.keyAt n ≠ .null) :
    Good hash { t.setNode n { val := .null, key := .null, next := t.nexts n } with
      usedNodes := t.usedNodes - 1 } := by
  set blanked : SQTable := { t.setNode n { val := .null, key := .null, next := t.nexts n } with
    usedNodes := t.usedNodes - 1 }
  have keys : blanked.keyAt = Function.update t.keyAt n .null := setNode_keyAt _ _
  have links : blanked.nexts = t.nexts := by
    refine (setNode_nexts _ _).trans ?_
    simp
  have kept : ∀ i, blanked.keyAt i ≠ .null → t.keyAt i ≠ .null ∧ blanked.keyAt i = t.keyAt i := by
    intro i used'
    rw [keys] at used' ⊢
    by_cases same : i = n
    · subst same
      simp at used'
    · rw [Function.update_of_ne same] at used' ⊢
      exact ⟨used', rfl⟩
  have apart : t.firstFree ≠ n := by
    rintro rfl
    exact used good.free.1
  have main : ∀ k, blanked.mainPos hash k = t.mainPos hash k := fun _ => rfl
  refine ⟨⟨good.sound.size, ?_, good.sound.firstFree_lt, ?_, ?_, ?_, ?_, ?_, ?_⟩, ?_, ?_⟩
  · intro i beyond
    by_contra used'
    exact (kept i used').1 (good.sound.outside i beyond)
  · intro i j link
    rw [links] at link
    refine ⟨(good.sound.target i j link).1, (good.sound.target i j link).2.1, ?_⟩
    rintro rfl
    exact absurd link (good.firstFree_fresh i)
  · rw [links]
    exact good.sound.single
  · rw [links]
    exact good.sound.ranked
  · intro i used'
    obtain ⟨before, same⟩ := kept i used'
    rw [same, links, main]
    exact good.sound.home i before
  · intro i j used' used'' same
    obtain ⟨before, sameKey⟩ := kept i used'
    obtain ⟨before', sameKey'⟩ := kept j used''
    rw [main] at same ⊢
    rw [sameKey'] at same
    rw [sameKey]
    exact good.sound.settled i j before before' same
  · intro i j used' same
    obtain ⟨before, sameKey⟩ := kept i used'
    obtain ⟨before', sameKey'⟩ := kept j (same ▸ used')
    exact good.sound.unique i j before (by rw [← sameKey, ← sameKey', same])
  · rw [keys, links]
    exact ⟨(Function.update_of_ne apart _ _).trans good.free.1, good.free.2⟩
  · have shrunk : blanked.live = t.live.erase n := by
      ext i
      rw [Finset.mem_erase, mem_live, mem_live, keys]
      by_cases same : i = n
      · subst same
        simp
      · rw [Function.update_of_ne same]
        simp only [ne_eq, same, not_false_eq_true, true_and]
        rfl
    have member : n ∈ t.live := mem_live n |>.mpr ⟨good.sound.lt_of_live used, used⟩
    change t.usedNodes - 1 = _
    rw [shrunk, Finset.card_erase_of_mem member, good.used]
    have positive : 0 < t.live.card := Finset.card_pos.mpr ⟨n, member⟩
    omega

/-- `Remove` takes the one slot out. -/
theorem remove_spec (valid : key ≠ .null) :
    Good hash (t.remove hash key) ∧ (t.remove hash key).delegate = t.delegate ∧
      (t.remove hash key).failed = t.failed ∧
      ∀ k v, (t.remove hash key).Maps k v ↔ k ≠ key ∧ t.Maps k v := by
  cases found : t.getNode key (t.mainPos hash key) with
  | none =>
      have same : t.remove hash key = t := by
        simp [remove, found]
      have absent := (good.sound.getNode_eq_none_iff valid).mp found
      rw [same]
      refine ⟨good, rfl, rfl, ?_⟩
      intro k v
      constructor
      · rintro ⟨valid', i, here, there⟩
        refine ⟨?_, valid', i, here, there⟩
        rintro rfl
        exact absent i here
      · exact And.right
  | some n =>
      have here := (good.sound.getNode_eq_some_iff valid).mp found
      have blanked := good.blank (n := n) (here ▸ valid)
      have rebuilt := rehash_rebuilt blanked false
      simp only [remove, found]
      refine ⟨rebuilt.good, rebuilt.delegate, rebuilt.failed, ?_⟩
      intro k v
      rw [rebuilt.maps]
      constructor
      · rintro ⟨valid', i, sameKey, sameVal⟩
        change (t.setNode n _).keyAt i = k at sameKey
        change (t.setNode n _).valAt i = v at sameVal
        rw [setNode_keyAt] at sameKey
        rw [setNode_valAt] at sameVal
        have apart : i ≠ n := by
          rintro rfl
          exact valid' (by rw [← sameKey, Function.update_self])
        rw [Function.update_of_ne apart] at sameKey sameVal
        refine ⟨?_, valid', i, sameKey, sameVal⟩
        rintro rfl
        exact apart (good.sound.unique i n (sameKey ▸ valid') (sameKey.trans here.symm))
      · rintro ⟨other, valid', i, rfl, rfl⟩
        have apart : i ≠ n := by
          rintro rfl
          exact other here
        refine ⟨valid', i, ?_, ?_⟩
        · change (t.setNode n _).keyAt i = _
          rw [setNode_keyAt, Function.update_of_ne apart]
        · change (t.setNode n _).valAt i = _
          rw [setNode_valAt, Function.update_of_ne apart]

/-- `Clear` leaves no slot. -/
theorem clear_spec :
    Good hash (t.clear hash) ∧ (t.clear hash).delegate = t.delegate ∧
      (t.clear hash).failed = t.failed ∧ ∀ k v, ¬ (t.clear hash).Maps k v := by
  set blank : SQTable := { t.clearNodes with usedNodes := 0 } with blank_eq
  have unused : ∀ i, blank.keyAt i = .null := by
    intro i
    by_cases inside : i < t.numOfNodes
    · simp [blank, keyAt, clearNodes, inside]
    · have outside := good.sound.outside i (by omega)
      simpa [blank, keyAt, clearNodes, inside] using outside
  have distinct : Distinct blank := by
    refine ⟨good.sound.size, fun i _ => unused i, ?_⟩
    intro i j used
    exact absurd (unused i) used
  have counted : (blank.live.card : Int) ≤ blank.usedNodes + 1 := by
    have empty : blank.live = ∅ := by
      simp [live, unused]
    rw [empty, Finset.card_empty]
    change (0 : Int) ≤ 0 + 1
    decide
  obtain ⟨size, picked⟩ := rehashSize_force blank.countUsed blank.oldSize
  have rebuilt : Rebuilt hash blank (t.clear hash) :=
    (rehashWith_rebuilt hash distinct 1 counted picked).1
  refine ⟨rebuilt.good, rebuilt.delegate, rebuilt.failed, ?_⟩
  intro k v mapped
  obtain ⟨valid, i, rfl, -⟩ := (rebuilt.maps k v).mp mapped
  exact valid (unused i)

/-- `Set` writes a slot that exists. Under the null key it writes, if anything, a node that is not
in use. -/
theorem set_spec (key val : SQObject) :
    Good hash (t.set hash key val).1 ∧ (t.set hash key val).1.delegate = t.delegate ∧
      (t.set hash key val).1.failed = t.failed ∧
      (key ≠ .null → ((t.set hash key val).2 = true ↔ ∃ v, t.Maps key v)) ∧
      ∀ k v, (t.set hash key val).1.Maps k v ↔
        (k = key ∧ v = val ∧ ∃ w, t.Maps key w) ∨ (k ≠ key ∧ t.Maps k v) := by
  cases found : t.getNode key (t.mainPos hash key) with
  | none =>
      have same : t.set hash key val = (t, false) := by
        simp [set, found]
      have missing : ¬ ∃ w, t.Maps key w := by
        rintro ⟨w, valid, i, here, -⟩
        exact (good.sound.getNode_eq_none_iff valid).mp found i here
      rw [same]
      refine ⟨good, rfl, rfl, fun _ => by simp [missing], ?_⟩
      intro k v
      constructor
      · intro mapped
        refine Or.inr ⟨?_, mapped⟩
        rintro rfl
        exact missing ⟨v, mapped⟩
      · rintro (⟨-, -, present⟩ | ⟨-, mapped⟩)
        · exact absurd present missing
        · exact mapped
  | some n =>
      have same : t.set hash key val = (t.setVal n val, true) := by
        simp [set, found]
      have inside : ∀ i j, t.nexts i = some j → j < t.numOfNodes := by
        intro i j link
        exact (good.sound.target i j link).1
      have here : t.keyAt n = key := by
        simpa using (search_eq_some good.sound.ranked inside (good.sound.mainPos_lt _) found).2
      rw [same]
      refine ⟨good.setVal n val, rfl, rfl, ?_, ?_⟩
      · intro valid
        exact iff_of_true rfl ⟨t.valAt n, valid, n, here, rfl⟩
      · intro k v
        by_cases valid : key = .null
        · subst valid
          constructor
          · rintro ⟨used, i, sameKey, sameVal⟩
            rw [setVal_keyAt] at sameKey
            have apart : i ≠ n := by
              rintro rfl
              exact used (sameKey.symm.trans here)
            rw [setVal_valAt, Function.update_of_ne apart] at sameVal
            exact Or.inr ⟨used, used, i, sameKey, sameVal⟩
          · rintro (⟨-, -, w, impossible, -⟩ | ⟨-, used, i, sameKey, sameVal⟩)
            · exact absurd rfl impossible
            · have apart : i ≠ n := by
                rintro rfl
                exact used (sameKey.symm.trans here)
              refine ⟨used, i, by rw [setVal_keyAt, sameKey], ?_⟩
              rw [setVal_valAt, Function.update_of_ne apart, sameVal]
        · have present : ∃ w, t.Maps key w := ⟨t.valAt n, valid, n, here, rfl⟩
          rw [maps_setVal good.sound (here ▸ valid), here]
          by_cases equal : k = key
          · simp [equal, present]
          · simp [equal]

/-- `Get` answers with the slot of the key. -/
theorem get_spec (realval : SQObject → SQObject) (w : SQObject) :
    t.get hash realval key = some w ↔ ∃ v, t.Maps key v ∧ realval v = w := by
  rw [get]
  split_ifs with null
  · constructor
    · intro impossible
      cases impossible
    · rintro ⟨v, ⟨valid, -⟩, -⟩
      exact absurd null valid
  · cases found : t.getNode key (t.mainPos hash key) with
    | none =>
        constructor
        · intro impossible
          cases impossible
        · rintro ⟨v, ⟨-, i, here, -⟩, -⟩
          exact absurd here ((good.sound.getNode_eq_none_iff null).mp found i)
    | some n =>
        have here := (good.sound.getNode_eq_some_iff null).mp found
        constructor
        · intro equal
          exact ⟨t.valAt n, ⟨null, n, here, rfl⟩, Option.some.inj equal⟩
        · rintro ⟨v, ⟨-, i, same, rfl⟩, rfl⟩
          rw [good.sound.unique i n (same ▸ null) (same.trans here.symm)]

end Operations

end SquirrelGObject.Engine.SQTable
