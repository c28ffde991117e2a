/- SquirrelGObject/Engine/StringTableSpec
   digest: Interning: over any use of counted handles, equal texts and equal pointers are the same thing. -/

import Mathlib.Algebra.Order.Ring.Nat
import Mathlib.Data.Finset.Card
import SquirrelGObject.Engine.StringTable
import SquirrelGObject.Lib.Runs

set_option autoImplicit false
set_option relaxedAutoImplicit false

namespace SquirrelGObject.Engine

open Lib.Chain

namespace SQStringTable

/-- Each bucket holds the strings that the predicate selects and whose hash selects the bucket. -/
def Buckets (t : SQStringTable) (M : Address → Prop) : Prop :=
  ∀ b < t.numOfSlots, ∃ l, Linked t.nexts (t.strings b) l ∧
    ∀ a, a ∈ l ↔ M a ∧ ∃ s, t.memory a = some s ∧ t.mainPos s.hash = b

def bodyAt (t : SQStringTable) (a : Address) : Option (List UInt8 × Nat × Nat) :=
  (t.memory a).map fun s => (s.val, s.hash, s.uiRef)

variable {t : SQStringTable} {M : Address → Prop} {a p : Address} {s : SQString} {l : List Address}

theorem mainPos_lt (positive : 0 < t.numOfSlots) (hash : Nat) : t.mainPos hash < t.numOfSlots := by
  have below : t.mainPos hash ≤ t.numOfSlots - 1 := Nat.and_le_right
  omega

private theorem bodyAt_of_memory (stored : t.memory a = some s) :
    t.bodyAt a = some (s.val, s.hash, s.uiRef) := by
  simp [bodyAt, stored]

private theorem memory_of_bodyAt {t' : SQStringTable} (same : t'.bodyAt a = t.bodyAt a)
    (stored : t.memory a = some s) : ∃ next, t'.memory a = some { s with next := next } := by
  rw [bodyAt_of_memory stored, bodyAt, Option.map_eq_some_iff] at same
  obtain ⟨s', stored', equal⟩ := same
  refine ⟨s'.next, ?_⟩
  simp only [Prod.mk.injEq] at equal
  rw [stored', ← equal.1, ← equal.2.1, ← equal.2.2]

section Link

private theorem link_memory (c : Address) : (t.link p s).memory c =
    if c = p then some { s with next := t.strings (t.mainPos s.hash) } else t.memory c := by
  change Function.update t.memory p _ c = _
  rw [Function.update_apply]

private theorem link_nexts :
    (t.link p s).nexts = Function.update t.nexts p (t.strings (t.mainPos s.hash)) := by
  ext1 c
  rw [nexts, link_memory, Function.update_apply]
  split_ifs <;> rfl

theorem Buckets.link (buckets : t.Buckets M) (outside : ¬ M p) :
    (t.link p s).Buckets fun a => M a ∨ a = p := by
  intro b below
  obtain ⟨l, linked, members⟩ := buckets b below
  have off : p ∉ l := fun member => outside ((members p).mp member).1
  have others : ∀ a, a ≠ p → ((M a ∨ a = p) ∧ (∃ x, (t.link p s).memory a = some x ∧
      (t.link p s).mainPos x.hash = b) ↔ a ∈ l) := by
    intro a apart
    rw [members, link_memory, if_neg apart]
    simp only [apart, or_false]
    exact Iff.rfl
  by_cases own : b = t.mainPos s.hash
  · refine ⟨p :: l, ?_, ?_⟩
    · rw [link_nexts, ← own]
      have head : (t.link p s).strings b = some p := by
        rw [own]
        exact Function.update_self _ _ _
      rw [head]
      exact linked_link linked off
    · intro a
      by_cases equal : a = p
      · subst equal
        have stored := (link_memory (t := t) (s := s) (p := a) a).trans (if_pos rfl)
        exact iff_of_true List.mem_cons_self ⟨Or.inr rfl, _, stored, own.symm⟩
      · rw [others a equal, List.mem_cons]
        simp [equal]
  · refine ⟨l, ?_, ?_⟩
    · have head : (t.link p s).strings b = t.strings b := Function.update_of_ne own _ _
      rw [link_nexts, head]
      apply linked_congr linked
      intro a member
      apply Function.update_of_ne
      intro equal
      exact off (equal ▸ member)
    · intro a
      by_cases equal : a = p
      · subst equal
        refine iff_of_false off ?_
        rintro ⟨-, x, stored, pos⟩
        rw [link_memory, if_pos rfl] at stored
        obtain rfl := Option.some.inj stored
        exact own pos.symm
      · exact (others a equal).symm

private theorem link_bodyAt (stored : t.memory p = some s) : (t.link p s).bodyAt = t.bodyAt := by
  ext1 c
  rw [bodyAt, link_memory]
  split_ifs with equal
  · subst equal
    rw [bodyAt_of_memory stored]
    rfl
  · rfl

end Link

section Resize

/-- What moving strings from bucket to bucket keeps. -/
structure Moved (t t' : SQStringTable) (l : List Address) : Prop where
  slots : t'.numOfSlots = t.numOfSlots
  used : t'.slotUsed = t.slotUsed
  failed : t'.failed = t.failed
  body : t'.bodyAt = t.bodyAt
  frame : ∀ a, a ∉ l → t'.memory a = t.memory a

private theorem moveChain_spec {fuel : Nat} {head : Option Address} (buckets : t.Buckets M)
    (linked : Linked t.nexts head l) (outside : ∀ a ∈ l, ¬ M a)
    (alive : ∀ a ∈ l, ∃ s, t.memory a = some s) (enough : l.length ≤ fuel) :
    (moveChain fuel head t).Buckets (fun a => M a ∨ a ∈ l) ∧ Moved t (moveChain fuel head t) l := by
  have nodup := linked_nodup linked
  induction l generalizing t M head fuel with
  | nil =>
      obtain rfl := linked
      have same : moveChain fuel none t = t := by cases fuel <;> rfl
      rw [same]
      exact ⟨by simpa using buckets, rfl, rfl, rfl, rfl, fun _ _ => rfl⟩
  | cons p l ih =>
      obtain ⟨rfl, tail⟩ := linked
      obtain ⟨fuel, rfl⟩ : ∃ k, fuel = k + 1 := ⟨fuel - 1, by simp at enough; omega⟩
      obtain ⟨s, stored⟩ := alive p List.mem_cons_self
      obtain ⟨off, nodup⟩ := List.nodup_cons.mp nodup
      have turn : moveChain (fuel + 1) (some p) t = moveChain fuel s.next (t.link p s) := by
        simp only [moveChain, stored]
      have next : t.nexts p = s.next := by simp [nexts, stored]
      have tail' : Linked (t.link p s).nexts s.next l := by
        rw [link_nexts, ← next]
        apply linked_congr tail
        intro a member
        apply Function.update_of_ne
        intro equal
        exact off (equal ▸ member)
      have alive' : ∀ a ∈ l, ∃ x, (t.link p s).memory a = some x := by
        intro a member
        rw [link_memory]
        split_ifs with equal
        · exact ⟨_, rfl⟩
        · exact alive a (List.mem_cons_of_mem p member)
      have outside' : ∀ a ∈ l, ¬ (M a ∨ a = p) := by
        intro a member inside
        rcases inside with inside | equal
        · exact outside a (List.mem_cons_of_mem p member) inside
        · exact off (equal ▸ member)
      obtain ⟨moved, same⟩ := ih (buckets.link (outside p List.mem_cons_self)) tail' outside'
        alive' (by simpa using enough) nodup
      rw [turn]
      refine ⟨?_, same.slots, same.used, same.failed, ?_, ?_⟩
      · simpa only [List.mem_cons, or_assoc] using moved
      · rw [same.body, link_bodyAt stored]
      · intro a apart
        obtain ⟨other, apart⟩ : a ≠ p ∧ a ∉ l := by simpa using apart
        rw [same.frame a apart, link_memory, if_neg other]

/-- The table as a set of strings, whatever the buckets they are in. -/
structure Filled (t : SQStringTable) (live : Finset Address) : Prop where
  slots : ∃ k, t.numOfSlots = 2 ^ k
  buckets : t.Buckets fun _ => True
  mem : ∀ a, a ∈ live ↔ ∃ s, t.memory a = some s
  used : t.slotUsed = live.card

variable {live : Finset Address}

theorem Filled.positive (filled : t.Filled live) : 0 < t.numOfSlots := by
  obtain ⟨k, slots⟩ := filled.slots
  rw [slots]
  exact Nat.two_pow_pos k

theorem Filled.short {next : Address → Option Address} {head : Option Address}
    (filled : t.Filled live) (linked : Linked next head l)
    (alive : ∀ a ∈ l, ∃ s, t.memory a = some s) : l.length ≤ t.slotUsed := by
  rw [filled.used, ← List.toFinset_card_of_nodup (linked_nodup linked)]
  apply Finset.card_le_card
  intro a member
  exact (filled.mem a).mpr (alive a (List.mem_toFinset.mp member))

/-- The outer loop of `Resize`, after some of the old buckets. -/
theorem resize_loop (filled : t.Filled live) (size k : Nat) (within : k ≤ t.numOfSlots) :
    let t' := (List.range k).foldl (fun moved i => moveChain t.slotUsed (t.strings i) moved)
      (t.allocNodes size)
    t'.Buckets (fun a => ∃ s, t.memory a = some s ∧ t.mainPos s.hash < k) ∧
      t'.numOfSlots = size ∧ t'.slotUsed = t.slotUsed ∧ t'.failed = t.failed ∧
      t'.bodyAt = t.bodyAt ∧
      ∀ a s, t.memory a = some s → k ≤ t.mainPos s.hash → t'.memory a = t.memory a := by
  induction k with
  | zero =>
      refine ⟨?_, rfl, rfl, rfl, rfl, fun _ _ _ _ => rfl⟩
      intro b below
      exact ⟨[], rfl, by simp⟩
  | succ k ih =>
      obtain ⟨buckets, slots, used, failed, body, frame⟩ := ih (by omega)
      simp only [List.range_succ, List.foldl_append, List.foldl_cons, List.foldl_nil]
      generalize (List.range k).foldl _ (t.allocNodes size) = t' at *
      obtain ⟨l, linked, members⟩ := filled.buckets k (by omega)
      have alive : ∀ a ∈ l, ∃ s, t.memory a = some s := by
        intro a member
        obtain ⟨-, s, stored, -⟩ := (members a).mp member
        exact ⟨s, stored⟩
      have still : ∀ a ∈ l, t'.memory a = t.memory a := by
        intro a member
        obtain ⟨-, s, stored, pos⟩ := (members a).mp member
        exact frame a s stored (by omega)
      have linked' : Linked t'.nexts (t.strings k) l := by
        apply linked_congr linked
        intro a member
        rw [nexts, nexts, still a member]
      have outside : ∀ a ∈ l, ¬ ∃ s, t.memory a = some s ∧ t.mainPos s.hash < k := by
        intro a member inside
        obtain ⟨s, stored, before⟩ := inside
        obtain ⟨-, s', stored', pos⟩ := (members a).mp member
        obtain rfl := Option.some.inj (stored.symm.trans stored')
        omega
      obtain ⟨moved, same⟩ := moveChain_spec buckets linked' outside
        (fun a member => still a member ▸ alive a member) (filled.short linked alive)
      refine ⟨?_, same.slots.trans slots, same.used.trans used, same.failed.trans failed,
        same.body.trans body, ?_⟩
      · have reached : (fun a => ∃ s, t.memory a = some s ∧ t.mainPos s.hash < k + 1) =
            fun a => (∃ s, t.memory a = some s ∧ t.mainPos s.hash < k) ∨ a ∈ l := by
          ext a
          rw [members]
          constructor
          · rintro ⟨s, stored, before⟩
            rcases Nat.lt_succ_iff_lt_or_eq.mp before with before | here
            · exact Or.inl ⟨s, stored, before⟩
            · exact Or.inr ⟨trivial, s, stored, here⟩
          · rintro (⟨s, stored, before⟩ | ⟨-, s, stored, here⟩)
            · exact ⟨s, stored, by omega⟩
            · exact ⟨s, stored, by omega⟩
        rw [reached]
        exact moved
      · intro a s stored after
        have apart : a ∉ l := by
          intro member
          obtain ⟨-, s', stored', pos⟩ := (members a).mp member
          obtain rfl := Option.some.inj (stored.symm.trans stored')
          omega
        rw [same.frame a apart]
        exact frame a s stored (by omega)

/-- `Resize` to a power of two keeps every string. -/
theorem resize_spec (filled : t.Filled live) {size : Nat} (power : ∃ k, size = 2 ^ k) :
    (t.resize size).Filled live ∧ (t.resize size).numOfSlots = size ∧
      (t.resize size).slotUsed = t.slotUsed ∧ (t.resize size).failed = t.failed ∧
      (t.resize size).bodyAt = t.bodyAt := by
  obtain ⟨buckets, slots, used, failed, body, -⟩ := resize_loop filled size _ le_rfl
  change (t.resize size).Buckets _ at buckets
  change (t.resize size).numOfSlots = size at slots
  refine ⟨⟨?_, ?_, ?_, ?_⟩, slots, used, failed, body⟩
  · rw [slots]
    exact power
  · intro b below
    obtain ⟨l, linked, members⟩ := buckets b below
    refine ⟨l, linked, ?_⟩
    intro a
    rw [members]
    refine and_congr_left fun held => iff_of_true ?_ trivial
    obtain ⟨s, stored, -⟩ := held
    obtain ⟨next, before⟩ := memory_of_bodyAt (congrFun body.symm a) stored
    exact ⟨_, before, mainPos_lt filled.positive _⟩
  · intro a
    rw [filled.mem]
    constructor
    · rintro ⟨s, stored⟩
      obtain ⟨next, after⟩ := memory_of_bodyAt (congrFun body a) stored
      exact ⟨_, after⟩
    · rintro ⟨s, stored⟩
      obtain ⟨next, before⟩ := memory_of_bodyAt (congrFun body.symm a) stored
      exact ⟨_, before⟩
  · exact used.trans filled.used

end Resize

/-- The strings have the hashes of their texts, and no two have the same text. -/
structure Distinct (body : Address → Option (List UInt8 × Nat × Nat)) : Prop where
  hashed : ∀ {a x}, body a = some x → x.2.1 = hashBytes x.1
  unique : ∀ {a b x y}, body a = some x → body b = some y → x.1 = y.1 → a = b

section Distinct

variable {body : Address → Option (List UInt8 × Nat × Nat)} {val : List UInt8} {h n : Nat}

theorem Distinct.insert (distinct : Distinct body) (absent : ∀ b x, body b = some x → x.1 ≠ val)
    (a : Address) : Distinct (Function.update body a (some (val, hashBytes val, n))) := by
  constructor
  · intro b x stored
    rw [Function.update_apply] at stored
    split_ifs at stored with here
    · obtain rfl := Option.some.inj stored
      rfl
    · exact distinct.hashed stored
  · intro b c x y first second alike
    rw [Function.update_apply] at first second
    split_ifs at first second with left right right
    · rw [left, right]
    · obtain rfl := Option.some.inj first
      exact absurd alike.symm (absent c y second)
    · obtain rfl := Option.some.inj second
      exact absurd alike (absent b x first)
    · exact distinct.unique first second alike

theorem Distinct.erase (distinct : Distinct body) (a : Address) :
    Distinct (Function.update body a none) := by
  constructor
  · intro b x stored
    rw [Function.update_apply] at stored
    split_ifs at stored
    exact distinct.hashed stored
  · intro b c x y first second alike
    rw [Function.update_apply] at first second
    split_ifs at first second
    exact distinct.unique first second alike

private theorem Distinct.recount (distinct : Distinct body) (stored : body a = some (val, h, n))
    (n' : Nat) :
    Distinct (Function.update body a (some (val, h, n'))) := by
  have alike : ∀ b x, Function.update body a (some (val, h, n')) b = some x →
      ∃ y, body b = some y ∧ x.1 = y.1 ∧ x.2.1 = y.2.1 := by
    intro b x found
    rw [Function.update_apply] at found
    split_ifs at found with here
    · obtain rfl := Option.some.inj found
      exact ⟨(val, h, n), by rw [here, stored], rfl, rfl⟩
    · exact ⟨x, found, rfl, rfl⟩
  constructor
  · intro b x found
    obtain ⟨y, found', text, hash⟩ := alike b x found
    rw [text, hash]
    exact distinct.hashed found'
  · intro b c x y first second same
    obtain ⟨x', first', left, -⟩ := alike b x first
    obtain ⟨y', second', right, -⟩ := alike c y second
    exact distinct.unique first' second' (left ▸ right ▸ same)

end Distinct

/-- The table holds each string once, and is never too crowded. -/
structure Rep (t : SQStringTable) (live : Finset Address) : Prop extends Filled t live where
  room : t.slotUsed ≤ t.numOfSlots
  distinct : Distinct t.bodyAt
  sound : t.failed = false

variable {live : Finset Address}

theorem init_rep : SQStringTable.init.Rep ∅ where
  slots := ⟨2, rfl⟩
  buckets b _ := ⟨[], rfl, by simp [init]⟩
  mem a := by simp [init]
  used := rfl
  room := by simp [init]
  distinct := by constructor <;> simp [init, bodyAt]
  sound := rfl

section Add

theorem Rep.located (rep : t.Rep live) (stored : t.memory a = some s) :
    ∃ x y, Linked t.nexts (t.strings (t.mainPos s.hash)) (x ++ a :: y) ∧
      (x ++ a :: y).length ≤ t.slotUsed ∧
      ∀ c, c ∈ x ++ a :: y ↔ ∃ s', t.memory c = some s' ∧ t.mainPos s'.hash = t.mainPos s.hash := by
  obtain ⟨l, linked, members⟩ := rep.buckets _ (mainPos_lt rep.positive s.hash)
  simp only [true_and] at members
  obtain ⟨x, y, rfl⟩ := List.append_of_mem ((members a).mpr ⟨s, stored, rfl⟩)
  refine ⟨x, y, linked, rep.short linked ?_, members⟩
  intro c member
  obtain ⟨s', stored', -⟩ := (members c).mp member
  exact ⟨s', stored'⟩

private theorem add_of_stored (rep : t.Rep live) (fresh : Address) {news : List UInt8} {len : Int}
    (stored : t.memory a = some s) (same : s.val = textOf news len) :
    t.add fresh news len = (t, a) := by
  obtain ⟨x, y, linked, enough, members⟩ := rep.located stored
  have misses : ∀ c ∈ x,
      decide ((t.memory c).map SQString.val = some (textOf news len)) = false := by
    intro c member
    apply decide_eq_false
    intro equal
    obtain ⟨s', stored', alike⟩ := Option.map_eq_some_iff.mp equal
    obtain rfl := rep.distinct.unique (bodyAt_of_memory stored') (bodyAt_of_memory stored)
      (alike.trans same.symm)
    exact (List.nodup_append.mp (linked_nodup linked)).2.2 c member c List.mem_cons_self rfl
  have hit : decide ((t.memory a).map SQString.val = some (textOf news len)) = true := by
    simp [stored, same]
  have found : search t.nexts _ t.slotUsed none (t.strings (t.mainPos s.hash)) = _ :=
    search_some linked enough misses hit
  have hash : s.hash = hashBytes s.val := rep.distinct.hashed (bodyAt_of_memory stored)
  rw [hash, same] at found
  simp only [add, found]

private theorem link_filled (filled : t.Filled live) (new : t.memory p = none) :
    ({ t.link p s with slotUsed := t.slotUsed + 1 } : SQStringTable).Filled (insert p live) := by
  refine ⟨filled.slots, ?_, ?_, ?_⟩
  · have linked : (t.link p s).Buckets fun a => (∃ s, t.memory a = some s) ∨ a = p := by
      apply Buckets.link
      · intro b below
        obtain ⟨l, linked, members⟩ := filled.buckets b below
        refine ⟨l, linked, fun a => ?_⟩
        rw [members]
        exact and_congr_left fun held => iff_of_true trivial ⟨held.choose, held.choose_spec.1⟩
      · simp [new]
    intro b below
    obtain ⟨l, chain, members⟩ := linked b below
    refine ⟨l, chain, fun a => ?_⟩
    rw [members]
    refine and_congr_left fun held => iff_of_true ?_ trivial
    obtain ⟨x, stored, -⟩ := held
    by_cases equal : a = p
    · exact Or.inr equal
    · rw [link_memory, if_neg equal] at stored
      exact Or.inl ⟨x, stored⟩
  · intro a
    rw [Finset.mem_insert, filled.mem]
    change _ ↔ ∃ x, (t.link p s).memory a = some x
    rw [link_memory]
    by_cases equal : a = p <;> simp [equal]
  · have dead : p ∉ live := by
      rw [filled.mem, new]
      simp
    rw [Finset.card_insert_of_notMem dead]
    exact congrArg (· + 1) filled.used

/-- Where no string has the text, `Add` makes one, and a table that has become too crowded is
doubled. -/
private theorem add_of_absent (rep : t.Rep live) {fresh : Address} {news : List UInt8} {len : Int}
    (new : t.memory fresh = none)
    (absent : ∀ a x, t.bodyAt a = some x → x.1 ≠ textOf news len) :
    (t.add fresh news len).2 = fresh ∧ (t.add fresh news len).1.Rep (insert fresh live) ∧
      (t.add fresh news len).1.bodyAt = Function.update t.bodyAt fresh
        (some (textOf news len, hashBytes (textOf news len), 0)) := by
  have missed : (search t.nexts (fun a => decide ((t.memory a).map SQString.val =
      some (textOf news len))) t.slotUsed none
        (t.strings (t.mainPos (hashBytes (textOf news len))))).1 = none := by
    obtain ⟨l, linked, members⟩ :=
      rep.buckets _ (mainPos_lt rep.positive (hashBytes (textOf news len)))
    refine search_none linked (rep.short linked ?_) ?_
    · intro a member
      obtain ⟨-, s, stored, -⟩ := (members a).mp member
      exact ⟨s, stored⟩
    · intro a member
      obtain ⟨-, s, stored, -⟩ := (members a).mp member
      have other : s.val ≠ textOf news len := absent a _ (bodyAt_of_memory stored)
      simp [stored, other]
  -- The table with the new string, before it is looked at whether it is too crowded.
  obtain ⟨grown, shape⟩ : ∃ t' : SQStringTable, t' =
      { t.link fresh ⟨textOf news len, hashBytes (textOf news len), none, 0⟩ with
        slotUsed := t.slotUsed + 1 } := ⟨_, rfl⟩
  have filled : grown.Filled (insert fresh live) := shape ▸ link_filled rep.toFilled new
  have body : grown.bodyAt = Function.update t.bodyAt fresh
      (some (textOf news len, hashBytes (textOf news len), 0)) := by
    ext1 a
    rw [shape, Function.update_apply]
    change ((t.link _ _).memory a).map _ = _
    rw [link_memory]
    split_ifs <;> rfl
  have distinct : Distinct grown.bodyAt := body ▸ rep.distinct.insert absent fresh
  have slots : grown.numOfSlots = t.numOfSlots := by rw [shape]; rfl
  have used : grown.slotUsed = t.slotUsed + 1 := by rw [shape]
  have failed : grown.failed = false := by rw [shape]; exact rep.sound
  have result : t.add fresh news len =
      (if grown.numOfSlots < grown.slotUsed then grown.resize (grown.numOfSlots * 2) else grown,
        fresh) := by
    rw [shape]
    simp only [add, missed]
  rw [result]
  refine ⟨rfl, ?_⟩
  dsimp only
  split_ifs with crowded
  · have power : ∃ k, grown.numOfSlots * 2 = 2 ^ k := by
      obtain ⟨k, slots⟩ := filled.slots
      exact ⟨k + 1, by rw [slots, Nat.pow_succ]⟩
    obtain ⟨filled', slots', used', failed', body'⟩ := resize_spec filled power
    refine ⟨⟨filled', ?_, body'.symm ▸ distinct, failed'.trans failed⟩, body'.trans body⟩
    have room := rep.room
    have positive := rep.positive
    rw [slots', used', slots, used]
    omega
  · exact ⟨⟨filled, Nat.le_of_not_lt crowded, distinct, failed⟩, body⟩

end Add

section Remove

private def without (pos : Nat) (prev : Option Address) (a : Address) (t : SQStringTable) :
    SQStringTable :=
  { (t.unlink pos prev a).setString a none with slotUsed := t.slotUsed - 1 }

private theorem without_slots (pos : Nat) (prev : Option Address) :
    (t.without pos prev a).numOfSlots = t.numOfSlots ∧
      (t.without pos prev a).failed = t.failed := by
  cases prev <;> exact ⟨rfl, rfl⟩

private theorem without_memory (pos : Nat) (prev : Option Address) (c : Address) :
    (t.without pos prev a).memory c = if c = a then none else if some c = prev then
      (t.memory c).map fun s => { s with next := t.nexts a } else t.memory c := by
  cases prev with
  | none =>
      change Function.update t.memory a none c = _
      rw [Function.update_apply]
      simp
  | some p =>
      change Function.update (Function.update t.memory p _) a none c = _
      rw [Function.update_apply, Function.update_apply]
      by_cases equal : c = p
      · simp [equal]
      · simp [equal]

private theorem without_bodyAt (pos : Nat) (prev : Option Address) :
    (t.without pos prev a).bodyAt = Function.update t.bodyAt a none := by
  ext1 c
  rw [bodyAt, without_memory, Function.update_apply]
  split_ifs
  · rfl
  · rw [Option.map_map]
    rfl
  · rfl

private theorem without_nexts {prev : Option Address} (pos : Nat) {c : Address} (other : c ≠ a)
    (apart : some c ≠ prev) : (t.without pos prev a).nexts c = t.nexts c := by
  rw [nexts, without_memory, if_neg other, if_neg apart, nexts]

private theorem without_own {x y : List Address} {pos : Nat}
    (linked : Linked t.nexts (t.strings pos) (x ++ a :: y))
    (alive : ∀ c ∈ x, ∃ s, t.memory c = some s) :
    Linked (t.without pos x.getLast? a).nexts ((t.without pos x.getLast? a).strings pos)
      (x ++ y) := by
  have off : a ∉ x ++ y := (List.nodup_cons.mp (List.nodup_middle.mp (linked_nodup linked))).1
  rcases List.eq_nil_or_concat x with rfl | ⟨front, p, rfl⟩
  · have head : (t.without pos none a).strings pos = t.nexts a := Function.update_self _ _ _
    have tail : Linked t.nexts (t.nexts a) y := linked.2
    change Linked (t.without pos none a).nexts ((t.without pos none a).strings pos) y
    rw [head]
    apply linked_congr tail
    intro c member
    apply without_nexts pos _ (by simp)
    intro equal
    exact off (equal ▸ member)
  · rw [List.concat_eq_append, List.append_assoc, List.singleton_append] at linked off ⊢
    rw [List.getLast?_concat]
    have head : (t.without pos (some p) a).strings pos = t.strings pos := rfl
    rw [head]
    apply linked_congr (linked_unlink linked)
    intro c member
    have other : c ≠ a := by
      intro equal
      exact off (equal ▸ member)
    rw [Function.update_apply]
    split_ifs with equal
    · obtain ⟨s, stored⟩ := alive p (by simp)
      rw [nexts, without_memory, if_neg other, if_pos (by rw [equal]), equal, stored]
      rfl
    · exact without_nexts pos other (by simpa using equal)

private theorem without_stored (pos : Nat) (prev : Option Address) (c : Address) (P : Nat → Prop) :
    (∃ x, (t.without pos prev a).memory c = some x ∧ P x.hash) ↔
      c ≠ a ∧ ∃ x, t.memory c = some x ∧ P x.hash := by
  rw [without_memory]
  split_ifs with equal
  · simp [equal]
  · cases t.memory c with
    | none => simp
    | some x => simp [equal]
  · simp [equal]

/-- `Remove` takes a string out of the table and frees it, and its assertion does not fail. -/
theorem remove_spec (rep : t.Rep live) (stored : t.memory a = some s) :
    (t.remove a).Rep (live.erase a) ∧ (t.remove a).bodyAt = Function.update t.bodyAt a none := by
  obtain ⟨x, y, linked, enough, members⟩ := rep.located stored
  have off : a ∉ x ++ y := (List.nodup_cons.mp (List.nodup_middle.mp (linked_nodup linked))).1
  have misses : ∀ c ∈ x, decide (c = a) = false := by
    intro c member
    apply decide_eq_false
    intro equal
    exact off (equal ▸ List.mem_append_left y member)
  have found : search t.nexts _ t.slotUsed none (t.strings (t.mainPos s.hash)) = _ :=
    search_some linked enough misses (by simp)
  have result : t.remove a = t.without (t.mainPos s.hash) x.getLast? a := by
    simp only [remove, stored, found, Option.or_none]
    rfl
  have here : a ∈ live := (rep.mem a).mpr ⟨s, stored⟩
  rw [result]
  obtain ⟨slots, failed⟩ := without_slots (t := t) (a := a) (t.mainPos s.hash) x.getLast?
  refine ⟨⟨⟨slots ▸ rep.slots, ?_, ?_, ?_⟩, ?_, ?_, failed.trans rep.sound⟩, without_bodyAt _ _⟩
  · intro b below
    have place : ∀ c, (True ∧ ∃ s', (t.without (t.mainPos s.hash) x.getLast? a).memory c = some s' ∧
        (t.without (t.mainPos s.hash) x.getLast? a).mainPos s'.hash = b) ↔
          c ≠ a ∧ ∃ s', t.memory c = some s' ∧ t.mainPos s'.hash = b := by
      intro c
      have pos : ∀ h, (t.without (t.mainPos s.hash) x.getLast? a).mainPos h = t.mainPos h :=
        fun h => congrArg (fun n => h &&& (n - 1)) slots
      simp only [true_and, pos]
      exact without_stored _ _ c (t.mainPos · = b)
    rw [slots] at below
    by_cases own : b = t.mainPos s.hash
    · subst own
      refine ⟨x ++ y, without_own linked ?_, fun c => ?_⟩
      · intro c member
        obtain ⟨s', stored', -⟩ := (members c).mp (List.mem_append_left _ member)
        exact ⟨s', stored'⟩
      · rw [place, ← members]
        by_cases equal : c = a
        · simpa [equal] using off
        · simp [equal]
    · obtain ⟨l, chain, listed⟩ := rep.buckets b below
      have other : ∀ c ∈ l, c ∉ x ++ a :: y := by
        intro c member inside
        obtain ⟨-, s', stored', pos⟩ := (listed c).mp member
        obtain ⟨s'', stored'', pos'⟩ := (members c).mp inside
        obtain rfl := Option.some.inj (stored'.symm.trans stored'')
        exact own (pos.symm.trans pos')
      have head : (t.without (t.mainPos s.hash) x.getLast? a).strings b = t.strings b := by
        cases x.getLast? with
        | none => exact Function.update_of_ne own _ _
        | some p => rfl
      refine ⟨l, ?_, fun c => ?_⟩
      · rw [head]
        apply linked_congr chain
        intro c member
        apply without_nexts
        · intro equal
          exact other c member (by simp [equal])
        · intro equal
          exact other c member (List.mem_append_left _ (List.mem_of_getLast? equal.symm))
      · rw [place, listed, true_and]
        refine (and_iff_right_of_imp fun held equal => ?_).symm
        obtain ⟨s', stored', pos⟩ := held
        rw [equal, stored] at stored'
        obtain rfl := Option.some.inj stored'
        exact own pos.symm
  · intro c
    have kept := without_stored (t := t) (a := a) (t.mainPos s.hash) x.getLast? c fun _ => True
    simp only [and_true] at kept
    rw [kept, Finset.mem_erase, rep.mem]
  · rw [Finset.card_erase_of_mem here, ← rep.used]
    rfl
  · have room := rep.room
    rw [slots]
    change t.slotUsed - 1 ≤ t.numOfSlots
    omega
  · rw [without_bodyAt]
    exact rep.distinct.erase a

end Remove

section Counts

private theorem recount_spec (rep : t.Rep live) (stored : t.memory a = some s) (n : Nat) :
    (t.setString a (some { s with uiRef := n })).Rep live ∧
      (t.setString a (some { s with uiRef := n })).bodyAt =
        Function.update t.bodyAt a (some (s.val, s.hash, n)) := by
  have memory : ∀ c, (t.setString a (some { s with uiRef := n })).memory c =
      if c = a then some { s with uiRef := n } else t.memory c :=
    fun c => Function.update_apply _ _ _ _
  have body : (t.setString a (some { s with uiRef := n })).bodyAt =
      Function.update t.bodyAt a (some (s.val, s.hash, n)) := by
    ext1 c
    rw [bodyAt, memory, Function.update_apply]
    split_ifs <;> rfl
  have nexts : (t.setString a (some { s with uiRef := n })).nexts = t.nexts := by
    ext1 c
    rw [SQStringTable.nexts, memory]
    split_ifs with equal
    · simp [equal, SQStringTable.nexts, stored]
    · rfl
  have same : ∀ (c : Address) (P : Nat → Prop),
      (∃ x, (t.setString a (some { s with uiRef := n })).memory c = some x ∧ P x.hash) ↔
        ∃ x, t.memory c = some x ∧ P x.hash := by
    intro c P
    rw [memory]
    split_ifs with equal
    · simp [equal, stored]
    · rfl
  refine ⟨⟨⟨rep.slots, ?_, ?_, rep.used⟩, rep.room, ?_, rep.sound⟩, body⟩
  · intro b below
    obtain ⟨l, linked, members⟩ := rep.buckets b below
    refine ⟨l, nexts ▸ linked, fun c => ?_⟩
    rw [members]
    exact and_congr_right fun _ => (same c (t.mainPos · = b)).symm
  · intro c
    have kept := same c fun _ => True
    simp only [and_true] at kept
    rw [kept, rep.mem]
  · rw [body]
    exact rep.distinct.recount (bodyAt_of_memory stored) n

theorem addRef_spec (rep : t.Rep live) (stored : t.memory a = some s) :
    (t.addRef a).Rep live ∧
      (t.addRef a).bodyAt = Function.update t.bodyAt a (some (s.val, s.hash, s.uiRef + 1)) := by
  rw [addRef, stored]
  exact recount_spec rep stored (s.uiRef + 1)

theorem release_spec (rep : t.Rep live) (stored : t.memory a = some s) :
    (∃ live', (t.release a).Rep live') ∧
      (t.release a).bodyAt = Function.update t.bodyAt a
        (if s.uiRef - 1 = 0 then none else some (s.val, s.hash, s.uiRef - 1)) := by
  obtain ⟨rep', body⟩ := recount_spec rep stored (s.uiRef - 1)
  simp only [release, stored]
  split_ifs with last
  · obtain ⟨rep'', body'⟩ := remove_spec rep' (Function.update_self a _ _)
    refine ⟨⟨_, rep''⟩, ?_⟩
    rw [body', body, Function.update_idem]
  · exact ⟨⟨_, rep'⟩, body⟩

end Counts

end SQStringTable

namespace StringUse

open SQStringTable Lib.Runs

def Allocates (u : StringUse) : StringOp → Prop
  | .create fresh _ _ => u.table.memory fresh = none
  | _ => True

instance (u : StringUse) (op : StringOp) : Decidable (u.Allocates op) :=
  match op with
  | .create fresh _ _ => inferInstanceAs (Decidable (u.table.memory fresh = none))
  | .copy _ => isTrue trivial
  | .destroy _ => isTrue trivial

/-- The table holds the strings that have handles, and counts the handles. -/
structure Interned (u : StringUse) : Prop where
  rep : ∃ live, u.table.Rep live
  held : ∀ h ∈ u.handles, ∃ x, u.table.bodyAt h.address = some x ∧ x.1 = h.text
  counted : ∀ a x, u.table.bodyAt a = some x →
    x.2.2 = (u.handles.map StringHandle.address).count a ∧ 0 < x.2.2

variable {u : StringUse}

private theorem stored_of_bodyAt {t : SQStringTable} {a : Address} {x : List UInt8 × Nat × Nat}
    (body : t.bodyAt a = some x) : ∃ s, t.memory a = some s ∧ x = (s.val, s.hash, s.uiRef) := by
  obtain ⟨s, stored, equal⟩ := Option.map_eq_some_iff.mp body
  exact ⟨s, stored, equal.symm⟩

private theorem interned_addRef (h : StringHandle) {t : SQStringTable} {live : Finset Address}
    {s : SQString}
    (rep : t.Rep live) (stored : t.memory h.address = some s) (text : s.val = h.text)
    (held : ∀ h' ∈ u.handles, ∃ x, t.bodyAt h'.address = some x ∧ x.1 = h'.text)
    (counted : ∀ a x, t.bodyAt a = some x →
      x.2.2 = (u.handles.map StringHandle.address).count a ∧ (a ≠ h.address → 0 < x.2.2)) :
    Interned ⟨t.addRef h.address, h :: u.handles⟩ := by
  obtain ⟨rep', body⟩ := addRef_spec rep stored
  refine ⟨⟨live, rep'⟩, ?_, ?_⟩
  · intro h' member
    change ∃ x, (t.addRef h.address).bodyAt h'.address = some x ∧ _
    rw [body, Function.update_apply]
    split_ifs with equal
    · refine ⟨_, rfl, ?_⟩
      rcases List.mem_cons.mp member with rfl | member
      · exact text
      · obtain ⟨x, before, same⟩ := held h' member
        rw [equal, bodyAt_of_memory stored] at before
        obtain rfl := Option.some.inj before
        exact same
    · rcases List.mem_cons.mp member with rfl | member
      · exact absurd rfl equal
      · exact held h' member
  · intro a x after
    change (t.addRef h.address).bodyAt a = some x at after
    rw [body, Function.update_apply] at after
    rw [List.map_cons, List.count_cons]
    split_ifs at after with equal
    · obtain rfl := Option.some.inj after
      have before := (counted _ _ (bodyAt_of_memory stored)).1
      dsimp only at before ⊢
      simp only [equal, beq_self_eq_true, if_true]
      omega
    · obtain ⟨count, positive⟩ := counted a x after
      simp only [beq_iff_eq, Ne.symm equal, if_false]
      exact ⟨count, positive equal⟩

theorem Interned.create (interned : Interned u) {fresh : Address} (news : List UInt8) (len : Int)
    (new : u.table.memory fresh = none) : Interned (u.step (.create fresh news len)).1 := by
  obtain ⟨live, rep⟩ := interned.rep
  by_cases known : ∃ a x, u.table.bodyAt a = some x ∧ x.1 = textOf news len
  · obtain ⟨a, x, body, same⟩ := known
    obtain ⟨s, stored, rfl⟩ := stored_of_bodyAt body
    simp only [step, add_of_stored rep fresh stored same]
    refine interned_addRef ⟨a, textOf news len⟩ rep stored same interned.held fun b x before => ?_
    exact ⟨(interned.counted b x before).1, fun _ => (interned.counted b x before).2⟩
  · obtain ⟨place, rep', body⟩ := add_of_absent rep new fun a x stored same =>
      known ⟨a, x, stored, same⟩
    have unheld : fresh ∉ u.handles.map StringHandle.address := by
      intro member
      obtain ⟨h, inside, rfl⟩ := List.mem_map.mp member
      obtain ⟨x, stored, -⟩ := interned.held h inside
      simp [bodyAt, new] at stored
    obtain ⟨s, stored, equal⟩ := stored_of_bodyAt
      ((congrFun body fresh).trans (Function.update_self fresh _ _))
    simp only [step, place]
    refine interned_addRef ⟨fresh, textOf news len⟩ rep' stored (congrArg Prod.fst equal).symm ?_ ?_
    · intro h' member
      obtain ⟨x, before, same⟩ := interned.held h' member
      refine ⟨x, ?_, same⟩
      rw [body, Function.update_of_ne _ _ _, before]
      intro equal
      exact unheld (List.mem_map.mpr ⟨h', member, equal⟩)
    · intro a x after
      rw [body, Function.update_apply] at after
      split_ifs at after with here
      · obtain rfl := Option.some.inj after
        refine ⟨?_, fun apart => absurd here apart⟩
        rw [here]
        exact (List.count_eq_zero.mpr unheld).symm
      · obtain ⟨count, positive⟩ := interned.counted a x after
        exact ⟨count, fun _ => positive⟩

theorem Interned.copy (interned : Interned u) (i : Nat) : Interned (u.step (.copy i)).1 := by
  obtain ⟨live, rep⟩ := interned.rep
  cases at_i : u.handles[i]? with
  | none =>
      simp only [step, at_i]
      exact interned
  | some h =>
      simp only [step, at_i]
      obtain ⟨x, body, same⟩ := interned.held h (List.mem_of_getElem? at_i)
      obtain ⟨s, stored, rfl⟩ := stored_of_bodyAt body
      refine interned_addRef h rep stored same interned.held fun b x before => ?_
      exact ⟨(interned.counted b x before).1, fun _ => (interned.counted b x before).2⟩

theorem Interned.destroy (interned : Interned u) (i : Nat) : Interned (u.step (.destroy i)).1 := by
  obtain ⟨live, rep⟩ := interned.rep
  cases at_i : u.handles[i]? with
  | none =>
      simp only [step, at_i]
      exact interned
  | some h =>
      simp only [step, at_i]
      obtain ⟨x, before, same⟩ := interned.held h (List.mem_of_getElem? at_i)
      obtain ⟨s, stored, rfl⟩ := stored_of_bodyAt before
      obtain ⟨rep', body⟩ := release_spec rep stored
      obtain ⟨count, positive⟩ := interned.counted _ _ before
      have split : ∀ a, (u.handles.map StringHandle.address).count a =
          ((u.handles.eraseIdx i).map StringHandle.address).count a +
            if h.address = a then 1 else 0 := by
        intro a
        obtain ⟨below, rfl⟩ := List.getElem?_eq_some_iff.mp at_i
        have order := (List.getElem_cons_eraseIdx_perm below).map StringHandle.address
        rw [← order.count_eq, List.map_cons, List.count_cons]
        simp
      refine ⟨rep', ?_, ?_⟩
      · intro h' member
        have inside : h' ∈ u.handles := List.mem_of_mem_eraseIdx member
        change ∃ x, (u.table.release h.address).bodyAt h'.address = some x ∧ _
        rw [body, Function.update_apply]
        split_ifs with equal last
        · -- The last handle on the string cannot be another one.
          have only := split h.address
          have positive' : 0 < ((u.handles.eraseIdx i).map StringHandle.address).count h.address :=
            List.count_pos_iff.mpr (List.mem_map.mpr ⟨h', member, equal⟩)
          rw [if_pos rfl] at only
          dsimp only at count positive
          omega
        · obtain ⟨x, before', same'⟩ := interned.held h' inside
          rw [equal, before] at before'
          obtain rfl := Option.some.inj before'
          exact ⟨_, rfl, same'⟩
        · exact interned.held h' inside
      · intro a x after
        change (u.table.release h.address).bodyAt a = some x at after
        rw [body, Function.update_apply] at after
        have split' := split a
        dsimp only at count positive ⊢
        split_ifs at after with equal last
        · obtain rfl := Option.some.inj after
          rw [if_pos equal.symm, equal] at split'
          rw [equal]
          dsimp only
          omega
        · obtain ⟨count', positive'⟩ := interned.counted a x after
          rw [if_neg (Ne.symm equal)] at split'
          exact ⟨by omega, positive'⟩

theorem Interned.step (interned : Interned u) (op : StringOp) (allocates : u.Allocates op) :
    Interned (u.step op).1 := by
  cases op with
  | create fresh news len => exact interned.create news len allocates
  | copy i => exact interned.copy i
  | destroy i => exact interned.destroy i

theorem Interned.final (interned : Interned u) {ops : List StringOp}
    (allocates : Along StringUse.step Allocates u ops) :
    Interned (Lib.Runs.final StringUse.step u ops) := by
  induction ops generalizing u with
  | nil => exact interned
  | cons op ops ih => exact ih (interned.step op allocates.1) allocates.2

private theorem init_interned : Interned init where
  rep := ⟨∅, init_rep⟩
  held h member := by simp [init] at member
  counted a x stored := by simp [init, SQStringTable.init, bodyAt] at stored

private theorem Interned.alive_iff (interned : Interned u) (a : Address) :
    (u.table.bodyAt a).isSome ↔ a ∈ u.handles.map StringHandle.address := by
  constructor
  · intro alive
    obtain ⟨x, stored⟩ := Option.isSome_iff_exists.mp alive
    obtain ⟨count, positive⟩ := interned.counted a x stored
    rw [← List.count_pos_iff]
    omega
  · intro member
    obtain ⟨h, inside, rfl⟩ := List.mem_map.mp member
    obtain ⟨x, stored, -⟩ := interned.held h inside
    rw [stored]
    rfl

theorem Interned.used (interned : Interned u) :
    u.table.slotUsed = (u.handles.map StringHandle.text).dedup.length := by
  obtain ⟨live, rep⟩ := interned.rep
  obtain ⟨textAt, define⟩ : ∃ f : Address → List UInt8,
      f = fun a => ((u.table.bodyAt a).map Prod.fst).getD [] := ⟨_, rfl⟩
  have alive : ∀ a ∈ live, ∃ x, u.table.bodyAt a = some x := by
    intro a member
    obtain ⟨s, stored⟩ := (rep.mem a).mp member
    exact ⟨_, bodyAt_of_memory stored⟩
  have image : live.image textAt = (u.handles.map StringHandle.text).toFinset := by
    ext text
    simp only [Finset.mem_image, List.mem_toFinset, List.mem_map]
    constructor
    · rintro ⟨a, member, rfl⟩
      obtain ⟨x, stored⟩ := alive a member
      have listed := (interned.alive_iff a).mp (by simp [stored])
      obtain ⟨h, inside, rfl⟩ := List.mem_map.mp listed
      obtain ⟨y, stored', same⟩ := interned.held h inside
      exact ⟨h, inside, by simp [define, stored', same]⟩
    · rintro ⟨h, inside, rfl⟩
      obtain ⟨x, stored, same⟩ := interned.held h inside
      obtain ⟨s, inMemory, -⟩ := stored_of_bodyAt stored
      exact ⟨h.address, (rep.mem _).mpr ⟨s, inMemory⟩, by simp [define, stored, same]⟩
  rw [rep.used, ← List.card_toFinset, ← image]
  symm
  apply Finset.card_image_of_injOn
  intro a member b member' equal
  obtain ⟨x, stored⟩ := alive a member
  obtain ⟨y, stored'⟩ := alive b member'
  exact rep.distinct.unique stored stored' (by simpa [define, stored, stored'] using equal)

/-- Over any use of handles, two of them are the same pointer exactly when they were made for the
same text; each still points to its text, a string is in memory exactly as long as there are handles
on it, the table counts them and the strings, and is never too crowded. -/
theorem strings_interned (ops : List StringOp)
    (allocates : Along StringUse.step Allocates init ops) :
    let u := Lib.Runs.final StringUse.step init ops
    (∀ h ∈ u.handles, ∀ h' ∈ u.handles, h.address = h'.address ↔ h.text = h'.text) ∧
      (∀ h ∈ u.handles, (u.table.memory h.address).map SQString.val = some h.text) ∧
      (∀ a, (u.table.memory a).isSome ↔ a ∈ u.handles.map StringHandle.address) ∧
      (∀ a s, u.table.memory a = some s →
        s.uiRef = (u.handles.map StringHandle.address).count a) ∧
      u.table.slotUsed = (u.handles.map StringHandle.text).dedup.length ∧
      u.table.slotUsed ≤ u.table.numOfSlots ∧ u.table.failed = false := by
  intro u
  have interned : Interned u := init_interned.final allocates
  obtain ⟨live, rep⟩ := interned.rep
  refine ⟨?_, ?_, ?_, ?_, interned.used, rep.room, rep.sound⟩
  · intro h member h' member'
    obtain ⟨x, stored, same⟩ := interned.held h member
    obtain ⟨y, stored', same'⟩ := interned.held h' member'
    constructor
    · intro equal
      rw [equal, stored'] at stored
      obtain rfl := Option.some.inj stored
      exact same.symm.trans same'
    · intro equal
      exact rep.distinct.unique stored stored' (by rw [same, same', equal])
  · intro h member
    obtain ⟨x, stored, same⟩ := interned.held h member
    obtain ⟨s, inMemory, rfl⟩ := stored_of_bodyAt stored
    rw [inMemory]
    exact congrArg some same
  · intro a
    rw [← interned.alive_iff, bodyAt, Option.isSome_map]
  · intro a s stored
    exact (interned.counted a _ (bodyAt_of_memory stored)).1

def sampleUse : List StringOp :=
  [.create 10 [97] (-1), .create 11 [98, 0, 99] 3, .create 12 [] (-1), .create 13 [97, 0] (-1),
    .create 13 [101] 1, .create 14 [102] 1, .create 15 [103, 104, 105] 2, .copy 0, .destroy 7,
    .destroy 4]

theorem strings_interned_sample :
    (Lib.Runs.outputs StringUse.step init sampleUse).take 4 =
        [some 10, some 11, some 12, some 10] ∧
      (Lib.Runs.final StringUse.step init sampleUse).table.numOfSlots = 8 ∧
      (Lib.Runs.final StringUse.step init sampleUse).table.failed = false := by
  have fresh : Along StringUse.step Allocates init sampleUse := by
    simp only [sampleUse, along_cons, along_nil, and_true]
    decide +kernel
  exact ⟨by decide +kernel, by decide +kernel, (strings_interned sampleUse fresh).2.2.2.2.2.2⟩

end StringUse

end SquirrelGObject.Engine
