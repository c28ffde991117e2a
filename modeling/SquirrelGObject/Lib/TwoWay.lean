/- SquirrelGObject/Lib/TwoWay
   digest: Doubly linked chains: which list a chain spells, adding in front and taking a node out. -/

import Mathlib.Data.List.Nodup
import Mathlib.Logic.Function.Basic

set_option autoImplicit false
set_option relaxedAutoImplicit false

namespace SquirrelGObject.Lib.TwoWay

variable {κ : Type*}

structure Links (κ : Type*) where
  next : κ → Option κ
  prev : κ → Option κ

namespace Links

variable [DecidableEq κ]

def setNext (links : Links κ) (i : κ) (target : Option κ) : Links κ :=
  { links with next := Function.update links.next i target }

def setPrev (links : Links κ) (i : κ) (target : Option κ) : Links κ :=
  { links with prev := Function.update links.prev i target }

@[simp] theorem setNext_next (links : Links κ) (i j : κ) (target : Option κ) :
    (links.setNext i target).next j = if j = i then target else links.next j :=
  Function.update_apply _ _ _ _

@[simp] theorem setNext_prev (links : Links κ) (i : κ) (target : Option κ) :
    (links.setNext i target).prev = links.prev := rfl

@[simp] theorem setPrev_next (links : Links κ) (i : κ) (target : Option κ) :
    (links.setPrev i target).next = links.next := rfl

@[simp] theorem setPrev_prev (links : Links κ) (i j : κ) (target : Option κ) :
    (links.setPrev i target).prev j = if j = i then target else links.prev j :=
  Function.update_apply _ _ _ _

end Links

/-- From the head, the links spell the list: every node points at its neighbours in the list. -/
structure Chained (links : Links κ) (head : Option κ) (l : List κ) : Prop where
  nodup : l.Nodup
  first : head = l.head?
  next : ∀ a i b, l = a ++ i :: b → links.next i = b.head?
  prev : ∀ a i b, l = a ++ i :: b → links.prev i = a.getLast?

variable {links links' : Links κ} {head : Option κ} {l : List κ}

theorem Chained.congr (chained : Chained links head l)
    (same : ∀ i ∈ l, links'.next i = links.next i ∧ links'.prev i = links.prev i) :
    Chained links' head l := by
  refine ⟨chained.nodup, chained.first, ?_, ?_⟩
  · intro a i b split
    rw [(same i (by simp [split])).1]
    exact chained.next a i b split
  · intro a i b split
    rw [(same i (by simp [split])).2]
    exact chained.prev a i b split

theorem chained_nil : Chained links none ([] : List κ) := by
  refine ⟨List.nodup_nil, rfl, ?_, ?_⟩ <;> intro a i b split <;> simp at split

variable {a b : List κ} {c i : κ}

private theorem self_apart (chained : Chained links head (a ++ c :: b)) :
    links.prev c ≠ some c := by
  rw [chained.prev a c b rfl]
  intro equal
  have nodup := List.nodup_middle.mp chained.nodup
  exact (List.nodup_cons.mp nodup).1 (List.mem_append_left b (List.mem_of_getLast? equal))

private theorem split_cases {a' b' : List κ} (split : a ++ b = a' ++ i :: b') :
    (∃ m, a' = a ++ m ∧ b = m ++ i :: b') ∨ ∃ m, a = a' ++ i :: m ∧ b' = m ++ b := by
  rcases List.append_eq_append_iff.mp split with ⟨m, before, after⟩ | ⟨m, before, after⟩
  · exact Or.inl ⟨m, before, after⟩
  · cases m with
    | nil =>
        refine Or.inl ⟨[], ?_, ?_⟩
        · simpa using before.symm
        · simpa using after.symm
    | cons k m =>
        obtain ⟨rfl, rfl⟩ : i = k ∧ b' = m ++ b := by simpa using after
        exact Or.inr ⟨m, before, rfl⟩

section Change

variable [DecidableEq κ]

def addFirst (c : κ) (links : Links κ) (head : Option κ) : Links κ × Option κ :=
  let links := (links.setPrev c none).setNext c head
  match head with
  | some first => (links.setPrev first (some c), some c)
  | none => (links, some c)

def unlink (c : κ) (links : Links κ) (head : Option κ) : Links κ × Option κ :=
  let cut : Links κ × Option κ := match links.prev c with
    | some before => (links.setNext before (links.next c), head)
    | none => (links, links.next c)
  let joined := match cut.1.next c with
    | some after => cut.1.setPrev after (cut.1.prev c)
    | none => cut.1
  ((joined.setNext c none).setPrev c none, cut.2)

@[simp] theorem addFirst_head : (addFirst c links head).2 = some c := by
  cases head <;> rfl

private theorem addFirst_next :
    (addFirst c links head).1.next i = if i = c then head else links.next i := by
  cases head <;> simp [addFirst]

private theorem addFirst_prev (fresh : head ≠ some c) :
    (addFirst c links head).1.prev i =
      if i = c then none else if head = some i then some c else links.prev i := by
  cases head with
  | none => simp [addFirst]
  | some first =>
      have apart : c ≠ first := fun equal => fresh (by rw [equal])
      simp only [addFirst, Links.setPrev_prev, Links.setNext_prev, Option.some.injEq]
      grind

theorem Chained.addFirst (chained : Chained links head l) (fresh : c ∉ l) :
    Chained (addFirst c links head).1 (addFirst c links head).2 (c :: l) := by
  have away : head ≠ some c := by
    intro equal
    rw [chained.first] at equal
    exact fresh (List.mem_of_mem_head? equal)
  refine ⟨List.nodup_cons.mpr ⟨fresh, chained.nodup⟩, addFirst_head, ?_, ?_⟩
  · intro a i b split
    rw [addFirst_next]
    cases a with
    | nil =>
        obtain ⟨rfl, rfl⟩ : c = i ∧ l = b := by simpa using split
        rw [if_pos rfl, chained.first]
    | cons j a =>
        obtain ⟨rfl, rest⟩ : c = j ∧ l = a ++ i :: b := by simpa using split
        have other : i ≠ c := by
          intro equal
          exact fresh (by simp [rest, equal])
        rw [if_neg other]
        exact chained.next a i b rest
  · intro a i b split
    rw [addFirst_prev away]
    cases a with
    | nil =>
        obtain ⟨rfl, rfl⟩ : c = i ∧ l = b := by simpa using split
        rw [if_pos rfl]
        rfl
    | cons j a =>
        obtain ⟨rfl, rest⟩ : c = j ∧ l = a ++ i :: b := by simpa using split
        have other : i ≠ c := by
          intro equal
          exact fresh (by simp [rest, equal])
        rw [if_neg other, chained.first, rest]
        cases a with
        | nil => simp
        | cons k a =>
            have apart : k ≠ i := by
              intro equal
              have nodup := chained.nodup
              simp [rest, equal] at nodup
            rw [if_neg (by simpa using apart), chained.prev _ i b rest]
            simp [List.getLast?_cons]

theorem Chained.addFirst_other {head' : Option κ} {l' : List κ} (chained : Chained links head l)
    (chained' : Chained links head' l') (fresh : c ∉ l) (fresh' : c ∉ l')
    (apart : ∀ j ∈ l', j ∉ l) : Chained (TwoWay.addFirst c links head).1 head' l' := by
  have away : head ≠ some c := by
    intro equal
    rw [chained.first] at equal
    exact fresh (List.mem_of_mem_head? equal)
  refine chained'.congr fun j member => ⟨?_, ?_⟩
  · rw [addFirst_next, if_neg (by rintro rfl; exact fresh' member)]
  · rw [addFirst_prev away, if_neg (by rintro rfl; exact fresh' member), if_neg]
    rw [chained.first]
    exact fun first => apart j member (List.mem_of_mem_head? first)

private theorem unlink_next (apart : links.prev c ≠ some c) :
    (unlink c links head).1.next i =
      if i = c then none else if links.prev c = some i then links.next c else links.next i := by
  unfold unlink
  cases before : links.prev c with
  | none =>
      cases after : links.next c <;> simp [after]
  | some p =>
      have away : c ≠ p := by
        rintro rfl
        exact apart before
      cases after : links.next c <;> simp [after, away] <;> grind

private theorem unlink_prev (apart : links.prev c ≠ some c) :
    (unlink c links head).1.prev i =
      if i = c then none else if links.next c = some i then links.prev c else links.prev i := by
  unfold unlink
  cases before : links.prev c with
  | none =>
      cases after : links.next c
      · simp [after]
      · simp [after, before]
        grind
  | some p =>
      have away : c ≠ p := by
        rintro rfl
        exact apart before
      cases after : links.next c
      · simp [after, away]
      · simp [after, before, away]
        grind

private theorem unlink_head :
    (unlink c links head).2 = if links.prev c = none then links.next c else head := by
  unfold unlink
  cases links.prev c <;> simp

theorem Chained.unlink (chained : Chained links head (a ++ c :: b)) :
    Chained (TwoWay.unlink c links head).1 (TwoWay.unlink c links head).2 (a ++ b) := by
  have apart := self_apart chained
  obtain ⟨fresh, nodup⟩ := List.nodup_cons.mp (List.nodup_middle.mp chained.nodup)
  have before := chained.prev a c b rfl
  have after := chained.next a c b rfl
  have disjoint : ∀ i ∈ a, i ∉ b := fun i left right =>
    (List.nodup_append.mp nodup).2.2 i left i right rfl
  refine ⟨nodup, ?_, ?_, ?_⟩
  · rw [unlink_head, before, after, chained.first]
    cases a <;> simp
  · intro a' i b' split
    have other : i ≠ c := by
      intro equal
      exact fresh (by simp [split, equal])
    rw [unlink_next apart, if_neg other, before, after]
    obtain ⟨m, rfl, rfl⟩ | ⟨m, rfl, rfl⟩ := split_cases split
    · rw [if_neg, chained.next (a ++ c :: m) i b' (by simp)]
      intro last
      exact disjoint i (List.mem_of_getLast? last) (by simp)
    · rw [chained.next a' i (m ++ c :: b) (by simp)]
      cases m with
      | nil => simp
      | cons k m =>
          rw [if_neg]
          · simp
          · -- A node with a successor in front of the gap is not the last one there.
            intro last
            have behind : i ∈ k :: m := by
              apply List.mem_of_getLast?
              simpa [List.getLast?_append, List.getLast?_cons] using last
            have twice := (List.nodup_append.mp (List.nodup_append.mp nodup).1).2.1
            exact (List.nodup_cons.mp twice).1 behind
  · intro a' i b' split
    have other : i ≠ c := by
      intro equal
      exact fresh (by simp [split, equal])
    rw [unlink_prev apart, if_neg other, before, after]
    obtain ⟨m, rfl, rfl⟩ | ⟨m, rfl, rfl⟩ := split_cases split
    · rw [chained.prev (a ++ c :: m) i b' (by simp)]
      cases m with
      | nil => simp
      | cons k m =>
          rw [if_neg]
          · simp [List.getLast?_append, List.getLast?_cons]
          · intro first
            obtain rfl : k = i := by simpa using first
            have twice := (List.nodup_append.mp nodup).2.1
            exact (List.nodup_cons.mp twice).1 (by simp)
    · rw [if_neg, chained.prev a' i (m ++ c :: b) (by simp)]
      intro first
      exact disjoint i (by simp) (List.mem_of_mem_head? first)

theorem Chained.unlink_other {head' : Option κ} {l' : List κ}
    (chained : Chained links head (a ++ c :: b)) (chained' : Chained links head' l')
    (apart : ∀ j ∈ l', j ∉ a ++ c :: b) : Chained (TwoWay.unlink c links head).1 head' l' := by
  have self := self_apart chained
  refine chained'.congr fun j member => ?_
  have other : j ≠ c := by
    intro equal
    exact apart j member (by simp [equal])
  constructor
  · rw [unlink_next self, if_neg other, if_neg]
    rw [chained.prev a c b rfl]
    exact fun last => apart j member (by simp [List.mem_of_getLast? last])
  · rw [unlink_prev self, if_neg other, if_neg]
    rw [chained.next a c b rfl]
    exact fun first => apart j member (by simp [List.mem_of_mem_head? first])

theorem Chained.erase (chained : Chained links head l) (member : c ∈ l) :
    Chained (TwoWay.unlink c links head).1 (TwoWay.unlink c links head).2 (l.erase c) := by
  obtain ⟨a, b, rfl⟩ := List.append_of_mem member
  have fresh := (List.nodup_cons.mp (List.nodup_middle.mp chained.nodup)).1
  rw [List.erase_append_right _ fun inside => fresh (List.mem_append_left b inside),
    List.erase_cons_head]
  exact chained.unlink

theorem Chained.erase_other {head' : Option κ} {l' : List κ} (chained : Chained links head l)
    (member : c ∈ l) (chained' : Chained links head' l') (apart : ∀ j ∈ l', j ∉ l) :
    Chained (TwoWay.unlink c links head).1 head' l' := by
  obtain ⟨a, b, rfl⟩ := List.append_of_mem member
  exact chained.unlink_other chained' apart

theorem Chained.join {last first : κ} (chained : Chained links head (a ++ [last]))
    (chained' : Chained links (some first) (first :: b))
    (apart : ∀ j ∈ first :: b, j ∉ a ++ [last]) :
    Chained ((links.setNext last (some first)).setPrev first (some last)) head
      (a ++ [last] ++ first :: b) := by
  have nodup : (a ++ [last] ++ first :: b).Nodup := by
    refine List.nodup_append.mpr ⟨chained.nodup, chained'.nodup, ?_⟩
    intro j left k right equal
    exact apart k right (equal ▸ left)
  refine ⟨nodup, ?_, ?_, ?_⟩
  · rw [chained.first]
    cases a <;> rfl
  · intro a' i b' split
    rw [Links.setPrev_next, Links.setNext_next]
    obtain ⟨m, rfl, right⟩ | ⟨m, left, rfl⟩ := split_cases split
    · rw [if_neg]
      · exact chained'.next m i b' right
      · intro equal
        exact apart i (by simp [right]) (by simp [equal])
    · rcases List.eq_nil_or_concat m with rfl | ⟨m, k, rfl⟩
      · obtain ⟨-, rfl⟩ : a = a' ∧ last = i := by simpa using left
        rw [if_pos rfl]
        rfl
      · rw [if_neg, chained.next a' i (m.concat k) left]
        · cases m <;> simp
        · intro equal
          have ends : last = k := by
            have both := congrArg List.getLast? left
            simpa [List.getLast?_append, List.getLast?_cons] using both
          have twice := chained.nodup
          rw [left, equal, ends] at twice
          simp [List.nodup_append] at twice
  · intro a' i b' split
    rw [Links.setPrev_prev, Links.setNext_prev]
    obtain ⟨m, rfl, right⟩ | ⟨m, left, rfl⟩ := split_cases split
    · cases m with
      | nil =>
          obtain ⟨rfl, -⟩ : first = i ∧ b = b' := by simpa using right
          simp
      | cons k m =>
          obtain ⟨rfl, rest⟩ : first = k ∧ b = m ++ i :: b' := by simpa using right
          rw [if_neg, chained'.prev (first :: m) i b' right]
          · simp [List.getLast?_append, List.getLast?_cons]
          · intro equal
            have twice := chained'.nodup
            simp [rest, equal] at twice
    · rw [if_neg, chained.prev a' i m left]
      intro equal
      exact apart first (by simp) (by simp [left, equal])

def ofList : List κ → Links κ × Option κ
  | [] => (⟨fun _ => none, fun _ => none⟩, none)
  | c :: l => addFirst c (ofList l).1 (ofList l).2

theorem chained_ofList (nodup : l.Nodup) : Chained (ofList l).1 (ofList l).2 l := by
  induction l with
  | nil => exact chained_nil
  | cons c l ih =>
      obtain ⟨fresh, rest⟩ := List.nodup_cons.mp nodup
      exact (ih rest).addFirst fresh

end Change

end SquirrelGObject.Lib.TwoWay
