/- SquirrelGObject/Engine/OutersSpec
   digest: Outers on the stack and closed ones together behave as one cell for each variable. -/

import Mathlib.Data.List.Perm.Basic
import SquirrelGObject.Engine.Outers

set_option autoImplicit false
set_option relaxedAutoImplicit false

namespace SquirrelGObject.Engine

open Lib.Chain

variable {α : Type}

/-- What the language means by its variables: a slot holds one variable after the other, and each of
them is a cell of its own. Closures capture cells. -/
structure Variables (α : Type) where
  cell : Nat → Nat → α
  epoch : Nat → Nat
  captured : List (Nat × Nat)

namespace Variables

def init (null : α) : Variables α := ⟨fun _ _ => null, fun _ => 0, []⟩

def current (v : Variables α) (i : Nat) : α := v.cell i (v.epoch i)

def assign (i e : Nat) (x : α) (v : Variables α) : Variables α :=
  { v with cell := Function.update v.cell i (Function.update (v.cell i) e x) }

/-- The variables from a slot on end: what is in their slots next are other variables, which begin
with the same values. -/
def detach (k : Nat) (v : Variables α) : Variables α :=
  { v with
    cell := fun i e => if k ≤ i ∧ e = v.epoch i + 1 then v.current i else v.cell i e
    epoch := fun i => if k ≤ i then v.epoch i + 1 else v.epoch i }

def nullSlots (null : α) (top lastTop : Nat) (v : Variables α) : Variables α :=
  { v with
    cell := fun i e => if (top ≤ i ∧ i ≤ lastTop) ∧ e = v.epoch i then null else v.cell i e }

def step (null : α) (v : Variables α) : OuterOp α → Variables α × Option α
  | .read i => (v, some (v.current i))
  | .write i x => (v.assign i (v.epoch i) x, none)
  | .capture i _ => ({ v with captured := v.captured ++ [(i, v.epoch i)] }, none)
  | .getOuter k =>
      match v.captured[k]? with
      | none => (v, none)
      | some c => (v, some (v.cell c.1 c.2))
  | .setOuter k x =>
      match v.captured[k]? with
      | none => (v, none)
      | some c => (v.assign c.1 c.2 x, none)
  | .close i => (v.detach i, none)
  | .enterFrame _ _ => (v, none)
  | .reserveStack _ _ _ => (v, none)
  | .leaveFrame lastBase top lastTop => ((v.detach lastBase).nullSlots null top lastTop, none)
  | .catchError extarget stacksize lastTop error =>
      let v := v.detach extarget
      ((v.assign extarget (v.epoch extarget) error).nullSlots null stacksize lastTop, none)

variable {v : Variables α} {i e j e' : Nat}

@[simp] theorem assign_self (x : α) : (v.assign i e x).cell i e = x := by
  simp [assign]

theorem assign_of_ne (x : α) (other : (j, e') ≠ (i, e)) :
    (v.assign i e x).cell j e' = v.cell j e' := by
  simp only [assign, Function.update_apply]
  split_ifs with slot
  · subst slot
    rw [Function.update_of_ne]
    intro same
    exact other (by rw [same])
  · rfl

end Variables

namespace OuterStack

/-- The stack and the outers hold the cells: an open outer is the variable in its slot, a closed one
a variable of the past. The open outers are listed from the top of the stack down. -/
structure Shares (null : α) (t : OuterStack α) (v : Variables α) (l : List Address)
    (φ : Address → Nat × Nat) : Prop where
  chain : Linked t.nexts t.openOuters l
  opened : ∀ a ∈ l, ∃ o, t.outers a = some o ∧ o.valptr = .stack t.allocation o.idx ∧
    o.idx < t.size ∧ φ a = (o.idx, v.epoch o.idx)
  order : l.Pairwise fun a b => (φ b).1 < (φ a).1
  closed : ∀ a o, t.outers a = some o → a ∉ l →
    o.valptr = .own ∧ o.value = v.cell (φ a).1 (φ a).2 ∧ (φ a).2 < v.epoch (φ a).1
  injective : ∀ a b, (t.outers a).isSome → (t.outers b).isSome → φ a = φ b → a = b
  slots : ∀ i < t.size, t.vals i = v.current i
  above : ∀ i, t.size ≤ i → v.current i = null
  fits : t.size ≤ t.allocated
  safe : t.dangling = false

variable {null : α} {t : OuterStack α} {v : Variables α} {l : List Address}
  {φ : Address → Nat × Nat} {a : Address}

theorem init_shares (null : α) (size : Nat) (φ : Address → Nat × Nat) :
    Shares null (init null size) (Variables.init null) [] φ where
  chain := rfl
  opened a member := by simp at member
  order := List.Pairwise.nil
  closed a o stored := by simp [init] at stored
  injective a b stored := by simp [init] at stored
  slots i _ := rfl
  above i _ := rfl
  fits := Nat.le_refl size
  safe := rfl

section Memory

variable {o o' : LinkedOuter α} {fresh : Address}

private theorem setOuter_self (a : Address) (o : LinkedOuter α) :
    (t.setOuter a o).outers a = some o :=
  Function.update_self _ _ _

private theorem setOuter_of_ne {b : Address} (o : LinkedOuter α) (other : b ≠ a) :
    (t.setOuter a o).outers b = t.outers b := Function.update_of_ne other _ _

private theorem setOuter_isSome (stored : (t.outers a).isSome) (o : LinkedOuter α) (b : Address) :
    ((t.setOuter a o).outers b).isSome = (t.outers b).isSome := by
  by_cases here : b = a
  · rw [here, setOuter_self, stored]
    rfl
  · rw [setOuter_of_ne o here]

private theorem setOuter_nexts (stored : t.outers a = some o) (link : o'.next = o.next) :
    (t.setOuter a o').nexts = t.nexts := by
  funext b
  by_cases here : b = a
  · rw [here, nexts, nexts, setOuter_self, stored]
    exact link
  · rw [nexts, nexts, setOuter_of_ne o' here]

private theorem ne_of_unused (unused : t.outers fresh = none) (stored : (t.outers a).isSome) :
    a ≠ fresh := by
  intro equal
  rw [equal, unused] at stored
  cases stored

theorem Shares.alive (shares : Shares null t v l φ) (listed : a ∈ l) : (t.outers a).isSome := by
  obtain ⟨o, stored, -⟩ := shares.opened a listed
  exact Option.isSome_iff_exists.mpr ⟨o, stored⟩

end Memory

theorem Shares.length_le (shares : Shares null t v l φ) : l.length ≤ t.size := by
  have nodup : (l.map fun a => (φ a).1).Nodup := by
    refine List.Pairwise.map _ (fun a b below => ?_) shares.order
    omega
  have inside : ∀ i ∈ l.map fun a => (φ a).1, i ∈ List.range t.size := by
    intro i member
    obtain ⟨a, listed, rfl⟩ := List.mem_map.mp member
    obtain ⟨o, -, -, below, place⟩ := shares.opened a listed
    rw [place, List.mem_range]
    exact below
  have short := (List.subperm_of_subset nodup inside).length_le
  simpa using short

theorem Shares.place_open (shares : Shares null t v l φ) (listed : a ∈ l) :
    t.place a = some (φ a).1 := by
  obtain ⟨o, stored, pointer, -, place⟩ := shares.opened a listed
  simp only [OuterStack.place, stored, Option.bind_some, pointer, if_true, place]

theorem Shares.place_iff (shares : Shares null t v l φ) (a : Address) (i : Nat) :
    t.place a = some i ↔ a ∈ l ∧ (φ a).1 = i := by
  by_cases listed : a ∈ l
  · rw [shares.place_open listed]
    simp [listed]
  · refine iff_of_false ?_ (fun both => listed both.1)
    intro place
    obtain ⟨o, stored, place⟩ := Option.bind_eq_some_iff.mp place
    rw [(shares.closed a o stored listed).1] at place
    cases place

theorem Shares.deref (shares : Shares null t v l φ) {o : LinkedOuter α}
    (stored : t.outers a = some o) :
    t.valid o = true ∧ t.deref o = v.cell (φ a).1 (φ a).2 := by
  by_cases listed : a ∈ l
  · obtain ⟨o', stored', pointer, below, place⟩ := shares.opened a listed
    obtain rfl := Option.some.inj (stored.symm.trans stored')
    refine ⟨?_, ?_⟩
    · simp [valid, pointer, below]
    · simp only [OuterStack.deref, pointer, place]
      exact shares.slots o.idx below
  · obtain ⟨pointer, value, -⟩ := shares.closed a o stored listed
    exact ⟨by simp [valid, pointer], by simp only [OuterStack.deref, pointer, value]⟩

section Slots

private theorem past_of_closed (shares : Shares null t v l φ) {o : LinkedOuter α}
    (stored : t.outers a = some o) (apart : a ∉ l) (i : Nat) : φ a ≠ (i, v.epoch i) := by
  intro equal
  have past := (shares.closed a o stored apart).2.2
  rw [equal] at past
  exact Nat.lt_irrefl _ past

private theorem Shares.setSlots (shares : Shares null t v l φ) {vals : Nat → α}
    {cell : Nat → Nat → α} (past : ∀ i e, e ≠ v.epoch i → cell i e = v.cell i e)
    (slots : ∀ i < t.size, vals i = cell i (v.epoch i))
    (above : ∀ i, t.size ≤ i → cell i (v.epoch i) = null) :
    Shares null { t with vals := vals } { v with cell := cell } l φ := by
  refine { shares with closed := ?_, slots := slots, above := above }
  intro a o stored apart
  obtain ⟨pointer, value, before⟩ := shares.closed a o stored apart
  exact ⟨pointer, value.trans (past _ _ (Nat.ne_of_lt before)).symm, before⟩

theorem Shares.write (shares : Shares null t v l φ) {i : Nat} (inside : i < t.size) (x : α) :
    Shares null (t.setSlot i x) (v.assign i (v.epoch i) x) l φ := by
  apply shares.setSlots
  · intro j e past
    apply Variables.assign_of_ne
    intro equal
    obtain ⟨rfl, same⟩ := Prod.mk.inj equal
    exact past same
  · intro j below
    by_cases equal : j = i
    · subst equal
      rw [Function.update_self]
      exact (Variables.assign_self x).symm
    · rw [Function.update_of_ne equal, shares.slots j below]
      refine (Variables.assign_of_ne x ?_).symm
      exact fun same => equal (Prod.mk.inj same).1
  · intro j beyond
    rw [← shares.above j beyond]
    apply Variables.assign_of_ne
    intro equal
    have slot := (Prod.mk.inj equal).1
    omega

theorem Shares.nullSlots (shares : Shares null t v l φ) (top lastTop : Nat) :
    Shares null (t.nullSlots null top lastTop) (v.nullSlots null top lastTop) l φ := by
  apply shares.setSlots
  · intro j e past
    rw [if_neg fun both => past both.2]
  · intro j below
    rw [shares.slots j below]
    simp only [and_true]
    rfl
  · intro j beyond
    split_ifs
    · rfl
    · exact shares.above j beyond

end Slots

section Outer

theorem Shares.getOuter (shares : Shares null t v l φ) (stored : (t.outers a).isSome) :
    t.getOuter a = (t, some (v.cell (φ a).1 (φ a).2)) := by
  obtain ⟨o, stored⟩ := Option.isSome_iff_exists.mp stored
  obtain ⟨valid, value⟩ := shares.deref stored
  simp only [OuterStack.getOuter, stored, valid, value]
  simp

theorem Shares.putOuter (shares : Shares null t v l φ) {o : LinkedOuter α}
    (stored : t.outers a = some o) (x : α) :
    Shares null (t.putOuter a x) (v.assign (φ a).1 (φ a).2 x) l φ := by
  have valid := (shares.deref stored).1
  by_cases listed : a ∈ l
  · obtain ⟨o', stored', pointer, below, place⟩ := shares.opened a listed
    obtain rfl := Option.some.inj (stored.symm.trans stored')
    have result : t.putOuter a x = t.setSlot o.idx x := by
      simp only [OuterStack.putOuter, stored, pointer, valid]
      simp
    rw [result, place]
    exact shares.write below x
  · obtain ⟨pointer, value, before⟩ := shares.closed a o stored listed
    have result : t.putOuter a x = t.setOuter a { o with value := x } := by
      simp only [OuterStack.putOuter, stored, pointer, valid]
      simp
    rw [result]
    have current : ∀ i, (v.assign (φ a).1 (φ a).2 x).current i = v.current i := by
      intro i
      apply Variables.assign_of_ne
      intro equal
      exact past_of_closed shares stored listed i equal.symm
    have apart : ∀ b ∈ l, b ≠ a := fun b member equal => listed (equal ▸ member)
    refine ⟨?_, ?_, shares.order, ?_, ?_, ?_, ?_, shares.fits, shares.safe⟩
    · have links : (t.setOuter a { o with value := x }).nexts = t.nexts := setOuter_nexts stored rfl
      rw [links]
      exact shares.chain
    · intro b member
      rw [setOuter_of_ne _ (apart b member)]
      exact shares.opened b member
    · intro b o' stored' unlisted
      by_cases equal : b = a
      · subst equal
        rw [setOuter_self] at stored'
        obtain rfl := Option.some.inj stored'
        exact ⟨pointer, (Variables.assign_self x).symm, before⟩
      · rw [setOuter_of_ne _ equal] at stored'
        obtain ⟨pointer', value', before'⟩ := shares.closed b o' stored' unlisted
        refine ⟨pointer', ?_, before'⟩
        rw [value', Variables.assign_of_ne]
        intro same
        exact equal (shares.injective b a (by simp [stored']) (by simp [stored]) same)
    · intro b c aliveB aliveC same
      have alive := setOuter_isSome (t := t) (a := a) (by simp [stored]) { o with value := x }
      rw [alive] at aliveB aliveC
      exact shares.injective b c aliveB aliveC same
    · intro i below
      rw [current]
      exact shares.slots i below
    · intro i beyond
      rw [current]
      exact shares.above i beyond

end Outer

section Open

variable {k : Nat}

private theorem Shares.split (shares : Shares null t v l φ) (k : Nat) :
    ∃ x y, l = x ++ y ∧ (∀ a ∈ x, k ≤ (φ a).1) ∧ ∀ a ∈ y, (φ a).1 < k := by
  have order := shares.order
  clear shares
  induction l with
  | nil => exact ⟨[], [], rfl, by simp, by simp⟩
  | cons a l ih =>
      obtain ⟨first, rest⟩ := List.pairwise_cons.mp order
      by_cases above : k ≤ (φ a).1
      · obtain ⟨x, y, rfl, high, low⟩ := ih rest
        refine ⟨a :: x, y, rfl, ?_, low⟩
        exact List.forall_mem_cons.mpr ⟨above, high⟩
      · refine ⟨[], a :: l, rfl, by simp, ?_⟩
        refine List.forall_mem_cons.mpr ⟨by omega, ?_⟩
        intro b member
        have below := first b member
        omega

def mapOuters (x : List Address) (f : LinkedOuter α → LinkedOuter α) (t : OuterStack α) :
    OuterStack α :=
  { t with outers := fun a => if a ∈ x then (t.outers a).map f else t.outers a }

@[simp] theorem mapOuters_nil (f : LinkedOuter α → LinkedOuter α) : t.mapOuters [] f = t := by
  simp [mapOuters]

private theorem mapOuters_of_mem {x : List Address} (f : LinkedOuter α → LinkedOuter α)
    (member : a ∈ x) :
    (t.mapOuters x f).outers a = (t.outers a).map f := if_pos member

private theorem mapOuters_of_notMem {x : List Address} (f : LinkedOuter α → LinkedOuter α)
    (apart : a ∉ x) :
    (t.mapOuters x f).outers a = t.outers a := if_neg apart

private theorem mapOuters_isSome (x : List Address) (f : LinkedOuter α → LinkedOuter α)
    (a : Address) :
    ((t.mapOuters x f).outers a).isSome = (t.outers a).isSome := by
  by_cases member : a ∈ x
  · rw [mapOuters_of_mem f member, Option.isSome_map]
  · rw [mapOuters_of_notMem f member]

private theorem mapOuters_nexts (x : List Address) {f : LinkedOuter α → LinkedOuter α}
    (links : ∀ o, (f o).next = o.next) : (t.mapOuters x f).nexts = t.nexts := by
  funext a
  by_cases member : a ∈ x
  · rw [nexts, nexts, mapOuters_of_mem f member]
    cases t.outers a with
    | none => rfl
    | some o => exact links o
  · rw [nexts, nexts, mapOuters_of_notMem f member]

private theorem setOuter_mapOuters {x : List Address} {f : LinkedOuter α → LinkedOuter α}
    {o : LinkedOuter α} (stored : t.outers a = some o) (apart : a ∉ x) :
    (t.setOuter a (f o)).mapOuters x f = t.mapOuters (a :: x) f := by
  simp only [mapOuters, setOuter, mk.injEq, true_and, and_true]
  funext b
  by_cases equal : b = a
  · subst equal
    simp [apart, stored]
  · simp [equal]

private theorem mapOuters_of_fixed {x : List Address} {f : LinkedOuter α → LinkedOuter α}
    (fixed : ∀ a ∈ x, ∃ o, t.outers a = some o ∧ f o = o) : t.mapOuters x f = t := by
  have same : (fun a => if a ∈ x then (t.outers a).map f else t.outers a) = t.outers := by
    funext a
    split_ifs with member
    · obtain ⟨o, stored, equal⟩ := fixed a member
      rw [stored, Option.map_some, equal]
    · rfl
  rw [mapOuters, same]

end Open

section Close

variable {k : Nat} {x y : List Address}

def closedOuter (vals : Nat → α) (o : LinkedOuter α) : LinkedOuter α :=
  { o with value := vals o.idx, valptr := .own }

private theorem closeFrom_eq {fuel : Nat} (chain : Linked t.nexts t.openOuters (x ++ y))
    (high : ∀ a ∈ x, ∃ o, t.outers a = some o ∧ o.valptr = .stack t.allocation o.idx ∧ k ≤ o.idx)
    (low : ∀ a ∈ y, ∃ o, t.outers a = some o ∧ o.valptr = .stack t.allocation o.idx ∧ o.idx < k)
    (enough : x.length ≤ fuel) :
    closeFrom fuel k t = { t.mapOuters x (closedOuter t.vals) with openOuters := y.head? } := by
  -- Induction on the part to close: each turn takes the head of the list off.
  induction x generalizing t fuel with
  | nil =>
      have head := linked_head chain
      rw [List.nil_append] at head
      have same : { t with openOuters := y.head? } = t := by rw [← head]
      rw [mapOuters_nil, same]
      cases fuel with
      | zero => rfl
      | succ fuel =>
          cases y with
          | nil =>
              rw [List.head?_nil] at head
              simp only [closeFrom, head]
          | cons a y =>
              obtain ⟨o, stored, pointer, below⟩ := low a List.mem_cons_self
              have place : t.place a = some o.idx := by
                simp [OuterStack.place, stored, pointer]
              rw [List.head?_cons] at head
              simp only [closeFrom, head, stored, place]
              rw [if_neg (by omega)]
  | cons a x ih =>
      obtain ⟨fuel, rfl⟩ : ∃ n, fuel = n + 1 := ⟨fuel - 1, by simp at enough; omega⟩
      obtain ⟨o, stored, pointer, above⟩ := high a List.mem_cons_self
      have place : t.place a = some o.idx := by simp [OuterStack.place, stored, pointer]
      have apart : a ∉ x ++ y := (List.nodup_cons.mp (linked_nodup chain)).1
      have next : t.nexts a = o.next := by simp [nexts, stored]
      obtain ⟨head, tail⟩ := chain
      have others : ∀ b ∈ x ++ y,
          (t.setOuter a (closedOuter t.vals o)).outers b = t.outers b := by
        intro b member
        exact setOuter_of_ne _ fun equal => apart (equal ▸ member)
      have links : (t.setOuter a (closedOuter t.vals o)).nexts = t.nexts :=
        setOuter_nexts stored rfl
      have rest := @ih { t.setOuter a (closedOuter t.vals o) with openOuters := o.next } fuel
        (by
          rw [next, ← links] at tail
          exact tail)
        (by
          intro b member
          obtain ⟨o', stored', rest⟩ := high b (List.mem_cons_of_mem a member)
          exact ⟨o', (others b (List.mem_append_left y member)).trans stored', rest⟩)
        (by
          intro b member
          obtain ⟨o', stored', rest⟩ := low b member
          exact ⟨o', (others b (List.mem_append_right x member)).trans stored', rest⟩)
        (by simpa using enough)
      have front : a ∉ x := fun member => apart (List.mem_append_left y member)
      rw [← setOuter_mapOuters stored front]
      simp only [closeFrom, head, stored, place]
      rw [if_pos above]
      exact rest

@[simp] theorem detach_current (k : Nat) (v : Variables α) (i : Nat) :
    (v.detach k).current i = v.current i := by
  by_cases above : k ≤ i
  · simp [Variables.detach, Variables.current, above]
  · simp [Variables.detach, Variables.current, above]

theorem detach_cell {i e : Nat} (k : Nat) (before : e ≤ v.epoch i) :
    (v.detach k).cell i e = v.cell i e := by
  refine if_neg ?_
  intro both
  omega

private theorem epoch_le_detach (k : Nat) (v : Variables α) (i : Nat) :
    v.epoch i ≤ (v.detach k).epoch i := by
  simp only [Variables.detach]
  split_ifs <;> omega

private theorem Shares.closeFront (shares : Shares null t v (x ++ y) φ)
    (high : ∀ a ∈ x, k ≤ (φ a).1) (low : ∀ a ∈ y, (φ a).1 < k) :
    Shares null { t.mapOuters x (closedOuter t.vals) with openOuters := y.head? } (v.detach k) y
      φ := by
  have apart : ∀ a ∈ y, a ∉ x := by
    intro a member front
    have above := high a front
    have below := low a member
    omega
  refine ⟨?_, ?_, (List.pairwise_append.mp shares.order).2.1, ?_, ?_, ?_, ?_, shares.fits,
    shares.safe⟩
  · have links : (t.mapOuters x (closedOuter t.vals)).nexts = t.nexts :=
      mapOuters_nexts x fun o => rfl
    show Linked (t.mapOuters x (closedOuter t.vals)).nexts y.head? y
    rw [links]
    have chain := shares.chain
    cases y with
    | nil => exact rfl
    | cons a y => exact linked_drop chain
  · intro a member
    obtain ⟨o, stored, pointer, inside, place⟩ := shares.opened a (List.mem_append_right x member)
    refine ⟨o, (mapOuters_of_notMem _ (apart a member)).trans stored, pointer, inside, ?_⟩
    have below := low a member
    rw [place] at below ⊢
    rw [show (v.detach k).epoch o.idx = v.epoch o.idx from if_neg (by omega)]
  · intro a o stored behind
    by_cases front : a ∈ x
    · obtain ⟨o', stored', pointer, inside, place⟩ :=
        shares.opened a (List.mem_append_left y front)
      have above := high a front
      have closed : o = closedOuter t.vals o' := by
        have result := (mapOuters_of_mem (closedOuter t.vals) front).symm.trans stored
        rw [stored'] at result
        exact (Option.some.inj result).symm
      rw [place] at above ⊢
      refine ⟨by rw [closed]; rfl, ?_, ?_⟩
      · rw [detach_cell k (Nat.le_refl _), closed]
        exact shares.slots o'.idx inside
      · rw [show (v.detach k).epoch o'.idx = v.epoch o'.idx + 1 from if_pos above]
        omega
    · obtain ⟨pointer, value, before⟩ := shares.closed a o
        ((mapOuters_of_notMem _ front).symm.trans stored) (by simp [front, behind])
      refine ⟨pointer, ?_, Nat.lt_of_lt_of_le before (epoch_le_detach k v _)⟩
      rw [value, detach_cell k (Nat.le_of_lt before)]
  · intro a b aliveA aliveB same
    have kept := mapOuters_isSome (t := t) x (closedOuter t.vals)
    exact shares.injective a b ((kept a).symm.trans aliveA) ((kept b).symm.trans aliveB) same
  · intro i below
    rw [detach_current]
    exact shares.slots i below
  · intro i beyond
    rw [detach_current]
    exact shares.above i beyond

theorem Shares.closeOuters (shares : Shares null t v l φ) (k : Nat) :
    ∃ l', Shares null (t.closeOuters k) (v.detach k) l' φ := by
  obtain ⟨x, y, rfl, high, low⟩ := shares.split k
  refine ⟨y, ?_⟩
  have short := shares.length_le
  rw [List.length_append] at short
  rw [OuterStack.closeOuters, closeFrom_eq shares.chain ?_ ?_ (by omega)]
  · exact shares.closeFront high low
  · intro a member
    obtain ⟨o, stored, pointer, -, place⟩ := shares.opened a (List.mem_append_left y member)
    have above := high a member
    rw [place] at above
    exact ⟨o, stored, pointer, above⟩
  · intro a member
    obtain ⟨o, stored, pointer, -, place⟩ := shares.opened a (List.mem_append_right x member)
    have below := low a member
    rw [place] at below
    exact ⟨o, stored, pointer, below⟩

theorem Shares.leaveFrame (shares : Shares null t v l φ) (lastBase top lastTop : Nat) :
    ∃ l', Shares null (t.leaveFrame null lastBase top lastTop)
      ((v.detach lastBase).nullSlots null top lastTop) l' φ := by
  obtain ⟨l', closed⟩ := shares.closeOuters lastBase
  exact ⟨l', closed.nullSlots top lastTop⟩

theorem Shares.detach (shares : Shares null t v l φ) (low : ∀ a ∈ l, (φ a).1 < k) :
    Shares null t (v.detach k) l φ := by
  have front : Shares null t v ([] ++ l) φ := shares
  have kept := front.closeFront (by simp) low
  rw [mapOuters_nil, ← linked_head shares.chain] at kept
  exact kept

theorem Shares.catchError (shares : Shares null t v l φ) {extarget : Nat}
    (inside : extarget < t.size) (low : ∀ a ∈ l, (φ a).1 < extarget) (stacksize lastTop : Nat)
    (error : α) :
    Shares null (t.catchError null extarget stacksize lastTop error)
      (((v.detach extarget).assign extarget ((v.detach extarget).epoch extarget) error).nullSlots
        null stacksize lastTop) l φ :=
  ((shares.detach low).write inside error).nullSlots stacksize lastTop

end Close

section Relocate

def relocatedOuter (allocation : Nat) (o : LinkedOuter α) : LinkedOuter α :=
  { o with valptr := .stack allocation o.idx }

private theorem relocateFrom_eq {fuel : Nat} {head : Option Address} (chain : Linked t.nexts head l)
    (stored : ∀ a ∈ l, (t.outers a).isSome) (enough : l.length ≤ fuel) :
    relocateFrom fuel head t = t.mapOuters l (relocatedOuter t.allocation) := by
  induction l generalizing t fuel head with
  | nil =>
      rw [linked_nil.mp chain, mapOuters_nil]
      cases fuel <;> rfl
  | cons a l ih =>
      obtain ⟨fuel, rfl⟩ : ∃ n, fuel = n + 1 := ⟨fuel - 1, by simp at enough; omega⟩
      obtain ⟨o, here⟩ := Option.isSome_iff_exists.mp (stored a List.mem_cons_self)
      have apart : a ∉ l := (List.nodup_cons.mp (linked_nodup chain)).1
      have next : t.nexts a = o.next := by simp [nexts, here]
      obtain ⟨first, tail⟩ := chain
      rw [next] at tail
      have links : (t.setOuter a (relocatedOuter t.allocation o)).nexts = t.nexts :=
        setOuter_nexts here rfl
      rw [← setOuter_mapOuters here apart]
      simp only [relocateFrom, first, here]
      apply ih
      · rw [← links] at tail
        exact tail
      · intro b member
        rw [setOuter_isSome (stored a List.mem_cons_self)]
        exact stored b (List.mem_cons_of_mem a member)
      · simpa using enough

private theorem Shares.moved (shares : Shares null t v l φ) {newsize : Nat}
    (grows : t.size ≤ newsize) :
    Shares null ((t.resize null newsize).mapOuters l
      (relocatedOuter (t.resize null newsize).allocation)) v l φ := by
  have links : ((t.resize null newsize).mapOuters l
      (relocatedOuter (t.resize null newsize).allocation)).nexts = t.nexts :=
    mapOuters_nexts l fun o => rfl
  refine ⟨?_, ?_, shares.order, ?_, ?_, ?_, ?_, Nat.le_max_right _ _, shares.safe⟩
  · rw [links]
    exact shares.chain
  · intro a member
    obtain ⟨o, stored, -, inside, place⟩ := shares.opened a member
    refine ⟨relocatedOuter (t.resize null newsize).allocation o, ?_, rfl,
      Nat.lt_of_lt_of_le inside grows, place⟩
    rw [mapOuters_of_mem _ member]
    exact congrArg (Option.map _) stored
  · intro a o stored apart
    exact shares.closed a o ((mapOuters_of_notMem _ apart).symm.trans stored) apart
  · intro a b aliveA aliveB same
    have kept := mapOuters_isSome (t := t.resize null newsize) l
      (relocatedOuter (t.resize null newsize).allocation)
    exact shares.injective a b ((kept a).symm.trans aliveA) ((kept b).symm.trans aliveB) same
  · intro i below
    show (if i < t.size then t.vals i else null) = v.current i
    split_ifs with old
    · exact shares.slots i old
    · exact (shares.above i (by omega)).symm
  · intro i beyond
    exact shares.above i (Nat.le_trans grows beyond)

theorem Shares.enterFrame (shares : Shares null t v l φ) (newtop nmetamethodscall : Nat) :
    Shares null (t.enterFrame null newtop nmetamethodscall) v l φ := by
  rw [OuterStack.enterFrame]
  split_ifs with small metamethod
  · exact shares
  · have grows : t.size ≤ newtop + minStackOverhead.toNat * 4 := by omega
    have short := shares.length_le
    have alive : ∀ a ∈ l, (t.outers a).isSome := fun a member => shares.alive member
    have relocated : relocateFrom (newtop + minStackOverhead.toNat * 4) t.openOuters
        (t.resize null (newtop + minStackOverhead.toNat * 4)) = _ :=
      relocateFrom_eq shares.chain alive (by omega)
    show Shares null (relocateFrom (newtop + minStackOverhead.toNat * 4) t.openOuters _) v l φ
    rw [relocated]
    exact shares.moved grows
  · exact shares

theorem Shares.sqReserveStack (shares : Shares null t v l φ) (top nsize nmetamethodscall : Nat)
    (undisturbed : t.allocated < top + nsize → nmetamethodscall = 0 → l = []) :
    Shares null (t.sqReserveStack null top nsize nmetamethodscall) v l φ := by
  rw [OuterStack.sqReserveStack]
  split_ifs with small metamethod
  · exact shares
  · have sized : t.size + (top + nsize - t.size) = top + nsize := by omega
    rw [sized]
    have moved := shares.moved (Nat.le_of_lt small)
    -- What `RelocateOuters` would do changes nothing here.
    have right : (t.resize null (top + nsize)).mapOuters l
        (relocatedOuter (t.resize null (top + nsize)).allocation) =
          t.resize null (top + nsize) := by
      by_cases beyond : t.allocated < top + nsize
      · rw [undisturbed beyond (not_not.mp metamethod), mapOuters_nil]
      · apply mapOuters_of_fixed
        intro a member
        obtain ⟨o, stored, pointer, -⟩ := shares.opened a member
        refine ⟨o, stored, ?_⟩
        have same : (t.resize null (top + nsize)).allocation = t.allocation := if_neg beyond
        rw [same, relocatedOuter, ← pointer]
    rw [right] at moved
    exact moved
  · exact shares

end Relocate

section Capture

variable {fresh : Address} {i : Nat} {x y : List Address}

private theorem insertOuter_eq (null : α) (unused : t.outers fresh = none) {prev : Option Address}
    (alive : ∀ p, prev = some p → (t.outers p).isSome) (next : Option Address) :
    t.insertOuter null fresh i prev next =
      { t with
        openOuters := if prev = none then some fresh else t.openOuters
        outers := Function.update
          (fun a => (t.outers a).map fun o =>
            { o with next := if prev = some a then some fresh else o.next })
          fresh (some ⟨.stack t.allocation i, null, i, next⟩) } := by
  cases prev with
  | none => simp [insertOuter, setOuter]
  | some p =>
      obtain ⟨o, stored⟩ := Option.isSome_iff_exists.mp (alive p rfl)
      have other : p ≠ fresh := ne_of_unused unused (alive p rfl)
      have found : (t.setOuter fresh ⟨.stack t.allocation i, null, i, next⟩).outers p = some o :=
        (setOuter_of_ne _ other).trans stored
      simp only [insertOuter, found]
      simp only [setOuter, mk.injEq, true_and, and_true, reduceCtorEq, if_false]
      funext a
      by_cases here : a = p
      · subst here
        rw [Function.update_self, Function.update_of_ne other, stored]
        simp
      · rw [Function.update_of_ne here]
        by_cases new : a = fresh
        · subst new
          rw [Function.update_self, Function.update_self]
        · rw [Function.update_of_ne new, Function.update_of_ne new]
          have apart : some p ≠ some a := fun equal => here (Option.some.inj equal).symm
          simp [apart]

private theorem insertOuter_fresh (null : α) (unused : t.outers fresh = none)
    {prev : Option Address} (alive : ∀ p, prev = some p → (t.outers p).isSome)
    (next : Option Address) :
    (t.insertOuter null fresh i prev next).outers fresh =
      some ⟨.stack t.allocation i, null, i, next⟩ := by
  rw [insertOuter_eq null unused alive]
  simp

private theorem insertOuter_other (null : α) (unused : t.outers fresh = none)
    {prev : Option Address} (alive : ∀ p, prev = some p → (t.outers p).isSome)
    (next : Option Address) (other : a ≠ fresh) :
    (t.insertOuter null fresh i prev next).outers a = (t.outers a).map fun o =>
      { o with next := if prev = some a then some fresh else o.next } := by
  rw [insertOuter_eq null unused alive]
  simp [other]

private theorem insertOuter_nexts (null : α) (unused : t.outers fresh = none)
    {prev : Option Address} (alive : ∀ p, prev = some p → (t.outers p).isSome)
    (next : Option Address) (a : Address) :
    (t.insertOuter null fresh i prev next).nexts a =
      if a = fresh then next else if prev = some a then some fresh else t.nexts a := by
  rw [nexts]
  split_ifs with new before
  · rw [new, insertOuter_fresh null unused alive]
    rfl
  · obtain ⟨o, stored⟩ := Option.isSome_iff_exists.mp (alive a before)
    rw [insertOuter_other null unused alive next new, stored]
    simp [before]
  · rw [insertOuter_other null unused alive next new, nexts]
    cases t.outers a with
    | none => rfl
    | some o => simp [before]

private theorem Shares.last_alive (shares : Shares null t v (x ++ y) φ) :
    ∀ p, x.getLast? = some p → (t.outers p).isSome := by
  intro p last
  exact shares.alive (List.mem_append_left y (List.mem_of_getLast? last))

private theorem insertOuter_chain (null : α) (chain : Linked t.nexts t.openOuters (x ++ y))
    (alive : ∀ a ∈ x ++ y, (t.outers a).isSome) (unused : t.outers fresh = none) :
    Linked (t.insertOuter null fresh i x.getLast? y.head?).nexts
      (t.insertOuter null fresh i x.getLast? y.head?).openOuters (x ++ fresh :: y) := by
  have behind : ∀ p, x.getLast? = some p → (t.outers p).isSome := by
    intro p last
    exact alive p (List.mem_append_left y (List.mem_of_getLast? last))
  have new : fresh ∉ x ++ y :=
    fun member => ne_of_unused unused (alive fresh member) rfl
  have links := insertOuter_nexts (i := i) null unused behind y.head?
  have opened : (t.insertOuter null fresh i x.getLast? y.head?).openOuters =
      if x.getLast? = none then some fresh else t.openOuters := by
    rw [insertOuter_eq null unused behind]
  rw [opened]
  rcases List.eq_nil_or_concat' x with rfl | ⟨x, p, rfl⟩
  · have head := linked_head chain
    rw [List.nil_append] at head chain new
    refine ⟨rfl, ?_⟩
    rw [head] at chain
    rw [links, if_pos rfl]
    apply linked_congr chain
    intro a member
    have other : a ≠ fresh := fun equal => new (equal ▸ member)
    rw [links, if_neg other, if_neg (by simp)]
  · rw [List.getLast?_concat, if_neg (by simp), List.append_assoc, List.singleton_append]
    rw [List.append_assoc, List.singleton_append] at chain new
    apply linked_congr (linked_insert chain new)
    intro a _
    rw [List.getLast?_concat] at links
    rw [links, Function.update_apply, Function.update_apply]
    by_cases here : a = p
    · have other : a ≠ fresh := fun equal => new (by simp [← equal, here])
      rw [if_neg other, if_pos here, if_pos (congrArg some here.symm)]
    · rw [if_neg here, if_neg (fun equal => here (Option.some.inj equal).symm)]

private theorem Shares.not_captured (shares : Shares null t v (x ++ y) φ)
    (above : ∀ a ∈ x, i < (φ a).1) (below : ∀ a ∈ y, (φ a).1 < i)
    (stored : (t.outers a).isSome) : φ a ≠ (i, v.epoch i) := by
  obtain ⟨o, stored⟩ := Option.isSome_iff_exists.mp stored
  by_cases listed : a ∈ x ++ y
  · intro equal
    rcases List.mem_append.mp listed with front | behind
    · have apart := above a front
      rw [equal] at apart
      exact Nat.lt_irrefl i apart
    · have apart := below a behind
      rw [equal] at apart
      exact Nat.lt_irrefl i apart
  · exact past_of_closed shares stored listed i

private theorem Shares.insertOuter (shares : Shares null t v (x ++ y) φ)
    (above : ∀ a ∈ x, i < (φ a).1) (below : ∀ a ∈ y, (φ a).1 < i)
    (unused : t.outers fresh = none) (inside : i < t.size) :
    Shares null (t.insertOuter null fresh i x.getLast? y.head?) v (x ++ fresh :: y)
      (Function.update φ fresh (i, v.epoch i)) := by
  have alive : ∀ a ∈ x ++ y, (t.outers a).isSome := fun a member => shares.alive member
  have behind := shares.last_alive
  have whole := insertOuter_eq (i := i) null unused behind y.head?
  have stays : ∀ a, a ≠ fresh → Function.update φ fresh (i, v.epoch i) a = φ a :=
    fun a other => Function.update_of_ne other _ _
  have listed : ∀ a ∈ x ++ y, Function.update φ fresh (i, v.epoch i) a = φ a :=
    fun a member => stays a (ne_of_unused unused (alive a member))
  have here : Function.update φ fresh (i, v.epoch i) fresh = (i, v.epoch i) :=
    Function.update_self _ _ _
  refine ⟨insertOuter_chain null shares.chain alive unused, ?_, ?_, ?_, ?_, ?_, ?_, ?_, ?_⟩
  · intro a member
    by_cases equal : a = fresh
    · rw [equal, insertOuter_fresh null unused behind]
      refine ⟨_, rfl, ?_, ?_, here⟩
      · rw [whole]
      · rw [whole]
        exact inside
    · have old : a ∈ x ++ y := by simpa [equal] using member
      obtain ⟨o, stored, pointer, within, place⟩ := shares.opened a old
      rw [stays a equal, insertOuter_other null unused behind _ equal, stored]
      refine ⟨_, rfl, ?_, ?_, place⟩
      · rw [whole]
        exact pointer
      · rw [whole]
        exact within
  · have order := List.pairwise_append.mp shares.order
    have kept : ∀ z ⊆ x ++ y, z.Pairwise (fun a b => (φ b).1 < (φ a).1) →
        z.Pairwise fun a b => (Function.update φ fresh (i, v.epoch i) b).1 <
          (Function.update φ fresh (i, v.epoch i) a).1 := by
      intro z part ordered
      refine List.Pairwise.imp_of_mem (fun memberA memberB less => ?_) ordered
      rw [listed _ (part memberA), listed _ (part memberB)]
      exact less
    refine List.pairwise_append.mpr ⟨kept x (by simp) order.1,
      List.pairwise_cons.mpr ⟨?_, kept y (by simp) order.2.1⟩, ?_⟩
    · intro b member
      rw [here, listed b (List.mem_append_right x member)]
      exact below b member
    · intro a memberA b memberB
      rw [listed a (List.mem_append_left y memberA)]
      rcases List.mem_cons.mp memberB with rfl | memberB
      · rw [here]
        exact above a memberA
      · rw [listed b (List.mem_append_right x memberB)]
        exact order.2.2 a memberA b memberB
  · intro a o stored apart
    have other : a ≠ fresh := by
      intro equal
      exact apart (by simp [equal])
    rw [insertOuter_other null unused behind _ other] at stored
    obtain ⟨o', stored', rfl⟩ := Option.map_eq_some_iff.mp stored
    rw [stays a other]
    refine shares.closed a o' stored' ?_
    intro member
    exact apart (by simpa [other] using member)
  -- No other outer has the cell of the new one: open ones are in other slots, closed ones hold
  -- variables of the past.
  · have old : ∀ a, a ≠ fresh →
        ((t.insertOuter null fresh i x.getLast? y.head?).outers a).isSome →
        (t.outers a).isSome := by
      intro a other stored
      rw [insertOuter_other null unused behind _ other, Option.isSome_map] at stored
      exact stored
    have untaken : ∀ a, a ≠ fresh →
        ((t.insertOuter null fresh i x.getLast? y.head?).outers a).isSome →
        φ a ≠ (i, v.epoch i) := by
      intro a other stored
      exact shares.not_captured above below (old a other stored)
    intro a b aliveA aliveB same
    by_cases isA : a = fresh
    · by_cases isB : b = fresh
      · rw [isA, isB]
      · rw [isA, here, stays b isB] at same
        exact absurd same.symm (untaken b isB aliveB)
    · by_cases isB : b = fresh
      · rw [isB, here, stays a isA] at same
        exact absurd same (untaken a isA aliveA)
      · rw [stays a isA, stays b isB] at same
        exact shares.injective a b (old a isA aliveA) (old b isB aliveB) same
  · rw [whole]
    exact shares.slots
  · rw [whole]
    exact shares.above
  · rw [whole]
    exact shares.fits
  · rw [whole]
    exact shares.safe

theorem Shares.findOuter (shares : Shares null t v l φ) (unused : t.outers fresh = none)
    (inside : i < t.size) :
    ∃ l' φ', Shares null (t.findOuter null fresh i).1 v l' φ' ∧
      φ' (t.findOuter null fresh i).2 = (i, v.epoch i) ∧
      (∀ a, (t.outers a).isSome → φ' a = φ a) ∧
      ∀ a, ((t.findOuter null fresh i).1.outers a).isSome ↔
        (t.outers a).isSome ∨ a = (t.findOuter null fresh i).2 := by
  obtain ⟨x, y, rfl, above, below⟩ := shares.split (i + 1)
  have reached : search t.nexts (fun a => (t.place a).any fun j => decide (j ≤ i)) t.size none
      t.openOuters = (y.head?, x.getLast?) := by
    rw [search_split shares.chain shares.length_le, Option.or_none]
    · intro a member
      have high := above a member
      rw [shares.place_open (List.mem_append_left y member)]
      simp
      omega
    · intro a head
      have member := List.mem_of_mem_head? head
      have low := below a member
      rw [shares.place_open (List.mem_append_right x member)]
      simp
      omega
  -- The walk stops at the first outer that is not above the slot: it is the one of the slot, or
  -- the slot has none and the new outer goes in front of it.
  by_cases there : ∃ a, y.head? = some a ∧ t.place a = some i
  · obtain ⟨a, head, place⟩ := there
    have result : t.findOuter null fresh i = (t, a) := by
      simp only [OuterStack.findOuter, reached, head, place, if_true]
    obtain ⟨listed, slot⟩ := (shares.place_iff a i).mp place
    obtain ⟨o, stored, -, -, cell⟩ := shares.opened a listed
    rw [result]
    refine ⟨x ++ y, φ, shares, ?_, fun b alive => rfl, ?_⟩
    · rw [cell] at slot ⊢
      rw [show o.idx = i from slot]
    · intro b
      constructor
      · exact fun alive => Or.inl alive
      · intro either
        rcases either with alive | rfl
        · exact alive
        · exact Option.isSome_iff_exists.mpr ⟨o, stored⟩
  · have result : t.findOuter null fresh i =
        (t.insertOuter null fresh i x.getLast? y.head?, fresh) := by
      cases head : y.head? with
      | none => simp only [OuterStack.findOuter, reached, head]
      | some a =>
          have other : t.place a ≠ some i := fun place => there ⟨a, head, place⟩
          simp only [OuterStack.findOuter, reached, head, other, if_false]
    have apart : ∀ a ∈ y, (φ a).1 < i := by
      cases y with
      | nil => simp
      | cons a y =>
          have place := shares.place_open (List.mem_append_right x List.mem_cons_self)
          have other : (φ a).1 ≠ i := by
            intro slot
            rw [slot] at place
            exact there ⟨a, rfl, place⟩
          have low := below a List.mem_cons_self
          have order := (List.pairwise_append.mp shares.order).2.1
          refine List.forall_mem_cons.mpr ⟨by omega, ?_⟩
          intro b member
          have less := (List.pairwise_cons.mp order).1 b member
          omega
    have behind := shares.last_alive
    rw [result]
    refine ⟨x ++ fresh :: y, Function.update φ fresh (i, v.epoch i),
      shares.insertOuter above apart unused inside, Function.update_self _ _ _, ?_, ?_⟩
    · intro a alive
      exact Function.update_of_ne (ne_of_unused unused alive) _ _
    · intro a
      by_cases equal : a = fresh
      · rw [equal, insertOuter_fresh null unused behind]
        simp
      · rw [insertOuter_other null unused behind _ equal, Option.isSome_map]
        simp [equal]

end Capture

section Alive

/-- The two differ only in what is in the outers and in their list. -/
structure OnlyOuters (t t' : OuterStack α) : Prop where
  vals : t'.vals = t.vals
  size : t'.size = t.size
  alive : ∀ a, (t'.outers a).isSome = (t.outers a).isSome

theorem closeFrom_onlyOuters (fuel k : Nat) (t : OuterStack α) :
    OnlyOuters t (closeFrom fuel k t) := by
  induction fuel generalizing t with
  | zero => exact ⟨rfl, rfl, fun a => rfl⟩
  | succ fuel ih =>
      rw [closeFrom]
      split
      · exact ⟨rfl, rfl, fun a => rfl⟩
      · split
        · split_ifs
          · rename_i stored _ _
            obtain ⟨vals, size, alive⟩ := ih _
            refine ⟨vals, size, fun a => (alive a).trans ?_⟩
            exact setOuter_isSome (by rw [stored]; rfl) _ a
          · exact ⟨rfl, rfl, fun a => rfl⟩
        · exact ⟨rfl, rfl, fun a => rfl⟩

theorem relocateFrom_onlyOuters (fuel : Nat) (head : Option Address) (t : OuterStack α) :
    OnlyOuters t (relocateFrom fuel head t) := by
  induction fuel generalizing head t with
  | zero => cases head <;> exact ⟨rfl, rfl, fun a => rfl⟩
  | succ fuel ih =>
      cases head with
      | none => exact ⟨rfl, rfl, fun a => rfl⟩
      | some p =>
          rw [relocateFrom]
          split
          · exact ⟨rfl, rfl, fun a => rfl⟩
          · rename_i stored
            obtain ⟨vals, size, alive⟩ := ih _ _
            refine ⟨vals, size, fun a => (alive a).trans ?_⟩
            exact setOuter_isSome (by rw [stored]; rfl) _ a

theorem closeOuters_isSome (k : Nat) (t : OuterStack α) (a : Address) :
    ((t.closeOuters k).outers a).isSome = (t.outers a).isSome :=
  (closeFrom_onlyOuters t.size k t).alive a

theorem enterFrame_isSome (null : α) (newtop nmetamethodscall : Nat) (t : OuterStack α)
    (a : Address) :
    ((t.enterFrame null newtop nmetamethodscall).outers a).isSome = (t.outers a).isSome := by
  rw [OuterStack.enterFrame]
  split_ifs
  · rfl
  · exact (relocateFrom_onlyOuters _ _ _).alive a
  · rfl

theorem sqReserveStack_outers (top nsize nmetamethodscall : Nat) (t : OuterStack α) :
    (t.sqReserveStack null top nsize nmetamethodscall).outers = t.outers := by
  rw [OuterStack.sqReserveStack]
  split_ifs <;> rfl

theorem putOuter_isSome (p : Address) (x : α) (t : OuterStack α) (a : Address) :
    ((t.putOuter p x).outers a).isSome = (t.outers a).isSome := by
  rw [OuterStack.putOuter]
  split
  · rfl
  · rename_i stored
    dsimp only
    split
    · exact setOuter_isSome (by rw [stored]; rfl) _ a
    · rfl

end Alive

end OuterStack

end SquirrelGObject.Engine
