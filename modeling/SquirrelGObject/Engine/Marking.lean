/- SquirrelGObject/Engine/Marking
   digest: Marking moves exactly the reachable objects to the second chain; resurrection loses no object. -/

import Mathlib.Data.List.Perm.Basic
import SquirrelGObject.Engine.Collector

set_option autoImplicit false
set_option relaxedAutoImplicit false

open SquirrelGObject.Lib.TwoWay
open SquirrelGObject.Lib.DepthFirst

namespace SquirrelGObject.Engine.Collector

namespace SQSharedState

/-- The object has been created and not been released. -/
def Live (s : SQSharedState) (a : Address) : Prop := (s.objects a).isSome

instance (s : SQSharedState) (a : Address) : Decidable (s.Live a) :=
  inferInstanceAs (Decidable ((s.objects a).isSome = true))

def children (s : SQSharedState) (a : Address) : List Address := collectables (s.marksAt a)

/-- A path of references that `Mark` follows leads from a root slot to the object. -/
def Reach (s : SQSharedState) (a : Address) : Prop :=
  Reachable s.children (collectables s.roots.visited) a

/-- Every reference that marking follows leads to a live object. -/
structure Closed (s : SQSharedState) : Prop where
  roots : ∀ a ∈ collectables s.roots.visited, s.Live a
  children : ∀ a, ∀ b ∈ s.children a, s.Live b

theorem Reach.live {s : SQSharedState} {a : Address} (closed : s.Closed) (reach : s.Reach a) :
    s.Live a := by
  obtain ⟨r, root, path⟩ := reach
  induction path with
  | refl => exact closed.roots r root
  | tail _ edge _ => exact closed.children _ _ edge

/-- Between collections the chain lists the live objects and nothing is marked. -/
structure Listed (s : SQSharedState) (g : List Address) : Prop where
  chain : Chained s.links s.gcChain g
  mem : ∀ a, a ∈ g ↔ s.Live a
  unmarked : ∀ a, s.marked a = false

end SQSharedState

open SQSharedState

/-- The state in the middle of marking: what is left on the first chain, what has been moved to the
second one, and which objects carry the flag. -/
structure Halfway (s : SQSharedState) (m : Marking) (g t : List Address) (seen : Address → Prop) :
    Prop where
  left : Chained m.2.links m.2.gcChain g
  moved : Chained m.2.links m.1 t
  apart : ∀ a ∈ t, a ∉ g
  complete : ∀ a, s.Live a → a ∈ g ∨ a ∈ t
  flag : ∀ a, m.2.marked a = true ↔ seen a
  done : ∀ a ∈ t, seen a
  objects : m.2.objects = s.objects
  uiRef : m.2.uiRef = s.uiRef
  roots : m.2.roots = s.roots

section Mark

variable {s : SQSharedState} {m : Marking} {g t : List Address} {seen seen' : Address → Prop}
  {c : Address}

theorem Halfway.congr (half : Halfway s m g t seen) (same : ∀ a, seen a ↔ seen' a) :
    Halfway s m g t seen' :=
  { half with
    flag := fun a => (half.flag a).trans (same a)
    done := fun a member => (same a).mp (half.done a member) }

private theorem Halfway.startMark (half : Halfway s m g t seen) (c : Address) :
    Halfway s (m.1, m.2.setMark c true) g t (fun a => seen a ∨ a = c) := by
  refine { half with flag := ?_, done := fun a member => Or.inl (half.done a member) }
  intro a
  change Function.update m.2.marked c true a = true ↔ _
  rw [Function.update_apply]
  split_ifs with equal
  · simp [equal]
  · simp [equal, half.flag a]

theorem Halfway.endMark (half : Halfway s m g t seen) (member : c ∈ g) (before : seen c) :
    Halfway s (endMark c m) (g.erase c) (c :: t) seen := by
  have nodup := half.left.nodup
  have out : c ∉ t := fun inside => half.apart c inside member
  have moved := half.left.erase_other member half.moved half.apart
  have left := half.left.erase member
  have gone : c ∉ g.erase c := fun inside => (List.Nodup.mem_erase_iff nodup).mp inside |>.1 rfl
  have apart : ∀ a ∈ g.erase c, a ∉ t := fun a kept inside =>
    half.apart a inside (List.mem_of_mem_erase kept)
  refine { half with
    left := moved.addFirst_other left out gone apart
    moved := moved.addFirst out
    apart := ?_, complete := ?_, done := ?_ }
  · intro a inside kept
    rcases List.mem_cons.mp inside with rfl | inside
    · exact gone kept
    · exact apart a kept inside
  · intro a live
    rcases half.complete a live with inside | inside
    · by_cases equal : a = c
      · exact Or.inr (by simp [equal])
      · exact Or.inl ((List.Nodup.mem_erase_iff nodup).mpr ⟨equal, inside⟩)
    · exact Or.inr (List.mem_cons_of_mem c inside)
  · intro a inside
    rcases List.mem_cons.mp inside with rfl | inside
    · exact before
    · exact half.done a inside

def unmarkedOf (m : Marking) (g : List Address) : List Address := g.filter fun a => !m.2.marked a

/-- What a call of `Mark` at some depth is shown to do. -/
def MarksFrom (s : SQSharedState) (g t : List Address) (seen : Address → Prop) (m' : Marking)
    (starts : List Address) : Prop :=
  ∃ found, Visits s.children seen starts found ∧
    Halfway s m' (g.filter (· ∉ found)) (found ++ t) (fun a => seen a ∨ a ∈ found)

private theorem unmarked_sublist {m' : Marking} {found : List Address} {seen' : Address → Prop}
    {g' t' : List Address} (half : Halfway s m g t seen) (half' : Halfway s m' g' t' seen')
    (more : ∀ a, seen a → seen' a) :
    (unmarkedOf m' (g.filter (· ∉ found))).Sublist (unmarkedOf m g) := by
  rw [unmarkedOf, unmarkedOf, List.filter_filter]
  refine List.monotone_filter_right g fun a keeps => ?_
  have new : ¬ seen' a := by
    rw [← half'.flag a]
    simp at keeps ⊢
    exact keeps.1
  have old : ¬ m.2.marked a = true := by
    rw [half.flag a]
    exact fun before => new (more a before)
  simpa using old

private theorem markAll_spec {depth : Nat}
    (each : ∀ c m g t seen, s.Live c → Halfway s m g t seen → (unmarkedOf m g).length ≤ depth →
      MarksFrom s g t seen (mark depth c m) [c])
    (starts : List Address) (live : ∀ a ∈ starts, s.Live a) (half : Halfway s m g t seen)
    (enough : (unmarkedOf m g).length ≤ depth) :
    MarksFrom s g t seen (starts.foldl (fun m a => mark depth a m) m) starts := by
  induction starts generalizing m g t seen with
  | nil =>
      refine ⟨[], visits_nil, ?_⟩
      simpa using half
  | cons c starts ih =>
      obtain ⟨found, visits, half₁⟩ := each c m g t seen (live c (by simp)) half enough
      have fewer : (unmarkedOf _ (g.filter (· ∉ found))).length ≤ (unmarkedOf m g).length :=
        (unmarked_sublist half half₁ fun a before => Or.inl before).length_le
      obtain ⟨found', visits', half₂⟩ := ih (fun a member => live a (by simp [member])) half₁
        (Nat.le_trans fewer enough)
      refine ⟨found' ++ found, visits.append visits', ?_⟩
      rw [List.filter_filter] at half₂
      have same : (g.filter fun a => decide (a ∉ found') && decide (a ∉ found)) =
          g.filter (· ∉ found' ++ found) := by
        refine List.filter_congr fun a _ => ?_
        simp
      rw [same, ← List.append_assoc] at half₂
      refine half₂.congr fun a => ?_
      rw [List.mem_append]
      tauto

private theorem mark_spec (closed : s.Closed) (depth : Nat) (live : s.Live c)
    (half : Halfway s m g t seen) (enough : (unmarkedOf m g).length ≤ depth) :
    MarksFrom s g t seen (mark depth c m) [c] := by
  induction depth generalizing c m g t seen with
  | zero =>
      have before : seen c := by
        by_contra new
        rcases half.complete c live with inside | inside
        · have here : c ∈ unmarkedOf m g := by
            have clear : ¬ m.2.marked c = true := (half.flag c).not.mpr new
            simpa [unmarkedOf, inside] using clear
          rw [List.length_eq_zero_iff.mp (Nat.le_zero.mp enough)] at here
          simp at here
        · exact new (half.done c inside)
      refine ⟨[], visits_seen before, ?_⟩
      simpa [mark] using half
  | succ depth ih =>
      by_cases before : seen c
      · refine ⟨[], visits_seen before, ?_⟩
        rw [mark, if_pos ((half.flag c).mpr before)]
        simpa using half
      · have clear : ¬ m.2.marked c = true := (half.flag c).not.mpr before
        have inside : c ∈ g := (half.complete c live).resolve_right fun moved =>
          before (half.done c moved)
        have started := half.startMark c
        -- The object itself is one that the nested calls no longer have to mark.
        have fewer : (unmarkedOf (m.1, m.2.setMark c true) g).length ≤ depth := by
          have here : c ∈ unmarkedOf m g := by simpa [unmarkedOf, inside] using clear
          have less : unmarkedOf (m.1, m.2.setMark c true) g = (unmarkedOf m g).erase c := by
            rw [unmarkedOf, unmarkedOf, List.Nodup.erase_eq_filter (half.left.nodup.filter _),
              List.filter_filter]
            refine List.filter_congr fun a _ => ?_
            change (!Function.update m.2.marked c true a) = _
            rw [Function.update_apply]
            by_cases equal : a = c <;> simp [equal]
          rw [less, List.length_erase_of_mem here]
          omega
        have visited : m.2.marksAt c = s.marksAt c := by
          rw [marksAt, marksAt, half.objects]
        obtain ⟨found, visits, half'⟩ := markAll_spec (fun c m g t seen => ih) (s.children c)
          (closed.children c) started fewer
        have kept : c ∈ g.filter (· ∉ found) := by
          rw [List.mem_filter]
          exact ⟨inside, by simpa using fun member => visits.fresh c member (Or.inr rfl)⟩
        refine ⟨c :: found, visits.node before, ?_⟩
        rw [mark, if_neg clear, visited]
        have ended := half'.endMark kept (Or.inl (Or.inr rfl))
        have same : (g.filter (· ∉ found)).erase c = g.filter (· ∉ c :: found) := by
          rw [List.Nodup.erase_eq_filter (half.left.nodup.filter _), List.filter_filter]
          refine List.filter_congr fun a _ => ?_
          by_cases equal : a = c <;> simp [equal]
        rw [same] at ended
        refine ended.congr fun a => ?_
        rw [List.mem_cons]
        tauto

/-- `RunMark` splits the chain into what is reachable and the rest, which keeps its order. -/
theorem runMark_spec (closed : s.Closed) (listed : s.Listed g) {depth : Nat}
    (enough : g.length ≤ depth) :
    ∃ found, (∀ a, a ∈ found ↔ s.Reach a) ∧
      Halfway s (runMark depth s) (g.filter (· ∉ found)) found (· ∈ found) := by
  have start : Halfway s (none, s) g [] (fun _ => False) :=
    { left := listed.chain, moved := chained_nil, apart := by simp,
      complete := fun a live => Or.inl ((listed.mem a).mpr live),
      flag := by simp [listed.unmarked], done := by simp,
      objects := rfl, uiRef := rfl, roots := rfl }
  obtain ⟨found, visits, half⟩ := markAll_spec
    (fun c m g t seen live => mark_spec closed depth live) _ closed.roots start
    (Nat.le_trans (List.length_filter_le _ _) enough)
  refine ⟨found, fun a => visits.mem_iff, ?_⟩
  rw [List.append_nil] at half
  exact half.congr fun a => by simp

end Mark

section Chain

variable {links : Links Address} {head : Option Address} {a b : List Address} {steps : Nat}

private theorem chainFrom_eq (chained : Chained links head (a ++ b)) (enough : b.length ≤ steps) :
    chainFrom links steps b.head? = b := by
  induction b generalizing a steps with
  | nil => cases steps <;> rfl
  | cons t b ih =>
      obtain ⟨steps, rfl⟩ : ∃ k, steps = k + 1 := ⟨steps - 1, by simp at enough; omega⟩
      rw [List.head?_cons, chainFrom, chained.next a t b rfl]
      have rest : Chained links head ((a ++ [t]) ++ b) := by simpa using chained
      rw [ih rest (by simpa using enough)]

theorem unMarkFrom_eq {s : SQSharedState} (chained : Chained s.links head (a ++ b))
    (enough : b.length ≤ steps) :
    unMarkFrom steps b.head? s =
      { s with marked := fun c => if c ∈ b then false else s.marked c } := by
  induction b generalizing a steps s with
  | nil => cases steps <;> simp [unMarkFrom]
  | cons t b ih =>
      obtain ⟨steps, rfl⟩ : ∃ k, steps = k + 1 := ⟨steps - 1, by simp at enough; omega⟩
      have next : (s.setMark t false).links.next t = b.head? := chained.next a t b rfl
      have rest : Chained (s.setMark t false).links head ((a ++ [t]) ++ b) := by
        rw [List.append_assoc]
        exact chained
      rw [List.head?_cons, unMarkFrom, next, ih rest (by simpa using enough)]
      simp only [setMark, SQSharedState.mk.injEq, true_and, and_true]
      funext c
      rw [Function.update_apply]
      by_cases equal : c = t <;> simp [equal]

end Chain

section Resurrect

/-- The values that stand for the objects met, without prototypes and outers. -/
def SQSharedState.carried (s : SQSharedState) (met : List Address) : List SQObject :=
  (met.filterMap fun t => (s.objects t).map (Collectable.asObject t)).filter fun o =>
    o.type ≠ .funcproto ∧ o.type ≠ .outer

@[simp] theorem asObject_collectable (t : Address) (body : Collectable) :
    (body.asObject t).collectable = some t := by
  cases body <;> rfl

theorem collectables_carried {s : SQSharedState} {met : List Address} {a : Address}
    (member : a ∈ collectables (s.carried met)) : a ∈ met := by
  obtain ⟨o, inside, here⟩ := List.mem_filterMap.mp member
  obtain ⟨t, met', body⟩ := List.mem_filterMap.mp (List.mem_filter.mp inside).1
  obtain ⟨body', -, rfl⟩ := Option.map_eq_some_iff.mp body
  rw [asObject_collectable] at here
  exact Option.some.inj here ▸ met'

private theorem carried_congr {s s' : SQSharedState} {met : List Address}
    (same : ∀ t ∈ met, s'.objects t = s.objects t) : s'.carried met = s.carried met := by
  rw [carried, carried, List.filterMap_congr fun t member => by rw [same t member]]

private theorem resurrectAll_eq {ret : Address} {met : List Address} {s : SQSharedState}
    {values : List SQObject} (other : ret ∉ met) (holds : s.objects ret = some (.array values)) :
    met.foldl (resurrect ret) s =
      { s with
        objects := Function.update s.objects ret (some (.array (values ++ s.carried met)))
        uiRef := fun a => s.uiRef a + (collectables (s.carried met)).count a } := by
  induction met generalizing s values with
  | nil => simp [carried, collectables, ← holds]
  | cons t met ih =>
      obtain ⟨apart, rest⟩ : ret ≠ t ∧ ret ∉ met := by simpa using other
      rw [List.foldl_cons]
      cases body : s.objects t with
      | none =>
          have skip : resurrect ret s t = s := by simp [resurrect, body]
          rw [skip, ih rest holds]
          simp [carried, body]
      | some body' =>
          by_cases kind : (body'.asObject t).type ≠ .funcproto ∧ (body'.asObject t).type ≠ .outer
          · have append : resurrect ret s t =
                (s.addRef t).setObject ret (some (.array (values ++ [body'.asObject t]))) := by
              simp only [resurrect, body, holds]
              rw [if_pos kind]
            have same : ((s.addRef t).setObject ret
                (some (.array (values ++ [body'.asObject t])))).carried met = s.carried met := by
              refine carried_congr fun k member => ?_
              change Function.update s.objects ret _ k = _
              rw [Function.update_of_ne]
              intro equal
              exact rest (equal ▸ member)
            have held : ((s.addRef t).setObject ret
                (some (.array (values ++ [body'.asObject t])))).objects ret =
                  some (.array (values ++ [body'.asObject t])) := Function.update_self ret _ _
            rw [append, ih rest held, same]
            have split : s.carried (t :: met) = body'.asObject t :: s.carried met := by
              simp [carried, body, kind]
            rw [split]
            simp only [setObject, addRef, setRef, SQSharedState.mk.injEq, Function.update_idem,
              List.append_assoc, List.singleton_append, true_and, and_true]
            funext a
            have count : (collectables (body'.asObject t :: s.carried met)).count a =
                (collectables (s.carried met)).count a + if t = a then 1 else 0 := by
              simp [collectables, List.count_cons]
            rw [Function.update_apply, count]
            by_cases equal : a = t
            · rw [if_pos equal, if_pos equal.symm, equal]
              omega
            · rw [if_neg equal, if_neg (Ne.symm equal)]
              rfl
          · have skip : resurrect ret s t = s := by
              simp only [resurrect, body, holds]
              rw [if_neg kind]
            have split : s.carried (t :: met) = s.carried met := by
              simp only [carried, List.filterMap_cons, body, Option.map_some]
              rw [List.filter_cons_of_neg (by simpa using kind)]
            rw [skip, ih rest holds, split]

variable {s : SQSharedState} {g : List Address}

theorem Halfway.mem_iff {m : Marking} {found : List Address} (closed : s.Closed)
    (listed : s.Listed g) (reached : ∀ a, a ∈ found ↔ s.Reach a)
    (half : Halfway s m (g.filter (· ∉ found)) found (· ∈ found)) (a : Address) :
    a ∈ g.filter (· ∉ found) ++ found ↔ s.Live a := by
  rw [List.mem_append]
  refine ⟨?_, half.complete a⟩
  intro member
  rcases member with member | member
  · exact (listed.mem a).mp (List.mem_filter.mp member).1
  · exact ((reached a).mp member).live closed

private theorem listed_unMarkFrom {s' : SQSharedState} {l : List Address} (steps : Nat)
    (chain : Chained s'.links s'.gcChain l) (mem : ∀ a, a ∈ l ↔ s'.Live a)
    (flagged : ∀ a, s'.marked a = true → a ∈ l) (enough : l.length ≤ steps) :
    (unMarkFrom steps s'.gcChain s').Listed l ∧
      (unMarkFrom steps s'.gcChain s').objects = s'.objects ∧
      (unMarkFrom steps s'.gcChain s').uiRef = s'.uiRef ∧
      (unMarkFrom steps s'.gcChain s').roots = s'.roots := by
  have cleared : unMarkFrom steps (List.head? l) s' = _ := unMarkFrom_eq (a := []) chain enough
  rw [← chain.first] at cleared
  rw [cleared]
  refine ⟨⟨chain, mem, ?_⟩, rfl, rfl, rfl⟩
  intro a
  change (if a ∈ l then false else s'.marked a) = false
  split_ifs with member
  · rfl
  · exact Bool.eq_false_iff.mpr fun flag => member (flagged a flag)

def foundValue (fresh : Address) (lost : List Address) : SQObject :=
  if lost = [] then .null else .array fresh

/-- The heap with those objects in an array, which the value to push alone refers to. -/
def SQSharedState.withFound (s : SQSharedState) (fresh : Address) (lost : List Address) :
    SQSharedState :=
  if lost = [] then s
  else
    { s with
      objects := Function.update s.objects fresh (some (.array (s.carried lost)))
      uiRef := fun a =>
        if a = fresh then 1 else s.uiRef a + (collectables (s.carried lost)).count a }

/-- Nothing is lost, and nothing but the new array changes: the chain lists the live objects again,
with no flag set. -/
structure Resurrected (s : SQSharedState) (fresh : Address) (lost : List Address)
    (r : Nat × SQObject × SQSharedState) : Prop where
  count : r.1 = lost.length
  value : r.2.1 = foundValue fresh lost
  objects : r.2.2.objects = (s.withFound fresh lost).objects
  uiRef : r.2.2.uiRef = (s.withFound fresh lost).uiRef
  roots : r.2.2.roots = s.roots
  listed : ∃ g', r.2.2.Listed g'

private theorem resurrected_of_none {bound : Nat} (fresh : Address) {found : List Address}
    (half : Halfway s (runMark bound s) [] found (· ∈ found))
    (members : ∀ a, a ∈ found ↔ s.Live a) (enough : found.length < bound) :
    Resurrected s fresh [] (resurrectArray bound fresh s) := by
  have nothing : resurrectArray bound fresh s = (0, .null, unMarkFrom bound (runMark bound s).1
      { (runMark bound s).2 with gcChain := (runMark bound s).1 }) := by
    have first : (runMark bound s).2.gcChain = none := half.left.first
    simp only [resurrectArray, first]
  have live : ∀ a, a ∈ found ↔
      SQSharedState.Live { (runMark bound s).2 with gcChain := (runMark bound s).1 } a := by
    intro a
    rw [members a, Live, Live, half.objects]
  obtain ⟨again, objects, counts, roots⟩ := listed_unMarkFrom bound half.moved live
    (fun a flag => (half.flag a).mp flag) (Nat.le_of_lt enough)
  rw [nothing]
  exact ⟨rfl, rfl, objects.trans half.objects, counts.trans half.uiRef, roots.trans half.roots,
    found, again⟩

/-- The array is created on the second chain. -/
def withNewArray (fresh : Address) (m : Marking) : SQSharedState :=
  ((({ m.2 with gcChain := m.1 }.setObject fresh (some (.array []))).setRef fresh 0).setMark fresh
    false).addToChain fresh

/-- The objects left on the first chain are put into the array, and the second chain follows the
last of them. -/
def withFilledArray (fresh first last : Address) (found : List SQObject) (s : SQSharedState) :
    SQSharedState :=
  { s with
    objects := Function.update s.objects fresh (some (.array found))
    uiRef := fun a => s.uiRef a + (collectables found).count a
    links := (s.links.setNext last (some fresh)).setPrev fresh (some last)
    gcChain := some first }

section Array

variable {m : Marking} {lost found init : List Address} {fresh first last : Address}

private theorem Halfway.newArray_chained (half : Halfway s m lost found (· ∈ found))
    (outside : fresh ∉ lost ∧ fresh ∉ found) :
    Chained (withNewArray fresh m).links (some fresh) (fresh :: found) ∧
      Chained (withNewArray fresh m).links m.2.gcChain lost := by
  constructor
  · have added := half.moved.addFirst outside.2
    rwa [addFirst_head] at added
  · exact half.moved.addFirst_other half.left outside.2 outside.1 fun a left found =>
      half.apart a found left

private theorem Halfway.newArray_carried (half : Halfway s m lost found (· ∈ found))
    (outside : fresh ∉ lost) : (withNewArray fresh m).carried lost = s.carried lost := by
  refine carried_congr fun a member => ?_
  change Function.update m.2.objects fresh _ a = _
  rw [Function.update_of_ne, half.objects]
  intro equal
  exact outside (equal ▸ member)

private theorem resurrectArray_eq {bound : Nat}
    (half : Halfway s (runMark bound s) (init ++ [last]) found (· ∈ found))
    (outside : fresh ∉ init ++ [last] ∧ fresh ∉ found)
    (head : (init ++ [last]).head? = some first) (enough : (init ++ [last]).length ≤ bound) :
    resurrectArray bound fresh s = ((init ++ [last]).length, .array fresh,
      (unMarkFrom bound (some first) (withFilledArray fresh first last (s.carried (init ++ [last]))
        (withNewArray fresh (runMark bound s)))).addRef fresh) := by
  have start : (runMark bound s).2.gcChain = some first := half.left.first.trans head
  have chainLost := (half.newArray_chained outside).2
  set created := withNewArray fresh (runMark bound s) with createdEq
  have met : chainFrom created.links bound (some first) = init ++ [last] := by
    rw [← start, half.left.first]
    exact chainFrom_eq (a := []) chainLost enough
  have filled := resurrectAll_eq (s := created) outside.1 (Function.update_self fresh _ _)
  rw [half.newArray_carried outside.1, List.nil_append] at filled
  have top : created.gcChain = some fresh := addFirst_head
  have ends : (init ++ [last]).getLast? = some last := by simp
  rw [withNewArray] at createdEq
  simp only [resurrectArray, start, ← createdEq, met, filled, top, ends, withFilledArray]

private theorem Halfway.filledArray_chained
    (half : Halfway s m (init ++ [last]) found (· ∈ found))
    (outside : fresh ∉ init ++ [last] ∧ fresh ∉ found)
    (head : (init ++ [last]).head? = some first) (carried : List SQObject) :
    Chained (withFilledArray fresh first last carried (withNewArray fresh m)).links (some first)
      (init ++ [last] ++ fresh :: found) := by
  obtain ⟨chainFound, chainLost⟩ := half.newArray_chained outside
  rw [half.left.first, head] at chainLost
  refine chainLost.join chainFound fun a right left => ?_
  rcases List.mem_cons.mp right with rfl | right
  · exact outside.1 left
  · exact half.apart a right left

private theorem Halfway.filledArray_objects (half : Halfway s m lost found (· ∈ found))
    (carried : List SQObject) :
    (withFilledArray fresh first last carried (withNewArray fresh m)).objects =
      Function.update s.objects fresh (some (.array carried)) := by
  change Function.update (Function.update m.2.objects fresh _) fresh _ = _
  rw [Function.update_idem, half.objects]

private theorem Halfway.filledArray_uiRef (half : Halfway s m lost found (· ∈ found))
    (carried : List SQObject) (a : Address) :
    (withFilledArray fresh first last carried (withNewArray fresh m)).uiRef a =
      (if a = fresh then 0 else s.uiRef a) + (collectables carried).count a := by
  change Function.update m.2.uiRef fresh 0 a + _ = _
  rw [Function.update_apply, half.uiRef]

private theorem Halfway.filledArray_live (half : Halfway s m lost found (· ∈ found))
    (members : ∀ a, a ∈ lost ++ found ↔ s.Live a) (carried : List SQObject) (a : Address) :
    a ∈ lost ++ fresh :: found ↔
      (withFilledArray fresh first last carried (withNewArray fresh m)).Live a := by
  rw [Live, half.filledArray_objects, Function.update_apply]
  split_ifs with equal
  · simp [equal]
  · have same := members a
    rw [Live] at same
    rw [← same]
    simp [equal]

private theorem Halfway.filledArray_flagged (half : Halfway s m lost found (· ∈ found))
    (carried : List SQObject) (a : Address)
    (flag : (withFilledArray fresh first last carried (withNewArray fresh m)).marked a = true) :
    a ∈ lost ++ fresh :: found := by
  change Function.update m.2.marked fresh false a = true at flag
  rw [Function.update_apply] at flag
  split_ifs at flag with equal
  have inside := (half.flag a).mp flag
  simp [inside]

private theorem resurrected_of_some {bound : Nat}
    (half : Halfway s (runMark bound s) lost found (· ∈ found)) (some : lost ≠ [])
    (members : ∀ a, a ∈ lost ++ found ↔ s.Live a) (new : ¬ s.Live fresh)
    (enough : (lost ++ found).length < bound) :
    Resurrected s fresh lost (resurrectArray bound fresh s) := by
  have outside : fresh ∉ lost ∧ fresh ∉ found := by
    rw [← not_or, ← List.mem_append, members]
    exact new
  have array : foundValue fresh lost = .array fresh := if_neg some
  have heap : s.withFound fresh lost = _ := if_neg some
  obtain ⟨init, last, rfl⟩ := (List.eq_nil_or_concat' lost).resolve_left some
  obtain ⟨first, head⟩ : ∃ first, (init ++ [last]).head? = .some first := by
    cases init <;> exact ⟨_, rfl⟩
  set carried := s.carried (init ++ [last]) with carriedEq
  obtain ⟨again, objects, counts, roots⟩ := listed_unMarkFrom bound
    (half.filledArray_chained outside head carried) (half.filledArray_live members carried)
    (half.filledArray_flagged carried) (by simp at enough ⊢; omega)
  rw [resurrectArray_eq half outside head (by simp at enough ⊢; omega), ← carriedEq]
  refine ⟨rfl, array.symm, ?_, ?_, roots.trans half.roots, _,
    ⟨again.chain, again.mem, again.unmarked⟩⟩
  · rw [heap]
    exact objects.trans (half.filledArray_objects carried)
  rw [heap]
  funext a
  -- The new array is referred to by nothing but the stack slot it is pushed on.
  have unreferenced : (collectables carried).count fresh = 0 :=
    List.count_eq_zero.mpr fun member => outside.1 (collectables_carried member)
  have raised : ∀ b, (unMarkFrom bound (.some first) (withFilledArray fresh first last carried
      (withNewArray fresh (runMark bound s)))).uiRef b =
        (if b = fresh then 0 else s.uiRef b) + (collectables carried).count b :=
    fun b => (congrFun counts b).trans (half.filledArray_uiRef carried b)
  change Function.update (unMarkFrom bound _ _).uiRef fresh _ a =
    if a = fresh then 1 else s.uiRef a + (collectables carried).count a
  by_cases equal : a = fresh
  · rw [if_pos equal, equal, Function.update_self, raised, if_pos rfl, unreferenced]
  · rw [if_neg equal, Function.update_of_ne equal, raised, if_neg equal]

end Array

/-- The live objects that marking does not reach are counted and given back in an array, without the
prototypes and outers; null stands for none. -/
theorem resurrectArray_resurrected {fresh : Address} (bound : Nat) (closed : s.Closed)
    (listed : s.Listed g) (new : ¬ s.Live fresh) (enough : g.length < bound) :
    ∃ lost : List Address, lost.Sublist g ∧ (∀ a, a ∈ lost ↔ s.Live a ∧ ¬ s.Reach a) ∧
      Resurrected s fresh lost (resurrectArray bound fresh s) := by
  obtain ⟨found, reached, half⟩ := runMark_spec closed listed (Nat.le_of_lt enough)
  have members := half.mem_iff closed listed reached
  have long : (g.filter (· ∉ found) ++ found).length < bound := by
    have nodup : (g.filter (· ∉ found) ++ found).Nodup := by
      refine List.nodup_append.mpr ⟨half.left.nodup, half.moved.nodup, ?_⟩
      intro a left b right equal
      exact half.apart b right (equal ▸ left)
    have short := (List.subperm_of_subset nodup fun a member =>
      (listed.mem a).mpr ((members a).mp member)).length_le
    omega
  refine ⟨g.filter (· ∉ found), List.filter_sublist, ?_, ?_⟩
  · intro a
    rw [List.mem_filter, listed.mem, ← reached a]
    simp
  · by_cases none : g.filter (· ∉ found) = []
    · rw [none] at half members long ⊢
      exact resurrected_of_none fresh half (by simpa using members) (by simpa using long)
    · exact resurrected_of_some half none members new long

def idleThread (rootTable : Address) : Thread :=
  ⟨.null, .null, .null, .table rootTable, .null, List.replicate 4 .null, 0, [], []⟩

def rootsOf (rootVm : Address) (refsTable : List SQObject) : Roots :=
  ⟨rootVm, refsTable, .null, .null, .null, .null, .null, .null, .null, .null, .null, .null, .null,
    .null, .null⟩

/-- A global function with a free variable, and a table and an array that only refer to each other
and to a second function. -/
def cyclicHeap : List (Address × Collectable) :=
  [(9, .funcProto [.string "x"] []),
    (8, .closure none 9 [] []),
    (7, .array [.table 6, .closure 8]),
    (6, .table none [(.string "list", .array 7)]),
    (5, .outer (.integer 1) none),
    (4, .funcProto [] []),
    (3, .closure none 4 [.outer 5] []),
    (2, .table none [(.string "f", .closure 3)]),
    (1, .thread (idleThread 2))]

def stateOf (heap : List (Address × Collectable)) (uiRef : Address → Nat) (roots : Roots) :
    SQSharedState :=
  ⟨fun a => heap.lookup a, uiRef, fun _ => false, (ofList (heap.map Prod.fst)).1,
    (ofList (heap.map Prod.fst)).2, roots⟩

theorem stateOf_live {heap : List (Address × Collectable)} {uiRef : Address → Nat} {roots : Roots}
    {a : Address} : (stateOf heap uiRef roots).Live a ↔ a ∈ heap.map Prod.fst := by
  change (heap.lookup a).isSome = true ↔ _
  induction heap with
  | nil => simp
  | cons entry heap ih =>
      rw [List.lookup_cons]
      by_cases equal : a = entry.1
      · simp [equal]
      · have differs : (a == entry.1) = false := by simpa using equal
        simp [differs, equal, ← ih]

theorem stateOf_listed {heap : List (Address × Collectable)} {uiRef : Address → Nat} {roots : Roots}
    (nodup : (heap.map Prod.fst).Nodup) : (stateOf heap uiRef roots).Listed (heap.map Prod.fst) :=
  ⟨chained_ofList nodup, fun _ => stateOf_live.symm, fun _ => rfl⟩

def cyclicState : SQSharedState := stateOf cyclicHeap (fun _ => 1) (rootsOf 1 [])

end Resurrect

end SquirrelGObject.Engine.Collector
