/- SquirrelGObject/Engine/Collecting
   digest: When `CollectGarbage` destroys all unreachable objects, and only these. -/

import Mathlib.Data.Finset.Max
import SquirrelGObject.Engine.Sweeping

set_option autoImplicit false
set_option relaxedAutoImplicit false

open SquirrelGObject.Lib.TwoWay

namespace SquirrelGObject.Engine.Collector

namespace SQSharedState

/-- What the root slots hold, together with what the host holds outside of them. -/
def heldBy (s : SQSharedState) (external : Address → Nat) (a : Address) : Nat :=
  (collectables s.roots.visited).count a + external a

/-- Between two calls of the engine: the chain lists the live objects, no reference dangles, and
every count is exact. -/
structure Sound (s : SQSharedState) (external : Address → Nat) (g : List Address) : Prop where
  listed : s.Listed g
  rooted : ∀ a ∈ collectables s.roots.visited, s.Live a
  balanced : Balanced g.toFinset (s.heldBy external) [] s

/-- Values carry the type of the object they refer to. Outers are no values of a script, a generator
runs a closure, and the functions inside a prototype are prototypes nested less deep. -/
structure Typed (s : SQSharedState) : Prop where
  tags : ∀ a body, s.objects a = some body → ∀ o ∈ body.holds, ∀ b, o.collectable = some b →
    ∃ body', s.objects b = some body' ∧ body'.asObject b = o
  slots : ∀ a v, s.objects a = some (.thread v) → ∀ p, .outer p ∉ v.stack
  running : ∀ a c stack ci, s.objects a = some (.generator c stack ci) →
    ∀ b, ci.collectable = some b → ci = .closure b
  nested : ∃ depth : Address → Nat, ∀ a literals functions,
    s.objects a = some (.funcProto literals functions) →
      ∀ o ∈ functions, ∀ b, o.collectable = some b → o = .funcproto b ∧ depth b < depth a

/-- No variable of an unreachable thread is shared with a reachable closure. -/
def Separate (s : SQSharedState) : Prop :=
  ∀ a v, s.objects a = some (.thread v) → ¬ s.Reach a → ∀ p ∈ v.openOuters, ¬ s.Reach p

/-- Objects that marking does not reach are held by such objects only. -/
def Unheld (s : SQSharedState) (external : Address → Nat) : Prop :=
  ∀ a, s.Live a → ¬ s.Reach a → external a = 0 ∧ ∀ b, s.Reach b → a ∉ s.refsAt b

end SQSharedState

open SQSharedState

section Facts

variable {s : SQSharedState} {g : List Address} {external : Address → Nat}

private theorem Collectable.marks_subset (body : Collectable) : body.marks ⊆ body.holds := by
  intro o member
  cases body with
  | generator c stack ci =>
      simp only [marks, holds, List.mem_append, List.mem_cons, List.not_mem_nil] at member ⊢
      tauto
  | thread v => exact List.mem_append_left _ member
  | outer value idx =>
      cases idx with
      | none => exact member
      | some idx => cases member
  | _ => exact member

private theorem SQSharedState.children_subset (s : SQSharedState) (a : Address) :
    s.children a ⊆ s.refsAt a := by
  intro b member
  rw [children, marksAt] at member
  rw [refsAt]
  cases here : s.objects a with
  | none => simp [here] at member
  | some body =>
      rw [here] at member
      obtain ⟨o, inside, address⟩ := List.mem_filterMap.mp member
      exact List.mem_filterMap.mpr ⟨o, body.marks_subset inside, address⟩

theorem SQSharedState.Sound.closed (sound : s.Sound external g) : s.Closed :=
  ⟨sound.rooted, fun a b child => sound.balanced.known a b (s.children_subset a child)⟩

private theorem closingsOf_thread (v : Thread) :
    closingsOf v.finalizing = v.openOuters.map (·, v.stack) := by
  rw [Thread.finalizing, closingsOf_append, closingsOf_releases, List.append_nil]
  induction v.openOuters with
  | nil => rfl
  | cons p l ih => simp [Task.closings, ih]

theorem mem_closings {body : Collectable} {c : Address × List SQObject}
    (member : c ∈ closingsOf body.finalizing) :
    ∃ v, body = .thread v ∧ c.1 ∈ v.openOuters ∧ c.2 = v.stack := by
  cases body with
  | thread v =>
      rw [Collectable.finalizing, closingsOf_thread] at member
      obtain ⟨p, inside, rfl⟩ := List.mem_map.mp member
      exact ⟨v, rfl, inside, rfl⟩
  | inst fields => cases fields <;> simp [Collectable.finalizing] at member
  | _ => simp [Collectable.finalizing, Class.finalizing] at member

theorem length_le_work (listed : s.Listed g) : g.length ≤ work g.toFinset s := by
  rw [← List.toFinset_card_of_nodup listed.chain.nodup, Finset.card_eq_sum_ones]
  refine Finset.sum_le_sum fun a member => ?_
  have live := (listed.mem a).mp (List.mem_toFinset.mp member)
  obtain ⟨body, here⟩ := Option.isSome_iff_exists.mp live
  have one : 0 < weightOf (body.destroy a) := by
    cases body <;> simp [Collectable.destroy, Task.weight]
  rw [workAt, here]
  exact one

end Facts

section Rank

def rankOf (depth : Address → Nat) (most : Nat) (s : SQSharedState) (a : Address) : Nat :=
  match s.objects a with
  | some (.outer ..) => most + 3
  | some (.generator ..) => most + 2
  | some (.closure ..) => most + 1
  | some (.funcProto ..) => depth a
  | _ => 0

variable {s : SQSharedState} {g : List Address} {depth : Address → Nat} {most : Nat}

private theorem rankOf_eq {b : Address} {body : Collectable} (here : s.objects b = some body) :
    rankOf depth most s b = match (body.asObject b).type with
      | .outer => most + 3
      | .generator => most + 2
      | .closure => most + 1
      | .funcproto => depth b
      | _ => 0 := by
  rw [rankOf, here]
  cases body <;> rfl

private theorem rank_falls (typed : s.Typed) (bounded : ∀ a, s.Live a → depth a ≤ most)
    (nested : ∀ a literals functions, s.objects a = some (.funcProto literals functions) →
      ∀ o ∈ functions, ∀ b, o.collectable = some b → o = .funcproto b ∧ depth b < depth a) :
    Falls (rankOf depth most s) s := by
  intro a body here b member
  rw [body.finalized_refs] at member
  obtain ⟨o, left, address⟩ := List.mem_filterMap.mp member
  rw [rankOf_eq here]
  cases body with
  | closure base function outerValues defaultParams =>
      have kept : o = pointer .cls base ∨ o = .funcproto function := by
        simpa [Collectable.leftover] using left
      have held : o ∈ (Collectable.closure base function outerValues defaultParams).holds := by
        rcases kept with rfl | rfl <;> simp [Collectable.holds, Collectable.marks]
      obtain ⟨body', here', tag⟩ := typed.tags a _ here o held b address
      have deep := bounded b (by simp [Live, here'])
      rw [rankOf_eq here', tag]
      rcases kept with rfl | rfl
      · cases base with
        | none => cases address
        | some k => simp [pointer, SQObject.type, Collectable.asObject]
      · exact Nat.lt_succ_of_le deep
  | generator c stack ci =>
      obtain rfl : o = ci := by simpa [Collectable.leftover] using left
      obtain ⟨body', here', tag⟩ := typed.tags a _ here o (by simp [Collectable.holds]) b address
      rw [rankOf_eq here', tag, typed.running a c stack o here b address]
      exact Nat.lt_succ_self _
  | funcProto literals functions =>
      obtain ⟨isProto, deeper⟩ := nested a literals functions here o left b address
      obtain ⟨body', here', tag⟩ := typed.tags a _ here o
        (List.mem_append_right literals left) b address
      rw [rankOf_eq here', tag, isProto]
      simpa only [SQObject.type, Collectable.asObject] using deeper
  | _ => simp [Collectable.leftover] at left

theorem SQSharedState.Typed.rank (typed : s.Typed) (listed : s.Listed g) :
    ∃ rank, Falls rank s ∧ ∀ a v, s.objects a = some (.thread v) → ∀ p ∈ v.openOuters,
      ∀ b ∈ collectables v.stack, rank b < rank p := by
  obtain ⟨depth, nested⟩ := typed.nested
  have bounded : ∀ a, s.Live a → depth a ≤ g.toFinset.sup depth := fun a live =>
    Finset.le_sup (List.mem_toFinset.mpr ((listed.mem a).mpr live))
  refine ⟨rankOf depth (g.toFinset.sup depth) s, rank_falls typed bounded nested, ?_⟩
  intro a v here p opened b member
  obtain ⟨outer, isOuter, tag⟩ := typed.tags a (.thread v) here (.outer p)
    (List.mem_append_right _ (List.mem_map_of_mem opened)) p rfl
  obtain ⟨o, slot, address⟩ := List.mem_filterMap.mp member
  have held : o ∈ (Collectable.thread v).holds := by
    simp [Collectable.holds, Collectable.marks, slot]
  obtain ⟨body, here', tag'⟩ := typed.tags a (.thread v) here o held b address
  have deep := bounded b (by simp [Live, here'])
  have inner : (body.asObject b).type ≠ .outer := by
    intro equal
    cases body <;> cases equal
    rw [← tag'] at slot
    exact typed.slots a v here b slot
  rw [rankOf_eq isOuter, tag, rankOf_eq here']
  generalize (body.asObject b).type = kind at inner
  change _ < g.toFinset.sup depth + 3
  cases kind with
  | outer => exact absurd rfl inner
  | funcproto => exact Nat.lt_of_le_of_lt deep (Nat.lt_add_of_pos_right (by decide))
  | closure | generator => exact Nat.add_lt_add_left (by decide) _
  | _ => exact Nat.succ_pos _

end Rank

section Collect

variable {s : SQSharedState} {g : List Address} {external : Address → Nat} {bound : Nat}

private theorem swept_spec {m : Marking} {lost found : List Address} {rank : Address → Nat}
    (sound : s.Sound external g) (separate : s.Separate)
    (reached : ∀ a, a ∈ found ↔ s.Reach a) (half : Halfway s m lost found (· ∈ found))
    (members : ∀ a, a ∈ lost ++ found ↔ s.Live a) (falls : Falls rank s)
    (lower : ∀ a v, s.objects a = some (.thread v) → ∀ p ∈ v.openOuters,
      ∀ b ∈ collectables v.stack, rank b < rank p)
    (enough : work g.toFinset s < bound) (long : lost.length ≤ bound) :
    let swept := match m.2.gcChain with
      | some t => sweep bound bound (some t) (m.2.addRef t)
      | none => (0, m.2)
    ∃ v, AtEnd g.toFinset (s.heldBy external) rank v swept.2 ∧
      Spares (s.heldBy external) m.2 swept.2 ∧ (swept.1 = 0 ↔ lost = []) ∧
      swept.1 ≤ lost.length := by
  have flags : ∀ a, m.2.marked a = false ↔ ¬ s.Reach a := by
    intro a
    rw [← reached a, ← half.flag a, Bool.not_eq_true]
  have live : ∀ a, m.2.Live a ↔ s.Live a := by
    intro a
    rw [Live, Live, half.objects]
  have balanced : Balanced g.toFinset (s.heldBy external) [] m.2 :=
    sound.balanced.congr half.objects half.uiRef (fun _ => rfl) trivial
  have linked : Linked lost [] m.2 := by
    refine ⟨half.left, fun a => ?_, List.nodup_nil, by simp⟩
    have both := members a
    rw [List.mem_append, reached a] at both
    rw [live, flags, unlinksOf_nil]
    constructor
    · intro inside
      refine Or.inl ⟨both.mp (Or.inl inside), fun reach => ?_⟩
      exact half.apart a ((reached a).mpr reach) inside
    · intro outside
      have facts := outside.resolve_right (by simp)
      exact (both.mpr facts.1).resolve_right facts.2
  intro swept
  have first := half.left.first
  cases lost with
  | nil =>
      have stop : swept = (0, m.2) := by
        simp only [swept, first, List.head?_nil]
      rw [stop]
      have same : Later (Harmless m.2.marked rank) (s.heldBy external) m.2 m.2 := Later.refl m.2
      exact ⟨[], ⟨balanced, linked, by simp, by simp⟩, same.spares, by simp, by simp⟩
  | cons t rest =>
      have go : swept = sweep bound bound (some t) (m.2.addRef t) := by
        simp only [swept, first, List.head?_cons]
      have turn : AtTurn g.toFinset (s.heldBy external) rank [] t rest (m.2.addRef t) := by
        refine ⟨balanced.addRef t, linked_same linked rfl rfl rfl (fun _ => Iff.rfl) rfl,
          ⟨by simp, ?_⟩, ?_, by simp, by simp⟩
        · intro a body here clear c member
          obtain ⟨v, rfl, opened, stack⟩ := mem_closings member
          have here' : s.objects a = some (.thread v) := half.objects ▸ here
          have away := separate a v here' ((flags a).mp clear) c.1 opened
          refine ⟨(flags c.1).mpr away, ?_⟩
          rw [stack]
          exact lower a v here' c.1 opened
        · intro a body here
          exact falls a body (half.objects ▸ here)
      have same : work g.toFinset (m.2.addRef t) = work g.toFinset s := by
        have objects : (m.2.addRef t).objects = s.objects := half.objects
        exact Finset.sum_congr rfl fun a _ => by rw [workAt, workAt, objects]
      rw [List.length_cons] at long
      obtain ⟨v, ends, spares, positive, most⟩ := sweep_spec bound bound turn (by omega) (by omega)
      rw [go]
      have held : Later (Harmless m.2.marked rank) (s.heldBy external) m.2 (m.2.addRef t) :=
        later_addRef t
      refine ⟨v, ends, held.spares.trans spares, ?_, most⟩
      simp
      omega

/-- A survivor that is not reachable is counted, and by another such survivor of higher rank, unless
it is held from outside the garbage. -/
private theorem no_survivor {s' : SQSharedState} {v : List Address} {rank : Address → Nat}
    (rooted : ∀ a, ¬ s.Reach a → (collectables s.roots.visited).count a = 0)
    (ends : AtEnd g.toFinset (s.heldBy external) rank v s')
    (shelter : ∀ b, s.Reach b → s'.refsAt b = s.refsAt b)
    (survivors : ∀ a, a ∈ v ↔ s'.Live a ∧ ¬ s.Reach a) (before : ∀ a, s'.Live a → s.Live a)
    (unheld : s.Unheld external) : v = [] := by
  by_contra some
  obtain ⟨a, top, highest⟩ := v.toFinset.exists_max_image rank
    (List.toFinset_nonempty_iff v |>.mpr some)
  rw [List.mem_toFinset] at top
  obtain ⟨live, away⟩ := (survivors a).mp top
  obtain ⟨outside, inside⟩ := unheld a (before a live) away
  have counted := ends.counted a top
  have exact := ends.balanced.exact a live
  rw [heldBy, rooted a away, outside, refsOf_nil, List.count_nil] at exact
  have nonzero : inbound g.toFinset s' a ≠ 0 := by omega
  obtain ⟨b, -, referring⟩ := Finset.exists_ne_zero_of_sum_ne_zero nonzero
  have member : a ∈ s'.refsAt b := List.count_pos_iff.mp (Nat.pos_of_ne_zero referring)
  by_cases reach : s.Reach b
  · exact inside b reach (shelter b reach ▸ member)
  · have alive : s'.Live b := by
      rw [Live, Option.isSome_iff_ne_none]
      intro gone
      simp [refsAt, gone] at member
    have here := (survivors b).mpr ⟨alive, reach⟩
    have lower := ends.drained b here a member
    have higher := highest b (List.mem_toFinset.mpr here)
    omega

/-- `CollectGarbage` leaves every reachable object as it is, and keeps every count exact. Afterwards
no flag is set, and the chain lists the reachable objects. It answers zero exactly when every live
object is reachable. It destroys all the others exactly when only they hold one another; one that
something else holds survives, emptied, and is on no chain. -/
theorem collect_garbage_exact (s : SQSharedState) (external : Address → Nat) (g : List Address)
    (bound : Nat) (sound : s.Sound external g) (typed : s.Typed) (separate : s.Separate)
    (enough : work g.toFinset s < bound) :
    let r := collectGarbage bound s
    (∃ g', Chained r.2.links r.2.gcChain g' ∧ ∀ a, a ∈ g' ↔ s.Reach a) ∧
      (∀ a, r.2.marked a = false) ∧ (∀ a, s.Reach a → r.2.objects a = s.objects a) ∧
      (∀ a, r.2.Live a → s.Live a) ∧
      (∀ a, r.2.Live a → r.2.uiRef a = s.heldBy external a + inbound g.toFinset r.2 a) ∧
      (r.1 = 0 ↔ ∀ a, s.Live a → s.Reach a) ∧
      ((∀ a, r.2.Live a → s.Reach a) ↔ s.Unheld external) := by
  have short := length_le_work sound.listed
  obtain ⟨rank, falls, lower⟩ := typed.rank sound.listed
  obtain ⟨found, reached, half⟩ := runMark_spec sound.closed sound.listed
    (show g.length ≤ bound by omega)
  have members := half.mem_iff sound.closed sound.listed reached
  have long : (g.filter (· ∉ found)).length ≤ bound := by
    have filtered := List.length_filter_le (fun a => decide (a ∉ found)) g
    omega
  obtain ⟨v, ends, spares, count, -⟩ := swept_spec sound separate reached half members falls lower
    enough long
  set m := runMark bound s
  set swept := (match m.2.gcChain with
    | some t => sweep bound bound (some t) (m.2.addRef t)
    | none => (0, m.2)) with sweptEq
  have flags : ∀ a, m.2.marked a = false ↔ ¬ s.Reach a := by
    intro a
    rw [← reached a, ← half.flag a, Bool.not_eq_true]
  have fits : found.length ≤ bound := by
    have sub : found ⊆ g := fun a member =>
      (sound.listed.mem a).mpr ((members a).mp (List.mem_append_right _ member))
    have fewer := (List.subperm_of_subset half.moved.nodup sub).length_le
    omega
  have chain : Chained swept.2.links m.1 found :=
    spares.chain m.1 found half.moved fun a member => (half.flag a).mpr member
  have cleared := unMarkFrom_eq (a := []) (b := found) chain fits
  rw [← half.moved.first] at cleared
  have result : collectGarbage bound s = (swept.1,
      { swept.2 with
        marked := fun a => if a ∈ found then false else swept.2.marked a
        gcChain := m.1 }) := by
    change (swept.1, { unMarkFrom bound m.1 swept.2 with gcChain := m.1 }) = _
    rw [cleared]
  have live : ∀ a, m.2.Live a ↔ s.Live a := by
    intro a
    rw [Live, Live, half.objects]
  have sheltered : ∀ a, s.Reach a → swept.2.objects a = s.objects a := by
    intro a reach
    rw [spares.shelter a ((half.flag a).mpr ((reached a).mpr reach)), half.objects]
  have survivors : ∀ a, a ∈ v ↔ swept.2.Live a ∧ ¬ s.Reach a := by
    intro a
    rw [ends.linked.mem a, ← flags a, spares.marked, unlinksOf_nil]
    simp
  intro r
  rw [show r = _ from result]
  refine ⟨⟨found, chain, reached⟩, ?_, sheltered, fun a alive => (live a).mp (spares.live a alive),
    ?_, ?_, ?_⟩
  · intro a
    change (if a ∈ found then false else swept.2.marked a) = false
    split_ifs with member
    · rfl
    · rw [spares.marked, flags a, ← reached a]
      exact member
  · intro a alive
    have exact := ends.balanced.exact a alive
    rwa [refsOf_nil, List.count_nil, Nat.add_zero] at exact
  · refine count.trans ⟨fun none a alive => ?_, fun all => ?_⟩
    · rw [none, List.nil_append] at members
      exact (reached a).mp ((members a).mpr alive)
    · refine List.filter_eq_nil_iff.mpr fun a member => ?_
      have inside := (reached a).mpr (all a ((sound.listed.mem a).mp member))
      simpa using inside
  · constructor
    · intro gone a alive away
      refine ⟨?_, fun b reach holds => away (gone a ?_)⟩
      · by_contra outside
        refine away (gone a (spares.keeps a ((live a).mpr alive) (Or.inl ?_)))
        rw [heldBy]
        omega
      · refine spares.keeps a ((live a).mpr alive)
          (Or.inr ⟨b, (half.flag b).mpr ((reached b).mpr reach), ?_⟩)
        rwa [refsAt, half.objects]
    · intro unheld a alive
      by_contra away
      have empty := no_survivor
        (fun a away => List.count_eq_zero.mpr fun root => away ⟨a, root, .refl⟩) ends
        (fun b reach => by rw [refsAt, refsAt, sheltered b reach]) survivors
        (fun a alive => (live a).mp (spares.live a alive)) unheld
      have member := (survivors a).mpr ⟨alive, away⟩
      simp [empty] at member

section Sample

variable {heap : List (Address × Collectable)} {uiRef : Address → Nat} {roots : Roots}

private theorem mem_of_stateOf {a : Address} {body : Collectable}
    (here : (stateOf heap uiRef roots).objects a = some body) : (a, body) ∈ heap := by
  obtain ⟨l₁, l₂, rfl, -⟩ := List.lookup_eq_some_iff.mp here
  simp

theorem stateOf_sound (external : Address → Nat) (nodup : (heap.map Prod.fst).Nodup)
    (rooted : ∀ a ∈ collectables roots.visited, a ∈ heap.map Prod.fst)
    (known : ∀ e ∈ heap, ∀ a ∈ e.2.refs, a ∈ heap.map Prod.fst)
    (exact : ∀ a ∈ heap.map Prod.fst, uiRef a = (stateOf heap uiRef roots).heldBy external a +
      inbound (heap.map Prod.fst).toFinset (stateOf heap uiRef roots) a) :
    (stateOf heap uiRef roots).Sound external (heap.map Prod.fst) := by
  refine ⟨stateOf_listed nodup, fun a root => stateOf_live.mpr (rooted a root), ?_⟩
  refine ⟨fun a live => List.mem_toFinset.mpr (stateOf_live.mp live), ?_, by simp, trivial, ?_⟩
  · intro b a member
    rw [refsAt] at member
    cases here : (stateOf heap uiRef roots).objects b with
    | none => simp [here] at member
    | some body =>
        rw [here] at member
        exact stateOf_live.mpr (known (b, body) (mem_of_stateOf here) a member)
  · intro a live
    rw [refsOf_nil, List.count_nil, Nat.add_zero]
    exact exact a (stateOf_live.mp live)

end Sample

private theorem cyclicState_typed : cyclicState.Typed := by
  have tags : ∀ e ∈ cyclicHeap, ∀ o ∈ e.2.holds, ∀ b ∈ o.collectable,
      (cyclicState.objects b).map (Collectable.asObject b) = some o := by decide +kernel
  refine ⟨?_, ?_, ?_, fun _ => 0, ?_⟩
  · intro a body here o held b address
    have tag := tags (a, body) (mem_of_stateOf here) o held b address
    exact Option.map_eq_some_iff.mp tag
  · intro a v here p
    have listed := mem_of_stateOf here
    simp only [cyclicHeap, List.mem_cons, Prod.mk.injEq, reduceCtorEq, and_false, false_or,
      List.not_mem_nil, or_false, Collectable.thread.injEq] at listed
    simp [listed.2, idleThread]
  · intro a c stack ci here
    have listed := mem_of_stateOf here
    simp [cyclicHeap] at listed
  · intro a literals functions here o member
    have listed := mem_of_stateOf here
    simp only [cyclicHeap, List.mem_cons, Prod.mk.injEq, reduceCtorEq, and_false, false_or,
      List.not_mem_nil, or_false, Collectable.funcProto.injEq] at listed
    rcases listed with ⟨-, -, rfl⟩ | ⟨-, -, rfl⟩
    · cases member
    · cases member

private theorem cyclicState_separate : cyclicState.Separate := by
  intro a v here _ p opened
  have listed := mem_of_stateOf here
  simp only [cyclicHeap, List.mem_cons, Prod.mk.injEq, reduceCtorEq, and_false, false_or,
    List.not_mem_nil, or_false, Collectable.thread.injEq] at listed
  simp [listed.2, idleThread] at opened

/-- The table and the array that refer to each other are destroyed, with the function in them. -/
theorem collect_garbage_exact_cycle :
    let r := collectGarbage 100 cyclicState
    (r.1 = 3 ∧ ∀ a ∈ [6, 7, 8, 9], r.2.objects a = none) ∧
      (∃ g', Chained r.2.links r.2.gcChain g' ∧ ∀ a, a ∈ g' ↔ cyclicState.Reach a) ∧
      (∀ a, r.2.marked a = false) ∧
      (∀ a, cyclicState.Reach a → r.2.objects a = cyclicState.objects a) ∧
      (∀ a, r.2.Live a → cyclicState.Live a) ∧
      (∀ a, r.2.Live a → r.2.uiRef a = cyclicState.heldBy (fun _ => 0) a +
        inbound [9, 8, 7, 6, 5, 4, 3, 2, 1].toFinset r.2 a) ∧
      (r.1 = 0 ↔ ∀ a, cyclicState.Live a → cyclicState.Reach a) ∧
      ((∀ a, r.2.Live a → cyclicState.Reach a) ↔ cyclicState.Unheld fun _ => 0) :=
  ⟨by decide +kernel, collect_garbage_exact cyclicState (fun _ => 0) [9, 8, 7, 6, 5, 4, 3, 2, 1] 100
    (stateOf_sound _ (by decide) (by decide +kernel) (by decide +kernel) (by decide +kernel))
    cyclicState_typed cyclicState_separate (by decide +kernel)⟩

end Collect

end SquirrelGObject.Engine.Collector
