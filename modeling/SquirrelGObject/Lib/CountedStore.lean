/- SquirrelGObject/Lib/CountedStore
   digest: Cells holding counted references: assignment, the releases it sets off, soundness of the counts, and which writes can destroy an object. -/

import Mathlib.Algebra.BigOperators.Group.Finset.Basic
import Mathlib.Data.Finset.Card
import Mathlib.Data.Set.Basic
import Mathlib.Logic.Function.Iterate

set_option autoImplicit false
set_option relaxedAutoImplicit false

namespace SquirrelGObject.Lib.CountedStore

section Contents

variable {κ ω : Type*}

/-- Some cell of the region holds the object. -/
def Held (R : Set κ) (f : κ → ω) (o : ω) : Prop := ∃ c ∈ R, f c = o

theorem Held.mono {R R' : Set κ} {f : κ → ω} {o : ω} (sub : R ⊆ R') (held : Held R f o) :
    Held R' f o := by
  obtain ⟨c, inside, holds⟩ := held
  exact ⟨c, sub inside, holds⟩

variable [DecidableEq κ]

def writeAll (f : κ → ω) (ws : List (κ × ω)) : κ → ω :=
  ws.foldl (fun f w => Function.update f w.1 w.2) f

@[simp] theorem writeAll_nil (f : κ → ω) : writeAll f [] = f := rfl

@[simp] theorem writeAll_cons (f : κ → ω) (w : κ × ω) (ws : List (κ × ω)) :
    writeAll f (w :: ws) = writeAll (Function.update f w.1 w.2) ws := rfl

theorem writeAll_append (f : κ → ω) (ws ws' : List (κ × ω)) :
    writeAll f (ws ++ ws') = writeAll (writeAll f ws) ws' := List.foldl_append

private theorem writeAll_of_untouched {f : κ → ω} {ws : List (κ × ω)} {z : κ}
    (untouched : ∀ w ∈ ws, w.1 ≠ z) : writeAll f ws z = f z := by
  induction ws generalizing f with
  | nil => rfl
  | cons w ws ih =>
      rw [List.forall_mem_cons] at untouched
      rw [writeAll_cons, ih untouched.2]
      exact Function.update_of_ne (Ne.symm untouched.1) _ _

/-- Every overwritten object that is counted is still held by a cell of the region right after the
write. -/
def Covered (counted : ω → Bool) (R : Set κ) : (κ → ω) → List (κ × ω) → Prop
  | _, [] => True
  | f, w :: ws =>
      (counted (f w.1) = true → Held R (Function.update f w.1 w.2) (f w.1)) ∧
        Covered counted R (Function.update f w.1 w.2) ws

/-- All writes are covered but the first one to a given cell; until then no object is covered by
that cell. -/
def OneLoss (counted : ω → Bool) (z : κ) (R : Set κ) (f : κ → ω) (ws : List (κ × ω)) : Prop :=
  ∃ before x after, ws = before ++ (z, x) :: after ∧
    Covered counted (R \ {z}) f before ∧ (∀ w ∈ before, w.1 ≠ z) ∧
    Covered counted R (writeAll f (before ++ [(z, x)])) after

variable {counted : ω → Bool} {R R' : Set κ} {f : κ → ω} {o : ω} {z : κ}

theorem Held.update (held : Held R f o) {c : κ} {x : ω}
    (covered : f c = o → Held R (Function.update f c x) o) : Held R (Function.update f c x) o := by
  obtain ⟨d, inside, holds⟩ := held
  by_cases here : d = c
  · exact covered (here ▸ holds)
  · exact ⟨d, inside, (Function.update_of_ne here _ _).trans holds⟩

theorem covered_append {ws ws' : List (κ × ω)} :
    Covered counted R f (ws ++ ws') ↔
      Covered counted R f ws ∧ Covered counted R (writeAll f ws) ws' := by
  induction ws generalizing f with
  | nil => exact (iff_of_eq (true_and _)).symm
  | cons w ws ih =>
      rw [List.cons_append, Covered, Covered, ih, and_assoc]
      rfl

theorem Covered.mono (sub : R ⊆ R') {ws : List (κ × ω)} (covered : Covered counted R f ws) :
    Covered counted R' f ws := by
  induction ws generalizing f with
  | nil => trivial
  | cons w ws ih => exact ⟨fun count => (covered.1 count).mono sub, ih covered.2⟩

theorem Covered.held {ws : List (κ × ω)} (covered : Covered counted R f ws)
    (count : counted o = true) (held : Held R f o) : Held R (writeAll f ws) o := by
  induction ws generalizing f with
  | nil => exact held
  | cons w ws ih =>
      refine ih covered.2 (held.update ?_)
      intro here
      have still := covered.1 (here ▸ count)
      rwa [here] at still

theorem OneLoss.prepend {ws ws' : List (κ × ω)} (first : Covered counted (R \ {z}) f ws)
    (untouched : ∀ w ∈ ws, w.1 ≠ z) (loss : OneLoss counted z R (writeAll f ws) ws') :
    OneLoss counted z R f (ws ++ ws') := by
  obtain ⟨before, x, after, rfl, covered, apart, rest⟩ := loss
  refine ⟨ws ++ before, x, after, (List.append_assoc _ _ _).symm,
    covered_append.mpr ⟨first, covered⟩, ?_, ?_⟩
  · intro w member
    rcases List.mem_append.mp member with early | late
    · exact untouched w early
    · exact apart w late
  · rw [List.append_assoc, writeAll_append]
    exact rest

theorem OneLoss.append {ws ws' : List (κ × ω)} (loss : OneLoss counted z R f ws)
    (rest : Covered counted R (writeAll f ws) ws') : OneLoss counted z R f (ws ++ ws') := by
  obtain ⟨before, x, after, rfl, covered, apart, covered'⟩ := loss
  refine ⟨before, x, after ++ ws', by rw [List.append_assoc, List.cons_append], covered, apart,
    covered_append.mpr ⟨covered', ?_⟩⟩
  rw [← writeAll_append, List.append_assoc]
  exact rest

theorem OneLoss.mono (sub : R ⊆ R') {ws : List (κ × ω)} (loss : OneLoss counted z R f ws) :
    OneLoss counted z R' f ws := by
  obtain ⟨before, x, after, rfl, covered, apart, rest⟩ := loss
  exact ⟨before, x, after, rfl, covered.mono (Set.sdiff_subset_sdiff_left sub), apart,
    rest.mono sub⟩

private theorem held_past {ws : List (κ × ω)} (covered : Covered counted (R \ {z}) f ws)
    (count : counted o = true) (held : Held (R \ {z}) f o) (x : ω) :
    Held (R \ {z}) (writeAll f (ws ++ [(z, x)])) o := by
  obtain ⟨c, inside, holds⟩ := covered.held count held
  refine ⟨c, inside, ?_⟩
  rw [writeAll_append]
  exact (Function.update_of_ne inside.2 _ _).trans holds

/-- An object that a cell other than the given one holds is held after every initial part of the
writes. -/
theorem OneLoss.held {ws part : List (κ × ω)} (loss : OneLoss counted z R f ws)
    (initial : part <+: ws) (count : counted o = true) (held : Held (R \ {z}) f o) :
    Held R (writeAll f part) o := by
  obtain ⟨before, x, after, rfl, covered, -, rest⟩ := loss
  have sub : R \ {z} ⊆ R := Set.sdiff_subset
  have split : before ++ (z, x) :: after = (before ++ [(z, x)]) ++ after := by
    rw [List.append_assoc]
    rfl
  rw [split] at initial
  rcases List.prefix_or_prefix_of_prefix initial (List.prefix_append _ after) with early | late
  · rcases List.prefix_concat_iff.mp early with rfl | within
    · exact (held_past covered count held x).mono sub
    · obtain ⟨remaining, rfl⟩ := within
      exact ((covered_append.mp covered).1.held count held).mono sub
  · obtain ⟨further, rfl⟩ := late
    obtain ⟨remaining, rfl⟩ := (List.prefix_append_right_inj _).mp initial
    rw [writeAll_append]
    exact (covered_append.mp rest).1.held count ((held_past covered count held x).mono sub)

private theorem update_congr_on {g : κ → ω} (same : ∀ c ∈ R, f c = g c) (w : κ × ω) :
    ∀ c ∈ R, Function.update f w.1 w.2 c = Function.update g w.1 w.2 c := by
  intro c member
  by_cases here : c = w.1
  · subst here
    rw [Function.update_self, Function.update_self]
  · rw [Function.update_of_ne here, Function.update_of_ne here, same c member]

private theorem writeAll_congr_on {g : κ → ω} {ws : List (κ × ω)} (same : ∀ c ∈ R, f c = g c)
    (inside : ∀ w ∈ ws, w.1 ∈ R) : ∀ c ∈ R, writeAll g ws c = writeAll f ws c := by
  induction ws generalizing f g with
  | nil => exact fun c member => (same c member).symm
  | cons w ws ih =>
      rw [List.forall_mem_cons] at inside
      exact ih (update_congr_on same w) inside.2

theorem Covered.congr {g : κ → ω} {ws : List (κ × ω)} (same : ∀ c ∈ R, f c = g c)
    (inside : ∀ w ∈ ws, w.1 ∈ R) (covered : Covered counted R f ws) : Covered counted R g ws := by
  induction ws generalizing f g with
  | nil => trivial
  | cons w ws ih =>
      rw [List.forall_mem_cons] at inside
      have next := update_congr_on same w
      refine ⟨?_, ih next inside.2 covered.2⟩
      rw [← same w.1 inside.1]
      intro count
      obtain ⟨c, member, holds⟩ := covered.1 count
      exact ⟨c, member, (next c member).symm.trans holds⟩

end Contents

section Counting

/-- Which cells belong to which object, how many objects have any, and whose destruction is
reported. -/
structure Layout (κ : Type*) {ω : Type*} (counted : ω → Bool) (null : ω) where
  fields : ω → List κ
  owners : Finset ω
  hooked : ω → Bool
  nodup : ∀ o, (fields o).Nodup
  owned : ∀ o, o ∉ owners → fields o = []
  blank : counted null = false

/-- Cells that hold objects, the reference count of each object, the references that have left
their cell and wait to be released, and the objects destroyed and reported so far, the latest
first. -/
structure Store (κ ω : Type*) where
  content : κ → ω
  refs : ω → Nat
  pending : List ω
  destroyed : List ω
  hooks : List ω

variable {κ ω : Type*} [DecidableEq κ] [DecidableEq ω] {counted : ω → Bool} {null : ω}

section Operations

variable (L : Layout κ counted null)

/-- The object is destroyed: its cells are emptied, and what they held waits to be released before
anything else. -/
def destroy (o : ω) (rest : List ω) (s : Store κ ω) : Store κ ω where
  content c := if c ∈ L.fields o then null else s.content c
  refs := Function.update s.refs o 0
  pending := (L.fields o).map s.content ++ rest
  destroyed := o :: s.destroyed
  hooks := if L.hooked o then o :: s.hooks else s.hooks

def turn (s : Store κ ω) : Store κ ω :=
  match s.pending with
  | [] => s
  | o :: rest =>
      if counted o = false then { s with pending := rest }
      else if s.refs o ≤ 1 then destroy L o rest s
      else { s with refs := Function.update s.refs o (s.refs o - 1), pending := rest }

/-- Enough turns for every release that one reference can set off. -/
def Layout.bound : Nat := 1 + ∑ o ∈ L.owners, (L.fields o).length

/-- Assigning a cell counts the new object, then releases the old one. Objects that are not counted
live for ever. -/
def assign (c : κ) (x : ω) (s : Store κ ω) : Store κ ω :=
  (turn L)^[L.bound]
    { s with
      content := Function.update s.content c x
      refs := if counted x then Function.update s.refs x (s.refs x + 1) else s.refs
      pending := s.content c :: s.pending }

def run (ws : List (κ × ω)) (s : Store κ ω) : Store κ ω :=
  ws.foldl (fun s w => assign L w.1 w.2 s) s

end Operations

/-- No object is in more cells and waiting references than its count says. There may be further
references elsewhere. -/
def Sound (counted : ω → Bool) (s : Store κ ω) : Prop :=
  ∀ o, counted o = true → ∀ cells : Finset κ, (∀ c ∈ cells, s.content c = o) →
    cells.card + s.pending.count o ≤ s.refs o

/-- A list of destroyed objects, the latest first, that goes back to one reference: each object was
reached by it or through a cell of one destroyed before, and was in no other cells. -/
def GoneWith (L : Layout κ counted null) (f : κ → ω) (first : ω) (spared : κ → Prop) :
    List ω → Prop
  | [] => True
  | o :: earlier =>
      GoneWith L f first spared earlier ∧ counted o = true ∧
        (o = first ∨ ∃ e ∈ earlier, ∃ c ∈ L.fields e, f c = o) ∧
        ∀ c, f c = o → spared c ∨ ∃ e ∈ earlier, c ∈ L.fields e

variable {L : Layout κ counted null} {s : Store κ ω} {R : Set κ} {o : ω} {z : κ}

omit [DecidableEq κ] [DecidableEq ω] in
private theorem Layout.ne_null (L : Layout κ counted null) (count : counted o = true) :
    o ≠ null := by
  rintro rfl
  rw [L.blank] at count
  cases count

private theorem turn_settled (settled : s.pending = []) : turn L s = s := by
  rw [turn, settled]

private theorem turns_settled (settled : s.pending = []) (n : Nat) : (turn L)^[n] s = s :=
  Function.iterate_fixed (turn_settled settled) n

omit [DecidableEq κ] in
theorem Sound.last (sound : Sound counted s) {rest : List ω} (waits : s.pending = o :: rest)
    (count : counted o = true) (low : s.refs o ≤ 1) :
    s.refs o = 1 ∧ (∀ c, s.content c ≠ o) ∧ o ∉ rest := by
  have alone := sound o count ∅ (by simp)
  rw [waits, List.count_cons_self, Finset.card_empty] at alone
  refine ⟨by omega, ?_, ?_⟩
  · intro c holds
    have held := sound o count {c} (by simpa using holds)
    rw [waits, List.count_cons_self, Finset.card_singleton] at held
    omega
  · intro member
    have again := List.count_pos_iff.mpr member
    omega

theorem Sound.destroy (sound : Sound counted s) {rest : List ω} (waits : s.pending = o :: rest)
    (count : counted o = true) (low : s.refs o ≤ 1) : Sound counted (destroy L o rest s) := by
  obtain ⟨-, nowhere, absent⟩ := sound.last waits count low
  intro x xCount cells holds
  have outside : ∀ c ∈ cells, c ∉ L.fields o ∧ s.content c = x := by
    intro c member
    have content : (if c ∈ L.fields o then null else s.content c) = x := holds c member
    split at content
    · exact absurd content.symm (L.ne_null xCount)
    · exact ⟨‹_›, content⟩
  change cells.card + List.count x ((L.fields o).map s.content ++ rest) ≤
    Function.update s.refs o 0 x
  by_cases same : x = o
  · subst same
    have empty : cells = ∅ :=
      Finset.eq_empty_of_forall_notMem fun c member => nowhere c (outside c member).2
    have unfielded : List.count x ((L.fields x).map s.content) = 0 := by
      rw [List.count_eq_zero, List.mem_map]
      rintro ⟨c, -, holds⟩
      exact nowhere c holds
    rw [empty, List.count_append, unfielded, List.count_eq_zero.mpr absent, Finset.card_empty,
      Function.update_self]
  · -- the cells of the destroyed object held the references that wait now
    rw [Function.update_of_ne same, List.count_append]
    have fielded : List.count x ((L.fields o).map s.content) =
        ((L.fields o).toFinset.filter fun c => s.content c = x).card := by
      have listed : ((L.fields o).toFinset.filter fun c => s.content c = x) =
          ((L.fields o).filter fun c => s.content c = x).toFinset := by
        ext c
        simp
      rw [listed, List.toFinset_card_of_nodup ((L.nodup o).filter _), List.count,
        List.countP_map, List.countP_eq_length_filter]
      rfl
    have apart : Disjoint cells ((L.fields o).toFinset.filter fun c => s.content c = x) := by
      rw [Finset.disjoint_left]
      intro c member fieldOf
      exact (outside c member).1 (List.mem_toFinset.mp (Finset.mem_filter.mp fieldOf).1)
    have whole := sound x xCount (cells ∪ (L.fields o).toFinset.filter fun c => s.content c = x) (by
      intro c member
      rcases Finset.mem_union.mp member with inCells | inFields
      · exact (outside c inCells).2
      · exact (Finset.mem_filter.mp inFields).2)
    rw [Finset.card_union_of_disjoint apart, waits,
      List.count_cons_of_ne (Ne.symm same)] at whole
    rw [fielded]
    omega

theorem Sound.turn (sound : Sound counted s) : Sound counted (turn L s) := by
  rw [CountedStore.turn]
  split
  · exact sound
  · rename_i o rest waits
    split
    · rename_i uncounted
      intro x xCount cells holds
      have before := sound x xCount cells holds
      have apart : o ≠ x := by
        rintro rfl
        rw [uncounted] at xCount
        cases xCount
      rwa [waits, List.count_cons_of_ne apart] at before
    · rename_i count
      rw [Bool.not_eq_false] at count
      split
      · rename_i low
        exact sound.destroy waits count low
      · rename_i more
        intro x xCount cells holds
        have before := sound x xCount cells holds
        rw [waits] at before
        change cells.card + List.count x rest ≤ Function.update s.refs o (s.refs o - 1) x
        by_cases same : x = o
        · subst same
          rw [List.count_cons_self] at before
          rw [Function.update_self]
          omega
        · rw [List.count_cons_of_ne (Ne.symm same)] at before
          rwa [Function.update_of_ne same]

/-- The store in the middle of an assignment: the new object is counted and in the cell, the old
one waits. -/
def assigned (counted : ω → Bool) (c : κ) (x : ω) (s : Store κ ω) : Store κ ω :=
  { s with
    content := Function.update s.content c x
    refs := if counted x then Function.update s.refs x (s.refs x + 1) else s.refs
    pending := s.content c :: s.pending }

private theorem assign_eq (c : κ) (x : ω) :
    assign L c x s = (turn L)^[L.bound] (assigned counted c x s) := rfl

private theorem Sound.assigned (sound : Sound counted s) (c : κ) (x : ω) :
    Sound counted (assigned counted c x s) := by
  intro o count cells holds
  change ∀ d ∈ cells, Function.update s.content c x d = o at holds
  have kept : ∀ d ∈ cells.erase c, s.content d = o := by
    intro d member
    rw [← holds d (Finset.mem_of_mem_erase member),
      Function.update_of_ne (Finset.ne_of_mem_erase member)]
  have written : c ∈ cells → x = o := by
    intro member
    rw [← holds c member, Function.update_self]
  have added : (CountedStore.assigned counted c x s).refs o =
      s.refs o + if x = o then 1 else 0 := by
    change (if counted x then Function.update s.refs x (s.refs x + 1) else s.refs) o = _
    by_cases same : x = o
    · subst same
      rw [if_pos count, Function.update_self, if_pos rfl]
    · rw [if_neg same]
      split
      · exact Function.update_of_ne (Ne.symm same) _ _
      · rfl
  have whole : (cells.erase c).card + List.count o (s.content c :: s.pending) ≤ s.refs o := by
    by_cases old : s.content c = o
    · have all := sound o count (insert c (cells.erase c)) (by
        intro d member
        rcases Finset.mem_insert.mp member with rfl | rest
        · exact old
        · exact kept d rest)
      rw [Finset.card_insert_of_notMem (Finset.notMem_erase c cells)] at all
      rw [old, List.count_cons_self]
      omega
    · rw [List.count_cons_of_ne old]
      exact sound o count _ kept
  rw [added]
  change cells.card + List.count o (s.content c :: s.pending) ≤ _
  by_cases member : c ∈ cells
  · rw [if_pos (written member), ← Finset.card_erase_add_one member]
    omega
  · rw [Finset.erase_eq_of_notMem member] at whole
    omega

/-- The store is settled and sound, and only its contents and counts have changed. -/
structure Quiet (counted : ω → Bool) (s s' : Store κ ω) : Prop where
  sound : Sound counted s'
  pending : s'.pending = []
  destroyed : s'.destroyed = s.destroyed
  hooks : s'.hooks = s.hooks

private theorem assign_keeps (sound : Sound counted s) (settled : s.pending = []) {c : κ} {x : ω}
    (held : counted (s.content c) = true → Held R (Function.update s.content c x) (s.content c)) :
    Quiet counted s (assign L c x s) ∧
      (assign L c x s).content = Function.update s.content c x := by
  have middle := sound.assigned c x
  have waits : (assigned counted c x s).pending = [s.content c] := by
    change s.content c :: s.pending = _
    rw [settled]
  have first : ∃ refs, turn L (assigned counted c x s) =
      { s with content := Function.update s.content c x, refs := refs, pending := [] } := by
    rw [turn, waits]
    by_cases count : counted (s.content c) = true
    · obtain ⟨d, -, holds⟩ := held count
      have many := middle (s.content c) count {d} (by
        intro e member
        rw [Finset.mem_singleton.mp member]
        exact holds)
      rw [waits, List.count_cons_self, Finset.card_singleton] at many
      dsimp only
      rw [if_neg (by rw [count]; decide), if_neg (by omega)]
      exact ⟨_, rfl⟩
    · dsimp only
      rw [if_pos (Bool.not_eq_true _ ▸ count)]
      exact ⟨_, rfl⟩
  obtain ⟨refs, done⟩ := first
  have whole : assign L c x s =
      { s with content := Function.update s.content c x, refs := refs, pending := [] } := by
    rw [assign_eq, Layout.bound, Nat.add_comm, Function.iterate_succ_apply, done]
    exact turns_settled rfl _
  have soundAfter := middle.turn (L := L)
  rw [done, ← whole] at soundAfter
  rw [whole] at soundAfter ⊢
  exact ⟨⟨soundAfter, rfl, rfl, rfl⟩, rfl⟩

theorem Covered.run {ws : List (κ × ω)} (sound : Sound counted s) (settled : s.pending = [])
    (covered : Covered counted R s.content ws) :
    Quiet counted s (run L ws s) ∧ (run L ws s).content = writeAll s.content ws := by
  induction ws generalizing s with
  | nil => exact ⟨⟨sound, settled, rfl, rfl⟩, rfl⟩
  | cons w ws ih =>
      obtain ⟨quiet, content⟩ := assign_keeps (L := L) sound settled covered.1
      have later : Covered counted R (assign L w.1 w.2 s).content ws := by
        rw [content]
        exact covered.2
      obtain ⟨rest, final⟩ := ih quiet.sound quiet.pending later
      refine ⟨⟨rest.sound, rest.pending, rest.destroyed.trans quiet.destroyed,
        rest.hooks.trans quiet.hooks⟩, ?_⟩
      rw [content] at final
      exact final

private theorem run_append (ws ws' : List (κ × ω)) :
    run L (ws ++ ws') s = run L ws' (run L ws s) := List.foldl_append

/-- In the middle of the releases that one waiting reference has set off. -/
structure Cascade (L : Layout κ counted null) (g : κ → ω) (first : ω) (s : Store κ ω) : Prop where
  sound : Sound counted s
  content : ∀ c, s.content c = if ∃ e ∈ s.destroyed, c ∈ L.fields e then null else g c
  pending : ∀ o ∈ s.pending, counted o = true →
    o = first ∨ ∃ e ∈ s.destroyed, ∃ c ∈ L.fields e, g c = o
  destroyed : GoneWith L g first (fun _ => False) s.destroyed
  hooks : s.hooks = s.destroyed.filter L.hooked
  gone : ∀ o ∈ s.destroyed, s.refs o = 0

def weight (L : Layout κ counted null) (s : Store κ ω) : Nat :=
  s.pending.length + ∑ o ∈ L.owners, if o ∈ s.destroyed then 0 else (L.fields o).length

private theorem weight_destroy {rest : List ω} (waits : s.pending = o :: rest)
    (alive : o ∉ s.destroyed) :
    weight L (destroy L o rest s) < weight L s := by
  have split (f : ω → Nat) : ∑ x ∈ L.owners, f x =
      (if o ∈ L.owners then f o else 0) + ∑ x ∈ L.owners.erase o, f x := by
    split
    · exact (Finset.add_sum_erase _ _ ‹_›).symm
    · rw [Finset.erase_eq_of_notMem ‹_›, Nat.zero_add]
  have others : ∑ x ∈ L.owners.erase o,
      (if x ∈ o :: s.destroyed then 0 else (L.fields x).length) =
        ∑ x ∈ L.owners.erase o, if x ∈ s.destroyed then 0 else (L.fields x).length := by
    apply Finset.sum_congr rfl
    intro x member
    simp only [List.mem_cons, Finset.ne_of_mem_erase member, false_or]
  have own : (L.fields o).length =
      if o ∈ L.owners then if o ∈ s.destroyed then 0 else (L.fields o).length else 0 := by
    by_cases owner : o ∈ L.owners
    · rw [if_pos owner, if_neg alive]
    · rw [if_neg owner, L.owned o owner]
      rfl
  rw [weight, weight, waits, split, split fun x => if x ∈ s.destroyed then 0 else _]
  change ((L.fields o).map s.content ++ rest).length + ((if o ∈ L.owners then
    if o ∈ o :: s.destroyed then 0 else (L.fields o).length else 0) +
      ∑ x ∈ L.owners.erase o, if x ∈ o :: s.destroyed then 0 else (L.fields x).length) < _
  rw [others, if_pos List.mem_cons_self, ite_self, List.length_append, List.length_map,
    List.length_cons, ← own]
  omega

variable {g : κ → ω} {first : ω}

theorem Cascade.destroy (cascade : Cascade L g first s) {rest : List ω}
    (waits : s.pending = o :: rest) (count : counted o = true) (low : s.refs o ≤ 1) :
    Cascade L g first (destroy L o rest s) := by
  obtain ⟨-, nowhere, absent⟩ := cascade.sound.last waits count low
  have wider (c : κ) : (∃ e ∈ o :: s.destroyed, c ∈ L.fields e) ↔
      c ∈ L.fields o ∨ ∃ e ∈ s.destroyed, c ∈ L.fields e := by
    simp only [List.exists_mem_cons_iff]
  refine ⟨cascade.sound.destroy waits count low, ?_, ?_, ?_, ?_, ?_⟩
  · intro c
    change (if c ∈ L.fields o then null else s.content c) =
      if ∃ e ∈ o :: s.destroyed, c ∈ L.fields e then null else g c
    by_cases own : c ∈ L.fields o
    · rw [if_pos own, if_pos ((wider c).mpr (.inl own))]
    · rw [if_neg own, cascade.content]
      simp only [wider, own, false_or]
  · intro x member xCount
    change x ∈ (L.fields o).map s.content ++ rest at member
    rcases List.mem_append.mp member with fieldOf | later
    · obtain ⟨c, inside, holds⟩ := List.mem_map.mp fieldOf
      rw [cascade.content] at holds
      split at holds
      · exact absurd holds.symm (L.ne_null xCount)
      · exact .inr ⟨o, List.mem_cons_self, c, inside, holds⟩
    · refine (cascade.pending x (by rw [waits]; exact List.mem_cons_of_mem _ later) xCount).imp
        id ?_
      rintro ⟨e, member, found⟩
      exact ⟨e, List.mem_cons_of_mem _ member, found⟩
  · refine ⟨cascade.destroyed, count, cascade.pending o (by rw [waits]; exact List.mem_cons_self)
      count, ?_⟩
    intro c holds
    right
    by_contra kept
    apply nowhere c
    rw [cascade.content, if_neg kept, holds]
  · change (if L.hooked o then o :: s.hooks else s.hooks) = (o :: s.destroyed).filter L.hooked
    rw [List.filter_cons, cascade.hooks]
  · intro x member
    change Function.update s.refs o 0 x = 0
    by_cases same : x = o
    · rw [same, Function.update_self]
    · rw [Function.update_of_ne same]
      exact cascade.gone x ((List.mem_cons.mp member).resolve_left same)

theorem Cascade.turn (cascade : Cascade L g first s) (waiting : s.pending ≠ []) :
    Cascade L g first (turn L s) ∧ weight L (turn L s) < weight L s := by
  obtain ⟨o, rest, waits⟩ := List.exists_cons_of_ne_nil waiting
  have sound := cascade.sound.turn (L := L)
  rw [CountedStore.turn, waits] at sound ⊢
  dsimp only at sound ⊢
  have shorter : ∀ refs, weight L { s with refs := refs, pending := rest } < weight L s := by
    intro refs
    rw [weight, weight, waits, List.length_cons]
    dsimp only
    omega
  have fewer : ∀ x ∈ rest, counted x = true →
      x = first ∨ ∃ e ∈ s.destroyed, ∃ c ∈ L.fields e, g c = x :=
    fun x member => cascade.pending x (by rw [waits]; exact List.mem_cons_of_mem _ member)
  split at sound
  · rename_i uncounted
    rw [if_pos uncounted]
    exact ⟨⟨sound, cascade.content, fewer, cascade.destroyed, cascade.hooks, cascade.gone⟩,
      shorter s.refs⟩
  · rename_i count
    rw [if_neg count]
    rw [Bool.not_eq_false] at count
    split at sound
    · rename_i low
      rw [if_pos low]
      refine ⟨cascade.destroy waits count low, weight_destroy waits ?_⟩
      intro member
      have zero := cascade.gone o member
      have one := (cascade.sound.last waits count low).1
      omega
    · rename_i more
      rw [if_neg more]
      refine ⟨⟨sound, cascade.content, fewer, cascade.destroyed, cascade.hooks, ?_⟩, shorter _⟩
      intro x member
      have zero := cascade.gone x member
      dsimp only
      rw [Function.update_of_ne ?_, zero]
      rintro rfl
      omega

theorem Cascade.turns (cascade : Cascade L g first s) {n : Nat} (enough : weight L s ≤ n) :
    Cascade L g first ((CountedStore.turn L)^[n] s) ∧
      ((CountedStore.turn L)^[n] s).pending = [] := by
  induction n generalizing s with
  | zero =>
      refine ⟨cascade, List.eq_nil_of_length_eq_zero ?_⟩
      rw [weight] at enough
      rw [Function.iterate_zero_apply]
      omega
  | succ n ih =>
      by_cases settled : s.pending = []
      · rw [turns_settled settled]
        exact ⟨cascade, settled⟩
      · obtain ⟨next, falls⟩ := cascade.turn settled
        rw [Function.iterate_succ_apply]
        exact ih next (by omega)

/-- A write to a store in which nothing has been destroyed: what goes is the old object and what
only it held, directly or through one another. -/
private theorem assign_cascades (sound : Sound counted s) (settled : s.pending = [])
    (fresh : s.destroyed = []) (quiet : s.hooks = []) (c : κ) (x : ω) :
    Cascade L (Function.update s.content c x) (s.content c) (assign L c x s) ∧
      (assign L c x s).pending = [] := by
  apply Cascade.turns
  · refine ⟨sound.assigned c x, ?_, ?_, ?_, ?_, ?_⟩
    · intro d
      refine (if_neg ?_).symm
      rintro ⟨e, member, -⟩
      change e ∈ s.destroyed at member
      rw [fresh] at member
      cases member
    · intro o member _
      change o ∈ s.content c :: s.pending at member
      rw [settled] at member
      exact .inl (List.mem_singleton.mp member)
    · change GoneWith L _ _ _ s.destroyed
      rw [fresh]
      trivial
    · change s.hooks = s.destroyed.filter L.hooked
      rw [fresh, quiet]
      rfl
    · intro o member
      change o ∈ s.destroyed at member
      rw [fresh] at member
      cases member
  · change (s.content c :: s.pending).length +
      (∑ o ∈ L.owners, if o ∈ s.destroyed then 0 else (L.fields o).length) ≤ _
    rw [settled, fresh, Layout.bound]
    simp

omit [DecidableEq κ] [DecidableEq ω] in
/-- The same objects seen from other contents, where the cells of objects hold the same and each
holder in the new contents is spared or a holder in the old ones. -/
private theorem GoneWith.transfer {f : κ → ω} {spared : κ → Prop} {l : List ω}
    (gone : GoneWith L g first (fun _ => False) l)
    (fields : ∀ e, ∀ c ∈ L.fields e, g c = f c)
    (holders : ∀ o ∈ l, counted o = true → (∀ c ∈ R, g c ≠ o) →
      ∀ c, f c = o → spared c ∨ g c = o)
    (roots : ∀ c ∈ R, ∀ e, c ∉ L.fields e) : GoneWith L f first spared l := by
  induction l with
  | nil => trivial
  | cons o earlier ih =>
      obtain ⟨before, count, reached, only⟩ := gone
      refine ⟨ih before fun x member => holders x (List.mem_cons_of_mem _ member), count, ?_, ?_⟩
      · refine reached.imp id ?_
        rintro ⟨e, member, c, inside, holds⟩
        exact ⟨e, member, c, inside, (fields e c inside).symm.trans holds⟩
      · have nowhere : ∀ c ∈ R, g c ≠ o := by
          intro c member holds
          rcases only c holds with none | ⟨e, -, inside⟩
          · exact none
          · exact roots c member e inside
        intro c holds
        exact (holders o List.mem_cons_self count nowhere c holds).imp id
          fun still => (only c still).resolve_left id

omit [DecidableEq κ] [DecidableEq ω] in
theorem GoneWith.spared {f : κ → ω} {spared : κ → Prop} {l : List ω}
    (gone : GoneWith L f first spared l) (member : o ∈ l) (c : κ) (holds : f c = o) :
    spared c ∨ ∃ e, c ∈ L.fields e := by
  induction l with
  | nil => cases member
  | cons x earlier ih =>
      obtain ⟨before, -, -, only⟩ := gone
      rcases List.mem_cons.mp member with rfl | member
      · exact (only c holds).imp id fun ⟨e, _, inside⟩ => ⟨e, inside⟩
      · exact ih before member

/-- Only the object in the given cell can be destroyed, together with what only it held, directly
or through one another; and only if no other cell but those of objects destroyed with it holds
it. Every release is carried through, and the objects reported are those destroyed that have a
hook. -/
theorem OneLoss.run {ws : List (κ × ω)} (sound : Sound counted s) (settled : s.pending = [])
    (fresh : s.destroyed = []) (quiet : s.hooks = []) (inside : ∀ w ∈ ws, w.1 ∈ R)
    (roots : ∀ c ∈ R, ∀ e, c ∉ L.fields e) (loss : OneLoss counted z R s.content ws) :
    GoneWith L s.content (s.content z) (· = z) (run L ws s).destroyed ∧
      (run L ws s).hooks = (run L ws s).destroyed.filter L.hooked ∧
      (run L ws s).pending = [] ∧ ∀ c ∈ R, (run L ws s).content c = writeAll s.content ws c := by
  obtain ⟨before, x, after, rfl, covered, apart, rest⟩ := loss
  rw [List.forall_mem_append, List.forall_mem_cons] at inside
  obtain ⟨insideBefore, insideAt, insideAfter⟩ := inside
  obtain ⟨early, content⟩ := covered.run (L := L) sound settled
  have there : (CountedStore.run L before s).content z = s.content z := by
    rw [content]
    exact writeAll_of_untouched apart
  obtain ⟨cascade, carried⟩ := assign_cascades (L := L) early.sound early.pending
    (early.destroyed.trans fresh) (early.hooks.trans quiet) z x
  rw [there, content] at cascade
  have written : writeAll s.content (before ++ [(z, x)]) =
      Function.update (writeAll s.content before) z x := by
    rw [writeAll_append]
    rfl
  rw [← written] at cascade
  have onRoots : ∀ c ∈ R, writeAll s.content (before ++ [(z, x)]) c =
      (assign L z x (CountedStore.run L before s)).content c := by
    intro c member
    rw [cascade.content, if_neg]
    rintro ⟨e, -, fieldOf⟩
    exact roots c member e fieldOf
  obtain ⟨late, final⟩ := (rest.congr onRoots insideAfter).run (L := L) cascade.sound carried
  have split : before ++ (z, x) :: after = (before ++ [(z, x)]) ++ after := by
    rw [List.append_assoc]
    rfl
  have off : ∀ c, c ∉ R → writeAll s.content (before ++ [(z, x)]) c = s.content c := by
    intro c outside
    apply writeAll_of_untouched
    intro w member same
    apply outside
    rcases List.mem_append.mp member with first | last
    · exact same ▸ insideBefore w first
    · rw [List.mem_singleton.mp last] at same
      exact same ▸ insideAt
  have same : CountedStore.run L (before ++ (z, x) :: after) s =
      CountedStore.run L after (assign L z x (CountedStore.run L before s)) := run_append _ _
  rw [same, late.destroyed, late.hooks]
  refine ⟨cascade.destroyed.transfer (R := R) ?_ ?_ roots, cascade.hooks, late.pending, ?_⟩
  · intro e c fieldOf
    exact off c fun member => roots c member e fieldOf
  · intro o _ count nowhere c holds
    by_cases here : c = z
    · exact .inl here
    · right
      by_cases member : c ∈ R
      · obtain ⟨d, within, still⟩ := held_past covered count ⟨c, ⟨member, here⟩, holds⟩ x
        exact absurd still (nowhere d within.1)
      · rw [off c member, holds]
  · intro c member
    rw [final, split, writeAll_append _ (before ++ [(z, x)])]
    exact writeAll_congr_on onRoots insideAfter c member

end Counting

end SquirrelGObject.Lib.CountedStore
