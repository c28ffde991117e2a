/- SquirrelGObject/Engine/TableRuns
   digest: Every run of table operations answers like a finite map, and a loop over it sees each slot once. -/

import SquirrelGObject.Engine.TableSpec
import SquirrelGObject.Lib.Runs
import Mathlib.Data.Finmap

set_option autoImplicit false
set_option relaxedAutoImplicit false

namespace SquirrelGObject.Engine

open Lib.Runs

/-- What a table is for: finitely many keys, each with one value. -/
abbrev Slots := Finmap fun _ : SQObject => SQObject

namespace SQTable

variable {hash : SQObject → Nat} {realval : SQObject → SQObject} {t : SQTable} {m : Slots}
  {key val : SQObject}

/-- The table is good, no assertion has failed, and its slots are those of the map. -/
structure Rep (hash : SQObject → Nat) (t : SQTable) (m : Slots) : Prop where
  good : Good hash t
  failed : t.failed = []
  slots : ∀ k v, m.lookup k = some v ↔ t.Maps k v

section Create

private theorem roundUp_pow (wanted : Int) (fuel e : Nat) :
    ∃ e', roundUp wanted fuel (2 ^ (e + 2)) = 2 ^ (e' + 2) := by
  induction fuel generalizing e with
  | zero => exact ⟨e, rfl⟩
  | succ fuel ih =>
      rw [roundUp]
      split
      · obtain ⟨e', doubled⟩ := ih (e + 1)
        refine ⟨e', ?_⟩
        rw [← doubled, show 2 ^ (e + 1 + 2) = 2 ^ (e + 2) * 2 from Nat.pow_succ 2 (e + 2)]
      · exact ⟨e, rfl⟩

private theorem create_rep (hash : SQObject → Nat) (initialSize : Int) :
    Rep hash (create initialSize) ∅ := by
  obtain ⟨e, sized⟩ := roundUp_pow initialSize initialSize.toNat 0
  have whole : create initialSize = { allocNodes (2 ^ (e + 2)) (create initialSize) with
      usedNodes := 0 } := by
    rw [← sized]
    rfl
  refine ⟨?_, rfl, ?_⟩
  · rw [whole]
    exact (allocNodes_good hash e _).1
  · intro k v
    constructor
    · intro impossible
      simp at impossible
    · rintro ⟨valid, i, rfl, -⟩
      exact absurd rfl valid

end Create

section Loop

private theorem firstUsed_spec (fuel idx : Nat) :
    (t.firstUsed fuel idx = none ∧ ∀ i, idx ≤ i → i < idx + fuel → t.keyAt i = .null) ∨
      ∃ i, t.firstUsed fuel idx = some i ∧ idx ≤ i ∧ i < idx + fuel ∧ t.keyAt i ≠ .null ∧
        ∀ j, idx ≤ j → j < i → t.keyAt j = .null := by
  induction fuel generalizing idx with
  | zero => exact Or.inl ⟨rfl, by omega⟩
  | succ fuel ih =>
      rw [firstUsed]
      split_ifs with unused
      · rcases ih (idx + 1) with ⟨missed, below⟩ | ⟨i, found, low, high, used, below⟩
        · refine Or.inl ⟨missed, ?_⟩
          intro i low high
          rcases Nat.eq_or_lt_of_le low with rfl | later
          · exact unused
          · exact below i later (by omega)
        · refine Or.inr ⟨i, found, by omega, by omega, used, ?_⟩
          intro j low' high'
          rcases Nat.eq_or_lt_of_le low' with rfl | later
          · exact unused
          · exact below j later high'
      · exact Or.inr ⟨idx, rfl, le_refl _, by omega, unused, by omega⟩

def usedFrom (t : SQTable) (idx : Nat) : List Nat :=
  (List.range' idx (t.numOfNodes - idx)).filter (t.keyAt · ≠ .null)

private theorem usedFrom_next {idx i : Nat} (low : idx ≤ i) (high : i < t.numOfNodes)
    (used : t.keyAt i ≠ .null) (below : ∀ j, idx ≤ j → j < i → t.keyAt j = .null) :
    t.usedFrom idx = i :: t.usedFrom (i + 1) := by
  have split : List.range' idx (t.numOfNodes - idx) =
      List.range' idx (i - idx) ++ i :: List.range' (i + 1) (t.numOfNodes - (i + 1)) := by
    rw [show t.numOfNodes - idx = (i - idx) + (t.numOfNodes - (i + 1) + 1) by omega,
      ← List.range'_append_1, List.range'_succ, show idx + (i - idx) = i by omega]
  rw [usedFrom, split, List.filter_append, List.filter_cons_of_pos (by simpa using used), usedFrom]
  rw [List.filter_eq_nil_iff.mpr, List.nil_append]
  intro j member
  rw [List.mem_range'_1] at member
  simp [below j member.1 (by omega)]

private theorem usedFrom_eq_nil {idx : Nat}
    (below : ∀ i, idx ≤ i → i < idx + (t.numOfNodes - idx) → t.keyAt i = .null) :
    t.usedFrom idx = [] := by
  refine List.filter_eq_nil_iff.mpr ?_
  intro i member
  rw [List.mem_range'_1] at member
  simp [below i member.1 member.2]

private theorem next_spec (realval : SQObject → SQObject) (getweakrefs : Bool) (idx : Nat) :
    (t.next getweakrefs realval idx = none ∧ t.usedFrom idx = []) ∨
      ∃ i, t.next getweakrefs realval idx = some (i + 1, t.keyAt i,
          if getweakrefs then t.valAt i else realval (t.valAt i)) ∧
        t.usedFrom idx = i :: t.usedFrom (i + 1) := by
  rcases firstUsed_spec (t := t) (t.numOfNodes - idx) idx with
    ⟨missed, below⟩ | ⟨i, found, low, high, used, below⟩
  · exact Or.inl ⟨by simp [next, missed], usedFrom_eq_nil below⟩
  · exact Or.inr ⟨i, by simp [next, found], usedFrom_next low (by omega) used below⟩

private theorem usedFrom_length_le (idx : Nat) : (t.usedFrom idx).length ≤ t.numOfNodes - idx := by
  have filtered := List.length_filter_le (fun i => decide (t.keyAt i ≠ .null))
    (List.range' idx (t.numOfNodes - idx))
  rwa [List.length_range'] at filtered

private theorem visits_eq (getweakrefs : Bool) {fuel idx : Nat}
    (enough : (t.usedFrom idx).length < fuel) :
    t.visits getweakrefs realval fuel idx = (t.usedFrom idx).map fun i =>
      (t.keyAt i, if getweakrefs then t.valAt i else realval (t.valAt i)) := by
  induction fuel generalizing idx with
  | zero => omega
  | succ fuel ih =>
      rw [visits]
      rcases next_spec (t := t) realval getweakrefs idx with
        ⟨missed, none⟩ | ⟨i, found, rest⟩
      · simp [missed, none]
      · rw [rest] at enough ⊢
        simp only [found, List.map_cons]
        rw [ih (by simpa using enough)]

/-- A whole loop over `Next`, from the start of the table. -/
def forEach (getweakrefs : Bool) (realval : SQObject → SQObject) (t : SQTable) :
    List (SQObject × SQObject) :=
  t.visits getweakrefs realval (t.numOfNodes + 1) 0

private theorem forEach_eq (realval : SQObject → SQObject) (getweakrefs : Bool) :
    t.forEach getweakrefs realval = (t.usedFrom 0).map fun i =>
      (t.keyAt i, if getweakrefs then t.valAt i else realval (t.valAt i)) := by
  have bound := usedFrom_length_le (t := t) 0
  exact visits_eq getweakrefs (by omega)

private theorem mem_usedFrom_zero {i : Nat} : i ∈ t.usedFrom 0 ↔ i ∈ t.live := by
  simp [usedFrom, live]

private theorem usedFrom_nodup (idx : Nat) : (t.usedFrom idx).Nodup :=
  List.Nodup.filter _ List.nodup_range'

private theorem Rep.forEach (rep : Rep hash t m) (getweakrefs : Bool) :
    (t.forEach getweakrefs realval : Multiset (SQObject × SQObject)) = m.entries.map fun slot =>
      (slot.1, if getweakrefs then slot.2 else realval slot.2) := by
  have slots : ((t.usedFrom 0).map fun i => (⟨t.keyAt i, t.valAt i⟩ : Sigma fun _ => SQObject) :
      Multiset (Sigma fun _ : SQObject => SQObject)) = m.entries := by
    refine (Multiset.Nodup.ext ?_ m.nodup_entries).mpr ?_
    · rw [Multiset.coe_nodup]
      refine List.Nodup.map_on ?_ (usedFrom_nodup 0)
      intro i member j _ same
      have used := ((mem_live i).mp (mem_usedFrom_zero.mp member)).2
      exact rep.good.sound.unique i j used (congrArg Sigma.fst same)
    · rintro ⟨k, v⟩
      rw [← Finmap.lookup_eq_some_iff, Multiset.mem_coe, List.mem_map]
      refine Iff.trans ?_ (rep.slots k v).symm
      constructor
      · rintro ⟨i, member, same⟩
        cases same
        exact ⟨((mem_live i).mp (mem_usedFrom_zero.mp member)).2, i, rfl, rfl⟩
      · rintro ⟨valid, i, rfl, rfl⟩
        exact ⟨i, mem_usedFrom_zero.mpr ((mem_live i).mpr
          ⟨rep.good.sound.lt_of_live valid, valid⟩), rfl⟩
  rw [forEach_eq, ← slots, Multiset.map_coe, List.map_map]
  rfl

end Loop

section Clone

private theorem insertAll_spec {l : List (SQObject × SQObject)} (good : Good hash t)
    (valid : ∀ entry ∈ l, entry.1 ≠ .null) (nodup : (l.map Prod.fst).Nodup) :
    Good hash (l.foldl (fun nt entry => (nt.newSlot hash entry.1 entry.2).1) t) ∧
      (l.foldl (fun nt entry => (nt.newSlot hash entry.1 entry.2).1) t).failed = t.failed ∧
      ∀ k v, (l.foldl (fun nt entry => (nt.newSlot hash entry.1 entry.2).1) t).Maps k v ↔
        (k, v) ∈ l ∨ (k ∉ l.map Prod.fst ∧ t.Maps k v) := by
  induction l generalizing t with
  | nil => simp [good]
  | cons entry l ih =>
      rw [List.map_cons, List.nodup_cons] at nodup
      obtain ⟨stored, -, failed, maps⟩ := newSlot_spec good
        (valid entry List.mem_cons_self) entry.2
      obtain ⟨good', failed', maps'⟩ := ih stored
        (fun entry member => valid entry (List.mem_cons_of_mem _ member)) nodup.2
      refine ⟨good', failed'.trans failed, ?_⟩
      intro k v
      rw [List.foldl_cons, maps', maps, List.mem_cons, List.map_cons, List.mem_cons, not_or]
      by_cases same : k = entry.1
      · subst same
        have missing : (entry.1, v) ∉ l := by
          intro member
          exact nodup.1 (List.mem_map.mpr ⟨_, member, rfl⟩)
        simp [missing, nodup.1, Prod.ext_iff]
      · simp [same, Prod.ext_iff]

theorem Rep.clone (rep : Rep hash t m) : Rep hash (t.clone hash) m := by
  set copy := (t.forEach true id).foldl (fun nt entry => (nt.newSlot hash entry.1 entry.2).1)
    (create t.numOfNodes) with copy_eq
  have whole : t.clone hash = { copy with delegate := t.delegate } := rfl
  have listed := forEach_eq (t := t) id true
  have used : ∀ i ∈ t.usedFrom 0, t.keyAt i ≠ .null := by
    intro i member
    exact ((mem_live i).mp (mem_usedFrom_zero.mp member)).2
  have valid : ∀ entry ∈ t.forEach true id, entry.1 ≠ .null := by
    rw [listed]
    intro entry member
    obtain ⟨i, inside, rfl⟩ := List.mem_map.mp member
    exact used i inside
  have nodup : ((t.forEach true id).map Prod.fst).Nodup := by
    rw [listed, List.map_map]
    refine List.Nodup.map_on ?_ (usedFrom_nodup 0)
    intro i member j _ same
    exact rep.good.sound.unique i j (used i member) same
  obtain ⟨good, failed, maps⟩ := insertAll_spec (create_rep hash t.numOfNodes).good valid
    nodup
  rw [whole]
  refine ⟨⟨good.sound.congr rfl rfl rfl rfl, good.free, good.used⟩, failed, ?_⟩
  intro k v
  rw [rep.slots]
  refine Iff.trans ?_ (maps k v).symm
  rw [listed, List.mem_map]
  constructor
  · rintro ⟨nonnull, i, rfl, rfl⟩
    exact Or.inl ⟨i, mem_usedFrom_zero.mpr ((mem_live i).mpr
      ⟨rep.good.sound.lt_of_live nonnull, nonnull⟩), rfl⟩
  · rintro (⟨i, member, same⟩ | ⟨-, nonnull, i, rfl, -⟩)
    · cases same
      exact ⟨used i member, i, rfl, rfl⟩
    · exact absurd rfl nonnull

end Clone

section Machine

/-- The member functions of a table as operations of a machine. After `clone` the run goes on
with the clone. -/
inductive TableOp where
  | get (key : SQObject)
  | set (key val : SQObject)
  | newSlot (key val : SQObject)
  | remove (key : SQObject)
  | clear
  | clone
  | countUsed
  | forEach (getweakrefs : Bool)

/-- What an operation answers. The map says nothing about a write under the null key. -/
inductive TableAnswer where
  | value (found : Option SQObject)
  | written (found : Bool)
  | inserted (isNew : Bool)
  | nothing
  | count (n : Int)
  | slots (seen : Multiset (SQObject × SQObject))

/-- An answer of the table against that of the map. A new key that takes the last free node is
answered with false, and a write under the null key with whether the walk met an unused node. All
other answers are equal. -/
def TableAnswer.Agree : TableAnswer → TableAnswer → Prop
  | inserted isNew, inserted absent => isNew = true → absent = true
  | written _, nothing => True
  | answer, expected => answer = expected

def tableStep (hash : SQObject → Nat) (realval : SQObject → SQObject) (t : SQTable) :
    TableOp → SQTable × TableAnswer
  | .get key => (t, .value (t.get hash realval key))
  | .set key val => ((t.set hash key val).1, .written (t.set hash key val).2)
  | .newSlot key val => ((t.newSlot hash key val).1, .inserted (t.newSlot hash key val).2)
  | .remove key => (t.remove hash key, .nothing)
  | .clear => (t.clear hash, .nothing)
  | .clone => (t.clone hash, .nothing)
  | .countUsed => (t, .count t.countUsed)
  | .forEach getweakrefs => (t, .slots (t.forEach getweakrefs realval))

def slotsStep (realval : SQObject → SQObject) (m : Slots) : TableOp → Slots × TableAnswer
  | .get key => (m, .value ((m.lookup key).map realval))
  | .set key val =>
      (if key ∈ m then m.insert key val else m,
        if key = .null then .nothing else .written (decide (key ∈ m)))
  | .newSlot key val => (m.insert key val, .inserted (decide (key ∉ m)))
  | .remove key => (m.erase key, .nothing)
  | .clear => (∅, .nothing)
  | .clone => (m, .nothing)
  | .countUsed => (m, .count m.keys.card)
  | .forEach getweakrefs =>
      (m, .slots (m.entries.map fun slot =>
        (slot.1, if getweakrefs then slot.2 else realval slot.2)))

/-- `NewSlot` asserts that its key is not null, and the callers of `Remove` look the key up
first. -/
def Admissible : TableOp → Prop
  | .newSlot key _ | .remove key => key ≠ .null
  | _ => True

theorem Rep.mem_iff (rep : Rep hash t m) : key ∈ m ↔ ∃ v, t.Maps key v := by
  rw [Finmap.mem_iff]
  exact exists_congr fun v => rep.slots key v

theorem Rep.used (rep : Rep hash t m) : t.usedNodes = m.keys.card := by
  have image : m.keys = t.live.image t.keyAt := by
    ext k
    rw [Finmap.mem_keys, rep.mem_iff, Finset.mem_image]
    constructor
    · rintro ⟨v, valid, i, rfl, rfl⟩
      exact ⟨i, (mem_live i).mpr ⟨rep.good.sound.lt_of_live valid, valid⟩, rfl⟩
    · rintro ⟨i, member, rfl⟩
      exact ⟨t.valAt i, ((mem_live i).mp member).2, i, rfl, rfl⟩
  rw [rep.good.used, image, Finset.card_image_of_injOn]
  intro i member j _ same
  exact rep.good.sound.unique i j ((mem_live i).mp member).2 same

private theorem lookup_insert_iff {k v : SQObject} :
    (m.insert key val).lookup k = some v ↔ if k = key then v = val else m.lookup k = some v := by
  split_ifs with same
  · subst same
    rw [Finmap.lookup_insert, Option.some.injEq, eq_comm]
  · rw [Finmap.lookup_insert_of_ne m same]

namespace Rep

variable (rep : Rep hash t m)

include rep

private theorem get_eq (realval : SQObject → SQObject) (key : SQObject) :
    t.get hash realval key = (m.lookup key).map realval := by
  refine Option.ext fun w => ?_
  rw [get_spec rep.good, Option.map_eq_some_iff]
  exact exists_congr fun v => and_congr_left fun _ => (rep.slots key v).symm

theorem set (key val : SQObject) :
    Rep hash (t.set hash key val).1 (if key ∈ m then m.insert key val else m) := by
  obtain ⟨good, -, failed, -, maps⟩ := set_spec rep.good key val
  refine ⟨good, failed.trans rep.failed, ?_⟩
  intro k v
  rw [maps, ← rep.mem_iff, ← rep.slots]
  by_cases present : key ∈ m
  · rw [if_pos present, lookup_insert_iff]
    by_cases same : k = key
    · simp [same, present]
    · simp [same]
  · rw [if_neg present]
    by_cases same : k = key
    · subst same
      simp [present, Finmap.lookup_eq_none.mpr present]
    · simp [same]

theorem newSlot (valid : key ≠ .null) (val : SQObject) :
    Rep hash (t.newSlot hash key val).1 (m.insert key val) := by
  obtain ⟨good, -, failed, maps⟩ := newSlot_spec rep.good valid val
  refine ⟨good, failed.trans rep.failed, ?_⟩
  intro k v
  rw [maps, lookup_insert_iff, rep.slots]

theorem remove (valid : key ≠ .null) : Rep hash (t.remove hash key) (m.erase key) := by
  obtain ⟨good, -, failed, maps⟩ := remove_spec rep.good valid
  refine ⟨good, failed.trans rep.failed, ?_⟩
  intro k v
  rw [maps, ← rep.slots]
  by_cases same : k = key
  · subst same
    simp [Finmap.lookup_erase]
  · simp [same, Finmap.lookup_erase_ne same]

theorem clear : Rep hash (t.clear hash) ∅ := by
  obtain ⟨good, -, failed, maps⟩ := clear_spec rep.good
  refine ⟨good, failed.trans rep.failed, ?_⟩
  intro k v
  simp [maps]

end Rep

private theorem Rep.newSlot_answer (rep : Rep hash t m) (valid : key ≠ .null) {val : SQObject}
    (answer : (t.newSlot hash key val).2 = true) : key ∉ m := by
  rw [rep.mem_iff]
  rintro ⟨v, -, i, here, -⟩
  rcases newSlot_cases rep.good valid val with ⟨n, -, done⟩ | ⟨absent, -⟩
  · rw [done] at answer
    cases answer
  · exact absent i here

theorem step_rep (rep : Rep hash t m) {op : TableOp} (admissible : Admissible op) :
    Rep hash (tableStep hash realval t op).1 (slotsStep realval m op).1 ∧
      TableAnswer.Agree (tableStep hash realval t op).2 (slotsStep realval m op).2 := by
  cases op with
  | get key => exact ⟨rep, congrArg TableAnswer.value (rep.get_eq realval key)⟩
  | set key val =>
      refine ⟨rep.set key val, ?_⟩
      by_cases null : key = .null
      · rw [slotsStep, if_pos null]
        exact trivial
      · obtain ⟨-, -, -, answer, -⟩ := set_spec rep.good key val
        rw [slotsStep, if_neg null]
        refine congrArg TableAnswer.written ?_
        rw [Bool.eq_iff_iff, answer null, decide_eq_true_iff, rep.mem_iff]
  | newSlot key val =>
      refine ⟨rep.newSlot admissible val, ?_⟩
      exact fun isNew => decide_eq_true (rep.newSlot_answer admissible isNew)
  | remove key => exact ⟨rep.remove admissible, rfl⟩
  | clear => exact ⟨rep.clear, rfl⟩
  | clone => exact ⟨rep.clone, rfl⟩
  | countUsed => exact ⟨rep, congrArg TableAnswer.count rep.used⟩
  | forEach getweakrefs => exact ⟨rep, congrArg TableAnswer.slots (rep.forEach getweakrefs)⟩

private theorem run_simulated (hash : SQObject → Nat) (realval : SQObject → SQObject)
    (initialSize : Int) (ops : List TableOp) (admissible : ∀ op ∈ ops, Admissible op) :
    Rep hash (final (tableStep hash realval) (create initialSize) ops)
        (final (slotsStep realval) ∅ ops) ∧
      List.Forall₂ TableAnswer.Agree (outputs (tableStep hash realval) (create initialSize) ops)
        (outputs (slotsStep realval) ∅ ops) := by
  have step : ∀ (s : SQTable) (m : Slots) (op : TableOp), Rep hash s m → Admissible op →
      Rep hash (tableStep hash realval s op).1 (slotsStep realval m op).1 ∧
        TableAnswer.Agree (tableStep hash realval s op).2 (slotsStep realval m op).2 := by
    intro s m op rep admissible
    exact step_rep rep admissible
  exact related step (create_rep hash initialSize) admissible

/-- A table of any initial size, under any hash function and through any sequence of operations
and the rehashes they cause, gives the answers of a finite map, as far as these go, and no
assertion fails. -/
theorem table_runs_as_map (hash : SQObject → Nat) (realval : SQObject → SQObject)
    (initialSize : Int) (ops : List TableOp) (admissible : ∀ op ∈ ops, Admissible op) :
    List.Forall₂ TableAnswer.Agree (outputs (tableStep hash realval) (create initialSize) ops)
        (outputs (slotsStep realval) ∅ ops) ∧
      (final (tableStep hash realval) (create initialSize) ops).failed = [] := by
  obtain ⟨rep, alike⟩ := run_simulated hash realval initialSize ops admissible
  exact ⟨alike, rep.failed⟩

/-- Five keys with the same main position in a table of four nodes, one of them removed and
written under null, then everything read back from a clone. -/
def collidingRun : List TableOp :=
  [.newSlot (.integer 0) (.bool 1), .newSlot (.integer 8) .null,
    .newSlot (.integer 16) (.bool 0), .remove (.integer 8), .set .null (.bool 1),
    .newSlot (.integer 24) (.integer 1), .newSlot (.integer 32) (.integer 2),
    .set (.integer 16) (.integer 3), .clone, .get (.integer 16), .get (.integer 8), .countUsed,
    .forEach false]

theorem table_runs_as_map_colliding :
    (∀ op ∈ collidingRun, Admissible op) ∧
      List.Forall₂ TableAnswer.Agree
        (outputs (tableStep SQObject.hashObj id) (create 0) collidingRun)
        (outputs (slotsStep id) ∅ collidingRun) ∧
      (final (tableStep SQObject.hashObj id) (create 0) collidingRun).failed = [] := by
  have admissible : ∀ op ∈ collidingRun, Admissible op := by
    simp [collidingRun, Admissible]
  exact ⟨admissible, table_runs_as_map SQObject.hashObj id 0 collidingRun admissible⟩

end Machine

section ForEach

def setAll (hash : SQObject → Nat) (writes : List (SQObject × SQObject)) (t : SQTable) : SQTable :=
  writes.foldl (fun t entry => (t.set hash entry.1 entry.2).1) t

/-- A `foreach` loop whose body writes slots with `Set`. What the body writes may depend on the
key and the value it is given. The loop collects what the body sees. -/
def forEachWriting (hash : SQObject → Nat) (realval : SQObject → SQObject)
    (body : SQObject → SQObject → List (SQObject × SQObject)) :
    Nat → Nat → SQTable → List (SQObject × SQObject) × SQTable
  | 0, _, t => ([], t)
  | fuel + 1, idx, t =>
      match t.next false realval idx with
      | none => ([], t)
      | some (idx, key, val) =>
          let rest := forEachWriting hash realval body fuel idx (t.setAll hash (body key val))
          ((key, val) :: rest.1, rest.2)

/-- The same writes on the map: only keys that are present are written. -/
def Slots.setAll (writes : List (SQObject × SQObject)) (m : Slots) : Slots :=
  writes.foldl (fun m entry => if entry.1 ∈ m then m.insert entry.1 entry.2 else m) m

def Slots.forEachWriting (realval : SQObject → SQObject)
    (body : SQObject → SQObject → List (SQObject × SQObject)) :
    List SQObject → Slots → List (SQObject × SQObject) × Slots
  | [], m => ([], m)
  | key :: keys, m =>
      let val := realval ((m.lookup key).getD .null)
      let rest := forEachWriting realval body keys (Slots.setAll (body key val) m)
      ((key, val) :: rest.1, rest.2)

private theorem set_keyAt (hash : SQObject → Nat) (t : SQTable) (key val : SQObject) :
    (t.set hash key val).1.keyAt = t.keyAt ∧
    (t.set hash key val).1.numOfNodes = t.numOfNodes := by
  rw [set]
  split
  · exact ⟨setVal_keyAt _, rfl⟩
  · exact ⟨rfl, rfl⟩

private theorem setAll_spec (writes : List (SQObject × SQObject)) (rep : Rep hash t m) :
    Rep hash (t.setAll hash writes) (Slots.setAll writes m) ∧
      (t.setAll hash writes).keyAt = t.keyAt ∧
      (t.setAll hash writes).numOfNodes = t.numOfNodes := by
  induction writes generalizing t m with
  | nil => exact ⟨rep, rfl, rfl⟩
  | cons entry writes ih =>
      obtain ⟨rest, keys, size⟩ := ih (rep.set entry.1 entry.2)
      obtain ⟨keys', size'⟩ := set_keyAt hash t entry.1 entry.2
      exact ⟨rest, keys.trans keys', size.trans size'⟩

private theorem forEachWriting_from (realval : SQObject → SQObject)
    (body : SQObject → SQObject → List (SQObject × SQObject))
    {fuel idx : Nat} (rep : Rep hash t m) (enough : (t.usedFrom idx).length < fuel) :
    (forEachWriting hash realval body fuel idx t).1 =
        (Slots.forEachWriting realval body ((t.usedFrom idx).map t.keyAt) m).1 ∧
      Rep hash (forEachWriting hash realval body fuel idx t).2
        (Slots.forEachWriting realval body ((t.usedFrom idx).map t.keyAt) m).2 := by
  induction fuel generalizing idx t m with
  | zero => omega
  | succ fuel ih =>
      rw [forEachWriting]
      rcases next_spec (t := t) realval false idx with ⟨missed, none⟩ | ⟨i, found, rest⟩
      · simpa [missed, none, Slots.forEachWriting] using rep
      · have used : t.keyAt i ≠ .null := by
          have member : i ∈ t.usedFrom idx := rest ▸ List.mem_cons_self
          simpa using (List.mem_filter.mp member).2
        have seen : m.lookup (t.keyAt i) = some (t.valAt i) :=
          (rep.slots _ _).mpr ⟨used, i, rfl, rfl⟩
        obtain ⟨next, keys, size⟩ := setAll_spec (body (t.keyAt i) (realval (t.valAt i))) rep
        have same : (t.setAll hash (body (t.keyAt i) (realval (t.valAt i)))).usedFrom (i + 1) =
            t.usedFrom (i + 1) := by
          rw [usedFrom, usedFrom, keys, size]
        have short : (t.usedFrom (i + 1)).length < fuel := by
          rw [rest] at enough
          simpa using enough
        obtain ⟨alike, kept⟩ := ih next (same ▸ short)
        rw [same, keys] at alike kept
        simp only [found, rest, List.map_cons, Slots.forEachWriting, seen, Option.getD_some,
          Bool.false_eq_true, if_false]
        exact ⟨by rw [alike], kept⟩

/-- A `foreach` loop whose body writes existing slots sees every key of the table exactly once,
each with the value it has at that moment, and leaves the table with these writes. -/
theorem foreach_writing_sees_each_key_once (hash : SQObject → Nat)
    (realval : SQObject → SQObject) (initialSize : Int) (ops : List TableOp)
    (admissible : ∀ op ∈ ops, Admissible op)
    (body : SQObject → SQObject → List (SQObject × SQObject)) :
    let t := final (tableStep hash realval) (create initialSize) ops
    let m := final (slotsStep realval) ∅ ops
    ∃ order : List SQObject, order.Nodup ∧ (∀ key, key ∈ order ↔ key ∈ m) ∧
      (forEachWriting hash realval body (t.numOfNodes + 1) 0 t).1 =
        (Slots.forEachWriting realval body order m).1 ∧
      Rep hash (forEachWriting hash realval body (t.numOfNodes + 1) 0 t).2
        (Slots.forEachWriting realval body order m).2 := by
  intro t m
  have rep : Rep hash t m := (run_simulated hash realval initialSize ops admissible).1
  have short : (t.usedFrom 0).length < t.numOfNodes + 1 := by
    have bound := usedFrom_length_le (t := t) 0
    omega
  obtain ⟨alike, kept⟩ := forEachWriting_from realval body rep short
  refine ⟨(t.usedFrom 0).map t.keyAt, ?_, ?_, alike, kept⟩
  · refine List.Nodup.map_on ?_ (usedFrom_nodup 0)
    intro i member j _ same
    exact rep.good.sound.unique i j ((mem_live i).mp (mem_usedFrom_zero.mp member)).2 same
  · intro key
    rw [rep.mem_iff, List.mem_map]
    constructor
    · rintro ⟨i, member, rfl⟩
      exact ⟨t.valAt i, ((mem_live i).mp (mem_usedFrom_zero.mp member)).2, i, rfl, rfl⟩
    · rintro ⟨v, valid, i, rfl, rfl⟩
      exact ⟨i, mem_usedFrom_zero.mpr ((mem_live i).mpr
        ⟨rep.good.sound.lt_of_live valid, valid⟩), rfl⟩

theorem foreach_writing_sees_each_key_once_colliding :
    (∀ op ∈ collidingRun, Admissible op) ∧
      ∃ order : List SQObject, order.Nodup ∧
        (∀ key, key ∈ order ↔ key ∈ final (slotsStep id) ∅ collidingRun) ∧
        (forEachWriting SQObject.hashObj id (fun key val => [(key, .bool 1), (.integer 0, val)])
          ((final (tableStep SQObject.hashObj id) (create 0) collidingRun).numOfNodes + 1) 0
          (final (tableStep SQObject.hashObj id) (create 0) collidingRun)).1 =
        (Slots.forEachWriting id (fun key val => [(key, .bool 1), (.integer 0, val)]) order
          (final (slotsStep id) ∅ collidingRun)).1 := by
  have admissible : ∀ op ∈ collidingRun, Admissible op := by
    simp [collidingRun, Admissible]
  obtain ⟨order, nodup, keys, alike, -⟩ := foreach_writing_sees_each_key_once SQObject.hashObj id 0
    collidingRun admissible fun key val => [(key, .bool 1), (.integer 0, val)]
  exact ⟨admissible, order, nodup, keys, alike⟩

end ForEach

section Growth

def insertions (hash : SQObject → Nat) (initialSize : Int) (l : List (SQObject × SQObject)) :
    SQTable :=
  l.foldl (fun t entry => (t.newSlot hash entry.1 entry.2).1) (create initialSize)

/-- A table that has seen insertions only, of initial size `n`. -/
private structure Grown (hash : SQObject → Nat) (n : Nat) (t : SQTable) (m : Slots) : Prop where
  rep : Rep hash t m
  tidy : t.Tidy
  size : t.numOfNodes = n ∨ t.numOfNodes ≤ 2 * m.keys.card

private theorem card_live_lt (good : Good hash t) : t.live.card < t.numOfNodes := by
  have smaller : t.live ⊂ Finset.range t.numOfNodes := by
    refine Finset.filter_ssubset.mpr ⟨t.firstFree, ?_, ?_⟩
    · exact Finset.mem_range.mpr good.sound.firstFree_lt
    · simp [good.free.1]
  have card := Finset.card_lt_card smaller
  rwa [Finset.card_range] at card

private theorem keys_insert (m : Slots) (key val : SQObject) :
    (m.insert key val).keys = insert key m.keys := by
  ext k
  rw [Finmap.mem_keys, Finmap.mem_insert, Finset.mem_insert, Finmap.mem_keys]

private theorem Grown.newSlot {n : Nat} (grown : Grown hash n t m) (valid : key ≠ .null)
    (val : SQObject) :
    Grown hash n (t.newSlot hash key val).1 (m.insert key val) ∧
      ((t.newSlot hash key val).2 = true ↔ key ∉ m ∧ m.keys.card + 1 < t.numOfNodes) := by
  have good := grown.rep.good
  have next := grown.rep.newSlot valid val
  have card : t.live.card = m.keys.card := by
    have used := grown.rep.used
    rw [good.used] at used
    exact_mod_cast used
  rcases newSlot_cases good valid val with
    ⟨i, here, done⟩ | ⟨absent, ⟨t', done, extended⟩ | ⟨again, i, done, overfull⟩⟩
  · have present : key ∈ m :=
      grown.rep.mem_iff.mpr ⟨t.valAt i, valid, i, here, rfl⟩
    have keys : (m.insert key val).keys = m.keys := by
      rw [keys_insert, Finset.insert_eq_of_mem (Finmap.mem_keys.mpr present)]
    rw [done] at next ⊢
    refine ⟨⟨next, ?_, ?_⟩, by simp [present]⟩
    · rw [Tidy, setVal_keyAt, setVal_nexts]
      exact grown.tidy
    · rw [keys]
      exact grown.size
  all_goals
    have missing : key ∉ m := by
      rw [grown.rep.mem_iff]
      rintro ⟨v, -, j, here, -⟩
      exact absent j here
    have keys : (m.insert key val).keys.card = m.keys.card + 1 := by
      rw [keys_insert, Finset.card_insert_of_notMem (fun member =>
        missing (Finmap.mem_keys.mp member))]
    have full := card_live_lt good
  · have room := card_live_lt extended.good
    rw [extended.card, extended.size] at room
    rw [done] at next ⊢
    refine ⟨⟨next, extended.tidy grown.tidy, ?_⟩, ?_⟩
    · rw [keys, extended.size]
      rcases grown.size with same | bound
      · exact Or.inl same
      · exact Or.inr (by omega)
    · simp only [true_iff]
      exact ⟨missing, by omega⟩
  · have tight : ¬ m.keys.card + 1 < t.numOfNodes := by
      intro room
      obtain ⟨t', other, -⟩ := newSlotWithin_tidy good valid val 1 absent grown.tidy (by omega)
      rw [SQTable.newSlot, other] at done
      exact absurd (congrArg Prod.snd done) (by simp)
    have four := good.sound.four_le
    have doubled : again.numOfNodes = t.numOfNodes * 2 := by
      have picked := overfull.picked
      rw [rehashSize, if_pos (by rw [good.used]; omega)] at picked
      exact (Option.some.inj picked).symm
    rw [done] at next ⊢
    refine ⟨⟨next, ?_, Or.inr ?_⟩, by simp [tight]⟩
    · rw [Tidy, setVal_keyAt, setVal_nexts]
      exact overfull.tidy
    · rw [keys]
      change again.numOfNodes ≤ _
      omega

/-- A table into which keys are only inserted counts them, always keeps a free node, and is never
larger than it started or than twice its number of slots. One more `NewSlot` adds the slot, and
answers true exactly when the key is new and does not take the last free node. -/
theorem insertions_size (hash : SQObject → Nat) (initialSize : Int)
    (l : List (SQObject × SQObject)) (valid : ∀ entry ∈ l, entry.1 ≠ .null) :
    (insertions hash initialSize l).countUsed = (l.map Prod.fst).toFinset.card ∧
      (l.map Prod.fst).toFinset.card < (insertions hash initialSize l).numOfNodes ∧
      ((insertions hash initialSize l).numOfNodes = (create initialSize).numOfNodes ∨
        (insertions hash initialSize l).numOfNodes ≤ 2 * (l.map Prod.fst).toFinset.card) ∧
      ∀ key val, key ≠ .null →
        (((insertions hash initialSize l).newSlot hash key val).2 = true ↔
          key ∉ l.map Prod.fst ∧
            (l.map Prod.fst).toFinset.card + 1 < (insertions hash initialSize l).numOfNodes) ∧
        (∀ realval, ((insertions hash initialSize l).newSlot hash key val).1.get hash realval key =
          some (realval val)) ∧
        ((insertions hash initialSize l).newSlot hash key val).1.countUsed =
          (insert key (l.map Prod.fst).toFinset).card := by
  have all : ∃ m : Slots, Grown hash (create initialSize).numOfNodes (insertions hash initialSize l)
      m ∧ m.keys = (l.map Prod.fst).toFinset := by
    induction l using List.reverseRecOn with
    | nil =>
        refine ⟨∅, ⟨create_rep hash initialSize, ⟨fun i _ => rfl, ?_⟩, Or.inl rfl⟩, by simp⟩
        intro i high bound
        change roundUp initialSize initialSize.toNat minPower2 - 1 < i at high
        change i < roundUp initialSize initialSize.toNat minPower2 at bound
        omega
    | append_singleton l entry ih =>
        obtain ⟨m, grown, keys⟩ := ih fun e member => valid e (by simp [member])
        refine ⟨m.insert entry.1 entry.2, ?_, ?_⟩
        · rw [insertions, List.foldl_append]
          exact (grown.newSlot (valid entry (by simp)) entry.2).1
        · rw [keys_insert, keys]
          ext k
          simp
  obtain ⟨m, grown, keys⟩ := all
  have bound := card_live_lt grown.rep.good
  have card : (insertions hash initialSize l).live.card = m.keys.card := by
    have used := grown.rep.used
    rw [grown.rep.good.used] at used
    exact_mod_cast used
  refine ⟨?_, by rw [← keys]; omega, ?_, ?_⟩
  · rw [← keys]
    exact grown.rep.used
  · rw [← keys]
    exact grown.size
  · intro key val nonnull
    have next := grown.rep.newSlot nonnull val
    refine ⟨?_, ?_, ?_⟩
    · rw [(grown.newSlot nonnull val).2, ← keys, ← Finmap.mem_keys, keys, List.mem_toFinset]
    · intro realval
      rw [next.get_eq, Finmap.lookup_insert]
      rfl
    · rw [← keys, ← keys_insert m key val]
      exact next.used

/-- A fourth key in a table of four nodes is new, and `NewSlot` answers false for it. -/
theorem insertions_size_fourth_key :
    (∀ entry ∈ [(SQObject.integer 0, SQObject.null), (.integer 1, .null), (.integer 2, .null)],
        entry.1 ≠ .null) ∧
      (insertions SQObject.hashObj 0
        [(.integer 0, .null), (.integer 1, .null), (.integer 2, .null)]).numOfNodes = 4 ∧
      ((insertions SQObject.hashObj 0
        [(.integer 0, .null), (.integer 1, .null), (.integer 2, .null)]).newSlot SQObject.hashObj
          (.integer 3) .null).2 ≠ true := by
  have valid : ∀ entry ∈ [(SQObject.integer 0, SQObject.null), (.integer 1, .null),
      (.integer 2, .null)], entry.1 ≠ .null := by
    decide
  have size : (insertions SQObject.hashObj 0
      [(.integer 0, .null), (.integer 1, .null), (.integer 2, .null)]).numOfNodes = 4 := by
    decide +kernel
  obtain ⟨-, -, -, added⟩ := insertions_size SQObject.hashObj 0 _ valid
  obtain ⟨answer, -, -⟩ := added (.integer 3) .null (by decide)
  refine ⟨valid, size, ?_⟩
  rw [Ne, answer, size]
  decide

end Growth

end SQTable

end SquirrelGObject.Engine
