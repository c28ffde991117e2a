/- SquirrelGObject/Engine/OuterRuns
   digest: When the variables that closures share with the stack are cells along a whole run. -/

import SquirrelGObject.Engine.OutersSpec
import SquirrelGObject.Engine.Stack
import SquirrelGObject.Lib.Runs

set_option autoImplicit false
set_option relaxedAutoImplicit false

namespace SquirrelGObject.Engine

open Lib.Runs

namespace OuterStack

section Frames

variable {vm : SQVM} {t : OuterStack SQObject}

/-- The stack the outers are on is the one of the VM. -/
structure OnStack (vm : SQVM) (t : OuterStack SQObject) : Prop where
  size : vm.stackSize = t.size
  slots : ∀ i < t.size, t.vals i = vm.stack i

theorem OnStack.enterFrame (on : OnStack vm t) (newbase : Int) (newtop : Nat) :
    OnStack (vm.enterFrame newbase newtop).1
      (t.enterFrame .null newtop vm.nMetamethodsCall.natAbs) := by
  have size := on.size
  have overhead : minStackOverhead = 15 := rfl
  have same : minStackOverhead.toNat = 15 := rfl
  rw [SQVM.enterFrame]
  by_cases fits : (newtop : Int) + minStackOverhead ≤ vm.stackSize
  · have stays : t.enterFrame .null newtop vm.nMetamethodsCall.natAbs = t := by
      rw [OuterStack.enterFrame, if_neg (by omega)]
    rw [if_pos fits, stays]
    exact ⟨on.size, on.slots⟩
  · have small : t.size < newtop + minStackOverhead.toNat := by omega
    rw [if_neg fits]
    by_cases metamethod : vm.nMetamethodsCall = 0
    · have moves : t.enterFrame .null newtop vm.nMetamethodsCall.natAbs =
          relocateFrom (newtop + minStackOverhead.toNat * 4) t.openOuters
            (t.resize .null (newtop + minStackOverhead.toNat * 4)) := by
        rw [OuterStack.enterFrame, if_pos small, if_neg (by simp [metamethod])]
        rfl
      obtain ⟨vals, sized, -⟩ := relocateFrom_onlyOuters (newtop + minStackOverhead.toNat * 4)
        t.openOuters (t.resize .null (newtop + minStackOverhead.toNat * 4))
      rw [if_neg (not_not.mpr metamethod), moves]
      refine ⟨?_, ?_⟩
      · rw [sized]
        show (newtop : Int) + 4 * minStackOverhead = (newtop + minStackOverhead.toNat * 4 : Nat)
        omega
      · intro i below
        rw [sized] at below
        replace below : i < newtop + minStackOverhead.toNat * 4 := below
        rw [vals]
        show (if i < t.size then t.vals i else .null) =
          if vm.stackSize ≤ i ∧ (i : Int) < newtop + 4 * minStackOverhead then .null
          else vm.stack i
        by_cases old : i < t.size
        · rw [if_pos old, if_neg (by omega)]
          exact on.slots i old
        · rw [if_neg old, if_pos (by omega)]
    · have stays : t.enterFrame .null newtop vm.nMetamethodsCall.natAbs = t := by
        rw [OuterStack.enterFrame, if_pos small, if_pos (by simpa using metamethod)]
      rw [if_pos metamethod, stays]
      exact ⟨on.size, on.slots⟩

theorem OnStack.leaveFrame (on : OnStack vm t) (nonneg : 0 ≤ vm.top) :
    OnStack vm.leaveFrame (t.leaveFrame .null vm.stackBase.toNat
      (vm.stackBase - vm.ci.prevStkBase + vm.ci.prevTop).toNat vm.top.toNat) := by
  obtain ⟨vals, sized, -⟩ : OnlyOuters t (t.closeOuters vm.stackBase.toNat) :=
    closeFrom_onlyOuters _ _ _
  refine ⟨?_, ?_⟩
  · show vm.stackSize = (t.closeOuters vm.stackBase.toNat).size
    rw [sized]
    exact on.size
  · intro i below
    have inside : i < t.size := by
      rw [← sized]
      exact below
    simp only [OuterStack.leaveFrame, OuterStack.nullSlots, SQVM.leaveFrame, vals]
    by_cases cleared : vm.stackBase - vm.ci.prevStkBase + vm.ci.prevTop ≤ i ∧ (i : Int) ≤ vm.top
    · rw [if_pos cleared, if_pos (by omega)]
    · rw [if_neg cleared, if_neg (by omega)]
      exact on.slots i inside

end Frames

end OuterStack

namespace OuterUse

open OuterStack

variable {α : Type}

def init (null : α) (size : Nat) : OuterUse α := ⟨OuterStack.init null size, []⟩

/-- What the compiler and the callers see to: slots are on the stack, and a new outer is not in
memory yet. -/
def Admissible (u : OuterUse α) : OuterOp α → Prop
  | .read i => i < u.stack.size
  | .write i _ => i < u.stack.size
  | .capture i fresh => i < u.stack.size ∧ u.stack.outers fresh = none
  | .catchError extarget _ _ _ => extarget < u.stack.size
  | _ => True

instance (u : OuterUse α) : (op : OuterOp α) → Decidable (u.Admissible op)
  | .read i => inferInstanceAs (Decidable (i < u.stack.size))
  | .write i _ => inferInstanceAs (Decidable (i < u.stack.size))
  | .capture i fresh => inferInstanceAs (Decidable (i < u.stack.size ∧ u.stack.outers fresh = none))
  | .catchError extarget _ _ _ => inferInstanceAs (Decidable (extarget < u.stack.size))
  | .getOuter _ | .setOuter _ _ | .close _ | .enterFrame _ _ | .reserveStack _ _ _
  | .leaveFrame _ _ _ => isTrue trivial

/-- No captured variable is where a caught error goes or above it, and none is on the stack when
`sq_reservestack` moves it. -/
def Undisturbed (u : OuterUse α) : OuterOp α → Prop
  | .catchError extarget _ _ _ => ∀ a i, u.stack.place a = some i → i < extarget
  | .reserveStack top nsize nmetamethodscall =>
      u.stack.allocated < top + nsize → nmetamethodscall = 0 → ∀ a, u.stack.place a = none
  | _ => True

/-- The closures hold the outers of the cells they captured. -/
def Rep (null : α) (u : OuterUse α) (v : Variables α) : Prop :=
  ∃ l φ, Shares null u.stack v l φ ∧ v.captured = u.handles.map φ ∧
    ∀ a, (u.stack.outers a).isSome ↔ a ∈ u.handles

variable {null : α} {u : OuterUse α} {v : Variables α}

theorem init_rep (null : α) (size : Nat) : Rep null (init null size) (Variables.init null) :=
  ⟨[], fun _ => (0, 0), init_shares null size _, rfl, by simp [init, OuterStack.init]⟩

theorem step_rep (rep : Rep null u v) (op : OuterOp α) (admissible : u.Admissible op)
    (undisturbed : u.Undisturbed op) :
    Rep null (u.step null op).1 (v.step null op).1 ∧
      (u.step null op).2 = (v.step null op).2 := by
  obtain ⟨l, φ, shares, captured, alive⟩ := rep
  cases op with
  | read i => exact ⟨⟨l, φ, shares, captured, alive⟩, congrArg some (shares.slots i admissible)⟩
  | write i x => exact ⟨⟨l, φ, shares.write admissible x, captured, alive⟩, rfl⟩
  | capture i fresh =>
      obtain ⟨inside, unused⟩ := admissible
      obtain ⟨l', φ', shares', cell, kept, stored⟩ := shares.findOuter unused inside
      refine ⟨⟨l', φ', { shares' with }, ?_, ?_⟩, rfl⟩
      · show v.captured ++ [(i, v.epoch i)] = (u.handles ++ [_]).map φ'
        rw [List.map_append, List.map_singleton, cell, captured]
        refine congrArg (· ++ _) (List.map_congr_left ?_)
        intro a member
        exact (kept a ((alive a).mpr member)).symm
      · intro a
        show ((u.stack.findOuter null fresh i).1.outers a).isSome ↔ a ∈ u.handles ++ [_]
        rw [stored, alive, List.mem_append, List.mem_singleton]
  | getOuter k =>
      have cells : v.captured[k]? = (u.handles[k]?).map φ := by rw [captured, List.getElem?_map]
      cases found : u.handles[k]? with
      | none =>
          simp only [step, Variables.step, cells, found, Option.map_none, and_true]
          exact ⟨l, φ, shares, captured, alive⟩
      | some a =>
          have value := shares.getOuter ((alive a).mpr (List.mem_of_getElem? found))
          simp only [step, Variables.step, cells, found, Option.map_some, value, and_true]
          exact ⟨l, φ, shares, captured, alive⟩
  | setOuter k x =>
      have cells : v.captured[k]? = (u.handles[k]?).map φ := by rw [captured, List.getElem?_map]
      cases found : u.handles[k]? with
      | none =>
          simp only [step, Variables.step, cells, found, Option.map_none, and_true]
          exact ⟨l, φ, shares, captured, alive⟩
      | some a =>
          obtain ⟨o, stored⟩ :=
            Option.isSome_iff_exists.mp ((alive a).mpr (List.mem_of_getElem? found))
          simp only [step, Variables.step, cells, found, Option.map_some, and_true]
          refine ⟨l, φ, shares.putOuter stored x, captured, ?_⟩
          intro b
          rw [← alive b, putOuter_isSome]
  | close i =>
      obtain ⟨l', closed⟩ := shares.closeOuters i
      refine ⟨⟨l', φ, closed, captured, ?_⟩, rfl⟩
      intro a
      have kept := closeOuters_isSome i u.stack a
      exact (Bool.eq_iff_iff.mp kept).trans (alive a)
  | enterFrame newtop nmetamethodscall =>
      refine ⟨⟨l, φ, shares.enterFrame newtop nmetamethodscall, captured, ?_⟩, rfl⟩
      intro a
      have kept := enterFrame_isSome null newtop nmetamethodscall u.stack a
      exact (Bool.eq_iff_iff.mp kept).trans (alive a)
  | reserveStack top nsize nmetamethodscall =>
      have unlisted : u.stack.allocated < top + nsize → nmetamethodscall = 0 → l = [] := by
        intro beyond outside
        refine List.eq_nil_iff_forall_not_mem.mpr ?_
        intro a member
        have place := shares.place_open member
        rw [undisturbed beyond outside a] at place
        cases place
      refine ⟨⟨l, φ, shares.sqReserveStack top nsize nmetamethodscall unlisted, captured, ?_⟩, rfl⟩
      intro a
      show ((u.stack.sqReserveStack null top nsize nmetamethodscall).outers a).isSome ↔ _
      rw [sqReserveStack_outers]
      exact alive a
  | leaveFrame lastBase top lastTop =>
      obtain ⟨l', left⟩ := shares.leaveFrame lastBase top lastTop
      refine ⟨⟨l', φ, left, captured, ?_⟩, rfl⟩
      intro a
      have kept := closeOuters_isSome lastBase u.stack a
      exact (Bool.eq_iff_iff.mp kept).trans (alive a)
  | catchError extarget stacksize lastTop error =>
      have below : ∀ a ∈ l, (φ a).1 < extarget :=
        fun a member => undisturbed a _ (shares.place_open member)
      have caught := shares.catchError admissible below stacksize lastTop error
      exact ⟨⟨l, φ, caught, captured, alive⟩, rfl⟩

private theorem run_rep (rep : Rep null u v) (ops : List (OuterOp α))
    (along : Along (step null) (fun u op => u.Admissible op ∧ u.Undisturbed op) u ops) :
    Rep null (final (step null) u ops) (final (Variables.step null) v ops) ∧
      outputs (step null) u ops = outputs (Variables.step null) v ops := by
  have keeps : ∀ (u : OuterUse α) (v : Variables α) (op : OuterOp α), Rep null u v →
      (u.Admissible op ∧ u.Undisturbed op) →
      Rep null (u.step null op).1 (v.step null op).1 ∧
        (u.step null op).2 = (v.step null op).2 := by
    intro u v op rep here
    exact step_rep rep op here.1 here.2
  exact simulated_along keeps rep along

/-- The variables that closures share with the stack are cells. In every run in which no captured
variable is in the way of a caught error and none is on a stack that `sq_reservestack` moves, every
read and write, through the stack or through a closure, in the frame of the variable or after it, is
one of its cell; closures hold the same outer exactly when they captured the same variable; and no
pointer to a former stack is followed. -/
theorem outers_are_cells (null : α) (size : Nat) (ops : List (OuterOp α))
    (along : Along (step null) (fun u op => u.Admissible op ∧ u.Undisturbed op) (init null size)
      ops) :
    let u := final (step null) (init null size) ops
    let v := final (Variables.step null) (Variables.init null) ops
    outputs (step null) (init null size) ops =
        outputs (Variables.step null) (Variables.init null) ops ∧
      (∀ j k : Nat, u.handles[j]? = u.handles[k]? ↔ v.captured[j]? = v.captured[k]?) ∧
      u.stack.dangling = false := by
  intro u v
  obtain ⟨⟨l, φ, shares, captured, alive⟩, alike⟩ := run_rep (init_rep null size) ops along
  refine ⟨alike, ?_, shares.safe⟩
  intro j k
  rw [captured, List.getElem?_map, List.getElem?_map]
  constructor
  · intro same
    rw [same]
  · intro same
    cases first : u.handles[j]? with
    | none =>
        rw [first, Option.map_none] at same
        exact (Option.map_eq_none_iff.mp same.symm).symm
    | some a =>
        rw [first, Option.map_some] at same
        obtain ⟨b, second, equal⟩ := Option.map_eq_some_iff.mp same.symm
        rw [second]
        refine congrArg some (shares.injective a b ?_ ?_ equal.symm)
        · exact (alive a).mpr (List.mem_of_getElem? first)
        · exact (alive b).mpr (List.mem_of_getElem? second)

def sharedCounter : List (OuterOp Nat) :=
  [.write 2 5, .capture 2 100, .catchError 3 6 8 99, .capture 2 101, .setOuter 0 7, .read 2,
    .enterFrame 10 0, .write 2 8, .getOuter 1, .leaveFrame 2 1 4, .write 2 9, .getOuter 0, .read 2]

private theorem sharedCounter_along :
    Along (step 0) (fun u op => u.Admissible op ∧ u.Undisturbed op) (init 0 20) sharedCounter := by
  refine ⟨⟨by decide, trivial⟩, ⟨by decide, trivial⟩, ⟨by decide, ?_⟩, ⟨by decide, trivial⟩,
    ⟨by decide, trivial⟩, ⟨by decide, trivial⟩, ⟨by decide, trivial⟩, ⟨by decide, trivial⟩,
    ⟨by decide, trivial⟩, ⟨by decide, trivial⟩, ⟨by decide, trivial⟩, ⟨by decide, trivial⟩,
    ⟨by decide, trivial⟩, trivial⟩
  intro a i place
  have slot : i = 2 := by
    by_cases here : a = 100
    · subst here
      exact (Option.some.inj place).symm
    · obtain ⟨o, stored, -⟩ := Option.bind_eq_some_iff.mp place
      have unused : OuterStack.outers (step 0 (step 0 (init 0 20) (.write 2 5)).1
          (.capture 2 100)).1.stack a = none := by
        exact Function.update_of_ne here _ _
      rw [unused] at stored
      cases stored
  omega

theorem outers_are_cells_across_frames :
    outputs (Variables.step 0) (Variables.init 0) sharedCounter =
      [none, none, none, none, none, some 7, none, none, some 8, none, none, some 8, some 9] :=
  (outers_are_cells 0 20 sharedCounter sharedCounter_along).1.symm.trans (by decide)

section Disturbed

variable {i e : Nat}

private theorem assign_past {j : Nat} (x : α) (before : e < v.epoch i) :
    (v.assign j (v.epoch j) x).cell i e = v.cell i e := by
  apply Variables.assign_of_ne
  intro equal
  obtain ⟨rfl, same⟩ := Prod.mk.inj equal
  omega

private theorem nullSlots_past (top lastTop : Nat) (before : e < v.epoch i) :
    (v.nullSlots null top lastTop).cell i e = v.cell i e := by
  refine if_neg ?_
  intro both
  omega

private theorem handle_of_place (rep : Rep null u v) {a : Address}
    (place : u.stack.place a = some i) :
    ∃ (k : Nat) (o : LinkedOuter α), u.handles[k]? = some a ∧ u.stack.outers a = some o ∧
      o.valptr = .stack u.stack.allocation i ∧ i < u.stack.size ∧
      v.captured[k]? = some (i, v.epoch i) := by
  obtain ⟨l, φ, shares, captured, alive⟩ := rep
  obtain ⟨listed, slot⟩ := (shares.place_iff a i).mp place
  obtain ⟨o, stored, pointer, inside, cell⟩ := shares.opened a listed
  obtain ⟨k, found⟩ := List.getElem?_of_mem ((alive a).mp (by simp [stored]))
  have index : o.idx = i := by
    rw [cell] at slot
    exact slot
  subst index
  refine ⟨k, o, found, stored, pointer, inside, ?_⟩
  rw [captured, List.getElem?_map, found, Option.map_some, cell]

/-- After an error is caught at or below the slot of a captured variable, a write to the slot, where
there is another variable now, is one to the captured variable too. -/
private theorem caught_shared (rep : Rep null u v) {a : Address} (place : u.stack.place a = some i)
    {extarget : Nat} (above : extarget ≤ i) (stacksize lastTop : Nat) (error x : α) :
    ∃ k, outputs (step null) u [.catchError extarget stacksize lastTop error, .write i x,
        .getOuter k] = [none, none, some x] ∧
      outputs (Variables.step null) v [.catchError extarget stacksize lastTop error, .write i x,
        .getOuter k] = [none, none, some (v.current i)] := by
  obtain ⟨k, o, found, stored, pointer, inside, cell⟩ := handle_of_place rep place
  refine ⟨k, ?_, ?_⟩
  · simp [step, found, OuterStack.getOuter, OuterStack.catchError, OuterStack.nullSlots, setSlot,
      stored, OuterStack.deref, pointer]
  · have past : v.epoch i < (v.detach extarget).epoch i := by
      simp [Variables.detach, above]
    have value : (Variables.step null (final (Variables.step null) v
        [.catchError extarget stacksize lastTop error, .write i x]) (.getOuter k)).2 =
          some (v.current i) := by
      have same : (final (Variables.step null) v
        [.catchError extarget stacksize lastTop error, .write i x]).captured[k]? =
          some (i, v.epoch i) := cell
      simp only [Variables.step, same]
      refine congrArg some ?_
      calc
        _ = (((v.detach extarget).assign extarget ((v.detach extarget).epoch extarget)
              error).nullSlots null stacksize lastTop).cell i (v.epoch i) := assign_past x past
        _ = ((v.detach extarget).assign extarget ((v.detach extarget).epoch extarget)
              error).cell i (v.epoch i) := nullSlots_past stacksize lastTop past
        _ = (v.detach extarget).cell i (v.epoch i) := assign_past error past
        _ = v.current i := detach_cell extarget (Nat.le_refl _)
    exact congrArg (fun y => [none, none, y]) value

/-- After `sq_reservestack` has moved the stack, a captured variable on it is read through a pointer
to the former one. -/
private theorem reserved_dangling (rep : Rep null u v) {a : Address}
    (place : u.stack.place a = some i) {top nsize : Nat}
    (beyond : u.stack.allocated < top + nsize) :
    ∃ k, (final (step null) u [.reserveStack top nsize 0, .getOuter k]).stack.dangling = true := by
  obtain ⟨k, o, found, stored, pointer, inside, -⟩ := handle_of_place rep place
  obtain ⟨l, φ, shares, -⟩ := rep
  have small : u.stack.size < top + nsize := Nat.lt_of_le_of_lt shares.fits beyond
  have sized : u.stack.size + (top + nsize - u.stack.size) = top + nsize := by omega
  have reserved : u.stack.sqReserveStack null top nsize 0 =
      u.stack.resize null (top + nsize) := by
    rw [OuterStack.sqReserveStack, if_pos small, if_neg (by simp), sized]
  have moved : (u.stack.resize null (top + nsize)).allocation = u.stack.allocation + 1 :=
    if_pos beyond
  have former : (u.stack.resize null (top + nsize)).valid o = false := by
    simp [valid, pointer, moved]
  have kept : (u.stack.resize null (top + nsize)).outers a = some o := stored
  refine ⟨k, ?_⟩
  simp only [final_cons, final_nil, step, found, reserved, OuterStack.getOuter, kept, former]
  simp

/-- Exactly the undisturbed steps keep this up: after any other step, closures and stack can be seen
to share what are two variables, or to follow a pointer to a former stack. -/
theorem outers_stay_cells_iff [Nontrivial α] (null : α) (size : Nat) (ops : List (OuterOp α))
    (along : Along (step null) (fun u op => u.Admissible op ∧ u.Undisturbed op) (init null size)
      ops)
    (op : OuterOp α) (admissible : (final (step null) (init null size) ops).Admissible op) :
    let u := final (step null) (init null size) ops
    let v := final (Variables.step null) (Variables.init null) ops
    (∀ rest, Along (step null) (fun u op => u.Admissible op ∧ u.Undisturbed op)
        (u.step null op).1 rest →
      outputs (step null) u (op :: rest) = outputs (Variables.step null) v (op :: rest) ∧
      (final (step null) u (op :: rest)).stack.dangling = false) ↔ u.Undisturbed op := by
  intro u v
  have rep : Rep null u v := (run_rep (init_rep null size) ops along).1
  constructor
  · intro all
    cases op with
    | catchError extarget stacksize lastTop error =>
        -- A write to the slot of the new variable shows through the closure of the old one.
        intro a i place
        by_contra above
        obtain ⟨x, other⟩ := exists_ne (v.current i)
        obtain ⟨k, concrete, abstract⟩ := caught_shared rep place (Nat.le_of_not_lt above)
          stacksize lastTop error x
        obtain ⟨-, -, -, -, -, inside, -⟩ := handle_of_place rep place
        have alike := (all [.write i x, .getOuter k]
          ⟨⟨inside, trivial⟩, ⟨trivial, trivial⟩, trivial⟩).1
        rw [concrete, abstract] at alike
        simp at alike
        exact other alike
    | reserveStack top nsize nmetamethodscall =>
        intro beyond outside a
        subst outside
        by_contra opened
        obtain ⟨i, place⟩ := Option.ne_none_iff_exists'.mp opened
        obtain ⟨k, dangling⟩ := reserved_dangling rep place beyond
        have safe := (all [.getOuter k] ⟨⟨trivial, trivial⟩, trivial⟩).2
        rw [dangling] at safe
        cases safe
    | _ => trivial
  · intro undisturbed rest after
    obtain ⟨⟨l, φ, shares, -⟩, alike⟩ :=
      run_rep rep (op :: rest) ⟨⟨admissible, undisturbed⟩, after⟩
    exact ⟨alike, shares.safe⟩

/-- Reserving more stack than is allocated, with a captured variable in slot 2. -/
theorem outers_disturbed_by_reserve :
    let u := final (step 0) (init 0 20) [.write 2 5, .capture 2 100]
    let v := final (Variables.step 0) (Variables.init 0) [.write 2 5, .capture 2 100]
    ¬ ∀ rest, Along (step 0) (fun u op => u.Admissible op ∧ u.Undisturbed op)
        (u.step 0 (.reserveStack 10 100 0)).1 rest →
      outputs (step 0) u (.reserveStack 10 100 0 :: rest) =
          outputs (Variables.step 0) v (.reserveStack 10 100 0 :: rest) ∧
        (final (step 0) u (.reserveStack 10 100 0 :: rest)).stack.dangling = false := by
  intro u v all
  have along : Along (step 0) (fun u op => u.Admissible op ∧ u.Undisturbed op) (init 0 20)
      [.write 2 5, .capture 2 100] :=
    ⟨⟨by decide, trivial⟩, ⟨by decide, trivial⟩, trivial⟩
  have undisturbed : u.Undisturbed (.reserveStack 10 100 0) :=
    (outers_stay_cells_iff 0 20 [.write 2 5, .capture 2 100] along (.reserveStack 10 100 0)
      trivial).mp all
  have gone : u.stack.place 100 = none := undisturbed (by decide) rfl 100
  have there : u.stack.place 100 = some 2 := by decide
  rw [there] at gone
  cases gone

end Disturbed

end OuterUse

end SquirrelGObject.Engine
