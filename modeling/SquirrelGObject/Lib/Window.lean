/- SquirrelGObject/Lib/Window
   digest: A window of an integer-addressed memory read as a list, with the rules for pushing, popping and framing. -/

import Mathlib.Data.Int.Init
import Mathlib.Data.List.Basic
import Mathlib.Logic.Function.Basic

set_option autoImplicit false
set_option relaxedAutoImplicit false

namespace SquirrelGObject.Lib.Window

variable {α : Type*}

/-- The cells of a memory from `base` up to but excluding `top`, lowest first. -/
def window (mem : Int → α) (base top : Int) : List α :=
  (List.range (top - base).toNat).map (fun i : Nat => mem (base + i))

/-- The cells from `base` to `top` are exactly `xs`. Cells outside are not constrained. -/
structure Holds (mem : Int → α) (base top : Int) (xs : List α) : Prop where
  top_eq : top = base + xs.length
  cell : ∀ i (inside : i < xs.length), mem (base + i) = xs[i]

/-- Read a list as a stack is read: a non-negative index counts from one at the bottom, a
negative index counts back from the top. -/
def at? (xs : List α) (idx : Int) : Option α :=
  if 0 ≤ idx then xs[(idx - 1).toNat]? else xs[(xs.length + idx).toNat]?

/-- An index that names an element of a list of this length. -/
def InRange (n : Nat) (idx : Int) : Prop :=
  (1 ≤ idx ∧ idx ≤ n) ∨ (idx < 0 ∧ 0 ≤ n + idx)

instance (n : Nat) (idx : Int) : Decidable (InRange n idx) :=
  inferInstanceAs (Decidable (_ ∨ _))

def fill (mem : Int → α) (pos : Int) : List α → Int → α
  | [] => mem
  | x :: rest => fill (Function.update mem pos x) (pos + 1) rest

@[simp] theorem window_length (mem : Int → α) (base top : Int) :
    (window mem base top).length = (top - base).toNat := by
  simp [window]

theorem holds_window (mem : Int → α) {base top : Int} (le : base ≤ top) :
    Holds mem base top (window mem base top) where
  top_eq := by
    rw [window_length]
    omega
  cell i inside := by simp [window]

namespace Holds

variable {mem mem' : Int → α} {base top : Int} {xs ys : List α} {x : α}

theorem window_eq (h : Holds mem base top xs) : window mem base top = xs := by
  have len : (top - base).toNat = xs.length := by
    have := h.top_eq
    omega
  apply List.ext_getElem
  · rw [window_length, len]
  · intro i _ inside
    simpa [window] using h.cell i inside

theorem nil : Holds mem base base ([] : List α) := ⟨by simp, by simp⟩

theorem congr (h : Holds mem base top xs)
    (same : ∀ i, base ≤ i → i < top → mem' i = mem i) : Holds mem' base top xs where
  top_eq := h.top_eq
  cell i inside := by
    have := h.top_eq
    rw [same _ (by omega) (by omega), h.cell i inside]

theorem append_iff {mid : Int} (at_mid : mid = base + xs.length) :
    Holds mem base top (xs ++ ys) ↔ Holds mem base mid xs ∧ Holds mem mid top ys := by
  subst at_mid
  constructor
  · intro h
    have total := h.top_eq
    rw [List.length_append] at total
    refine ⟨⟨rfl, ?_⟩, ⟨by push_cast at total; omega, ?_⟩⟩
    · intro i inside
      have cell := h.cell i (by rw [List.length_append]; omega)
      rwa [List.getElem_append_left inside] at cell
    · intro i inside
      have cell := h.cell (xs.length + i) (by rw [List.length_append]; omega)
      rw [List.getElem_append_right (by omega)] at cell
      simpa [Int.add_assoc] using cell
  · rintro ⟨low, high⟩
    constructor
    · have := high.top_eq
      rw [List.length_append]
      push_cast
      omega
    · intro i inside
      by_cases left : i < xs.length
      · rw [List.getElem_append_left left]
        exact low.cell i left
      · rw [List.getElem_append_right (by omega)]
        have cell := high.cell (i - xs.length) (by rw [List.length_append] at inside; omega)
        rw [← cell]
        congr 1
        omega

theorem singleton_iff : Holds mem base top [x] ↔ top = base + 1 ∧ mem base = x := by
  constructor
  · intro h
    exact ⟨by simpa using h.top_eq, by simpa using h.cell 0 (by simp)⟩
  · rintro ⟨next, cell⟩
    refine ⟨by simpa using next, ?_⟩
    intro i inside
    have zero : i = 0 := by simpa using inside
    subst zero
    simpa using cell

theorem push (h : Holds mem base top xs) (x : α) :
    Holds (Function.update mem top x) base (top + 1) (xs ++ [x]) := by
  refine (append_iff h.top_eq).mpr ⟨h.congr ?_, singleton_iff.mpr ⟨rfl, ?_⟩⟩
  · intro i _ below
    exact Function.update_of_ne (by omega) _ _
  · exact Function.update_self _ _ _

theorem setFirst (h : Holds mem base top (x :: xs)) (y : α) :
    Holds (Function.update mem base y) base top (y :: xs) := by
  have split (z : α) (mem : Int → α) : Holds mem base top (z :: xs) ↔
      Holds mem base (base + 1) [z] ∧ Holds mem (base + 1) top xs := by
    rw [← List.singleton_append]
    exact append_iff rfl
  have rest := ((split x mem).mp h).2
  refine (split y _).mpr ⟨?_, rest.congr ?_⟩
  · exact singleton_iff.mpr ⟨rfl, Function.update_self _ _ _⟩
  · intro i above _
    exact Function.update_of_ne (by omega) _ _

theorem pop (h : Holds mem base top (xs ++ [x])) (y : α) :
    Holds (Function.update mem (top - 1) y) base (top - 1) xs := by
  have total := h.top_eq
  rw [List.length_append, List.length_singleton] at total
  have low := ((append_iff rfl).mp h).1
  have at_top : base + (xs.length : Int) = top - 1 := by push_cast at total; omega
  rw [at_top] at low
  exact low.congr fun i _ below => Function.update_of_ne (by omega) _ _

theorem last (h : Holds mem base top (xs ++ [x])) : mem (top - 1) = x := by
  have total := h.top_eq
  rw [List.length_append, List.length_singleton] at total
  have high := ((append_iff rfl).mp h).2
  have at_top : base + (xs.length : Int) = top - 1 := by push_cast at total; omega
  rw [at_top] at high
  exact (singleton_iff.mp high).2

theorem read (h : Holds mem base top xs) {idx : Int} (inside : InRange xs.length idx) :
    at? xs idx = some (if 0 ≤ idx then mem (idx + base - 1) else mem (top + idx)) := by
  have total := h.top_eq
  rw [at?]
  rcases inside with ⟨low, high⟩ | ⟨negative, low⟩
  · rw [if_pos (by omega), if_pos (by omega), List.getElem?_eq_getElem (by omega),
      ← h.cell _ (by omega)]
    congr 2
    omega
  · rw [if_neg (by omega), if_neg (by omega), List.getElem?_eq_getElem (by omega),
      ← h.cell _ (by omega)]
    congr 2
    omega

end Holds

section Fill

variable {mem : Int → α} {pos : Int} {l : List α} {i : Int}

theorem fill_of_outside (outside : i < pos ∨ pos + l.length ≤ i) : fill mem pos l i = mem i := by
  induction l generalizing mem pos with
  | nil => rfl
  | cons x rest ih =>
      rw [List.length_cons] at outside
      push_cast at outside
      rw [fill, ih (by omega)]
      exact Function.update_of_ne (by omega) _ _

theorem fill_append (mem : Int → α) (pos : Int) (xs ys : List α) :
    fill mem pos (xs ++ ys) = fill (fill mem pos xs) (pos + xs.length) ys := by
  induction xs generalizing mem pos with
  | nil => simp [fill]
  | cons x rest ih =>
      rw [List.cons_append, fill, ih, fill, List.length_cons]
      congr 1
      push_cast
      omega

theorem Holds.fill {base top : Int} {xs : List α} (h : Holds mem base top xs) (l : List α) :
    Holds (fill mem top l) base (top + l.length) (xs ++ l) := by
  induction l generalizing mem top xs with
  | nil => simpa [Window.fill] using h
  | cons x rest ih =>
      have next := ih (h.push x)
      have total : top + ((x :: rest).length : Int) = top + 1 + rest.length := by
        rw [List.length_cons]
        push_cast
        omega
      rw [total]
      simpa [Window.fill] using next

theorem fill_holds (mem : Int → α) (pos : Int) (l : List α) :
    Holds (fill mem pos l) pos (pos + l.length) l := by
  have start : Holds mem pos pos [] := Holds.nil
  simpa using start.fill l

theorem window_fill (mem : Int → α) (pos : Int) {l : List α} {k : Nat} (le : k ≤ l.length) :
    window (fill mem pos l) pos (pos + k) = l.take k := by
  have whole := fill_holds mem pos l
  rw [← List.take_append_drop k l] at whole
  have at_mid : pos + (k : Int) = pos + (l.take k).length := by
    rw [List.length_take, Nat.min_eq_left le]
  have first := ((Holds.append_iff at_mid).mp whole).1
  rw [List.take_append_drop] at first
  exact first.window_eq

/-- The cells behind the first `k` that are written stay as they are exactly when they already held
what is written there. -/
theorem fill_kept_iff (mem : Int → α) (pos : Int) {l : List α} {k : Nat} (le : k ≤ l.length) :
    (∀ i, ¬ (pos ≤ i ∧ i < pos + k) → fill mem pos l i = mem i) ↔
      window mem (pos + k) (pos + l.length) = l.drop k := by
  have whole := fill_holds mem pos l
  rw [← List.take_append_drop k l] at whole
  have at_mid : pos + (k : Int) = pos + (l.take k).length := by
    rw [List.length_take, Nat.min_eq_left le]
  have behind := ((Holds.append_iff at_mid).mp whole).2
  rw [List.take_append_drop] at behind
  constructor
  · intro kept
    refine (behind.congr ?_).window_eq
    intro i above _
    exact (kept i (by omega)).symm
  · intro same i outside
    by_cases written : pos + k ≤ i ∧ i < pos + l.length
    · have before := holds_window mem (show pos + (k : Int) ≤ pos + l.length by omega)
      rw [same] at before
      obtain ⟨j, rfl⟩ : ∃ j : Nat, i = pos + k + j := ⟨(i - (pos + k)).toNat, by omega⟩
      have inside : j < (l.drop k).length := by
        rw [List.length_drop]
        omega
      rw [behind.cell j inside, before.cell j inside]
    · exact fill_of_outside (by omega)

end Fill

end SquirrelGObject.Lib.Window
