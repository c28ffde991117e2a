/- SquirrelGObject/Lib/Bytes
   digest: Integers of C types in byte memory: encoding, reading back, and stores that must stay inside declared slots. -/

import Mathlib.Data.Nat.Digits.Lemmas
import SquirrelGObject.Lib.Window

set_option autoImplicit false
set_option relaxedAutoImplicit false

namespace SquirrelGObject.Lib.Bytes

open Window

abbrev Memory := Int → UInt8

inductive ByteOrder where
  | little | big
  deriving DecidableEq, Repr

/-- An integer type of C: its size in bytes and whether it has a sign. -/
structure IntType where
  size : Nat
  signed : Bool
  deriving DecidableEq, Repr

def IntType.modulus (t : IntType) : Nat := 256 ^ t.size

def IntType.wrap (t : IntType) (x : Int) : Int :=
  if t.signed then x.bmod t.modulus else x % t.modulus

def digits : Nat → Nat → List UInt8
  | 0, _ => []
  | size + 1, n => UInt8.ofNat n :: digits size (n / 256)

def ByteOrder.arrange : ByteOrder → List UInt8 → List UInt8
  | little, bytes => bytes
  | big, bytes => bytes.reverse

def encode (order : ByteOrder) (size : Nat) (x : Int) : List UInt8 :=
  order.arrange (digits size (x % (256 ^ size : Nat)).toNat)

def unsigned (order : ByteOrder) (bytes : List UInt8) : Nat :=
  Nat.ofDigits 256 ((order.arrange bytes).map UInt8.toNat)

def IntType.read (t : IntType) (order : ByteOrder) (bytes : List UInt8) : Int :=
  t.wrap (unsigned order bytes)

def store (order : ByteOrder) (t : IntType) (p x : Int) (mem : Memory) : Memory :=
  fill mem p (encode order t.size x)

/-- Storage as its owner declares it: an address and a type. -/
structure Slot where
  address : Int
  type : IntType
  deriving DecidableEq

def Slot.Covers (s : Slot) (i : Int) : Prop := s.address ≤ i ∧ i < s.address + s.type.size

instance (s : Slot) (i : Int) : Decidable (s.Covers i) := inferInstanceAs (Decidable (_ ∧ _))

def Slot.load (order : ByteOrder) (s : Slot) (mem : Memory) : Int :=
  s.type.read order (window mem s.address (s.address + s.type.size))

/-- No byte outside the declared slots changes, and if values were produced the slots hold them. -/
structure StaysInside (order : ByteOrder) (slots : List Slot) (produced : Option (List Int))
    (before after : Memory) : Prop where
  kept : ∀ i, (∀ s ∈ slots, ¬ s.Covers i) → after i = before i
  decoded : ∀ values, produced = some values → slots.map (Slot.load order · after) = values

/-- Two ranges of bytes that are written one after the other agree on every byte they share. -/
def Agree (p : Int) (xs : List UInt8) (q : Int) (ys : List UInt8) : Prop :=
  ∀ (i j : Nat) (low : i < xs.length) (high : j < ys.length), p + i = q + j → xs[i] = ys[j]

section Encoding

variable {order : ByteOrder} {t : IntType} {size : Nat} {x : Int} {bytes : List UInt8}

@[simp] theorem digits_length (size n : Nat) : (digits size n).length = size := by
  induction size generalizing n with
  | zero => rfl
  | succ size ih => rw [digits, List.length_cons, ih]

private theorem ofDigits_digits (size n : Nat) :
    Nat.ofDigits 256 ((digits size n).map UInt8.toNat) = n % 256 ^ size := by
  induction size generalizing n with
  | zero => simp [digits, Nat.mod_one]
  | succ size ih =>
      have low : (UInt8.ofNat n).toNat = n % 256 := UInt8.toNat_ofNat'
      rw [digits, List.map_cons, Nat.ofDigits_cons, ih, low, pow_succ', Nat.mod_mul]

private theorem digits_add (low high n : Nat) :
    digits (low + high) n = digits low n ++ digits high (n / 256 ^ low) := by
  induction low generalizing n with
  | zero => simp [digits]
  | succ low ih =>
      rw [Nat.succ_add, digits, digits, ih, Nat.div_div_eq_div_mul, ← pow_succ', List.cons_append]

@[simp] theorem arrange_length (order : ByteOrder) (bytes : List UInt8) :
    (order.arrange bytes).length = bytes.length := by
  cases order <;> simp [ByteOrder.arrange]

private theorem arrange_arrange (order : ByteOrder) (bytes : List UInt8) :
    order.arrange (order.arrange bytes) = bytes := by
  cases order <;> simp [ByteOrder.arrange]

@[simp] theorem encode_length (order : ByteOrder) (size : Nat) (x : Int) :
    (encode order size x).length = size := by
  rw [encode, arrange_length, digits_length]

theorem unsigned_encode (order : ByteOrder) (size : Nat) (x : Int) :
    (unsigned order (encode order size x) : Int) = x % (256 ^ size : Nat) := by
  have positive : (0 : Int) < (256 ^ size : Nat) := by exact_mod_cast Nat.pow_pos (by decide)
  have below := Int.emod_lt_of_pos x positive
  have natural := Int.emod_nonneg x positive.ne'
  have inside : (x % (256 ^ size : Nat)).toNat < 256 ^ size := by omega
  rw [unsigned, encode, arrange_arrange, ofDigits_digits, Nat.mod_eq_of_lt inside,
    Int.toNat_of_nonneg natural]

theorem encode_halves (order : ByteOrder) (size n : Nat) (below : n < 256 ^ (size + size)) :
    (encode order (size + size) n).take size =
        order.arrange (digits size (if order = .little then n else n / 256 ^ size)) ∧
      (encode order (size + size) n).drop size =
        order.arrange (digits size (if order = .little then n / 256 ^ size else n)) := by
  have whole : ((n : Int) % (256 ^ (size + size) : Nat)).toNat = n := by
    rw [Int.emod_eq_of_lt (by omega) (by exact_mod_cast below), Int.toNat_natCast]
  rw [encode, whole, digits_add]
  cases order with
  | little => exact ⟨List.take_left' (digits_length _ _), List.drop_left' (digits_length _ _)⟩
  | big =>
      rw [ByteOrder.arrange, List.reverse_append]
      have length : (digits size (n / 256 ^ size)).reverse.length = size := by
        rw [List.length_reverse, digits_length]
      exact ⟨List.take_left' length, List.drop_left' length⟩

theorem read_arrange_digits (t : IntType) (order : ByteOrder) (n : Nat) :
    t.read order (order.arrange (digits t.size n)) = t.wrap (n % 256 ^ t.size : Nat) := by
  rw [IntType.read, unsigned, arrange_arrange, ofDigits_digits]

private theorem toNat_lt_of_mem_map {d : Nat} (member : d ∈ bytes.map UInt8.toNat) : d < 256 := by
  obtain ⟨b, -, rfl⟩ := List.mem_map.mp member
  exact b.toNat_lt

theorem unsigned_lt (order : ByteOrder) (length : bytes.length = size) :
    unsigned order bytes < 256 ^ size := by
  have bound : unsigned order bytes < _ :=
    Nat.ofDigits_lt_base_pow_length (by decide) fun d => toNat_lt_of_mem_map
  rwa [List.length_map, arrange_length, length] at bound

theorem unsigned_injective (order : ByteOrder) {bytes' : List UInt8}
    (length : bytes.length = bytes'.length)
    (same : unsigned order bytes = unsigned order bytes') : bytes = bytes' := by
  have arranged := Nat.ofDigits_inj_of_len_eq (by decide)
    (by rw [List.length_map, List.length_map, arrange_length, arrange_length, length])
    (fun d => toNat_lt_of_mem_map) (fun d => toNat_lt_of_mem_map) same
  have injective : Function.Injective UInt8.toNat := fun a b => UInt8.toNat_inj.mp
  have back := congrArg order.arrange (List.map_injective_iff.mpr injective arranged)
  rwa [arrange_arrange, arrange_arrange] at back

private theorem wrap_emod (t : IntType) (x : Int) : t.wrap x % t.modulus = x % t.modulus := by
  rw [IntType.wrap]
  cases t.signed
  · exact Int.emod_emod_of_dvd x dvd_rfl
  · exact Int.bmod_emod

private theorem wrap_congr {y : Int} (same : x % t.modulus = y % t.modulus) :
    t.wrap x = t.wrap y := by
  unfold IntType.wrap
  cases t.signed
  · exact same
  · change x.bmod t.modulus = y.bmod t.modulus
    rw [← Int.emod_bmod, same, Int.emod_bmod]

/-- Bytes of a type's size read as the value that another type of the size has for an integer
exactly when they are the bytes of the integer and both types have the same value for it. -/
private theorem read_eq_wrap_iff {t' : IntType} (sizes : t'.size = t.size)
    (length : bytes.length = t.size) :
    t.read order bytes = t'.wrap x ↔ bytes = encode order t'.size x ∧ t.wrap x = t'.wrap x := by
  have modulus : t'.modulus = t.modulus := by rw [IntType.modulus, sizes, IntType.modulus]
  have own : t.read order (encode order t'.size x) = t.wrap x := by
    apply wrap_congr
    rw [unsigned_encode, ← IntType.modulus, modulus]
    exact Int.emod_emod_of_dvd x dvd_rfl
  constructor
  · intro read
    have number : (unsigned order bytes : Int) = x % t.modulus := by
      have reduced := wrap_emod t (unsigned order bytes)
      rw [← IntType.read, read, ← modulus, wrap_emod, modulus] at reduced
      have bound := unsigned_lt order length
      rw [reduced]
      exact (Int.emod_eq_of_lt (by omega) (by exact_mod_cast bound)).symm
    have bytesEq : bytes = encode order t'.size x := by
      apply unsigned_injective order (by rw [encode_length, length, sizes])
      have encoded := unsigned_encode order t'.size x
      rw [← IntType.modulus, modulus, ← number] at encoded
      exact_mod_cast encoded.symm
    refine ⟨bytesEq, ?_⟩
    rw [← own, ← bytesEq]
    exact read
  · rintro ⟨rfl, same⟩
    rw [own, same]

end Encoding

section Stores

variable {order : ByteOrder} {p q x y : Int} {mem : Memory}

theorem staysInside_none (order : ByteOrder) (slots : List Slot) (mem : Memory) :
    StaysInside order slots none mem mem where
  kept _ _ := rfl
  decoded _ produced := by cases produced

private theorem load_store_of_le (order : ByteOrder) (p x : Int) (mem : Memory) {t t' : IntType}
    (le : t.size ≤ t'.size) :
    Slot.load order ⟨p, t⟩ (store order t' p x mem) =
      t.read order ((encode order t'.size x).take t.size) := by
  rw [Slot.load, store, window_fill _ _ (by rw [encode_length]; exact le)]

/-- One store through a pointer to a type that is at least as wide as the declared one. It stays
inside exactly when the bytes behind the declared ones already held what is written there, and the
declared ones read as the value. -/
theorem store_staysInside_iff {t t' : IntType} {value : Int} (le : t.size ≤ t'.size) :
    StaysInside order [⟨p, t⟩] (some [value]) mem (store order t' p x mem) ↔
      window mem (p + t.size) (p + t'.size) = (encode order t'.size x).drop t.size ∧
        t.read order ((encode order t'.size x).take t.size) = value := by
  have narrower : t.size ≤ (encode order t'.size x).length := by
    rw [encode_length]
    exact le
  have frame := fill_kept_iff mem p narrower
  rw [encode_length] at frame
  have loaded := load_store_of_le order p x mem le
  constructor
  · rintro ⟨kept, decoded⟩
    have value := decoded _ rfl
    simp only [List.map_cons, List.map_nil, List.cons.injEq, and_true] at value
    refine ⟨frame.mp fun i outside => kept i ?_, loaded.symm.trans value⟩
    simpa [Slot.Covers] using outside
  · rintro ⟨behind, value⟩
    refine ⟨fun i outside => frame.mpr behind i ?_, ?_⟩
    · simpa [Slot.Covers] using outside
    · intro values produced
      cases produced
      simp only [List.map_cons, List.map_nil, loaded, value]

theorem store_staysInside (order : ByteOrder) (t : IntType) (p x : Int) (mem : Memory) :
    StaysInside order [⟨p, t⟩] (some [t.wrap x]) mem (store order t p x mem) := by
  have whole : (encode order t.size x).take t.size = encode order t.size x :=
    List.take_of_length_le (by rw [encode_length])
  refine (store_staysInside_iff le_rfl).mpr ⟨?_, ?_⟩
  · rw [List.drop_of_length_le (by rw [encode_length])]
    simp [window]
  · rw [whole]
    exact (read_eq_wrap_iff rfl (encode_length _ _ _)).mpr ⟨rfl, rfl⟩

/-- What was written first is still there exactly when the second list agrees with it where the two
overlap. -/
private theorem window_fill_fill_iff (mem : Memory) {xs ys : List UInt8} :
    window (fill (fill mem p xs) q ys) p (p + xs.length) = xs ↔ Agree p xs q ys := by
  have first := fill_holds mem p xs
  have second := fill_holds (fill mem p xs) q ys
  constructor
  · intro still i j low high shared
    have held := holds_window (fill (fill mem p xs) q ys)
      (show p ≤ p + (xs.length : Int) by omega)
    rw [still] at held
    rw [← held.cell i low, shared, second.cell j high]
  · intro agree
    refine Holds.window_eq ⟨rfl, ?_⟩
    intro i low
    by_cases written : q ≤ p + i ∧ p + i < q + ys.length
    · obtain ⟨j, shared⟩ : ∃ j : Nat, p + (i : Int) = q + j := ⟨(p + i - q).toNat, by omega⟩
      rw [shared, second.cell j (by omega)]
      exact (agree i j low (by omega) shared).symm
    · rw [fill_of_outside (by omega), first.cell i low]

/-- Two stores, one after the other, through pointers to types of the declared sizes. They stay
inside the declared slots; the values are right exactly when the declared types have them too and
the second store leaves what the first has written. -/
theorem store_store_staysInside_iff {t t' u u' : IntType} (sizes : t'.size = t.size)
    (sizes' : u'.size = u.size) :
    StaysInside order [⟨p, t⟩, ⟨q, u⟩] (some [t'.wrap x, u'.wrap y]) mem
        (store order u' q y (store order t' p x mem)) ↔
      t.wrap x = t'.wrap x ∧ u.wrap y = u'.wrap y ∧
        Agree p (encode order t'.size x) q (encode order u'.size y) := by
  set after := store order u' q y (store order t' p x mem) with after_eq
  have kept : ∀ i, (∀ s ∈ [Slot.mk p t, Slot.mk q u], ¬ s.Covers i) → after i = mem i := by
    intro i outside
    have offFirst := outside ⟨p, t⟩ (by simp)
    have offSecond := outside ⟨q, u⟩ (by simp)
    simp only [Slot.Covers] at offFirst offSecond
    rw [after_eq, store, fill_of_outside (by rw [encode_length]; omega), store,
      fill_of_outside (by rw [encode_length]; omega)]
  have first : Slot.load order ⟨p, t⟩ after = t'.wrap x ↔
      Agree p (encode order t'.size x) q (encode order u'.size y) ∧ t.wrap x = t'.wrap x := by
    have length : (window after p (p + t.size)).length = t.size := by
      rw [window_length]
      omega
    rw [← window_fill_fill_iff mem, encode_length, Slot.load, read_eq_wrap_iff sizes length,
      after_eq, store, store, sizes]
  have second : Slot.load order ⟨q, u⟩ after = u'.wrap y ↔ u.wrap y = u'.wrap y := by
    have length : (encode order u'.size y).length = u.size := by rw [encode_length, sizes']
    rw [after_eq, load_store_of_le order q y _ sizes'.ge, List.take_of_length_le length.le,
      read_eq_wrap_iff sizes' length]
    exact and_iff_right rfl
  constructor
  · rintro ⟨-, decoded⟩
    have values := decoded _ rfl
    simp only [List.map_cons, List.map_nil, List.cons.injEq, and_true] at values
    obtain ⟨agree, same⟩ := first.mp values.1
    exact ⟨same, second.mp values.2, agree⟩
  · rintro ⟨same, same', agree⟩
    refine ⟨kept, ?_⟩
    intro values produced
    cases produced
    simp only [List.map_cons, List.map_nil, first.mpr ⟨agree, same⟩, second.mpr same']

end Stores

end SquirrelGObject.Lib.Bytes
