/- SquirrelGObject/Lib/Streams
   digest: Checked readers of a finite source and checked writers to a finite sink, and how they compose. -/

import Mathlib.Data.List.Basic

set_option autoImplicit false
set_option relaxedAutoImplicit false

namespace SquirrelGObject.Lib.Streams

variable {β ε α γ : Type}

section Readers

abbrev Reader (β ε α : Type) := StateT (List β) (Except ε) α

def take (short : ε) (n : Nat) : Reader β ε (List β) := fun source =>
  if n ≤ source.length then .ok (source.take n, source.drop n) else .error short

def refuse (e : ε) : Reader β ε α := fun _ => .error e

def times (r : Reader β ε α) : Nat → Reader β ε (List α)
  | 0 => pure []
  | n + 1 => do
      let first ← r
      let rest ← times r n
      pure (first :: rest)

/-- The reader takes exactly these symbols, whatever follows them, and gives this value. When the
source ends before them it stops short. -/
structure Reads (short : ε) (r : Reader β ε α) (symbols : List β) (value : α) : Prop where
  whole : ∀ rest, r (symbols ++ rest) = .ok (value, rest)
  part : ∀ p q, q ≠ [] → symbols = p ++ q → r p = .error short

variable {short : ε} {r : Reader β ε α} {k : α → Reader β ε γ}
  {symbols symbols' source rest : List β}
  {value : α} {result : γ}

theorem bind_ok (done : r source = .ok (value, rest)) : (r >>= k) source = k value rest := by
  change Except.bind (r source) _ = _
  rw [done]
  rfl

theorem bind_error {e : ε} (failed : r source = .error e) : (r >>= k) source = .error e := by
  change Except.bind (r source) _ = _
  rw [failed]
  rfl

theorem bind_eq_ok (done : (r >>= k) source = .ok (result, rest)) :
    ∃ value middle, r source = .ok (value, middle) ∧ k value middle = .ok (result, rest) := by
  cases first : r source with
  | error e =>
      rw [bind_error first] at done
      cases done
  | ok pair => exact ⟨pair.1, pair.2, rfl, (bind_ok first).symm.trans done⟩

theorem take_eq_ok {n : Nat} (done : take short n source = .ok (symbols, rest)) :
    source = symbols ++ rest ∧ symbols.length = n := by
  rw [take] at done
  split_ifs at done with enough
  cases done
  exact ⟨(List.take_append_drop n source).symm, List.length_take_of_le enough⟩

theorem reads_pure (value : α) : Reads short (pure value : Reader β ε α) [] value := by
  constructor
  · intro rest
    rfl
  · intro p q more split
    exact absurd (List.append_eq_nil_iff.mp split.symm).2 more

theorem reads_take (symbols : List β) :
    Reads short (take short symbols.length) symbols symbols := by
  constructor
  · intro rest
    simp [take]
  · intro p q more split
    have longer : ¬ symbols.length ≤ p.length := by
      have := List.length_pos_iff.mpr more
      rw [split, List.length_append]
      omega
    rw [take, if_neg longer]

theorem Reads.bind (first : Reads short r symbols value)
    (second : Reads short (k value) symbols' result) :
    Reads short (r >>= k) (symbols ++ symbols') result := by
  constructor
  · intro rest
    rw [List.append_assoc, bind_ok (first.whole _), second.whole]
  · intro p q more split
    rcases List.append_eq_append_iff.mp split with ⟨p', rfl, split'⟩ | ⟨q', split', rfl⟩
    · rw [bind_ok (first.whole p')]
      exact second.part p' q more split'
    · by_cases none : q' = []
      · subst none
        rw [List.append_nil] at split'
        subst split'
        have ends := bind_ok (k := k) (first.whole [])
        rw [List.append_nil] at ends
        rw [ends]
        exact second.part [] symbols' (by simpa using more) rfl
      · exact bind_error (first.part p q' none split')

theorem Reads.silent (first : Reads short r [] value)
    (second : Reads short (k value) symbols result) : Reads short (r >>= k) symbols result :=
  first.bind second

theorem Reads.map (reads : Reads short r symbols value) (f : α → γ) :
    Reads short (r >>= fun value => pure (f value)) symbols (f value) := by
  have last : Reads short (pure (f value) : Reader β ε γ) [] (f value) := reads_pure _
  have both : Reads short (r >>= fun value => pure (f value)) (symbols ++ []) (f value) :=
    reads.bind last
  rwa [List.append_nil] at both

theorem reads_times {write : γ → List β} {load : γ → α} {l : List γ}
    (each : ∀ x ∈ l, Reads short r (write x) (load x)) :
    Reads short (times r l.length) (l.flatMap write) (l.map load) := by
  induction l with
  | nil => exact reads_pure []
  | cons x l ih =>
      have first := each x List.mem_cons_self
      have rest := ih fun y member => each y (List.mem_cons_of_mem x member)
      rw [List.flatMap_cons]
      exact first.bind (rest.map (load x :: ·))

theorem times_eq_ok {n : Nat} {values : List α} {write : γ → List β} {load : γ → α} {P : γ → Prop}
    (each : ∀ s value rest, r s = .ok (value, rest) →
      ∃ x, P x ∧ load x = value ∧ s = write x ++ rest)
    (done : times r n source = .ok (values, rest)) :
    ∃ l : List γ, l.length = n ∧ (∀ x ∈ l, P x) ∧ l.map load = values ∧
      source = l.flatMap write ++ rest := by
  induction n generalizing source values with
  | zero =>
      cases done
      exact ⟨[], rfl, by simp, rfl, rfl⟩
  | succ n ih =>
      obtain ⟨first, middle, here, later⟩ := bind_eq_ok done
      obtain ⟨others, last, there, finish⟩ := bind_eq_ok later
      cases finish
      obtain ⟨x, property, rfl, rfl⟩ := each _ _ _ here
      obtain ⟨l, length, all, rfl, rfl⟩ := ih there
      refine ⟨x :: l, by rw [List.length_cons, length], ?_, rfl, ?_⟩
      · rw [List.forall_mem_cons]
        exact ⟨property, all⟩
      · rw [List.flatMap_cons, List.append_assoc]

theorem times_eq_ok_self {n : Nat} {values : List α} {write : α → List β} {P : α → Prop}
    (each : ∀ s value rest, r s = .ok (value, rest) → P value ∧ s = write value ++ rest)
    (done : times r n source = .ok (values, rest)) :
    values.length = n ∧ (∀ x ∈ values, P x) ∧ source = values.flatMap write ++ rest := by
  have each' : ∀ s value rest, r s = .ok (value, rest) →
      ∃ x, P x ∧ id x = value ∧ s = write x ++ rest := by
    intro s value rest done
    exact ⟨value, (each s value rest done).1, rfl, (each s value rest done).2⟩
  obtain ⟨l, length, all, same, split⟩ := times_eq_ok each' done
  rw [List.map_id] at same
  subst same
  exact ⟨length, all, split⟩

end Readers

section Writers

/-- A sink with what it has taken and how much more it takes. -/
structure Sink (β : Type) where
  written : List β
  room : Nat

abbrev Writer (β ε α : Type) := ExceptT ε (StateM (Sink β)) α

def Sink.push (symbols : List β) (s : Sink β) : Sink β :=
  ⟨s.written ++ symbols, s.room - symbols.length⟩

def Sink.fill (symbols : List β) (s : Sink β) : Sink β := ⟨s.written ++ symbols.take s.room, 0⟩

def put (failure : ε) (symbols : List β) : Writer β ε Unit := fun s =>
  if symbols.length ≤ s.room then (.ok (), s.push symbols) else (.error failure, s.fill symbols)

def abort (e : ε) : Writer β ε Unit := fun s => (.error e, s)

def each (w : α → Writer β ε Unit) : List α → Writer β ε Unit
  | [] => pure ()
  | x :: l => do
      w x
      each w l

def outcome : Option ε → Except ε Unit
  | none => .ok ()
  | some e => .error e

/-- The writer writes these symbols and then ends as given, unless the sink is full before. -/
def Writes (failure : ε) (w : Writer β ε Unit) (symbols : List β) (stop : Option ε) : Prop :=
  ∀ s, w s = if symbols.length ≤ s.room then (outcome stop, s.push symbols)
    else (.error failure, s.fill symbols)

variable {failure e : ε} {w w' : Writer β ε Unit} {symbols symbols' : List β} {stop : Option ε}

theorem writes_pure : Writes failure (pure () : Writer β ε Unit) [] none := by
  intro s
  simp [Sink.push, outcome]
  rfl

theorem writes_put (symbols : List β) : Writes failure (put failure symbols) symbols none :=
  fun _ => rfl

theorem writes_abort : Writes failure (abort e : Writer β ε Unit) [] (some e) := by
  intro s
  simp [abort, Sink.push, outcome]

theorem seq_ok {s s' : Sink β} (done : w s = (.ok (), s')) :
    (w >>= fun _ => w') s = w' s' := by
  change (ExceptT.bindCont (fun _ => w') (w s).1) (w s).2 = _
  rw [done]
  rfl

theorem seq_error {s s' : Sink β} (failed : w s = (.error e, s')) :
    (w >>= fun _ => w') s = (.error e, s') := by
  change (ExceptT.bindCont (fun _ => w') (w s).1) (w s).2 = _
  rw [failed]
  rfl

theorem Writes.seq (first : Writes failure w symbols none)
    (second : Writes failure w' symbols' stop) :
    Writes failure (w >>= fun _ => w') (symbols ++ symbols') stop := by
  intro s
  by_cases room : symbols.length ≤ s.room
  · have done : w s = (.ok (), s.push symbols) := by
      rw [first s, if_pos room]
      rfl
    rw [seq_ok done, second, List.length_append]
    by_cases enough : symbols.length + symbols'.length ≤ s.room
    · have left : symbols'.length ≤ (s.push symbols).room := by
        change symbols'.length ≤ s.room - symbols.length
        omega
      rw [if_pos left, if_pos enough]
      simp [Sink.push, Nat.sub_sub]
    · have left : ¬ symbols'.length ≤ (s.push symbols).room := by
        change ¬ symbols'.length ≤ s.room - symbols.length
        omega
      rw [if_neg left, if_neg enough]
      simp [Sink.push, Sink.fill, List.take_append, List.take_of_length_le room]
  · have failed : w s = (.error failure, s.fill symbols) := by
      rw [first s, if_neg room]
    rw [seq_error failed, List.length_append, if_neg (by omega)]
    have cut : s.room - symbols.length = 0 := by omega
    simp [Sink.fill, List.take_append, cut]

private theorem Writes.stopped (first : Writes failure w symbols (some e)) :
    Writes failure (w >>= fun _ => w') symbols (some e) := by
  intro s
  by_cases room : symbols.length ≤ s.room
  · rw [if_pos room]
    refine seq_error ?_
    rw [first s, if_pos room]
    rfl
  · rw [if_neg room]
    refine seq_error ?_
    rw [first s, if_neg room]

/-- Under the condition the writer writes these symbols to the end, otherwise it stops by itself
at some point. -/
structure Saves (failure : ε) (w : Writer β ε Unit) (symbols : List β) (ok : Prop) : Prop where
  all : ok → Writes failure w symbols none
  stops : ¬ ok → ∃ part e, Writes failure w part (some e)

variable {ok ok' : Prop}

theorem Writes.saves (writes : Writes failure w symbols none) :
    Saves failure w symbols True :=
  ⟨fun _ => writes, fun impossible => absurd trivial impossible⟩

theorem Saves.seq (first : Saves failure w symbols ok) (second : Saves failure w' symbols' ok') :
    Saves failure (w >>= fun _ => w') (symbols ++ symbols') (ok ∧ ok') := by
  constructor
  · rintro ⟨here, there⟩
    exact (first.all here).seq (second.all there)
  · intro fails
    by_cases here : ok
    · obtain ⟨part, e, stops⟩ := second.stops fun there => fails ⟨here, there⟩
      exact ⟨symbols ++ part, e, (first.all here).seq stops⟩
    · obtain ⟨part, e, stops⟩ := first.stops here
      exact ⟨part, e, stops.stopped⟩

theorem saves_each {w : α → Writer β ε Unit} {bytes : α → List β} {ok : α → Prop} {l : List α}
    (all : ∀ x ∈ l, Saves failure (w x) (bytes x) (ok x)) :
    Saves failure (each w l) (l.flatMap bytes) (∀ x ∈ l, ok x) := by
  induction l with
  | nil =>
      have none : Saves failure (each w []) [] True := writes_pure.saves
      simpa using none
  | cons x l ih =>
      have here := all x List.mem_cons_self
      have both := here.seq (ih fun y member => all y (List.mem_cons_of_mem x member))
      rw [List.flatMap_cons]
      simpa [each] using both

theorem Saves.of_iff (saves : Saves failure w symbols ok) (same : ok' ↔ ok) :
    Saves failure w symbols ok' := by
  rwa [propext same]

end Writers

end SquirrelGObject.Lib.Streams
