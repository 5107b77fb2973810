import ScriptVM.Proofs.Keyed.Asking

/-!
# What an index value names

An Integer names one of the items of a sequence, counted from the end if it is negative, and a pair
of Integers names the items between two bounds, which may stand at the end as well. Everything else
names nothing. The selection of a sequence is read off its index value by these rules alone, and it
never reaches past the items.

## Main definitions

* `Heap.Names` — the rules: which items, or which failure, an index value names.

## Main results

* `select_of_names`, `select_of_unnamed` — the selection follows the rules.
* `Heap.Names.inside` — what is named lies within the items.
-/
namespace ScriptVM

open Run

variable {h : Heap} {m : Machine} {n : Nat} {x : Value}

/-- The place an Integer means among so many items: it is wrapped once if it is negative. -/
def wrapped (n : Nat) (i : Int64) : Int := if 0 ≤ i.toInt then i.toInt else n + i.toInt

/-- A bound of a stretch is in place anywhere up to the end, the end included. -/
def IsBound (n : Nat) (i : Int64) : Prop := 0 ≤ wrapped n i ∧ wrapped n i ≤ n

/-- A selection lies within so many items. -/
def Selection.Inside (n : Nat) : Selection → Prop
  | .single position => position < n
  | .stretch first last => first ≤ last ∧ last ≤ n

namespace Heap

/-- A value is a sequence of two Integers. -/
def IsPair (h : Heap) (x : Value) (s e : Int64) : Prop :=
  ∃ low high, (h.kind x = .tuple [low, high] ∨ h.kind x = .array [low, high]) ∧
    h.kind low = .integer s ∧ h.kind high = .integer e

/-- What an index value names among so many items. -/
inductive Names (h : Heap) (n : Nat) (x : Value) : Except Cause Selection → Prop
  | front {i : Int64} (integer : h.kind x = .integer i) (nonneg : 0 ≤ i.toInt) (lt : i.toInt < n) :
    Names h n x (.ok (.single i.toInt.toNat))
  | back {i : Int64} (integer : h.kind x = .integer i) (ge : -n ≤ i.toInt) (neg : i.toInt < 0) :
    Names h n x (.ok (.single (n + i.toInt).toNat))
  | outside {i : Int64} (integer : h.kind x = .integer i) (out : i.toInt < -n ∨ n ≤ i.toInt) :
    Names h n x (.error (.indexOutOfRange n i))
  /-- The items from a bound up to another one; none if the other one is not behind it. -/
  | stretch {s e : Int64} (pair : h.IsPair x s e) (low : IsBound n s) (high : IsBound n e) :
    Names h n x
      (.ok (.stretch (wrapped n s).toNat (max (wrapped n s).toNat (wrapped n e).toNat)))
  | low {s e : Int64} (pair : h.IsPair x s e) (out : ¬IsBound n s) :
    Names h n x (.error (.indexOutOfRange n s))
  | high {s e : Int64} (pair : h.IsPair x s e) (low : IsBound n s) (out : ¬IsBound n e) :
    Names h n x (.error (.indexOutOfRange n e))

/-- What is named lies within the items. -/
theorem Names.inside {sel : Selection} (hx : h.Names n x (.ok sel)) : sel.Inside n := by
  cases hx with
  | front _ hnonneg hlt =>
    show Int.toNat _ < n
    omega
  | back _ hge hneg =>
    show Int.toNat _ < n
    omega
  | stretch _ hlow hhigh =>
    obtain ⟨hlow, hlow'⟩ := hlow
    obtain ⟨hhigh, hhigh'⟩ := hhigh
    constructor
    · exact Nat.le_max_left _ _
    · exact Nat.max_le.mpr ⟨by omega, by omega⟩

end Heap

section reading

variable {i s e : Int64} {p : Nat} {isBound : Bool}

/-- A position is the wrapped number, if that is in place. -/
theorem position?_eq (n : Nat) (i : Int64) (isBound : Bool) :
    position? n i isBound =
      if 0 ≤ wrapped n i ∧ wrapped n i < (if isBound then n + 1 else n : Int) then
        some (wrapped n i).toNat
      else none := by
  have hwrapped : (if i < 0 then i.toInt + n else i.toInt) = wrapped n i := by
    have hlt : i < 0 ↔ i.toInt < 0 := Int64.lt_iff_toInt_lt
    by_cases hi : i < 0
    · have hneg : ¬0 ≤ i.toInt := Int.not_le.mpr (hlt.mp hi)
      rw [if_pos hi, wrapped, if_neg hneg, Int.add_comm]
    · have hnonneg : 0 ≤ i.toInt := Int.not_lt.mp (mt hlt.mpr hi)
      rw [if_neg hi, wrapped, if_pos hnonneg]
  rw [position?]
  simp only [hwrapped]

theorem position?_of_isBound (hi : IsBound n i) : position? n i true = some (wrapped n i).toNat := by
  obtain ⟨hnonneg, hle⟩ := hi
  rw [position?_eq, if_pos ⟨hnonneg, by simp only [if_true]; omega⟩]

theorem position?_of_not_isBound (hi : ¬IsBound n i) : position? n i true = none := by
  rw [position?_eq, if_neg]
  rintro ⟨hnonneg, hlt⟩
  simp only [if_true] at hlt
  exact hi ⟨hnonneg, by omega⟩

theorem expectPosition_of_some (hp : position? n i isBound = some p) :
    expectPosition n i isBound m = .ok p m := by
  rw [expectPosition, hp]
  rfl

theorem expectPosition_of_none (hp : position? n i isBound = none) :
    expectPosition n i isBound m = .error (.failed (.of (.indexOutOfRange n i))) m := by
  rw [expectPosition, hp]
  rfl

/-- The selection by an Integer. -/
theorem select_integer (hx : m.heap.kind x = .integer i) :
    select n x m = (expectPosition n i false >>= fun p => pure (Selection.single p)) m := by
  rw [select, kindOf_bind, hx]

theorem select_integer_of_some (hx : m.heap.kind x = .integer i)
    (hp : position? n i false = some p) : select n x m = .ok (.single p) m := by
  rw [select_integer hx]
  simp only [bind, EStateM.bind, expectPosition_of_some hp]
  rfl

theorem select_integer_of_none (hx : m.heap.kind x = .integer i)
    (hp : position? n i false = none) :
    select n x m = .error (.failed (.of (.indexOutOfRange n i))) m := by
  rw [select_integer hx]
  simp only [bind, EStateM.bind, expectPosition_of_none hp]

theorem expectInteger_of_integer {v : Value} (hv : m.heap.kind v = .integer i) :
    Engine.expectInteger v m = .ok i m := by
  rw [Engine.expectInteger, kindOf_bind, hv]
  rfl

/-- The selection by a pair of Integers: the lower bound is looked at before the upper one. -/
theorem select_pair (hx : m.heap.IsPair x s e) :
    select n x m =
      match position? n s true, position? n e true with
      | some first, some last => .ok (.stretch first (max first last)) m
      | some _, none => .error (.failed (.of (.indexOutOfRange n e))) m
      | none, _ => .error (.failed (.of (.indexOutOfRange n s))) m := by
  obtain ⟨low, high, hx, hlow, hhigh⟩ := hx
  have hselect : select n x m = (do
      let first ← expectPosition n (← Engine.expectInteger low) true
      let last ← expectPosition n (← Engine.expectInteger high) true
      return Selection.stretch first (max first last)) m := by
    rw [select, kindOf_bind]
    obtain hx | hx := hx <;> rw [hx]
  rw [hselect]
  simp only [bind, EStateM.bind, expectInteger_of_integer hlow]
  cases hs : position? n s true with
  | none => simp only [expectPosition_of_none hs]
  | some first =>
    simp only [expectPosition_of_some hs, expectInteger_of_integer hhigh]
    cases he : position? n e true with
    | none => simp only [expectPosition_of_none he]
    | some last =>
      simp only [expectPosition_of_some he]
      rfl

theorem exists_expectInteger (v : Value) (m : Machine) :
    (∃ i, m.heap.kind v = .integer i) ∨ ∃ f, Engine.expectInteger v m = .error (.failed f) m := by
  rw [Engine.expectInteger, kindOf_bind]
  cases m.heap.kind v with
  | integer i => exact .inl ⟨i, rfl⟩
  | _ => exact .inr ⟨_, rfl⟩

/-- Two values that are not both Integers bound nothing. -/
theorem exists_bounds_error {low high : Value}
    (hx : ∀ s e, ¬(m.heap.kind low = .integer s ∧ m.heap.kind high = .integer e)) :
    ∃ f, (do
      let first ← expectPosition n (← Engine.expectInteger low) true
      let last ← expectPosition n (← Engine.expectInteger high) true
      return Selection.stretch first (max first last)) m = .error (.failed f) m := by
  simp only [bind, EStateM.bind]
  obtain ⟨s, hlow⟩ | ⟨f, hlow⟩ := exists_expectInteger low m
  · simp only [expectInteger_of_integer hlow]
    cases hs : position? n s true with
    | none =>
      simp only [expectPosition_of_none hs]
      exact ⟨_, rfl⟩
    | some first =>
      simp only [expectPosition_of_some hs]
      obtain ⟨e, hhigh⟩ | ⟨f, hhigh⟩ := exists_expectInteger high m
      · exact absurd ⟨hlow, hhigh⟩ (hx s e)
      · exact ⟨f, by simp only [hhigh]⟩
  · exact ⟨f, by simp only [hlow]⟩

/-- Anything else selects nothing. -/
theorem select_other (hi : ∀ i, m.heap.kind x ≠ .integer i) (hx : ∀ s e, ¬m.heap.IsPair x s e) :
    ∃ f, select n x m = .error (.failed f) m := by
  rw [select, kindOf_bind]
  cases hkind : m.heap.kind x with
  | integer i => exact absurd hkind (hi i)
  | tuple items =>
    rcases items with _ | ⟨low, _ | ⟨high, _ | ⟨next, rest⟩⟩⟩
    case cons.cons.nil =>
      exact exists_bounds_error fun s e hboth => hx s e ⟨low, high, .inl hkind, hboth⟩
    all_goals exact ⟨_, rfl⟩
  | array items =>
    rcases items with _ | ⟨low, _ | ⟨high, _ | ⟨next, rest⟩⟩⟩
    case cons.cons.nil =>
      exact exists_bounds_error fun s e hboth => hx s e ⟨low, high, .inr hkind, hboth⟩
    all_goals exact ⟨_, rfl⟩
  | _ => exact ⟨_, rfl⟩

end reading

/-- The selection is what the index value names, without a change of the machine. -/
theorem select_of_names {o : Except Cause Selection} (hx : m.heap.Names n x o) :
    select n x m =
      match o with
      | .ok sel => .ok sel m
      | .error cause => .error (.failed (.of cause)) m := by
  cases hx with
  | @front i hi hnonneg hlt =>
    have hp : position? n i false = some i.toInt.toNat := by
      have hw : wrapped n i = i.toInt := if_pos hnonneg
      rw [position?_eq, hw, if_pos ⟨hnonneg, hlt⟩]
    exact select_integer_of_some hi hp
  | @back i hi hge hneg =>
    have hp : position? n i false = some (n + i.toInt).toNat := by
      have hw : wrapped n i = n + i.toInt := if_neg (by omega)
      rw [position?_eq, hw, if_pos]
      simp only [Bool.false_eq_true, if_false]
      constructor <;> omega
    exact select_integer_of_some hi hp
  | @outside i hi hout =>
    have hp : position? n i false = none := by
      rw [position?_eq, wrapped, if_neg]
      rintro ⟨hnonneg, hlt⟩
      simp only [Bool.false_eq_true, if_false] at hlt
      split at hnonneg <;> split at hlt <;> omega
    exact select_integer_of_none hi hp
  | stretch hpair hlow hhigh =>
    rw [select_pair hpair, position?_of_isBound hlow, position?_of_isBound hhigh]
  | low hpair hout =>
    rw [select_pair hpair, position?_of_not_isBound hout]
  | high hpair hlow hout =>
    rw [select_pair hpair, position?_of_isBound hlow, position?_of_not_isBound hout]

/-- An index value that names nothing is refused. -/
theorem select_of_unnamed (hx : ∀ o, ¬m.heap.Names n x o) :
    ∃ f, select n x m = .error (.failed f) m := by
  apply select_other
  · intro i hi
    by_cases hout : i.toInt < -n ∨ n ≤ i.toInt
    · exact hx _ (.outside hi hout)
    · by_cases hneg : i.toInt < 0
      · exact hx _ (.back hi (by omega) hneg)
      · exact hx _ (.front hi (by omega) (by omega))
  · intro s e hpair
    by_cases hs : IsBound n s
    · by_cases he : IsBound n e
      · exact hx _ (.stretch hpair hs he)
      · exact hx _ (.high hpair hs he)
    · exact hx _ (.low hpair hs)

end ScriptVM
