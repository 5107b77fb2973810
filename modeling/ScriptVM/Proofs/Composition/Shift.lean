import ScriptVM.Proofs.Composition.Text
import ScriptVM.Proofs.Passage.Arena
import ScriptVM.Proofs.Passage.Step

/-!
# One object more

Two machines on which the objects from some number on are called by the next number, so that there is
a gap. When the gap is filled, the second machine has one object more than the first one; as long as
it is empty, no object has come as far as the gap, and then the passage says that a machine refers to
no object that does not exist.
-/
namespace ScriptVM

/-- What a value is called when there is a gap in the numbers of objects. -/
def Value.shift (gap : Nat) (v : Value) : Value := if v.address < gap then v else ⟨v.address + 1⟩

/-- Two machines are the same up to the names of objects, and up to what they have logged. -/
structure Machine.Renamed (σ : Value → Value) (m n : Machine) : Prop where
  heap : m.heap.Renamed σ n.heap
  arena : n.arena = m.arena.rename σ
  types : n.types = m.types.map σ
  config : n.config = m.config
  globals : n.globals = m.globals
  callStack : n.callStack = m.callStack

/-- The objects of the second machine are those of the first one with a gap between them, and both
have the same given global frame. -/
structure Machine.Shifted (root : FrameId) (gap : Nat) (filled : Bool) (m n : Machine) : Prop extends
    Machine.Renamed (Value.shift gap) m n where
  root_eq : m.globals = root
  count : n.objectCount = m.objectCount + filled.toNat
  above : filled = true → gap ≤ m.objectCount
  below : filled = false → m.objectCount ≤ gap

section shift

variable {root : FrameId} {gap : Nat} {u v : Value}

theorem Value.shift_of_lt (h : v.address < gap) : v.shift gap = v := if_pos h

theorem Value.shift_of_le (h : gap ≤ v.address) : v.shift gap = ⟨v.address + 1⟩ :=
  if_neg (Nat.not_lt.2 h)

theorem Value.shift_injective (h : u.shift gap = v.shift gap) : u = v := by
  have haddress := congrArg Value.address h
  refine congrArg Value.mk (?_ : u.address = v.address)
  rcases Nat.lt_or_ge u.address gap with hu | hu <;> rcases Nat.lt_or_ge v.address gap with hv | hv <;>
    simp only [shift_of_lt, shift_of_le, hu, hv] at haddress <;> omega

namespace Machine.Shifted

variable {filled : Bool} {m n : Machine}

/-- A value stands for an object under both names or under none. -/
theorem exists_iff (h : Shifted root gap filled m n) (v : Value) :
    (v.shift gap).address < n.objectCount ↔ v.address < m.objectCount := by
  have hcount := h.count
  rcases Nat.lt_or_ge v.address gap with hv | hv
  · rw [Value.shift_of_lt hv]
    cases filled with
    | true =>
      have habove := h.above rfl
      rw [Bool.toNat_true] at hcount
      omega
    | false => rw [hcount, Bool.toNat_false, Nat.add_zero]
  · rw [Value.shift_of_le hv]
    cases filled with
    | true => rw [hcount, Bool.toNat_true, Nat.add_lt_add_iff_right]
    | false =>
      have hbelow := h.below rfl
      rw [Bool.toNat_false] at hcount
      simp only
      omega

/-- The next object of the first machine is the next object of the second one. -/
theorem next_object (h : Shifted root gap filled m n)
    (hroom : filled = true ∨ m.objectCount + 1 ≤ gap) :
    Value.shift gap ⟨m.objectCount⟩ = ⟨n.objectCount⟩ := by
  have hcount := h.count
  cases filled with
  | true =>
    have hshift : Value.shift gap ⟨m.objectCount⟩ = ⟨m.objectCount + 1⟩ :=
      Value.shift_of_le (v := ⟨m.objectCount⟩) (h.above rfl)
    rw [hshift, hcount, Bool.toNat_true]
  | false =>
    have hlt : m.objectCount < gap := hroom.resolve_left nofun
    have hshift : Value.shift gap ⟨m.objectCount⟩ = ⟨m.objectCount⟩ :=
      Value.shift_of_lt (v := ⟨m.objectCount⟩) hlt
    rw [hshift, hcount, Bool.toNat_false, Nat.add_zero]

/-- No value behind the next object gets the name of an object. -/
theorem lt_of_lt (h : Shifted root gap filled m n) (hv : m.objectCount < v.address) :
    n.objectCount < (v.shift gap).address := by
  have hcount := h.count
  rcases Nat.lt_or_ge v.address gap with hlt | hge
  · rw [Value.shift_of_lt hlt]
    cases filled with
    | true =>
      have habove := h.above rfl
      omega
    | false =>
      rw [Bool.toNat_false] at hcount
      omega
  · rw [Value.shift_of_le hge]
    have hle := Bool.toNat_le filled
    simp only
    omega

/-- Both machines get an object. -/
theorem alloc (h : Shifted root gap filled m n) (hroom : filled = true ∨ m.objectCount + 1 ≤ gap)
    (k : Kind) :
    Shifted root gap filled { m with heap := (m.heap.alloc k).2 }
      { n with heap := (n.heap.alloc (k.rename (Value.shift gap))).2 } where
  heap := by
    intro v
    have hexists := h.exists_iff v
    rcases Nat.lt_trichotomy v.address m.objectCount with hlt | heq | hgt
    · rw [Heap.get_alloc_of_lt _ (hexists.2 hlt), Heap.get_alloc_of_lt _ hlt]
      exact h.heap v
    · have hv : v = ⟨m.objectCount⟩ := congrArg Value.mk heq
      rw [hv, h.next_object hroom]
      exact (Heap.get_alloc n.heap _).trans (congrArg (Object.rename _) (Heap.get_alloc m.heap k)).symm
    · have hgt' := h.lt_of_lt hgt
      rw [Heap.get_of_le (by rw [Heap.size_alloc]; exact hgt'),
        Heap.get_of_le (by rw [Heap.size_alloc]; exact hgt)]
      rfl
  arena := h.arena
  types := h.types
  config := h.config
  globals := h.globals
  callStack := h.callStack
  root_eq := h.root_eq
  count := by
    have hcount := h.count
    simp only [objectCount, Heap.size_alloc] at hcount ⊢
    omega
  above hfilled := by
    have habove := h.above hfilled
    simp only [objectCount, Heap.size_alloc] at habove ⊢
    omega
  below hfilled := by
    simpa [objectCount, hfilled] using hroom

/-- Both machines change the same object in the same way. -/
theorem modify (h : Shifted root gap filled m n) (v : Value) {f g : Object → Object}
    (hfg : ∀ o, g (o.rename (Value.shift gap)) = (f o).rename (Value.shift gap)) :
    Shifted root gap filled { m with heap := m.heap.modify v f }
      { n with heap := n.heap.modify (v.shift gap) g } where
  heap := by
    intro u
    by_cases huv : u = v
    · subst huv
      by_cases hlt : u.address < m.objectCount
      · rw [Heap.get_modify_self g ((h.exists_iff u).2 hlt), Heap.get_modify_self f hlt, h.heap u, hfg]
      · have hlt' : ¬(u.shift gap).address < n.objectCount := fun hu => hlt ((h.exists_iff u).1 hu)
        rw [Heap.get_of_le (by simpa [objectCount] using hlt'),
          Heap.get_of_le (by simpa [objectCount] using hlt)]
        rfl
    · have hne : u.shift gap ≠ v.shift gap := fun he => huv (Value.shift_injective he)
      rw [Heap.get_modify_of_ne _ g hne, Heap.get_modify_of_ne _ f huv]
      exact h.heap u
  arena := h.arena
  types := h.types
  config := h.config
  globals := h.globals
  callStack := h.callStack
  root_eq := h.root_eq
  count := by simpa [objectCount] using h.count
  above := by simpa [objectCount] using h.above
  below := by simpa [objectCount] using h.below

theorem setMember (h : Shifted root gap filled m n) (v : Value) (name : String) (member : Member) :
    Shifted root gap filled { m with heap := m.heap.setMember v name member }
      { n with heap := n.heap.setMember (v.shift gap) name (member.rename (Value.shift gap)) } :=
  h.modify v fun o => (Object.rename_setMember _ o name member).symm

/-- What a name means on a value is found on both machines. -/
theorem find (h : Shifted root gap filled m n) (v : Value) (name : String) :
    (n.heap.find (v.shift gap) name).1 = (m.heap.find v name).1.map (Member.rename (Value.shift gap)) ∧
      Shifted root gap filled { m with heap := (m.heap.find v name).2 }
        { n with heap := (n.heap.find (v.shift gap) name).2 } := by
  have hmember := h.heap.member? v name
  have htag : n.heap.tag (v.shift gap) = m.heap.tag v := by
    rw [Heap.tag, h.heap.kind, Kind.tag_rename, Heap.tag]
  unfold Heap.find
  rw [hmember, htag]
  cases (m.heap.get v).members.get? name with
  | some member => exact ⟨rfl, h⟩
  | none =>
    cases (m.heap.tag v).symbol? name with
    | some s => exact ⟨rfl, h.setMember v name (.builtin s)⟩
    | none => exact ⟨rfl, h⟩

/-- Texts are the same on both machines. -/
theorem textWithin (h : Shifted root gap filled m n) (quoted : Bool) (v : Value) :
    n.heap.textWithin n.heap.nestingBound quoted (v.shift gap) =
      m.heap.textWithin m.heap.nestingBound quoted v := by
  rw [Heap.textWithin_rename h.heap.kind]
  have hcount : n.heap.objects.size = m.heap.objects.size + filled.toNat := h.count
  unfold Heap.nestingBound
  rw [hcount]
  cases filled with
  | true => exact Heap.textWithin_enough m.heap quoted v
  | false => rfl

end Machine.Shifted

/-- The passage to a machine with a gap in the numbers of its objects and the same global frame. An empty gap is only said
something about until objects come as far. -/
def Passage.shift (root : FrameId) (gap : Nat) (filled : Bool) : Passage where
  value := Value.shift gap
  injective := Value.shift_injective
  rel := Machine.Shifted root gap filled
  becomes _ _ _ := True
  becomes_refl _ _ := trivial
  becomes_framed _ _ _ := trivial
  becomes_exhausted _ _ := trivial
  becomes_delivered _ _ := trivial
  allows _ _ := True
  allows_mild _ := trivial
  room count := filled = true ∨ count ≤ gap
  room_of_le hle := Or.imp_right (Nat.le_trans hle)
  excuses := Cutoff.Stops
  excuses_gaveUp := Cutoff.stops
  excuses_placedAt := Cutoff.Stops.placedAt
  oneWay _ := False
  fails f g := g = f.rename (Value.shift gap)
  fails_of _ := rfl
  kind_eq h := h.heap.kind
  hash_eq h v := by rw [Heap.hash?, Heap.hash?, h.heap v, Object.hash_rename]
  has_eq h := h.heap.has
  types_eq h name := by rw [h.types, Bindings.get?_map]
  text_eq h := h.textWithin
  rel_alloc h hroom k _ := ⟨(h.next_object hroom).symm, h.alloc hroom k⟩
  rel_find h := h.find
  rel_setMember h v name member _ := h.setMember v name member
  rel_setHash h v _ _ := h.modify v fun _ => rfl
  rel_setKind h _ _ _ _ := h.modify _ fun _ => rfl

theorem Passage.places_shift (root : FrameId) (gap : Nat) (filled : Bool) :
    (Passage.shift root gap filled).Places := by
  rintro f _ span rfl
  rfl

@[simp] theorem Passage.value_shift (root : FrameId) (gap : Nat) (filled : Bool) :
    (Passage.shift root gap filled).value = Value.shift gap := rfl

end shift
end ScriptVM
