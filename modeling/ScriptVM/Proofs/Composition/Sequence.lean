import ScriptVM.Proofs.Code.Soundness
import ScriptVM.Proofs.Composition.Closed
import ScriptVM.Proofs.Fuel
import ScriptVM.Proofs.Statement.Holding
import ScriptVM.Proofs.Statement.Inline

/-!
# Programs one after the other

Two programs that are executed one after the other on the same machine do what their concatenation
does. The one difference is the `None` that the first program ends with: it takes a number, so that
the objects of the second program have other numbers than in the concatenation.
-/
namespace ScriptVM

open Engine

/-! ## Code -/

/-- The code of a block is the concatenation of the codes of its parts. -/
theorem blockCode_append (s : Surroundings) (p q : List Node) :
    blockCode s (p ++ q) = do
      let first ← blockCode s p
      let later ← blockCode s q
      return first ++ later := by
  induction p with
  | nil =>
    simp only [List.nil_append, blockCode]
    cases blockCode s q <;> rfl
  | cons node rest ih =>
    simp only [List.cons_append, blockCode, ih, bind_assoc, pure_bind, List.append_assoc]

/-- The three blocks of a program have the code of one block. -/
theorem Program.code_eq (prologue body epilogue : List Node) :
    (Program.mk prologue body epilogue).code =
      blockCode .inFunction (prologue ++ body ++ epilogue) := by
  simp only [Program.code, blockCode_append, bind_assoc, pure_bind]

/-! ## Ends of programs -/

/-- How a program ends whose code has ended in some way. -/
def concluded : Ending Flow → Ending Value
  | .ok (.next _) m => Run.newNone m
  | .ok (.leave v _) m => .ok v m
  | .error stop m => .error stop m.reset

section sequence

variable {e : Engine} {id : FrameId} {c : Cursor} {cp cq : Block} {m m₀ n k : Machine}
  {r s : Ending Flow} {fuel steps : Nat}

theorem Engine.execute_eq (e : Engine) (code : Cursor) (m : Machine) :
    e.execute code m = concluded (e.dispatch e.fuel m.globals code m) := by
  unfold execute run
  simp only [bind, EStateM.bind]
  cases e.dispatch e.fuel m.globals code m with
  | ok flow m' => cases flow <;> rfl
  | error stop m' => rfl

@[simp] theorem hasEnded_concluded (r : Ending Flow) : hasEnded (concluded r) = hasEnded r := by
  match r with
  | .ok (.next _) _ => rfl
  | .ok (.leave _ _) _ => rfl
  | .error (.failed _) _ => rfl
  | .error (.gaveUp _) _ => rfl

theorem Machine.SameButLog.newNone (h : m.SameButLog n) : SameEnd (Run.newNone m) (Run.newNone n) := by
  obtain ⟨hconfig, hheap, harena, hglobals, hcalls, htypes, -, hheld⟩ := Machine.mk.inj h
  unfold Run.newNone Run.newObject
  rw [Run.modifyGet_apply, Run.modifyGet_apply, hheap]
  refine .ok _ ?_
  simp only [Machine.SameButLog, hconfig, harena, hglobals, hcalls, htypes, hheld]

theorem SameEnd.hasEnded_eq {α : Type} {x y : Ending α} (h : SameEnd x y) :
    hasEnded x = hasEnded y := by
  cases h <;> rfl

theorem Machine.SameButLog.reset (h : m.SameButLog n) : m.reset.SameButLog n.reset :=
  congrArg Machine.reset h

/-! ## Running on -/

/-- Code that has run to its end goes on with the code behind it: what comes next ends as it would
end by itself. -/
theorem Sound.ends_append (hp : Sound .plain 0 cp 0) (hq : Sound .plain 0 cq 0)
    (hfits : (cp ++ cq).length ≤ Text.maxCount) (he : e.IsQuiet)
    (hrun : e.dispatch steps id (.ofList cp) m = .ok (.next c) m₀) {j : Nat}
    (hend : hasEnded (e.dispatch j id (.ofList cq) m₀) = true) :
    ∃ r, e.Ends id (.ofList (cp ++ cq)) m r ∧
      SameEnd (concluded r) (concluded (e.dispatch j id (.ofList cq) m₀)) := by
  obtain ⟨hstands, hstands'⟩ := (Cursor.stands_ofList hfits).append
  have hfirst := (hp.keeps he id hstands).reaches steps m m (.refl m)
  rw [hrun] at hfirst
  obtain ⟨m', hleads, hsame⟩ := hfirst
  have hlater := (hq.keeps he id hstands').reaches j m' m₀ hsame
  generalize e.dispatch j id (.ofList cq) m₀ = x at hlater hend ⊢
  match x, hlater, hend with
  | .ok (.next c') k, hlater, _ =>
    obtain ⟨k', hleads', hsame'⟩ := hlater
    have hover : (((Cursor.ofList (cp ++ cq)).skip cp.length).skip cq.length).next? = none := by
      rw [Cursor.next?_eq_none_iff]
      simp [Cursor.ofList, Cursor.ofView]
    exact ⟨_, (hleads.leads.trans hleads'.leads).ends (ends_of_end hover), hsame'.newNone⟩
  | .ok (.leave v c') k, hlater, _ =>
    obtain ⟨c'', k', hends, hsame'⟩ := hlater
    exact ⟨_, hleads.leads.ends hends, .ok v hsame'⟩
  | .error (.failed f) k, hlater, _ =>
    obtain ⟨k', hends, hsame'⟩ := hlater
    exact ⟨_, hleads.leads.ends hends, .failed f hsame'.reset⟩

/-- When longer code ends, its first part ends by itself. -/
theorem Sound.hasEnded_of_append (hp : Sound .plain 0 cp 0)
    (hfits : (cp ++ cq).length ≤ Text.maxCount) (he : e.IsQuiet)
    (hend : hasEnded (e.dispatch steps id (.ofList (cp ++ cq)) m) = true) :
    ∃ i, hasEnded (e.dispatch i id (.ofList cp) m) = true := by
  have hstands := (Cursor.stands_ofList hfits).append.1
  by_contra hnone
  have hstarves := (hp.keeps he id hstands).starves m m (.refl m) fun i =>
    Bool.eq_false_iff.2 fun hi => hnone ⟨i, hi⟩
  rw [hstarves steps] at hend
  cases hend

/-- When longer code ends whose first part runs to its end, what comes behind it ends by itself. -/
theorem Sound.hasEnded_behind (hp : Sound .plain 0 cp 0) (hq : Sound .plain 0 cq 0)
    (hfits : (cp ++ cq).length ≤ Text.maxCount) (he : e.IsQuiet)
    (hrun : e.dispatch steps id (.ofList cp) m = .ok (.next c) m₀) {j : Nat}
    (hend : hasEnded (e.dispatch j id (.ofList (cp ++ cq)) m) = true) :
    ∃ i, hasEnded (e.dispatch i id (.ofList cq) m₀) = true := by
  obtain ⟨hstands, hstands'⟩ := (Cursor.stands_ofList hfits).append
  have hfirst := (hp.keeps he id hstands).reaches steps m m (.refl m)
  rw [hrun] at hfirst
  obtain ⟨m', hleads, hsame⟩ := hfirst
  by_contra hnone
  have hstarves := (hq.keeps he id hstands').starves m' m₀ hsame fun i =>
    Bool.eq_false_iff.2 fun hi => hnone ⟨i, hi⟩
  rw [hleads.leads.starves hstarves j] at hend
  cases hend

/-! ## One more object -/

/-- A program ends in the same way on two machines, the second of which has an object more: with the
same value or the same failure up to the names of objects, and with the same frames and objects. -/
inductive EndsShifted (gap : Nat) : Ending Value → Ending Value → Prop
  | returned (v : Value) {m n : Machine} (h : m.Shifted m.globals gap true n) :
    EndsShifted gap (.ok v m) (.ok (v.shift gap) n)
  | failed (f : Failure) {m n : Machine} (h : m.Shifted m.globals gap true n) :
    EndsShifted gap (.error (.failed f) m) (.error (.failed (f.rename (Value.shift gap))) n)

variable {root : FrameId} {gap : Nat} {filled : Bool}

/-- The log is none of what two machines share. -/
theorem Machine.Shifted.of_sameButLog (h : m.Shifted root gap filled n) (hk : k.SameButLog m) :
    k.Shifted root gap filled n := by
  have hforgotten : ({ k with log := [] } : Machine) = { m with log := [] } := hk
  have h' : Machine.Shifted root gap filled { m with log := [] } n := { h with }
  rw [← hforgotten] at h'
  exact { h' with }

/-- A closed machine and the same machine with another object. -/
theorem Machine.Shifted.fill (h : m.Shifted root m.objectCount false m) (kind : Kind) :
    m.Shifted root m.objectCount true { m with heap := (m.heap.alloc kind).2 } where
  heap := by
    intro v
    rw [← h.heap v]
    rcases Nat.lt_or_ge v.address m.objectCount with hlt | hge
    · rw [Value.shift_of_lt hlt]
      exact Heap.get_alloc_of_lt _ hlt
    · have hgt : m.objectCount < (v.shift m.objectCount).address := by
        rw [Value.shift_of_le hge]
        exact Nat.lt_succ_of_le hge
      rw [Heap.get_of_le (Nat.le_of_lt hgt), Heap.get_of_le (by rw [Heap.size_alloc]; exact hgt)]
  arena := h.arena
  types := h.types
  config := rfl
  globals := rfl
  callStack := rfl
  root_eq := h.root_eq
  count := Heap.size_alloc _ _
  above _ := Nat.le_refl _
  below := nofun

/-- Both machines end or neither does. -/
theorem Passage.Matches.hasEnded_iff {α β : Type} {f : α → β} {x : Ending α} {y : Ending β}
    (h : (Passage.shift root gap filled).Matches f x y) : hasEnded x = hasEnded y := by
  cases h with
  | ok => rfl
  | failed => rfl
  | gaveUp _ _ hstop =>
    cases hstop
    rfl
  | unsaid _ _ honeWay => exact honeWay.elim

theorem Passage.Matches.concluded
    (h : (Passage.shift root gap true).Matches (Flow.rename (Value.shift gap)) r s) :
    (Passage.shift root gap true).Matches (Value.shift gap) (concluded r) (concluded s) := by
  cases h with
  | ok flow hmn =>
    cases flow with
    | next c => exact (Passage.carries_newNone).holds _ _ hmn trivial (.inl rfl)
    | leave v c => exact .ok v hmn
  | failed hfg hmn => exact .failed hfg (Machine.Shifted.reset hmn)
  | gaveUp _ _ hstop =>
    cases hstop
    exact .gaveUp _ _ rfl
  | unsaid _ _ honeWay => exact honeWay.elim

theorem endsShifted_of_matches {x x' y : Ending Value}
    (h : (Passage.shift root gap true).Matches (Value.shift gap) x y) (hsame : SameEnd x' x)
    (hend : hasEnded x = true) : EndsShifted gap x' y := by
  cases hsame with
  | ok v hmn =>
    cases h with
    | ok _ hshift =>
      have hshift' := Machine.Shifted.of_sameButLog hshift hmn
      exact .returned v { hshift' with root_eq := rfl }
  | failed f hmn =>
    cases h with
    | failed hfg hshift =>
      cases hfg
      have hshift' := Machine.Shifted.of_sameButLog hshift hmn
      exact .failed f { hshift' with root_eq := rfl }
  | gaveUp => cases hend

end sequence
end ScriptVM
