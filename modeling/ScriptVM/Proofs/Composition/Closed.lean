import ScriptVM.Proofs.Composition.Withholding

/-!
# Closed machines

A machine is closed when it refers to no object that does not exist, so that a gap behind its objects
goes unnoticed. New machines are closed, and code leaves a closed machine behind.
-/
namespace ScriptVM

/-- Whether a gap in the numbers behind the objects changes nothing of a machine: no object, frame or
type of it refers to an object that does not exist. -/
def Machine.Closed (m : Machine) : Prop :=
  ∀ gap, m.objectCount ≤ gap → m.Renamed (Value.shift gap) m

section closed

variable {m n : Machine} {root : FrameId} {gap fuel steps : Nat} {filled : Bool} {α : Type}

namespace Machine

theorem Closed.shifted (h : m.Closed) (hgap : m.objectCount ≤ gap) :
    m.Shifted m.globals gap false m where
  toRenamed := h gap hgap
  root_eq := rfl
  count := rfl
  above := nofun
  below _ := hgap

theorem closed_of_shifted (root : FrameId)
    (h : ∀ gap, m.objectCount ≤ gap → m.Shifted root gap false m) : m.Closed :=
  fun gap hgap => (h gap hgap).toRenamed

/-! ## New machines -/

theorem objectCount_addType (m : Machine) (tag : TypeTag) :
    (m.addType tag).objectCount = m.objectCount + 1 := Heap.size_alloc _ _

theorem Shifted.defineGlobal (h : m.Shifted root gap filled n) (name : String) (v : Value) :
    (m.defineGlobal name v).Shifted root gap filled (n.defineGlobal name (v.shift gap)) := by
  unfold Machine.defineGlobal
  rw [h.globals]
  exact h.modifyFrame m.globals fun f => by simp [Frame.define, Frame.rename, Bindings.map_insert]

/-- Both machines get a built-in type. -/
theorem Shifted.addType (h : m.Shifted root gap filled n)
    (hroom : filled = true ∨ m.objectCount + 1 ≤ gap) (tag : TypeTag) :
    (m.addType tag).Shifted root gap filled (n.addType tag) := by
  have hvalue : (n.heap.alloc (.type (.builtin tag))).1 =
      (m.heap.alloc (.type (.builtin tag))).1.shift gap := (h.next_object hroom).symm
  have hallocated := h.alloc hroom (.type (.builtin tag))
  have htyped : Shifted root gap filled
      { m with
        heap := (m.heap.alloc (.type (.builtin tag))).2
        types := m.types.insert tag.name (m.heap.alloc (.type (.builtin tag))).1 }
      { n with
        heap := (n.heap.alloc (.type (.builtin tag))).2
        types := n.types.insert tag.name (n.heap.alloc (.type (.builtin tag))).1 } :=
    { hallocated with types := by rw [hvalue, h.types, Bindings.map_insert] }
  have hdefined := htyped.defineGlobal tag.name (m.heap.alloc (.type (.builtin tag))).1
  rwa [← hvalue] at hdefined

/-- A new machine is closed. -/
theorem closed_new (config : Config) : (new config).Closed := by
  refine new_induction config (fun gap _ => ?_) fun m tag h =>
    closed_of_shifted m.globals fun gap hgap => ?_
  · have hempty : Arena.empty.rename (Value.shift gap) = .empty := by
      simp [Arena.rename, Arena.empty]
    have halloc := Arena.rename_alloc (Value.shift gap) .empty none none false
    rw [hempty] at halloc
    refine ⟨fun v => ?_, congrArg Prod.snd halloc, rfl, rfl, rfl, rfl⟩
    rw [Heap.get_of_le (Nat.zero_le _), Heap.get_of_le (Nat.zero_le _)]
    rfl
  · rw [objectCount_addType] at hgap
    exact (h.shifted (Nat.le_of_succ_le hgap)).addType (.inr hgap) tag

end Machine

/-! ## Runs -/

open Engine

/-- A computation on a closed machine, and the same computation that gives up more often: as long as
objects do not come as far as the gap, both do the same and do not notice the gap. -/
theorem Machine.Closed.computation {x y : Run α} {r : α → α} (h : m.Closed)
    (hxy : (Passage.shift m.globals gap false).Carries x y r)
    (hsame : hasEnded (y m) = true → x m = y m) (hend : hasEnded (x m) = true)
    (hgap : (x.after m).objectCount ≤ gap) :
    y m = x m ∧ (x.after m).Shifted m.globals gap false (x.after m) := by
  have hmatches := hxy.holds m m (h.shifted (Nat.le_trans (hxy.grows m) hgap)) trivial (.inr hgap)
  unfold Run.after
  generalize x m = s at hmatches hsame hend ⊢
  generalize y m = t at hmatches hsame ⊢
  cases hmatches with
  | ok a hmn =>
    obtain ⟨ha, rfl⟩ := EStateM.Result.ok.inj (hsame rfl)
    rw [← ha]
    exact ⟨rfl, hmn⟩
  | failed _ hmn =>
    obtain ⟨hf, rfl⟩ := EStateM.Result.error.inj (hsame rfl)
    rw [← hf]
    exact ⟨rfl, hmn⟩
  | gaveUp => cases hend
  | unsaid => cases hend

variable {id : FrameId} {c : Cursor} {digests : Digests}

/-- Code on a closed machine asks no object that it has yet to make for its number. -/
theorem Machine.Closed.dispatch (h : m.Closed)
    (hend : hasEnded ((withFuel fuel digests).dispatch steps id c m) = true)
    (hgap : (((withFuel fuel digests).dispatch steps id c).after m).objectCount ≤ gap) :
    (withholding (some gap) digests fuel).dispatch steps id c m =
      (withFuel fuel digests).dispatch steps id c m ∧
      (((withFuel fuel digests).dispatch steps id c).after m).Shifted m.globals gap false
        (((withFuel fuel digests).dispatch steps id c).after m) := by
  have hcarries := (Passage.withholdAlike_below gap).dispatch m.globals digests fuel steps id c
  rw [withholding_none] at hcarries
  exact h.computation hcarries dispatch_of_withholding hend hgap

end closed
end ScriptVM
