import ScriptVM.Proofs.Composition.Closed
import ScriptVM.Proofs.Composition.Sequence
import ScriptVM.Proofs.Data.Keeping
import ScriptVM.Proofs.Expression.Lowering
import ScriptVM.Proofs.Storage

/-!
# Tidy machines

A machine is tidy when it refers to no object that does not exist and its data is kept as it is
compared. New machines are tidy, and whatever code does on a tidy machine leaves a tidy one behind, so
the data that it makes is as good as the data that was there.
-/
namespace ScriptVM

open Engine

/-- Nothing refers to an object that does not exist, and data is kept as it is compared. -/
structure Machine.Tidy (digests : Digests) (m : Machine) : Prop where
  closed : m.Closed
  settled : m.heap.Settled digests
  counts : m.heap.CountsEntries

namespace Machine

variable {m n k : Machine} {fuel steps : Nat} {id : FrameId} {c : Cursor} {op : Op} {flow : Flow}
  {α : Type} {digests : Digests}

theorem tidy_new (config : Config) : (new config).Tidy digests :=
  ⟨closed_new config, settled_new config, (Reachable.new : Reachable config digests _).countsEntries⟩

theorem SameButLog.heap (h : m.SameButLog n) : m.heap = n.heap := (Machine.mk.inj h).2.1

theorem SameButLog.arena (h : m.SameButLog n) : m.arena = n.arena := (Machine.mk.inj h).2.2.1

theorem Closed.log (h : m.Closed) (hlog : n.SameButLog m) : n.Closed := by
  have hlogged : ({ n with log := [] } : Machine) = { m with log := [] } := hlog
  intro gap hgap
  have hm := h gap (by rwa [objectCount, ← hlog.heap])
  have hforgotten : Renamed (Value.shift gap) { m with log := [] } { m with log := [] } := { hm with }
  rw [← hlogged] at hforgotten
  exact { hforgotten with }

theorem Tidy.log (h : m.Tidy digests) (hlog : n.SameButLog m) : n.Tidy digests :=
  ⟨h.closed.log hlog, hlog.heap ▸ h.settled, hlog.heap ▸ h.counts⟩

/-- What comes to a result on a closed machine leaves a closed one behind, if it does not notice a gap
behind the objects. -/
theorem Closed.of_carries {x : Run α} {a : α} {y : Nat → Run α} {r : Nat → α → α} (h : m.Closed)
    (hcarries : ∀ gap, (Passage.shift m.globals gap false).Carries x (y gap) (r gap))
    (hsame : ∀ gap, hasEnded (y gap m) = true → x m = y gap m) (hx : x m = .ok a n) : n.Closed := by
  have hafter : x.after m = n := by rw [Run.after, hx]
  refine closed_of_shifted m.globals fun gap hgap => ?_
  have hshifted := (h.computation (hcarries gap) (hsame gap) (by rw [hx]; rfl) (by rwa [hafter])).2
  rwa [hafter] at hshifted

/-- An instruction leaves a tidy machine behind. -/
theorem Tidy.step (h : m.Tidy digests)
    (hstep : (withFuel fuel digests).step id c op m = .ok flow n) : n.Tidy digests where
  closed := by
    refine h.closed.of_carries (y := fun gap => (withholding (some gap) digests fuel).step id c op)
      (r := fun gap => Flow.rename (Value.shift gap)) (fun gap => ?_) (fun gap hend => ?_) hstep
    · have K : (Passage.shift m.globals gap false).Knot (.withholding none digests fuel)
          (.withholding (some gap) digests fuel) := (Passage.withholdAlike_below gap).knot digests fuel
      rw [withholding_none] at K
      exact (Passage.shift_frames m.globals gap false).step K id c op
    · have F := (Lasting.anything (fun _ => False) True).frames
      exact Lasting.eq_of_matches Flow.rename_id
        ((F.step (Lasting.withholding_knot _ fuel) id c op).holds
        m m ⟨rfl, trivial⟩ trivial trivial) hend
  settled := Lasting.inv_of_endsIn
    ((Lasting.settled digests).frames.step (Lasting.settled_steps.knot fuel) id c op) h.settled
      (.ok hstep)
  counts := ((Likeness.growing_knot m.heap True fuel).step trivial c op).countsEntries h.counts hstep

/-- So does running code. -/
theorem Tidy.dispatch (h : m.Tidy digests)
    (hrun : (withFuel fuel digests).dispatch steps id c m = .ok flow n) :
    n.Tidy digests where
  closed := by
    have hafter : ((withFuel fuel digests).dispatch steps id c).after m = n := by rw [Run.after, hrun]
    refine closed_of_shifted m.globals fun gap hgap => ?_
    rw [← hafter] at hgap
    have hshifted := (h.closed.dispatch (by rw [hrun]; rfl) hgap).2
    rwa [hafter] at hshifted
  settled := Lasting.inv_of_endsIn
    ((Lasting.settled digests).frames.dispatch (Lasting.settled_steps.knot fuel)
      (Lasting.settled digests).places steps id c)
    h.settled (.ok hrun)
  counts := ((Likeness.growing_knot m.heap True fuel).dispatch trivial (Nat.le_refl steps)
    c).countsEntries h.counts hrun

/-- And popping an operand. -/
theorem Tidy.pop {v : Value} (h : m.Tidy digests) (hpop : Run.pop id m = .ok v n)
    (hheap : n.heap = m.heap) :
    n.Tidy digests where
  closed := h.closed.of_carries (y := fun _ => Run.pop id)
    (fun gap => (Passage.shift_frames m.globals gap false).pop id) (fun _ _ => rfl) hpop
  settled := hheap ▸ h.settled
  counts := hheap ▸ h.counts

/-- Nothing was bound to an object that is yet to be made. -/
theorem Closed.not_bound (h : m.Closed) {f v : Value} {callable : Callable}
    (hf : m.heap.kind f = .function ⟨callable, some v⟩) : v.address < m.objectCount := by
  have hkind := (h m.objectCount (Nat.le_refl _)).heap.kind f
  have hlt : f.address < m.objectCount := Heap.lt_size_of_kind hf nofun
  rw [Value.shift_of_lt hlt, hf] at hkind
  have hv : v = v.shift m.objectCount := by
    simpa [Kind.rename, Function.rename] using hkind
  refine Nat.lt_of_not_le fun hge => ?_
  rw [Value.shift_of_le hge] at hv
  exact Nat.ne_of_lt (Nat.lt_succ_self _) (congrArg Value.address hv)

/-- A new object that is no function is as the machine makes it. -/
theorem Closed.pristine_alloc (h : m.Closed) {kind : Kind} (hkind : ∀ f, kind ≠ .function f) :
    (m.heap.alloc kind).2.Pristine (m.heap.alloc kind).1 where
  lt := by
    rw [Heap.size_alloc]
    exact Nat.lt_succ_self _
  untouched := by
    rw [Heap.get_alloc]
    exact fun _ _ hm => nomatch hm
  older f callable hf := by
    rcases m.heap.get_alloc_cases kind f with hget | hget
    · rw [Heap.kind, hget] at hf
      exact absurd (h.not_bound hf) (Nat.lt_irrefl _)
    · rw [Heap.kind, hget] at hf
      exact absurd hf (hkind _)

/-- And it says what its payload says. -/
theorem Closed.says_alloc (h : m.Closed) {kind : Kind} {l : Nat} {x : Data}
    (hmeans : kind.Says (fun _ _ => False) ((m.heap.alloc kind).2.Holds l) x) :
    (m.heap.alloc kind).2.Says (m.heap.alloc kind).1 x := by
  refine ⟨l + 1, h.pristine_alloc (fun f hf => ?_), ?_⟩
  · rw [hf] at hmeans
    cases hmeans
  · rw [Heap.kind_alloc]
    exact hmeans.imp (fun _ _ _ => False.elim) fun _ _ hv => hv

end Machine
end ScriptVM
