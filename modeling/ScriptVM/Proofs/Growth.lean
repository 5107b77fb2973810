import ScriptVM.Proofs.Frame.Effect
import ScriptVM.Proofs.Likeness.Steady

/-!
# Objects through a run

Whatever an engine does on whatever machine, objects are only added, payloads only become what they
may become, and every Hash goes on counting its entries. Frames take no part in this: computations on
them leave the objects alone, but for names that are bound to an object.
-/
namespace ScriptVM

/-- Every Hash knows how many entries it has. -/
def Heap.CountsEntries (h : Heap) : Prop := ∀ v t, h.table? v = some t → t.size = t.entries.length

namespace Run

variable {α β : Type} {m m' : Machine} {x : Run α}

/-- A computation that leaves the objects alone. -/
def SparesHeap (x : Run α) : Prop :=
  ∀ m, (∃ a m', x m = .ok a m' ∧ m'.heap = m.heap) ∨
    ∃ c m', x m = .error (.failed (.of c)) m' ∧ m'.heap = m.heap

theorem SparesHeap.heap_of_ok (hx : x.SparesHeap) {a : α} (h : x m = .ok a m') :
    m'.heap = m.heap := by
  rcases hx m with ⟨b, k, hk, hheap⟩ | ⟨c, k, hk, -⟩
  · rw [hk] at h
    cases h
    exact hheap
  · rw [hk] at h
    cases h

theorem sparesHeap_modify {change : Machine → Machine}
    (h : ∀ m, (change m).heap = m.heap) : SparesHeap (modify change) :=
  fun m => .inl ⟨(), change m, rfl, h m⟩

/-- A computation that neither reads nor changes the objects. -/
def IgnoresHeap (x : Run α) : Prop :=
  ∀ m : Machine, (∃ a, ∃ m' : Machine, ∀ h, x { m with heap := h } = .ok a { m' with heap := h }) ∨
    ∃ c, ∃ m' : Machine, ∀ h,
      x { m with heap := h } = .error (.failed (.of c)) { m' with heap := h }

theorem IgnoresHeap.sparesHeap (hx : x.IgnoresHeap) : x.SparesHeap := by
  intro m
  rcases hx m with ⟨a, m', h⟩ | ⟨c, m', h⟩
  · exact .inl ⟨a, _, h m.heap, rfl⟩
  · exact .inr ⟨c, _, h m.heap, rfl⟩

theorem ignoresHeap_pure (a : α) : IgnoresHeap (pure a) := fun m => .inl ⟨a, m, fun _ => rfl⟩

theorem ignoresHeap_fail (c : Cause) : IgnoresHeap (fail (α := α) c) :=
  fun m => .inr ⟨c, m, fun _ => rfl⟩

theorem ignoresHeap_frame (id : FrameId) : IgnoresHeap (frame id) := by
  intro m
  cases hf : m.arena.get? id with
  | some f => exact .inl ⟨f, m, fun h => frame_of_live (m := { m with heap := h }) hf⟩
  | none => exact .inr ⟨_, m, fun h => frame_of_dead (m := { m with heap := h }) hf⟩

theorem ignoresHeap_modify {change : Machine → Machine}
    (hchange : ∀ m h, change { m with heap := h } = { change m with heap := h }) :
    IgnoresHeap (modify change) :=
  fun m => .inl ⟨(), change m, fun h => congrArg (EStateM.Result.ok ()) (hchange m h)⟩

theorem IgnoresHeap.bind {f : α → Run β} (hx : x.IgnoresHeap) (hf : ∀ a, (f a).IgnoresHeap) :
    (x >>= f).IgnoresHeap := by
  intro m
  simp only [Bind.bind, EStateM.bind]
  rcases hx m with ⟨a, k, hk⟩ | ⟨c, k, hk⟩
  · simp only [hk]
    exact hf a k
  · simp only [hk]
    exact .inr ⟨c, k, fun _ => rfl⟩

theorem ignoresHeap_modifyFrame (id : FrameId) (change : Frame → Frame) :
    IgnoresHeap (modifyFrame id change) :=
  (ignoresHeap_frame id).bind fun _ => ignoresHeap_modify fun _ _ => rfl

theorem ignoresHeap_pop (id : FrameId) : IgnoresHeap (pop id) := by
  refine (ignoresHeap_frame id).bind fun f => ?_
  split
  · exact .bind (ignoresHeap_modify fun _ _ => rfl) fun _ => ignoresHeap_pure _
  · exact ignoresHeap_fail _

theorem ignoresHeap_popMany (id : FrameId) (count : Nat) : IgnoresHeap (popMany id count) := by
  refine (ignoresHeap_frame id).bind fun f => ?_
  split
  · exact .bind (ignoresHeap_modify fun _ _ => rfl) fun _ => ignoresHeap_pure _
  · exact ignoresHeap_fail _

theorem ignoresHeap_top (id : FrameId) : IgnoresHeap (top id) := by
  refine (ignoresHeap_frame id).bind fun f => ?_
  split
  · exact ignoresHeap_pure _
  · exact ignoresHeap_fail _

theorem ignoresHeap_last (id : FrameId) : IgnoresHeap (last id) :=
  (ignoresHeap_frame id).bind fun _ => ignoresHeap_pure _

theorem ignoresHeap_methodScope (id : FrameId) : IgnoresHeap (methodScope id) := by
  refine (ignoresHeap_frame id).bind fun f => ?_
  split
  · exact ignoresHeap_pure _
  · exact ignoresHeap_pure _

theorem ignoresHeap_retain (id : FrameId) : IgnoresHeap (retain id) :=
  (ignoresHeap_frame id).bind fun _ => .bind (ignoresHeap_modify fun _ _ => rfl) fun _ =>
    ignoresHeap_pure id

theorem ignoresHeap_activate (id : FrameId) : IgnoresHeap (activate id) :=
  (ignoresHeap_frame id).bind fun _ => ignoresHeap_modify fun _ _ => rfl

theorem ignoresHeap_newFrame (parent : Option FrameId) (object : Option Value)
    (bindsObject : Bool) : IgnoresHeap (newFrame parent object bindsObject) :=
  fun m => .inl ⟨(m.arena.alloc parent object bindsObject).1,
    { m with arena := (m.arena.alloc parent object bindsObject).2 }, fun _ => rfl⟩

theorem ignoresHeap_trace (position : Nat) (i : Instruction) : IgnoresHeap (trace position i) := by
  refine ignoresHeap_modify fun m h => ?_
  dsimp only
  split <;> rfl

end Run

namespace Likeness

/-- Machines whose objects have grown out of old ones, each compared with itself. Where that is asked
for, tables count their entries. -/
def growing (old : Heap) (counted : Prop) : Likeness where
  World := Unit
  le _ _ := True
  refl _ := trivial
  trans _ _ := trivial
  good _ := True
  function _ _ := True
  classDef _ _ := True
  generator _ _ := True
  function_mono _ h := h
  classDef_mono _ h := h
  generator_mono _ h := h
  generator_exhaust h := h
  generator_buffer _ h := h
  table t := counted → t.size = t.entries.length
  table_empty := fun _ => rfl
  table_put hash position key value h hc := Table.size_put (h hc) hash position key value
  admits _ := True
  admits_ordinary _ := trivial
  rest _ m n := n = m ∧ old.Extends m.heap
  rest_heap := by
    rintro - m n h hextends ⟨rfl, hold⟩
    exact ⟨rfl, hold.trans hextends⟩

section growing

variable {old : Heap} {counted : Prop} {α : Type} {w : (growing old counted).World}
  {m m' n : Machine} {x : Run α} {e : Engine} {digests : Digests}

theorem soundObject_growing {o : Object}
    (ho : counted → ∀ t, o.kind = .hash t → t.size = t.entries.length) :
    (growing old counted).SoundObject w o :=
  .of_good (fun _ => trivial) (fun _ => trivial) (fun _ => trivial) (fun _ _ => trivial)
    fun t hk hc => ho hc t hk

theorem alike_growing (hextends : old.Extends m.heap)
    (hcounts : counted → m.heap.CountsEntries) :
    (growing old counted).Alike w m m where
  heap := rfl
  types := rfl
  sound v _ := soundObject_growing fun hc t ht => hcounts hc v t (Heap.table?_of_kind ht)
  fresh _ _ := trivial
  goodTypes _ _ _ := trivial
  rest := ⟨rfl, hextends⟩

theorem Alike.counts (h : (growing old counted).Alike w m n) (hc : counted) :
    m.heap.CountsEntries := by
  intro v t ht
  have hkind := (h.sound v trivial).kind
  rw [show (m.heap.get v).kind = .hash t from Heap.kind_of_table? ht] at hkind
  exact hkind.1 hc

theorem Alike.rearrange (h : (growing old counted).Alike w m n) (hheap : m'.heap = m.heap) :
    (growing old counted).Alike w m' m' := by
  refine alike_growing ?_ ?_
  · rw [hheap]
    exact h.rest.2
  · intro hc v t ht
    rw [hheap] at ht
    exact h.counts hc v t ht

theorem agree_of_ignoresHeap (hx : x.IgnoresHeap) :
    (growing old counted).Agree w x x fun _ _ => True := by
  intro m n h
  obtain ⟨rfl, -⟩ := h.rest
  rcases hx.sparesHeap n with ⟨a, k, hk, hheap⟩ | ⟨c, k, hk, hheap⟩
  · rw [hk]
    exact ⟨rfl, w, trivial, trivial, h.rearrange hheap⟩
  · rw [hk]
    exact ⟨rfl, trivial, w, trivial, h.rearrange hheap⟩

theorem agree_assign_growing (id : FrameId) (name : String) (v : Value) :
    (growing old counted).Agree w (Run.assign id name v) (Run.assign id name v) fun _ _ => True := by
  intro m n h
  obtain ⟨rfl, -⟩ := h.rest
  cases hf : n.arena.get? id with
  | none =>
    rw [Run.assign_of_dead hf]
    exact ⟨rfl, trivial, w, trivial, h⟩
  | some f =>
    rw [Run.assign_of_live hf]
    refine ⟨rfl, w, trivial, trivial, ?_⟩
    simp only [Arena.assign, hf]
    cases (some f).bind fun f => if f.bindsObject = true then f.object else none with
    | none => exact h.rearrange rfl
    | some object =>
      have hset := h.modify object (.refl _) fun _ ho => ho.setMember name (m := .value v) trivial
      exact hset.rearrange rfl

theorem agree_resolve_growing (id : FrameId) (name : String) :
    (growing old counted).Agree w (Run.resolve id name) (Run.resolve id name) fun _ _ => True := by
  intro m n h
  obtain ⟨rfl, -⟩ := h.rest
  simp only [Run.resolve, Run.modifyGet_apply]
  cases hfound : n.arena.lookup? n.heap id name with
  | none => exact ⟨rfl, w, trivial, trivial, h⟩
  | some found =>
    refine ⟨rfl, w, trivial, trivial, ?_⟩
    obtain ⟨f, -, hf⟩ := List.exists_of_findSome?_eq_some hfound
    exact (h.resolve? (fun _ _ => trivial) (fun _ _ => trivial) hf).2

/-- Nothing is asked of frames. -/
def growingFrames (old : Heap) (counted : Prop) : Frames (growing old counted) where
  runs _ _ := True
  scope _ _ := True
  runs_mono _ h := h
  scope_of_function _ := trivial
  function_of_scope _ := trivial
  scope_of_classDef _ := trivial
  classDef_of_scope _ := trivial
  generator_of_scope _ _ := trivial
  generator_suspend _ h := h
  admits_frame _ := trivial
  define _ _ _ _ := agree_of_ignoresHeap (Run.ignoresHeap_modifyFrame _ _)
  push _ _ := agree_of_ignoresHeap (Run.ignoresHeap_modifyFrame _ _)
  pop _ := agree_of_ignoresHeap (Run.ignoresHeap_pop _)
  popMany count _ := (agree_of_ignoresHeap (Run.ignoresHeap_popMany _ count)).mono
    fun _ _ _ _ _ _ => trivial
  top _ := agree_of_ignoresHeap (Run.ignoresHeap_top _)
  last _ := (agree_of_ignoresHeap (Run.ignoresHeap_last _)).mono fun _ _ _ _ _ _ => trivial
  setLast _ _ := agree_of_ignoresHeap (Run.ignoresHeap_modifyFrame _ _)
  assign name v _ _ := agree_assign_growing _ name v
  resolve name _ := (agree_resolve_growing _ name).mono fun _ _ _ _ _ _ => trivial
  retain _ := agree_of_ignoresHeap (Run.ignoresHeap_retain _)
  retainMethodScope _ := agree_of_ignoresHeap
    ((Run.ignoresHeap_methodScope _).bind fun id => Run.ignoresHeap_retain id)
  trace position i := agree_of_ignoresHeap (Run.ignoresHeap_trace position i)

/-! ## Activations -/

theorem agree_activation_growing (id : FrameId)
    (hx : (growing old counted).Agree w x x fun _ _ => True) :
    (growing old counted).Agree w (Run.activation id x) (Run.activation id x) fun _ _ => True := by
  intro m n h
  obtain ⟨rfl, -⟩ := h.rest
  refine Matches.activation rfl rfl trivial (h.rearrange rfl) (fun _ => hx _ _ (h.rearrange rfl)) ?_
  intro w' k l _ halike
  obtain ⟨rfl, -⟩ := halike.rest
  exact ⟨w', trivial, fun _ _ => trivial, halike.rearrange rfl⟩

/-- An engine whose activations let objects grow. -/
structure EntersGrowing (old : Heap) (counted : Prop) (e : Engine) : Prop where
  plain : e.tracks = false
  enter : ∀ {w : (growing old counted).World} (id : FrameId) (c : Cursor),
    (growing old counted).Agree w (e.enter id c) (e.enter id c) fun _ _ => True

theorem EntersGrowing.runIn (h : EntersGrowing old counted e) (scope : FrameId) (object : Option Value)
    (bindsObject : Bool) (self : Value) (operands : List Value) (body : View) :
    (growing old counted).Agree w (e.runIn scope object bindsObject self operands body)
      (e.runIn scope object bindsObject self operands body) fun _ _ => True := by
  rw [Engine.runIn_of_plain h.plain]
  refine (agree_of_ignoresHeap (Run.ignoresHeap_newFrame _ _ _)).bind fun _ id _ _ => ?_
  refine (agree_of_ignoresHeap (Run.ignoresHeap_modifyFrame id _)).bind fun _ _ _ _ => ?_
  refine (agree_of_ignoresHeap (Run.ignoresHeap_modifyFrame id _)).bind fun _ _ _ _ => ?_
  exact (h.enter id _).bind fun _ _ _ _ => .pure trivial

theorem EntersGrowing.runOperation (h : EntersGrowing old counted e) (g : Value) (state : Generator)
    (values : List Value) :
    (growing old counted).Agree w (e.runOperation g state values) (e.runOperation g state values)
      fun _ _ => True := by
  have hframe : (growing old counted).Agree w (e.generatorFrame g state values)
      (e.generatorFrame g state values) fun _ _ => True := by
    rw [Engine.generatorFrame_of_plain h.plain]
    split
    · exact agree_of_ignoresHeap ((Run.ignoresHeap_activate _).bind fun _ => Run.ignoresHeap_pure _)
    · refine (agree_of_ignoresHeap (Run.ignoresHeap_newFrame _ _ _)).bind fun _ _ _ _ => ?_
      refine (agree_of_ignoresHeap (Run.ignoresHeap_retain _)).bind fun _ id _ _ => ?_
      refine (agree_modifyHeap fun m n hmn => ?_).bind fun _ _ _ _ => .pure trivial
      exact hmn.changeGenerator trivial (fun s _ hs => ⟨trivial, hs.2⟩)
        fun _ => .ofGenerator ⟨rfl, rfl, rfl, rfl⟩
  refine hframe.bind fun _ id _ _ => ?_
  exact (agree_of_ignoresHeap (Run.ignoresHeap_modifyFrame id _)).bind fun _ _ _ _ => h.enter id _

theorem growing_knot (old : Heap) (counted : Prop) (fuel : Nat) :
    Knot (growingFrames old counted) (.withFuel fuel digests) (.withFuel fuel digests) := by
  induction fuel with
  | zero =>
    have h : EntersGrowing old counted (.withFuel 0 digests) := ⟨rfl, fun _ _ => .giveUp⟩
    refine ⟨⟨Nat.le_refl _, rfl, ⟨rfl, rfl⟩, fun _ _ => .giveUp⟩, ?_, ?_⟩
    · exact fun _ _ _ _ _ _ _ _ => h.runIn _ _ _ _ _ _
    · exact fun _ _ _ => (h.runOperation _ _ _).mono fun _ _ _ _ => trivial
  | succ fuel ih =>
    have h : EntersGrowing old counted (.withFuel (fuel + 1) digests) := ⟨rfl, fun id c =>
      agree_activation_growing id ((ih.run trivial c).mono fun _ _ _ _ => trivial)⟩
    refine ⟨⟨Nat.le_refl _, rfl, ⟨rfl, rfl⟩, fun hc hargs => ih.bodies.callValue hc hargs⟩, ?_, ?_⟩
    · exact fun _ _ _ _ _ _ _ _ => h.runIn _ _ _ _ _ _
    · exact fun _ _ _ => (h.runOperation _ _ _).mono fun _ _ _ _ => trivial

/-- What agrees with itself while objects grow lets them grow. -/
theorem Agree.extends {p : Unit → α → Prop} {a : α}
    (hx : (growing m.heap False).Agree () x x p) (hend : x m = .ok a m') :
    m.heap.Extends m'.heap := by
  obtain ⟨_, _, -, -, -, halike⟩ := hx.ok (alike_growing (.refl _) False.elim) hend
  exact halike.rest.2

theorem Agree.countsEntries {p : Unit → α → Prop} {a : α}
    (hx : (growing m.heap True).Agree () x x p) (hcounts : m.heap.CountsEntries)
    (hend : x m = .ok a m') : m'.heap.CountsEntries := by
  obtain ⟨_, _, -, -, -, halike⟩ := hx.ok (alike_growing (.refl _) fun _ => hcounts) hend
  exact halike.counts trivial

end growing
end Likeness
end ScriptVM
