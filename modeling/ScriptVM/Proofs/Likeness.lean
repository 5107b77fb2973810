import ScriptVM.Machine.Execution
import ScriptVM.Proofs.Heap

/-!
# Machines that stay alike

A `Likeness` compares two machines that hold the same objects but may differ in their frames. What
both know about their frames is a world, and worlds only grow while a computation runs. A value is
good when a running program may come across it; good objects refer to good ones only.

`L.Agree w x y post` says that `y` follows `x`: started on machines that are alike, whenever `x`
ends, `y` ends in the same way, with the same value or the same failure, and the machines are alike
again. Lack of fuel of `x` allows anything. A likeness of a machine to itself is an invariant.
-/
namespace ScriptVM

/-- Whether a cause is neither a raised value nor a fault of the machine itself. -/
def Cause.isOrdinary : Cause → Bool
  | .stackUnderflow | .unresolvedLoopControl | .jumpOutOfRange | .frameNotFound _ | .raised _ =>
    false
  | _ => true

namespace Run

variable {α β : Type}

/-- A computation that leaves the machine as it is. -/
def IsReading (x : Run α) : Prop := ∀ m, (∃ a, x m = .ok a m) ∨ ∃ stop, x m = .error stop m

theorem isReading_pure (a : α) : IsReading (pure a) := fun _ => .inl ⟨a, rfl⟩

theorem isReading_fail (cause : Cause) : IsReading (fail (α := α) cause) :=
  fun _ => .inr ⟨_, rfl⟩

theorem isReading_read (f : Machine → α) : IsReading (read f) := fun m => .inl ⟨f m, rfl⟩

theorem IsReading.bind {x : Run α} {f : α → Run β} (hx : x.IsReading)
    (hf : ∀ a, (f a).IsReading) : (x >>= f).IsReading := by
  intro m
  simp only [Bind.bind, EStateM.bind]
  rcases hx m with ⟨a, ha⟩ | ⟨stop, hstop⟩
  · rw [ha]
    exact hf a m
  · rw [hstop]
    exact .inr ⟨stop, rfl⟩

theorem isReading_failType (v : Value) (expected : List String) :
    IsReading (failType (α := α) v expected) :=
  (isReading_read _).bind fun _ => isReading_fail _

end Run

/-- A way to compare two machines with the same objects. -/
structure Likeness where
  /-- What is known of the frames. -/
  World : Type
  le : World → World → Prop
  refl : ∀ w, le w w
  trans : ∀ {a b c}, le a b → le b c → le a c
  /-- The values that a program may come across. -/
  good : Value → Prop
  /-- The functions that may be called. -/
  function : World → CodeFunction → Prop
  /-- The classes whose body may be run. -/
  classDef : World → ClassDef → Prop
  /-- The generators whose body may be run. -/
  generator : World → Generator → Prop
  function_mono : ∀ {w w' f}, le w w' → function w f → function w' f
  classDef_mono : ∀ {w w' c}, le w w' → classDef w c → classDef w' c
  generator_mono : ∀ {w w' g}, le w w' → generator w g → generator w' g
  generator_exhaust : ∀ {w g}, generator w g → generator w { g with status := .exhausted }
  generator_buffer : ∀ {w g} (b), generator w g → generator w { g with buffered := b }
  /-- The tables that a Hash may have. -/
  table : Table → Prop
  table_empty : table .empty
  table_put : ∀ {t} (hash position key value), table t → table (t.put hash position key value)
  /-- The causes that a failure may have. -/
  admits : Cause → Prop
  admits_ordinary : ∀ {c : Cause}, c.isOrdinary = true → admits c
  /-- What relates the machines besides their objects. -/
  rest : World → Machine → Machine → Prop
  rest_heap : ∀ {w m n h}, m.heap.Extends h → rest w m n →
    rest w { m with heap := h } { n with heap := h }

namespace Likeness

variable (L : Likeness)

/-! ## Sound objects -/

/-- An entry of a member table refers to good values only. -/
def SoundMember (w : L.World) : Member → Prop
  | .value v => L.good v
  | .method f => L.function w f
  | .builtin _ => True

/-- A payload refers to good values only. -/
def SoundKind (w : L.World) : Kind → Prop
  | .tuple items | .array items => ∀ v ∈ items, L.good v
  | .hash table => L.table table ∧ ∀ entry ∈ table.entries, L.good entry.1 ∧ L.good entry.2
  | .iterator remaining delivered => (∀ v ∈ remaining, L.good v) ∧ ∀ v ∈ delivered, L.good v
  | .function ⟨.code f, receiver⟩ => L.function w f ∧ ∀ v ∈ receiver, L.good v
  | .function ⟨.builtin _, receiver⟩ => ∀ v ∈ receiver, L.good v
  | .generator g => L.generator w g ∧ L.good g.source ∧ ∀ v ∈ g.buffered, L.good v
  | .type (.ofClass c) => L.classDef w c ∧ ∀ v ∈ c.bases, L.good v
  | .object cls => L.good cls
  | _ => True

/-- An object refers to good values only. -/
structure SoundObject (w : L.World) (o : Object) : Prop where
  kind : L.SoundKind w o.kind
  member : ∀ name m, o.members.get? name = some m → L.SoundMember w m

/-- Two machines are alike. -/
structure Alike (w : L.World) (m n : Machine) : Prop where
  heap : n.heap = m.heap
  types : n.types = m.types
  sound : ∀ v, L.good v → L.SoundObject w (m.heap.get v)
  fresh : ∀ v : Value, m.heap.objects.size ≤ v.address → L.good v
  goodTypes : ∀ name v, m.types.get? name = some v → L.good v
  rest : L.rest w m n

variable {L}

section sound

variable {w w' : L.World} (hfunction : ∀ f, L.function w f → L.function w' f)
  (hclass : ∀ c, L.classDef w c → L.classDef w' c)
  (hgenerator : ∀ g, L.generator w g → L.generator w' g)

include hfunction in
theorem SoundMember.imp {m : Member} (h : L.SoundMember w m) : L.SoundMember w' m := by
  cases m with
  | method f => exact hfunction f h
  | _ => exact h

include hfunction hclass hgenerator

theorem SoundKind.imp {k : Kind} (h : L.SoundKind w k) : L.SoundKind w' k := by
  cases k with
  | function f =>
    obtain ⟨callable, receiver⟩ := f
    cases callable with
    | code f => exact ⟨hfunction f h.1, h.2⟩
    | builtin s => exact h
  | generator g => exact ⟨hgenerator g h.1, h.2⟩
  | type definition =>
    cases definition with
    | builtin tag => trivial
    | ofClass c => exact ⟨hclass c h.1, h.2⟩
  | _ => exact h

/-- Sound objects stay sound in a world in which as much may be called and run. -/
theorem SoundObject.imp {o : Object} (h : L.SoundObject w o) : L.SoundObject w' o :=
  ⟨h.kind.imp hfunction hclass hgenerator, fun name m hm => (h.member name m hm).imp hfunction⟩

end sound

theorem SoundKind.mono {w w' : L.World} (hw : L.le w w') {k : Kind} (h : L.SoundKind w k) :
    L.SoundKind w' k :=
  h.imp (fun _ => L.function_mono hw) (fun _ => L.classDef_mono hw) fun _ => L.generator_mono hw

theorem SoundObject.mono {w w' : L.World} (hw : L.le w w') {o : Object} (h : L.SoundObject w o) :
    L.SoundObject w' o :=
  h.imp (fun _ => L.function_mono hw) (fun _ => L.classDef_mono hw) fun _ => L.generator_mono hw

section good

variable {w : L.World} (hgood : ∀ v, L.good v) (hfunction : ∀ f, L.function w f)
  (hclass : ∀ c, L.classDef w c)

include hgood hfunction hclass

/-- Where every value is good and everything may be called, only the body of a generator and the
table of a Hash are at stake. -/
theorem SoundKind.of_good {k : Kind} (hgenerator : ∀ g, k = .generator g → L.generator w g)
    (htable : ∀ t, k = .hash t → L.table t) : L.SoundKind w k := by
  cases k with
  | tuple items => exact fun v _ => hgood v
  | array items => exact fun v _ => hgood v
  | hash t => exact ⟨htable t rfl, fun _ _ => ⟨hgood _, hgood _⟩⟩
  | iterator remaining delivered => exact ⟨fun v _ => hgood v, fun v _ => hgood v⟩
  | function f =>
    obtain ⟨callable, receiver⟩ := f
    cases callable with
    | code f => exact ⟨hfunction f, fun v _ => hgood v⟩
    | builtin s => exact fun v _ => hgood v
  | generator g => exact ⟨hgenerator g rfl, hgood _, fun v _ => hgood v⟩
  | type definition =>
    cases definition with
    | builtin tag => trivial
    | ofClass c => exact ⟨hclass c, fun v _ => hgood v⟩
  | object cls => exact hgood cls
  | _ => trivial

theorem SoundObject.of_good {o : Object} (hgenerator : ∀ g, o.kind = .generator g → L.generator w g)
    (htable : ∀ t, o.kind = .hash t → L.table t) : L.SoundObject w o := by
  refine ⟨.of_good hgood hfunction hclass hgenerator htable, fun name m _ => ?_⟩
  cases m with
  | value v => exact hgood v
  | method f => exact hfunction f
  | builtin s => trivial

end good

/-- Changes of the objects that keep good ones sound keep machines alike. -/
theorem Alike.setHeap {w : L.World} {m n : Machine} (h : L.Alike w m n) {heap : Heap}
    (hextends : m.heap.Extends heap)
    (hsound : ∀ v, L.good v → L.SoundObject w (heap.get v)) :
    L.Alike w { m with heap := heap } { n with heap := heap } where
  heap := rfl
  types := h.types
  sound := hsound
  fresh := fun v hv => h.fresh v (Nat.le_trans hextends.size hv)
  goodTypes := h.goodTypes
  rest := L.rest_heap hextends h.rest

/-! ## Agreement of computations -/

/-- The ends of two computations that agree. -/
def Matches {α : Type} (L : Likeness) (w : L.World) (post : L.World → α → Prop) :
    EStateM.Result Stop Machine α → EStateM.Result Stop Machine α → Prop
  | .error (.gaveUp _) _, _ => True
  | .ok a m, .ok b n => b = a ∧ ∃ w', L.le w w' ∧ post w' a ∧ L.Alike w' m n
  | .error (.failed f) m, .error (.failed g) n =>
    g = f ∧ L.admits f.cause ∧ ∃ w', L.le w w' ∧ L.Alike w' m n
  | _, _ => False

/-- Whenever the first computation ends, the second one ends in the same way. -/
def Agree {α : Type} (L : Likeness) (w : L.World) (x y : Run α) (post : L.World → α → Prop) :
    Prop :=
  ∀ m n, L.Alike w m n → L.Matches w post (x m) (y n)

section combinators

variable {α β : Type} {w : L.World}

/-- Computations whose ends match: the first one gave up, or both ended with one value, or both failed
in one way, on machines that are alike. -/
@[elab_as_elim]
theorem Matches.byEnds {post : L.World → α → Prop}
    {motive : EStateM.Result Stop Machine α → EStateM.Result Stop Machine α → Prop}
    {r s : EStateM.Result Stop Machine α} (h : L.Matches w post r s)
    (gaveUp : ∀ why m s, motive (.error (.gaveUp why) m) s)
    (ok : ∀ a m n w', L.le w w' → post w' a → L.Alike w' m n → motive (.ok a m) (.ok a n))
    (failed : ∀ f m n w', L.le w w' → L.admits f.cause → L.Alike w' m n →
      motive (.error (.failed f) m) (.error (.failed f) n)) :
    motive r s := by
  match r, s, h with
  | .error (.gaveUp why) m, s, _ => exact gaveUp why m s
  | .ok a m, .ok _ n, ⟨rfl, w', hw, ha, halike⟩ => exact ok a m n w' hw ha halike
  | .error (.failed f) m, .error (.failed _) n, ⟨rfl, hadmits, w', hw, halike⟩ =>
    exact failed f m n w' hw hadmits halike

theorem Matches.mono {w₀ : L.World} (hw : L.le w₀ w) {post post' : L.World → α → Prop}
    (hp : ∀ w' a, L.le w w' → post w' a → post' w' a)
    {r s : EStateM.Result Stop Machine α} (h : L.Matches w post r s) :
    L.Matches w₀ post' r s := by
  refine h.byEnds (fun _ _ _ => trivial) ?_ ?_
  · intro a m n w' hw' ha halike
    exact ⟨rfl, w', L.trans hw hw', hp w' a hw' ha, halike⟩
  · intro f m n w' hw' hadmits halike
    exact ⟨rfl, hadmits, w', L.trans hw hw', halike⟩

theorem Agree.mono {x y : Run α} {post post' : L.World → α → Prop} (h : L.Agree w x y post)
    (hp : ∀ w' a, L.le w w' → post w' a → post' w' a) : L.Agree w x y post' :=
  fun m n hmn => (h m n hmn).mono (L.refl w) hp

/-! The ends of the second computation, when the first one ends. -/

theorem Agree.ok {x y : Run α} {post : L.World → α → Prop} {m n m' : Machine} {a : α}
    (h : L.Agree w x y post) (hmn : L.Alike w m n) (hx : x m = .ok a m') :
    ∃ n' w', y n = .ok a n' ∧ L.le w w' ∧ post w' a ∧ L.Alike w' m' n' := by
  have hxy := h m n hmn
  rw [hx] at hxy
  generalize y n = s at hxy
  match s, hxy with
  | .ok _ n', ⟨rfl, w', hw, ha, halike⟩ => exact ⟨n', w', rfl, hw, ha, halike⟩

theorem Agree.failed {x y : Run α} {post : L.World → α → Prop} {m n m' : Machine} {f : Failure}
    (h : L.Agree w x y post) (hmn : L.Alike w m n) (hx : x m = .error (.failed f) m') :
    ∃ n' w', y n = .error (.failed f) n' ∧ L.le w w' ∧ L.admits f.cause ∧ L.Alike w' m' n' := by
  have hxy := h m n hmn
  rw [hx] at hxy
  generalize y n = s at hxy
  match s, hxy with
  | .error (.failed _) n', ⟨rfl, hcause, w', hw, halike⟩ => exact ⟨n', w', rfl, hw, hcause, halike⟩

/-- What is true of every value that a computation ends with is true of the common one. -/
theorem Agree.and_of_ok {x y : Run α} {post : L.World → α → Prop} {p : α → Prop}
    (h : L.Agree w x y post) (hp : ∀ m a m', x m = .ok a m' → p a) :
    L.Agree w x y fun w' a => post w' a ∧ p a := by
  intro m n hmn
  have hxy := h m n hmn
  have hends : ∀ a m', x m = .ok a m' → p a := hp m
  generalize x m = r at hxy hends ⊢
  generalize y n = s at hxy ⊢
  refine hxy.byEnds (fun _ _ _ _ => trivial) ?_ ?_ hends
  · intro a m' n' w' hw ha halike hends
    exact ⟨rfl, w', hw, ⟨ha, hends a m' rfl⟩, halike⟩
  · intro f m' n' w' hw hadmits halike _
    exact ⟨rfl, hadmits, w', hw, halike⟩

theorem Agree.pure {post : L.World → α → Prop} {a : α} (ha : post w a) :
    L.Agree w (pure a) (pure a) post :=
  fun _ _ hmn => ⟨rfl, w, L.refl w, ha, hmn⟩

/-- What goes on after computations whose ends match. -/
theorem Matches.bind {x y : Run α} {f g : α → Run β} {post : L.World → α → Prop}
    {post' : L.World → β → Prop} {m n : Machine} (h : L.Matches w post (x m) (y n))
    (hf : ∀ w' a, L.le w w' → post w' a → L.Agree w' (f a) (g a) post') :
    L.Matches w post' ((x >>= f) m) ((y >>= g) n) := by
  simp only [Bind.bind, EStateM.bind]
  refine h.byEnds (fun _ _ _ => trivial) ?_ ?_
  · intro a m' n' w' hw ha halike
    exact (hf w' a hw ha m' n' halike).mono hw fun _ _ _ hb => hb
  · intro f m' n' w' hw hadmits halike
    exact ⟨rfl, hadmits, w', hw, halike⟩

theorem Agree.bind {x y : Run α} {f g : α → Run β} {post : L.World → α → Prop}
    {post' : L.World → β → Prop} (hx : L.Agree w x y post)
    (hf : ∀ w' a, L.le w w' → post w' a → L.Agree w' (f a) (g a) post') :
    L.Agree w (x >>= f) (y >>= g) post' :=
  fun m n hmn => (hx m n hmn).bind hf

theorem Agree.map {x y : Run α} {f : α → β} {post : L.World → α → Prop}
    {post' : L.World → β → Prop} (hx : L.Agree w x y post)
    (hf : ∀ w' a, L.le w w' → post w' a → post' w' (f a)) :
    L.Agree w (f <$> x) (f <$> y) post' := by
  rw [map_eq_pure_bind, map_eq_pure_bind]
  exact hx.bind fun w' a hw ha => .pure (hf w' a hw ha)

theorem Agree.discard {x y : Run α} {post : L.World → α → Prop} (hx : L.Agree w x y post) :
    L.Agree w (discard x) (discard y) fun _ _ => True :=
  hx.map fun _ _ _ _ => trivial

theorem Agree.fail {post : L.World → α → Prop} {c : Cause} (hc : L.admits c) :
    L.Agree w (Run.fail c) (Run.fail c) post :=
  fun _ _ hmn => ⟨rfl, hc, w, L.refl w, hmn⟩

theorem Agree.giveUp {post : L.World → α → Prop} {y : Run α} : L.Agree w Run.giveUp y post :=
  fun _ _ _ => trivial

theorem Agree.read {p : L.World → α → Prop} {f : Machine → α}
    (hf : ∀ m n, L.Alike w m n → f n = f m ∧ p w (f m)) :
    L.Agree w (Run.read f) (Run.read f) p := by
  intro m n hmn
  obtain ⟨heq, hpost⟩ := hf m n hmn
  exact ⟨heq, w, L.refl w, hpost, hmn⟩

/-- Reading something off the objects. -/
theorem Agree.readHeap {f : Heap → α} :
    L.Agree w (Run.read fun m => f m.heap) (Run.read fun m => f m.heap) fun _ _ => True :=
  .read fun _ _ hmn => ⟨by rw [hmn.heap], trivial⟩

theorem Agree.located {x y : Run α} {post : L.World → α → Prop} (span : Span)
    (hx : L.Agree w x y post) : L.Agree w (Run.located span x) (Run.located span y) post := by
  intro m n hmn
  unfold Run.located
  refine (hx m n hmn).byEnds (fun _ _ _ => trivial) ?_ ?_
  · intro a m' n' w' hw ha halike
    exact ⟨rfl, w', hw, ha, halike⟩
  · intro f m' n' w' hw hadmits halike
    exact ⟨rfl, hadmits, w', hw, halike⟩

/-! ### What is known of the machine -/

/-- Agreement on machines of which something more is known. -/
def AgreeOn {α : Type} (L : Likeness) (known : Machine → Prop) (w : L.World) (x y : Run α)
    (post : L.World → α → Prop) : Prop :=
  ∀ m n, L.Alike w m n → known m → L.Matches w post (x m) (y n)

theorem Agree.on {known : Machine → Prop} {x y : Run α} {post : L.World → α → Prop}
    (h : L.Agree w x y post) : L.AgreeOn known w x y post :=
  fun m n hmn _ => h m n hmn

theorem AgreeOn.bind {known : Machine → Prop} {x y : Run α} {f g : α → Run β}
    {post : L.World → α → Prop} {post' : L.World → β → Prop} (hx : L.AgreeOn known w x y post)
    (hf : ∀ w' a, L.le w w' → post w' a → L.Agree w' (f a) (g a) post') :
    L.AgreeOn known w (x >>= f) (y >>= g) post' :=
  fun m n hmn hknown => (hx m n hmn hknown).bind hf

/-- What is known of a machine is known after something that leaves it as it is. -/
theorem AgreeOn.bind_reading {known : Machine → Prop} {x : Run α} {f g : α → Run β}
    {post : L.World → α → Prop} {post' : L.World → β → Prop} (hreading : x.IsReading)
    (hx : L.Agree w x x post)
    (hf : ∀ w' a, L.le w w' → post w' a → L.AgreeOn known w' (f a) (g a) post') :
    L.AgreeOn known w (x >>= f) (x >>= g) post' := by
  intro m n hmn hknown
  have hstays : ∀ a m', x m = .ok a m' → m' = m := by
    intro a m' hm
    rcases hreading m with ⟨b, hb⟩ | ⟨stop, hstop⟩
    · exact (EStateM.Result.ok.inj (hm.symm.trans hb)).2
    · exact nomatch hm.symm.trans hstop
  have h := hx m n hmn
  simp only [Bind.bind, EStateM.bind]
  generalize x m = r at h hstays ⊢
  generalize x n = s at h ⊢
  refine h.byEnds (fun _ _ _ _ => trivial) ?_ ?_ hstays
  · intro a m' n' w' hw ha halike hstays
    cases hstays a m' rfl
    exact (hf w' a hw ha m n' halike hknown).mono hw fun _ _ _ hb => hb
  · intro f m' n' w' hw hadmits halike _
    exact ⟨rfl, hadmits, w', hw, halike⟩

/-! ### Activations -/

/-- Bodies whose ends match, run as activations of a frame. The machines are to be alike when the
activations have ended. -/
theorem Matches.activation {w₀ : L.World} {id : FrameId} {x y : Run α}
    {post post' : L.World → α → Prop} {m n : Machine} (hdepth : n.depth = m.depth)
    (hlimit : n.config.maxCallDepth = m.config.maxCallDepth)
    (hadmits : L.admits (.callDepthExceeded m.config.maxCallDepth))
    (hfull : L.Alike w₀ { m with arena := m.arena.endActivation id }
      { n with arena := n.arena.endActivation id })
    (hbody : m.depth < m.config.maxCallDepth →
      L.Matches w post (x { m with callStack := m.callStack.push id })
        (y { n with callStack := n.callStack.push id }))
    (hended : ∀ w' k l, L.le w w' → L.Alike w' k l → ∃ w'', L.le w₀ w'' ∧
      (∀ a, post w' a → post' w'' a) ∧ L.Alike w'' (k.unwindTo m.depth) (l.unwindTo m.depth)) :
    L.Matches w₀ post' (Run.activation id x m) (Run.activation id y n) := by
  unfold Run.activation
  dsimp only
  rw [hdepth, hlimit]
  split
  · exact ⟨rfl, hadmits, w₀, L.refl w₀, hfull⟩
  · rename_i hroom
    refine (hbody (Nat.lt_of_not_le hroom)).byEnds (fun _ _ _ => trivial) ?_ ?_
    · intro a k l w' hw ha halike
      obtain ⟨w'', hw'', hpost, halike'⟩ := hended w' k l hw halike
      exact ⟨rfl, w'', hw'', hpost a ha, halike'⟩
    · intro f k l w' hw hcause halike
      obtain ⟨w'', hw'', -, halike'⟩ := hended w' k l hw halike
      exact ⟨rfl, hcause, w'', hw'', halike'⟩

/-- Code whose runs match, executed in the global frame. Resets after a failure are to keep machines
alike. -/
theorem Matches.executed {e e' : Engine} {code : Cursor} {post : L.World → Value → Prop}
    {m n : Machine}
    (hrun : L.Matches w (fun w' r => post w' r.1) (e.run m.globals code m) (e'.run n.globals code n))
    (hreset : ∀ w' k l, L.le w w' → L.Alike w' k l → ∃ w'', L.le w w'' ∧
      L.Alike w'' k.reset l.reset) :
    L.Matches w post (e.execute code m) (e'.execute code n) := by
  unfold Engine.execute
  refine hrun.byEnds (fun _ _ _ => trivial) ?_ ?_
  · intro r k l w' hw hpost halike
    exact ⟨rfl, w', hw, hpost, halike⟩
  · intro f k l w' hw hcause halike
    obtain ⟨w'', hw'', halike'⟩ := hreset w' k l hw halike
    exact ⟨rfl, hcause, w'', hw'', halike'⟩

/-! ### Loops over lists -/

theorem Agree.mapM {f g : α → Run β} {p : L.World → β → Prop} (hp : ∀ {w w' b},
    L.le w w' → p w b → p w' b) (items : List α)
    (hf : ∀ w' a, a ∈ items → L.le w w' → L.Agree w' (f a) (g a) p) :
    L.Agree w (items.mapM f) (items.mapM g) fun w' bs => ∀ b ∈ bs, p w' b := by
  induction items generalizing w with
  | nil => exact .pure (by simp)
  | cons a rest ih =>
    simp only [List.mapM_cons]
    refine (hf w a (by simp) (L.refl w)).bind fun w₁ b hw₁ hb => ?_
    refine (ih fun w' a' ha' hw' => hf w' a' (by simp [ha']) (L.trans hw₁ hw')).bind ?_
    intro w₂ bs hw₂ hbs
    refine .pure fun c hc => ?_
    rcases List.mem_cons.1 hc with rfl | hc
    · exact hp hw₂ hb
    · exact hbs c hc

theorem Agree.forM {f g : α → Run PUnit} (items : List α)
    (hf : ∀ w' a, a ∈ items → L.le w w' → L.Agree w' (f a) (g a) fun _ _ => True) :
    L.Agree w (items.forM f) (items.forM g) fun _ _ => True := by
  induction items generalizing w with
  | nil => exact .pure trivial
  | cons a rest ih =>
    refine (hf w a (by simp) (L.refl w)).bind fun w₁ _ hw₁ _ => ?_
    exact ih fun w' a' ha' hw' => hf w' a' (by simp [ha']) (L.trans hw₁ hw')

end combinators

end Likeness
end ScriptVM
