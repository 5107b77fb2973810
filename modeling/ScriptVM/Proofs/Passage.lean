import ScriptVM.Proofs.Code.Course
import ScriptVM.Proofs.Likeness
import ScriptVM.Proofs.Passage.Rename

/-!
# Passages from one machine to another

A `Passage` goes from one machine to another one on which the same objects may have other names. It
is a fixed renaming of values, together with what relates the two machines and their failures. Unlike
a `Likeness` it neither asks for the same heap nor tells good values from others.

`P.Carries x y r` says that `y` does on the second machine what `x` does on the first one: it ends in
the same way, with the renamed value, which is what `r` makes of a result, or with the renamed
failure, and the machines are related again. Where `x` gives up, `y` may stop in the ways that the
passage excuses; a passage that goes one way only says nothing of `y` then. A passage may bound the
number of objects; then nothing is said of computations that leave more of them behind. A passage of
a machine to itself is an invariant.
-/
namespace ScriptVM

/-- The stop of a computation that gives up for a reason. -/
def Cutoff.Stops (why : Cutoff) (stop : Stop) : Prop := stop = .gaveUp why

theorem Cutoff.stops (why : Cutoff) : why.Stops (.gaveUp why) := rfl

/-- A failure is no giving up, wherever it is placed. -/
theorem Cutoff.Stops.placedAt {why : Cutoff} {f : Failure} (span : Span) (h : why.Stops (.failed f)) :
    why.Stops (.failed (f.placedAt span)) := nomatch h

/-- How many objects there are. -/
def Machine.objectCount (m : Machine) : Nat := m.heap.objects.size

/-- The machine in which a computation stops. -/
def Run.after {α : Type} (x : Run α) (m : Machine) : Machine :=
  match x m with
  | .ok _ m' => m'
  | .error _ m' => m'

/-- A way from one machine to another. -/
structure Passage where
  /-- What a value is called on the second machine. -/
  value : Value → Value
  injective : ∀ {u v : Value}, value u = value v → u = v
  /-- Whether two machines correspond. -/
  rel : Machine → Machine → Prop
  /-- How a generator may change. -/
  becomes : Value → Generator → Generator → Prop
  becomes_refl : ∀ v g, becomes v g g
  becomes_framed : ∀ v g id, becomes v g { g with frame := some id }
  becomes_exhausted : ∀ v g, becomes v g { g with status := .exhausted }
  becomes_delivered : ∀ v g, becomes v g { g with buffered := none }
  /-- Which changes of objects are spoken of. -/
  allows : Object → Object → Prop
  allows_mild : ∀ {o o'}, o.Mild o' → allows o o'
  /-- Whether there may be so many objects. -/
  room : Nat → Prop
  room_of_le : ∀ {a b : Nat}, a ≤ b → room b → room a
  /-- How the second computation may stop where the first one gives up. -/
  excuses : Cutoff → Stop → Prop
  excuses_gaveUp : ∀ why, excuses why (.gaveUp why)
  excuses_placedAt : ∀ {why : Cutoff} {f : Failure} (span : Span), excuses why (.failed f) →
    excuses why (.failed (f.placedAt span))
  /-- Whether the second computation may do anything where the first one gives up. -/
  oneWay : Cutoff → Prop
  /-- Which failures correspond. -/
  fails : Failure → Failure → Prop
  fails_of : ∀ c : Cause, fails (.of c) (.of (c.rename value))
  kind_eq : ∀ {m n}, rel m n → ∀ v, n.heap.kind (value v) = (m.heap.kind v).rename value
  hash_eq : ∀ {m n}, rel m n → ∀ v, n.heap.hash? (value v) = m.heap.hash? v
  has_eq : ∀ {m n}, rel m n → ∀ v name, n.heap.has (value v) name = m.heap.has v name
  types_eq : ∀ {m n}, rel m n → ∀ name, n.types.get? name = (m.types.get? name).map value
  text_eq : ∀ {m n}, rel m n → ∀ quoted v,
    n.heap.textWithin n.heap.nestingBound quoted (value v) =
      m.heap.textWithin m.heap.nestingBound quoted v
  rel_alloc : ∀ {m n}, rel m n → room (m.objectCount + 1) → ∀ k : Kind, m.heap.Lends k →
    (n.heap.alloc (k.rename value)).1 = value (m.heap.alloc k).1 ∧
      rel { m with heap := (m.heap.alloc k).2 }
        { n with heap := (n.heap.alloc (k.rename value)).2 }
  rel_find : ∀ {m n}, rel m n → ∀ v name,
    (n.heap.find (value v) name).1 = (m.heap.find v name).1.map (Member.rename value) ∧
      rel { m with heap := (m.heap.find v name).2 }
        { n with heap := (n.heap.find (value v) name).2 }
  rel_setMember : ∀ {m n}, rel m n → ∀ v name (member : Member), (∀ s, member ≠ .builtin s) →
    rel { m with heap := m.heap.setMember v name member }
      { n with heap := n.heap.setMember (value v) name (member.rename value) }
  rel_setHash : ∀ {m n}, rel m n → ∀ v hash,
    allows (m.heap.get v) { m.heap.get v with hash := hash } →
    rel { m with heap := m.heap.setHash v hash } { n with heap := n.heap.setHash (value v) hash }
  rel_setKind : ∀ {m n}, rel m n → ∀ {v k},
    (∀ s, m.heap.kind v = .generator s → ∃ s', k = .generator s' ∧ becomes v s s') →
    allows (m.heap.get v) { m.heap.get v with kind := k } →
    rel { m with heap := m.heap.setKind v k }
      { n with heap := n.heap.setKind (value v) (k.rename value) }

/-- Failures still correspond when both of them take a place. -/
def Passage.Places (P : Passage) : Prop :=
  ∀ {f g : Failure} (span : Span), P.fails f g → P.fails (f.placedAt span) (g.placedAt span)

namespace Passage

/-- The ends of two computations, one of which carries over to the other. -/
inductive Matches {α β : Type} (P : Passage) (r : α → β) : Ending α → Ending β → Prop
  | ok (a : α) {m n : Machine} (hmn : P.rel m n) : Matches P r (.ok a m) (.ok (r a) n)
  | failed {f g : Failure} (hfg : P.fails f g) {m n : Machine} (hmn : P.rel m n) :
    Matches P r (.error (.failed f) m) (.error (.failed g) n)
  | gaveUp (m n : Machine) {why : Cutoff} {stop : Stop} (hstop : P.excuses why stop) :
    Matches P r (.error (.gaveUp why) m) (.error stop n)
  | unsaid (m : Machine) (t : Ending β) {why : Cutoff} (honeWay : P.oneWay why) :
    Matches P r (.error (.gaveUp why) m) t

/-- A computation carries over to another one on machines of which something is known. -/
structure CarriesWhen {α β : Type} (P : Passage) (known : Machine → Prop) (x : Run α) (y : Run β)
    (r : α → β) : Prop where
  grows : ∀ m, m.objectCount ≤ (x.after m).objectCount
  holds : ∀ m n, P.rel m n → known m → P.room (x.after m).objectCount → P.Matches r (x m) (y n)

/-- A computation carries over to another one. -/
abbrev Carries {α β : Type} (P : Passage) (x : Run α) (y : Run β) (r : α → β) : Prop :=
  P.CarriesWhen (fun _ => True) x y r

section combinators

variable {P : Passage} {α β γ δ : Type} {known : Machine → Prop} {x : Run α} {y : Run β}
  {r : α → β} {s : γ → δ} {f : α → Run γ} {g : β → Run δ}

theorem Carries.when (h : P.Carries x y r) : P.CarriesWhen known x y r :=
  ⟨h.grows, fun m n hmn _ => h.holds m n hmn trivial⟩

theorem Carries.pure {a : α} {b : β} (h : b = r a) : P.Carries (pure a) (pure b) r := by
  subst h
  exact ⟨fun _ => Nat.le_refl _, fun _ _ hmn _ _ => .ok a hmn⟩

theorem Carries.fail (c : Cause) :
    P.Carries (Run.fail c) (Run.fail (c.rename P.value)) r :=
  ⟨fun _ => Nat.le_refl _, fun _ _ hmn _ _ => .failed (P.fails_of c) hmn⟩

theorem Carries.giveUp : P.Carries Run.giveUp Run.giveUp r :=
  ⟨fun _ => Nat.le_refl _, fun m n _ _ _ => .gaveUp m n (P.excuses_gaveUp _)⟩

theorem Carries.read {f : Machine → α} {g : Machine → β} (h : ∀ m n, P.rel m n → g n = r (f m)) :
    P.Carries (Run.read f) (Run.read g) r := by
  refine ⟨fun _ => Nat.le_refl _, fun m n hmn _ _ => ?_⟩
  unfold Run.read
  rw [h m n hmn]
  exact .ok _ hmn

/-- Where a sequence of two computations stops. -/
theorem after_bind (m : Machine) :
    (x >>= f).after m = match x m with
      | .ok a m' => (f a).after m'
      | .error _ m' => m' := by
  unfold Run.after
  simp only [Bind.bind, EStateM.bind]
  cases x m <;> rfl

/-- What is done with a result, of which something may be known. -/
theorem CarriesWhen.bind_when {q : α → Machine → Prop} (hx : P.CarriesWhen known x y r)
    (hq : ∀ m n a m', P.rel m n → known m → x m = .ok a m' → q a m')
    (hf : ∀ a, P.CarriesWhen (q a) (f a) (g (r a)) s) :
    P.CarriesWhen known (x >>= f) (y >>= g) s := by
  constructor
  · intro m
    have hgrows := hx.grows m
    rw [after_bind]
    unfold Run.after at hgrows
    cases hm : x m with
    | ok a m' =>
      rw [hm] at hgrows
      exact Nat.le_trans hgrows ((hf a).grows m')
    | error stop m' =>
      rw [hm] at hgrows
      exact hgrows
  · intro m n hmn hknown hroom
    rw [after_bind] at hroom
    have hxy := hx.holds m n hmn hknown
    simp only [Bind.bind, EStateM.bind]
    unfold Run.after at hxy
    cases hm : x m with
    | ok a m' =>
      rw [hm] at hroom hxy
      generalize y n = t at hxy
      cases hxy (P.room_of_le ((hf a).grows m') hroom) with
      | ok _ hmn' => exact (hf a).holds _ _ hmn' (hq m n a m' hmn hknown hm) hroom
    | error stop m' =>
      rw [hm] at hroom hxy
      generalize y n = t at hxy
      cases hxy hroom with
      | failed hfg hmn' => exact .failed hfg hmn'
      | gaveUp _ n' hstop => exact .gaveUp m' n' hstop
      | unsaid _ _ honeWay => exact .unsaid m' _ honeWay

theorem CarriesWhen.bind (hx : P.CarriesWhen known x y r)
    (hf : ∀ a, P.Carries (f a) (g (r a)) s) : P.CarriesWhen known (x >>= f) (y >>= g) s :=
  hx.bind_when (fun _ _ _ _ _ _ _ => trivial) hf

/-- What is known of a machine is known after something that leaves it as it is. -/
theorem CarriesWhen.bind_reading (hreading : x.IsReading) (hx : P.Carries x y r)
    (hf : ∀ a, P.CarriesWhen known (f a) (g (r a)) s) :
    P.CarriesWhen known (x >>= f) (y >>= g) s := by
  constructor
  · intro m
    rw [after_bind]
    rcases hreading m with ⟨a, hm⟩ | ⟨stop, hm⟩
    · rw [hm]
      exact (hf a).grows m
    · exact Nat.le_of_eq (by rw [hm])
  · intro m n hmn hknown hroom
    rw [after_bind] at hroom
    have hxy := hx.holds m n hmn trivial
    simp only [Bind.bind, EStateM.bind]
    unfold Run.after at hxy
    rcases hreading m with ⟨a, hm⟩ | ⟨stop, hm⟩
    · rw [hm] at hroom hxy ⊢
      generalize y n = t at hxy
      cases hxy (P.room_of_le ((hf a).grows m) hroom) with
      | ok _ hmn' => exact (hf a).holds _ _ hmn' hknown hroom
    · rw [hm] at hroom hxy ⊢
      generalize y n = t at hxy
      cases hxy hroom with
      | failed hfg hmn' => exact .failed hfg hmn'
      | gaveUp _ n' hstop => exact .gaveUp m n' hstop
      | unsaid _ _ honeWay => exact .unsaid m _ honeWay

/-- What is done with something that was read, as long as nothing else happens. -/
theorem CarriesWhen.read_bind (r : α → β) {a : Machine → α} {b : Machine → β}
    (h : ∀ m n, P.rel m n → b n = r (a m))
    (hf : ∀ c, P.CarriesWhen (fun m => known m ∧ a m = c) (f c) (g (r c)) s) :
    P.CarriesWhen known (Run.read a >>= f) (Run.read b >>= g) s := by
  constructor
  · intro m
    exact (hf (a m)).grows m
  · intro m n hmn hknown hroom
    change P.Matches s (f (a m) m) (g (b n) n)
    rw [h m n hmn]
    exact (hf _).holds m n hmn ⟨hknown, rfl⟩ hroom

theorem Carries.read_bind (r : α → β) {a : Machine → α} {b : Machine → β}
    (h : ∀ m n, P.rel m n → b n = r (a m)) (hf : ∀ a, P.Carries (f a) (g (r a)) s) :
    P.Carries (Run.read a >>= f) (Run.read b >>= g) s :=
  (Carries.read h).bind hf

theorem Carries.map (hx : P.Carries x y r) {f : α → γ} {g : β → δ} (h : ∀ a, g (r a) = s (f a)) :
    P.Carries (f <$> x) (g <$> y) s := by
  rw [map_eq_pure_bind, map_eq_pure_bind]
  exact hx.bind fun a => .pure (h a)

theorem Carries.discard (hx : P.Carries x y r) : P.Carries (discard x) (discard y) id :=
  hx.map fun _ => rfl

/-- A change of the machine that adds no objects. -/
theorem Carries.modify {f g : Machine → Machine} (hsize : ∀ m, (f m).objectCount = m.objectCount)
    (h : ∀ m n, P.rel m n → P.rel (f m) (g n)) :
    P.Carries (modify f) (modify g) id :=
  ⟨fun m => Nat.le_of_eq (hsize m).symm, fun m n hmn _ _ => .ok () (h m n hmn)⟩

/-- A place is given to a failure after everything is done. -/
theorem after_located (span : Span) (m : Machine) : (Run.located span x).after m = x.after m := by
  unfold Run.after Run.located
  cases x m with
  | ok a m' => rfl
  | error stop m' => cases stop <;> rfl

theorem Carries.located (hplaces : P.Places) (span : Span) (hx : P.Carries x y r) :
    P.Carries (Run.located span x) (Run.located span y) r := by
  constructor
  · intro m
    rw [after_located]
    exact hx.grows m
  · intro m n hmn _ hroom
    rw [after_located] at hroom
    have hxy := hx.holds m n hmn trivial hroom
    unfold Run.located
    generalize x m = t at hxy
    generalize y n = u at hxy
    cases hxy with
    | ok a hmn' => exact .ok a hmn'
    | failed hfg hmn' => exact .failed (hplaces span hfg) hmn'
    | gaveUp m' n' hstop =>
      rename_i stop
      cases stop with
      | gaveUp => exact .gaveUp m' n' hstop
      | failed f => exact .gaveUp m' n' (P.excuses_placedAt span hstop)
    | unsaid m' _ honeWay => exact .unsaid m' _ honeWay

/-- A failure is caught on both sides, as long as the second computation only gives up where the
first one does. -/
theorem Carries.attempt (hstrict : ∀ why stop, P.excuses why stop → stop = .gaveUp why)
    (hx : P.Carries x y r) : P.Carries (Run.attempt x) (Run.attempt y) (Option.map r) := by
  have hafter : ∀ m, (Run.attempt x).after m = x.after m := by
    intro m
    unfold Run.after Run.attempt
    cases x m with
    | ok a m' => rfl
    | error stop m' => cases stop <;> rfl
  constructor
  · intro m
    rw [hafter]
    exact hx.grows m
  · intro m n hmn _ hroom
    rw [hafter] at hroom
    have hxy := hx.holds m n hmn trivial hroom
    unfold Run.attempt
    generalize x m = t at hxy
    generalize y n = u at hxy
    cases hxy with
    | ok a hmn' => exact .ok (some a) hmn'
    | failed _ hmn' => exact .ok none hmn'
    | gaveUp m' n' hstop =>
      cases hstrict _ _ hstop
      exact .gaveUp m' n' hstop
    | unsaid m' _ honeWay => exact .unsaid m' _ honeWay

/-! ### Loops over lists -/

theorem Carries.mapM {t : α → β} {f : α → Run γ} {g : β → Run δ} (items : List α)
    (h : ∀ a, P.Carries (f a) (g (t a)) s) :
    P.Carries (items.mapM f) ((items.map t).mapM g) (List.map s) := by
  induction items with
  | nil =>
    simp only [List.map_nil, List.mapM_nil]
    exact .pure rfl
  | cons a rest ih =>
    simp only [List.map_cons, List.mapM_cons]
    refine (h a).bind fun c => ?_
    exact ih.bind fun cs => .pure rfl

/-- The same list on both sides. -/
theorem Carries.mapM_same {f : α → Run γ} {g : α → Run δ} (items : List α)
    (h : ∀ a, P.Carries (f a) (g a) s) :
    P.Carries (items.mapM f) (items.mapM g) (List.map s) := by
  have hmap := Carries.mapM (t := id) items h
  rwa [List.map_id] at hmap

theorem Carries.forM {t : α → β} {f : α → Run PUnit} {g : β → Run PUnit} (items : List α)
    (h : ∀ a, P.Carries (f a) (g (t a)) id) :
    P.Carries (items.forM f) ((items.map t).forM g) id := by
  induction items with
  | nil => exact .pure rfl
  | cons a rest ih => exact (h a).bind fun _ => ih

theorem Carries.foldlM {t : α → β} {f : γ → α → Run γ} {g : γ → β → Run γ} (items : List α)
    (c : γ) (h : ∀ c a, P.Carries (f c a) (g c (t a)) id) :
    P.Carries (items.foldlM f c) ((items.map t).foldlM g c) id := by
  induction items generalizing c with
  | nil => exact .pure rfl
  | cons a rest ih =>
    simp only [List.map_cons, List.foldlM_cons]
    exact (h c a).bind fun c' => ih c'

end combinators

end Passage
end ScriptVM
