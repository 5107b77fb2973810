import ScriptVM.Proofs.Likeness.Objects

/-!
# What may be forgotten meanwhile

A `Likeness` never forgets: what is good stays good. Where frames are freed while something runs, that
is too much to ask. A `Fading` is a family of likenesses that follow on one another. While something is
called, a stage may come at which less is good; only what is held on to remains known.

`F.Later w x y post` says that `y` follows `x` from the world `w` to one that may be of a later stage:
started on machines that are alike, whenever `x` ends, `y` ends in the same way, and the machines are
alike again.
-/
namespace ScriptVM

/-- Likenesses that follow on one another. -/
structure Fading where
  /-- What distinguishes the likenesses. -/
  Stage : Type
  likeness : Stage → Likeness
  /-- What is known of what a reference leads to. -/
  knows : ∀ {s}, (likeness s).World → Reference → Prop
  knows_value : ∀ {s} {w : (likeness s).World} {v}, knows w (.value v) ↔ (likeness s).good v
  /-- What is held on to. -/
  held : ∀ {s}, (likeness s).World → Reference → Prop
  /-- The world in which something else is held on to as well. -/
  hold : ∀ {s}, (likeness s).World → List Reference → (likeness s).World
  held_hold : ∀ {s} {w : (likeness s).World} {refs r}, held w r ∨ r ∈ refs → held (hold w refs) r
  knows_hold : ∀ {s} {w : (likeness s).World} {refs r}, knows w r → knows (hold w refs) r
  sound_hold : ∀ {s} {w : (likeness s).World} {refs k}, (likeness s).SoundKind w k →
    (likeness s).SoundKind (hold w refs) k
  /-- Whether one world may follow on another one. -/
  past : ∀ {s s'}, (likeness s).World → (likeness s').World → Prop
  past_of_le : ∀ {s} {w w' : (likeness s).World}, (likeness s).le w w' → past w w'
  past_trans : ∀ {s s' s''} {a : (likeness s).World} {b : (likeness s').World}
    {c : (likeness s'').World}, past a b → past b c → past a c
  held_past : ∀ {s s'} {w : (likeness s).World} {w' : (likeness s').World} {r}, past w w' →
    held w r → held w' r
  knows_past : ∀ {s s'} {w : (likeness s).World} {w' : (likeness s').World} {r}, past w w' →
    held w r → knows w r → knows w' r
  knows_of_sound : ∀ {s} {w : (likeness s).World} {k r}, (likeness s).SoundKind w k →
    r ∈ k.references → knows w r
  /-- A payload stays sound while all that it refers to is known. -/
  sound_past : ∀ {s s'} {w : (likeness s).World} {w' : (likeness s').World} {k}, past w w' →
    (likeness s).SoundKind w k → (∀ r ∈ k.references, knows w' r) → (likeness s').SoundKind w' k

namespace Fading

variable {F : Fading} {s s' : F.Stage} {w : (F.likeness s).World} {w' : (F.likeness s').World}

/-- A program may come across the value. -/
abbrev Good (F : Fading) (s : F.Stage) (v : Value) : Prop := (F.likeness s).good v

/-- The value is good, and is held on to. -/
def Lasts (F : Fading) {s : F.Stage} (w : (F.likeness s).World) (v : Value) : Prop :=
  F.held w (.value v) ∧ F.Good s v

/-- What a payload refers to is known, and is held on to. -/
def LastingKind (F : Fading) {s : F.Stage} (w : (F.likeness s).World) (k : Kind) : Prop :=
  (F.likeness s).SoundKind w k ∧ ∀ r ∈ k.references, F.held w r

theorem past_refl (w : (F.likeness s).World) : F.past w w := F.past_of_le ((F.likeness s).refl w)

theorem knows_values {vs : List Value} (h : ∀ v ∈ vs, F.Good s v) :
    ∀ r ∈ vs.map Reference.value, F.knows w r := by
  simpa only [List.forall_mem_map, F.knows_value] using h

theorem Lasts.good {v : Value} (h : F.Lasts w v) : F.Good s v := h.2

theorem Lasts.past {v : Value} (h : F.Lasts w v) (hw : F.past w w') : F.Lasts w' v :=
  ⟨F.held_past hw h.1, F.knows_value.1 (F.knows_past hw h.1 (F.knows_value.2 h.2))⟩

theorem Lasts.le {v : Value} {w' : (F.likeness s).World} (h : F.Lasts w v)
    (hw : (F.likeness s).le w w') : F.Lasts w' v :=
  h.past (F.past_of_le hw)

theorem Lasts.hold {v : Value} (h : F.Lasts w v) (refs : List Reference) :
    F.Lasts (F.hold w refs) v :=
  ⟨F.held_hold (.inl h.1), h.2⟩

/-- What is held on to lasts. -/
theorem lasts_hold {refs : List Reference} {v : Value} (hv : F.Good s v) (hmem : .value v ∈ refs) :
    F.Lasts (F.hold w refs) v :=
  ⟨F.held_hold (.inr hmem), hv⟩

theorem lasts_hold_values {vs : List Value} (hvs : ∀ v ∈ vs, F.Good s v) :
    ∀ v ∈ vs, F.Lasts (F.hold w (vs.map .value)) v :=
  fun v hv => lasts_hold (hvs v hv) (List.mem_map_of_mem hv)

theorem LastingKind.past {k : Kind} (h : F.LastingKind w k) (hw : F.past w w') :
    F.LastingKind w' k :=
  ⟨F.sound_past hw h.1 fun r hr => F.knows_past hw (h.2 r hr) (F.knows_of_sound h.1 hr),
    fun r hr => F.held_past hw (h.2 r hr)⟩

theorem lastingKind_hold (refs : List Reference) {k : Kind} (hk : (F.likeness s).SoundKind w k)
    (hmem : ∀ r ∈ k.references, r ∈ refs) : F.LastingKind (F.hold w refs) k :=
  ⟨F.sound_hold hk, fun r hr => F.held_hold (.inr (hmem r hr))⟩

/-! ## Computations that follow on one another -/

variable {α β : Type} {x y : Run α} {f g : α → Run β} {post post' : F.Stage → α → Prop}
  {after : F.Stage → β → Prop}

/-- The ends of two computations of which one follows the other. -/
def Ends (F : Fading) {s : F.Stage} (w : (F.likeness s).World) (post : F.Stage → α → Prop) :
    EStateM.Result Stop Machine α → EStateM.Result Stop Machine α → Prop
  | .error (.gaveUp _) _, _ => True
  | .ok a m, .ok b n => b = a ∧ ∃ (s' : F.Stage) (w' : (F.likeness s').World), F.past w w' ∧
    post s' a ∧ (F.likeness s').Alike w' m n
  | .error (.failed f) m, .error (.failed g) n => g = f ∧ ∃ (s' : F.Stage)
    (w' : (F.likeness s').World), F.past w w' ∧ (F.likeness s').admits f.cause ∧
    (F.likeness s').Alike w' m n
  | _, _ => False

/-- Whenever the first computation ends, the second one ends in the same way. -/
def Later (F : Fading) {s : F.Stage} (w : (F.likeness s).World) (x y : Run α)
    (post : F.Stage → α → Prop) : Prop :=
  ∀ m n, (F.likeness s).Alike w m n → F.Ends w post (x m) (y n)

@[elab_as_elim]
theorem Ends.byEnds {motive : EStateM.Result Stop Machine α → EStateM.Result Stop Machine α → Prop}
    {r t : EStateM.Result Stop Machine α} (h : F.Ends w post r t)
    (gaveUp : ∀ why m t, motive (.error (.gaveUp why) m) t)
    (ok : ∀ a m n (s' : F.Stage) (w' : (F.likeness s').World), F.past w w' → post s' a →
      (F.likeness s').Alike w' m n → motive (.ok a m) (.ok a n))
    (failed : ∀ f m n (s' : F.Stage) (w' : (F.likeness s').World), F.past w w' →
      (F.likeness s').admits f.cause → (F.likeness s').Alike w' m n →
      motive (.error (.failed f) m) (.error (.failed f) n)) :
    motive r t := by
  match r, t, h with
  | .error (.gaveUp why) m, t, _ => exact gaveUp why m t
  | .ok a m, .ok _ n, ⟨rfl, s', w', hw, ha, halike⟩ => exact ok a m n s' w' hw ha halike
  | .error (.failed f) m, .error (.failed _) n, ⟨rfl, s', w', hw, hadmits, halike⟩ =>
    exact failed f m n s' w' hw hadmits halike

theorem Ends.mono (hw : F.past w w') (hpost : ∀ s a, post s a → post' s a)
    {r t : EStateM.Result Stop Machine α} (h : F.Ends w' post r t) : F.Ends w post' r t := by
  refine h.byEnds (fun _ _ _ => trivial) ?_ ?_
  · intro a m n s₁ w₁ hw₁ ha halike
    exact ⟨rfl, s₁, w₁, F.past_trans hw hw₁, hpost s₁ a ha, halike⟩
  · intro f m n s₁ w₁ hw₁ hadmits halike
    exact ⟨rfl, s₁, w₁, F.past_trans hw hw₁, hadmits, halike⟩

theorem Later.mono (h : F.Later w x y post) (hpost : ∀ s a, post s a → post' s a) :
    F.Later w x y post' :=
  fun m n hmn => (h m n hmn).mono (past_refl w) hpost

/-- Computations on machines of which something more is known. -/
def LaterOn (F : Fading) (known : Machine → Prop) {s : F.Stage} (w : (F.likeness s).World)
    (x y : Run α) (post : F.Stage → α → Prop) : Prop :=
  ∀ m n, (F.likeness s).Alike w m n → known m → F.Ends w post (x m) (y n)

theorem Later.on {known : Machine → Prop} (h : F.Later w x y post) : F.LaterOn known w x y post :=
  fun m n hmn _ => h m n hmn

theorem Later.bind (hx : F.Later w x y post)
    (hf : ∀ (s' : F.Stage) (w' : (F.likeness s').World) a, F.past w w' → post s' a →
      F.Later w' (f a) (g a) after) :
    F.Later w (x >>= f) (y >>= g) after := by
  intro m n hmn
  simp only [Bind.bind, EStateM.bind]
  refine (hx m n hmn).byEnds (fun _ _ _ => trivial) ?_ ?_
  · intro a m' n' s' w' hw ha halike
    exact (hf s' w' a hw ha m' n' halike).mono hw fun _ _ hb => hb
  · intro f m' n' s' w' hw hadmits halike
    exact ⟨rfl, s', w', hw, hadmits, halike⟩

theorem Later.pure {a : α} (ha : post s a) : F.Later w (pure a) (pure a) post :=
  fun _ _ hmn => ⟨rfl, s, w, past_refl w, ha, hmn⟩

theorem Later.fail {c : Cause} (hc : (F.likeness s).admits c) :
    F.Later w (Run.fail c) (Run.fail c) post :=
  fun _ _ hmn => ⟨rfl, s, w, past_refl w, hc, hmn⟩

theorem Later.failOrdinary {c : Cause} (hc : c.isOrdinary = true) :
    F.Later w (Run.fail c) (Run.fail c) post :=
  .fail ((F.likeness s).admits_ordinary hc)

theorem Later.giveUp : F.Later w Run.giveUp y post := fun _ _ _ => trivial

theorem Later.discard {known : F.Stage → PUnit → Prop} (hx : F.Later w x y post)
    (hknown : ∀ s a, post s a → known s ⟨⟩) : F.Later w (discard x) (discard y) known := by
  change F.Later w ((fun _ => PUnit.unit) <$> x) ((fun _ => PUnit.unit) <$> y) _
  rw [map_eq_pure_bind, map_eq_pure_bind]
  exact hx.bind fun s _ a _ ha => .pure (hknown s a ha)

theorem Later.attempt (hx : F.Later w x y post) :
    F.Later w (Run.attempt x) (Run.attempt y) fun s r => ∀ a ∈ r, post s a := by
  intro m n hmn
  unfold Run.attempt
  refine (hx m n hmn).byEnds (fun _ _ _ => trivial) ?_ ?_
  · intro a m' n' s' w' hw ha halike
    exact ⟨rfl, s', w', hw, by simpa using ha, halike⟩
  · intro f m' n' s' w' hw _ halike
    exact ⟨rfl, s', w', hw, by simp, halike⟩

theorem Later.located (span : Span) (hx : F.Later w x y post) :
    F.Later w (Run.located span x) (Run.located span y) post := by
  intro m n hmn
  unfold Run.located
  refine (hx m n hmn).byEnds (fun _ _ _ => trivial) ?_ ?_
  · intro a m' n' s' w' hw ha halike
    exact ⟨rfl, s', w', hw, ha, halike⟩
  · intro f m' n' s' w' hw hadmits halike
    exact ⟨rfl, s', w', hw, hadmits, halike⟩

/-! ### Loops over lists -/

theorem Later.mapM {f g : α → Run β} (items : List α)
    (hf : ∀ {s' : F.Stage} {w' : (F.likeness s').World} a, a ∈ items → F.past w w' →
      F.Later w' (f a) (g a) fun _ _ => True) :
    F.Later w (items.mapM f) (items.mapM g) fun _ _ => True := by
  induction items generalizing s w with
  | nil => exact .pure trivial
  | cons a rest ih =>
    simp only [List.mapM_cons]
    refine (hf a (by simp) (past_refl w)).bind fun s₁ w₁ _ hw₁ _ => ?_
    refine (ih fun a' ha' hw' => hf a' (by simp [ha']) (F.past_trans hw₁ hw')).bind ?_
    exact fun _ _ _ _ _ => .pure trivial

theorem Later.forM {f g : α → Run PUnit} (items : List α)
    (hf : ∀ {s' : F.Stage} {w' : (F.likeness s').World} a, a ∈ items → F.past w w' →
      F.Later w' (f a) (g a) fun _ _ => True) :
    F.Later w (items.forM f) (items.forM g) fun _ _ => True := by
  induction items generalizing s w with
  | nil => exact .pure trivial
  | cons a rest ih =>
    refine (hf a (by simp) (past_refl w)).bind fun s₁ w₁ _ hw₁ _ => ?_
    exact ih fun a' ha' hw' => hf a' (by simp [ha']) (F.past_trans hw₁ hw')

theorem Later.foldlM {f g : β → α → Run β} (items : List α) (b : β)
    (hf : ∀ {s' : F.Stage} {w' : (F.likeness s').World} b a, a ∈ items → F.past w w' →
      F.Later w' (f b a) (g b a) fun _ _ => True) :
    F.Later w (items.foldlM f b) (items.foldlM g b) fun _ _ => True := by
  induction items generalizing s w b with
  | nil => exact .pure trivial
  | cons a rest ih =>
    simp only [List.foldlM_cons]
    refine (hf b a (by simp) (past_refl w)).bind fun s₁ w₁ b' hw₁ _ => ?_
    exact ih b' fun b a' ha' hw' => hf b a' (by simp [ha']) (F.past_trans hw₁ hw')

end Fading

/-! ## Computations that forget nothing -/

namespace Likeness

open Fading

variable {F : Fading} {s : F.Stage} {w : (F.likeness s).World} {α β : Type} {x y : Run α}
  {f g : α → Run β} {known : (F.likeness s).World → α → Prop} {after : F.Stage → β → Prop}

/-- What goes on after a computation that forgets nothing. -/
theorem AgreeOn.bindLater {on : Machine → Prop} (hx : (F.likeness s).AgreeOn on w x y known)
    (hf : ∀ w' a, (F.likeness s).le w w' → known w' a → F.Later w' (f a) (g a) after) :
    F.LaterOn on w (x >>= f) (y >>= g) after := by
  intro m n hmn hon
  simp only [Bind.bind, EStateM.bind]
  refine (hx m n hmn hon).byEnds (fun _ _ _ => trivial) ?_ ?_
  · intro a m' n' w' hw ha halike
    exact (hf w' a hw ha m' n' halike).mono (F.past_of_le hw) fun _ _ hb => hb
  · intro f m' n' w' hw hadmits halike
    exact ⟨rfl, s, w', F.past_of_le hw, hadmits, halike⟩

theorem Agree.bindLater (hx : (F.likeness s).Agree w x y known)
    (hf : ∀ w' a, (F.likeness s).le w w' → known w' a → F.Later w' (f a) (g a) after) :
    F.Later w (x >>= f) (y >>= g) after := by
  have hon : (F.likeness s).AgreeOn (fun _ => True) w x y known := hx.on
  exact fun m n hmn => hon.bindLater hf m n hmn trivial

theorem Agree.later {post : F.Stage → α → Prop}
    (hx : (F.likeness s).Agree w x y fun _ a => post s a) : F.Later w x y post := by
  rw [← bind_pure x, ← bind_pure y]
  exact hx.bindLater fun _ _ _ ha => .pure ha

theorem AgreeOn.later {on : Machine → Prop} {post : F.Stage → α → Prop}
    (hx : (F.likeness s).AgreeOn on w x y fun _ a => post s a) : F.LaterOn on w x y post := by
  rw [← bind_pure x, ← bind_pure y]
  exact hx.bindLater fun _ _ _ ha => .pure ha

/-- What is done with the payload of a value, as long as nothing else happens. -/
theorem later_kindOf_bind {v : Value} {f g : Kind → Run β} (hv : F.Good s v)
    (hf : ∀ k, (F.likeness s).SoundKind w k →
      F.LaterOn (fun m => m.heap.kind v = k) w (f k) (g k) after) :
    F.Later w (Run.kindOf v >>= f) (Run.kindOf v >>= g) after := by
  intro m n hmn
  have hkind : n.heap.kind v = m.heap.kind v := by rw [hmn.heap]
  change F.Ends w after (f (m.heap.kind v) m) (g (n.heap.kind v) n)
  rw [hkind]
  exact hf _ (hmn.soundKind hv) m n hmn rfl

end Likeness

/-! ## Likenesses that never fade -/

/-- Payloads refer to good values. -/
theorem Likeness.SoundKind.good_of_mem {L : Likeness} {w : L.World} {k : Kind} {v : Value}
    (h : L.SoundKind w k) (hv : .value v ∈ k.references) : L.good v := by
  cases k with
  | tuple items | array items =>
    obtain ⟨_, hu, he⟩ := List.mem_map.1 hv
    cases he
    exact h v hu
  | hash table =>
    obtain ⟨entry, hentry, hmem⟩ := List.mem_flatMap.1 hv
    rcases List.mem_cons.1 hmem with he | hmem
    · cases he
      exact (h.2 entry hentry).1
    · cases List.mem_singleton.1 hmem
      exact (h.2 entry hentry).2
  | iterator remaining delivered =>
    obtain ⟨_, hu, he⟩ := List.mem_map.1 hv
    cases he
    rcases List.mem_append.1 hu with hu | hu
    · exact h.2 v (List.mem_reverse.1 hu)
    · exact h.1 v hu
  | function f =>
    obtain ⟨callable, receiver⟩ := f
    have hreceiver : ∀ u ∈ receiver, L.good u := by
      cases callable with
      | code f => exact h.2
      | builtin s => exact h
    rcases List.mem_append.1 hv with hv | hv
    · cases callable with
      | code f => cases List.mem_singleton.1 hv
      | builtin s => cases hv
    · obtain ⟨u, hu, he⟩ := List.mem_map.1 hv
      cases he
      exact hreceiver v (Option.mem_toList.1 hu)
  | generator g =>
    rcases List.mem_append.1 hv with hv | hv
    · rcases List.mem_cons.1 hv with he | hv
      · cases he
        exact h.2.1
      · obtain ⟨u, hu, he⟩ := List.mem_map.1 hv
        cases he
        exact h.2.2 v (Option.mem_toList.1 hu)
    · rcases List.mem_cons.1 hv with he | hv
      · cases he
      · obtain ⟨u, hu, he⟩ := List.mem_map.1 hv
        cases he
  | type definition =>
    cases definition with
    | builtin tag => cases hv
    | ofClass c =>
      rcases List.mem_append.1 hv with hv | hv
      · obtain ⟨u, hu, he⟩ := List.mem_map.1 hv
        cases he
        exact h.2 v hu
      · cases List.mem_singleton.1 hv
  | object cls =>
    cases List.mem_singleton.1 hv
    exact h
  | _ => cases hv

/-- A likeness of its own, along which nothing is ever forgotten. -/
def Fading.steady (L : Likeness) : Fading where
  Stage := Unit
  likeness _ := L
  knows _ r := ∀ v, r = .value v → L.good v
  knows_value := ⟨fun h => h _ rfl, fun h _ he => Reference.value.inj he ▸ h⟩
  held _ _ := True
  hold w _ := w
  held_hold _ := trivial
  knows_hold h := h
  sound_hold h := h
  past w w' := L.le w w'
  past_of_le h := h
  past_trans := L.trans
  held_past _ _ := trivial
  knows_past _ _ h := h
  knows_of_sound h hr _ he := h.good_of_mem (he ▸ hr)
  sound_past hw h _ := h.mono hw

namespace Likeness

open Fading

variable {L : Likeness} {w : L.World} {α : Type} {x y : Run α}

/-- Along a likeness that never fades, to follow is to agree. -/
theorem later_steady {post : Unit → α → Prop} :
    (Fading.steady L).Later (s := ()) w x y post ↔ L.Agree w x y fun _ a => post () a := by
  constructor
  · intro h m n hmn
    refine (h m n hmn).byEnds (fun _ _ _ => trivial) ?_ ?_
    · intro a m' n' _ w' hw ha halike
      exact ⟨rfl, w', hw, ha, halike⟩
    · intro f m' n' _ w' hw hadmits halike
      exact ⟨rfl, hadmits, w', hw, halike⟩
  · intro h
    exact Agree.later (F := Fading.steady L) (s := ()) h

theorem lasts_steady {v : Value} (hv : L.good v) : (Fading.steady L).Lasts (s := ()) w v :=
  ⟨trivial, hv⟩

end Likeness
end ScriptVM
