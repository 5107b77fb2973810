import Mathlib.Logic.Relation
import ScriptVM.Proofs.Collection.Orderly

/-!
# Cycles of objects

An object on a cycle of objects is referred to for as long as the cycle exists, and the cycle exists
for as long as its objects are referred to. So it exists for ever, whatever is let go, and so does
everything that it leads to: settling frees no frame that it leads to, since something else that it
leads to always refers to the frame.
-/
namespace ScriptVM

open Relation (ReflTransGen TransGen)

/-- An object refers to another one. -/
def Heap.Links (h : Heap) (u v : Value) : Prop := .value v ∈ (h.get u).references

namespace Holding

/-- An object or a live frame refers to a target. -/
def Refers (s : Holding) (x y : Target) : Prop := ∃ r ∈ s.referents x, r.target = y

/-- A target can be reached from another one. -/
def Leads (s : Holding) : Target → Target → Prop := ReflTransGen s.Refers

/-- An object on a cycle of objects that no live frame leads to. -/
structure Lost (s : Holding) (v : Value) : Prop where
  cycle : TransGen s.heap.Links v v
  away : ∀ id, s.arena.isLive id = true → ¬s.Leads (.frame id) (.object v)

/-- What can be reached from running activations, from what the owner keeps, or from lost cycles. -/
def Anchored (s : Holding) (x : Target) : Prop :=
  s.Rooted x ∨ ∃ v, s.Lost v ∧ s.Leads (.object v) x

variable {s : Holding} {x y z : Target} {u v : Value} {id : FrameId} {f : Frame}

theorem Rooted.step (hx : s.Rooted x) (hxy : s.Refers x y) : s.Rooted y := by
  obtain ⟨r, hr, rfl⟩ := hxy
  exact hx.refers hr

theorem Anchored.step (hx : s.Anchored x) (hxy : s.Refers x y) : s.Anchored y := by
  rcases hx with hx | ⟨v, hv, hlead⟩
  · exact .inl (hx.step hxy)
  · exact .inr ⟨v, hv, hlead.tail hxy⟩

theorem refers_of_links (h : s.heap.Links u v) : s.Refers (.object u) (.object v) :=
  ⟨.value v, h, rfl⟩

theorem links_of_refers (h : s.Refers (.object u) (.object v)) : s.heap.Links u v := by
  obtain ⟨r, hr, hv⟩ := h
  cases r with
  | value w =>
    cases hv
    exact hr
  | code scope => cases hv
  | frame id => cases hv

/-- A frame that refers to something is live. -/
theorem isLive_of_refers (h : s.Refers (.frame id) x) : s.arena.isLive id = true := by
  obtain ⟨r, hr, -⟩ := h
  rw [referents] at hr
  cases hf : s.arena.get? id with
  | none =>
    rw [hf] at hr
    cases hr
  | some f => exact Arena.isLive_of_get? hf

/-! ## What exists -/

/-- Whatever exists refers to what exists, as far as it refers to something itself. -/
theorem Sound.exists_of_refers (hs : s.Sound) (hx : s.Exists x) (hxy : s.Refers x y)
    (hyz : s.Refers y z) : s.Exists y := by
  obtain ⟨q, hq, hqz⟩ := hyz
  cases y with
  | object v =>
    obtain ⟨r, hr, hv⟩ := hxy
    exact hs.exists_of_referent hx hr hv (within_of_referents hq)
  | frame id => exact isLive_of_refers ⟨q, hq, hqz⟩

theorem Sound.exists_of_leads (hs : s.Sound) (hx : s.Exists x) (hxy : s.Leads x y)
    (hyz : s.Refers y z) : s.Exists y := by
  induction hxy generalizing z with
  | refl => exact hx
  | tail _ hstep ih => exact hs.exists_of_refers (ih hstep) hstep hyz

end Holding

/-! ## Cycles exist -/

namespace Tally

variable {t : Tally} {h : Heap} {others : List Reference} {v : Value}

theorem Balanced.has_letGoEach {alive : Value → Prop} {deaths : Nat} (indices : List Nat)
    (ht : t.Balanced h (indices.map (fun i => .value ⟨i⟩) ++ others) [])
    (hdeaths : h.objects.size < deaths) (halive : ∀ v, alive v → t.has v = true)
    (hback : ∀ t' : Tally, (∀ v, alive v → t'.has v = true) →
      ∀ v, alive v → 0 < t'.demand h (.object v)) :
    ∀ v, alive v → (indices.foldl (fun t i => t.letGo h deaths [.value ⟨i⟩]) t).has v = true := by
  induction indices generalizing t with
  | nil => exact halive
  | cons i rest ih =>
    have hexisting : t.existing < deaths := Nat.lt_of_le_of_lt t.existing_le (ht.size ▸ hdeaths)
    have hcovers : t.Covers h ([.value ⟨i⟩] ++ (rest.map (fun i => .value ⟨i⟩) ++ others)) :=
      ht.covers
    exact ih (Balanced.letGo ht hexisting) (hcovers.has_letGo deaths halive fun t' _ => hback t')

/-- In a tally that is made afresh, the objects on cycles exist. -/
theorem has_ofState (a : Arena) (kept : List Reference) (hv : TransGen h.Links v v) :
    (ofState a h kept).has v = true := by
  let alive : Value → Prop := fun v => TransGen h.Links v v
  have hwithin : ∀ v, alive v → v.address < h.objects.size := by
    intro v hv
    obtain ⟨u, hu, -⟩ := TransGen.head'_iff.1 hv
    refine Nat.lt_of_not_le fun hle => ?_
    have hget : h.get v = default := by simp [Heap.get, hle]
    rw [Heap.Links, hget] at hu
    cases hu
  have halive : ∀ v, alive v → (noted a h kept).has v = true := by
    intro v hv
    have htracked := tracked_noted_object a kept (hwithin v hv)
    rw [tracked_object ((size_counts_noted a kept).symm ▸ hwithin v hv), Option.some.injEq] at htracked
    exact has_of_pos (by omega)
  have hback : ∀ t' : Tally, (∀ v, alive v → t'.has v = true) →
      ∀ v, alive v → 0 < t'.demand h (.object v) := by
    intro t' hall v hv
    -- What comes before the object on the cycle is on the cycle, too.
    obtain ⟨u, hvu, huv⟩ := TransGen.tail'_iff.1 hv
    have hu : alive u := TransGen.head'_iff.2 ⟨v, huv, hvu⟩
    have hle := Heap.hits_le_demand (p := t'.has) (hwithin u hu) (hall u hu) (.object v)
    have hpos : 0 < hits (.object v) (h.get u).parts := by
      rw [← Object.hits_references]
      exact hits_pos (r := .value v) huv
    rw [demand]
    omega
  have heach := (balanced_noted (h := h) a kept).has_letGoEach (List.range h.objects.size)
    (Nat.lt_succ_self _) halive hback
  rw [ofState_eq]
  exact heach v hv

end Tally

/-! ## What keeps itself in existence -/

namespace Holding

variable {s : Holding} {x y : Target} {v : Value} {id : FrameId} {f : Frame} {gone : List FrameId}
  {held : Target → Prop}

/-- Some targets that exist, each of which is referred to by one of them. -/
structure Backed (s : Holding) (held : Target → Prop) : Prop where
  exist : ∀ x, held x → s.Exists x
  back : ∀ x, held x → ∃ y, held y ∧ s.Refers y x

/-- What refers to such a target exists. -/
theorem Backed.standing_pos (h : s.Backed held) (hx : held x) : 0 < s.standing x := by
  obtain ⟨y, hy, r, hr, rfl⟩ := h.back x hx
  exact Nat.lt_of_lt_of_le (hits_pos hr) (hits_le_standing (h.exist y hy) r.target)

/-- Freeing other frames leaves them in existence. -/
theorem Backed.free (h : s.Backed held) (hs : s.Sound) (hnodup : gone.Nodup)
    (hgone : ∀ id ∈ gone, ¬held (.frame id)) : (s.free gone).Backed held := by
  have hcovers : (s.toTally.mapArena fun a => a.freeAll gone).Covers s.heap
      ((gone.filterMap s.arena.get?).flatMap Frame.parts ++ s.kept) := hs.covers.freeAll hnodup
  -- The frames among them are left, with all that they refer to.
  have hframe : ∀ t' : Tally, (s.arena.freeAll gone).SameButHolders t'.arena → ∀ id,
      held (.frame id) → (t'.arena.get? id).map Frame.references =
        (s.arena.get? id).map Frame.references := by
    intro t' hsame id hid
    rw [hsame.map (fun _ => rfl), Arena.get?_freeAll, if_neg fun hmem => hgone id hmem hid,
      Option.map_map]
    rfl
  have hbacked : ∀ t' : Tally, (s.arena.freeAll gone).SameButHolders t'.arena →
      (∀ v, held (.object v) → t'.has v = true) →
      Backed ⟨t', s.heap, s.frames, s.values⟩ held := by
    intro t' hsame hhas
    refine ⟨fun x hx => ?_, fun x hx => ?_⟩
    · cases x with
      | object v => exact hhas v hx
      | frame id =>
        have hlive : s.arena.isLive id = true := h.exist _ hx
        have hreferences := hframe t' hsame id hx
        change (t'.arena.get? id).isSome = true
        rw [← Option.isSome_map (f := Frame.references), hreferences, Option.isSome_map]
        exact hlive
    · obtain ⟨y, hy, r, hr, hrx⟩ := h.back x hx
      refine ⟨y, hy, r, ?_, hrx⟩
      cases y with
      | object v => exact hr
      | frame id =>
        have hreferences := hframe t' hsame id hy
        have hsame : ∀ a : Arena, (a.get? id).elim [] Frame.references =
            ((a.get? id).map Frame.references).getD [] := fun a => by cases a.get? id <;> rfl
        rw [referents, hsame] at hr ⊢
        change r ∈ ((t'.arena.get? id).map Frame.references).getD []
        rwa [hreferences]
  have halive : ∀ v, held (.object v) → (s.free gone).has v = true := by
    refine hcovers.has_letGo _ (fun v hv => h.exist _ hv) fun t' hsame hhas v hv => ?_
    have hpos := (hbacked t' hsame hhas).standing_pos hv
    rwa [standing_object] at hpos
  exact hbacked _ (s.sameBut_free gone) halive

/-- Settling never frees such a frame, for something refers to it. -/
theorem steady_backed (held : Target → Prop) : Steady fun s => s.Sound ∧ s.Backed held where
  sound h := h.1
  free := by
    intro s id f h hf hheld
    obtain ⟨hs, hbacked⟩ := h
    have hstays : ¬held (.frame id) := fun hid => by
      have hpos := hbacked.standing_pos hid
      have hbound := hs.held hf
      omega
    refine ⟨((persistent_shrinks s).steady.free (.refl hs) hf hheld).sound,
      hbacked.free hs (List.nodup_singleton id) fun other hother => ?_⟩
    rwa [List.mem_singleton.1 hother]
  take h := ⟨(shrinks_takeDropped h.1).sound, h.2.exist, h.2.back⟩

/-- What an object on a cycle leads to, as far as it exists. -/
theorem backed_of_cycle (hs : s.Sound) (hv : s.has v = true) (hcycle : TransGen s.heap.Links v v) :
    s.Backed fun x => s.Exists x ∧ s.Leads (.object v) x := by
  refine ⟨fun x hx => hx.1, fun x hx => ?_⟩
  have hlinks : ∀ {u w}, ReflTransGen s.heap.Links u w → s.Leads (.object u) (.object w) :=
    fun huw => ReflTransGen.lift Target.object (fun _ _ => refers_of_links) _ _ huw
  obtain ⟨y, hy, hyx⟩ : ∃ y, s.Leads (.object v) y ∧ s.Refers y x := by
    rcases ReflTransGen.cases_tail hx.2 with rfl | ⟨y, hy, hyx⟩
    · obtain ⟨u, hvu, huv⟩ := TransGen.tail'_iff.1 hcycle
      exact ⟨.object u, hlinks hvu, refers_of_links huv⟩
    · exact ⟨y, hy, hyx⟩
  exact ⟨y, ⟨hs.exists_of_leads (x := .object v) hv hy hyx, hy⟩, hyx⟩

end Holding
end ScriptVM
