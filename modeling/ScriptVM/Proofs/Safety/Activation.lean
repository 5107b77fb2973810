import ScriptVM.Proofs.Safety.Move

/-!
# Activations in guarded machines

How a frame gets one more activation, at the end of which everything known of the frame before is
true again. Only the global frame never gets another activation.
-/
namespace ScriptVM

namespace Machine.Guarded

variable {w : Watch} {m : Machine} {id : FrameId} {n : Nat} {outer : List Nat}

/-- What is known of a frame without its innermost activation. -/
theorem weaken (h : m.Guarded (w.set id (n :: outer))) (hid : id ≠ w.root) :
    m.Guarded (w.set id outer) := by
  have hguards := h.guards
  refine h.change ⟨hguards.calls, hguards.root, ?_, ?_, fun other f hf => ?_, hguards.generator⟩ rfl
    (fun _ hkept => hkept) rfl
  · have hrooted := hguards.rooted
    change (w.set id outer).depths w.root ≠ []
    change (w.set id (n :: outer)).depths w.root ≠ [] at hrooted
    rwa [Watch.depths_set_of_ne (Ne.symm hid)] at hrooted ⊢
  · refine hguards.supports.mono (fun _ hkept => hkept) fun other => ?_
    by_cases hother : other = id
    · rw [hother, Watch.depths_set_self, Watch.depths_set_self]
      exact Nat.le_succ _
    · exact Nat.le_of_eq (by rw [Watch.depths_set_of_ne hother, Watch.depths_set_of_ne hother])
  · have hover := hguards.operands other f hf
    by_cases hother : other = id
    · subst hother
      rw [Watch.depths_set_self, Watch.base_set, Watch.base_of_ne hid] at hover ⊢
      exact hover.weaken (Nat.le_add_left _ _)
    · rwa [Watch.depths_set_of_ne hother] at hover ⊢

/-- An activation ends. A frame without activations has no operands left. -/
theorem endActivation (h : m.Guarded (w.set id (n :: outer))) (hid : id ≠ w.root)
    (calls : CallStack) :
    ({ m with callStack := calls, arena := m.arena.endActivation id } : Machine).Guarded
      ({ w with calls := calls }.set id outer) := by
  have hguards := h.guards
  have hweak := (h.weaken hid).guards
  refine h.change ⟨rfl, hguards.root, hweak.rooted, ?_, fun other f hf => ?_,
    hguards.generator⟩ rfl (fun _ hkept => hkept) rfl
  · refine Arena.Supports.endActivation hguards.supports (?_ : _ ≤ _) fun other hother => ?_
    · rw [Watch.depths_set_self, Watch.depths_set_self]
      exact Nat.le_refl _
    · rw [Watch.depths_set_of_ne hother, Watch.depths_set_of_ne hother]
  · obtain ⟨k, hk⟩ := Arena.get?_of_settle_go hf
    rw [Arena.get?_modify] at hk
    split at hk
    · subst other
      obtain ⟨g, hg, hdeactivate⟩ := Option.map_eq_some_iff.1 hk
      have hstack : f.stack = g.deactivate.stack := by rw [hdeactivate]
      have hover := hweak.operands id g hg
      rw [hstack]
      unfold Frame.deactivate
      split
      · rename_i hactive
        obtain ⟨g', hg', hle⟩ := hguards.supports.active id (by simp)
        cases hg.symm.trans hg'
        simp only [Watch.depths_set_self, List.length_cons] at hle
        have hnil : outer = [] := List.eq_nil_of_length_eq_zero (by omega)
        subst hnil
        change Over (w.base id) (total ((w.set id []).depths id)) []
        rw [Watch.depths_set_self, Watch.base_of_ne hid]
        exact Nat.le_refl _
      · exact hover
    · exact hweak.operands other { f with children := k } hk

/-- The frame of a new activation is new, and it is not the global one. -/
theorem fresh (h : m.Guarded w) : (⟨m.arena.frames.size⟩ : FrameId) ≠ w.root ∧
    w.depths ⟨m.arena.frames.size⟩ = [] := by
  have hdead : ∀ id, w.depths id ≠ [] → id.serial < m.arena.frames.size := by
    intro id hid
    obtain ⟨f, hf, -⟩ := h.guards.supports.active id (List.length_pos_iff.2 hid)
    exact Arena.serial_lt_of_get? hf
  refine ⟨fun hroot => ?_, Classical.byContradiction fun hne => ?_⟩
  · exact Nat.lt_irrefl _ (hroot ▸ hdead w.root h.guards.rooted)
  · exact Nat.lt_irrefl _ (hdead _ hne)

/-- One more activation of some frame keeps what is known of the others. -/
theorem rooted_set (h : m.Guarded w) (id : FrameId) : (w.set id (n :: outer)).depths w.root ≠ [] := by
  by_cases hid : w.root = id
  · rw [hid, Watch.depths_set_self]
    exact nofun
  · rw [Watch.depths_set_of_ne hid]
    exact h.guards.rooted

theorem alloc (h : m.Guarded w) (parent : Option FrameId) (object : Option Value)
    (bindsObject : Bool) :
    ({ m with arena := (m.arena.alloc parent object bindsObject).2 } : Machine).Guarded
      (w.set ⟨m.arena.frames.size⟩ [0]) := by
  have hguards := h.guards
  have hfresh := h.fresh
  refine h.change ⟨hguards.calls, hguards.root, h.rooted_set _, ?_, fun other f hf => ?_,
    hguards.generator⟩ rfl (fun _ hkept => hkept) rfl
  · refine hguards.supports.alloc parent object bindsObject ?_ fun other hother => ?_
    · rw [Watch.depths_set_self]
      exact Nat.le_refl _
    · rw [Watch.depths_set_of_ne hother]
  · rcases Arena.get?_of_alloc hf with ⟨rfl, rfl⟩ | ⟨g, hg, rfl⟩
    · rw [Watch.depths_set_self, Watch.base_set, Watch.base_of_ne hfresh.1]
      exact Nat.zero_le _
    · have hother : other ≠ ⟨m.arena.frames.size⟩ := by
        rintro rfl
        exact Nat.lt_irrefl _ (Arena.serial_lt_of_get? hg)
      rw [Watch.depths_set_of_ne hother]
      exact hguards.operands other g hg

theorem activate (h : m.Guarded w) {f : Frame} (hf : m.arena.get? id = some f) :
    ({ m with arena := m.arena.activate id } : Machine).Guarded (w.set id (0 :: w.depths id)) := by
  have hguards := h.guards
  refine h.change ⟨hguards.calls, hguards.root, h.rooted_set _, ?_, fun other g hg => ?_,
    hguards.generator⟩ rfl (fun _ hkept => hkept) rfl
  · refine hguards.supports.activate hf ?_ fun other hother => ?_
    · exact Nat.le_of_eq (by rw [Watch.depths_set_self, List.length_cons])
    · rw [Watch.depths_set_of_ne hother]
  · have hsum : total ((w.set id (0 :: w.depths id)).depths other) = total (w.depths other) := by
      by_cases hother : other = id
      · rw [hother, Watch.depths_set_self, total_cons, Nat.zero_add]
      · rw [Watch.depths_set_of_ne hother]
    rw [hsum]
    change (m.arena.modify id _).get? other = some g at hg
    rw [Arena.get?_modify] at hg
    split at hg
    · subst other
      obtain ⟨g', hg', rfl⟩ := Option.map_eq_some_iff.1 hg
      exact hguards.operands id g' hg'
    · exact hguards.operands other g hg

/-- An activation is put on the call stack. -/
theorem push (h : m.Guarded w) (calls : CallStack) :
    ({ m with callStack := calls } : Machine).Guarded { w with calls := calls } :=
  h.change ⟨rfl, h.guards.root, h.guards.rooted, h.guards.supports, h.guards.operands,
    h.guards.generator⟩ rfl (fun _ hkept => hkept) rfl

end Machine.Guarded

/-! ## Bodies that leave with their frame -/

section leaves

variable {α β : Type} {w w' : Watch} {id : FrameId} {n k : Nat}

/-- A computation that starts in a frame with so many operands and ends when the innermost activation
of the frame has ended. -/
def Leaves (w : Watch) (id : FrameId) (n : Nat) (x : Run α) (p : α → Prop) : Prop :=
  ∀ m : Machine, m.Guarded (w.set id (n :: w.depths id)) →
    Likeness.guarding.Matches w (fun _ a => p a) (x m) (x m)

theorem Moves.bind_leaves {x : Run α} {f : α → Run β} {p : α → Prop} {q : β → Prop}
    (hid : id ≠ w.root) (hx : Moves w id (w.depths id) n k x p)
    (hf : ∀ w' a, w.Le w' → p a → Leaves w' id k (f a) q) : Leaves w id n (x >>= f) q := by
  intro m hm
  have h := hx m hm
  simp only [Bind.bind, EStateM.bind]
  cases hr : x m with
  | ok a m' =>
    rw [hr] at h
    obtain ⟨ha, w', hw, hm'⟩ := h
    rw [← hw.depths_eq] at hm'
    exact (hf w' a hw ha m' hm').mono hw fun _ _ _ hb => hb
  | error stop m' =>
    rw [hr] at h
    cases stop with
    | gaveUp => trivial
    | failed f =>
      obtain ⟨hf, w', k', hw, hm'⟩ := h
      have hweak := hm'.weaken (hw.root_eq ▸ hid)
      rw [← hw.depths_eq, Watch.set_self] at hweak
      exact ⟨rfl, hf, w', hw, hweak⟩

theorem Leaves.map {x : Run α} {f : α → β} {p : α → Prop} {q : β → Prop} (hx : Leaves w id n x p)
    (hf : ∀ a, p a → q (f a)) : Leaves w id n (do return f (← x)) q := by
  intro m hm
  have h := hx m hm
  simp only [Bind.bind, EStateM.bind, pure, EStateM.pure]
  cases hr : x m with
  | ok a m' =>
    rw [hr] at h
    obtain ⟨-, w', hw, ha, hm'⟩ := h
    exact ⟨rfl, w', hw, hf a ha, hm'⟩
  | error stop m' =>
    rw [hr] at h
    cases stop with
    | gaveUp => trivial
    | failed f => exact h

/-- A body that moves the operands of its frame, run as an activation. -/
theorem leaves_activation {x : Run α} {p : α → Prop} (hid : id ≠ w.root)
    (hx : ∀ m : Machine, m.Guarded (({ w with calls := w.calls.push id } : Watch).set id
      (n :: w.depths id)) → ∃ k, Arrives { w with calls := w.calls.push id } id (w.depths id) k p
        (x m)) : Leaves w id n (Run.activation id x) p := by
  intro m hm
  have hcalls : m.callStack = w.calls := hm.guards.calls
  have hend : ∀ {w' : Watch} {k m'}, ({ w with calls := w.calls.push id } : Watch).Le w' →
      Machine.Guarded (w'.set id (k :: w.depths id)) m' → ∃ w'' : Watch, w.Le w'' ∧
        (m'.unwindTo w.calls.depth).Guarded w'' := by
    intro w' k m' hw hm'
    have hpushed : m'.callStack = w.calls.push id := by
      rw [hm'.guards.calls]
      change w'.calls = _
      rw [hw.same]
    have hguarded := hm'.endActivation (hw.root_eq ▸ hid) w.calls
    refine ⟨{ w with kept := w'.kept, generator := w'.generator }, ⟨rfl, hw.kept, hw.generator⟩, ?_⟩
    rw [Machine.unwindTo_of_push hpushed]
    have heq : ({ w' with calls := w.calls } : Watch).set id (w.depths id) =
        { w with kept := w'.kept, generator := w'.generator } := by
      rw [hw.same]
      exact Watch.set_self
    rwa [heq] at hguarded
  unfold Run.activation
  simp only [Machine.depth, hcalls]
  split
  · refine ⟨rfl, rfl, w, .refl w, ?_⟩
    have hguarded := hm.endActivation hid m.callStack
    have hself : ({ w with calls := m.callStack } : Watch).set id (w.depths id) = w := by
      rw [hcalls]
      exact Watch.set_self
    rw [hself, hcalls] at hguarded
    exact hguarded
  · obtain ⟨k, hk⟩ := hx _ (hm.push (w.calls.push id))
    generalize x _ = r at hk
    cases r with
    | ok a m' =>
      obtain ⟨ha, w', hw, hm'⟩ := hk
      obtain ⟨w'', hw', hm''⟩ := hend hw hm'
      exact ⟨rfl, w'', hw', ha, hm''⟩
    | error stop m' =>
      cases stop with
      | gaveUp => trivial
      | failed f =>
        obtain ⟨hf, w', k', hw, hm'⟩ := hk
        obtain ⟨w'', hw', hm''⟩ := hend hw hm'
        exact ⟨rfl, hf, w'', hw', hm''⟩

end leaves
end ScriptVM
