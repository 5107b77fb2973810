import ScriptVM.Proofs.Collection.Standing

/-!
# Balanced tallies

A tally is balanced when everything that is counted is counted exactly as often as something refers
to it: what exists, and some other references. While new references are being noted it lacks those
that are still owed. Noting what is owed and taking back what is gone keep the balance, however many
objects begin or cease to exist on the way, and a tally that is made afresh of an arena and a heap is
balanced.
-/
namespace ScriptVM.Tally

variable {t t' : Tally} {h : Heap} {others owed gone rest : List Reference} {r : Reference}
  {v : Value} {id : FrameId} {f : Frame} {x : Target} {n : Nat}

/-- Every object and every live frame is counted as often as something refers to it, but for what is
owed. -/
structure Balanced (t : Tally) (h : Heap) (others owed : List Reference) : Prop where
  size : t.counts.size = h.objects.size
  balance : ∀ x n, t.tracked x = some n → n + hits x owed = t.demand h x + hits x others

/-- What is balanced is covered. -/
theorem Balanced.covers (ht : t.Balanced h others []) : t.Covers h others :=
  ⟨ht.size, fun x n hn => Nat.le_of_eq (ht.balance x n hn).symm⟩

theorem Balanced.mono (ht : t.Balanced h others owed) {others' owed' : List Reference}
    (hsame : ∀ x, hits x others + hits x owed' = hits x others' + hits x owed) :
    t.Balanced h others' owed' := by
  refine ⟨ht.size, fun x n hn => ?_⟩
  have hbalance := ht.balance x n hn
  have hx := hsame x
  omega

/-! ## How many objects exist -/

/-- How many objects something refers to. -/
def existing (t : Tally) : Nat := (List.range t.counts.size).countP fun i => t.has ⟨i⟩

/-- How many objects nothing refers to. -/
def missing (t : Tally) : Nat := (List.range t.counts.size).countP fun i => !t.has ⟨i⟩

theorem existing_le (t : Tally) : t.existing ≤ t.counts.size :=
  Nat.le_trans List.countP_le_length (by simp)

theorem missing_le (t : Tally) : t.missing ≤ t.counts.size :=
  Nat.le_trans List.countP_le_length (by simp)

theorem existing_congr (hsize : t'.counts.size = t.counts.size) (hhas : ∀ v, t'.has v = t.has v) :
    t'.existing = t.existing := by
  simp only [existing, hsize, hhas]

theorem missing_congr (hsize : t'.counts.size = t.counts.size) (hhas : ∀ v, t'.has v = t.has v) :
    t'.missing = t.missing := by
  simp only [missing, hsize, hhas]

theorem has_congr (hcounts : t'.counts = t.counts) (v : Value) : t'.has v = t.has v := by
  rw [has, has, count, count, hcounts]

theorem existing_dies (hv : t.count v = 1) : (t.setCount v 0).existing + 1 = t.existing := by
  have hlt : v.address < t.counts.size := lt_of_has (has_of_pos (by omega))
  unfold existing
  rw [size_counts_setCount]
  have hhas : t.has v = true := has_of_pos (by omega)
  refine (List.countP_range_flip hlt hhas ?_ fun i hi => ?_).symm
  · simp [has, count_setCount t v 0 hlt]
  · exact (has_setCount_of_ne (fun e => hi (congrArg Value.address e)) 0).symm

theorem missing_begins (hlt : v.address < t.counts.size) (hv : t.count v = 0) :
    (t.setCount v 1).missing + 1 = t.missing := by
  unfold missing
  rw [size_counts_setCount]
  refine (List.countP_range_flip hlt ?_ ?_ fun i hi => ?_).symm
  · simp [has, hv]
  · simp [has, count_setCount t v 1 hlt]
  · rw [has_setCount_of_ne (fun e => hi (congrArg Value.address e)) 1]

/-! ## Taking references back -/

theorem demand_loseHolder (t : Tally) (id : FrameId) (x : Target) :
    (t.loseHolder id).demand h x = t.demand h x := by
  refine demand_of_arena (counts_loseHolder t id) (t.arena.size_frames_modify id _)
    (fun other => ?_) x
  rw [get?_loseHolder]
  split
  · subst other
    cases t.arena.get? id <;> rfl
  · rfl

theorem Balanced.loseHolder (hr : r.target = .frame id) (ht : t.Balanced h (r :: others) []) :
    (t.loseHolder id).Balanced h others [] where
  size := ht.size
  balance x n hn := by
    rw [demand_loseHolder]
    cases x with
    | object v =>
      have hbalance := ht.balance (.object v) n hn
      rw [hits_cons, hr] at hbalance
      simpa using hbalance
    | frame other =>
      simp only [tracked, get?_loseHolder] at hn
      split at hn
      · subst other
        obtain ⟨f, hf, rfl⟩ := Option.map_eq_some_iff.1 hn
        obtain ⟨g, hg, rfl⟩ := Option.map_eq_some_iff.1 hf
        have hbalance := ht.balance _ _ (tracked_frame hg)
        rw [hits_cons, hr, if_pos rfl, hits_nil] at hbalance
        rw [hits_nil]
        change g.holders - 1 + _ = _
        omega
      · rename_i hne
        have hbalance := ht.balance (.frame other) n hn
        have hne' : Target.frame id ≠ .frame other := fun e => hne (by cases e; rfl)
        rwa [hits_cons, hr, if_neg hne', Nat.add_zero] at hbalance

/-- An object that begins or ceases to exist refers to its parts, or no longer does. -/
theorem demand_setCount (hlt : v.address < h.objects.size) {u w : Tally}
    (hu : u.has v = true) (hw : w.has v = false) (hother : ∀ y, y ≠ v → u.has y = w.has y)
    (harena : u.arena = w.arena) (x : Target) :
    u.demand h x = w.demand h x + hits x (h.get v).parts := by
  have hflip := Heap.demand_flip hlt hu hw hother x
  simp only [demand, harena, hflip]
  omega

theorem Balanced.dies (ht : t.Balanced h (.value v :: others) []) (hv : t.count v = 1) :
    (t.setCount v 0).Balanced h ((h.get v).parts ++ others) [] := by
  have hlt : v.address < t.counts.size := lt_of_has (has_of_pos (by omega))
  have hdemand := demand_setCount (ht.size ▸ hlt) (has_of_pos (by omega))
    (show (t.setCount v 0).has v = false by simp [has, count_setCount t v 0 hlt])
    (fun u hu => (has_setCount_of_ne hu 0).symm) rfl
  refine ⟨by simpa using ht.size, fun x n hn => ?_⟩
  have hmove := hdemand x
  rw [hits_append]
  by_cases hx : x = .object v
  · subst hx
    have hbalance := ht.balance _ _ (tracked_object hlt)
    rw [tracked_object (by simpa using hlt), count_setCount t v _ hlt] at hn
    rw [hits_cons, if_pos (show (Reference.value v).target = .object v from rfl)] at hbalance
    have := Option.some.inj hn
    omega
  · rw [tracked_setCount_of_ne hx] at hn
    have hbalance := ht.balance x n hn
    rw [hits_cons, if_neg (fun e => hx e.symm)] at hbalance
    omega

theorem Balanced.loses (ht : t.Balanced h (.value v :: others) []) (hv : t.count v ≠ 1) :
    (t.setCount v (t.count v - 1)).Balanced h others [] := by
  have hhas := ht.covers.has_setCount_pred hv
  have hdemand : ∀ x, (t.setCount v (t.count v - 1)).demand h x = t.demand h x := fun x => by
    rw [demand, demand, Heap.demand_congr fun v _ => hhas v, arena_setCount]
  refine ⟨by simpa using ht.size, fun x n hn => ?_⟩
  rw [hdemand]
  by_cases hx : x = .object v
  · subst hx
    have hlt : v.address < t.counts.size := by
      simpa [tracked, setCount] using (Array.getElem?_eq_some_iff.1 hn).1
    have hmany := ht.covers.one_lt_count hv hlt
    have hbalance := ht.balance _ _ (tracked_object hlt)
    rw [tracked_object (by simpa using hlt), count_setCount t v _ hlt] at hn
    rw [hits_cons, if_pos (show (Reference.value v).target = .object v from rfl)] at hbalance
    have := Option.some.inj hn
    omega
  · rw [tracked_setCount_of_ne hx] at hn
    have hbalance := ht.balance x n hn
    rwa [hits_cons, if_neg (fun e => hx e.symm)] at hbalance

/-- References that were counted can be taken back. -/
theorem Balanced.letGo {deaths : Nat} (ht : t.Balanced h (gone ++ others) [])
    (hdeaths : t.existing < deaths) : (t.letGo h deaths gone).Balanced h others [] := by
  fun_induction Tally.letGo h deaths gone t with
  | case1 => exact ht
  | case2 t deaths id rest ih =>
    refine ih (ht.loseHolder rfl) ?_
    rwa [existing_congr rfl (has_congr rfl)]
  | case3 t deaths id rest ih =>
    refine ih (ht.loseHolder rfl) ?_
    rwa [existing_congr rfl (has_congr rfl)]
  | case4 => exact absurd hdeaths (Nat.not_lt_zero _)
  | case5 t deaths v rest count hcount ih =>
    have hdies := existing_dies hcount
    refine ih ?_ (by omega)
    rw [List.append_assoc]
    exact ht.dies hcount
  | case6 t deaths v rest count hcount ih =>
    refine ih (ht.loses hcount) ?_
    rwa [existing_congr (by simp) (ht.covers.has_setCount_pred hcount)]

/-- Taking back, one after the other, the references of some objects to themselves. -/
theorem Balanced.letGoEach {deaths : Nat} (indices : List Nat)
    (ht : t.Balanced h (indices.map (fun i => .value ⟨i⟩) ++ others) [])
    (hdeaths : h.objects.size < deaths) :
    (indices.foldl (fun t i => t.letGo h deaths [.value ⟨i⟩]) t).Balanced h others [] := by
  induction indices generalizing t with
  | nil => exact ht
  | cons i rest ih =>
    have hexisting : t.existing < deaths := Nat.lt_of_le_of_lt t.existing_le (ht.size ▸ hdeaths)
    exact ih (Balanced.letGo ht hexisting)

/-! ## The tally of a state -/

section ofState

variable (a : Arena) (kept : List Reference)

/-- Every object is counted for itself once. -/
theorem hits_object_range {n : Nat} (hv : v.address < n) :
    hits (.object v) ((List.range n).map fun i => Reference.value ⟨i⟩) = 1 := by
  have hself : (fun i => decide ((Reference.value ⟨i⟩).target = .object v)) =
      fun i => i == v.address := by
    funext i
    cases v
    simp [Reference.target, beq_eq_decide]
  rw [hits, List.countP_map, Function.comp_def, hself, ← List.count_eq_countP,
    List.count_eq_one_of_mem List.nodup_range (List.mem_range.2 hv)]

theorem hits_frame_range (n : Nat) (id : FrameId) :
    hits (.frame id) ((List.range n).map fun i => Reference.value ⟨i⟩) = 0 := by
  simp [hits, List.countP_map, Function.comp_def, Reference.target]

theorem balanced_noted : (noted a h kept).Balanced h
    ((List.range h.objects.size).map (fun i => Reference.value ⟨i⟩) ++ kept) [] := by
  refine ⟨size_counts_noted a kept, fun x n hn => ?_⟩
  have hdemand := demand_noted (h := h) a kept x
  rw [hits_append, hits_nil]
  cases x with
  | object v =>
    have hlt : v.address < h.objects.size :=
      size_counts_noted (h := h) a kept ▸ (Array.getElem?_eq_some_iff.1 hn).1
    have hself := hits_object_range hlt
    rw [tracked_noted_object a kept hlt, Option.some.injEq] at hn
    omega
  | frame id =>
    rw [tracked_noted_frame] at hn
    obtain ⟨f, -, rfl⟩ := Option.map_eq_some_iff.1 hn
    rw [hits_frame_range]
    omega

/-- A tally that is made of an arena and a heap counts all that refers to something, and what the
owner keeps. -/
theorem balanced_ofState : (ofState a h kept).Balanced h kept [] := by
  have heach := (balanced_noted (h := h) a kept).letGoEach (List.range h.objects.size)
    (Nat.lt_succ_self _)
  rw [ofState_eq]
  exact ⟨heach.size, heach.balance⟩

end ofState

/-! ## Noting references -/

theorem mapArena_retain (t : Tally) (id : FrameId) :
    t.mapArena (fun a => a.retain id) = t.note (.frame id) := rfl

theorem demand_note (t : Tally) (id : FrameId) (x : Target) :
    (t.note (.frame id)).demand h x = t.demand h x := by
  have hsame := t.sameBut_note (.frame id)
  have hcounts : (t.note (.frame id)).counts = t.counts := rfl
  exact demand_of_arena hcounts hsame.size hsame.parts x

theorem Balanced.retain (hr : r.target = .frame id) (ht : t.Balanced h others (r :: owed)) :
    (t.mapArena fun a => a.retain id).Balanced h others owed where
  size := ht.size
  balance x n hn := by
    rw [mapArena_retain, tracked_note] at hn
    rw [mapArena_retain, demand_note]
    obtain ⟨k, hk, rfl⟩ := Option.map_eq_some_iff.1 hn
    have hbalance := ht.balance x k hk
    rw [hits_cons, hr] at hbalance
    rw [show (Reference.frame id).target = .frame id from rfl]
    omega

theorem Balanced.begins (ht : t.Balanced h others (.value v :: owed)) (hv : t.count v = 0)
    (hlt : v.address < t.counts.size) :
    (t.setCount v 1).Balanced h others ((h.get v).parts ++ owed) := by
  have hdemand := demand_setCount (ht.size ▸ hlt)
    (has_of_pos (show 0 < (t.setCount v 1).count v by rw [count_setCount t v 1 hlt]; omega))
    (show t.has v = false by simp [has, hv]) (fun u hu => has_setCount_of_ne hu 1) rfl
  refine ⟨by simpa using ht.size, fun x n hn => ?_⟩
  have hmove := hdemand x
  rw [hits_append]
  by_cases hx : x = .object v
  · subst hx
    have hbalance := ht.balance _ _ (tracked_object hlt)
    rw [tracked_object (by simpa using hlt), count_setCount t v _ hlt] at hn
    rw [hits_cons, if_pos (show (Reference.value v).target = .object v from rfl)] at hbalance
    have := Option.some.inj hn
    omega
  · rw [tracked_setCount_of_ne hx] at hn
    have hbalance := ht.balance x n hn
    rw [hits_cons, if_neg (fun e => hx e.symm)] at hbalance
    omega

theorem has_setCount_succ (hv : t.count v ≠ 0) (u : Value) :
    (t.setCount v (t.count v + 1)).has u = t.has u := by
  by_cases hu : u = v
  · subst hu
    have hlt : u.address < t.counts.size := lt_of_has (has_of_pos (Nat.pos_of_ne_zero hv))
    simp only [has, count_setCount t u _ hlt]
    simp
    omega
  · exact has_setCount_of_ne hu _

theorem Balanced.gains (ht : t.Balanced h others (.value v :: owed)) (hv : t.count v ≠ 0) :
    (t.setCount v (t.count v + 1)).Balanced h others owed := by
  have hhas := has_setCount_succ hv
  have hdemand : ∀ x, (t.setCount v (t.count v + 1)).demand h x = t.demand h x := fun x => by
    rw [demand, demand, Heap.demand_congr fun v _ => hhas v, arena_setCount]
  have hlt : v.address < t.counts.size := lt_of_has (has_of_pos (Nat.pos_of_ne_zero hv))
  refine ⟨by simpa using ht.size, fun x n hn => ?_⟩
  rw [hdemand]
  by_cases hx : x = .object v
  · subst hx
    have hbalance := ht.balance _ _ (tracked_object hlt)
    rw [tracked_object (by simpa using hlt), count_setCount t v _ hlt] at hn
    rw [hits_cons, if_pos (show (Reference.value v).target = .object v from rfl)] at hbalance
    have := Option.some.inj hn
    omega
  · rw [tracked_setCount_of_ne hx] at hn
    have hbalance := ht.balance x n hn
    rwa [hits_cons, if_neg (fun e => hx e.symm)] at hbalance

/-- References to objects that were made can be noted, when those objects refer to such objects. -/
theorem Balanced.hold {births : Nat} {new : List Reference} (ht : t.Balanced h others new)
    (hnew : ∀ v, .value v ∈ new → v.address < h.objects.size)
    (hparts : ∀ u v, .value v ∈ (h.get u).parts → v.address < h.objects.size)
    (hbirths : t.missing < births) : (t.hold h births new).Balanced h others [] := by
  fun_induction Tally.hold h births new t with
  | case1 => exact ht
  | case2 t births id rest ih =>
    refine ih (ht.retain rfl) (fun v hv => hnew v (List.mem_cons_of_mem _ hv)) ?_
    rwa [missing_congr rfl (has_congr rfl)]
  | case3 t births id rest ih =>
    refine ih (ht.retain rfl) (fun v hv => hnew v (List.mem_cons_of_mem _ hv)) ?_
    rwa [missing_congr rfl (has_congr rfl)]
  | case4 => exact absurd hbirths (Nat.not_lt_zero _)
  | case5 t births v rest count hcount ih =>
    have hlt : v.address < t.counts.size := ht.size ▸ hnew v List.mem_cons_self
    have hbegins := missing_begins hlt hcount
    refine ih (ht.begins hcount hlt) (fun u hu => ?_) (by omega)
    rcases List.mem_append.1 hu with hu | hu
    · exact hparts v u hu
    · exact hnew u (List.mem_cons_of_mem _ hu)
  | case6 t births v rest count hcount ih =>
    refine ih (ht.gains hcount) (fun u hu => hnew u (List.mem_cons_of_mem _ hu)) ?_
    rwa [missing_congr (by simp) (has_setCount_succ hcount)]

/-! ## Frames of a tally -/

theorem sameBut_hold (h : Heap) (births : Nat) (new : List Reference) (t : Tally) :
    t.arena.SameButHolders (t.hold h births new).arena := by
  fun_induction Tally.hold h births new t with
  | case1 => exact .refl _
  | case2 t births id rest ih => exact (t.sameBut_note (.frame id)).trans ih
  | case3 t births id rest ih => exact (t.sameBut_note (.frame id)).trans ih
  | case4 => exact .refl _
  | case5 t births v rest count hcount ih => exact ih
  | case6 t births v rest count hcount ih => exact ih

/-- Frames that lost their last holder are to be looked at, and so are those that were before. -/
structure Notices (t t' : Tally) : Prop where
  dropped : ∀ id ∈ t.dropped, id ∈ t'.dropped
  unheld : ∀ id f, t'.arena.get? id = some f → f.held = 0 →
    id ∈ t'.dropped ∨ ∃ g, t.arena.get? id = some g ∧ g.held = 0

theorem Notices.refl (t : Tally) : t.Notices t :=
  ⟨fun _ h => h, fun _ f hf hheld => .inr ⟨f, hf, hheld⟩⟩

theorem Notices.trans {t'' : Tally} (h : t.Notices t') (h' : t'.Notices t'') : t.Notices t'' := by
  refine ⟨fun id hid => h'.dropped id (h.dropped id hid), fun id f hf hheld => ?_⟩
  rcases h'.unheld id f hf hheld with hdropped | ⟨g, hg, hunheld⟩
  · exact .inl hdropped
  · exact (h.unheld id g hg hunheld).imp_left (h'.dropped id)

theorem notices_loseHolder (t : Tally) (id : FrameId) : t.Notices (t.loseHolder id) := by
  have hdropped : (t.loseHolder id).dropped =
      if (t.arena.get? id).any fun f => f.holders = 1 then id :: t.dropped else t.dropped := rfl
  refine ⟨fun other hother => ?_, fun other f hf hheld => ?_⟩
  · rw [hdropped]
    split
    · exact List.mem_cons_of_mem _ hother
    · exact hother
  · rw [get?_loseHolder] at hf
    split at hf
    · subst other
      obtain ⟨g, hg, rfl⟩ := Option.map_eq_some_iff.1 hf
      unfold Frame.held at hheld
      dsimp only at hheld
      by_cases hlast : g.holders = 1
      · rw [hdropped, hg, Option.any_some, if_pos (decide_eq_true hlast)]
        exact .inl List.mem_cons_self
      · exact .inr ⟨g, hg, by unfold Frame.held; omega⟩
    · exact .inr ⟨f, hf, hheld⟩

theorem notices_letGo (h : Heap) (deaths : Nat) (gone : List Reference) (t : Tally) :
    t.Notices (t.letGo h deaths gone) := by
  fun_induction Tally.letGo h deaths gone t with
  | case1 => exact .refl _
  | case2 t deaths id rest ih => exact (t.notices_loseHolder id).trans ih
  | case3 t deaths id rest ih => exact (t.notices_loseHolder id).trans ih
  | case4 => exact .refl _
  | case5 t deaths v rest count hcount ih => exact ⟨ih.dropped, ih.unheld⟩
  | case6 t deaths v rest count hcount ih => exact ⟨ih.dropped, ih.unheld⟩

theorem notices_note (t : Tally) (id : FrameId) : t.Notices (t.note (.frame id)) := by
  refine ⟨fun _ h => h, fun other f hf hheld => .inr ?_⟩
  change (t.arena.retain id).get? other = some f at hf
  rw [Arena.retain, Arena.get?_modify] at hf
  split at hf
  · obtain ⟨g, -, rfl⟩ := Option.map_eq_some_iff.1 hf
    exact absurd hheld (by unfold Frame.held; dsimp only; omega)
  · exact ⟨f, hf, hheld⟩

/-- Noting references leaves no frame without a holder. -/
theorem notices_hold (h : Heap) (births : Nat) (new : List Reference) (t : Tally) :
    t.Notices (t.hold h births new) := by
  fun_induction Tally.hold h births new t with
  | case1 => exact .refl _
  | case2 t births id rest ih => exact (t.notices_note id).trans ih
  | case3 t births id rest ih => exact (t.notices_note id).trans ih
  | case4 => exact .refl _
  | case5 t births v rest count hcount ih => exact ⟨ih.dropped, ih.unheld⟩
  | case6 t births v rest count hcount ih => exact ⟨ih.dropped, ih.unheld⟩

end ScriptVM.Tally
