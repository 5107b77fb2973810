import ScriptVM.Frame.Trial
import ScriptVM.Proofs.Collection.Standing

/-!
# The search for garbage

What a search has met is numbered without repetition, and what was counted for a place, together
with the code that is still to be looked into, is how often what was looked into refers to the
place. In the end everything that is held from outside is marked, and everything that a marked place
was seen to refer to.
-/
namespace ScriptVM.Trial

/-! ## Marks -/

/-- Whether a place is marked. -/
def Marked (marks : Array Bool) (n : Nat) : Prop := marks.getD n true = true

/-- What marking some targets does to the marks and to the places that are to be spread from. -/
structure Marking (targets : List Nat) (p q : List Nat × Array Bool) : Prop where
  size : q.2.size = p.2.size
  mono : ∀ n, Marked p.2 n → Marked q.2 n
  marked : ∀ n ∈ targets, Marked q.2 n
  pending : ∀ n ∈ p.1, n ∈ q.1
  new : ∀ n, Marked q.2 n → Marked p.2 n ∨ n ∈ q.1
  budget : q.1.length + q.2.count false = p.1.length + p.2.count false

/-- Marks a place that is not marked yet. -/
def markOne (p : List Nat × Array Bool) (target : Nat) : List Nat × Array Bool :=
  if p.2.getD target true then p else (target :: p.1, p.2.setIfInBounds target true)

theorem marking_markOne (p : List Nat × Array Bool) (target : Nat) :
    Marking [target] p (markOne p target) := by
  unfold markOne
  split
  · rename_i hmarked
    exact ⟨rfl, fun _ h => h, by simpa [Marked] using hmarked, fun _ h => h, fun _ h => .inl h, rfl⟩
  · rename_i hfresh
    have hlt : target < p.2.size := Nat.lt_of_not_le fun hle => hfresh (by simp [hle])
    have hfalse : p.2[target] = false := by simpa [hlt] using hfresh
    have hget : ∀ n, (p.2.setIfInBounds target true).getD n true =
        if n = target then true else p.2.getD n true := by
      intro n
      rw [Array.getD_eq_getD_getElem?, Array.getElem?_setIfInBounds]
      by_cases hn : target = n
      · subst hn
        simp [hlt]
      · simp [hn, Ne.symm hn, Array.getD_eq_getD_getElem?]
    refine ⟨by simp, fun n hn => ?_, fun n hn => ?_, fun n hn => .tail _ hn, fun n hn => ?_, ?_⟩
    · rw [Marked, hget]
      split
      · rfl
      · exact hn
    · rw [Marked, hget, if_pos (List.mem_singleton.1 hn)]
    · rw [Marked, hget] at hn
      split at hn
      · rename_i he
        exact .inr (he ▸ .head _)
      · exact .inl hn
    · have hpos : 0 < p.2.count false := Array.count_pos_iff.2 (hfalse ▸ Array.getElem_mem hlt)
      rw [Array.setIfInBounds, dif_pos hlt, Array.count_set hlt, hfalse]
      simp only [List.length_cons, beq_self_eq_true, if_true]
      rw [if_neg (by decide)]
      omega

theorem Marking.trans {s t : List Nat} {p q r : List Nat × Array Bool} (h : Marking s p q)
    (h' : Marking t q r) : Marking (s ++ t) p r where
  size := h'.size.trans h.size
  mono n hn := h'.mono n (h.mono n hn)
  marked n hn := (List.mem_append.1 hn).elim (fun hs => h'.mono n (h.marked n hs)) (h'.marked n)
  pending n hn := h'.pending n (h.pending n hn)
  new n hn := (h'.new n hn).elim (fun hq => (h.new n hq).imp_right (h'.pending n)) .inr
  budget := h'.budget.trans h.budget

theorem marking_foldl (targets : List Nat) (p : List Nat × Array Bool) :
    Marking targets p (targets.foldl markOne p) := by
  induction targets generalizing p with
  | nil => exact ⟨rfl, fun _ h => h, nofun, fun _ h => h, fun _ h => .inl h, rfl⟩
  | cons target rest ih => exact (marking_markOne p target).trans (ih _)

/-- One round of spreading marks. -/
theorem spread_succ (edges : Array (List Nat)) (rounds n : Nat) (rest : List Nat)
    (marks : Array Bool) :
    spread edges (rounds + 1) (n :: rest) marks =
      spread edges rounds ((edges.getD n []).foldl markOne (rest, marks)).1
        ((edges.getD n []).foldl markOne (rest, marks)).2 := by
  conv_lhs => unfold spread
  rfl

/-- Spreading ends with marks that are closed: with every round there is one place less to be
spread from or one place less to be marked. -/
theorem spread_closed {edges : Array (List Nat)} {rounds : Nat} {pending : List Nat}
    {marks : Array Bool} (hbudget : pending.length + marks.count false ≤ rounds)
    (hclosed : ∀ n, Marked marks n → n ∈ pending ∨ ∀ k ∈ edges.getD n [], Marked marks k) :
    (spread edges rounds pending marks).size = marks.size ∧
      (∀ n, Marked marks n → Marked (spread edges rounds pending marks) n) ∧
      ∀ n, Marked (spread edges rounds pending marks) n →
        ∀ k ∈ edges.getD n [], Marked (spread edges rounds pending marks) k := by
  have hdone : ∀ {marks : Array Bool}, (∀ n, Marked marks n → n ∈ ([] : List Nat) ∨
      ∀ k ∈ edges.getD n [], Marked marks k) → marks.size = marks.size ∧
      (∀ n, Marked marks n → Marked marks n) ∧
      ∀ n, Marked marks n → ∀ k ∈ edges.getD n [], Marked marks k :=
    fun h => ⟨rfl, fun _ hn => hn, fun n hn => (h n hn).resolve_left nofun⟩
  induction rounds generalizing pending marks with
  | zero =>
    have hnil : pending = [] := List.eq_nil_of_length_eq_zero (by omega)
    subst hnil
    exact hdone hclosed
  | succ rounds ih =>
    cases pending with
    | nil => exact hdone hclosed
    | cons n rest =>
      have hmark := marking_foldl (edges.getD n []) (rest, marks)
      rw [spread_succ]
      generalize (edges.getD n []).foldl markOne (rest, marks) = q at hmark
      have hless : q.1.length + q.2.count false ≤ rounds := by
        have hsame := hmark.budget
        simp only [List.length_cons] at hbudget hsame
        omega
      obtain ⟨hsize, hmono, hend⟩ := ih hless fun k hk => by
          rcases hmark.new k hk with hk | hk
          · rcases hclosed k hk with hk | hk
            · rcases List.mem_cons.1 hk with rfl | hk
              · exact .inr hmark.marked
              · exact .inl (hmark.pending k hk)
            · exact .inr fun j hj => hmark.mono j (hk j hj)
          · exact .inl hk
      exact ⟨hsize.trans hmark.size, fun k hk => hmono k (hmark.mono k hk), hend⟩

/-- Only targets are marked and to be spread from that were not before. -/
theorem of_foldl_markOne (targets : List Nat) (p : List Nat × Array Bool) {n : Nat} :
    (Marked (targets.foldl markOne p).2 n → Marked p.2 n ∨ n ∈ targets) ∧
      (n ∈ (targets.foldl markOne p).1 → n ∈ p.1 ∨ n ∈ targets) := by
  induction targets generalizing p with
  | nil => exact ⟨.inl, .inl⟩
  | cons target rest ih =>
    have hone : (Marked (markOne p target).2 n → Marked p.2 n ∨ n = target) ∧
        (n ∈ (markOne p target).1 → n ∈ p.1 ∨ n = target) := by
      unfold markOne
      split
      · exact ⟨.inl, .inl⟩
      · refine ⟨fun hn => ?_, fun hn => (List.mem_cons.1 hn).symm⟩
        by_cases he : target = n
        · exact .inr he.symm
        · rw [Marked, Array.getD_eq_getD_getElem?, Array.getElem?_setIfInBounds_ne he,
            ← Array.getD_eq_getD_getElem?] at hn
          exact .inl hn
    obtain ⟨hmarked, hpending⟩ := ih (markOne p target)
    constructor
    · intro hn
      rcases hmarked hn with hn | hn
      · exact (hone.1 hn).imp_right fun he => List.mem_cons.2 (.inl he)
      · exact .inr (List.mem_cons_of_mem _ hn)
    · intro hn
      rcases hpending hn with hn | hn
      · exact (hone.2 hn).imp_right fun he => List.mem_cons.2 (.inl he)
      · exact .inr (List.mem_cons_of_mem _ hn)

/-- What holds of the marked places, and along the edges, holds of every place that is marked in the
end. -/
theorem of_marked_spread {edges : Array (List Nat)} {P : Nat → Prop}
    (hedges : ∀ n, P n → ∀ k ∈ edges.getD n [], P k) {rounds : Nat} {pending : List Nat}
    {marks : Array Bool} (hpending : ∀ n ∈ pending, P n) (hmarks : ∀ n, Marked marks n → P n)
    {n : Nat} (hn : Marked (spread edges rounds pending marks) n) : P n := by
  induction rounds generalizing pending marks with
  | zero => exact hmarks n hn
  | succ rounds ih =>
    cases pending with
    | nil => exact hmarks n hn
    | cons first rest =>
      rw [spread_succ] at hn
      have htargets := hedges first (hpending first List.mem_cons_self)
      refine ih (fun k hk => ?_) (fun k hk => ?_) hn
      · rcases (of_foldl_markOne _ _).2 hk with hk | hk
        · exact hpending k (List.mem_cons_of_mem _ hk)
        · exact htargets k hk
      · rcases (of_foldl_markOne _ _).1 hk with hk | hk
        · exact hmarks k hk
        · exact htargets k hk

/-! ## Numbers -/

/-- The place of what may be met more than once. -/
def place : Target → Reference
  | .object v => .value v
  | .frame id => .frame id

@[simp] theorem target_place (x : Target) : (place x).target = x := by
  cases x <;> rfl

theorem place_injective {x y : Target} (h : place x = place y) : x = y := by
  rw [← target_place x, ← target_place y, h]

/-- Every place of an object or a frame has one number, and what is pending is numbered. -/
structure Numbered (t : Trial) : Prop where
  found : t.found.size = t.places.size
  edges : t.edges.size = t.places.size
  number : ∀ x n, t.number? (place x) = some n ↔ t.places[n]? = some (place x)
  pending : ∀ n ∈ t.pending, n < t.places.size
  nodup : t.pending.Nodup

/-- How often the place of a target was found. -/
def timesFound (t : Trial) (x : Target) : Nat :=
  ((t.number? (place x)).map fun n => t.found.getD n 0).getD 0

/-- How much pending code closes over a frame. -/
def codePending (t : Trial) : Target → Nat
  | .object _ => 0
  | .frame id => t.pending.countP fun n => t.places[n]? = some (.code id)

/-- How often a target was found so far, or will be once the pending code is looked into. -/
def balance (t : Trial) (x : Target) : Nat := t.timesFound x + t.codePending x

/-- What coming upon some references does to a search. -/
structure Finds (found : List Reference) (t t' : Trial) : Prop where
  numbered : t'.Numbered
  size : t.places.size ≤ t'.places.size
  places : ∀ n, n < t.places.size → t'.places[n]? = t.places[n]?
  edges : ∀ n, n < t.places.size → t'.edges[n]? = t.edges[n]?
  pending : ∀ n, n < t.places.size → (n ∈ t'.pending ↔ n ∈ t.pending)
  fresh : ∀ n, t.places.size ≤ n → n < t'.places.size → n ∈ t'.pending
  new : ∀ n r, t'.places[n]? = some r → n < t.places.size ∨ r ∈ found
  balance : ∀ x, t'.balance x = t.balance x + hits x found

section numbers

variable {t t' t'' : Trial} {r : Reference} {x : Target} {n : Nat} {found found' : List Reference}

theorem lt_of_places (h : t.places[n]? = some r) : n < t.places.size :=
  (Array.getElem?_eq_some_iff.1 h).1

/-- A place has only one number. -/
theorem Numbered.unique {k : Nat} (ht : t.Numbered) (hn : t.places[n]? = some (place x))
    (hk : t.places[k]? = some (place x)) : n = k :=
  Option.some.inj (((ht.number x n).2 hn).symm.trans ((ht.number x k).2 hk))

theorem Finds.refl (ht : t.Numbered) : Finds [] t t where
  numbered := ht
  size := Nat.le_refl _
  places _ _ := rfl
  edges _ _ := rfl
  pending _ _ := .rfl
  fresh _ hle hlt := absurd hlt (Nat.not_lt.2 hle)
  new _ _ h := .inl (lt_of_places h)
  balance _ := rfl

theorem Finds.trans (h : Finds found t t') (h' : Finds found' t' t'') :
    Finds (found ++ found') t t'' where
  numbered := h'.numbered
  size := Nat.le_trans h.size h'.size
  places n hn := (h'.places n (Nat.lt_of_lt_of_le hn h.size)).trans (h.places n hn)
  edges n hn := (h'.edges n (Nat.lt_of_lt_of_le hn h.size)).trans (h.edges n hn)
  pending n hn := (h'.pending n (Nat.lt_of_lt_of_le hn h.size)).trans (h.pending n hn)
  fresh n hle hlt := by
    rcases Nat.lt_or_ge n t'.places.size with hn | hn
    · exact (h'.pending n hn).2 (h.fresh n hle hn)
    · exact h'.fresh n hn hlt
  new n r hr := by
    rcases h'.new n r hr with hn | hn
    · rw [h'.places n hn] at hr
      exact (h.new n r hr).imp_right fun hf => List.mem_append_left _ hf
    · exact .inr (List.mem_append_right _ hn)
  balance x := by
    rw [h'.balance, h.balance, hits_append, Nat.add_assoc]

/-! ### Meeting a place -/

theorem number?_add (t : Trial) (r : Reference) (x : Target) :
    (t.add r).number? (place x) = if r = place x then some t.places.size else t.number? (place x) := by
  cases x with
  | object v =>
    cases r with
    | value u =>
      simp only [add, number?, place, Std.HashMap.getElem?_insert, Reference.value.injEq, beq_iff_eq]
      by_cases hu : u = v
      · simp [hu]
      · have hne : u.address ≠ v.address := fun e => hu (by cases u; cases v; cases e; rfl)
        simp [hu, hne]
    | code scope => rfl
    | frame id => rfl
  | frame id =>
    cases r with
    | frame other =>
      simp only [add, number?, place, Std.HashMap.getElem?_insert, Reference.frame.injEq, beq_iff_eq]
      by_cases hu : other = id
      · simp [hu]
      · have hne : other.serial ≠ id.serial := fun e => hu (by cases other; cases id; cases e; rfl)
        simp [hu, hne]
    | value u => rfl
    | code scope => rfl

theorem Numbered.add (ht : t.Numbered) (hr : ∀ x, r = place x → t.number? r = none) :
    (t.add r).Numbered where
  found := by simp [Trial.add, ht.found]
  edges := by simp [Trial.add, ht.edges]
  number x n := by
    rw [number?_add, places_add, Array.getElem?_push]
    have hlt : ∀ k, t.places[k]? = some (place x) → k ≠ t.places.size :=
      fun k hk => Nat.ne_of_lt (lt_of_places hk)
    by_cases hx : r = place x
    · have hnone : t.number? (place x) = none := hx ▸ hr x hx
      rw [if_pos hx]
      constructor
      · intro h
        rw [if_pos (Option.some.inj h).symm, hx]
      · intro h
        split at h
        · rename_i hn
          rw [hn]
        · rw [← ht.number, hnone] at h
          cases h
    · rw [if_neg hx, ht.number]
      constructor
      · intro h
        rw [if_neg (hlt n h), h]
      · intro h
        split at h
        · exact absurd (Option.some.inj h) hx
        · exact h
  pending n hn := by
    rw [places_add, Array.size_push]
    rcases List.mem_cons.1 hn with rfl | hn
    · exact Nat.lt_succ_self _
    · exact Nat.lt_succ_of_lt (ht.pending n hn)
  nodup := List.nodup_cons.2 ⟨fun h => Nat.lt_irrefl _ (ht.pending _ h), ht.nodup⟩

/-- A new place has not been found yet. -/
theorem Numbered.timesFound_add (ht : t.Numbered) (hr : ∀ x, r = place x → t.number? r = none)
    (x : Target) : (t.add r).timesFound x = t.timesFound x := by
  rw [timesFound, timesFound, number?_add]
  have hpush : ∀ n, (t.add r).found.getD n 0 = t.found.getD n 0 := by
    intro n
    simp only [Trial.add, Array.getD_eq_getD_getElem?, Array.getElem?_push]
    split
    · rename_i hn
      simp [hn]
    · rfl
  split
  · rename_i hx
    have hzero : t.found.getD t.places.size 0 = 0 := by simp [ht.found.symm]
    have hnone : t.number? (place x) = none := hx ▸ hr x hx
    simp only [hnone, hpush, hzero, Option.map_some, Option.map_none, Option.getD_some,
      Option.getD_none]
  · simp only [hpush]

/-- New code is pending. -/
theorem Numbered.codePending_add (ht : t.Numbered) (r : Reference) (x : Target) :
    (t.add r).codePending x = t.codePending x + if r.target = x ∧ r ≠ place x then 1 else 0 := by
  cases x with
  | object v => cases r <;> simp [codePending, place, Reference.target]
  | frame id =>
    have hold : ∀ n ∈ t.pending, (t.add r).places[n]? = t.places[n]? := by
      intro n hn
      rw [places_add, Array.getElem?_push, if_neg (Nat.ne_of_lt (ht.pending n hn))]
    have hrest : t.pending.countP (fun n => (t.add r).places[n]? = some (.code id)) =
        t.codePending (.frame id) :=
      List.countP_congr fun n hn => by simp only [hold n hn]
    have hself : (t.add r).places[t.places.size]? = some r := by simp
    change (t.places.size :: t.pending).countP _ = _
    rw [List.countP_cons, hrest, hself]
    cases r <;> simp [place, Reference.target]

theorem Numbered.balance_add (ht : t.Numbered) (hr : ∀ x, r = place x → t.number? r = none)
    (x : Target) :
    (t.add r).balance x = t.balance x + if r.target = x ∧ r ≠ place x then 1 else 0 := by
  rw [balance, balance, ht.timesFound_add hr, ht.codePending_add, Nat.add_assoc]

theorem number?_countFound (t : Trial) (n : Nat) (r : Reference) :
    (t.countFound n).number? r = t.number? r := by
  cases r <;> rfl

theorem Numbered.countFound (ht : t.Numbered) (n : Nat) : (t.countFound n).Numbered where
  found := by simp [Trial.countFound, ht.found]
  edges := ht.edges
  number x k := by rw [number?_countFound, places_countFound, ht.number]
  pending := ht.pending
  nodup := ht.nodup

theorem Numbered.balance_countFound (ht : t.Numbered) (hn : t.places[n]? = some r) (x : Target) :
    (t.countFound n).balance x = t.balance x + if r = place x then 1 else 0 := by
  have hcode : (t.countFound n).codePending x = t.codePending x := by cases x <;> rfl
  have hfound : (t.countFound n).timesFound x = t.timesFound x + if r = place x then 1 else 0 := by
    rw [timesFound, timesFound, number?_countFound]
    cases hx : t.number? (place x) with
    | none =>
      have hne : r ≠ place x := by
        rintro rfl
        rw [(ht.number x n).2 hn] at hx
        cases hx
      simp [hne]
    | some k =>
      have hk := (ht.number x k).1 hx
      have hlt : k < t.found.size := ht.found ▸ lt_of_places hk
      simp only [Trial.countFound, Option.map_some, Option.getD_some, Array.getD_eq_getD_getElem?,
        Array.getElem?_modify, Array.getElem?_eq_getElem hlt]
      by_cases hkn : n = k
      · subst hkn
        have hr : r = place x := Option.some.inj (hn.symm.trans hk)
        simp [hr]
      · have hne : r ≠ place x := by
          rintro rfl
          exact hkn (ht.unique hn hk)
        simp [hkn, hne]
  rw [balance, balance, hfound, hcode]
  omega

/-- Coming upon a place that has a number. -/
theorem Numbered.finds_known {y : Target} (ht : t.Numbered) (hplace : t.places[n]? = some (place y)) :
    Finds [place y] t (t.countFound n) where
  numbered := ht.countFound n
  size := Nat.le_refl _
  places _ _ := rfl
  edges _ _ := rfl
  pending _ _ := .rfl
  fresh _ hle hlt := absurd hlt (Nat.not_lt.2 hle)
  new _ _ hk := .inl (lt_of_places hk)
  balance x := by
    rw [ht.balance_countFound hplace]
    by_cases hx : y = x
    · simp [hx]
    · have hne : place y ≠ place x := fun e => hx (place_injective e)
      simp [hx, hne]

/-- Coming upon code, or upon a place that has no number yet. -/
theorem Numbered.finds_new (ht : t.Numbered) (hr : ∀ x, r = place x → t.number? r = none) :
    Finds [r] t ((t.add r).countFound t.places.size) where
  numbered := (ht.add hr).countFound _
  size := by simp
  places k hk := by
    rw [places_countFound, places_add, Array.getElem?_push, if_neg (Nat.ne_of_lt hk)]
  edges k hk := by
    change (t.edges.push [])[k]? = t.edges[k]?
    rw [Array.getElem?_push, if_neg (ht.edges ▸ Nat.ne_of_lt hk)]
  pending k hk := by
    change k ∈ t.places.size :: t.pending ↔ _
    simp [Nat.ne_of_lt hk]
  fresh k hle hlt := by
    rw [places_countFound, places_add, Array.size_push] at hlt
    have he : k = t.places.size := by omega
    change k ∈ t.places.size :: t.pending
    exact he ▸ List.mem_cons_self
  new k r' hk := by
    rw [places_countFound, places_add, Array.getElem?_push] at hk
    split at hk
    · exact .inr (by simpa using hk.symm)
    · exact .inl (lt_of_places hk)
  balance x := by
    have hplace : (t.add r).places[t.places.size]? = some r := by simp
    rw [(ht.add hr).balance_countFound hplace, ht.balance_add hr]
    by_cases hx : r = place x
    · simp [hx]
    · simp [hx]

/-- Coming upon one reference. -/
theorem Numbered.finds_one (ht : t.Numbered) (r : Reference) :
    Finds [r] t ((t.meet r).2.countFound (t.meet r).1) ∧
      ((t.meet r).2.countFound (t.meet r).1).places[(t.meet r).1]? = some r := by
  unfold meet
  split
  · rename_i n hn
    obtain ⟨y, rfl⟩ : ∃ y, r = place y := by
      cases r with
      | value v => exact ⟨.object v, rfl⟩
      | frame id => exact ⟨.frame id, rfl⟩
      | code scope => cases hn
    have hplace := (ht.number y n).1 hn
    exact ⟨ht.finds_known hplace, hplace⟩
  · rename_i hnone
    have hplace : (t.add r).places[t.places.size]? = some r := by simp
    exact ⟨ht.finds_new fun _ _ => hnone, hplace⟩

/-- Coming upon references one after the other, with the numbers of all of them. -/
theorem Numbered.finds (ht : t.Numbered) (rs : List Reference) (targets : List Nat) :
    Finds rs t (t.findAll rs targets).2 ∧ (∀ n ∈ targets, n ∈ (t.findAll rs targets).1) ∧
      ∀ r ∈ rs, ∃ n ∈ (t.findAll rs targets).1,
        (t.findAll rs targets).2.places[n]? = some r := by
  induction rs generalizing t targets with
  | nil => exact ⟨.refl ht, fun _ h => h, nofun⟩
  | cons r rest ih =>
    obtain ⟨hone, hplace⟩ := ht.finds_one r
    obtain ⟨hrest, hkeep, hreach⟩ := ih hone.numbered ((t.meet r).1 :: targets)
    refine ⟨hone.trans hrest, fun n hn => hkeep n (.tail _ hn), fun r' hr' => ?_⟩
    rcases List.mem_cons.1 hr' with rfl | hr'
    · refine ⟨(t.meet r').1, hkeep _ (.head _), ?_⟩
      exact (hrest.places _ (lt_of_places hplace)).trans hplace
    · exact hreach r' hr'

theorem findAll_cons (t : Trial) (r : Reference) (rest : List Reference) (targets : List Nat) :
    t.findAll (r :: rest) targets =
      ((t.meet r).2.countFound (t.meet r).1).findAll rest ((t.meet r).1 :: targets) := rfl

/-- The numbers that are given are those of the references. -/
theorem Numbered.of_mem_findAll (ht : t.Numbered) (rs : List Reference) (targets : List Nat) :
    ∀ n ∈ (t.findAll rs targets).1, n ∈ targets ∨ ∃ r ∈ rs,
      (t.findAll rs targets).2.places[n]? = some r := by
  induction rs generalizing t targets with
  | nil => exact fun n hn => .inl hn
  | cons r rest ih =>
    obtain ⟨hone, hplace⟩ := ht.finds_one r
    intro n hn
    rcases ih hone.numbered ((t.meet r).1 :: targets) n hn with hn | ⟨r', hr', hplace'⟩
    · rcases List.mem_cons.1 hn with rfl | hn
      · have hrest := (hone.numbered.finds rest ((t.meet r).1 :: targets)).1
        exact .inr ⟨r, List.mem_cons_self, (hrest.places _ (lt_of_places hplace)).trans hplace⟩
      · exact .inl hn
    · exact .inr ⟨r', List.mem_cons_of_mem _ hr', hplace'⟩

/-- Nothing was found yet in a place that is only met. -/
theorem getD_edges_findAll (t : Trial) (rs : List Reference) (targets : List Nat) (n : Nat) :
    (t.findAll rs targets).2.edges.getD n [] = t.edges.getD n [] := by
  induction rs generalizing t targets with
  | nil => rfl
  | cons r rest ih =>
    refine (ih _ _).trans ?_
    change (t.meet r).2.edges.getD n [] = _
    unfold meet
    split
    · rfl
    · change (t.edges.push []).getD n [] = _
      simp only [Array.getD_eq_getD_getElem?, Array.getElem?_push]
      split
      · rename_i he
        simp [he]
      · rfl

/-- Every place that is met is pending. -/
theorem size_findAll (t : Trial) (rs : List Reference) (targets : List Nat) :
    (t.findAll rs targets).2.places.size + t.pending.length =
      t.places.size + (t.findAll rs targets).2.pending.length := by
  induction rs generalizing t targets with
  | nil => rfl
  | cons r rest ih =>
    have hmeet : (t.meet r).2.places.size + t.pending.length =
        t.places.size + (t.meet r).2.pending.length := by
      unfold meet
      split
      · rfl
      · change (t.places.push r).size + _ = _ + (t.places.size :: t.pending).length
        simp only [Array.size_push, List.length_cons]
        omega
    have hrest := ih ((t.meet r).2.countFound (t.meet r).1) ((t.meet r).1 :: targets)
    have hcount : ((t.meet r).2.countFound (t.meet r).1).pending = (t.meet r).2.pending := rfl
    rw [← findAll_cons, places_countFound, hcount] at hrest
    omega

end numbers

end ScriptVM.Trial
