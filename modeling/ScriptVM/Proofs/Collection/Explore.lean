import ScriptVM.Frame.Collection
import ScriptVM.Proofs.Collection.Search

/-!
# What a search explores

What a search counts for a place never exceeds what refers to it, and falls short as soon as
something that exists and was not looked into refers to it. So what is left unmarked in the end is
abandoned: nothing else that exists refers to it, no activation runs in it, and its owner does not
keep it.
-/
namespace ScriptVM

open Finset (range)

namespace Holding

/-- What the owner keeps. -/
def kept (s : Holding) : List Reference :=
  s.frames.values.map .frame ++ s.values.values.map .value

/-- What an object or a frame refers to. -/
def referents (s : Holding) : Target → List Reference
  | .object v => (s.heap.get v).references
  | .frame id => (s.arena.get? id).elim [] Frame.references

/-- An object exists when something refers to it, and a frame when it is live. -/
def Exists (s : Holding) : Target → Prop
  | .object v => s.has v = true
  | .frame id => s.arena.isLive id = true

/-- Everything is counted for all that refers to it. -/
structure Sound (s : Holding) : Prop where
  covers : s.toTally.Covers s.heap s.kept
  family : s.arena.CountsChildren

/-- How often what exists refers to a target. -/
def standing (s : Holding) (x : Target) : Nat :=
  s.heap.demand s.has x +
    ∑ i ∈ range s.arena.frames.size, (s.arena.get? ⟨i⟩).elim 0 fun f => hits x f.references

/-- How often what was looked into refers to a target. -/
def explored (s : Holding) (seen : Reference → Bool) (x : Target) : Nat :=
  s.heap.demand (fun v => seen (.value v)) x +
    ∑ i ∈ range s.arena.frames.size,
      if seen (.frame ⟨i⟩) then hits x (s.references (.frame ⟨i⟩)) else 0

variable {s : Holding} {x y : Target} {v : Value} {id : FrameId} {f : Frame} {r : Reference}

theorem references_place (s : Holding) (x : Target) :
    s.references (Trial.place x) = s.referents x ∨ s.references (Trial.place x) = [] ∧
      ∃ id f, x = .frame id ∧ s.arena.get? id = some f ∧ 0 < f.active := by
  cases x with
  | object v => exact .inl rfl
  | frame id =>
    simp only [Trial.place, references, referents]
    cases hf : s.arena.get? id with
    | none => exact .inl rfl
    | some f =>
      by_cases hactive : f.isActive = true
      · exact .inr ⟨by simp [hactive], id, f, rfl, hf, by simpa [Frame.isActive] using hactive⟩
      · exact .inl (by simp [hactive])

theorem referents_outside (hv : s.heap.objects.size ≤ v.address) : s.referents (.object v) = [] := by
  have hget : s.heap.get v = default := by
    simp [Heap.get, hv]
  rw [referents, hget]
  rfl

theorem childCount_eq_sum (a : Arena) (id : FrameId) :
    a.childCount id =
      ∑ i ∈ range a.frames.size, (a.get? ⟨i⟩).elim 0 fun f => hits (.frame id) f.references := by
  unfold Arena.childCount
  induction a.frames.size with
  | zero => rfl
  | succ n ih =>
    rw [List.range_succ, List.countP_append, List.countP_singleton, Finset.sum_range_succ, ih]
    congr 1
    unfold Arena.isChildOf
    cases a.get? ⟨n⟩ with
    | none => rfl
    | some f =>
      have hparts := f.hits_parts_frame id
      simp only [Option.any_some, Option.elim_some, f.hits_references, hparts, hits_parent,
        Nat.zero_add]
      have hiff : f.parent.map Target.frame = some (.frame id) ↔ f.parent = some id := by
        cases f.parent <;> simp
      simp only [hiff, decide_eq_true_eq]

/-- Besides what was counted for a frame, its children refer to it. -/
theorem standing_frame (s : Holding) (id : FrameId) :
    s.standing (.frame id) = s.toTally.demand s.heap (.frame id) + s.arena.childCount id := by
  rw [standing, Tally.demand, Arena.demand_frame, childCount_eq_sum, Nat.add_zero]

/-- All that refers to an object was counted for it. -/
theorem standing_object (s : Holding) (v : Value) :
    s.standing (.object v) = s.toTally.demand s.heap (.object v) := by
  refine congrArg (s.heap.demand s.has (.object v) + ·) (Finset.sum_congr rfl fun i _ => ?_)
  cases s.arena.get? ⟨i⟩ with
  | none => rfl
  | some f =>
    have hparent : hits (.object v) (f.parent.toList.map .frame) = 0 := by
      rw [hits_parent]
      cases f.parent <;> simp
    simp only [Option.elim_some, f.hits_references, hparent, Nat.add_zero]

/-- A frame that is live is held by everything that refers to it. -/
theorem Sound.held (hs : s.Sound) (hf : s.arena.get? id = some f) :
    f.active + s.standing (.frame id) + hits (.frame id) s.kept ≤ f.held := by
  have hholders := hs.covers.holders hf
  have hchildren : s.arena.childCount id ≤ f.children := by
    rcases Nat.eq_zero_or_pos (s.arena.childCount id) with hzero | hpos
    · rw [hzero]
      exact Nat.zero_le _
    · obtain ⟨g, hg, hle⟩ := hs.family id hpos
      cases hf.symm.trans hg
      exact hle
  rw [standing_frame]
  unfold Frame.held
  omega

/-- An object is counted for everything that refers to it. -/
theorem Sound.counted (hs : s.Sound) (hv : v.address < s.heap.objects.size) :
    s.standing (.object v) + hits (.object v) s.kept ≤ s.count v := by
  rw [standing_object]
  exact hs.covers.count hv

/-- What exists refers to its targets. -/
theorem hits_le_standing (hy : s.Exists y) (x : Target) : hits x (s.referents y) ≤ s.standing x := by
  cases y with
  | object v =>
    rcases Nat.lt_or_ge v.address s.heap.objects.size with hlt | hge
    · have hle := Heap.hits_le_demand (p := s.has) hlt hy x
      rw [← Object.hits_references] at hle
      exact Nat.le_trans hle (Nat.le_add_right ..)
    · rw [referents_outside hge]
      exact Nat.zero_le _
  | frame id =>
    obtain ⟨f, hf⟩ := Option.isSome_iff_exists.1 hy
    have hle := Finset.single_le_sum
      (f := fun i => (s.arena.get? ⟨i⟩).elim 0 fun f => hits x f.references)
      (fun _ _ => Nat.zero_le _) (Finset.mem_range.2 (Arena.serial_lt_of_get? hf))
    rw [hf] at hle
    rw [referents, hf]
    exact Nat.le_trans hle (Nat.le_add_left ..)

/-- What something that exists refers to exists, too, if it is an object or a parent. -/
theorem Sound.exists_of_referent (hs : s.Sound) (hy : s.Exists y) (hr : r ∈ s.referents y)
    (hv : r.target = .object v) (hlt : v.address < s.heap.objects.size) : s.Exists (.object v) := by
  have hpos := hits_pos hr
  rw [hv] at hpos
  have hle := hits_le_standing hy (.object v)
  have hcount := hs.counted hlt
  exact Tally.has_of_pos (by omega)

theorem Sound.exists_of_kept (hs : s.Sound) (hv : Reference.value v ∈ s.kept)
    (hlt : v.address < s.heap.objects.size) : s.Exists (.object v) := by
  have hpos : 0 < hits (.object v) s.kept := hits_pos hv
  have hcount := hs.counted hlt
  exact Tally.has_of_pos (by omega)

end Holding

namespace Trial

/-- Whether a search has looked into a place. -/
def seen (t : Trial) (r : Reference) : Bool := (t.number? r).any fun n => ! t.pending.contains n

/-- A search whose counts are right, and that has noted the edges out of all that it looked into. -/
structure Explores (s : Holding) (t : Trial) : Prop where
  numbered : t.Numbered
  edges : ∀ (n : Nat) r, t.places[n]? = some r → n ∉ t.pending → ∀ r' ∈ s.references r,
    ∃ k ∈ t.edges.getD n [], t.places[k]? = some r'
  balance : ∀ x, t.balance x = s.explored t.seen x
  exist : ∀ (n : Nat) v, t.places[n]? = some (.value v) → v.address < s.heap.objects.size →
    s.Exists (.object v)

variable {s : Holding} {t : Trial} {r : Reference} {n : Nat} {rest : List Nat} {x y : Target}

theorem Numbered.seen_iff (ht : t.Numbered) :
    t.seen (place x) = true ↔ ∃ n, t.places[n]? = some (place x) ∧ n ∉ t.pending := by
  simp only [seen, Option.any_eq_true, ht.number, Bool.not_eq_true', List.contains_eq_mem,
    decide_eq_false_iff_not]

/-- A search with less to be looked into. -/
def withPending (t : Trial) (pending : List Nat) : Trial := { t with pending := pending }

theorem Numbered.withPending (ht : t.Numbered) (hp : t.pending = n :: rest) :
    (t.withPending rest).Numbered where
  found := ht.found
  edges := ht.edges
  number := ht.number
  pending k hk := ht.pending k (hp ▸ .tail _ hk)
  nodup := by
    have hnodup := ht.nodup
    rw [hp] at hnodup
    exact (List.nodup_cons.1 hnodup).2

/-- Code that is taken up is no longer pending. -/
theorem balance_withPending (hp : t.pending = n :: rest) (hn : t.places[n]? = some r) (x : Target) :
    t.balance x = (t.withPending rest).balance x + if r.target = x ∧ r ≠ place x then 1 else 0 := by
  have hfound : (t.withPending rest).timesFound x = t.timesFound x := rfl
  have hcode : t.codePending x = (t.withPending rest).codePending x +
      if r.target = x ∧ r ≠ place x then 1 else 0 := by
    cases x with
    | object v => cases r <;> simp [codePending, place, Reference.target]
    | frame id =>
      change t.pending.countP _ = rest.countP _ + _
      rw [hp, List.countP_cons, hn]
      cases r <;> simp [place, Reference.target] <;> rfl
  rw [balance, balance, hfound, hcode, Nat.add_assoc]

/-- What was looked into after one more place. -/
theorem Numbered.seen_expand {t' : Trial} {found : List Reference} (ht : t.Numbered)
    (hp : t.pending = n :: rest) (hn : t.places[n]? = some r)
    (hfinds : Finds found (t.withPending rest) t') (targets : List Nat) (y : Target) :
    (t'.setEdges n targets).seen (place y) = (t.seen (place y) || decide (place y = r)) := by
  have hnotin : n ∉ rest := by
    have hnodup := ht.nodup
    rw [hp] at hnodup
    exact (List.nodup_cons.1 hnodup).1
  have hseen : (t'.setEdges n targets).seen (place y) = t'.seen (place y) := by
    cases y <;> rfl
  have hiff : t'.seen (place y) = true ↔ t.seen (place y) = true ∨ place y = r := by
    rw [hfinds.numbered.seen_iff, ht.seen_iff, hp]
    constructor
    · rintro ⟨k, hk, hnot⟩
      have hlt : k < t.places.size := by
        refine Nat.lt_of_not_le fun hle => ?_
        exact hnot (hfinds.fresh k hle (lt_of_places hk))
      have hk' : t.places[k]? = some (place y) := (hfinds.places k hlt).symm.trans hk
      have hrest : k ∉ rest := fun h => hnot ((hfinds.pending k hlt).2 h)
      by_cases hkn : k = n
      · subst hkn
        exact .inr (Option.some.inj (hk'.symm.trans hn))
      · exact .inl ⟨k, hk', by simp [hkn, hrest]⟩
    · rintro (⟨k, hk, hnot⟩ | rfl)
      · have hlt := lt_of_places hk
        refine ⟨k, (hfinds.places k hlt).trans hk, fun h => hnot (.tail _ ?_)⟩
        exact (hfinds.pending k hlt).1 h
      · have hlt := lt_of_places hn
        exact ⟨n, (hfinds.places n hlt).trans hn, fun h => hnotin ((hfinds.pending n hlt).1 h)⟩
  rw [hseen, Bool.eq_iff_iff, hiff, Bool.or_eq_true, decide_eq_true_eq]

section insert

variable {p q : Reference → Bool}

/-- Looking into one more object. -/
theorem explored_insert_object {v : Value} (hp : p (.value v) = true) (hq : q (.value v) = false)
    (hvalues : ∀ u, u ≠ v → p (.value u) = q (.value u))
    (hframes : ∀ id, p (.frame id) = q (.frame id)) (x : Target) :
    s.explored p x = s.explored q x + hits x (s.references (.value v)) := by
  unfold Holding.explored
  simp only [hframes]
  rcases Nat.lt_or_ge v.address s.heap.objects.size with hlt | hge
  · rw [Heap.demand_flip (p := fun v => p (.value v)) (q := fun v => q (.value v)) hlt hp hq hvalues]
    have hparts := (s.heap.get v).hits_references x
    simp only [Holding.references, hparts]
    omega
  · have hnone : s.references (.value v) = [] := Holding.referents_outside hge
    have hsame : ∀ u : Value, u.address < s.heap.objects.size → p (.value u) = q (.value u) :=
      fun u hu => hvalues u fun e => Nat.not_lt.2 hge (e ▸ hu)
    rw [hnone, hits_nil, Nat.add_zero,
      Heap.demand_congr (p := fun v => p (.value v)) (q := fun v => q (.value v)) hsame]

/-- Looking into one more frame. -/
theorem explored_insert_frame {id : FrameId} (hp : p (.frame id) = true) (hq : q (.frame id) = false)
    (hvalues : ∀ v, p (.value v) = q (.value v))
    (hframes : ∀ other, other ≠ id → p (.frame other) = q (.frame other)) (x : Target) :
    s.explored p x = s.explored q x + hits x (s.references (.frame id)) := by
  unfold Holding.explored
  simp only [hvalues]
  rcases Nat.lt_or_ge id.serial s.arena.frames.size with hlt | hge
  · have hflip := sum_range_flip
      (f := fun i => if p (.frame ⟨i⟩) then hits x (s.references (.frame ⟨i⟩)) else 0)
      (g := fun i => if q (.frame ⟨i⟩) then hits x (s.references (.frame ⟨i⟩)) else 0) hlt
      fun i hi => by rw [hframes ⟨i⟩ fun e => hi (congrArg FrameId.serial e)]
    have hp' : p (.frame ⟨id.serial⟩) = true := hp
    have hq' : q (.frame ⟨id.serial⟩) = false := hq
    rw [if_pos hp', if_neg (by simp [hq']), Nat.add_zero] at hflip
    rw [hflip, Nat.add_assoc]
  · have hnone : s.references (.frame id) = [] := by
      simp [Holding.references, Arena.get?_eq_none_of_size_le hge]
    have hsame : ∀ i ∈ range s.arena.frames.size, p (.frame ⟨i⟩) = q (.frame ⟨i⟩) := fun i hi =>
      hframes ⟨i⟩ fun e => Nat.not_lt.2 hge (e ▸ Finset.mem_range.1 hi)
    rw [hnone, hits_nil, Nat.add_zero, Finset.sum_congr rfl fun i hi => by rw [hsame i hi]]

/-- Looking into one more object or frame. -/
theorem explored_insert (hself : q (place y) = false)
    (hp : ∀ z, p (place z) = (q (place z) || decide (place z = place y))) (x : Target) :
    s.explored p x = s.explored q x + hits x (s.references (place y)) := by
  have hsame : p (place y) = true := by simp [hp]
  have hother : ∀ z, z ≠ y → p (place z) = q (place z) := by
    intro z hz
    have hne : place z ≠ place y := fun e => hz (place_injective e)
    simp [hp, hne]
  cases y with
  | object v =>
    exact explored_insert_object hsame hself
      (fun u hu => hother (.object u) fun e => hu (Target.object.inj e))
      (fun id => hother (.frame id) nofun) x
  | frame id =>
    exact explored_insert_frame hsame hself (fun v => hother (.object v) nofun)
      (fun other hne => hother (.frame other) fun e => hne (Target.frame.inj e)) x

end insert

/-- What is found in a place that exists exists. -/
theorem exists_of_found {v : Value} (hs : s.Sound)
    (hr : ∀ u, r = .value u → u.address < s.heap.objects.size → s.Exists (.object u))
    (hfound : .value v ∈ s.references r) (hv : v.address < s.heap.objects.size) :
    s.Exists (.object v) := by
  cases r with
  | value u =>
    rcases Nat.lt_or_ge u.address s.heap.objects.size with hu | hu
    · exact hs.exists_of_referent (hr u rfl hu) hfound rfl hv
    · have hnone : s.references (.value u) = [] := Holding.referents_outside hu
      rw [hnone] at hfound
      cases hfound
  | code scope => simp [Holding.references] at hfound
  | frame id =>
    rcases s.references_place (.frame id) with he | ⟨he, -⟩
    · have hreferent : Reference.value v ∈ s.referents (.frame id) := he ▸ hfound
      refine hs.exists_of_referent (y := .frame id) ?_ hreferent rfl hv
      simp only [Holding.referents] at hreferent
      cases hf : s.arena.get? id with
      | none =>
        rw [hf] at hreferent
        cases hreferent
      | some f => simp [Holding.Exists, Arena.isLive, hf]
    · have hnone : s.references (.frame id) = [] := he
      rw [hnone] at hfound
      cases hfound

section expand

variable {t' : Trial} {targets : List Nat}

/-- What was explored after one more place, which may be code. -/
theorem Explores.explored_expand (ht : t.Explores s) (hp : t.pending = n :: rest)
    (hr : t.places[n]? = some r) (hfinds : Finds (s.references r) (t.withPending rest) t')
    (targets : List Nat) (x : Target) :
    s.explored (t'.setEdges n targets).seen x +
        (if r.target = x ∧ r ≠ place x then 1 else 0) =
      s.explored t.seen x + hits x (s.references r) := by
  have hseen := ht.numbered.seen_expand hp hr hfinds targets
  by_cases hr' : ∃ y, r = place y
  · obtain ⟨y, rfl⟩ := hr'
    have hunseen : t.seen (place y) = false := by
      refine Bool.eq_false_iff.2 fun h => ?_
      obtain ⟨k, hk, hnot⟩ := ht.numbered.seen_iff.1 h
      exact hnot (ht.numbered.unique hk hr ▸ hp ▸ .head _)
    have hcode : ¬((place y).target = x ∧ place y ≠ place x) := by
      rintro ⟨rfl, hne⟩
      exact hne (by rw [target_place])
    rw [if_neg hcode, Nat.add_zero, explored_insert hunseen hseen]
  · obtain ⟨scope, rfl⟩ : ∃ scope, r = .code scope := by
      cases r with
      | value v => exact absurd ⟨.object v, rfl⟩ hr'
      | frame id => exact absurd ⟨.frame id, rfl⟩ hr'
      | code scope => exact ⟨scope, rfl⟩
    have hne : ∀ y, place y ≠ .code scope := fun y => by cases y <;> exact nofun
    have hsame : ∀ y, (t'.setEdges n targets).seen (place y) = t.seen (place y) := fun y => by
      simp [hseen, hne]
    have hobjects : ∀ v, (t'.setEdges n targets).seen (.value v) = t.seen (.value v) :=
      fun v => hsame (.object v)
    have hframes : ∀ i, (t'.setEdges n targets).seen (.frame ⟨i⟩) = t.seen (.frame ⟨i⟩) :=
      fun i => hsame (.frame ⟨i⟩)
    have htarget : ((Reference.code scope).target = x ∧ Reference.code scope ≠ place x) ↔
        (Reference.frame scope).target = x := ⟨fun h => h.1, fun h => ⟨h, (hne x).symm⟩⟩
    simp only [Holding.explored, hobjects, hframes, Holding.references, hits_cons, hits_nil,
      htarget, Nat.zero_add]

theorem Explores.edges_expand (ht : t.Explores s) (hp : t.pending = n :: rest)
    (hr : t.places[n]? = some r) (hfinds : Finds (s.references r) (t.withPending rest) t')
    (hreach : ∀ r' ∈ s.references r, ∃ k ∈ targets, t'.places[k]? = some r') {k : Nat}
    {q : Reference} (hk : t'.places[k]? = some q) (hnot : k ∉ t'.pending) :
    ∀ r' ∈ s.references q, ∃ j ∈ (t'.setEdges n targets).edges.getD k [],
      t'.places[j]? = some r' := by
  intro r' hr'
  have hnr : t'.places[n]? = some r := (hfinds.places n (lt_of_places hr)).trans hr
  have hn : n < t'.edges.size := hfinds.numbered.edges ▸ lt_of_places hnr
  by_cases hkn : k = n
  · subst hkn
    have hedge : (t'.setEdges k targets).edges.getD k [] = targets := by
      simp [setEdges, Array.getD_eq_getD_getElem?, hn]
    have hq : q = r := Option.some.inj (hk.symm.trans hnr)
    rw [hedge]
    exact hreach r' (hq ▸ hr')
  · have hold : k < t.places.size := by
      refine Nat.lt_of_not_le fun hle => ?_
      exact hnot (hfinds.fresh k hle (lt_of_places hk))
    have hedge : (t'.setEdges n targets).edges.getD k [] = t.edges.getD k [] := by
      have hsame : t'.edges[k]? = t.edges[k]? := hfinds.edges k hold
      simp only [setEdges, Array.getD_eq_getD_getElem?, Array.getElem?_setIfInBounds, hsame,
        if_neg (Ne.symm hkn)]
    have hk' : t.places[k]? = some q := (hfinds.places k hold).symm.trans hk
    have hrest : k ∉ t.pending := by
      rw [hp, List.mem_cons, not_or]
      exact ⟨hkn, fun h => hnot ((hfinds.pending k hold).2 h)⟩
    obtain ⟨j, hj, hplace⟩ := ht.edges k q hk' hrest r' hr'
    rw [hedge]
    exact ⟨j, hj, (hfinds.places j (lt_of_places hplace)).trans hplace⟩

theorem Numbered.setEdges (ht : t.Numbered) (n : Nat) (targets : List Nat) :
    (t.setEdges n targets).Numbered where
  found := ht.found
  edges := by simpa [Trial.setEdges] using ht.edges
  number x k := by
    rw [places_setEdges, ← ht.number x k]
    cases x <;> rfl
  pending := ht.pending
  nodup := ht.nodup

/-- What is found in a place are the targets of its edges. -/
theorem expand_eq {next : Reference → List Reference} (hr : t.places[n]? = some r) :
    t.expand next n = (t.findAll (next r) []).2.setEdges n (t.findAll (next r) []).1 := by
  simp only [Trial.expand, hr]

/-- Looking into a place keeps the counts of a search right. -/
theorem Explores.expand (hs : s.Sound) (ht : t.Explores s) (hp : t.pending = n :: rest) :
    ((t.withPending rest).expand s.references n).Explores s := by
  have hlt : n < t.places.size := ht.numbered.pending n (hp ▸ .head _)
  obtain ⟨r, hr⟩ : ∃ r, t.places[n]? = some r := ⟨_, Array.getElem?_eq_getElem hlt⟩
  obtain ⟨hfinds, -, hreach⟩ := (ht.numbered.withPending hp).finds (s.references r) []
  rw [expand_eq (t := t.withPending rest) hr]
  refine ⟨hfinds.numbered.setEdges n _, fun k q hk hnot => ?_, fun x => ?_, fun k v hk hv => ?_⟩
  · exact ht.edges_expand hp hr hfinds hreach hk hnot
  · have hbalance : ∀ (t : Trial) targets, (t.setEdges n targets).balance x = t.balance x :=
      fun _ _ => by cases x <;> rfl
    have hpop := balance_withPending hp hr x
    have hwhole := ht.explored_expand hp hr hfinds
      ((t.withPending rest).findAll (s.references r) []).1 x
    rw [← ht.balance] at hwhole
    rw [hbalance, hfinds.balance]
    omega
  · rcases hfinds.new k _ hk with hold | hfound
    · exact ht.exist k v ((hfinds.places k hold).symm.trans hk) hv
    · exact exists_of_found hs (fun u hu => ht.exist n u (hu ▸ hr)) hfound hv

end expand

/-- What looking into a pending place keeps true is true in the end. -/
theorem run_induction {P : Trial → Prop} {next : Reference → List Reference}
    (step : ∀ t n rest, P t → t.pending = n :: rest → P ((t.withPending rest).expand next n))
    (rounds : Nat) (ht : P t) : P (run next rounds t) := by
  fun_induction Trial.run next rounds t with
  | case1 t => exact ht
  | case2 => exact ht
  | case3 => exact ht
  | case4 rounds objects frames places found edges n rest _ ih => exact ih (step _ n rest ht rfl)

theorem Explores.run (hs : s.Sound) (rounds : Nat) (ht : t.Explores s) :
    (run s.references rounds t).Explores s :=
  run_induction (fun _ _ _ ht hp => ht.expand hs hp) rounds ht

/-- A search that has only met the frames that it starts from. -/
structure Starts (t : Trial) : Prop where
  numbered : t.Numbered
  pending : ∀ n, n < t.places.size → n ∈ t.pending
  balance : ∀ x, t.balance x = 0
  frames : ∀ (n : Nat) r, t.places[n]? = some r → ∃ id, r = .frame id

theorem starts_empty : empty.Starts := by
  have hnone : ∀ x, empty.number? (place x) = none := by
    intro x
    cases x <;> simp [empty, number?, place]
  refine ⟨⟨rfl, rfl, fun x n => ?_, by simp [empty], List.nodup_nil⟩, by simp [empty], fun x => ?_,
    by simp [empty]⟩
  · rw [hnone]
    simp [empty]
  · rw [balance, timesFound, hnone]
    cases x <;> rfl

theorem Starts.meet (ht : t.Starts) (id : FrameId) : (t.meet (.frame id)).2.Starts := by
  unfold Trial.meet
  split
  · exact ht
  · rename_i hnone
    have hr : ∀ x, Reference.frame id = place x → t.number? (.frame id) = none := fun _ _ => hnone
    refine ⟨ht.numbered.add hr, fun n hn => ?_, fun x => ?_, fun n r hn => ?_⟩
    · rw [places_add, Array.size_push] at hn
      change n ∈ t.places.size :: t.pending
      rcases Nat.lt_or_ge n t.places.size with hlt | hge
      · exact .tail _ (ht.pending n hlt)
      · have he : n = t.places.size := by omega
        exact he ▸ List.mem_cons_self
    · rw [ht.numbered.balance_add hr, ht.balance]
      cases x <;> simp [place, Reference.target]
    · rw [places_add, Array.getElem?_push] at hn
      split at hn
      · exact ⟨id, (Option.some.inj hn).symm⟩
      · exact ht.frames n r hn

theorem Starts.explores (ht : t.Starts) : t.Explores s := by
  have hunseen : ∀ y, t.seen (place y) = false := by
    intro y
    refine Bool.eq_false_iff.2 fun h => ?_
    obtain ⟨k, hk, hnot⟩ := ht.numbered.seen_iff.1 h
    exact hnot (ht.pending k (lt_of_places hk))
  refine ⟨ht.numbered, fun n r hn hnot => ?_, fun x => ?_, fun n v hn => ?_⟩
  · exact absurd (ht.pending n (lt_of_places hn)) hnot
  · have hobjects : ∀ v, t.seen (.value v) = false := fun v => hunseen (.object v)
    have hframes : ∀ i, t.seen (.frame ⟨i⟩) = false := fun i => hunseen (.frame ⟨i⟩)
    simp [ht.balance, Holding.explored, Heap.demand, hobjects, hframes]
  · obtain ⟨id, hid⟩ := ht.frames n _ hn
    cases hid

theorem Starts.meetAll (ids : List FrameId) (ht : t.Starts) :
    (ids.foldl (fun t id => (t.meet (.frame id)).2) t).Starts :=
  List.foldlRecOn ids _ ht fun _ ht id _ => ht.meet id

/-- A search counts right what it explores. -/
theorem explores_search (hs : s.Sound) (start : List FrameId) :
    (s.trial start).Explores s :=
  (starts_empty.meetAll start).explores.run hs _

end Trial
end ScriptVM
