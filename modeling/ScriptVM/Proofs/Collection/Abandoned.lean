import Mathlib.Data.Bool.Count
import ScriptVM.Proofs.Collection.Explore

/-!
# Abandoned targets

What a search leaves unmarked is abandoned: no activation runs in it, the owner does not keep it,
and nothing else that exists refers to it. For if the count of a place does not exceed how often the
place was found, everything that refers to it was looked into.
-/
namespace ScriptVM

open Finset (range)

namespace Holding

/-- Some targets that nothing else refers to. -/
structure Abandoned (s : Holding) (gone : Target → Prop) : Prop where
  active : ∀ id f, s.arena.get? id = some f → 0 < f.active → ¬gone (.frame id)
  kept : ∀ r ∈ s.kept, ¬gone r.target
  closed : ∀ x, s.Exists x → ¬gone x → ∀ r ∈ s.referents x, ¬gone r.target

variable {s : Holding} {x y : Target} {r : Reference} {seen : Reference → Bool}

section explored

-- Every object that was looked into exists.
variable (hseen : ∀ v : Value, v.address < s.heap.objects.size → seen (.value v) = true →
  s.Exists (.object v))

include hseen in
theorem explored_object_le (x : Target) {i : Nat} (hi : i < s.heap.objects.size) :
    (if seen (.value ⟨i⟩) then hits x (s.heap.get ⟨i⟩).parts else 0) ≤
      if s.has ⟨i⟩ then hits x (s.heap.get ⟨i⟩).parts else 0 := by
  split
  · rename_i h
    have hexists : s.has ⟨i⟩ = true := hseen ⟨i⟩ hi h
    rw [if_pos hexists]
  · exact Nat.zero_le _

theorem explored_frame_le (x : Target) (i : Nat) :
    (if seen (.frame ⟨i⟩) then hits x (s.references (.frame ⟨i⟩)) else 0) ≤
      (s.arena.get? ⟨i⟩).elim 0 fun f => hits x f.references := by
  split
  · have hreferents : hits x (s.referents (.frame ⟨i⟩)) =
        (s.arena.get? ⟨i⟩).elim 0 fun f => hits x f.references := by
      rw [referents]
      cases s.arena.get? ⟨i⟩ <;> rfl
    rcases s.references_place (.frame ⟨i⟩) with he | ⟨he, -⟩ <;> rw [Trial.place] at he <;> rw [he]
    · exact Nat.le_of_eq hreferents
    · exact Nat.zero_le _
  · exact Nat.zero_le _

include hseen in
/-- What was explored refers to a target at most as often as what exists. -/
theorem explored_le_standing (x : Target) : s.explored seen x ≤ s.standing x :=
  Nat.add_le_add
    (Finset.sum_le_sum fun _ hi => explored_object_le hseen x (Finset.mem_range.1 hi))
    (Finset.sum_le_sum fun i _ => explored_frame_le x i)

/-- Whether a search has looked into a target, and not just met it. Frames in which activations run
are not looked into. -/
def LookedInto (s : Holding) (seen : Reference → Bool) (y : Target) : Prop :=
  seen (Trial.place y) = true ∧ s.references (Trial.place y) = s.referents y

include hseen in
/-- It falls short when something exists that was not looked into. -/
theorem explored_lt_standing (hy : s.Exists y) (hr : r ∈ s.referents y)
    (hnot : ¬s.LookedInto seen y) : s.explored seen r.target < s.standing r.target := by
  have hpos := hits_pos hr
  have hobjects := fun i hi => explored_object_le hseen r.target (Finset.mem_range.1 hi) (i := i)
  have hframes := fun i (_ : i ∈ range s.arena.frames.size) =>
    (explored_frame_le r.target i :
      (if seen (.frame ⟨i⟩) then hits r.target (s.references (.frame ⟨i⟩)) else 0) ≤ _)
  -- One summand of what stands exceeds the summand of what was explored.
  unfold explored standing
  cases y with
  | object v =>
    have hlt : v.address < s.heap.objects.size := by
      refine Nat.lt_of_not_le fun hle => ?_
      rw [referents_outside hle] at hr
      cases hr
    refine Nat.add_lt_add_of_lt_of_le (Finset.sum_lt_sum hobjects
      ⟨v.address, Finset.mem_range.2 hlt, ?_⟩) (Finset.sum_le_sum hframes)
    have hunseen : ¬seen (.value ⟨v.address⟩) = true := fun h => hnot ⟨h, rfl⟩
    have hexists : s.has ⟨v.address⟩ = true := hy
    rw [if_neg hunseen, if_pos hexists, ← Object.hits_references]
    exact hpos
  | frame id =>
    obtain ⟨f, hf⟩ := Option.isSome_iff_exists.1 hy
    refine Nat.add_lt_add_of_le_of_lt (Finset.sum_le_sum hobjects) (Finset.sum_lt_sum hframes
      ⟨id.serial, Finset.mem_range.2 (Arena.serial_lt_of_get? hf), ?_⟩)
    have hget : s.arena.get? ⟨id.serial⟩ = some f := hf
    rw [referents, hf] at hr hpos
    rw [hget, Option.elim_some]
    split
    · rename_i h
      rcases s.references_place (.frame id) with he | ⟨he, -⟩
      · exact absurd ⟨h, he⟩ hnot
      · have he' : s.references (.frame ⟨id.serial⟩) = [] := he
        rw [he']
        exact hpos
    · exact hpos

end explored

/-- Whether a target could exist. -/
def Within (s : Holding) : Target → Prop
  | .object v => v.address < s.heap.objects.size
  | .frame _ => True

theorem within_of_referents (hr : r ∈ s.referents x) : s.Within x := by
  cases x with
  | object v =>
    refine Nat.lt_of_not_le fun hle => ?_
    rw [referents_outside hle] at hr
    cases hr
  | frame id => exact trivial

end Holding

namespace Trial

variable {s : Holding} {t : Trial} {x : Target} {n : Nat} {isHeld : Reference → Nat → Bool}

theorem Explores.exists_of_seen (ht : t.Explores s) (v : Value)
    (hv : v.address < s.heap.objects.size) (hseen : t.seen (.value v) = true) :
    s.Exists (.object v) := by
  obtain ⟨k, hk, -⟩ := (ht.numbered.seen_iff (x := .object v)).1 hseen
  exact ht.exist k v hk hv

/-- A place that is not referred to more often than it was found is only referred to from what was
looked into. -/
theorem Explores.unheld (hs : s.Sound) (ht : t.Explores s) (hn : t.places[n]? = some (place x))
    (hx : s.Within x) (hheld : s.isHeld (place x) (t.found.getD n 0) = false) :
    hits x s.kept = 0 ∧ t.codePending x = 0 ∧ s.standing x ≤ s.explored t.seen x ∧
      ∀ id f, x = .frame id → s.arena.get? id = some f → f.active = 0 := by
  have hle := Holding.explored_le_standing ht.exists_of_seen x
  have htimes : t.timesFound x = t.found.getD n 0 := by
    rw [timesFound, (ht.numbered.number x n).2 hn]
    rfl
  have hbalance : t.timesFound x + t.codePending x = s.explored t.seen x := ht.balance x
  rw [htimes] at hbalance
  cases x with
  | object v =>
    have hcount := hs.counted hx
    have hfound : s.count v ≤ t.found.getD n 0 := by
      simpa [place, Holding.isHeld] using hheld
    exact ⟨by omega, by omega, by omega, fun _ _ h => by cases h⟩
  | frame id =>
    cases hf : s.arena.get? id with
    | none => simp [place, Holding.isHeld, hf] at hheld
    | some f =>
      have hcount := hs.held hf
      have hfound : f.held ≤ t.found.getD n 0 := by
        simpa [place, Holding.isHeld, hf] using hheld
      refine ⟨by omega, by omega, by omega, fun other g he hg => ?_⟩
      cases he
      cases hf.symm.trans hg
      omega

/-! ## Marks -/

/-- What is held from outside. -/
def heldMarks (t : Trial) (isHeld : Reference → Nat → Bool) : Array Bool :=
  (t.places.zip t.found).map fun (place, found) => isHeld place found

/-- What can be reached from what is held from outside. -/
def liveMarks (t : Trial) (isHeld : Reference → Nat → Bool) : Array Bool :=
  spread t.edges (t.places.size + 1)
    ((List.range t.places.size).filter fun n => (t.heldMarks isHeld).getD n true)
    (t.heldMarks isHeld)

theorem Numbered.size_heldMarks (ht : t.Numbered) (isHeld : Reference → Nat → Bool) :
    (t.heldMarks isHeld).size = t.places.size := by
  simp [heldMarks, ht.found]

theorem Numbered.getD_heldMarks (ht : t.Numbered) {r : Reference} (hn : t.places[n]? = some r) :
    (t.heldMarks isHeld).getD n true = isHeld r (t.found.getD n 0) := by
  have hlt := lt_of_places hn
  have hlt' : n < t.found.size := ht.found ▸ hlt
  have hr : t.places[n] = r := (Array.getElem?_eq_some_iff.1 hn).2
  simp [heldMarks, Array.getD_eq_getD_getElem?, hlt, hlt', hr]

/-- What is marked at first is to be spread from, and the rest is to be marked. -/
theorem length_marked_add_count_false (marks : Array Bool) :
    ((List.range marks.size).filter fun n => marks.getD n true).length + marks.count false =
      marks.size := by
  have hlist : (List.range marks.size).map (fun n => marks.getD n true) = marks.toList := by
    refine List.ext_getElem (by simp) fun n hn hn' => ?_
    have hlt : n < marks.size := by simpa using hn'
    simp [hlt]
  have hcount := List.count_true_add_count_false marks.toList
  have htrue : marks.toList.count true =
      ((List.range marks.size).filter fun n => marks.getD n true).length := by
    rw [← hlist, List.count_eq_countP, List.countP_map, List.countP_eq_length_filter]
    simp [Function.comp_def]
  rwa [htrue, Array.count_toList, Array.length_toList] at hcount

/-- What is held from outside is marked in the end, and so is what a marked place refers to. -/
theorem Numbered.liveMarks (ht : t.Numbered) (isHeld : Reference → Nat → Bool) :
    (t.liveMarks isHeld).size = t.places.size ∧
      (∀ n, Marked (t.heldMarks isHeld) n → Marked (t.liveMarks isHeld) n) ∧
      ∀ n, Marked (t.liveMarks isHeld) n →
        ∀ k ∈ t.edges.getD n [], Marked (t.liveMarks isHeld) k := by
  have hsize := ht.size_heldMarks isHeld
  rw [← hsize]
  refine spread_closed ?_ fun n hn => ?_
  · have hlength := length_marked_add_count_false (t.heldMarks isHeld)
    rw [hsize] at hlength
    omega
  · rcases Nat.lt_or_ge n t.places.size with hlt | hge
    · exact .inl (List.mem_filter.2 ⟨List.mem_range.2 hlt, hn⟩)
    · have hnone : t.edges.getD n [] = [] := by simp [ht.edges, hge]
      exact .inr (by simp [hnone])

/-- Whether a place is left unmarked. -/
def Unmarked (t : Trial) (isHeld : Reference → Nat → Bool) (x : Target) : Prop :=
  ∃ n, t.places[n]? = some (place x) ∧ ¬Marked (t.liveMarks isHeld) n

/-- What a search leaves unmarked is abandoned. -/
theorem Explores.abandoned (hs : s.Sound) (ht : t.Explores s) :
    s.Abandoned fun x => s.Within x ∧ t.Unmarked s.isHeld x := by
  obtain ⟨-, hheld, hclosed⟩ := ht.numbered.liveMarks s.isHeld
  have hunheld : ∀ {x n}, s.Within x → t.places[n]? = some (place x) →
      ¬Marked (t.liveMarks s.isHeld) n → s.isHeld (place x) (t.found.getD n 0) = false := by
    intro x n _ hn hnot
    exact Bool.eq_false_iff.2 fun h =>
      hnot (hheld n ((ht.numbered.getD_heldMarks hn).trans h))
  refine ⟨?_, ?_, ?_⟩
  · rintro id f hf hpos ⟨hin, n, hn, hnot⟩
    obtain ⟨-, -, -, hidle⟩ := ht.unheld hs hn hin (hunheld hin hn hnot)
    exact absurd (hidle id f rfl hf) (Nat.ne_of_gt hpos)
  · rintro r hr ⟨hin, n, hn, hnot⟩
    obtain ⟨hkept, -⟩ := ht.unheld hs hn hin (hunheld hin hn hnot)
    exact absurd hkept (Nat.ne_of_gt (hits_pos hr))
  · rintro x hx hstays r hr ⟨hin, n, hn, hnot⟩
    obtain ⟨-, hcode, hstanding, -⟩ := ht.unheld hs hn hin (hunheld hin hn hnot)
    by_cases hlooked : s.LookedInto t.seen x
    · obtain ⟨k, hk, hdone⟩ := ht.numbered.seen_iff.1 hlooked.1
      have hmarked : Marked (t.liveMarks s.isHeld) k :=
        Classical.not_not.1 fun h => hstays ⟨Holding.within_of_referents hr, k, hk, h⟩
      obtain ⟨j, hj, hplace⟩ := ht.edges k _ hk hdone r (hlooked.2 ▸ hr)
      have hj' := hclosed k hmarked j hj
      -- Code is looked into itself before its scope is found.
      cases r with
      | value v => exact hnot (ht.numbered.unique (x := .object v) hn hplace ▸ hj')
      | frame id => exact hnot (ht.numbered.unique (x := .frame id) hn hplace ▸ hj')
      | code scope =>
        by_cases hpending : j ∈ t.pending
        · have hpos : 0 < t.codePending (.frame scope) :=
            List.countP_pos_iff.2 ⟨j, hpending, by simp [hplace]⟩
          exact absurd hcode (Nat.ne_of_gt hpos)
        · obtain ⟨i, hi, hscope⟩ := ht.edges j _ hplace hpending (.frame scope) (.head _)
          exact hnot (ht.numbered.unique (x := .frame scope) hn hscope ▸ hclosed j hj' i hi)
    · exact absurd hstanding
        (Nat.not_le.2 (Holding.explored_lt_standing ht.exists_of_seen hx hr hlooked))

/-! ## Garbage -/

theorem garbage_eq (t : Trial) (isHeld : Reference → Nat → Bool) :
    t.garbage isHeld = (t.places.toList.zip (t.liveMarks isHeld).toList).filterMap
      fun (place, isLive) => match place with
        | .frame id => if isLive then none else some id
        | _ => none := rfl

/-- Garbage are the frames that are left unmarked. -/
theorem Numbered.mem_garbage (ht : t.Numbered) {id : FrameId} :
    id ∈ t.garbage isHeld ↔ t.Unmarked isHeld (.frame id) := by
  have hsize := (ht.liveMarks isHeld).1
  rw [garbage_eq, List.mem_filterMap]
  constructor
  · rintro ⟨⟨r, isLive⟩, hmem, hid⟩
    obtain ⟨n, hn⟩ := List.mem_iff_getElem?.1 hmem
    obtain ⟨hr, hlive⟩ := List.getElem?_zip_eq_some.1 hn
    cases r <;> cases isLive <;> cases hid
    exact ⟨n, by simpa [place] using hr, by simp_all [Marked, Array.getD_eq_getD_getElem?]⟩
  · rintro ⟨n, hn, hnot⟩
    have hlt : n < (t.liveMarks isHeld).size := hsize ▸ lt_of_places hn
    have hfalse : (t.liveMarks isHeld)[n] = false := by
      simpa [Marked, Array.getD_eq_getD_getElem?, hlt] using hnot
    refine ⟨(.frame id, false), List.mem_iff_getElem?.2 ⟨n, ?_⟩, rfl⟩
    exact List.getElem?_zip_eq_some.2 ⟨by simpa [place] using hn, by simp [hlt, hfalse]⟩

/-- Every frame is listed once. -/
theorem Numbered.nodup_garbage (ht : t.Numbered) (isHeld : Reference → Nat → Bool) :
    (t.garbage isHeld).Nodup := by
  have hframe : ∀ (p : Reference × Bool) id, (match p.1 with
      | .frame id => if p.2 then none else some id
      | _ => none) = some id → p.1 = place (.frame id) := by
    rintro ⟨r, isLive⟩ id h
    cases r <;> cases isLive <;> cases h
    rfl
  rw [garbage_eq, List.Nodup, List.pairwise_filterMap, List.pairwise_iff_getElem]
  rintro i j hi hj hij id hid other hother rfl
  have hi' := hframe _ id hid
  have hj' := hframe _ id hother
  simp only [List.get_eq_getElem, List.getElem_zip] at hi' hj'
  simp only [List.length_zip, Array.length_toList] at hi hj
  have hplace : ∀ k (hk : k < t.places.size), t.places.toList[k] = place (.frame id) →
      t.places[k]? = some (place (.frame id)) := by
    intro k hk h
    simpa [hk] using h
  have he := ht.unique (hplace i (by omega) hi') (hplace j (by omega) hj')
  omega

end Trial
end ScriptVM
