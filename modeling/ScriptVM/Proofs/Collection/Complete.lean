import Mathlib.Data.Fintype.Card
import Mathlib.Data.Fintype.EquivFin
import ScriptVM.Proofs.Collection.Cycle
import ScriptVM.Proofs.Collection.Settled

/-!
# What a collection leaves

Among exact counts, a place is held from outside only if the owner keeps it, if an activation runs in
it, or if something refers to it that the search has not looked into. A search that starts from all
idle frames and comes to its end has looked into all of them, so the latter is an object, and no
frame leads to it. Such objects are referred to by one another, for otherwise they would not exist.
So what a collection leaves can be reached from running activations, from what the owner keeps, or
from a cycle of objects that is lost. And it does leave what such a cycle leads to: the search never
comes to the cycle, so something that it did not find always refers to the frames.
-/
namespace ScriptVM

open Relation (ReflTransGen TransGen)
open Finset (range)

/-- Where everything has a predecessor, something comes after itself. -/
theorem exists_transGen_self {α : Type} [Finite α] [Nonempty α] {r : α → α → Prop}
    (h : ∀ a, ∃ b, r b a) : ∃ a, TransGen r a a := by
  by_contra hnone
  have htrans : IsTrans α (TransGen r) := ⟨fun _ _ _ => TransGen.trans⟩
  have hirrefl : Std.Irrefl (TransGen r) := ⟨fun a ha => hnone ⟨a, ha⟩⟩
  have hwf : WellFounded (TransGen r) := Finite.wellFounded_of_trans_of_irrefl _
  obtain ⟨a, -, hmin⟩ := hwf.has_min Set.univ Set.univ_nonempty
  obtain ⟨b, hb⟩ := h a
  exact hmin b trivial (.single hb)

namespace Holding

variable {s : Holding} {x y : Target} {id : FrameId} {f : Frame}

/-- What a search finds in code is the frame that it closes over, and what it finds in anything else
is referred to. -/
theorem target_of_mem_references {r r' : Reference} (s : Holding) (h : r' ∈ s.references r) :
    r'.target = r.target ∨ s.Refers r.target r'.target := by
  cases r with
  | value v => exact .inr ⟨r', h, rfl⟩
  | code scope =>
    cases List.mem_singleton.1 h
    exact .inl rfl
  | frame id =>
    have hplace : s.references (.frame id) = s.referents (.frame id) ∨
        s.references (.frame id) = [] := (s.references_place (.frame id)).imp_right (·.1)
    rcases hplace with he | he
    · exact .inr ⟨r', he ▸ h, rfl⟩
    · rw [he] at h
      cases h

/-! ## Exact counts -/

theorem Exact.held_eq (h : s.Exact) (hf : s.arena.get? id = some f) :
    f.held = f.active + s.standing (.frame id) + hits (.frame id) s.kept := by
  have hholders := h.balanced.balance _ _ (Tally.tracked_frame hf)
  have hchildren := h.intact.lineage.children id f hf
  rw [hits_nil] at hholders
  rw [standing_frame]
  unfold Frame.held
  omega

theorem Exact.count_eq (h : s.Exact) (hv : v.address < s.heap.objects.size) :
    s.count v = s.standing (.object v) + hits (.object v) s.kept := by
  have hcount := h.balanced.balance _ _ (Tally.tracked_object (h.balanced.size ▸ hv))
  rw [hits_nil] at hcount
  rw [standing_object]
  exact hcount

/-- If what was explored refers to a target less often than what exists, something exists that was not
looked into and refers to the target. -/
theorem exists_of_explored_lt {seen : Reference → Bool} (h : s.explored seen x < s.standing x) :
    ∃ y, s.Exists y ∧ s.Refers y x ∧ ¬s.LookedInto seen y := by
  have hreferrer : ∀ {y}, 0 < hits x (s.referents y) → s.Refers y x := hits_pos_iff.1
  by_contra hnone
  have hlooked : ∀ y, s.Exists y → s.Refers y x → s.LookedInto seen y := fun y hy hyx =>
    Classical.not_not.1 fun hnot => hnone ⟨y, hy, hyx, hnot⟩
  refine Nat.not_le.2 h (Nat.add_le_add (Finset.sum_le_sum fun i _ => ?_)
    (Finset.sum_le_sum fun i _ => ?_))
  · rcases Nat.eq_zero_or_pos (hits x (s.heap.get ⟨i⟩).parts) with hzero | hpos
    · simp [hzero]
    · split
      · rename_i hexists
        rw [← Object.hits_references] at hpos
        have hseen : seen (.value ⟨i⟩) = true :=
          (hlooked (.object ⟨i⟩) hexists (hreferrer hpos)).1
        simp only [hseen, if_true, Nat.le_refl]
      · exact Nat.zero_le _
  · cases hf : s.arena.get? ⟨i⟩ with
    | none => exact Nat.zero_le _
    | some f =>
      have hreferents :
        s.referents (.frame ⟨i⟩) = f.references := by rw [referents, hf, Option.elim_some]
      rw [Option.elim_some, ← hreferents]
      rcases Nat.eq_zero_or_pos (hits x (s.referents (.frame ⟨i⟩))) with hzero | hpos
      · rw [hzero]
        exact Nat.zero_le _
      · obtain ⟨hseen, hsame⟩ :=
          hlooked (.frame ⟨i⟩) (Arena.isLive_of_get? hf) (hreferrer hpos)
        have hseen' : seen (.frame ⟨i⟩) = true := hseen
        have hsame' : s.references (.frame ⟨i⟩) = s.referents (.frame ⟨i⟩) := hsame
        rw [if_pos hseen', hsame']

end Holding

/-! ## The edges of a search -/

namespace Trial

variable {s : Holding} {t : Trial} {r : Reference} {n m k : Nat} {rest targets : List Nat}
  {x y : Target} {id : FrameId}

/-- Every edge of a search leads from a place to something that is found in it. -/
def Honest (s : Holding) (t : Trial) : Prop :=
  ∀ n, ∀ k ∈ t.edges.getD n [], ∃ r r', t.places[n]? = some r ∧ t.places[k]? = some r' ∧
    r' ∈ s.references r

/-- What was met keeps its number. -/
def Keeps (t t' : Trial) : Prop := ∀ (n : Nat) r, t.places[n]? = some r → t'.places[n]? = some r

theorem Finds.keeps {t' : Trial} {found : List Reference} (h : Finds found t t') : t.Keeps t' :=
  fun n _ hn => (h.places n (lt_of_places hn)).trans hn

/-- What a search finds in a pending place. -/
theorem Numbered.finds_expand (ht : t.Numbered) (hp : t.pending = n :: rest) :
    ∃ r, t.places[n]? = some r ∧
      Finds (s.references r) (t.withPending rest)
        ((t.withPending rest).findAll (s.references r) []).2 ∧
      (t.withPending rest).expand s.references n =
        ((t.withPending rest).findAll (s.references r) []).2.setEdges n
          ((t.withPending rest).findAll (s.references r) []).1 := by
  have hlt : n < t.places.size := ht.pending n (hp ▸ .head _)
  have hr : t.places[n]? = some t.places[n] := Array.getElem?_eq_getElem hlt
  exact ⟨t.places[n], hr, ((ht.withPending hp).finds _ []).1, expand_eq (t := t.withPending rest) hr⟩

theorem Numbered.keeps_expand (ht : t.Numbered) (hp : t.pending = n :: rest) :
    t.Keeps ((t.withPending rest).expand s.references n) := by
  obtain ⟨r, -, hfinds, he⟩ := ht.finds_expand (s := s) hp
  rw [he]
  exact hfinds.keeps

theorem mem_getD_setEdges (hk : k ∈ (t.setEdges n targets).edges.getD m []) :
    m = n ∧ k ∈ targets ∨ k ∈ t.edges.getD m [] := by
  simp only [setEdges, Array.getD_eq_getD_getElem?, Array.getElem?_setIfInBounds] at hk ⊢
  split at hk
  · rename_i he
    split at hk
    · exact .inl ⟨he.symm, hk⟩
    · cases hk
  · exact .inr hk

theorem Honest.expand (h : t.Honest s) (ht : t.Numbered) (hp : t.pending = n :: rest) :
    ((t.withPending rest).expand s.references n).Honest s := by
  obtain ⟨r, hr, hfinds, he⟩ := ht.finds_expand (s := s) hp
  have hplaces := hfinds.keeps
  rw [he]
  intro m k hk
  rcases mem_getD_setEdges hk with ⟨rfl, htarget⟩ | hold
  · rcases (ht.withPending hp).of_mem_findAll _ _ k htarget with hnone | ⟨r', hr', hk'⟩
    · cases hnone
    · exact ⟨r, r', hplaces m r hr, hk', hr'⟩
  · rw [getD_edges_findAll] at hold
    obtain ⟨q, q', hq, hq', hmem⟩ := h m k hold
    exact ⟨q, q', hplaces m q hq, hplaces k q' hq', hmem⟩

/-- Everything that a search met can be reached from the frames that it starts from. -/
def Reached (s : Holding) (start : List FrameId) (t : Trial) : Prop :=
  ∀ (n : Nat) r, t.places[n]? = some r → ∃ id ∈ start, s.Leads (.frame id) r.target

theorem Reached.expand {start : List FrameId} (h : t.Reached s start) (ht : t.Numbered)
    (hp : t.pending = n :: rest) :
    ((t.withPending rest).expand s.references n).Reached s start := by
  obtain ⟨r, hr, hfinds, he⟩ := ht.finds_expand (s := s) hp
  rw [he]
  intro k q hk
  rcases hfinds.new k q hk with hlt | hfound
  · exact h k q ((hfinds.places k hlt).symm.trans hk)
  · obtain ⟨id, hid, hlead⟩ := h n r hr
    rcases s.target_of_mem_references hfound with hsame | hrefers
    · exact ⟨id, hid, hsame ▸ hlead⟩
    · exact ⟨id, hid, hlead.tail hrefers⟩

/-! ## The search from some frames -/

theorem Numbered.keeps_meet (ht : t.Numbered) (r : Reference) :
    t.Keeps (t.meet r).2 ∧ (t.meet r).2.places[(t.meet r).1]? = some r := by
  obtain ⟨hfinds, hplace⟩ := ht.finds_one r
  exact ⟨hfinds.keeps, hplace⟩

theorem Honest.meet (h : t.Honest s) (ht : t.Numbered) (r : Reference) : (t.meet r).2.Honest s := by
  intro n k hk
  have hedges := getD_edges_findAll t [r] [] n
  obtain ⟨q, q', hq, hq', hmem⟩ := h n k (hedges ▸ hk)
  obtain ⟨hkeeps, -⟩ := ht.keeps_meet r
  exact ⟨q, q', hkeeps n q hq, hkeeps k q' hq', hmem⟩

/-- The search that has only met some frames. -/
def meetAll (t : Trial) (ids : List FrameId) : Trial :=
  ids.foldl (fun t id => (t.meet (.frame id)).2) t

theorem Starts.keeps_meetAll (ids : List FrameId) (ht : t.Starts) :
    t.Keeps (t.meetAll ids) ∧
      ∀ id ∈ ids, ∃ n : Nat, (t.meetAll ids).places[n]? = some (.frame id) := by
  induction ids generalizing t with
  | nil => exact ⟨fun _ _ h => h, nofun⟩
  | cons first rest ih =>
    obtain ⟨hold, hfirst⟩ := ht.numbered.keeps_meet (.frame first)
    obtain ⟨hkeep, hrest⟩ := ih (ht.meet first)
    refine ⟨fun n r hn => hkeep n r (hold n r hn), fun id hid => ?_⟩
    rcases List.mem_cons.1 hid with rfl | hid
    · exact ⟨_, hkeep _ _ hfirst⟩
    · exact hrest id hid

/-- It met nothing else. -/
theorem Starts.of_places_meetAll {ids : List FrameId} (ht : t.Starts)
    (hn : (t.meetAll ids).places[n]? = some r) : t.places[n]? = some r ∨ ∃ id ∈ ids, r = .frame id := by
  induction ids generalizing t with
  | nil => exact .inl hn
  | cons first rest ih =>
    obtain ⟨hfinds, -⟩ := ht.numbered.finds_one (.frame first)
    rcases ih (ht.meet first) hn with hold | ⟨id, hid, hr⟩
    · rcases hfinds.new n r hold with hlt | hr
      · exact .inl ((hfinds.places n hlt).symm.trans hold)
      · exact .inr ⟨first, List.mem_cons_self, List.mem_singleton.1 hr⟩
    · exact .inr ⟨id, List.mem_cons_of_mem _ hid, hr⟩

theorem honest_meetAll (ids : List FrameId) : (empty.meetAll ids).Honest s := by
  have hempty : empty.Honest s := fun n k hk => by simp [empty] at hk
  refine (List.foldlRecOn (motive := fun t : Trial => t.Starts ∧ t.Honest s) ids _
    ⟨starts_empty, hempty⟩ fun t ht id _ => ?_).2
  exact ⟨ht.1.meet id, ht.2.meet ht.1.numbered (.frame id)⟩

theorem Numbered.length_pending_le (ht : t.Numbered) : t.pending.length ≤ t.places.size := by
  have hsub : t.pending ⊆ List.range t.places.size := fun n hn =>
    List.mem_range.2 (ht.pending n hn)
  simpa using (List.subperm_of_subset ht.nodup hsub).length_le

/-- A search looks into one place in each round, so it comes to its end unless it meets too much. -/
theorem pending_run {next : Reference → List Reference} {rounds : Nat}
    (hrounds : trialLimit + 1 + t.pending.length ≤ t.places.size + rounds)
    (hlimit : (run next rounds t).isOverLimit = false) : (run next rounds t).pending = [] := by
  fun_induction Trial.run next rounds t with
  | case1 t =>
    refine absurd ?_ (of_decide_eq_false hlimit)
    omega
  | case2 => rfl
  | case3 rounds objects frames places found edges n rest hover =>
    exact absurd hover (of_decide_eq_false hlimit)
  | case4 rounds objects frames places found edges n rest _ ih =>
    refine ih ?_ hlimit
    dsimp only at hrounds
    rw [List.length_cons] at hrounds
    unfold Trial.expand
    split
    · dsimp only
      omega
    · rename_i r _
      have hsize := size_findAll ⟨objects, frames, places, found, edges, rest⟩ (next r) []
      dsimp only at hsize ⊢
      change trialLimit + 1 + (Trial.findAll _ _ _).2.pending.length ≤
        (Trial.findAll _ _ _).2.places.size + rounds
      omega

/-- What a search has to show for itself when it has come to its end. -/
structure Completes (s : Holding) (start : List FrameId) (t : Trial) : Prop extends
    Explores s t where
  honest : t.Honest s
  reached : t.Reached s start
  started : ∀ id ∈ start, ∃ n : Nat, t.places[n]? = some (.frame id)
  done : t.pending = []

theorem completes_search (hs : s.Sound) {start : List FrameId}
    (hlimit : (s.trial start).isOverLimit = false) : (s.trial start).Completes s start := by
  have hstarts : (empty.meetAll start).Starts := starts_empty.meetAll start
  obtain ⟨-, hstarted⟩ := starts_empty.keeps_meetAll start
  have hhonest : (empty.meetAll start).Honest s := honest_meetAll start
  have hreached : (empty.meetAll start).Reached s start := fun n r hn => by
    rcases starts_empty.of_places_meetAll hn with hnone | ⟨id, hid, rfl⟩
    · simp [empty] at hnone
    · exact ⟨id, hid, .refl⟩
  have hrounds := Nat.add_le_add_left hstarts.numbered.length_pending_le (trialLimit + 1)
  have hrun : s.trial start = run s.references (trialLimit + 1) (empty.meetAll start) := rfl
  rw [hrun] at hlimit ⊢
  generalize empty.meetAll start = t₀ at hstarts hstarted hhonest hreached hrounds hlimit ⊢
  let P : Trial → Prop := fun t => t.Explores s ∧ t.Honest s ∧ t.Reached s start ∧ t₀.Keeps t
  have hstep : ∀ t n rest, P t → t.pending = n :: rest →
      P ((t.withPending rest).expand s.references n) := by
    rintro t n rest ⟨hexplores, hhonest, hreached, hkeeps⟩ hp
    have ht := hexplores.numbered
    exact ⟨hexplores.expand hs hp, hhonest.expand ht hp, hreached.expand ht hp,
      fun k r hk => ht.keeps_expand hp k r (hkeeps k r hk)⟩
  obtain ⟨hexplores, hhonest, hreached, hkeeps⟩ := run_induction hstep (trialLimit + 1)
    ⟨hstarts.explores, hhonest, hreached, fun _ _ h => h⟩
  refine ⟨hexplores, hhonest, hreached, fun id hid => ?_, pending_run (by omega) hlimit⟩
  obtain ⟨n, hn⟩ := hstarted id hid
  exact ⟨n, hkeeps n _ hn⟩

/-! ## What a search leaves unseen -/

namespace Completes

variable {start : List FrameId} (ht : t.Completes s start)

include ht

theorem seen_of_places (hn : t.places[n]? = some (place x)) : t.seen (place x) = true :=
  ht.numbered.seen_iff.2 ⟨n, hn, by simp [ht.done]⟩

/-- What is referred to by something that was looked into was looked into, too. -/
theorem seen_of_refers (hx : s.LookedInto t.seen x) (hxy : s.Refers x y) :
    t.seen (place y) = true := by
  have hpending : ∀ n : Nat, n ∉ t.pending := by simp [ht.done]
  obtain ⟨r, hr, rfl⟩ := hxy
  obtain ⟨n, hn, -⟩ := ht.numbered.seen_iff.1 hx.1
  obtain ⟨k, -, hk⟩ := ht.edges n _ hn (hpending n) r (hx.2 ▸ hr)
  cases r with
  | value v => exact ht.seen_of_places (x := .object v) hk
  | frame id => exact ht.seen_of_places (x := .frame id) hk
  | code scope =>
    -- Code was looked into itself.
    obtain ⟨i, -, hi⟩ := ht.edges k _ hk (hpending k) (.frame scope) (.head _)
    exact ht.seen_of_places (x := .frame scope) hi

/-- Nothing that a lost object leads to is left unmarked. -/
theorem not_unmarked {v : Value} (hs : s.Sound) (hstart : ∀ id ∈ start, s.arena.isLive id = true)
    (hlost : s.Lost v) (hv : s.has v = true) (hx : s.Leads (.object v) x) :
    ¬(s.Within x ∧ t.Unmarked s.isHeld x) := by
  have hclosed := (ht.abandoned hs).closed
  induction hx with
  | refl =>
    rintro ⟨-, n, hn, -⟩
    obtain ⟨id, hid, hlead⟩ := ht.reached n _ hn
    exact hlost.away id (hstart id hid) hlead
  | tail hlead hstep ih =>
    have hexists := hs.exists_of_leads (x := .object v) hv hlead hstep
    obtain ⟨r, hr, rfl⟩ := hstep
    exact hclosed _ hexists ih r hr

omit ht in
/-- What was seen was looked into, unless an activation runs in it. -/
theorem lookedInto_or_rooted (hx : t.seen (place x) = true) : s.LookedInto t.seen x ∨ s.Rooted x := by
  rcases s.references_place x with he | ⟨-, id, f, rfl, hf, hactive⟩
  · exact .inl ⟨hx, he⟩
  · exact .inr (.active hf hactive)

/-- What can be reached from something that was seen was seen, unless activations come between. -/
theorem seen_or_rooted_of_leads (hxy : s.Leads x y) (hx : t.seen (place x) = true ∨ s.Rooted x) :
    t.seen (place y) = true ∨ s.Rooted y := by
  induction hxy with
  | refl => exact hx
  | tail _ hstep ih =>
    rcases ih with hseen | hrooted
    · rcases lookedInto_or_rooted hseen with hlooked | hrooted
      · exact .inl (ht.seen_of_refers hlooked hstep)
      · exact .inr (hrooted.step hstep)
    · exact .inr (hrooted.step hstep)

section idle

variable (hstart : ∀ id f, s.arena.get? id = some f → f.active = 0 → id ∈ start)

include hstart

/-- Every live frame was seen, or an activation runs in it. -/
theorem seen_or_rooted_frame (hid : s.arena.isLive id = true) :
    t.seen (.frame id) = true ∨ s.Rooted (.frame id) := by
  obtain ⟨f, hf⟩ := Option.isSome_iff_exists.1 hid
  rcases Nat.eq_zero_or_pos f.active with hidle | hactive
  · obtain ⟨n, hn⟩ := ht.started id (hstart id f hf hidle)
    exact .inl (ht.seen_of_places (x := .frame id) hn)
  · exact .inr (.active hf hactive)

/-- What refers to something that was neither seen nor rooted, or that was not looked into, is an
object that was neither seen nor rooted. -/
theorem exists_unseen (hx : s.Exists x) (hlooked : ¬s.LookedInto t.seen x) (hrooted : ¬s.Rooted x) :
    ∃ v, x = .object v ∧ t.seen (.value v) = false := by
  cases x with
  | object v => exact ⟨v, rfl, Bool.eq_false_iff.2 fun hseen => hlooked ⟨hseen, rfl⟩⟩
  | frame id =>
    rcases ht.seen_or_rooted_frame hstart hx with hseen | hr
    · rcases lookedInto_or_rooted (x := .frame id) hseen with hl | hr
      · exact absurd hl hlooked
      · exact absurd hr hrooted
    · exact absurd hr hrooted

variable (h : s.Exact)

include h

/-- An object that exists, but was neither seen nor rooted, is linked from another one. -/
theorem exists_links {v : Value} (hv : s.has v = true) (hunseen : t.seen (.value v) = false)
    (hrooted : ¬s.Rooted (.object v)) :
    ∃ u, s.has u = true ∧ t.seen (.value u) = false ∧ ¬s.Rooted (.object u) ∧ s.heap.Links u v := by
  have hlt : v.address < s.heap.objects.size := h.balanced.size ▸ Tally.lt_of_has hv
  have hkept : hits (.object v) s.kept = 0 := by
    refine Nat.eq_zero_of_not_pos fun hpos => hrooted ?_
    obtain ⟨r, hr, he⟩ := hits_pos_iff.1 hpos
    exact he ▸ .kept hr
  have hnumber : t.number? (place (.object v)) = none := by
    refine Option.eq_none_iff_forall_ne_some.2 fun n hn => ?_
    have hseen := ht.seen_of_places ((ht.numbered.number _ n).1 hn)
    exact Bool.noConfusion (hunseen.symm.trans hseen)
  have hexplored : s.explored t.seen (.object v) = 0 := by
    rw [← ht.balance, balance, timesFound, hnumber]
    rfl
  have hcount : 0 < s.count v := of_decide_eq_true hv
  rw [h.count_eq hlt, hkept] at hcount
  have hless : s.explored t.seen (.object v) < s.standing (.object v) := by omega
  obtain ⟨y, hy, hyv, hlooked⟩ := Holding.exists_of_explored_lt hless
  have hy' : ¬s.Rooted y := fun hr => hrooted (hr.step hyv)
  obtain ⟨u, rfl, hu⟩ := ht.exists_unseen hstart hy hlooked hy'
  exact ⟨u, hy, hu, hy', Holding.links_of_refers hyv⟩

/-- Going back from such an object comes to a cycle, and no frame leads to it. -/
theorem anchored_of_unseen {v : Value} (hv : s.has v = true) (hunseen : t.seen (.value v) = false) :
    s.Anchored (.object v) := by
  by_cases hrooted : s.Rooted (.object v)
  · exact .inl hrooted
  · let Unseen := { u : Value // (s.has u = true ∧ t.seen (.value u) = false ∧
      ¬s.Rooted (.object u)) ∧ s.Leads (.object u) (.object v) }
    have hfinite : Finite Unseen :=
      Finite.of_injective (fun u => (⟨u.1.address, Tally.lt_of_has u.2.1.1⟩ : Fin s.counts.size))
        fun a b hab => Subtype.ext (congrArg Value.mk (Fin.mk.inj hab))
    have hnonempty : Nonempty Unseen := ⟨⟨v, ⟨hv, hunseen, hrooted⟩, .refl⟩⟩
    have hback : ∀ a : Unseen, ∃ b : Unseen, s.heap.Links b.1 a.1 := by
      rintro ⟨a, ⟨ha, haunseen, harooted⟩, hlead⟩
      obtain ⟨b, hb, hbunseen, hbrooted, hlinks⟩ :=
        ht.exists_links hstart h ha haunseen harooted
      exact ⟨⟨b, ⟨hb, hbunseen, hbrooted⟩, .head (Holding.refers_of_links hlinks) hlead⟩, hlinks⟩
    obtain ⟨u, hcycle⟩ := exists_transGen_self hback
    obtain ⟨⟨-, huunseen, hurooted⟩, hlead⟩ := u.2
    have hlinks : TransGen s.heap.Links u.1 u.1 :=
      TransGen.lift Subtype.val (fun _ _ hab => hab) _ _ hcycle
    refine .inr ⟨u.1, ⟨hlinks, fun id hid hid' => ?_⟩, hlead⟩
    rcases ht.seen_or_rooted_of_leads hid' (ht.seen_or_rooted_frame hstart hid) with hseen | hr
    · exact Bool.noConfusion (huunseen.symm.trans hseen)
    · exact hurooted hr

/-- What refers to something and was not looked into is anchored. -/
theorem anchored_of_explored_lt (hx : s.explored t.seen x < s.standing x) : s.Anchored x := by
  obtain ⟨y, hy, hyx, hlooked⟩ := Holding.exists_of_explored_lt hx
  by_cases hrooted : s.Rooted y
  · exact .inl (hrooted.step hyx)
  · obtain ⟨u, rfl, hu⟩ := ht.exists_unseen hstart hy hlooked hrooted
    exact (ht.anchored_of_unseen hstart h hy hu).step hyx

/-- What is held from outside is anchored, unless it is a frame that was freed. -/
theorem anchored_of_held (hn : t.places[n]? = some (place x))
    (hheld : s.isHeld (place x) (t.found.getD n 0) = true)
    (hlive : ∀ id, x = .frame id → s.arena.isLive id = true) : s.Anchored x := by
  have hfound : t.found.getD n 0 = s.explored t.seen x := by
    have hcode : t.codePending x = 0 := by
      cases x with
      | object v => rfl
      | frame id => simp [codePending, ht.done]
    have htimes : t.timesFound x = t.found.getD n 0 := by
      rw [timesFound, (ht.numbered.number x n).2 hn]
      rfl
    rw [← ht.balance, balance, hcode, htimes, Nat.add_zero]
  rw [hfound] at hheld
  by_cases hkept : hits x s.kept = 0
  · cases x with
    | object v =>
      have hcount : s.explored t.seen (.object v) < s.count v := of_decide_eq_true hheld
      have hlt : v.address < s.heap.objects.size :=
        h.balanced.size ▸ Tally.lt_of_has (Tally.has_of_pos (t := s.toTally) (by omega))
      rw [h.count_eq hlt, hkept] at hcount
      exact ht.anchored_of_explored_lt hstart h hcount
    | frame id =>
      obtain ⟨f, hf⟩ := Option.isSome_iff_exists.1 (hlive id rfl)
      have hcount : s.explored t.seen (.frame id) < f.held := by
        simpa [place, Holding.isHeld, hf] using hheld
      rw [h.held_eq hf, hkept] at hcount
      rcases Nat.eq_zero_or_pos f.active with hidle | hactive
      · exact ht.anchored_of_explored_lt hstart h (by omega)
      · exact .inl (.active hf hactive)
  · obtain ⟨r, hr, rfl⟩ := hits_pos_iff.1 (Nat.pos_of_ne_zero hkept)
    exact .inl (.kept hr)

/-- What is marked is anchored, unless it is a frame that was freed. -/
theorem anchored_of_marked (hn : t.places[n]? = some r) (hmarked : Marked (t.liveMarks s.isHeld) n) :
    s.Anchored r.target ∨ ∃ id, r.target = .frame id ∧ s.arena.isLive id = false := by
  let P : Nat → Prop := fun n => ∀ r, t.places[n]? = some r →
    s.Anchored r.target ∨ ∃ id, r.target = .frame id ∧ s.arena.isLive id = false
  have hheld : ∀ n, Marked (t.heldMarks s.isHeld) n → P n := by
    intro n hmarked r hn
    rw [Marked, ht.numbered.getD_heldMarks hn] at hmarked
    cases r with
    | value v =>
      exact .inl (ht.anchored_of_held hstart h (x := .object v) hn hmarked fun _ he => by cases he)
    | code scope => cases hmarked
    | frame id =>
      cases hlive : s.arena.isLive id with
      | false => exact .inr ⟨id, rfl, hlive⟩
      | true =>
        refine .inl (ht.anchored_of_held hstart h (x := .frame id) hn hmarked fun other he => ?_)
        cases he
        exact hlive
  have hedges : ∀ n, P n → ∀ k ∈ t.edges.getD n [], P k := by
    intro n hP k hk q hq
    obtain ⟨r, r', hr, hr', hfound⟩ := ht.honest n k hk
    cases hq.symm.trans hr'
    rcases s.target_of_mem_references hfound with he | hrefers
    · rw [he]
      exact hP r hr
    · rcases hP r hr with hanchored | ⟨id, hid, hdead⟩
      · exact .inl (hanchored.step hrefers)
      · rw [hid] at hrefers
        exact Bool.noConfusion (hdead.symm.trans (Holding.isLive_of_refers hrefers))
  exact of_marked_spread (P := P) hedges (fun n hn => hheld n (List.mem_filter.1 hn).2) hheld hmarked
    r hn

end idle
end Completes
end Trial

/-! ## Collection -/

namespace Holding

variable {s s' : Holding} {x y : Target} {v : Value} {id : FrameId} {f : Frame}

/-- Some of the frames are left, and everything else is the same but for what is counted. -/
structure Thins (s s' : Holding) : Prop where
  heap : s'.heap = s.heap
  kept : s'.kept = s.kept
  old : ∀ id f', s'.arena.get? id = some f' → ∃ f, s.arena.get? id = some f ∧ f'.bare = f.bare

theorem Shrinks.thins (h : s.Shrinks s') : s.Thins s' := ⟨h.heap, h.kept, h.old⟩

namespace Thins

variable (h : s.Thins s')

include h

theorem refers_of (hxy : s'.Refers x y) : s.Refers x y := by
  cases x with
  | object v =>
    obtain ⟨r, hr, hy⟩ := hxy
    rw [referents, h.heap] at hr
    exact ⟨r, hr, hy⟩
  | frame id =>
    obtain ⟨f', hf'⟩ := Option.isSome_iff_exists.1 (isLive_of_refers hxy)
    obtain ⟨f, hf, hbare⟩ := h.old id f' hf'
    obtain ⟨r, hr, hy⟩ := hxy
    rw [referents, hf', Option.elim_some, Frame.map_of_bare hbare Frame.references fun _ => rfl] at hr
    exact ⟨r, by rw [referents, hf]; exact hr, hy⟩

theorem refers (hx : s'.Exists x) (hxy : s.Refers x y) : s'.Refers x y := by
  obtain ⟨r, hr, hy⟩ := hxy
  refine ⟨r, ?_, hy⟩
  cases x with
  | object v => rwa [referents, h.heap]
  | frame id =>
    obtain ⟨f', hf'⟩ := Option.isSome_iff_exists.1 hx
    obtain ⟨f, hf, hbare⟩ := h.old id f' hf'
    rw [referents, hf] at hr
    rw [referents, hf', Option.elim_some, Frame.map_of_bare hbare Frame.references fun _ => rfl]
    exact hr

theorem leads_of (hxy : s'.Leads x y) : s.Leads x y :=
  ReflTransGen.mono (fun _ _ => h.refers_of) _ _ hxy

theorem rooted_of (hx : s'.Rooted x) : s.Rooted x := by
  induction hx with
  | active hf hactive =>
    obtain ⟨f, hf, hbare⟩ := h.old _ _ hf
    exact .active hf (Frame.map_of_bare hbare Frame.active (fun _ => rfl) ▸ hactive)
  | kept hr => exact .kept (h.kept ▸ hr)
  | refers _ hr ih => exact ih.step (h.refers_of ⟨_, hr, rfl⟩)

end Thins

theorem Exact.mem_idleFrames (h : s.Exact) (hf : s.arena.get? id = some f) (hactive : f.active = 0) :
    id ∈ s.idleFrames := by
  have hlive : id ∈ s.liveFrames := h.intact.filled.mem_occupants.2 (Arena.isLive_of_get? hf)
  exact List.mem_filter.2 ⟨hlive, by simp [isActive, hf, Frame.isActive, hactive]⟩

/-- A search from all idle frames that comes to its end frees every frame that is not anchored. -/
theorem Exact.anchored_of_collectFrom (h : s.Exact)
    (hlimit : (s.trial s.idleFrames).isOverLimit = false)
    (hid : (s.collectFrom s.idleFrames).arena.isLive id = true) : s.Anchored (.frame id) := by
  have ht := Trial.completes_search h.sound hlimit
  have hstart : ∀ id f, s.arena.get? id = some f → f.active = 0 → id ∈ s.idleFrames :=
    fun _ _ hf hactive => h.mem_idleFrames hf hactive
  have hlive := (shrinks_collectFrom s.idleFrames h.sound).isLive_of hid
  have hstays : id ∉ (s.trial s.idleFrames).garbage s.isHeld := by
    intro hgarbage
    have hfree := persistent_exact.free_garbage h ht.toExplores
    rw [collectFrom_eq] at hid
    have hfreed := (shrinks_settles _ hfree.sound).isLive_of hid
    rw [Arena.isLive, get?_free_of_mem hgarbage] at hfreed
    cases hfreed
  obtain ⟨f, hf⟩ := Option.isSome_iff_exists.1 hlive
  rcases Nat.eq_zero_or_pos f.active with hidle | hactive
  · obtain ⟨n, hn⟩ := ht.started id (hstart id f hf hidle)
    have hmarked : Trial.Marked ((s.trial s.idleFrames).liveMarks s.isHeld) n :=
      Classical.not_not.1 fun hnot => hstays (ht.numbered.mem_garbage.2 ⟨n, hn, hnot⟩)
    rcases ht.anchored_of_marked hstart h hn hmarked with hanchored | ⟨other, he, hdead⟩
    · exact hanchored
    · cases he
      exact Bool.noConfusion (hdead.symm.trans hlive)
  · exact .inl (.active hf hactive)

theorem Exact.isLive_of_mem_idleFrames (h : s.Exact) (hid : id ∈ s.idleFrames) :
    s.arena.isLive id = true :=
  h.intact.filled.mem_occupants.1 (List.mem_filter.1 hid).1

/-- It frees no frame that a lost object leads to, and neither does what follows. -/
theorem Exact.isLive_of_lost (h : s.Exact) (hlimit : (s.trial s.idleFrames).isOverLimit = false)
    (hlost : s.Lost v) (hv : s.has v = true) (hlead : s.Leads (.object v) (.frame id))
    (hlive : s.arena.isLive id = true) :
    (s.collectFrom s.idleFrames).settleDropped.arena.isLive id = true := by
  have ht := Trial.completes_search h.sound hlimit
  have hbacked := (backed_of_cycle h.sound hv hlost.cycle).free h.sound
    (ht.numbered.nodup_garbage s.isHeld) fun other hother hheld =>
      ht.not_unmarked h.sound (fun _ => h.isLive_of_mem_idleFrames) hlost hv hheld.2
        ⟨trivial, ht.numbered.mem_garbage.1 hother⟩
  have hfree := persistent_exact.free_garbage h ht.toExplores
  have hsteady := steady_backed fun x => s.Exists x ∧ s.Leads (.object v) x
  rw [collectFrom_eq]
  refine (hsteady.settleDropped (hsteady.settles _ ?_)).2.exist (.frame id) ⟨hlive, hlead⟩
  exact ⟨hfree.sound, hbacked⟩

/-- The search for garbage that a collection makes, once nothing is left to be looked at. -/
def finalSearch (s : Holding) : Trial := s.settleDropped.trial s.settleDropped.idleFrames

theorem collect_eq (s : Holding) :
    s.collect = (s.settleDropped.collectFrom s.settleDropped.idleFrames).settleDropped := rfl

/-- What a collection leaves is anchored, if its search comes to an end. -/
theorem Exact.anchored_of_collect (h : s.Exact) (hlimit : s.finalSearch.isOverLimit = false)
    (hid : s.collect.arena.isLive id = true) : s.settleDropped.Anchored (.frame id) := by
  have hexact := persistent_exact.steady.settleDropped h
  have hfrom := persistent_exact.collectFrom s.settleDropped.idleFrames hexact
  rw [collect_eq] at hid
  exact hexact.anchored_of_collectFrom hlimit ((shrinks_settleDropped hfrom.sound).isLive_of hid)

/-- A collection leaves the frames that a lost object leads to. -/
theorem Exact.isLive_collect_of_lost (h : s.Exact)
    (hlimit : s.finalSearch.isOverLimit = false) (hlost : s.settleDropped.Lost v)
    (hv : s.settleDropped.has v = true) (hlead : s.settleDropped.Leads (.object v) (.frame id))
    (hlive : s.settleDropped.arena.isLive id = true) : s.collect.arena.isLive id = true := by
  rw [collect_eq]
  exact (persistent_exact.steady.settleDropped h).isLive_of_lost hlimit hlost hv hlead hlive

/-- What a cycle of objects leads to stays when frames are settled that nothing holds. -/
theorem Exact.settleDropped_of_cycle (h : s.Exact) (hv : s.has v = true)
    (hcycle : TransGen s.heap.Links v v) (hlead : s.Leads (.object v) (.frame id))
    (hlive : s.arena.isLive id = true) :
    s.settleDropped.has v = true ∧ s.settleDropped.Leads (.object v) (.frame id) ∧
      s.settleDropped.arena.isLive id = true := by
  have hbacked := ((steady_backed _).settleDropped
    ⟨h.sound, backed_of_cycle h.sound hv hcycle⟩).2
  have hthins := (shrinks_settleDropped h.sound).thins
  have hleads : ∀ x, s.Leads (.object v) x → s.settleDropped.Leads (.object v) x := by
    intro x hx
    induction hx with
    | refl => exact .refl
    | tail hy hstep ih =>
      have hexists := h.sound.exists_of_leads (x := .object v) hv hy hstep
      exact ih.tail (hthins.refers (hbacked.exist _ ⟨hexists, hy⟩) hstep)
  exact ⟨hbacked.exist (.object v) ⟨hv, .refl⟩, hleads _ hlead,
    hbacked.exist (.frame id) ⟨hlive, hlead⟩⟩

end Holding
end ScriptVM
