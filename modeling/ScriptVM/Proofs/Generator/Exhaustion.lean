import ScriptVM.Proofs.Heap
import ScriptVM.Proofs.Session.Lasting

/-!
# Exhausted generators

A generator that is exhausted while none of its steps is under way stays exhausted, whatever the
program or the host does next, and what it has in store is delivered by its next step, without any
code being run. While a step is under way this is not so: the step suspends the generator when its
operation returns, even if another step that was taken meanwhile has exhausted it.
-/
namespace ScriptVM

variable {m m' : Machine} {g v : Value} {s : Generator} {digests : Digests}

/-! ## Steps that run nothing -/

namespace Engine

variable {e : Engine} {next : Value → Run (Option Value)}

/-- What is in store is delivered. -/
theorem resumeWith_of_buffered (hg : m.heap.kind g = .generator s) (hb : s.buffered = some v) :
    e.resumeWith next g m = .ok (some v)
      { m with heap := m.heap.setKind g (.generator { s with buffered := none }) } := by
  have hchange : Run.modifyHeap (changeGenerator g fun state => { state with buffered := none }) m =
      .ok () { m with heap := m.heap.setKind g (.generator { s with buffered := none }) } := by
    simp only [Run.modifyHeap, modify, Run.modifyGet_apply, changeGenerator, hg]
  simp only [resumeWith, expectGenerator, Run.kindOf, Run.read, bind, EStateM.bind, pure,
    EStateM.pure, hg, hb, hchange]

theorem resumeWith_of_exhausted (hg : m.heap.kind g = .generator s) (hb : s.buffered = none)
    (hs : s.status = .exhausted) : e.resumeWith next g m = .ok none m := by
  simp only [resumeWith, expectGenerator, Run.kindOf, Run.read, bind, EStateM.bind, pure,
    EStateM.pure, hg, hb, hs]

theorem hasNext_of_buffered (hg : m.heap.kind g = .generator s) (hb : s.buffered = some v) :
    e.hasNext g m = .ok true m := by
  simp only [hasNext, Run.kindOf, Run.read, bind, EStateM.bind, hg, hb, Option.isSome_some, if_true,
    pure, EStateM.pure]

theorem hasNext_of_exhausted (hg : m.heap.kind g = .generator s) (hb : s.buffered = none)
    (hs : s.status = .exhausted) : e.hasNext g m = .ok false m := by
  have hresume : e.resume g m = .ok none m := resumeWith_of_exhausted hg hb hs
  simp only [hasNext, Run.kindOf, Run.read, bind, EStateM.bind, hg, hb, Option.isSome_none,
    Bool.false_eq_true, if_false, hresume, pure, EStateM.pure]

theorem nextWithin_of_generator (depth : Nat) (hg : m.heap.kind g = .generator s) :
    e.nextWithin (depth + 1) g m = e.resumeWith (e.nextWithin depth) g m := by
  simp only [nextWithin, Run.kindOf, Run.read, bind, EStateM.bind, hg]

end Engine

theorem Heap.kind_of_generator? {h : Heap} (hg : h.generator? g = some s) :
    h.kind g = .generator s := by
  unfold generator? at hg
  split at hg
  · rename_i s' hs'
    cases hg
    exact hs'
  · cases hg

/-! ## What lasts -/

theorem Heap.lt_of_generator {h : Heap} (hg : h.kind g = .generator s) :
    g.address < h.objects.size := by
  by_contra hle
  simp only [kind, get, Array.getD, dif_neg hle] at hg
  cases hg

/-- A generator is exhausted and has nothing in store but what it had at some point. -/
def Lasting.spent (g : Value) (b : Option Value) : Lasting where
  inv h := ∃ s, h.kind g = .generator s ∧ s.status = .exhausted ∧
    (s.buffered = none ∨ s.buffered = b)
  becomes v s s' := v = g → s.status = .exhausted →
    s'.status = .exhausted ∧ (s'.buffered = none ∨ s'.buffered = s.buffered)
  becomes_refl _ _ _ hs := ⟨hs, .inr rfl⟩
  becomes_framed _ _ _ _ hs := ⟨hs, .inr rfl⟩
  becomes_exhausted _ _ _ _ := ⟨rfl, .inr rfl⟩
  becomes_delivered _ _ _ hs := ⟨hs, .inl rfl⟩
  allows _ _ := True
  allows_mild _ := trivial
  inv_alloc := by
    rintro h ⟨s, hg, hs⟩ k -
    have hlt : g.address < h.objects.size := Heap.lt_of_generator hg
    refine ⟨s, ?_, hs⟩
    rw [Heap.kind, Heap.get_alloc_of_lt k hlt]
    exact hg
  inv_modify := by
    rintro h ⟨s, hg, hs, hb⟩ v f hf -
    unfold Heap.kind
    rcases h.get_modify v g f with ⟨hget, rfl⟩ | hget
    · obtain ⟨s', hs', hbecomes⟩ := hf s hg
      obtain ⟨hstatus, hbuffered⟩ := hbecomes rfl hs
      rw [hget]
      refine ⟨s', hs', hstatus, ?_⟩
      rcases hbuffered with h | h
      · exact .inl h
      · exact hb.imp h.trans h.trans
    · rw [hget]
      exact ⟨s, hg, hs, hb⟩
  excuses := Cutoff.Stops
  excuses_gaveUp := Cutoff.stops
  excuses_placedAt := Cutoff.Stops.placedAt
  oneWay _ := False

namespace Lasting

theorem spent_steps (g : Value) (b : Option Value) : (spent g b).Steps digests where
  strict _ _ h := h
  calls _ C := C.calls fun _ => trivial
  resumeWith := by
    intro e next next' C henter hnext v
    by_cases hv : v = g
    · subst hv
      have hnext' : growth.passage.NextCarries next next := fun u =>
        growth_carries (hnext u).grows fun r => Option.map_id_apply
      refine ⟨((growth_steps digests).resumeWith (growth_calls C.toCalling) ?_ hnext' v).grows, ?_⟩
      · exact fun f c => growth_carries (henter f c).grows fun _ => rfl
      · rintro m n ⟨rfl, s, hg, hs, hb⟩ - -
        cases hbuffered : s.buffered with
        | none =>
          rw [Engine.resumeWith_of_exhausted hg hbuffered hs,
            Engine.resumeWith_of_exhausted hg hbuffered hs]
          exact .ok none ⟨rfl, s, hg, hs, hb⟩
        | some u =>
          rw [Engine.resumeWith_of_buffered hg hbuffered,
            Engine.resumeWith_of_buffered hg hbuffered]
          refine .ok (some u) ⟨rfl, (spent v b).inv_modify ⟨s, hg, hs, hb⟩ (fun s' hs' => ?_) trivial⟩
          cases hg.symm.trans hs'
          exact ⟨_, rfl, fun _ _ => ⟨hs, .inl rfl⟩⟩
    · exact C.toPlain.resumeWith hnext v fun item =>
        (spent g b).frames.applyBody C henter hnext v (fun _ _ h => absurd h hv) item
  hasNext := by
    intro e C v hresume
    by_cases hv : v = g
    · subst hv
      have hresume' := growth_carries hresume.grows fun _ => Option.map_id_apply
      refine ⟨((growth_steps digests).hasNext (growth_calls C.toCalling) v hresume').grows, ?_⟩
      rintro m n ⟨rfl, s, hg, hs, hb⟩ - -
      cases hbuffered : s.buffered with
      | none =>
        rw [Engine.hasNext_of_exhausted hg hbuffered hs]
        exact .ok false ⟨rfl, s, hg, hs, hb⟩
      | some u =>
        rw [Engine.hasNext_of_buffered hg hbuffered]
        exact .ok true ⟨rfl, s, hg, hs, hb⟩
    · exact Passage.carries_hasNext C v hresume fun _ _ h => absurd h hv

end Lasting

/-- Once a generator is exhausted it stays exhausted, whatever is called or executed next, and what it
has in store only gets delivered: its next step delivers that, and nothing from then on. Of any
generator, exhausted or not, what is in store is not touched by asking whether there is something, and
is what the next step delivers, without any code being run. -/
theorem Machine.LeadsTo.exhausted (h : m.LeadsTo digests m') (hg : m.heap.kind g = .generator s)
    (hs : s.status = .exhausted) :
    (∃ s', m'.heap.kind g = .generator s' ∧ s'.status = .exhausted ∧
      (s'.buffered = none ∨ s'.buffered = s.buffered) ∧
      ∀ (e : Engine) (next : Value → Run (Option Value)),
        e.hasNext g m' = .ok s'.buffered.isSome m' ∧
        ∃ k, e.resumeWith next g m' = .ok s'.buffered k ∧
          k.heap.kind g = .generator { s' with buffered := none }) ∧
    ∀ (other stored : Value) (t : Generator), m'.heap.kind other = .generator t →
      t.buffered = some stored → ∀ (e : Engine) (next : Value → Run (Option Value)),
        e.hasNext other m' = .ok true m' ∧
        e.resumeWith next other m' = .ok (some stored)
          { m' with heap := m'.heap.setKind other (.generator { t with buffered := none }) } := by
  refine ⟨?_, fun other stored t ht hstored e next =>
    ⟨Engine.hasNext_of_buffered ht hstored, Engine.resumeWith_of_buffered ht hstored⟩⟩
  obtain ⟨s', hg', hs', hb'⟩ :=
    (Lasting.spent_steps g s.buffered).inv_of_leadsTo h ⟨s, hg, hs, .inr rfl⟩
  refine ⟨s', hg', hs', hb', fun e next => ?_⟩
  cases hbuffered : s'.buffered with
  | none =>
    refine ⟨Engine.hasNext_of_exhausted hg' hbuffered hs', m',
      Engine.resumeWith_of_exhausted hg' hbuffered hs', ?_⟩
    rw [← hbuffered]
    exact hg'
  | some v =>
    refine ⟨Engine.hasNext_of_buffered hg' hbuffered, _,
      Engine.resumeWith_of_buffered hg' hbuffered, ?_⟩
    rw [Heap.kind, Heap.setKind, Heap.get_modify_self _ (Heap.lt_of_generator hg')]

/-- A program takes both items of a generator, the first one out of its store, and asks whether there
is another one. The generator is exhausted then, and still is after a host has asked it for more. -/
theorem Machine.LeadsTo.exhausted_hasNext_next :
    ∃ m m' g s, LeadsTo .standard m m' ∧ m.heap.kind g = .generator s ∧ s.frame.isSome = true ∧
      s.status = .exhausted ∧
      ∀ e : Engine, e.hasNext g m' = .ok false m' ∧ ∃ k, e.resume g m' = .ok none k := by
  let at' : Span := ⟨some 1⟩
  let ask : String → Node := fun method =>
    .expr (.call at' (.selector at' (.identifier at' "g") method) [])
  let program : Program := .ofBody [
    .assign at' (.identifier at' "g") .assign
      (.generator at' (.identifier at' "x") ["x"]
        (.array at' [.integer at' "1", .integer at' "2"])),
    ask "HasNext", ask "Next", ask "Next", ask "HasNext"]
  have hends : (program.compile.toOption.any fun code =>
      (finished? ((Service.withFuel 40 .standard).serve (.execute code) (.new .standard))).any fun x =>
      (List.range x.2.heap.objects.size).any fun i =>
      (x.2.heap.generator? ⟨i⟩).any fun s =>
      s.frame.isSome && decide (s.status = .exhausted) && s.buffered.isNone &&
      (finished? ((Service.withFuel 40 .standard).serve (.hasNext ⟨i⟩) x.2)).any fun y =>
      (finished? ((Service.withFuel 40 .standard).serve (.next ⟨i⟩) y.2)).isSome) = true := by
    decide +kernel
  obtain ⟨code, -, hends⟩ := (Option.any_eq_true _ _).1 hends
  obtain ⟨⟨a, m⟩, -, hends⟩ := (Option.any_eq_true _ _).1 hends
  obtain ⟨i, -, hends⟩ := List.any_eq_true.1 hends
  obtain ⟨s, hs, hends⟩ := (Option.any_eq_true _ _).1 hends
  obtain ⟨hstate, hserved⟩ := (Bool.and_eq_true _ _).mp hends
  simp only [Bool.and_eq_true, decide_eq_true_eq, Option.isNone_iff_eq_none] at hstate
  obtain ⟨⟨hframe, hexhausted⟩, hempty⟩ := hstate
  obtain ⟨⟨b, k⟩, hfirst, hserved⟩ := (Option.any_eq_true _ _).1 hserved
  obtain ⟨⟨r, m'⟩, hsecond⟩ := Option.isSome_iff_exists.1 hserved
  have hg : m.heap.kind ⟨i⟩ = .generator s := Heap.kind_of_generator? hs
  have hleads : LeadsTo .standard m m' := .served
    (.served .refl (.ok (eq_ok_of_finished? hfirst))) (.ok (eq_ok_of_finished? hsecond))
  obtain ⟨⟨s', -, -, hstored, hanswers⟩, -⟩ := hleads.exhausted hg hexhausted
  have hempty' : s'.buffered = none := hstored.elim id fun h => h.trans hempty
  refine ⟨m, m', ⟨i⟩, s, hleads, hg, hframe, hexhausted, fun e => ?_⟩
  obtain ⟨hhasNext, k', hresume, -⟩ := hanswers e (e.nextWithin e.fuel)
  rw [hempty'] at hhasNext hresume
  exact ⟨hhasNext, k', hresume⟩

end ScriptVM
