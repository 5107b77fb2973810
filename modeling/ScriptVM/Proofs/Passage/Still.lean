import ScriptVM.Proofs.Growth
import ScriptVM.Proofs.Passage.Step

/-!
# Passages of a machine to itself

What stays true of the objects while a machine runs is a passage of the machine to itself, on which
every value keeps its name.
-/
namespace ScriptVM

/-- Something that stays true of the objects, as long as generators change as they may. -/
structure Lasting where
  inv : Heap → Prop
  /-- How a generator may change. -/
  becomes : Value → Generator → Generator → Prop
  becomes_refl : ∀ v g, becomes v g g
  becomes_framed : ∀ v g id, becomes v g { g with frame := some id }
  becomes_exhausted : ∀ v g, becomes v g { g with status := .exhausted }
  becomes_delivered : ∀ v g, becomes v g { g with buffered := none }
  /-- Which changes of objects it outlasts. -/
  allows : Object → Object → Prop
  allows_mild : ∀ {o o'}, o.Mild o' → allows o o'
  inv_alloc : ∀ {h}, inv h → ∀ k, h.Lends k → inv (h.alloc k).2
  inv_modify : ∀ {h}, inv h → ∀ {v : Value} {f : Object → Object},
    (∀ s, h.kind v = .generator s →
      ∃ s', (f (h.get v)).kind = .generator s' ∧ becomes v s s') →
    allows (h.get v) (f (h.get v)) → inv (h.modify v f)
  /-- How a second computation may stop where a first one gives up. -/
  excuses : Cutoff → Stop → Prop
  excuses_gaveUp : ∀ why, excuses why (.gaveUp why)
  excuses_placedAt : ∀ {why : Cutoff} {f : Failure} (span : Span),
    excuses why (.failed f) → excuses why (.failed (f.placedAt span))
  /-- Whether the second computation may do anything where the first one gives up. -/
  oneWay : Cutoff → Prop

namespace Lasting

/-- A member that is a note of behaviour is only set where there is none of its name. -/
theorem inv_setMember (S : Lasting) {h : Heap} (hinv : S.inv h) (v : Value) (name : String)
    (member : Member)
    (hmember : ∀ s, member = .builtin s → (h.get v).members.get? name = none) :
    S.inv (h.setMember v name member) :=
  S.inv_modify hinv (fun s hs => ⟨s, hs, S.becomes_refl v s⟩)
    (S.allows_mild (Object.mild_setMember _ hmember))

theorem inv_find (S : Lasting) {h : Heap} (hinv : S.inv h) (v : Value) (name : String) :
    S.inv (h.find v name).2 := by
  unfold Heap.find
  split
  · exact hinv
  · rename_i hnone
    split
    · exact S.inv_setMember hinv v name _ fun _ _ => hnone
    · exact hinv

/-- The passage of a machine to itself along which something stays true, when failures correspond in
some way, as they do when they come up. -/
def passageUpTo (S : Lasting) (fails : Failure → Failure → Prop)
    (hfails : ∀ c, fails (.of c) (.of c)) : Passage where
  value := id
  injective h := h
  rel m n := n = m ∧ S.inv m.heap
  becomes := S.becomes
  becomes_refl := S.becomes_refl
  becomes_framed := S.becomes_framed
  becomes_exhausted := S.becomes_exhausted
  becomes_delivered := S.becomes_delivered
  allows := S.allows
  allows_mild := S.allows_mild
  room _ := True
  room_of_le _ _ := trivial
  excuses := S.excuses
  excuses_gaveUp := S.excuses_gaveUp
  excuses_placedAt := S.excuses_placedAt
  oneWay := S.oneWay
  fails := fails
  fails_of c := by
    rw [Cause.rename_id]
    exact hfails c
  kind_eq := by
    rintro m _ ⟨rfl, -⟩ v
    exact (Kind.rename_id _).symm
  hash_eq := by
    rintro m _ ⟨rfl, -⟩ v
    rfl
  has_eq := by
    rintro m _ ⟨rfl, -⟩ v name
    rfl
  types_eq := by
    rintro m _ ⟨rfl, -⟩ name
    simp
  text_eq := by
    rintro m _ ⟨rfl, -⟩ quoted v
    rfl
  rel_alloc := by
    rintro m _ ⟨rfl, hinv⟩ - k hk
    rw [Kind.rename_id]
    exact ⟨rfl, rfl, S.inv_alloc hinv k hk⟩
  rel_find := by
    rintro m _ ⟨rfl, hinv⟩ v name
    refine ⟨?_, rfl, S.inv_find hinv v name⟩
    simp [show Member.rename id = id from funext Member.rename_id]
  rel_setMember := by
    rintro m _ ⟨rfl, hinv⟩ v name member hmember
    rw [Member.rename_id]
    exact ⟨rfl, S.inv_setMember hinv v name member fun s hs => absurd hs (hmember s)⟩
  rel_setHash := by
    rintro m _ ⟨rfl, hinv⟩ v hash hallows
    exact ⟨rfl, S.inv_modify hinv (fun s hs => ⟨s, hs, S.becomes_refl v s⟩) hallows⟩
  rel_setKind := by
    rintro m _ ⟨rfl, hinv⟩ v k hk hallows
    rw [Kind.rename_id]
    exact ⟨rfl, S.inv_modify hinv hk hallows⟩

/-- The passage of a machine to itself along which something stays true. -/
abbrev passage (S : Lasting) : Passage := S.passageUpTo (fun f g => g = f) fun _ => rfl

theorem places (S : Lasting) : S.passage.Places := by
  rintro f _ span rfl
  rfl

variable {S : Lasting} {fails : Failure → Failure → Prop} {hfails : ∀ c, fails (.of c) (.of c)}
  {α β : Type} {x : Run α} {y : Run β} {r : α → α} {digests : Digests}

/-- A computation under which the invariant lasts carries over to itself. -/
theorem carries_upTo (hgrows : ∀ m, m.objectCount ≤ (x.after m).objectCount)
    (hinv : ∀ m, S.inv m.heap → S.inv (x.after m).heap)
    (hself : ∀ m f m', x m = .error (.failed f) m' → fails f f) (hr : ∀ a, r a = a) :
    (S.passageUpTo fails hfails).Carries x x r := by
  refine ⟨hgrows, ?_⟩
  rintro _ n ⟨rfl, hn⟩ - -
  have hafter := hinv n hn
  unfold Run.after at hafter
  cases hx : x n with
  | ok a m' =>
    rw [hx] at hafter
    have h := Passage.Matches.ok (P := S.passageUpTo fails hfails) (r := r) a ⟨rfl, hafter⟩
    rwa [hr a] at h
  | error stop m' =>
    rw [hx] at hafter
    cases stop with
    | gaveUp => exact .gaveUp m' m' (S.excuses_gaveUp _)
    | failed f => exact .failed (hself _ _ _ hx) ⟨rfl, hafter⟩

theorem carries (hgrows : ∀ m, m.objectCount ≤ (x.after m).objectCount)
    (hinv : ∀ m, S.inv m.heap → S.inv (x.after m).heap) (hr : ∀ a, r a = a) :
    S.passage.Carries x x r :=
  carries_upTo hgrows hinv (fun _ _ _ _ => rfl) hr

theorem carries_of_sparesHeap (hx : x.SparesHeap) (hr : ∀ a, r a = a) :
    (S.passageUpTo fails hfails).Carries x x r := by
  have hheap : ∀ m, (x.after m).heap = m.heap := by
    intro m
    unfold Run.after
    rcases hx m with ⟨a, m', hm, h⟩ | ⟨f, m', hm, h⟩
    · rw [hm]
      exact h
    · rw [hm]
      exact h
  refine carries_upTo (fun m => ?_) (fun m hm => ?_) (fun m f m' hm => ?_) hr
  · exact Nat.le_of_eq (congrArg (·.objects.size) (hheap m).symm)
  · rw [hheap]
    exact hm
  · rcases hx m with ⟨a, k, hk, -⟩ | ⟨c, k, hk, -⟩
    · rw [hk] at hm
      cases hm
    · rw [hk] at hm
      cases hm
      exact hfails c

theorem inv_setValue {h : Heap} (hinv : S.inv h) (v : Value) (name : String) (u : Value) :
    S.inv (h.setValue v name u) :=
  S.inv_setMember hinv v name _ nofun

theorem carries_assign (f : FrameId) (name : String) (v : Value) :
    (S.passageUpTo fails hfails).Carries (Run.assign f name v) (Run.assign f name v) id := by
  have hheap : ∀ m : Machine, ((Run.assign f name v).after m).heap = m.heap ∨
      ∃ object, ((Run.assign f name v).after m).heap = m.heap.setValue object name v := by
    intro m
    unfold Run.after
    cases hf : m.arena.get? f with
    | none =>
      rw [Run.assign_of_dead hf]
      exact .inl rfl
    | some frame =>
      rw [Run.assign_of_live hf]
      simp only [Arena.assign]
      split
      · exact .inr ⟨_, rfl⟩
      · exact .inl rfl
  refine carries_upTo (fun m => ?_) (fun m hm => ?_) (fun m g m' hm => ?_) fun _ => rfl
  · rcases hheap m with h | ⟨object, h⟩
    · exact Nat.le_of_eq (congrArg (·.objects.size) h.symm)
    · rw [Machine.objectCount, Machine.objectCount, h]
      exact Nat.le_of_eq (Heap.size_modify _ _ _).symm
  · rcases hheap m with h | ⟨object, h⟩
    · rw [h]
      exact hm
    · rw [h]
      exact inv_setValue hm object name v
  · cases hf : m.arena.get? f with
    | none =>
      rw [Run.assign_of_dead hf] at hm
      cases hm
      exact hfails _
    | some frame =>
      rw [Run.assign_of_live hf] at hm
      cases hm

theorem carries_resolve (f : FrameId) (name : String) :
    (S.passageUpTo fails hfails).Carries (Run.resolve f name) (Run.resolve f name)
      (Option.map id) := by
  have hheap : ∀ m : Machine, ((Run.resolve f name).after m).heap = m.heap ∨
      ∃ k, ((Run.resolve f name).after m).heap = (m.heap.alloc (.function k)).2 := by
    intro m
    unfold Run.after
    rw [Run.resolve, Run.modifyGet_apply]
    dsimp only
    cases hfound : m.arena.lookup? m.heap f name with
    | none => exact .inl rfl
    | some found =>
      obtain ⟨frame, -, hframe⟩ := List.exists_of_findSome?_eq_some hfound
      unfold Frame.resolve? at hframe
      split at hframe
      · cases hframe
        exact .inl rfl
      · split at hframe
        · obtain ⟨member, -, rfl⟩ := Option.map_eq_some_iff.1 hframe
          cases member with
          | value v => exact .inl rfl
          | method c => exact .inr ⟨_, rfl⟩
          | builtin s => exact .inr ⟨_, rfl⟩
        · cases hframe
  refine carries_upTo (fun m => ?_) (fun m hm => ?_) (fun m g m' hm => ?_) fun r => by simp
  · rcases hheap m with h | ⟨k, h⟩
    · exact Nat.le_of_eq (congrArg (·.objects.size) h.symm)
    · rw [Machine.objectCount, Machine.objectCount, h, Heap.size_alloc]
      exact Nat.le_succ _
  · rcases hheap m with h | ⟨k, h⟩
    · rw [h]
      exact hm
    · rw [h]
      exact S.inv_alloc hm _ (m.heap.lends_of_isPlain rfl)
  · cases hm

theorem carries_activation {r : α → β} (f : FrameId)
    (h : (S.passageUpTo fails hfails).Carries x y r) :
    (S.passageUpTo fails hfails).Carries (Run.activation f x) (Run.activation f y) r := by
  constructor
  · exact Run.grows_activation f h.grows
  · rintro _ n ⟨rfl, hn⟩ - -
    unfold Run.activation
    dsimp only
    split
    · exact .failed (hfails _) ⟨rfl, hn⟩
    · have hxy := h.holds { n with callStack := n.callStack.push f } _ ⟨rfl, hn⟩ trivial trivial
      generalize x _ = s at hxy
      generalize y _ = t at hxy
      cases hxy with
      | ok a hmn =>
        obtain ⟨rfl, hinv⟩ := hmn
        exact .ok a ⟨rfl, hinv⟩
      | failed hfg hmn =>
        obtain ⟨rfl, hinv⟩ := hmn
        exact .failed hfg ⟨rfl, hinv⟩
      | gaveUp m' n' hstop => exact .gaveUp _ _ hstop
      | unsaid m' _ honeWay => exact .unsaid _ _ honeWay

theorem carries_of_ignoresHeap (hx : x.IgnoresHeap) (hr : ∀ a, r a = a) :
    (S.passageUpTo fails hfails).Carries x x r :=
  carries_of_sparesHeap hx.sparesHeap hr

/-- Nothing that is done with frames touches what stays true of the objects. -/
theorem frames_upTo (S : Lasting) : (S.passageUpTo fails hfails).Frames where
  define _ _ _ := carries_of_ignoresHeap (Run.ignoresHeap_modifyFrame _ _) fun _ => rfl
  push _ _ := carries_of_ignoresHeap (Run.ignoresHeap_modifyFrame _ _) fun _ => rfl
  pushAll f vs := by
    rw [show vs.map (S.passageUpTo fails hfails).value = vs from List.map_id vs]
    exact carries_of_ignoresHeap (Run.ignoresHeap_modifyFrame _ _) fun _ => rfl
  pop _ := carries_of_ignoresHeap (Run.ignoresHeap_pop _) fun _ => rfl
  popMany _ count := carries_of_ignoresHeap (Run.ignoresHeap_popMany _ count) fun vs => List.map_id vs
  top _ := carries_of_ignoresHeap (Run.ignoresHeap_top _) fun _ => rfl
  last _ := carries_of_ignoresHeap (Run.ignoresHeap_last _) fun r => Option.map_id_apply
  setLast _ _ := carries_of_ignoresHeap (Run.ignoresHeap_modifyFrame _ _) fun _ => rfl
  assign f name v := carries_assign f name v
  resolve f name := carries_resolve f name
  retain _ := carries_of_ignoresHeap (Run.ignoresHeap_retain _) fun _ => rfl
  methodScope _ := carries_of_ignoresHeap (Run.ignoresHeap_methodScope _) fun _ => rfl
  newFrame parent object bindsObject := by
    rw [show object.map (S.passageUpTo fails hfails).value = object from Option.map_id_apply]
    exact carries_of_ignoresHeap (Run.ignoresHeap_newFrame _ _ _) fun _ => rfl
  activate _ := carries_of_ignoresHeap (Run.ignoresHeap_activate _) fun _ => rfl
  trace position i := carries_of_ignoresHeap (Run.ignoresHeap_trace position i) fun _ => rfl
  activation f h := carries_activation f h

theorem frames (S : Lasting) : S.passage.Frames := S.frames_upTo

/-! ## The machine with some fuel -/

/-- The steps of generators keep what lasts, as soon as the calls and the runs of code do. -/
structure Steps (S : Lasting) (digests : Digests) : Prop where
  strict : ∀ why stop, S.excuses why stop → stop = .gaveUp why
  calls : ∀ fuel, S.passage.Calling (.withFuel fuel digests) (.withFuel fuel digests) →
    S.passage.Calls (.withFuel fuel digests) (.withFuel fuel digests)
  resumeWith : ∀ {e : Engine} {next next' : Value → Run (Option Value)}, S.passage.Calls e e →
    (∀ f c, S.passage.Carries (e.enter f c) (e.enter f c) S.passage.ended) →
    S.passage.NextCarries next next' → ∀ g,
      S.passage.Carries (e.resumeWith next g) (e.resumeWith next' g) (Option.map id)
  hasNext : ∀ {e : Engine}, S.passage.Calls e e → ∀ v,
    S.passage.Carries (e.resume v) (e.resume v) (Option.map id) →
    S.passage.Carries (e.hasNext v) (e.hasNext v) id

/-- Calls carry over, whatever is called: all values keep their names. -/
theorem callValue {e e' : Engine} (K : (S.passageUpTo fails hfails).Knot e e') (callee : Value)
    (args : List Value) :
    (S.passageUpTo fails hfails).Carries (e.callValue callee args) (e'.callValue callee args) id := by
  have h := S.frames_upTo.callValue K callee args
  rw [show args.map (S.passageUpTo fails hfails).value = args from List.map_id args] at h
  exact ⟨h.grows, fun m n hmn _ => h.holds m n hmn fun _ _ _ => rfl⟩

/-- Where generators may change in any way, only the calls of the machine have to be looked at. -/
theorem Steps.of_becomes (hstrict : ∀ why stop, S.excuses why stop → stop = .gaveUp why)
    (hcalls : ∀ fuel, S.passage.Calling (.withFuel fuel digests) (.withFuel fuel digests) →
      S.passage.Calls (.withFuel fuel digests) (.withFuel fuel digests))
    (hbecomes : ∀ v g g', S.becomes v g g') : S.Steps digests where
  strict := hstrict
  calls := hcalls
  resumeWith C henter hnext g :=
    C.toPlain.resumeWith hnext g fun item =>
      S.frames.applyBody C henter hnext g (fun _ _ => hbecomes _ _ _) item
  hasNext C v hresume := Passage.carries_hasNext C v hresume fun _ _ => hbecomes _ _ _

/-- What the machine with some fuel does keeps what lasts. -/
theorem Steps.knot (H : S.Steps digests) (fuel : Nat) :
    S.passage.Knot (.withFuel fuel digests) (.withFuel fuel digests) := by
  have build : ∀ {fuel : Nat},
      (∀ callee args, S.passage.Carries ((Engine.withFuel fuel digests).call callee args)
        ((Engine.withFuel fuel digests).call callee args) id) →
      (∀ f c, S.passage.Carries ((Engine.withFuel fuel digests).enter f c)
        ((Engine.withFuel fuel digests).enter f c) S.passage.ended) →
      S.passage.Knot (.withFuel fuel digests) (.withFuel fuel digests) := by
    intro fuel hcall henter
    have hcall' : ∀ callee args, S.passage.Carries ((Engine.withFuel fuel digests).call callee args)
        ((Engine.withFuel fuel digests).call (S.passage.value callee) (args.map S.passage.value))
        S.passage.value := by
      intro callee args
      rw [show args.map S.passage.value = args from List.map_id args]
      exact hcall callee args
    have hplain := Passage.plain_withFuel fuel fuel digests digests
    have C := H.calls fuel
      ⟨hplain, rfl, rfl, hcall', Passage.carries_operation hplain H.strict hcall'⟩
    have R : S.passage.Resumes (.withFuel fuel digests) (.withFuel fuel digests) :=
      ⟨C, fun hnext => H.resumeWith C henter hnext⟩
    exact ⟨⟨R, fun v => H.hasNext C v (R.resume v)⟩, henter⟩
  induction fuel with
  | zero => exact build (fun _ _ => .giveUp) fun _ _ => .giveUp
  | succ fuel ih =>
    refine build (fun callee args => ?_) fun f c => ?_
    · exact callValue ih callee args
    · exact S.frames.activation f (S.frames.run ih S.places f c)

/-! ## Nothing in particular -/

/-- A passage that asks nothing of the objects, with what it says of computations that stop at a
tripwire. -/
def anything (excused : Cause → Prop) (oneWay : Prop) : Lasting where
  inv _ := True
  becomes _ _ _ := True
  becomes_refl _ _ := trivial
  becomes_framed _ _ _ := trivial
  becomes_exhausted _ _ := trivial
  becomes_delivered _ _ := trivial
  allows _ _ := True
  allows_mild _ := trivial
  inv_alloc _ _ _ := trivial
  inv_modify _ _ _ _ _ := trivial
  excuses why stop :=
    stop = .gaveUp why ∨ why = .tripwire ∧ ∃ f, stop = .failed f ∧ excused f.cause
  excuses_gaveUp _ := .inl rfl
  excuses_placedAt {why f} span h := by
    rcases h with h | ⟨hwhy, g, h, hg⟩
    · cases h
    · cases h
      exact .inr ⟨hwhy, _, rfl, hg⟩
  oneWay why := why = .tripwire ∧ oneWay

/-- The passage of a machine to itself that asks nothing of the objects. -/
abbrev still (excused : Cause → Prop) (oneWay : Prop) : Passage :=
  (anything excused oneWay).passage

/-- What carries over to the same machine and has come to an end has come to that end. -/
theorem eq_of_matches {excused : Cause → Prop} {oneWay : Prop} {s t : Ending α}
    (hr : ∀ a, r a = a) (h : (still excused oneWay).Matches r s t) (hend : hasEnded s = true) :
    t = s := by
  cases h with
  | ok a hmn =>
    obtain ⟨rfl, -⟩ := hmn
    rw [hr]
  | failed hfg hmn =>
    obtain ⟨rfl, -⟩ := hmn
    rw [show _ = _ from hfg]
  | gaveUp => cases hend
  | unsaid => cases hend

/-- The passage that only says that there are never fewer objects than before. -/
abbrev growth : Lasting := anything (fun _ => False) False

theorem growth_carries {x : Run α} {r : α → α} (h : ∀ m, m.objectCount ≤ (x.after m).objectCount)
    (hr : ∀ a, r a = a) : growth.passage.Carries x x r :=
  carries h (fun _ _ => trivial) hr

theorem strict_of_not_excused {excused : Cause → Prop} {oneWay : Prop} (h : ∀ c, ¬excused c)
    {why : Cutoff} {stop : Stop} (hstop : (anything excused oneWay).passage.excuses why stop) :
    stop = .gaveUp why := by
  rcases hstop with hstop | ⟨-, f, -, hf⟩
  · exact hstop
  · exact absurd hf (h f.cause)

/-- As much carries over as calls and runs of code do, when nothing is asked of the objects. -/
theorem knot_of_calls {excused : Cause → Prop} {oneWay : Prop} {e e' : Engine}
    (hstrict : ∀ why stop, (anything excused oneWay).excuses why stop → stop = .gaveUp why)
    (hplain : Passage.Plain e e') (hfuel : e'.fuel = e.fuel) (hdigests : e'.digests = e.digests)
    (hcall : ∀ callee args, ((anything excused oneWay).passageUpTo fails hfails).Carries
      (e.call callee args) (e'.call callee args) id)
    (henter : ∀ f c, ((anything excused oneWay).passageUpTo fails hfails).Carries (e.enter f c)
      (e'.enter f c) ((anything excused oneWay).passageUpTo fails hfails).ended) :
    ((anything excused oneWay).passageUpTo fails hfails).Knot e e' := by
  have hcall' : ∀ callee args, ((anything excused oneWay).passageUpTo fails hfails).Carries
      (e.call callee args) (e'.call callee (args.map id)) id := by
    intro callee args
    rw [List.map_id]
    exact hcall callee args
  exact (anything excused oneWay).frames_upTo.knot_of_calls hstrict (fun _ _ _ => trivial)
    (fun _ => trivial) hplain hfuel hdigests hcall' henter

theorem growth_steps (digests : Digests) : growth.Steps digests :=
  .of_becomes (fun _ _ h => @strict_of_not_excused (fun _ => False) False (fun _ => id) _ _ h)
    (fun _ C => C.calls fun _ => trivial) fun _ _ _ => trivial

/-- Calls that carry over along some passage never leave fewer objects behind. -/
theorem growth_calling {e e' : Engine} (C : S.passage.Calling e e') : growth.passage.Calling e e := by
  refine ⟨⟨C.left, C.left⟩, rfl, rfl, fun callee args => ?_, fun operator left right => ?_⟩
  · rw [show args.map growth.passage.value = args from List.map_id args]
    exact growth_carries (C.call callee args).grows fun _ => rfl
  · exact growth_carries (C.operation operator left right).grows fun _ => rfl

theorem growth_calls {e e' : Engine} (C : S.passage.Calling e e') : growth.passage.Calls e e :=
  (growth_calling C).calls fun _ => trivial

end Lasting
end ScriptVM
