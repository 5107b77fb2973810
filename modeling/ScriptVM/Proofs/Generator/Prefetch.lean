import ScriptVM.Proofs.Fuel
import ScriptVM.Proofs.Generator.Asking
import ScriptVM.Proofs.Generator.Exhaustion

/-!
# Prefetching

A generator that is asked whether it has another value takes the step that produces the value, and keeps
the value in store. As long as no step of it puts anything in store by itself, it answers every sequence
of requests like a list of the values of its steps: none is lost, none is produced twice, and the
questions change nothing of what the other requests get.
-/
namespace ScriptVM

open Engine

/-- Whether a generator waits for its next step with nothing in store. -/
def Machine.Waits (m : Machine) (g : Value) (s : Generator) : Prop :=
  m.heap.kind g = .generator s ∧ s.buffered = none ∧ s.status ≠ .exhausted

/-- The machine with a value in the store of a generator. -/
def Machine.stored (m : Machine) (g : Value) : Option Value → Machine
  | none => m
  | some v =>
    { m with heap := changeGenerator g (fun s => { s with buffered := some v }) m.heap }

/-- How the steps of a generator end. -/
inductive Finish where
  /-- No more is known of them. -/
  | open
  /-- The source has no other item. -/
  | ended
  /-- The source or the operation fails. -/
  | failed (f : Failure)

namespace Finish

/-- The failure that is reported at the end. -/
def failure? : Finish → Option Failure
  | .failed f => some f
  | _ => none

/-- What the step ends with that comes to the end. -/
def result : Finish → Machine → Ending (Option Value)
  | .open, m => .error .outOfFuel m
  | .ended, m => .ok none m
  | .failed f, m => .error (.failed f) m

end Finish

namespace Engine

variable (e : Engine) (depth : Nat) (g : Value)

/-- A step: the source gives an item, and the operation makes a value of it. The generator has nothing
in store before the step and after it. -/
structure Takes (m : Machine) (item v : Value) (m' : Machine) : Prop where
  step : ∃ s k, m.Waits g s ∧ e.nextWithin depth s.source m = .ok (some item) k ∧
    e.applyBody (e.nextWithin depth) g item k = .ok v m'
  waits : ∃ s, m'.Waits g s

/-- A step that produces no value, because the source has no other item or because the step fails. The
generator has nothing in store before the step and after it. -/
structure Stops (m : Machine) (finish : Finish) (m' : Machine) : Prop where
  waits : ∃ s, m.Waits g s
  step : e.resumeWith (e.nextWithin depth) g m = finish.result m'
  empty : ∃ s, m'.heap.kind g = .generator s ∧ s.buffered = none

/-- The steps that a generator takes when it is only ever asked for values: the items with the values
made of them, and how the steps end. -/
inductive Course : Machine → List (Value × Value) → Finish → Machine → Prop
  | rest {m : Machine} (hwaits : ∃ s, m.Waits g s) : Course m [] .open m
  | stop {m m' : Machine} {finish : Finish} (hknown : finish ≠ .open)
    (hstops : Stops e depth g m finish m') : Course m [] finish m'
  | take {m k m' : Machine} {item v : Value} {steps : List (Value × Value)} {finish : Finish}
    (htakes : Takes e depth g m item v k) (hcourse : Course k steps finish m') :
    Course m ((item, v) :: steps) finish m'

end Engine

section prefetch

variable {e : Engine} {depth depth' fuel : Nat} {g item v : Value} {s : Generator}
  {m m' k : Machine} {finish : Finish} {steps : List (Value × Value)}
  {next : Value → Run (Option Value)} {digests : Digests}

/-! ## What is in store -/

namespace Heap

theorem setKind_setKind (h : Heap) (v : Value) (k k' : Kind) :
    (h.setKind v k).setKind v k' = h.setKind v k' := by
  unfold setKind modify
  refine congrArg Heap.mk (Array.ext_getElem? fun i => ?_)
  simp only [Array.getElem?_modify]
  split
  · cases h.objects[i]? <;> rfl
  · rfl

theorem setKind_kind (h : Heap) (v : Value) : h.setKind v (h.kind v) = h := by
  unfold setKind modify
  refine congrArg Heap.mk (Array.ext_getElem? fun i => ?_)
  rw [Array.getElem?_modify]
  split
  · rename_i hi
    cases hobject : h.objects[i]? with
    | none => rfl
    | some o =>
      have hkind : h.kind v = o.kind := by
        rw [kind, get, Array.getD_eq_getD_getElem?, hi, hobject, Option.getD_some]
      rw [Option.map_some, hkind]
  · rfl

theorem kind_setKind {h : Heap} (hg : h.kind g = .generator s) (k : Kind) :
    (h.setKind g k).kind g = k := by
  rw [kind, setKind, get_modify_self _ (lt_of_generator hg)]

theorem changeGenerator_of_kind {h : Heap} (hg : h.kind g = .generator s)
    (change : Generator → Generator) :
    changeGenerator g change h = h.setKind g (.generator (change s)) := by
  simp only [changeGenerator, hg]

end Heap

namespace Machine.Waits

theorem kind_stored (h : m.Waits g s) (v : Value) :
    (m.stored g (some v)).heap.kind g = .generator { s with buffered := some v } := by
  simp only [stored, Heap.changeGenerator_of_kind h.1]
  exact Heap.kind_setKind h.1 _

/-- What was in store is handed over, and the machine is as it was. -/
theorem resumeWith_stored (h : m.Waits g s) (v : Value) :
    e.resumeWith next g (m.stored g (some v)) = .ok (some v) m := by
  rw [resumeWith_of_buffered (h.kind_stored v) rfl]
  have hempty : ({ { s with buffered := some v } with buffered := none } : Generator) = s := by
    obtain ⟨source, body, receivers, scope, frame, status, buffered⟩ := s
    obtain rfl : buffered = none := h.2.1
    rfl
  have hheap : (m.stored g (some v)).heap.setKind g (.generator s) = m.heap := by
    simp only [stored, Heap.changeGenerator_of_kind h.1, Heap.setKind_setKind]
    rw [← h.1, Heap.setKind_kind]
  rw [hempty, hheap]
  rfl

theorem resumeWith_eq (hplain : e.tracks = false) (h : m.Waits g s) :
    e.resumeWith next g m = orExhaust g (next s.source >>= fun r =>
      r.elim (return none) fun item => return some (← e.applyBody next g item)) m := by
  obtain ⟨hg, hb, hs⟩ := h
  cases hstatus : s.status with
  | exhausted => exact absurd hstatus hs
  | _ =>
    simp only [resumeWith, keep_of_plain hplain, expectGenerator, Run.kindOf, Run.read, bind,
      EStateM.bind, pure,
      EStateM.pure, hg, hb, hstatus]
    refine congrFun (congrArg (fun f => orExhaust g (EStateM.bind (next s.source) f)) ?_) m
    funext r
    cases r <;> rfl

end Machine.Waits

/-! ## Single requests -/

namespace Engine

/-- A step that has come to an end comes to the same end when its source may be deeper. -/
theorem resumeWith_mono (hdepth : depth ≤ depth')
    (hend : hasEnded
      ((withFuel fuel digests).resumeWith ((withFuel fuel digests).nextWithin depth) g m) = true) :
    (withFuel fuel digests).resumeWith ((withFuel fuel digests).nextWithin depth') g m =
      (withFuel fuel digests).resumeWith ((withFuel fuel digests).nextWithin depth) g m := by
  have E := Likeness.same_engines digests (Nat.le_refl fuel)
  exact Likeness.eq_of_agree_same (E.resumeWith (E.nextWithin hdepth) trivial) hend

/-- Both requests for a value take the step. -/
theorem next_of_step {x : Ending (Option Value)} (hdepth : depth < fuel) (hwaits : m.Waits g s)
    (hstep : (withFuel fuel digests).resumeWith ((withFuel fuel digests).nextWithin depth) g m = x)
    (hend : hasEnded x = true) :
      (withFuel fuel digests).next g m = x ∧ (withFuel fuel digests).resume g m = x := by
  subst hstep
  obtain ⟨fuel, rfl⟩ := Nat.exists_eq_succ_of_ne_zero (Nat.ne_zero_of_lt hdepth)
  constructor
  · rw [← resumeWith_mono (Nat.le_of_lt_succ hdepth) hend]
    exact nextWithin_of_generator fuel hwaits.1
  · exact resumeWith_mono (Nat.le_of_lt hdepth) hend

/-- The answer of a generator that has nothing in store is whether its step produces a value. -/
theorem hasNext_of_step (hwaits : m.Waits g s) :
    e.hasNext g m = (e.resume g >>= fun r => r.elim (return false) fun v => do
      Run.modifyHeap (changeGenerator g fun s => { s with buffered := some v })
      return true) m := by
  simp only [hasNext, Run.kindOf, Run.read, bind, EStateM.bind, hwaits.1, hwaits.2.1,
    Option.isSome_none, Bool.false_eq_true, if_false]
  cases e.resume g m with
  | ok r k => cases r <;> rfl
  | error stop k => rfl

/-- Only what produces a value is not the last step. -/
theorem exhausted_of_orExhaust {x : Run (Option Value)} {r : Ending (Option Value)}
    (h : orExhaust g x m = r) (hr : r = .ok none m' ∨ ∃ stop, r = .error stop m')
    (hg : m'.heap.kind g = .generator s) : s.status = .exhausted := by
  have hexhaust : ∀ k : Machine, m' = { k with
      heap := changeGenerator g (fun s => { s with status := .exhausted }) k.heap } →
      s.status = .exhausted := by
    rintro k rfl
    unfold changeGenerator at hg
    dsimp only at hg
    split at hg
    · rename_i s' hs'
      rw [Heap.kind_setKind hs'] at hg
      cases hg
      rfl
    · rename_i hne
      exact absurd hg (hne s)
  unfold orExhaust at h
  subst h
  cases hx : x m with
  | ok v k =>
    rw [hx] at hr
    cases v with
    | some v => rcases hr with hr | ⟨stop, hr⟩ <;> cases hr
    | none =>
      rcases hr with hr | ⟨stop, hr⟩
      · exact hexhaust k (EStateM.Result.ok.inj hr).2.symm
      · cases hr
  | error stop k =>
    rw [hx] at hr
    rcases hr with hr | ⟨stop', hr⟩
    · cases hr
    · exact hexhaust k (EStateM.Result.error.inj hr).2.symm

theorem Takes.resumeWith (hplain : e.tracks = false) (h : e.Takes depth g m item v m') :
    e.resumeWith (e.nextWithin depth) g m = .ok (some v) m' := by
  obtain ⟨s, k, hwaits, hnext, hbody⟩ := h.step
  rw [hwaits.resumeWith_eq hplain]
  simp only [orExhaust, bind, EStateM.bind, hnext, Option.elim_some, hbody, pure, EStateM.pure]

theorem Stops.exhausts (hplain : e.tracks = false) (h : e.Stops depth g m finish m')
    (hknown : finish ≠ .open) :
    ∃ s, m'.heap.kind g = .generator s ∧ s.buffered = none ∧ s.status = .exhausted := by
  obtain ⟨s, hwaits⟩ := h.waits
  obtain ⟨s', hg, hb⟩ := h.empty
  refine ⟨s', hg, hb, exhausted_of_orExhaust ((hwaits.resumeWith_eq hplain).symm.trans h.step) ?_ hg⟩
  cases finish with
  | «open» => exact absurd rfl hknown
  | ended => exact .inl rfl
  | failed f => exact .inr ⟨_, rfl⟩

/-- What is in store answers every request. -/
theorem ask_stored (hwaits : m.Waits g s) (a : Ask) (v : Value) :
    (withFuel (fuel + 1) digests).ask g a (m.stored g (some v)) =
      .ok (a.found v) (m.stored g (if a.delivers then none else some v)) := by
  have hresume : (withFuel (fuel + 1) digests).resume g (m.stored g (some v)) = .ok (some v) m :=
    hwaits.resumeWith_stored v
  have hnext : (withFuel (fuel + 1) digests).next g (m.stored g (some v)) = .ok (some v) m :=
    (nextWithin_of_generator fuel (hwaits.kind_stored v)).trans (hwaits.resumeWith_stored v)
  have hhas : (withFuel (fuel + 1) digests).hasNext g (m.stored g (some v)) = .ok true _ :=
    hasNext_of_buffered (hwaits.kind_stored v) rfl
  cases a <;> simp only [ask, bind, EStateM.bind, hresume, hnext, hhas] <;> rfl

/-- A step that produces a value answers every request, and a question puts the value in store. -/
theorem Takes.ask (hdepth : depth < fuel) (h : (withFuel fuel digests).Takes depth g m item v m')
    (a : Ask) :
    (withFuel fuel digests).ask g a m =
      .ok (a.found v) (m'.stored g (if a.delivers then none else some v)) := by
  obtain ⟨s, -, hwaits, -⟩ := h.step
  obtain ⟨hnext, hresume⟩ := next_of_step hdepth hwaits (h.resumeWith (tracks_withFuel ..)) rfl
  cases a with
  | hasNext => simp only [Engine.ask, bind, EStateM.bind, hasNext_of_step hwaits, hresume]; rfl
  | next => simp only [Engine.ask, bind, EStateM.bind, hnext]; rfl
  | resume => simp only [Engine.ask, bind, EStateM.bind, hresume]; rfl

theorem Stops.ask_ended (hdepth : depth < fuel) (h : (withFuel fuel digests).Stops depth g m .ended m')
    (a : Ask) : (withFuel fuel digests).ask g a m = .ok a.missed m' := by
  obtain ⟨s, hwaits⟩ := h.waits
  obtain ⟨hnext, hresume⟩ := next_of_step hdepth hwaits h.step rfl
  cases a with
  | hasNext =>
    simp only [Engine.ask, bind, EStateM.bind, hasNext_of_step hwaits, hresume, Finish.result]
    rfl
  | next => simp only [Engine.ask, bind, EStateM.bind, hnext, Finish.result]; rfl
  | resume => simp only [Engine.ask, bind, EStateM.bind, hresume, Finish.result]; rfl

theorem Stops.ask_failed {f : Failure} (hdepth : depth < fuel)
    (h : (withFuel fuel digests).Stops depth g m (.failed f) m') (a : Ask) :
    (withFuel fuel digests).ask g a m = .error (.failed f) m' := by
  obtain ⟨s, hwaits⟩ := h.waits
  obtain ⟨hnext, hresume⟩ := next_of_step hdepth hwaits h.step rfl
  cases a with
  | hasNext =>
    simp only [Engine.ask, bind, EStateM.bind, hasNext_of_step hwaits, hresume, Finish.result]
  | next => simp only [Engine.ask, bind, EStateM.bind, hnext, Finish.result]
  | resume => simp only [Engine.ask, bind, EStateM.bind, hresume, Finish.result]

theorem ask_exhausted (hg : m.heap.kind g = .generator s) (hb : s.buffered = none)
    (hs : s.status = .exhausted) (a : Ask) :
    (withFuel (fuel + 1) digests).ask g a m = .ok a.missed m := by
  have hresume :
    (withFuel (fuel + 1) digests).resume g m = .ok none m := resumeWith_of_exhausted hg hb hs
  have hnext : (withFuel (fuel + 1) digests).next g m = .ok none m :=
    (nextWithin_of_generator fuel hg).trans (resumeWith_of_exhausted hg hb hs)
  have hhas : (withFuel (fuel + 1) digests).hasNext g m = .ok false m := hasNext_of_exhausted hg hb hs
  cases a <;> simp only [ask, bind, EStateM.bind, hresume, hnext, hhas] <;> rfl

end Engine

/-! ## Sequences of requests -/

namespace Engine

/-- A request that is answered, and the requests behind it. -/
theorem asks_of_ok {a : Ask} {rest : List Ask} {r : Reply} {rs : List Reply}
    (ha : e.ask g a m = .ok r m') (hrest : e.asks g rest m' = .ok rs k) :
    e.asks g (a :: rest) m = .ok (r :: rs) k := by
  simp only [asks, ha, Functor.map, EStateM.map, hrest]

/-- A request that fails, and the requests behind it. -/
theorem asks_of_failed {a : Ask} {rest : List Ask} {f : Failure} {rs : List Reply}
    (ha : e.ask g a m = .error (.failed f) m') (hrest : e.asks g rest m' = .ok rs k) :
    e.asks g (a :: rest) m = .ok (.failed f :: rs) k := by
  simp only [asks, ha, Functor.map, EStateM.map, hrest]

/-- After the end every request is told so, and nothing is run. -/
theorem asks_exhausted (hg : m.heap.kind g = .generator s) (hb : s.buffered = none)
    (hs : s.status = .exhausted) (asks : List Ask) :
    (withFuel (fuel + 1) digests).asks g asks m = .ok (replies [] none asks) m := by
  induction asks with
  | nil => rfl
  | cons a rest ih => exact asks_of_ok (ask_exhausted hg hb hs a) ih

namespace Course

theorem waits (h : e.Course depth g m steps finish m') : ∃ s, m.Waits g s := by
  cases h with
  | rest hwaits => exact hwaits
  | stop _ hstops => exact hstops.waits
  | take htakes _ =>
    obtain ⟨s, -, hwaits, -⟩ := htakes.step
    exact ⟨s, hwaits⟩

/-- Where no end is known of, the generator still waits. -/
theorem waits_of_open (h : e.Course depth g m steps finish m') (hfinish : finish = .open) :
    ∃ s, m'.Waits g s := by
  induction h with
  | rest hwaits => exact hwaits
  | stop hknown => exact absurd hfinish hknown
  | take _ _ ih => exact ih hfinish

theorem exhausts (hplain : e.tracks = false) (h : e.Course depth g m steps finish m')
    (hfinish : finish ≠ .open) :
    ∃ s, m'.heap.kind g = .generator s ∧ s.buffered = none ∧ s.status = .exhausted := by
  induction h with
  | rest => exact absurd rfl hfinish
  | stop _ hstops => exact hstops.exhausts hplain hfinish
  | take _ _ ih => exact ih hfinish

/-- A request leaves the value in store unless it takes it. -/
theorem toList_kept (a : Ask) (v : Value) (vs : List Value) :
    (if a.delivers then none else some v).toList ++ vs = if a.delivers then vs else v :: vs := by
  cases a.delivers <;> rfl

theorem length_kept (a : Ask) (v : Value) :
    (if a.delivers then none else some v).toList.length + (if a.delivers then 1 else 0) = 1 := by
  cases a.delivers <;> rfl

/-- Requests that come when a value is perhaps in store; it counts as taken by a step. -/
theorem asks_stored (hdepth : depth < fuel) (asks : List Ask) :
    ∀ {m : Machine} {steps : List (Value × Value)} (store : Option Value) (last : Ask),
      (withFuel fuel digests).Course depth g m steps finish m' →
      (last.delivers = false → store.isSome = true) →
      (finish = .open → asks.length ≤ store.toList.length + steps.length) →
      ∃ k, (withFuel fuel digests).asks g asks (m.stored g store) =
          .ok (replies (store.toList ++ steps.map Prod.snd) finish.failure? asks) k ∧
        ((∃ i store' k', i ≤ steps.length ∧
            (withFuel fuel digests).Course depth g m (steps.take i) .open k' ∧ k = k'.stored g store' ∧
            store.toList.length + i = asks.countP Ask.delivers + store'.toList.length ∧
            ((asks.getLast?.getD last).delivers = false → store'.isSome = true)) ∨
          finish ≠ .open ∧ k = m') := by
  obtain ⟨fuel, rfl⟩ := Nat.exists_eq_succ_of_ne_zero (Nat.ne_zero_of_lt hdepth)
  induction asks with
  | nil =>
    intro m steps store last hcourse hlast _
    exact ⟨_, rfl, .inl ⟨0, store, m, Nat.zero_le _, .rest hcourse.waits, rfl, by simp, hlast⟩⟩
  | cons a rest ih =>
    intro m steps store last hcourse hlast hknown
    have hkept : ∀ v : Value,
        a.delivers = false → (if a.delivers then none else some v).isSome = true :=
      fun v ha => by simp [ha]
    rw [List.getLast?_cons, Option.getD_some, List.countP_cons]
    rw [List.length_cons] at hknown
    cases store with
    | some v =>
      have hlength := length_kept a v
      obtain ⟨s, hwaits⟩ := hcourse.waits
      obtain ⟨k, hrun, hk⟩ := ih (if a.delivers then none else some v) a hcourse (hkept v)
        fun hfinish => by
          have hle := hknown hfinish
          rw [Option.toList_some, List.length_singleton] at hle
          split <;> simp <;> omega
      rw [toList_kept] at hrun
      refine ⟨k, asks_of_ok (ask_stored hwaits a v) hrun, ?_⟩
      rcases hk with ⟨i, store', k', hi, hcourse', hk, hcount, hlast'⟩ | hk
      · refine .inl ⟨i, store', k', hi, hcourse', hk, ?_, hlast'⟩
        rw [Option.toList_some, List.length_singleton]
        omega
      · exact .inr hk
    | none =>
      cases hcourse with
      | rest hwaits => exact absurd (hknown rfl) (by simp)
      | stop hfinish hstops =>
        obtain ⟨s, hg, hb, hs⟩ := hstops.exhausts (tracks_withFuel ..) hfinish
        have hrest : (withFuel (fuel + 1) digests).asks g rest m' = .ok (replies [] none rest) m' :=
          asks_exhausted hg hb hs rest
        refine ⟨m', ?_, .inr ⟨hfinish, rfl⟩⟩
        cases finish with
        | «open» => exact absurd rfl hfinish
        | ended => exact asks_of_ok (hstops.ask_ended hdepth a) hrest
        | failed f => exact asks_of_failed (hstops.ask_failed hdepth a) hrest
      | take htakes hcourse =>
        rename_i k₁ item v steps
        have hlength := length_kept a v
        obtain ⟨k, hrun, hk⟩ := ih (if a.delivers then none else some v) a hcourse (hkept v)
          fun hfinish => by
            have hle := hknown hfinish
            rw [Option.toList_none, List.length_nil, List.length_cons] at hle
            omega
        rw [toList_kept] at hrun
        refine ⟨k, asks_of_ok (htakes.ask hdepth a) hrun, ?_⟩
        rcases hk with ⟨i, store', k', hi, hcourse', hk, hcount, hlast'⟩ | hk
        · refine .inl ⟨i + 1, store', k', Nat.succ_le_succ hi, .take htakes hcourse', hk, ?_, hlast'⟩
          rw [Option.toList_none, List.length_nil]
          omega
        · exact .inr hk

end Course

end Engine

/-- Prefetching neither loses nor duplicates values. Let a generator take some steps when it is only ever
asked for values, none of which puts anything in store. Then it answers every sequence of requests like
the list of the values of these steps, with the failure behind them if they end with one. The values
come in order, one for each request that takes one, and leaving out the questions changes none of them.
A question is answered with `true` exactly if the next request that takes a value gets one. Every item
is taken once: the generator stands behind as many steps as values were handed over, and one more if a
value is in store. Asking again runs nothing, and after the end nothing is run any more. -/
theorem Engine.Course.prefetch (hdepth : depth < fuel)
    (h : (withFuel fuel digests).Course depth g m steps finish m') (asks : List Ask)
    (hknown : finish = .open → asks.length ≤ steps.length) :
    ∃ rs k, (withFuel fuel digests).asks g asks m = .ok rs k ∧
      rs = replies (steps.map Prod.snd) finish.failure? asks ∧
      rs.filterMap Reply.value? = (steps.map Prod.snd).take (asks.countP Ask.delivers) ∧
      (∃ rs' k', (withFuel fuel digests).asks g (asks.filter Ask.delivers) m = .ok rs' k' ∧
        rs'.filterMap Reply.value? = rs.filterMap Reply.value?) ∧
      (∀ i a, asks[i]? = some .hasNext → asks[i + 1]? = some a → a.delivers = true →
        (rs[i]? = some (.has true) ↔ ∃ v, rs[i + 1]? = some (.delivered (some v)))) ∧
      ((∃ i store k', i ≤ steps.length ∧
        (withFuel fuel digests).Course depth g m (steps.take i) .open k' ∧
          k = k'.stored g store ∧ i = asks.countP Ask.delivers + store.toList.length) ∨
        finish ≠ .open ∧ k = m') ∧
      (asks.getLast? = some .hasNext → ∃ b, (withFuel fuel digests).hasNext g k = .ok b k) ∧
      (finish ≠ .open → ∀ a, (withFuel fuel digests).ask g a m' = .ok a.missed m') := by
  obtain ⟨fuel, rfl⟩ := Nat.exists_eq_succ_of_ne_zero (Nat.ne_zero_of_lt hdepth)
  obtain ⟨k, hrun, hk⟩ := h.asks_stored hdepth asks none .next nofun (by simpa using hknown)
  obtain ⟨k₁, hrun₁, -⟩ := h.asks_stored hdepth (asks.filter Ask.delivers) none .next nofun
    fun hfinish => by
      have hle := List.length_filter_le Ask.delivers asks
      have hknown := hknown hfinish
      simp only [Option.toList_none, List.length_nil]
      omega
  refine ⟨_, k, hrun, rfl, filterMap_replies _ _ _, ⟨_, k₁, hrun₁, ?_⟩,
    fun i a hi ha hdelivers => replies_hasNext _ _ _ i hi ha hdelivers, ?_, ?_, ?_⟩
  · rw [filterMap_replies, filterMap_replies, List.countP_filter]
    simp
  · rcases hk with ⟨i, store, k', hi, hcourse, hk, hcount, -⟩ | hk
    · rw [Option.toList_none, List.length_nil, Nat.zero_add] at hcount
      exact .inl ⟨i, store, k', hi, hcourse, hk, hcount⟩
    · exact .inr hk
  · intro hlast
    rcases hk with ⟨i, store, k', -, hcourse, rfl, -, hstore⟩ | ⟨hfinish, rfl⟩
    · rw [hlast] at hstore
      obtain ⟨v, rfl⟩ := Option.isSome_iff_exists.1 (hstore rfl)
      obtain ⟨s, hwaits⟩ := hcourse.waits_of_open rfl
      exact ⟨true, hasNext_of_buffered (hwaits.kind_stored v) rfl⟩
    · obtain ⟨s, hg, hb, hs⟩ := h.exhausts (tracks_withFuel ..) hfinish
      exact ⟨false, hasNext_of_exhausted hg hb hs⟩
  · intro hfinish a
    obtain ⟨s, hg, hb, hs⟩ := h.exhausts (tracks_withFuel ..) hfinish
    exact ask_exhausted hg hb hs a

/-- A generator over one item that is asked twice whether it has another value, then for two values. -/
theorem Engine.Course.prefetch_hasNext :
    ∃ (g item v : Value) (m m' k : Machine) (rs : List Reply),
      (withFuel 20 .standard).Course 5 g m [(item, v)] .ended m' ∧
      (withFuel 20 .standard).asks g [.hasNext, .hasNext, .next, .resume] m = .ok rs k ∧
      rs = [.has true, .has true, .delivered (some v), .delivered none] ∧ k = m' := by
  let at' : Span := ⟨some 1⟩
  let program : Program := .ofBody [
    .assign at' (.identifier at' "g") .assign
      (.generator at' (.identifier at' "x") ["x"] (.array at' [.integer at' "1"]))]
  let waits (m : Machine) (i : Nat) (p : Generator → Bool) : Bool :=
    (m.heap.generator? ⟨i⟩).any fun s => decide (s.buffered = none ∧ s.status ≠ .exhausted) && p s
  have hends : (program.compile.toOption.any fun code =>
      (finished? ((withFuel 20 .standard).execute code (.new .standard))).any fun x =>
      (List.range x.2.heap.objects.size).any fun i => waits x.2 i fun s =>
      (finished? ((withFuel 20 .standard).nextWithin 5 s.source x.2)).any fun y => y.1.any fun item =>
      (finished? ((withFuel 20 .standard).applyBody ((withFuel 20 .standard).nextWithin 5)
        ⟨i⟩ item y.2)).any fun z =>
      waits z.2 i fun _ =>
      (finished? ((withFuel 20 .standard).resumeWith ((withFuel 20 .standard).nextWithin 5)
        ⟨i⟩ z.2)).any fun r =>
      r.1.isNone && (r.2.heap.generator? ⟨i⟩).any fun s => decide (s.buffered = none)) = true := by
    decide +kernel
  obtain ⟨code, -, hends⟩ := (Option.any_eq_true _ _).1 hends
  obtain ⟨⟨u, m⟩, -, hends⟩ := (Option.any_eq_true _ _).1 hends
  obtain ⟨i, -, hends⟩ := List.any_eq_true.1 hends
  obtain ⟨s, hs, hends⟩ := (Option.any_eq_true _ _).1 hends
  obtain ⟨hwaits, hends⟩ := (Bool.and_eq_true _ _).mp hends
  obtain ⟨⟨found, k⟩, hitem, hends⟩ := (Option.any_eq_true _ _).1 hends
  obtain ⟨item, hfound, hends⟩ := (Option.any_eq_true _ _).1 hends
  obtain ⟨⟨v, k'⟩, hbody, hends⟩ := (Option.any_eq_true _ _).1 hends
  obtain ⟨s', hs', hends⟩ := (Option.any_eq_true _ _).1 hends
  obtain ⟨hwaits', hends⟩ := (Bool.and_eq_true _ _).mp hends
  obtain ⟨⟨last, m'⟩, hstop, hends⟩ := (Option.any_eq_true _ _).1 hends
  obtain ⟨hlast, hends⟩ := (Bool.and_eq_true _ _).mp hends
  obtain ⟨s'', hs'', hempty⟩ := (Option.any_eq_true _ _).1 hends
  obtain rfl : found = some item := hfound
  obtain rfl : last = none := Option.isNone_iff_eq_none.1 hlast
  have hbefore : m.Waits ⟨i⟩ s := ⟨Heap.kind_of_generator? hs, of_decide_eq_true hwaits⟩
  have hafter : k'.Waits ⟨i⟩ s' := ⟨Heap.kind_of_generator? hs', of_decide_eq_true hwaits'⟩
  have hcourse : (withFuel 20 .standard).Course 5 ⟨i⟩ m [(item, v)] .ended m' :=
    .take ⟨⟨s, k, hbefore, eq_ok_of_finished? hitem, eq_ok_of_finished? hbody⟩, s', hafter⟩
      (.stop (by simp) ⟨⟨s', hafter⟩, eq_ok_of_finished? hstop, s'', Heap.kind_of_generator? hs'',
        of_decide_eq_true hempty⟩)
  obtain ⟨rs, k, hrun, hrs, -, -, -, hk, -⟩ :=
    hcourse.prefetch (by decide) [.hasNext, .hasNext, .next, .resume] (by simp)
  refine ⟨⟨i⟩, item, v, m, m', k, rs, hcourse, hrun, hrs, ?_⟩
  rcases hk with ⟨j, store, _, hj, -, -, hcount⟩ | ⟨-, hk⟩
  · have hle : j ≤ 1 := hj
    have hge : j = 2 + store.toList.length := hcount
    omega
  · exact hk

end prefetch
end ScriptVM
