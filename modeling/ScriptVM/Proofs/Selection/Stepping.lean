import ScriptVM.Proofs.Data.Comparing
import ScriptVM.Proofs.Selection.Tidy

/-!
# Instructions that only ask

Pushing the last object, making one object of the operands on top and asking for membership change the
operands of one frame and ask things of the objects. Whether data is in a tuple of data is answered by
what they say.

## Main definitions

* `Machine.OnlyAsked` — since a machine, things were only asked.

## Main results

* `Engine.exists_contains_eq` — membership of data in a tuple of data is that of what they say.
* `Engine.exists_step_contains` — the membership instruction on data.
-/

/-! ## Membership among data

Whether a value is among the elements of a tuple is asked of the value first, and of the tuple when
the value does not know. Only Strings know the question, and what they know is whether they occur in
another String, so asked about a tuple they fail. The tuple compares its elements with the value, one
after the other, until one is equal.
-/

namespace ScriptVM

open Run

theorem Heap.Presents.pristine {h : Heap} {d : Digests} {n : Nat} {v : Value} {x : Data}
    (hv : h.Presents d n v x) : h.Pristine v := by
  cases n with
  | zero => exact hv.elim
  | succ n => exact hv.1

namespace Engine

variable {d : Digests} {m : Machine} {n fuel : Nat} {v t : Value} {x : Data} {items : List Value}
  {xs : List Data}

/-- The elements are compared until one is equal. -/
theorem decides_containsElement (hequals : Compares d n fuel)
    (hitems : List.Forall₂ (m.heap.Presents d n) items xs) (hv : m.heap.Presents d n v x) :
    (Builtin.containsElement (withFuel fuel d) v items).Decides d m (x ∈ xs) := by
  induction items generalizing m xs with
  | nil =>
    cases hitems
    exact decides_pure (by simp)
  | cons item rest ih =>
    obtain ⟨y, ys, hitem, hrest, rfl⟩ := List.forall₂_cons_left_iff.1 hitems
    obtain ⟨b, ⟨h, ha, hb⟩, hiff⟩ := hequals hitem hv
    cases b with
    | true =>
      obtain rfl := hiff.1 rfl
      refine ⟨true, ⟨h, ha, ?_⟩, by simp⟩
      simp only [Builtin.containsElement, keep_withFuel, bind, EStateM.bind, hb, if_true]
      rfl
    | false =>
      have hne : ¬y = x := fun heq => Bool.false_ne_true (hiff.2 heq)
      have hlater := ih (m := { m with heap := h }) (hrest.imp fun _ _ => ha.presents) (ha.presents hv)
      have hmem : x ∈ y :: ys ↔ x ∈ ys := by
        rw [List.mem_cons, or_iff_right fun heq => hne heq.symm]
      refine (hlater.congr hmem.symm).after ha ?_
      simp only [Builtin.containsElement, keep_withFuel, bind, EStateM.bind, hb, Bool.false_eq_true,
        if_false]

/-- Asked whether it occurs in a tuple, a String fails. -/
theorem isInText_of_tuple {e : Engine} {text : String} (hv : m.heap.kind v = .string text)
    (ht : m.heap.kind t = .tuple items) :
    ∃ f, Method.question false Builtin.isInText e v [t] m = .error (.failed f) m := by
  refine ⟨.of (.invalidType (m.heap.typeName t) ["String"]), ?_⟩
  simp only [Method.question, Method.unary, Builtin.isInText, expectText, bind_assoc, kindOf_bind, hv,
    pure_bind, ht]
  rfl

/-- No value knows whether it is in a tuple, and so the tuple is asked. -/
theorem exists_operation_contains_eq (fuel : Nat) {hash? : Option Int64} (hplain : m.heap.Plain v hash?)
    (ht : m.heap.kind t = .tuple items) :
    ∃ h, m.heap.Asked d h ∧ (withFuel (fuel + 1) d).operation .contains v t m =
      (withFuel (fuel + 1) d).callSymbol t .contains [v] { m with heap := h } := by
  have hforward : BinaryOperator.contains.forward = .rightContains := rfl
  by_cases htag : m.heap.tag v = .string
  · have hs : (m.heap.tag v).supports .rightContains = true := by rw [htag]; rfl
    have hmethod : (m.heap.tag v).method? .rightContains =
        some (.question false Builtin.isInText) := by rw [htag]; rfl
    obtain ⟨f, h, ha, hlookup, hcall⟩ := exists_call_eq fuel [t] hplain hs hmethod rfl
    have hlt := Heap.lt_size_of_kind ht nofun
    obtain ⟨text, htext⟩ : ∃ text, m.heap.kind v = .string text := by
      rw [Heap.tag] at htag
      cases hkind : m.heap.kind v with
      | string text => exact ⟨text, rfl⟩
      | _ =>
        rw [hkind] at htag
        cases htag
    obtain ⟨failure, hfails⟩ := isInText_of_tuple (m := { m with heap := h }) (e := withFuel fuel d)
      ((ha.kind v hplain.lt).trans htext) ((ha.kind t hlt).trans ht)
    refine ⟨h, ha, ?_⟩
    simp only [operation, hforward, bind, EStateM.bind, hlookup, attempt, hcall, hfails]
    rfl
  · have hs : (m.heap.tag v).supports .rightContains = false := by
      cases hkind : m.heap.tag v <;> first | exact absurd hkind htag | rfl
    have hlookup := lookup_of_not_supports hplain hs
    refine ⟨m.heap, .refl _, ?_⟩
    simp only [operation, hforward, bind, EStateM.bind, hlookup]
    rfl

/-- **Membership of data.** Whether data is in a tuple of data is whether it says what one of the
elements says, and asking only asks. -/
theorem exists_contains_eq (hn : n ≤ fuel) (ht : m.heap.kind t = .tuple items)
    (huntouched : (m.heap.get t).Untouched) (hitems : List.Forall₂ (m.heap.Presents d n) items xs)
    (hv : m.heap.Presents d n v x) :
    ∃ b h, m.heap.Asked d h ∧ (b = true ↔ x ∈ xs) ∧
      (withFuel (fuel + 1) d).operation .contains v t m = newBool b { m with heap := h } := by
  have hlt := Heap.lt_size_of_kind ht nofun
  obtain ⟨h, ha, hoperation⟩ := exists_operation_contains_eq (d := d) fuel hv.pristine.plain ht
  have ht' := (ha.kind t hlt).trans ht
  have hplain : h.Plain t (some (h.get t).hash) :=
    ⟨Nat.lt_of_lt_of_le hlt ha.size, ha.untouched t hlt huntouched, .inr rfl⟩
  have htag : h.tag t = .tuple := congrArg Kind.tag ht'
  have hs : (h.tag t).supports .contains = true := by rw [htag]; rfl
  have hmethod : (h.tag t).method? .contains = some (.question false fun e this needle => do
      Builtin.containsElement e needle (← Builtin.expectItems this)) := by rw [htag]; rfl
  obtain ⟨h', ha', hcall⟩ :=
    exists_callSymbol_eq (m := { m with heap := h }) (d := d) fuel [v] hplain hs hmethod rfl
  have hasked := ha.trans ha'
  obtain ⟨b, ⟨h'', ha'', hb⟩, hiff⟩ := decides_containsElement (m := { m with heap := h' })
    (compares d n hn) (hitems.imp fun _ _ => hasked.presents) (hasked.presents hv)
  refine ⟨b, h'', hasked.trans ha'', hiff, hoperation.trans (hcall.trans ?_)⟩
  have hread : (Builtin.expectItems t >>= fun items =>
      Builtin.containsElement (withFuel fuel d) v items) { m with heap := h' } =
        Builtin.containsElement (withFuel fuel d) v items { m with heap := h' } := by
    rw [Builtin.expectItems, bind_assoc, kindOf_bind, ha'.kind t (Nat.lt_of_lt_of_le hlt ha.size), ht']
    rfl
  simp only [Method.question, Method.unary, bind, EStateM.bind] at hread ⊢
  rw [hread, hb]
  simp only [Bool.false_bne]

end Engine
end ScriptVM

namespace ScriptVM

open Run

/-! ## What has happened since a machine -/

variable {digests : Digests}

/-- Since a machine, operands came and went in one frame, instructions were logged, and of the objects
things were only asked. -/
structure Machine.OnlyAsked (digests : Digests) (id : FrameId) (m n : Machine) : Prop where
  asked : m.heap.Asked digests n.heap
  same : n.SameBut id { m with heap := n.heap }

/-- Running on from a machine in a frame, things were only asked, and what the operands and the last
object are then. -/
structure Machine.Onward (digests : Digests) (id : FrameId) (m : Machine) (stack : List Value)
    (last : Option Value) (n : Machine) : Prop where
  onlyAsked : m.OnlyAsked digests id n
  operands : n.HasOperands id stack last

namespace Machine

variable {id : FrameId} {m n k : Machine} {stack : List Value} {last : Option Value} {v : Value}

theorem OnlyAsked.refl (id : FrameId) (m : Machine) : m.OnlyAsked digests id m := ⟨.refl _, rfl⟩

theorem OnlyAsked.trans (h : m.OnlyAsked digests id n) (h' : n.OnlyAsked digests id k) :
    m.OnlyAsked digests id k where
  asked := h.asked.trans h'.asked
  same := h'.same.trans (congrArg (fun x : Machine => { x with heap := k.heap }) h.same)

/-- Logging is no matter. -/
theorem OnlyAsked.ofLog (h : n.SameButLog m) : m.OnlyAsked digests id n where
  asked := h.heap ▸ .refl _
  same := by
    have hforget := congrArg (Machine.forget (some id)) h
    rw [h.heap]
    exact hforget

/-- Nor is what becomes of the operands. -/
theorem OnlyAsked.modifyFrame {g : Frame → Frame} (hg : ∀ f, (g f).forget = f.forget) :
    m.OnlyAsked digests id (m.modifyFrame id g) where
  asked := .refl _
  same := by
    have harena : (m.arena.modify id g).forget (some id) = m.arena.forget (some id) := by
      refine Arena.ext_get? (by simp) (by simp) (by simp) fun other => ?_
      simp only [Arena.get?_forget, Arena.get?_modify]
      by_cases hother : other = id
      · subst hother
        simp only [if_true, Option.map_map]
        congr 1
        funext f
        exact hg f
      · simp only [if_neg hother]
    simp only [SameBut, forget, Machine.modifyFrame, harena]

theorem OnlyAsked.asking {h : Heap} (ha : m.heap.Asked digests h) :
    m.OnlyAsked digests id { m with heap := h } := ⟨ha, rfl⟩

theorem HasOperands.congr (h : m.HasOperands id stack last) (harena : n.arena = m.arena) :
    n.HasOperands id stack last := by
  obtain ⟨f, hf, hs, hl⟩ := h
  exact ⟨f, by rw [harena, hf], hs, hl⟩

namespace Onward

variable {stack' : List Value} {last' : Option Value}

theorem refl (h : m.HasOperands id stack last) : m.Onward digests id stack last m :=
  ⟨.refl id m, h⟩

theorem trans (h : m.Onward digests id stack last n) (h' : n.Onward digests id stack' last' k) :
    m.Onward digests id stack' last' k :=
  ⟨h.onlyAsked.trans h'.onlyAsked, h'.operands⟩

theorem log (h : m.Onward digests id stack last n) (hlog : k.SameButLog n) :
    m.Onward digests id stack last k where
  onlyAsked := h.onlyAsked.trans (.ofLog hlog)
  operands := h.operands.congr hlog.arena

/-- A change of the operands. -/
theorem modifyFrame {g : Frame → Frame} (h : m.HasOperands id stack last)
    (hg : ∀ f, (g f).forget = f.forget)
    (hoperands : ∀ f, f.stack = stack → f.last = last → (g f).stack = stack' ∧ (g f).last = last') :
    m.Onward digests id stack' last' (m.modifyFrame id g) where
  onlyAsked := .modifyFrame hg
  operands := by
    obtain ⟨f, hf, hs, hl⟩ := h
    refine ⟨g f, ?_, hoperands f hs hl⟩
    rw [Machine.modifyFrame, Arena.get?_modify_self, hf, Option.map_some]

theorem heap {h : Heap} (hm : m.HasOperands id stack last) (ha : m.heap.Asked digests h) :
    m.Onward digests id stack last { m with heap := h } := ⟨.asking ha, hm.congr rfl⟩

end Onward
end Machine

theorem Heap.exists_holdsAll {h : Heap} {items : List Value} {xs : List Data}
    (hall : List.Forall₂ h.Says items xs) : ∃ n, List.Forall₂ (h.Holds n) items xs := by
  induction hall with
  | nil => exact ⟨0, .nil⟩
  | cons hfirst _ ih =>
    obtain ⟨n, hn⟩ := hfirst
    obtain ⟨n', hrest⟩ := ih
    exact ⟨max n n', .cons (hn.mono (Nat.le_max_left n n'))
      (hrest.imp fun _ _ hv => hv.mono (Nat.le_max_right n n'))⟩

namespace Engine

variable {id : FrameId} {m n : Machine} {stack : List Value} {last : Option Value} {v : Value}
  {c : Cursor} {fuel : Nat}

/-! ## Operands -/

theorem exists_pop (hm : m.HasOperands id (v :: stack) last) :
    ∃ n, pop id m = .ok v n ∧ n.heap = m.heap ∧ m.Onward digests id stack last n := by
  obtain ⟨f, hf, hs, hl⟩ := hm
  refine ⟨_, pop_of_cons hf hs, rfl, ?_⟩
  exact .modifyFrame ⟨f, hf, hs, hl⟩ (fun _ => rfl) fun _ _ hlast => ⟨rfl, hlast⟩

theorem exists_popMany {vs : List Value} (hm : m.HasOperands id (vs ++ stack) last) :
    ∃ n, popMany id vs.length m = .ok vs n ∧ n.heap = m.heap ∧ m.Onward digests id stack last n := by
  obtain ⟨f, hf, hs, hl⟩ := hm
  have hle : vs.length ≤ f.stack.length := by
    rw [hs, List.length_append]
    omega
  have hrun := popMany_of_le hf hle
  rw [hs, List.take_left, List.drop_left] at hrun
  refine ⟨_, hrun, rfl, ?_⟩
  exact .modifyFrame ⟨f, hf, hs, hl⟩ (fun _ => rfl) fun _ _ hlast => ⟨rfl, hlast⟩

theorem exists_setLast (hm : m.HasOperands id stack last) (v : Value) :
    ∃ n, setLast id v m = .ok () n ∧ n.heap = m.heap ∧ m.Onward digests id stack (some v) n := by
  obtain ⟨f, hf, hs, hl⟩ := hm
  refine ⟨_, modifyFrame_of_live hf _, rfl, ?_⟩
  exact .modifyFrame ⟨f, hf, hs, hl⟩ (fun _ => rfl) fun _ hstack _ => ⟨hstack, rfl⟩

theorem exists_push (digests : Digests) (hm : m.HasOperands id stack last) (v : Value) :
    ∃ n, push id v m = .ok () n ∧ n.heap = m.heap ∧ m.Onward digests id (v :: stack) last n := by
  obtain ⟨f, hf, hs, hl⟩ := hm
  refine ⟨_, modifyFrame_of_live hf _, rfl, ?_⟩
  refine .modifyFrame ⟨f, hf, hs, hl⟩ (fun _ => rfl) fun f' hstack hlast => ⟨?_, hlast⟩
  rw [Frame.push, hstack]

/-! ## Instructions -/

variable {vs : List Value} {x : Data} {xs : List Data}

/-- The last object is pushed. -/
theorem exists_step_push (hm : m.HasOperands id stack (some v)) :
    ∃ n, (∀ (e : Engine) after, e.step id after .push m = .ok (.next after) n) ∧ n.heap = m.heap ∧
      m.Onward digests id (v :: stack) (some v) n := by
  obtain ⟨n, hpush, hheap, honward⟩ := exists_push digests hm v
  obtain ⟨f, hf, -, hl⟩ := hm
  have hlast : Run.last id m = .ok (some v) m := hl ▸ last_of_live hf
  refine ⟨n, fun e after => ?_, hheap, honward⟩
  simp only [step, bind, EStateM.bind, hlast, hpush]
  rfl

/-- A new object becomes the last object. -/
theorem exists_produce (hm : m.HasOperands id stack last) (kind : Kind) :
    ∃ n, produce id kind m = .ok () n ∧ n.heap = (m.heap.alloc kind).2 ∧
      m.Onward digests id stack (some (m.heap.alloc kind).1) n := by
  have halloc : newObject kind m =
      .ok (m.heap.alloc kind).1 { m with heap := (m.heap.alloc kind).2 } := rfl
  have hnew : m.Onward digests id stack last { m with heap := (m.heap.alloc kind).2 } :=
    .heap hm (m.heap.asked_alloc _)
  obtain ⟨n, hset, hheap, hlast⟩ := exists_setLast hnew.operands (m.heap.alloc kind).1
  refine ⟨n, ?_, hheap, hnew.trans hlast⟩
  simp only [produce, bind, EStateM.bind, halloc, hset]

/-- The operands on top become one object. -/
theorem exists_step_gather {op : Op} {make : List Value → Kind}
    (hop : ∀ (e : Engine) after, e.step id after op = do
      produce id (make (← popMany id vs.length))
      return .next after)
    (hm : m.HasOperands id (vs ++ stack) last) :
    ∃ n, (∀ (e : Engine) after, e.step id after op m = .ok (.next after) n) ∧
      n.heap = (m.heap.alloc (make vs)).2 ∧
      m.Onward digests id stack (some (m.heap.alloc (make vs)).1) n := by
  obtain ⟨k, hpop, hk, hpopped⟩ := exists_popMany hm
  obtain ⟨n, hproduce, hheap, hmade⟩ := exists_produce hpopped.operands (make vs)
  rw [hk] at hheap hmade
  refine ⟨n, fun e after => ?_, hheap, hpopped.trans hmade⟩
  simp only [hop, bind, EStateM.bind, hpop, hproduce]
  rfl

/-- Asking whether data is in a tuple of data. -/
theorem exists_step_contains {t : Value} (ht : m.Tidy digests)
    (hm : m.HasOperands id (v :: t :: stack) last) (htuple : m.heap.Says t (.tuple xs))
    (hv : m.heap.Says v x) :
    ∃ needed b r n, (b = true ↔ x ∈ xs) ∧ m.Onward digests id stack (some r) n ∧ n.heap.kind r =
      .bool b ∧
      ∀ fuel, needed ≤ fuel → ∀ after,
        (withFuel fuel digests).step id after (.binary .contains) m = .ok (.next after) n := by
  obtain ⟨l, hpresents, hpresent⟩ : ∃ l, m.heap.Presents digests (l + 1) t (.tuple xs) ∧
      m.heap.Presents digests l v x := by
    obtain ⟨l, htuple⟩ := htuple
    obtain ⟨l', hv⟩ := hv
    exact ⟨max l l', ht.settled.presents ht.counts (htuple.mono (by omega)),
      ht.settled.presents ht.counts (hv.mono (Nat.le_max_right l l'))⟩
  obtain ⟨k, hpop, hk, honward⟩ := exists_pop hm
  obtain ⟨k', hpop', hk', honward'⟩ := exists_pop honward.operands
  rw [← hk, ← hk'] at hpresents hpresent
  obtain ⟨items, hitems, hall⟩ : ∃ items, k'.heap.kind t = .tuple items ∧
      List.Forall₂ (k'.heap.Presents digests l) items xs := by
    have hmeans := hpresents.2
    generalize k'.heap.kind t = kind at hmeans
    cases hmeans with
    | tuple hall => exact ⟨_, rfl, hall⟩
  obtain ⟨b, h, ha, hiff, hin⟩ :=
    exists_contains_eq (Nat.le_refl l) hitems hpresents.1.untouched hall hpresent
  let answered : Machine := { k' with heap := (h.alloc (.bool b)).2 }
  have hanswer : (withFuel (l + 1) digests).operation .contains v t k' =
      .ok (h.alloc (.bool b)).1 answered := hin
  have hasked : k'.Onward digests id stack last answered :=
    .heap honward'.operands (ha.trans (h.asked_alloc _))
  obtain ⟨n, hset, hn, hlast⟩ := exists_setLast hasked.operands (h.alloc (.bool b)).1
  refine ⟨l + 1, b, _, n, hiff, honward.trans (honward'.trans (hasked.trans hlast)), ?_, ?_⟩
  · rw [hn, Heap.kind_alloc]
  · intro fuel hfuel after
    have hmore := Likeness.ok_of_agree_same
      ((Likeness.same_engines digests hfuel).operation .contains trivial trivial) hanswer
    simp only [step, keep_withFuel, bind, EStateM.bind, hpop, hpop', hmore, hset]
    rfl

end Engine
end ScriptVM
