import ScriptVM.Machine.Execution
import ScriptVM.Proofs.Heap
import ScriptVM.Proofs.Keyed.Key

/-!
# Asking keys

Asking a value for its hash, or whether it equals another one, makes new objects, notes in the value
what it was asked for, and lets it remember its hash. It changes no payload, and what shows a key
goes on showing it. So a computation that only asks is described by its result alone, a value or
the kind of a failure, and such descriptions compose.
-/
namespace ScriptVM

/-- Every symbol is found under its name. -/
theorem Symbol.ofName?_name (s : Symbol) : ofName? s.name = some s := by
  cases s <;> decide

theorem Symbol.eq_of_name_eq {s t : Symbol} (h : s.name = t.name) : s = t := by
  have hs := ofName?_name s
  rw [h, ofName?_name t] at hs
  exact (Option.some.inj hs).symm

/-! ## Heaps -/

/-- What questions do to the objects. -/
structure Heap.Asked (d : Digests) (h h' : Heap) : Prop where
  size : h.objects.size ≤ h'.objects.size
  kind : ∀ v, v.address < h.objects.size → h'.kind v = h.kind v
  untouched : ∀ v, v.address < h.objects.size → (h.get v).Untouched → (h'.get v).Untouched
  plain : ∀ v k, h.Shows d v k → h'.Plain v (k.hash? d)

namespace Heap

variable {h h' h'' : Heap} {d : Digests} {v : Value} {k : Key}

theorem Asked.shows (ha : h.Asked d h') (hv : h.Shows d v k) : h'.Shows d v k :=
  hv.of_plain (fun v hlt => .inl (ha.kind v hlt)) ha.plain

theorem Asked.showsAll {items : List Value} {keys : List Key} (ha : h.Asked d h')
    (hall : h.ShowsAll d items keys) : h'.ShowsAll d items keys :=
  hall.of_plain (fun v hlt => .inl (ha.kind v hlt)) ha.plain

@[refl] theorem Asked.refl (h : Heap) : h.Asked d h :=
  ⟨Nat.le_refl _, fun _ _ => rfl, fun _ _ hv => hv, fun _ _ hv => hv.plain⟩

theorem Asked.trans (ha : h.Asked d h') (hb : h'.Asked d h'') : h.Asked d h'' where
  size := Nat.le_trans ha.size hb.size
  kind v hv := (hb.kind v (Nat.lt_of_lt_of_le hv ha.size)).trans (ha.kind v hv)
  untouched v hv hu := hb.untouched v (Nat.lt_of_lt_of_le hv ha.size) (ha.untouched v hv hu)
  plain _ _ hv := (hb.shows (ha.shows hv)).plain

theorem asked_alloc (h : Heap) (kind : Kind) : h.Asked d (h.alloc kind).2 where
  size := by simp
  kind v hv := by rw [Heap.kind, Heap.kind, get_alloc_of_lt kind hv]
  untouched v hv hu := by
    rw [get_alloc_of_lt kind hv]
    exact hu
  plain v k hv := by
    have hget := get_alloc_of_lt kind hv.lt
    exact ⟨by simpa using Nat.lt_succ_of_lt hv.lt, by rw [hget]; exact hv.plain.object⟩

/-- An object may change that keeps its payload and what makes it plain. -/
theorem asked_modify {f : Object → Object} (hkind : (f (h.get v)).kind = (h.get v).kind)
    (huntouched : (h.get v).Untouched → (f (h.get v)).Untouched)
    (hplain : ∀ k, h.Shows d v k → (f (h.get v)).Plain (k.hash? d)) :
    h.Asked d (h.modify v f) where
  size := by simp
  kind w _ := by
    unfold Heap.kind
    rcases h.get_modify v w f with ⟨hget, rfl⟩ | hget
    · rw [hget, hkind]
    · rw [hget]
  untouched w _ hw := by
    rcases h.get_modify v w f with ⟨hget, rfl⟩ | hget
    · rw [hget]
      exact huntouched hw
    · rw [hget]
      exact hw
  plain w k hw := by
    refine ⟨by simpa using hw.lt, ?_⟩
    rcases h.get_modify v w f with ⟨hget, rfl⟩ | hget
    · rw [hget]
      exact hplain k hw
    · rw [hget]
      exact hw.plain.object

/-- A note of behaviour that its type has says nothing new. -/
theorem untouched_note {o : Object} {s : Symbol} (hs : o.kind.tag.supports s = true)
    (ho : o.Untouched) : { o with members := o.members.insert s.name (.builtin s) }.Untouched := by
  intro name m hm
  rw [Bindings.get?_insert] at hm
  split at hm
  · rename_i hname
    cases hm
    exact ⟨s, rfl, hname.symm, hs⟩
  · exact ho name m hm

theorem asked_setMember {s : Symbol} (hs : (h.tag v).supports s = true) :
    h.Asked d (h.setMember v s.name (.builtin s)) :=
  asked_modify rfl (untouched_note hs) fun _ hv =>
    ⟨untouched_note hs hv.plain.object.notes, hv.plain.object.memo⟩

/-- An object that is new may change in any way. -/
theorem Asked.modify_new {f : Object → Object} (ha : h.Asked d h')
    (hv : h.objects.size ≤ v.address) : h.Asked d (h'.modify v f) := by
  have hsame : ∀ w, w.address < h.objects.size → (h'.modify v f).get w = h'.get w := fun w hw =>
    h'.get_modify_of_ne f fun heq => Nat.not_lt.2 hv (heq ▸ hw)
  refine ⟨by simpa using ha.size, fun w hw => ?_, fun w hw hu => ?_, fun w k hw => ⟨?_, ?_⟩⟩
  · rw [Heap.kind, hsame w hw]
    exact ha.kind w hw
  · rw [hsame w hw]
    exact ha.untouched w hw hu
  · simpa using (ha.plain w k hw).lt
  · rw [hsame w hw.lt]
    exact (ha.plain w k hw).object

/-- An object may remember the hash of what it shows. -/
theorem asked_setHash {hash : Int64} (hv : h.Shows d v k) (hhash : k.hash? d = some hash) :
    h.Asked d (h.setHash v hash) := by
  refine asked_modify rfl id fun l hl => ⟨hl.plain.object.notes, .inr ?_⟩
  rw [← hv.unique hl, hhash]

end Heap

/-! ## Computations that ask -/

/-- A computation only asks, and comes to a result or fails with a kind of failure. -/
def Run.Ends {α : Type} (d : Digests) (x : Run α) (m : Machine) : Except String α → Prop
  | .ok a => ∃ h, m.heap.Asked d h ∧ x m = .ok a { m with heap := h }
  | .error kind => ∃ h f, m.heap.Asked d h ∧ x m = .error (.failed f) { m with heap := h } ∧
      f.cause.kindName = kind

namespace Run

variable {α β : Type} {d : Digests} {m : Machine} {x : Run α} {f : α → Run β} {a : α}

theorem ends_pure (a : α) : (pure a : Run α).Ends d m (.ok a) := ⟨m.heap, .refl _, rfl⟩

theorem ends_read (g : Machine → α) : (read g).Ends d m (.ok (g m)) := ⟨m.heap, .refl _, rfl⟩

theorem ends_read_of {g : Machine → α} (hg : g m = a) : (read g).Ends d m (.ok a) :=
  hg ▸ ends_read g

theorem ends_fail (cause : Cause) : (fail cause : Run α).Ends d m (.error cause.kindName) :=
  ⟨m.heap, _, .refl _, rfl, rfl⟩

/-- A computation that only asks has only asked when it comes to a result. -/
theorem Ends.eq_of_ok {b : α} {m' : Machine} (hx : x.Ends d m (.ok a)) (h : x m = .ok b m') :
    b = a ∧ m.heap.Asked d m'.heap := by
  obtain ⟨heap, ha, hends⟩ := hx
  cases h.symm.trans hends
  exact ⟨rfl, ha⟩

/-- What is asked first is part of what is asked. -/
theorem Ends.after {x z : Run α} {h : Heap} {r : Except String α}
    (hx : x.Ends d { m with heap := h } r) (ha : m.heap.Asked d h)
    (hz : z m = x { m with heap := h }) : z.Ends d m r := by
  cases r with
  | ok a =>
    obtain ⟨h', ha', hx⟩ := hx
    exact ⟨h', ha.trans ha', hz.trans hx⟩
  | error kind =>
    obtain ⟨h', failure, ha', hx, hkind⟩ := hx
    exact ⟨h', failure, ha.trans ha', hz.trans hx, hkind⟩

/-- A result is used on a machine that was asked something. -/
theorem Ends.bind {r : Except String β} (hx : x.Ends d m (.ok a))
    (hf : ∀ h, m.heap.Asked d h → (f a).Ends d { m with heap := h } r) : (x >>= f).Ends d m r := by
  obtain ⟨h, ha, hx⟩ := hx
  exact (hf h ha).after ha (by simp only [Bind.bind, EStateM.bind, hx])

/-- A failure stays a failure. -/
theorem Ends.bind_error {kind : String} (hx : x.Ends d m (.error kind)) :
    (x >>= f).Ends d m (.error kind) := by
  obtain ⟨h, failure, ha, hx, hkind⟩ := hx
  exact ⟨h, failure, ha, by simp only [Bind.bind, EStateM.bind, hx], hkind⟩

theorem Ends.map {g : α → β} {r : Except String α} (hx : x.Ends d m r) :
    (x >>= fun a => pure (g a)).Ends d m (r.map g) := by
  cases r with
  | ok a => exact hx.bind fun _ _ => ends_pure (g a)
  | error kind => exact hx.bind_error

theorem read_bind (g : Machine → α) (f : α → Run β) (m : Machine) :
    (read g >>= f) m = f (g m) m := rfl

theorem kindOf_bind (v : Value) (f : Kind → Run β) (m : Machine) :
    (kindOf v >>= f) m = f (m.heap.kind v) m := rfl

/-- What is read of an object that was made just now. -/
theorem kindOf_newObject_bind (kind : Kind) (f : Value → Kind → Run β) (m : Machine) :
    (newObject kind >>= fun v => kindOf v >>= f v) m =
      f (m.heap.alloc kind).1 kind { m with heap := (m.heap.alloc kind).2 } := by
  change f _ ((m.heap.alloc kind).2.kind (m.heap.alloc kind).1) _ = _
  rw [Heap.kind_alloc]
  rfl

/-- An Integer is made only to be read. -/
theorem ends_expectInteger (n : Int64) :
    (newInteger n >>= Engine.expectInteger).Ends d m (.ok n) :=
  ⟨_, Heap.asked_alloc m.heap (.integer n), kindOf_newObject_bind (.integer n) _ m⟩

/-- A Bool is made only to be read. -/
theorem ends_expectBool (b : Bool) : (newBool b >>= Engine.expectBool).Ends d m (.ok b) :=
  ⟨_, Heap.asked_alloc m.heap (.bool b), kindOf_newObject_bind (.bool b) _ m⟩

end Run

/-! ## Built-in behaviour -/

namespace Engine

open Run

variable {d : Digests} {m : Machine} {v : Value} {s : Symbol} {hash? : Option Int64}

/-- Behaviour of its type is looked up on a plain object as a function that is bound to it. -/
theorem lookup_of_plain (d : Digests) (hplain : m.heap.Plain v hash?)
    (hs : (m.heap.tag v).supports s = true) :
    ∃ f h, m.heap.Asked d h ∧ lookup v s.name m = .ok (some f) { m with heap := h } ∧
      h.kind f = .function ⟨.builtin s, some v⟩ := by
  have hbind : ∀ h : Heap, m.heap.Asked d h → m.heap.find v s.name = (some (.builtin s), h) →
      ∃ f h, m.heap.Asked d h ∧ lookup v s.name m = .ok (some f) { m with heap := h } ∧
        h.kind f = .function ⟨.builtin s, some v⟩ := by
    intro h ha hfind
    let bound : Kind := .function ⟨.builtin s, some v⟩
    refine ⟨(h.alloc bound).1, (h.alloc bound).2, ha.trans (Heap.asked_alloc h bound), ?_, ?_⟩
    · rw [lookup, Run.modifyGet_apply, Heap.lookup, hfind]
      rfl
    · rw [Heap.kind_alloc]
  cases hget : (m.heap.get v).members.get? s.name with
  | some member =>
    obtain ⟨t, rfl, ht, -⟩ := hplain.object.notes _ _ hget
    obtain rfl := Symbol.eq_of_name_eq ht
    exact hbind m.heap (.refl _) (by simp [Heap.find, hget])
  | none =>
    have hsymbol : (m.heap.tag v).symbol? s.name = some s := by
      rw [TypeTag.symbol?, Symbol.ofName?_name, Option.filter_some, if_pos hs]
    exact hbind _ (Heap.asked_setMember hs) (by simp [Heap.find, hget, hsymbol])

/-- Behaviour that its type does not have is not found on a plain object. -/
theorem lookup_of_not_supports (hplain : m.heap.Plain v hash?)
    (hs : (m.heap.tag v).supports s = false) : lookup v s.name m = .ok none m := by
  have hget : (m.heap.get v).members.get? s.name = none := by
    refine Option.eq_none_iff_forall_not_mem.2 fun member hmember => ?_
    obtain ⟨t, -, ht, hsupports⟩ := hplain.object.notes _ _ hmember
    obtain rfl := Symbol.eq_of_name_eq ht
    exact Bool.false_ne_true (hs.symm.trans hsupports)
  have hsymbol : (m.heap.tag v).symbol? s.name = none := by
    rw [TypeTag.symbol?, Symbol.ofName?_name, Option.filter_some, hs]
    rfl
  rw [lookup, Run.modifyGet_apply, Heap.lookup, Heap.find]
  simp only [hget, hsymbol]

/-- Calling behaviour of its type on a plain object runs the method behind it. -/
theorem call_builtin {fuel : Nat} {f : Value} {args : List Value} {method : Method}
    (hf : m.heap.kind f = .function ⟨.builtin s, some v⟩) (hargs : args.length = s.arity)
    (hmethod : (m.heap.tag v).method? s = some method) :
    (withFuel (fuel + 1) d).call f args m = method (withFuel fuel d) v args m := by
  have hkind : (m.heap.kind v).tag.method? s = some method := hmethod
  have harity : ¬ args.length ≠ (Callable.builtin s).arity := not_not.2 hargs
  change (withFuel fuel d).callValue f args m = _
  rw [callValue, kindOf_bind, hf]
  change (withFuel fuel d).callFunction f ⟨.builtin s, some v⟩ args m = _
  rw [callFunction_of_plain (tracks_withFuel fuel d), if_neg harity]
  change (withFuel fuel d).callBuiltin v s args m = _
  rw [callBuiltin, kindOf_bind, hkind]

/-- What asking a plain object for behaviour of its type comes to: looking it up only asks, and the
method behind it does the rest. -/
theorem exists_call_eq (fuel : Nat) (args : List Value) {method : Method}
    (hplain : m.heap.Plain v hash?) (hs : (m.heap.tag v).supports s = true)
    (hmethod : (m.heap.tag v).method? s = some method) (hargs : args.length = s.arity) :
    ∃ f h, m.heap.Asked d h ∧ lookup v s.name m = .ok (some f) { m with heap := h } ∧
      (withFuel (fuel + 1) d).call f args { m with heap := h } =
        method (withFuel fuel d) v args { m with heap := h } := by
  obtain ⟨f, h, ha, hlookup, hf⟩ := lookup_of_plain d hplain hs
  have htag : h.tag v = m.heap.tag v := congrArg Kind.tag (ha.kind v hplain.lt)
  have hmethod' : (h.tag v).method? s = some method := htag ▸ hmethod
  exact ⟨f, h, ha, hlookup, call_builtin (m := { m with heap := h }) hf hargs hmethod'⟩

theorem exists_callSymbol_eq (fuel : Nat) (args : List Value) {method : Method}
    (hplain : m.heap.Plain v hash?) (hs : (m.heap.tag v).supports s = true)
    (hmethod : (m.heap.tag v).method? s = some method) (hargs : args.length = s.arity) :
    ∃ h, m.heap.Asked d h ∧ (withFuel (fuel + 1) d).callSymbol v s args m =
      method (withFuel fuel d) v args { m with heap := h } := by
  obtain ⟨f, h, ha, hlookup, hcall⟩ := exists_call_eq fuel args hplain hs hmethod hargs
  refine ⟨h, ha, ?_⟩
  rw [← hcall]
  simp only [callSymbol, callNamed, keep_withFuel, bind, EStateM.bind, hlookup]

end Engine
end ScriptVM
