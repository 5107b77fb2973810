import Mathlib.Data.Finset.Card
import Mathlib.Data.Finset.Range
import Mathlib.Logic.Relation
import ScriptVM.Proofs.Heap
import ScriptVM.Proofs.Number.Operator
import ScriptVM.Value.Display

/-!
# Asking data

Values that are made of built-in data answer as their types do, whatever they contain and however
they contain each other. Asking them makes objects, notes behaviour and remembers hashes, and what
comes of it is a result or a reason to stop. `Run.Comes` says which results and which reasons there
may be, and such statements compose.

## Main definitions

* `Heap.Acyclic` — nothing in a value contains itself.
* `Heap.MadeOfData` — everything in a value is built-in data that answers as its type does.
* `Run.Comes` — what may come of a run that only asks.

## Main results

* `Heap.acyclic_iff_acc` — such values are those whose containment is well-founded.
* `Heap.isSome_display?_iff` — such values are those that have a text.
-/

/-! ## Containment

Tuples, Arrays and Hashes contain other values. A program can put an array into itself, so what a
value contains need not come to an end. The text of a value goes down into everything the value
contains: there is one exactly if nothing in the value contains itself, and then it is found within
as many levels as there are objects.
-/

namespace ScriptVM

/-- What a payload contains. -/
def Kind.elements : Kind → List Value
  | .tuple items | .array items => items
  | .hash table => table.entries.flatMap fun entry => [entry.1, entry.2]
  | _ => []

namespace Heap

open Relation

variable {h : Heap} {v w : Value} {depth : Nat} {quoted : Bool}

/-- A value is one of those that another one contains. -/
def Contains (h : Heap) (w v : Value) : Prop := w ∈ (h.kind v).elements

/-- Nothing in a value contains itself, at any depth. -/
def Acyclic (h : Heap) (v : Value) : Prop :=
  ∀ w, ReflTransGen h.Contains w v → ¬TransGen h.Contains w w

theorem Acyclic.element (hv : h.Acyclic v) (hw : h.Contains w v) : h.Acyclic w :=
  fun u hu => hv u (hu.tail hw)

/-- What contains something is an object. -/
theorem Contains.lt (hw : h.Contains w v) : v.address < h.objects.size := by
  refine lt_size_of_kind rfl fun hnone => ?_
  rw [Contains, hnone] at hw
  cases hw

section text

/-- A value has a text within one level more than its elements have theirs. -/
theorem isSome_textWithin_succ :
    (h.textWithin (depth + 1) quoted v).isSome = true ↔
      ∀ w, h.Contains w v → (h.textWithin depth true w).isSome = true := by
  have hpair : ∀ a b : Option String, (do
      let key ← a
      let value ← b
      return (key, value)).isSome = true ↔ a.isSome = true ∧ b.isSome = true := by
    intro a b
    cases a <;> cases b <;> simp
  rw [textWithin]
  cases hkind : h.kind v with
  | bool b => cases b <;> simp [Contains, hkind, Kind.elements]
  | tuple items =>
    simp only [Option.isSome_map, isSome_mapM]
    simp [Contains, hkind, Kind.elements]
  | array items =>
    simp only [Option.isSome_map, isSome_mapM]
    simp [Contains, hkind, Kind.elements]
  | hash table =>
    simp only [Option.isSome_map, isSome_mapM, hpair, Contains, hkind, Kind.elements,
      List.mem_flatMap, List.mem_cons, List.not_mem_nil, or_false]
    constructor
    · rintro hall w ⟨entry, hentry, rfl | rfl⟩
      · exact (hall entry hentry).1
      · exact (hall entry hentry).2
    · intro hall entry hentry
      exact ⟨hall _ ⟨entry, hentry, .inl rfl⟩, hall _ ⟨entry, hentry, .inr rfl⟩⟩
  | _ => simp [Contains, hkind, Kind.elements]

/-- What has a text within some levels is well-founded. -/
theorem acc_of_isSome_textWithin (hv : (h.textWithin depth quoted v).isSome = true) :
    Acc h.Contains v := by
  induction depth generalizing quoted v with
  | zero => cases hv
  | succ depth ih => exact Acc.intro v fun w hw => ih (isSome_textWithin_succ.mp hv w hw)

/-- The levels that are left and the objects around a value are more than there are objects, so
there is a level left for every object that is not around the value. -/
theorem Acyclic.isSome_textWithin (hv : h.Acyclic v) (around : Finset Nat)
    (haround : ∀ a ∈ around, a < h.objects.size ∧ TransGen h.Contains v ⟨a⟩)
    (hdepth : h.objects.size < around.card + depth) :
    (h.textWithin depth quoted v).isSome = true := by
  induction depth generalizing quoted v around with
  | zero =>
    have hsub : around ⊆ Finset.range h.objects.size := by
      intro a ha
      exact Finset.mem_range.mpr (haround a ha).1
    have hcard := Finset.card_le_card hsub
    rw [Finset.card_range] at hcard
    omega
  | succ depth ih =>
    rw [isSome_textWithin_succ]
    intro w hw
    have hnew : v.address ∉ around := fun hmem => hv v .refl (haround _ hmem).2
    refine ih (hv.element hw) (insert v.address around) ?_ ?_
    · intro a ha
      obtain rfl | ha := Finset.mem_insert.mp ha
      · exact ⟨hw.lt, .single hw⟩
      · exact ⟨(haround a ha).1, .head hw (haround a ha).2⟩
    · rw [Finset.card_insert_of_notMem hnew]
      omega

theorem Acyclic.isSome_within_nestingBound (hv : h.Acyclic v) (quoted : Bool) :
    (h.textWithin h.nestingBound quoted v).isSome = true := by
  refine hv.isSome_textWithin ∅ (fun a ha => absurd ha (Finset.notMem_empty a)) ?_
  rw [Finset.card_empty, nestingBound]
  omega

theorem acyclic_of_acc (hv : Acc h.Contains v) : h.Acyclic v := by
  intro w hw
  have hacc : Acc h.Contains w := by
    induction hw with
    | refl => exact hv
    | tail _ hstep ih => exact ih (hv.inv hstep)
  have hirrefl : ∀ u, Acc (TransGen h.Contains) u → ¬TransGen h.Contains u u := by
    intro u hu
    induction hu with
    | intro u _ ih => exact fun hself => ih u hself hself
  exact hirrefl w hacc.transGen

/-- Nothing in a value contains itself exactly if its containment is well-founded. -/
theorem acyclic_iff_acc : h.Acyclic v ↔ Acc h.Contains v :=
  ⟨fun hv => acc_of_isSome_textWithin (hv.isSome_within_nestingBound true),
    acyclic_of_acc⟩

/-- Exactly the values that do not contain themselves, at any depth, have a text. -/
theorem isSome_display?_iff : (h.display? v).isSome = true ↔ h.Acyclic v :=
  ⟨fun hv => acyclic_of_acc (acc_of_isSome_textWithin hv), fun hv =>
    hv.isSome_within_nestingBound false⟩

/-- What contains itself at some depth has no text within any number of levels. -/
theorem textWithin_of_not_acyclic (hv : ¬h.Acyclic v) (depth : Nat) (quoted : Bool) :
    h.textWithin depth quoted v = none := by
  cases htext : h.textWithin depth quoted v with
  | none => rfl
  | some text =>
    exact absurd (acyclic_of_acc (acc_of_isSome_textWithin (by rw [htext]; rfl))) hv

end text

end Heap
end ScriptVM

namespace ScriptVM

open Run Relation

/-- Whether the values of a type are built-in data. -/
def TypeTag.isData : TypeTag → Bool
  | .none | .bool | .integer | .float | .string | .bytes | .tuple | .array | .hash => true
  | _ => false

namespace Heap

variable {h h' : Heap} {v w : Value}

/-- Built-in data without members of its own. -/
structure Datum (h : Heap) (v : Value) : Prop where
  lt : v.address < h.objects.size
  data : (h.tag v).isData = true
  answers : ∀ s, h.Answers v s

/-- Everything in a value is built-in data without members of its own. -/
def MadeOfData (h : Heap) (v : Value) : Prop := ∀ w, ReflTransGen h.Contains w v → h.Datum w

theorem Datum.noted (hv : h.Datum v) (hn : h.Noted h') : h'.Datum v where
  lt := Nat.lt_of_lt_of_le hv.lt hn.size
  data := by
    rw [tag, hn.kind v hv.lt]
    exact hv.data
  answers s := hn.answers v s hv.lt (hv.answers s)

theorem MadeOfData.datum (hv : h.MadeOfData v) : h.Datum v := hv v .refl

theorem MadeOfData.element (hv : h.MadeOfData v) (hw : h.Contains w v) : h.MadeOfData w :=
  fun u hu => hv u (hu.tail hw)

/-- Where all objects are such data and all elements exist, every value is made of data. -/
theorem madeOfData_of_forall (hdatum : ∀ u, u.address < h.objects.size → h.Datum u)
    (helements : ∀ u w, h.Contains w u → w.address < h.objects.size)
    (hlt : v.address < h.objects.size) : h.MadeOfData v := by
  intro w hw
  refine hdatum w ?_
  cases hw using ReflTransGen.head_induction_on with
  | refl => exact hlt
  | head hstep _ => exact helements _ w hstep

theorem noted_setHash (h : Heap) (v : Value) (hash : Int64) : h.Noted (h.setHash v hash) where
  size := by simp [setHash]
  kind w _ := by
    unfold Heap.kind setHash
    rcases h.get_modify v w fun o => { o with hash := hash } with ⟨hget, rfl⟩ | hget <;> rw [hget]
  answers w s _ hw := by
    unfold Answers setHash
    rcases h.get_modify v w fun o => { o with hash := hash } with ⟨hget, rfl⟩ | hget <;> rwa [hget]

end Heap

namespace Run

variable {α β : Type}

/-- A run only asks, and ends with one of some results or stops for one of some reasons. -/
def Comes (x : Run α) (m : Machine) (result : α → Heap → Prop) (reason : Stop → Prop) : Prop :=
  ∃ h, m.heap.Noted h ∧
    ((∃ a, result a h ∧ x m = .ok a { m with heap := h }) ∨
      ∃ stop, reason stop ∧ x m = .error stop { m with heap := h })

variable {m : Machine} {x y : Run α} {f : α → Run β} {P P' : α → Heap → Prop}
  {Q : β → Heap → Prop} {E E' : Stop → Prop} {a : α}

theorem comes_pure (ha : P a m.heap) : (pure a : Run α).Comes m P E :=
  ⟨m.heap, .refl _, .inl ⟨a, ha, rfl⟩⟩

theorem comes_read {g : Machine → α} (hg : P (g m) m.heap) : (read g).Comes m P E :=
  ⟨m.heap, .refl _, .inl ⟨g m, hg, rfl⟩⟩

theorem comes_fail {cause : Cause} (hE : E (.failed (.of cause))) :
    (fail cause : Run α).Comes m P E :=
  ⟨m.heap, .refl _, .inr ⟨_, hE, rfl⟩⟩

theorem comes_giveUp (hE : E .outOfFuel) : (giveUp : Run α).Comes m P E :=
  ⟨m.heap, .refl _, .inr ⟨_, hE, rfl⟩⟩

theorem comes_newObject {kind : Kind} {P : Value → Heap → Prop}
    (hP : P (m.heap.alloc kind).1 (m.heap.alloc kind).2) : (newObject kind).Comes m P E :=
  ⟨_, m.heap.noted_alloc kind, .inl ⟨_, hP, rfl⟩⟩

/-- What is asked first is part of what is asked. -/
theorem Comes.after {h : Heap} (hx : x.Comes { m with heap := h } P E) (hn : m.heap.Noted h)
    (heq : y m = x { m with heap := h }) : y.Comes m P E := by
  obtain ⟨h', hn', hends⟩ := hx
  refine ⟨h', hn.trans hn', ?_⟩
  rw [heq]
  exact hends

theorem Comes.congr (hx : x.Comes m P E) (heq : y m = x m) : y.Comes m P E :=
  hx.after (.refl _) heq

theorem Comes.imp (hx : x.Comes m P E) (hP : ∀ a h, m.heap.Noted h → P a h → P' a h)
    (hE : ∀ stop, E stop → E' stop) : x.Comes m P' E' := by
  obtain ⟨h, hn, ⟨a, ha, hrun⟩ | ⟨stop, hstop, hrun⟩⟩ := hx
  · exact ⟨h, hn, .inl ⟨a, hP a h hn ha, hrun⟩⟩
  · exact ⟨h, hn, .inr ⟨stop, hE stop hstop, hrun⟩⟩

/-- A result is used on a machine that was asked something. -/
theorem Comes.bind (hx : x.Comes m P E)
    (hf : ∀ a h, m.heap.Noted h → P a h → (f a).Comes { m with heap := h } Q E) :
    (x >>= f).Comes m Q E := by
  obtain ⟨h, hn, ⟨a, ha, hrun⟩ | ⟨stop, hstop, hrun⟩⟩ := hx
  · exact (hf a h hn ha).after hn (by simp only [Bind.bind, EStateM.bind, hrun])
  · exact ⟨h, hn, .inr ⟨stop, hstop, by simp only [Bind.bind, EStateM.bind, hrun]⟩⟩

/-- A failure that is caught is a result. -/
theorem Comes.attempt (hx : x.Comes m P E) :
    (attempt x).Comes m (fun a? h => match a? with
      | some a => P a h
      | none => ∃ f, E (.failed f)) (fun stop => (∃ why, stop = .gaveUp why) ∧ E stop) := by
  obtain ⟨h, hn, ⟨a, ha, hrun⟩ | ⟨stop, hstop, hrun⟩⟩ := hx
  · exact ⟨h, hn, .inl ⟨some a, ha, by simp only [Run.attempt, hrun]⟩⟩
  · cases stop with
    | failed f => exact ⟨h, hn, .inl ⟨none, ⟨f, hstop⟩, by simp only [Run.attempt, hrun]⟩⟩
    | gaveUp why =>
      exact ⟨h, hn, .inr ⟨_, ⟨⟨why, rfl⟩, hstop⟩, by simp only [Run.attempt, hrun]⟩⟩

/-- A list is gone through on machines that were asked something. -/
theorem comes_mapM {l : List α} {R : α → β → Prop} (m : Machine)
    (hf : ∀ a ∈ l, ∀ h, m.heap.Noted h → (f a).Comes { m with heap := h } (fun b _ => R a b) E) :
    (l.mapM f).Comes m (fun bs _ => List.Forall₂ R l bs) E := by
  induction l generalizing m with
  | nil => exact comes_pure .nil
  | cons a l ih =>
    rw [List.mapM_cons]
    refine ((hf a List.mem_cons_self m.heap (.refl _)).bind fun b h hn hb => ?_)
    refine (ih { m with heap := h } fun c hc h' hn' => ?_).bind fun bs h' hn' hbs => ?_
    · exact hf c (List.mem_cons_of_mem a hc) h' (hn.trans hn')
    · exact comes_pure (.cons hb hbs)

theorem comes_kindOf_bind {f : Kind → Run β} {v : Value}
    (hf : (f (m.heap.kind v)).Comes m Q E) : (kindOf v >>= f).Comes m Q E :=
  hf.congr (kindOf_bind v f m)

end Run

namespace Engine

variable {m : Machine} {v : Value} {s : Symbol} {P : Value → Heap → Prop} {E : Stop → Prop}

/-- Asking a value for a symbol that it answers as its type does. -/
theorem comes_callSymbol (d : Digests) (fuel : Nat) {args : List Value} {method : Method}
    (hv : m.heap.Answers v s) (hlt : v.address < m.heap.objects.size)
    (hs : (m.heap.tag v).supports s = true)
    (hmethod : (m.heap.tag v).method? s = some method) (hargs : args.length = s.arity)
    (hrun : ∀ h, m.heap.Noted h →
      (method (withFuel fuel d) v args).Comes { m with heap := h } P E) :
    ((withFuel (fuel + 1) d).callSymbol v s args).Comes m P E := by
  obtain ⟨f, h, hn, hlookup, hcall⟩ :=
    exists_call_of_answers d fuel args hv hlt hs hmethod hargs
  refine (hrun h hn).after hn ?_
  rw [← hcall]
  simp only [callSymbol, callNamed, keep_withFuel, bind, EStateM.bind, hlookup]

/-- Without fuel, nothing is asked. -/
theorem comes_callSymbol_zero (d : Digests) (args : List Value) (hv : m.heap.Datum v)
    (hs : (m.heap.tag v).supports s = true) (hE : E .outOfFuel) :
    ((withFuel 0 d).callSymbol v s args).Comes m P E := by
  obtain ⟨f, h, hn, hlookup, -⟩ := lookup_of_answers (hv.answers s) hs
  refine (comes_giveUp (m := { m with heap := h }) hE).after hn ?_
  simp only [callSymbol, callNamed, keep_withFuel, bind, EStateM.bind, hlookup]
  rfl

end Engine
end ScriptVM
