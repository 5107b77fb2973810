import ScriptVM.Proofs.Keyed.Asking

/-!
# Arithmetic on Integers

An Integer whose member table has nothing of its own under an arithmetic symbol answers it as
Integers do: it computes with the two words, in source order also when it is asked for the reflected
symbol. An operator asks the left operand, and the right one when that fails.
-/
namespace ScriptVM

open Run

variable {d : Digests} {h h' h'' : Heap} {m : Machine} {v w x y : Value} {s t : Symbol} {fuel : Nat}

/-! ## Values that answer as their type does -/

namespace Heap

/-- There is nothing under the name of a symbol in the member table of a value, but for the note of
what its type does. -/
def Answers (h : Heap) (v : Value) (s : Symbol) : Prop :=
  (h.get v).members.get? s.name = none ∨ (h.get v).members.get? s.name = some (.builtin s)

/-- Objects are added and behaviour is noted in member tables. -/
structure Noted (h h' : Heap) : Prop where
  size : h.objects.size ≤ h'.objects.size
  kind : ∀ v, v.address < h.objects.size → h'.kind v = h.kind v
  answers : ∀ v s, v.address < h.objects.size → h.Answers v s → h'.Answers v s

theorem Noted.refl (h : Heap) : h.Noted h := ⟨Nat.le_refl _, fun _ _ => rfl, fun _ _ _ hv => hv⟩

theorem Noted.trans (hn : h.Noted h') (hn' : h'.Noted h'') : h.Noted h'' where
  size := Nat.le_trans hn.size hn'.size
  kind v hv := (hn'.kind v (Nat.lt_of_lt_of_le hv hn.size)).trans (hn.kind v hv)
  answers v s hv ha := hn'.answers v s (Nat.lt_of_lt_of_le hv hn.size) (hn.answers v s hv ha)

theorem noted_alloc (h : Heap) (kind : Kind) : h.Noted (h.alloc kind).2 where
  size := by simp
  kind v hv := by rw [Heap.kind, Heap.kind, get_alloc_of_lt kind hv]
  answers v s hv ha := by rwa [Answers, get_alloc_of_lt kind hv]

theorem noted_setMember (h : Heap) (v : Value) (s : Symbol) :
    h.Noted (h.setMember v s.name (.builtin s)) where
  size := by simp [setMember]
  kind w _ := by
    unfold Heap.kind setMember
    rcases h.get_modify v w fun o => { o with members := o.members.insert s.name (.builtin s) } with
      ⟨hget, rfl⟩ | hget <;> rw [hget]
  answers w t _ ha := by
    unfold Answers setMember
    rcases h.get_modify v w fun o => { o with members := o.members.insert s.name (.builtin s) } with
      ⟨hget, rfl⟩ | hget
    · rw [hget]
      by_cases hst : s = t
      · subst hst
        exact .inr (by rw [Bindings.get?_insert, if_pos rfl])
      · have hne : ¬t.name = s.name := fun heq => hst (Symbol.eq_of_name_eq heq).symm
        rwa [Bindings.get?_insert, if_neg hne]
    · rwa [hget]

end Heap

namespace Engine

/-- Behaviour of its type is looked up on a value as a function that is bound to it. -/
theorem lookup_of_answers (hv : m.heap.Answers v s) (hs : (m.heap.tag v).supports s = true) :
    ∃ f h, m.heap.Noted h ∧ lookup v s.name m = .ok (some f) { m with heap := h } ∧
      h.kind f = .function ⟨.builtin s, some v⟩ := by
  have hbind : ∀ h : Heap, m.heap.Noted h → m.heap.find v s.name = (some (.builtin s), h) →
      ∃ f h, m.heap.Noted h ∧ lookup v s.name m = .ok (some f) { m with heap := h } ∧
        h.kind f = .function ⟨.builtin s, some v⟩ := by
    intro h hn hfind
    let bound : Kind := .function ⟨.builtin s, some v⟩
    refine ⟨(h.alloc bound).1, (h.alloc bound).2, hn.trans (h.noted_alloc bound), ?_, ?_⟩
    · rw [lookup, Run.modifyGet_apply, Heap.lookup, hfind]
      rfl
    · rw [Heap.kind_alloc]
  rcases hv with hget | hget
  · have hsymbol : (m.heap.tag v).symbol? s.name = some s := by
      rw [TypeTag.symbol?, Symbol.ofName?_name, Option.filter_some, if_pos hs]
    exact hbind _ (m.heap.noted_setMember v s) (by simp [Heap.find, hget, hsymbol])
  · exact hbind _ (.refl _) (by simp [Heap.find, hget])

/-- Asking a value for behaviour of its type runs the method behind it. -/
theorem exists_call_of_answers (d : Digests) (fuel : Nat) (args : List Value)
    {method : Method} (hv : m.heap.Answers v s) (hlt : v.address < m.heap.objects.size)
    (hs : (m.heap.tag v).supports s = true) (hmethod : (m.heap.tag v).method? s = some method)
    (hargs : args.length = s.arity) :
    ∃ f h, m.heap.Noted h ∧ lookup v s.name m = .ok (some f) { m with heap := h } ∧
      (withFuel (fuel + 1) d).call f args { m with heap := h } =
        method (withFuel fuel d) v args { m with heap := h } := by
  obtain ⟨f, h, hn, hlookup, hf⟩ := lookup_of_answers hv hs
  have htag : h.tag v = m.heap.tag v := congrArg Kind.tag (hn.kind v hlt)
  have hmethod' : (h.tag v).method? s = some method := htag ▸ hmethod
  have hf' : Heap.kind { m with heap := h }.heap f = .function ⟨.builtin s, some v⟩ := hf
  exact ⟨f, h, hn, hlookup, call_builtin hf' hargs hmethod'⟩

end Engine

/-! ## Arithmetic symbols -/

/-- What comes of an arithmetic operation. -/
def Arithmetic.give : Except Cause Number → Run Value
  | .ok n => newObject n.toKind
  | .error cause => fail cause

theorem Symbol.supports_of_arithmetic? {r : Arithmetic × Bool} (hs : s.arithmetic? = some r) :
    TypeTag.integer.supports s = true ∧ s.arity = 1 ∧
      TypeTag.integer.method? s = some (Builtin.arithmetic r.1 r.2) := by
  cases s <;> cases hs <;> exact ⟨rfl, rfl, rfl⟩

/-- The method of an arithmetic symbol computes with the words, in source order. -/
theorem Builtin.arithmetic_of_integers {op : Arithmetic} {reflected : Bool} {e : Engine} {a b : Int64}
    (hv : m.heap.kind v = .integer a) (hw : m.heap.kind w = .integer b) :
    Builtin.arithmetic op reflected e v [w] m =
      Arithmetic.give (op.onIntegers (inOrder reflected a b).1 (inOrder reflected a b).2) m := by
  simp only [Builtin.arithmetic, Method.unary, expectNumber, bind_assoc, kindOf_bind, hv, hw,
    Number.ofKind?, pure_bind]
  cases reflected <;>
  · simp only [inOrder, Bool.false_eq_true, if_true, if_false, Arithmetic.compute]
    cases op.onIntegers _ _ <;> rfl

namespace Engine

variable {op : Arithmetic} {reflected : Bool} {a b : Int64}

/-- Asking an Integer for an arithmetic symbol, in two parts. -/
theorem lookup_call_arithmetic (d : Digests) (fuel : Nat) (hs : s.arithmetic? = some (op, reflected))
    (hv : m.heap.kind v = .integer a) (hw : m.heap.kind w = .integer b)
    (hanswers : m.heap.Answers v s) :
    ∃ f h, m.heap.Noted h ∧ lookup v s.name m = .ok (some f) { m with heap := h } ∧
      (withFuel (fuel + 1) d).call f [w] { m with heap := h } =
        Arithmetic.give (op.onIntegers (Builtin.inOrder reflected a b).1
          (Builtin.inOrder reflected a b).2) { m with heap := h } := by
  obtain ⟨hsupports, harity, hmethod⟩ := Symbol.supports_of_arithmetic? hs
  have htag : m.heap.tag v = .integer := congrArg Kind.tag hv
  have hlt := Heap.lt_size_of_kind hv nofun
  have hlt' := Heap.lt_size_of_kind hw nofun
  obtain ⟨f, h, hn, hlookup, hcall⟩ := exists_call_of_answers d fuel [w] hanswers hlt
    (htag ▸ hsupports) (htag ▸ hmethod) harity.symm
  refine ⟨f, h, hn, hlookup, hcall.trans ?_⟩
  exact Builtin.arithmetic_of_integers ((hn.kind v hlt).trans hv) ((hn.kind w hlt').trans hw)

/-- Asking an Integer for an arithmetic symbol. -/
theorem callSymbol_arithmetic (d : Digests) (fuel : Nat) (hs : s.arithmetic? = some (op, reflected))
    (hv : m.heap.kind v = .integer a) (hw : m.heap.kind w = .integer b)
    (hanswers : m.heap.Answers v s) :
    ∃ h, m.heap.Noted h ∧ (withFuel (fuel + 1) d).callSymbol v s [w] m =
      Arithmetic.give (op.onIntegers (Builtin.inOrder reflected a b).1
        (Builtin.inOrder reflected a b).2) { m with heap := h } := by
  obtain ⟨f, h, hn, hlookup, hcall⟩ := lookup_call_arithmetic d fuel hs hv hw hanswers
  refine ⟨h, hn, hcall ▸ ?_⟩
  simp only [callSymbol, callNamed, keep_withFuel, bind, EStateM.bind, hlookup]

/-- An operator that its left operand can do. -/
theorem operation_of_ok (d : Digests) (fuel : Nat) (operator : BinaryOperator) {n : Number}
    (hs : operator.forward.arithmetic? = some (op, false))
    (hx : m.heap.kind x = .integer a) (hy : m.heap.kind y = .integer b)
    (hanswers : m.heap.Answers x operator.forward) (hn : op.onIntegers a b = .ok n) :
    ∃ r m', (withFuel (fuel + 1) d).operation operator x y m = .ok r m' ∧
      m'.heap.kind r = n.toKind := by
  obtain ⟨f, h, -, hlookup, hcall⟩ := lookup_call_arithmetic d fuel hs hx hy hanswers
  have hgive : (withFuel (fuel + 1) d).call f [y] { m with heap := h } =
      .ok (h.alloc n.toKind).1 { m with heap := (h.alloc n.toKind).2 } := by
    refine hcall.trans ?_
    rw [show op.onIntegers (Builtin.inOrder false a b).1 (Builtin.inOrder false a b).2 = .ok n from hn]
    rfl
  refine ⟨(h.alloc n.toKind).1, { m with heap := (h.alloc n.toKind).2 }, ?_,
    Heap.kind_alloc h n.toKind⟩
  simp only [operation, bind, EStateM.bind, hlookup, attempt, hgive]
  rfl

/-- An operator that neither operand can do fails as the right operand does. -/
theorem operation_of_error (d : Digests) (fuel : Nat) (operator : BinaryOperator) {c : Cause}
    (hs : operator.forward.arithmetic? = some (op, false))
    (hs' : operator.reflected.arithmetic? = some (op, true))
    (hx : m.heap.kind x = .integer a) (hy : m.heap.kind y = .integer b)
    (hanswers : m.heap.Answers x operator.forward)
    (hanswers' : m.heap.Answers y operator.reflected) (hc : op.onIntegers a b = .error c) :
    ∃ m', (withFuel (fuel + 1) d).operation operator x y m = .error (.failed (.of c)) m' := by
  obtain ⟨f, h, hn, hlookup, hcall⟩ := lookup_call_arithmetic d fuel hs hx hy hanswers
  have hlt := Heap.lt_size_of_kind hx nofun
  have hlt' := Heap.lt_size_of_kind hy nofun
  have hfails : (withFuel (fuel + 1) d).call f [y] { m with heap := h } =
      .error (.failed (.of c)) { m with heap := h } := by
    refine hcall.trans ?_
    rw [show op.onIntegers (Builtin.inOrder false a b).1 (Builtin.inOrder false a b).2 = .error c
      from hc]
    rfl
  obtain ⟨h', -, hreflected⟩ := callSymbol_arithmetic (m := { m with heap := h }) d fuel hs'
    ((hn.kind y hlt').trans hy) ((hn.kind x hlt).trans hx) (hn.answers y _ hlt' hanswers')
  rw [show op.onIntegers (Builtin.inOrder true b a).1 (Builtin.inOrder true b a).2 = .error c
    from hc] at hreflected
  refine ⟨{ m with heap := h' }, ?_⟩
  simp only [operation, reflectedOperation, bind, EStateM.bind, hlookup, attempt, hfails]
  exact hreflected

end Engine
end ScriptVM
