import ScriptVM.Proofs.Selection.Stepping
import ScriptVM.Proofs.Statement.Correct

/-!
# Expressions that come to data

An expression comes to data without side effects when, on every machine that only asking tells from
the first one, its code puts a value on the operands that says the same data, and only asks. Literals,
variables, Tuples and Arrays are such expressions.

Code logs what it does. Between two machines that a part of it leads from and to, the log is therefore
left open.

## Main definitions

* `Expr.Yields` — evaluating an expression comes to data and has no side effects.
* `Engine.Brings` — code leads from one machine to another, up to the log.
-/
namespace ScriptVM

open Run

/-! ## Evaluating without side effects -/

/-- A property of machines that asking and logging, and operands of a frame, do not touch. -/
def Machine.Indifferent (digests : Digests) (id : FrameId) (P : Machine → Prop) : Prop :=
  ∀ ⦃m n⦄, P m → m.OnlyAsked digests id n → P n

/-- A tidy machine with some property and with these operands in a frame. -/
structure Machine.Ready (digests : Digests) (P : Machine → Prop) (id : FrameId) (stack : List Value)
    (m : Machine) :
    Prop where
  holds : P m
  tidy : m.Tidy digests
  operands : ∃ last, m.HasOperands id stack last

/-- The code of an expression, as a block of its own, comes to a value that says some data, on top of
the operands that there were. The property is kept, and of the objects things are only asked. -/
def Expr.Yields (digests : Digests) (P : Machine → Prop) (id : FrameId) (x : Expr) (a : Data) : Prop :=
  ∀ ⦃code⦄, x.code true = .ok code → code.length ≤ Text.maxCount →
  ∀ ⦃m stack⦄, m.Ready digests P id stack → ∃ fuel v n last,
    (Engine.withFuel fuel digests).Ends id (.ofList code) m
      (.ok (.next ((Cursor.ofList code).skip code.length)) n) ∧
    P n ∧ m.heap.Asked digests n.heap ∧ n.HasOperands id (v :: stack) last ∧ n.heap.Says v a

section ready

variable {P : Machine → Prop} {id : FrameId} {m n : Machine} {stack stack' : List Value}
  {last : Option Value} {digests : Digests}

theorem Machine.Onward.ready (h : m.Onward digests id stack' last n)
    (hP : Machine.Indifferent digests id P)
    (hm : m.Ready digests P id stack) (ht : n.Tidy digests) : n.Ready digests P id stack' :=
  ⟨hP hm.holds h.onlyAsked, ht, last, h.operands⟩

theorem Machine.Ready.log (hm : m.Ready digests P id stack) (hP : Machine.Indifferent digests id P)
    (h : n.SameButLog m) : n.Ready digests P id stack := by
  obtain ⟨last, hoperands⟩ := hm.operands
  exact ((Machine.Onward.refl hoperands).log h).ready hP hm (hm.tidy.log h)

end ready

namespace Engine

variable {P : Machine → Prop} {id : FrameId} {c c₁ c₂ : Cursor} {m n k : Machine}
  {stack : List Value} {code : Block} {fuel fuel' : Nat} {span : Span}
  {content : Expr → Data} {digests : Digests}

/-! ## Code up to the log -/

/-- Given enough fuel, code leads from one place and machine to another, whatever was logged. -/
def Brings (digests : Digests) (id : FrameId) (c : Cursor) (m : Machine) (c' : Cursor)
    (n : Machine) : Prop :=
  ∃ needed, ∀ fuel, needed ≤ fuel → ∀ k : Machine, k.SameButLog m →
    ∃ k' : Machine, (withFuel fuel digests).Leads id c k c' k' ∧ k'.SameButLog n

theorem Brings.trans (h : Brings digests id c m c₁ n) (h' : Brings digests id c₁ n c₂ k) :
    Brings digests id c m c₂ k := by
  obtain ⟨needed, h⟩ := h
  obtain ⟨needed', h'⟩ := h'
  refine ⟨max needed needed', fun fuel hfuel l hl => ?_⟩
  obtain ⟨l₁, hleads, hl₁⟩ := h fuel (by omega) l hl
  obtain ⟨l₂, hleads', hl₂⟩ := h' fuel (by omega) l₁ hl₁
  exact ⟨l₂, hleads.trans hleads', hl₂⟩

theorem Brings.refl : Brings digests id c m c m := ⟨0, fun _ _ l hl => ⟨l, .refl, hl⟩⟩

/-- What an instruction does. -/
theorem brings_of_step {op : Op} (hc : c.Stands [op.at span])
    (hstep : ∃ needed, ∀ fuel, needed ≤ fuel → ∀ after,
      (withFuel fuel digests).step id after op m = .ok (.next after) n) :
    Brings digests id c m (c.skip 1) n := by
  obtain ⟨needed, hstep⟩ := hstep
  refine ⟨needed, fun fuel hfuel l hl => ?_⟩
  have hquiet := (isQuiet_withFuel digests fuel).step id (c.skip 1) op (l.traced c.index (op.at span)) m
    ((l.sameButLog_traced _ _).trans hl)
  rw [hstep fuel hfuel (c.skip 1)] at hquiet
  generalize hr : (withFuel fuel digests).step id (c.skip 1) op _ = r at hquiet
  cases hquiet with
  | ok _ hsame => exact ⟨_, leads_of_step hc.here.next? hr, hsame⟩

/-- More fuel does not change an end. -/
theorem Ends.mono {r : Ending Flow} (h : (withFuel fuel digests).Ends id c m r) (hr : hasEnded r = true)
    (hfuel : fuel ≤ fuel') : (withFuel fuel' digests).Ends id c m r := by
  obtain ⟨used, hused⟩ := h
  refine ⟨used, fun steps => ?_⟩
  rw [dispatch_withFuel_mono hfuel (Nat.le_refl _) (by rw [hused, hr]), hused]

/-- What the code of an expression does as a block of its own. -/
theorem brings_of_ends {x : Expr} (hcode : x.code true = .ok code) (hc : c.Stands code)
    (hends : (withFuel fuel digests).Ends id (.ofList code) m
      (.ok (.next ((Cursor.ofList code).skip code.length)) n)) :
    Brings digests id c m (c.skip code.length) n := by
  refine ⟨fuel, fun fuel' hfuel l hl => ?_⟩
  obtain ⟨used, hused⟩ := hends.mono rfl hfuel
  have hsound : Sound ⟨0, .never, false⟩ 0 code 1 := Expr.sound x (by simp) hcode
  have hreaches := (hsound.keeps (isQuiet_withFuel digests fuel') id hc).reaches (0 + used) l m hl
  rw [hused] at hreaches
  obtain ⟨l', hleads, hsame⟩ := hreaches
  exact ⟨l', hleads.leads, hsame⟩

/-- An expression that comes to data, inside longer code. -/
theorem exists_brings {x : Expr} {a : Data} (hx : x.Yields digests P id a)
    (hcode : x.code true = .ok code) (hc : c.Stands code) (hm : m.Ready digests P id stack) :
    ∃ v n, n.Ready digests P id (v :: stack) ∧ m.heap.Asked digests n.heap ∧ n.heap.Says v a ∧
      Brings digests id c m (c.skip code.length) n := by
  have hfits := Nat.le_trans (Nat.le_trans (Nat.le_add_left _ _) hc.inside) hc.fits
  obtain ⟨fuel, v, n, last, hends, hn, ha, hoperands, hmeans⟩ := hx hcode hfits hm
  have ⟨used, hused⟩ := hends
  exact ⟨v, n, ⟨hn, hm.tidy.dispatch (hused 0), last, hoperands⟩, ha, hmeans,
    brings_of_ends hcode hc hends⟩

/-- Expressions that come to data, the last one first. -/
theorem exists_brings_reversed {values : List Expr}
    (hvalues : ∀ x ∈ values, x.Yields digests P id (content x)) (hcode : reversedCode values = .ok code)
    (hc : c.Stands code) (hm : m.Ready digests P id stack) :
    ∃ vs n, n.Ready digests P id (vs ++ stack) ∧ m.heap.Asked digests n.heap ∧
      List.Forall₂ n.heap.Says vs (values.map content) ∧
        Brings digests id c m (c.skip code.length) n := by
  induction values generalizing code with
  | nil =>
    cases hcode
    exact ⟨[], m, hm, .refl _, .nil, .refl⟩
  | cons x rest ih =>
    simp only [reversedCode] at hcode
    obtain ⟨later, hlater, hcode⟩ := bind_eq_ok hcode
    obtain ⟨first, hfirst, hcode⟩ := bind_eq_ok hcode
    cases hcode
    rw [List.forall_mem_cons] at hvalues
    obtain ⟨hc, hc'⟩ := hc.append
    obtain ⟨vs, n, hn, ha, hmeans, hbrings⟩ := ih hvalues.2 hlater hc
    obtain ⟨v, n', hn', ha', hmeans', hbrings'⟩ := exists_brings hvalues.1 hfirst hc' hn
    refine ⟨v :: vs, n', hn', ha.trans ha', ?_, ?_⟩
    · exact .cons hmeans' (hmeans.imp fun _ _ => ha'.sameContent)
    · rw [List.length_append, ← Cursor.skip_skip]
      exact hbrings.trans hbrings'

section instructions

variable (hP : Machine.Indifferent digests id P)
include hP

/-- The last object, as an operand. -/
theorem exists_brings_push {v : Value} (hc : c.Stands [Op.push.at span])
    (hm : m.Ready digests P id stack)
    (hoperands : m.HasOperands id stack (some v)) :
    ∃ n, n.Ready digests P id (v :: stack) ∧ n.heap = m.heap ∧ Brings digests id c m (c.skip 1) n := by
  obtain ⟨n, hstep, hheap, honward⟩ := exists_step_push hoperands
  exact ⟨n, honward.ready hP hm (hm.tidy.step (hstep (withFuel 0 digests) c)), hheap,
    brings_of_step hc ⟨0, fun _ _ => hstep _⟩⟩

/-- An instruction that does nothing but ask, and what it comes to as an operand. -/
theorem exists_brings_of_step {op : Op} {v : Value} {stack' : List Value}
    (hc : c.Stands ([op.at span] ++ [Op.push.at span])) (hm : m.Ready digests P id stack)
    (hn : m.Onward digests id stack' (some v) n)
    (hstep : ∃ needed, ∀ fuel, needed ≤ fuel → ∀ after,
      (withFuel fuel digests).step id after op m = .ok (.next after) n) :
    ∃ k, k.Ready digests P id (v :: stack') ∧ k.heap = n.heap ∧ Brings digests id c m (c.skip 2) k := by
  obtain ⟨hc, hc'⟩ := hc.append
  have ⟨needed, hfirst⟩ := hstep
  obtain ⟨k, hk, hheap, hpushed⟩ := exists_brings_push hP hc'
    (hn.ready hP hm (hm.tidy.step (hfirst needed (Nat.le_refl _) c))) hn.operands
  exact ⟨k, hk, hheap, (brings_of_step hc hstep).trans hpushed⟩

end instructions

end Engine

/-! ## Literals, variables and containers -/

/-- What a literal says, if it is one. -/
def Expr.constant? : Expr → Option Data
  | .none _ => some Data.none
  | .bool _ b => some (.bool b)
  | .integer _ text => (integerLiteral? text).map .integer
  | .string _ text => some (.string text)
  | .bytes _ content => some (.bytes content)
  | _ => Option.none

namespace Expr

open Engine

variable {P : Machine → Prop} {id : FrameId} {x : Expr} {a : Data} {span : Span} {values : List Expr}
  {content : Expr → Data} {digests : Digests} (hP : Machine.Indifferent digests id P)
include hP

theorem yields_of_brings
    (h : ∀ ⦃code⦄, x.code true = .ok code → (Cursor.ofList code).Stands code →
      ∀ ⦃m : Machine⦄ ⦃stack⦄, m.Ready digests P id stack → ∃ (v : Value) (n : Machine),
        n.Ready digests P id (v :: stack) ∧ m.heap.Asked digests n.heap ∧ n.heap.Says v a ∧
        Brings digests id (.ofList code) m ((Cursor.ofList code).skip code.length) n) :
    x.Yields digests P id a := by
  intro code hcode hfits m stack hm
  obtain ⟨v, n, hn, ha, hmeans, needed, hbrings⟩ := h hcode (Cursor.stands_ofList hfits) hm
  obtain ⟨n', hleads, hlog⟩ := hbrings needed (Nat.le_refl _) m (.refl m)
  have hn' := hn.log hP hlog
  obtain ⟨last, hoperands⟩ := hn'.operands
  rw [← hlog.heap] at ha hmeans
  exact ⟨needed, v, n', last, hleads.ends (ends_of_end (Cursor.next?_skip_length code)), hn'.holds, ha,
    hoperands, hmeans⟩

/-- Code that makes a new object and pushes it. -/
theorem yields_of_produce {op : Op} {kind : Kind}
    (hcode : x.code true = .ok ([op.at span] ++ [Op.push.at span]))
    (hop : ∀ (e : Engine) after, e.step id after op = do
      produce id kind
      return .next after)
    (hmeans : kind.Says (fun _ _ => False) (fun _ _ => False) a) : x.Yields digests P id a := by
  refine yields_of_brings hP fun code hcode' hc m stack hm => ?_
  cases hcode.symm.trans hcode'
  obtain ⟨last, hoperands⟩ := hm.operands
  obtain ⟨n, hproduce, hheap, honward⟩ := exists_produce hoperands kind
  have hstep : ∀ (e : Engine) after, e.step id after op m = .ok (.next after) n := fun e after => by
    simp only [hop, bind, EStateM.bind, hproduce]
    rfl
  obtain ⟨k, hk, hheap', hbrings⟩ :=
    exists_brings_of_step hP hc hm honward ⟨0, fun _ _ => hstep _⟩
  refine ⟨_, k, hk, ?_, ?_, hbrings⟩
  · rw [hheap']
    exact honward.onlyAsked.asked
  · rw [hheap', hheap]
    exact hm.tidy.closed.says_alloc (l := 0)
      (hmeans.imp (fun _ _ _ => False.elim) fun _ _ => False.elim)

/-- Literals. -/
theorem yields_constant (hx : x.constant? = some a) : x.Yields digests P id a := by
  cases x with
  | none =>
    cases hx
    exact yields_of_produce hP rfl (fun _ _ => rfl) .none
  | bool _ b =>
    cases hx
    cases b with
    | true => exact yields_of_produce hP rfl (fun _ _ => rfl) (.bool true)
    | false => exact yields_of_produce hP rfl (fun _ _ => rfl) (.bool false)
  | integer _ text =>
    simp only [constant?, Option.map_eq_some_iff] at hx
    obtain ⟨n, hn, rfl⟩ := hx
    exact yields_of_produce hP (by simp only [code, hn]; rfl) (fun _ _ => rfl) (.integer n)
  | string _ text =>
    cases hx
    exact yields_of_produce hP rfl (fun _ _ => rfl) (.string text)
  | bytes _ content =>
    cases hx
    exact yields_of_produce hP rfl (fun _ _ => rfl) (.bytes content)
  | _ => cases hx

/-- Code that makes an object of the last operands and pushes it. -/
theorem yields_of_gather (span : Span) (op : Nat → Op) {make : List Value → Kind}
    {say : List Data → Data}
    (hcode : x.code true = (do
      let items ← reversedCode values
      return items ++ [(op values.length).at span] ++ [Op.push.at span]))
    (hop : ∀ (e : Engine) after count, e.step id after (op count) = do
      produce id (make (← popMany id count))
      return .next after)
    (hmeans : ∀ {h : Heap} {l vs xs}, List.Forall₂ (h.Holds l) vs xs →
      (make vs).Says (fun _ _ => False) (h.Holds l) (say xs))
    (hvalues : ∀ x ∈ values, x.Yields digests P id (content x)) :
    x.Yields digests P id (say (values.map content)) := by
  refine yields_of_brings hP fun code hcode' hc m stack hm => ?_
  obtain ⟨items, hitems, hcode'⟩ := bind_eq_ok (hcode.symm.trans hcode')
  cases hcode'
  rw [List.append_assoc] at hc
  obtain ⟨hitems', hc⟩ := hc.append
  obtain ⟨vs, m', hm', ha, hvs, hbrings⟩ := exists_brings_reversed hvalues hitems hitems' hm
  have hlength : vs.length = values.length := hvs.length_eq.trans (List.length_map _)
  obtain ⟨last, hoperands⟩ := hm'.operands
  have hgather : ∀ (e : Engine) after, e.step id after (op values.length) = do
      produce id (make (← popMany id vs.length))
      return .next after := fun e after => by rw [hlength, hop]
  obtain ⟨n, hstep, hheap, honward⟩ := exists_step_gather hgather hoperands
  obtain ⟨k, hk, hheap', hbrings'⟩ :=
    exists_brings_of_step hP hc hm' honward ⟨0, fun _ _ => hstep _⟩
  refine ⟨_, k, hk, ha.trans ?_, ?_, ?_⟩
  · rw [hheap']
    exact honward.onlyAsked.asked
  · obtain ⟨l, hall⟩ := Heap.exists_holdsAll (hvs.imp fun _ _ => honward.onlyAsked.asked.sameContent)
    rw [hheap] at hall
    rw [hheap', hheap]
    exact hm'.tidy.closed.says_alloc (hmeans hall)
  · have hwhole := hbrings.trans hbrings'
    rw [Cursor.skip_skip] at hwhole
    simpa using hwhole

theorem yields_tuple (hvalues : ∀ x ∈ values, x.Yields digests P id (content x)) :
    (tuple span values).Yields digests P id (.tuple (values.map content)) :=
  yields_of_gather hP span .newTuple (by simp only [code, pushIf, if_true]) (fun _ _ _ => rfl)
    (fun hall => .tuple hall) hvalues

theorem yields_array (hvalues : ∀ x ∈ values, x.Yields digests P id (content x)) :
    (array span values).Yields digests P id (.array (values.map content)) :=
  yields_of_gather hP span .newArray (by simp only [code, pushIf, if_true]) (fun _ _ _ => rfl)
    (fun hall => .array hall) hvalues

/-- A variable that keeps its value, as long as the property holds. -/
theorem yields_identifier {name : String}
    (h : ∀ ⦃m⦄, P m → ∃ v, Run.resolve id name m = .ok (some v) m ∧ m.heap.Says v a) :
    (identifier span name).Yields digests P id a := by
  refine yields_of_brings hP fun code hcode hc m stack hm => ?_
  cases hcode
  obtain ⟨v, hresolve, hmeans⟩ := h hm.holds
  obtain ⟨last, hoperands⟩ := hm.operands
  obtain ⟨n, hset, hheap, honward⟩ := exists_setLast hoperands v
  have hstep : ∀ (e : Engine) after, e.step id after (.getIdentifier name) m = .ok (.next after) n :=
    fun e after => by
      simp only [step, bind, EStateM.bind, hresolve, hset]
      rfl
  obtain ⟨k, hk, hheap', hbrings⟩ :=
    exists_brings_of_step hP hc hm honward ⟨0, fun _ _ => hstep _⟩
  have hsame : k.heap = m.heap := hheap'.trans hheap
  exact ⟨v, k, hk, hsame ▸ .refl _, hsame ▸ hmeans, hbrings⟩

end Expr
end ScriptVM
