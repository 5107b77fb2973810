import ScriptVM.Proofs.Likeness.Steady
import ScriptVM.Proofs.Session.Request

/-!
# Requests on machines that are alike

Machines that are alike and whose engines run code alike give the same answers to a host, as long as
the requests are about good values; the answers are about good values, too.
-/
namespace ScriptVM

/-- The values of a datum. -/
def Datum.values {α : Type} : Datum α → List α
  | .tuple items | .array items | .iterator items => items
  | _ => []

/-- The values of a request. -/
def Request.values {α : Type} : Request α → List α
  | .execute _ | .global _ | .reset | .collect => []
  | .make datum => datum.values
  | .define _ v | .construct v | .resume v | .hash v | .truthy v | .stringify v | .iterator v
  | .hasNext v | .next v | .drain v | .unpack v _ | .find v _ | .findOwn v _ => [v]
  | .call v args | .symbol v _ args => v :: args
  | .operation _ left right | .equals left right => [left, right]
  | .set on _ v => [on, v]
  | .store table key v => [table, key, v]

/-- The values of an answer. -/
def Answer.values : Answer → List Value
  | .value v => [v]
  | .optional v => v.toList
  | .items vs => vs
  | _ => []

theorem Service.serve_findOwn (s : Service) (on : Value) (name : String) (m : Machine) :
    s.serve (.findOwn on name) m = match m.heap.own? on name with
      | none => .ok (.optional none) m
      | some member => .ok (.optional (m.heap.bind on member).1)
          { m with heap := (m.heap.bind on member).2 } := by
  simp only [serve, bind, EStateM.bind, Run.read]
  cases m.heap.own? on name <;> rfl

namespace Likeness

variable {L : Likeness} {F : Frames L} {w : L.World} {s s' : Service} {r : Request Value}

/-! ## Ends of computations that agree -/

section ends

variable {α : Type} {x y : Run α} {post : L.World → α → Prop} {m n m' : Machine}

/-- Whatever end a computation comes to, the machines are alike in the end. -/
theorem Agree.endsIn (h : L.Agree w x y post) (hmn : L.Alike w m n) (hx : x.EndsIn m m') :
    ∃ n' w', y.EndsIn n n' ∧ L.le w w' ∧ L.Alike w' m' n' := by
  cases hx with
  | ok hx =>
    obtain ⟨n', w', hy, hw, -, halike⟩ := h.ok hmn hx
    exact ⟨n', w', .ok hy, hw, halike⟩
  | failed hx =>
    obtain ⟨n', w', hy, hw, -, halike⟩ := h.failed hmn hx
    exact ⟨n', w', .failed hy, hw, halike⟩

end ends

theorem Agree.modify {f g : Machine → Machine}
    (h : ∀ m n, L.Alike w m n → L.Alike w (f m) (g n)) :
    L.Agree w (modify f) (modify g) fun _ _ => True :=
  fun m n hmn => ⟨rfl, w, L.refl w, trivial, h m n hmn⟩

/-! ## Requests -/

theorem agree_findOwn {on : Value} (hon : L.good on) (name : String) :
    L.Agree w (s.serve (.findOwn on name)) (s'.serve (.findOwn on name))
      fun _ a => ∀ v ∈ a.values, L.good v := by
  intro m n hmn
  rw [Service.serve_findOwn, Service.serve_findOwn, hmn.heap]
  cases hown : m.heap.own? on name with
  | none => exact ⟨rfl, w, L.refl w, nofun, hmn⟩
  | some member =>
    obtain ⟨hgood, halike⟩ :=
      hmn.bindMember hon ((hmn.sound on hon).member name member (Heap.get?_of_own? hown))
    exact ⟨rfl, w, L.refl w, by simpa [Answer.values] using hgood, halike⟩

theorem soundKind_datum {datum : Datum Value} (h : ∀ v ∈ datum.values, L.good v) :
    L.SoundKind w datum.kind := by
  cases datum with
  | tuple items => exact h
  | array items => exact h
  | iterator items => exact ⟨h, nofun⟩
  | hash => exact ⟨L.table_empty, nofun⟩
  | _ => trivial

end Likeness

/-- The values of a request that stay with the host while it is served: the others are handed over. -/
def Request.borrowed {α : Type} : Request α → List α
  | .execute _ | .make _ | .global _ | .define _ _ | .reset | .collect => []
  | .call v _ | .symbol v _ _ | .construct v | .resume v | .hash v | .truthy v | .stringify v
  | .iterator v | .hasNext v | .next v | .drain v | .unpack v _ | .find v _ | .findOwn v _
  | .set v _ _ => [v]
  | .operation _ left right | .equals left right | .store left right _ => [left, right]

namespace Fading

variable {F : Fading} {R : F.Frames} {s : F.Stage} {w : (F.likeness s).World} {t t' : Service}
  {r : Request Value} {α β : Type} {x y : Run α} {post : F.Stage → α → Prop}

open Likeness

theorem Later.map {f : α → β} {after : F.Stage → β → Prop} (h : F.Later w x y post)
    (hf : ∀ s' a, post s' a → after s' (f a)) : F.Later w (f <$> x) (f <$> y) after := by
  rw [map_eq_pure_bind, map_eq_pure_bind]
  exact h.bind fun s' _ a _ ha => .pure (hf s' a ha)

/-- Of services whose engines follow one another, one gives the answers that the other one gives. What
the host lends is to be held on to. -/
theorem Knot.serve (K : Knot R t.engine t'.engine) (hr : ∀ v ∈ r.values, F.Good s v)
    (hborrowed : ∀ v ∈ r.borrowed, F.Lasts w v)
    (hexecute : ∀ code, r = .execute code → F.Later w (t.execute code) (t'.execute code) F.Good)
    (hglobal : ∀ name, r = .global name → F.Later w (Engine.global? name) (Engine.global? name)
      fun s' r => ∀ v ∈ r, F.Good s' v)
    (hdefine : ∀ name v, r = .define name v → F.Later w (modify fun m => m.defineGlobal name v)
      (modify fun m => m.defineGlobal name v) fun _ _ => True)
    (hreset : r = .reset → F.Later w (modify t.reset) (modify t'.reset) fun _ _ => True)
    (hcollect : r = .collect →
      F.Later w (modify t.collect) (modify t'.collect) fun _ _ => True) :
    F.Later w (t.serve r) (t'.serve r) fun s' a => ∀ v ∈ a.values, F.Good s' v := by
  have hvalue : ∀ {x y : Run Value}, F.Later w x y F.Good →
      F.Later w (Answer.value <$> x) (Answer.value <$> y) fun s' a => ∀ v ∈ a.values, F.Good s' v :=
    fun h => h.map fun _ _ hv => by simpa [Answer.values] using hv
  have hoptional : ∀ {x y : Run (Option Value)}, F.Later w x y (fun s' r => ∀ v ∈ r, F.Good s' v) →
      F.Later w (Answer.optional <$> x) (Answer.optional <$> y)
        fun s' a => ∀ v ∈ a.values, F.Good s' v :=
    fun h => h.map fun _ _ hv => by simpa [Answer.values] using hv
  have hvalues : ∀ {x y : Run (List Value)}, F.Later w x y (fun s' vs => ∀ v ∈ vs, F.Good s' v) →
      F.Later w (Answer.items <$> x) (Answer.items <$> y)
        fun s' a => ∀ v ∈ a.values, F.Good s' v :=
    fun h => h.map fun _ _ hv => hv
  have hplain : ∀ {α : Type} {x y : Run α} {p : F.Stage → α → Prop} {f : α → Answer},
      (∀ a, (f a).values = []) → F.Later w x y p →
      F.Later w (f <$> x) (f <$> y) fun s' a => ∀ v ∈ a.values, F.Good s' v :=
    fun hf h => h.map fun _ a _ => by simp [hf a]
  have hdone : ∀ {x y : Run Unit}, F.Later w x y (fun _ _ => True) →
      F.Later w (do x; return Answer.done) (do y; return Answer.done)
        fun s' a => ∀ v ∈ a.values, F.Good s' v :=
    fun h => h.bind fun _ _ _ _ _ => .pure nofun
  have hB := K.bodies
  have hE : F.Engines t.engine t'.engine := hB.toEngines
  have hC := K.toCalls
  have hone : ∀ {v : Value}, r.values = [v] → F.Good s v := fun h => hr _ (h ▸ .head _)
  have hlent : ∀ {v : Value}, r.borrowed = [v] → F.Lasts w v := fun h => hborrowed _ (h ▸ .head _)
  cases r with
  | execute code => exact hvalue (hexecute code rfl)
  | make datum => exact hvalue (agree_newObject (soundKind_datum hr)).later
  | global name => exact hoptional (hglobal name rfl)
  | define name v => exact hdone (hdefine name v rfl)
  | call callee args =>
    exact hvalue (K.call (hr callee (.head _)) fun v hv => hr v (.tail _ hv))
  | symbol on name args =>
    exact hvalue (hC.callNamed (hr on (.head _)) name fun v hv => hr v (.tail _ hv))
  | operation operator left right =>
    exact hvalue
      (hC.operation operator (hborrowed left (.head _)) (hborrowed right (.tail _ (.head _))))
  | construct cls => exact hvalue (hB.construct (hone rfl))
  | resume generator => exact hoptional (hE.resume (hlent rfl))
  | equals left right =>
    exact hplain (fun _ => rfl) (hC.equals (hr left (.head _)) (hr right (.tail _ (.head _))))
  | hash v => exact hplain (fun _ => rfl) (hC.hashOf (hone rfl))
  | truthy v => exact hplain (fun _ => rfl) (hC.truthy (hone rfl))
  | stringify v => exact hplain (fun _ => rfl) (hC.stringify (hone rfl))
  | iterator v => exact hvalue (hC.iteratorOf (hone rfl))
  | hasNext iterator => exact hplain (fun _ => rfl) (hE.hasNext (hlent rfl))
  | next iterator => exact hoptional (hE.next (hlent rfl))
  | drain iterator => exact hvalues (hE.drain (hone rfl))
  | unpack v count => exact hvalues (hC.unpackWith hE.next (hone rfl) count)
  | find on name => exact hoptional (agree_lookup (hone rfl) name).later
  | findOwn on name => exact (agree_findOwn (hone rfl) name).later
  | set on name v =>
    exact hdone (agree_setMember on name (k := .value v) (hr v (.tail _ (.head _)))).later
  | store table key v =>
    exact hdone (hC.store (hr table (.head _)) (hr key (.tail _ (.head _)))
      (hr v (.tail _ (.tail _ (.head _)))))
  | reset => exact hdone (hreset rfl)
  | collect => exact hdone (hcollect rfl)

end Fading

namespace Likeness

variable {L : Likeness} {F : Frames L} {w : L.World} {s s' : Service} {r : Request Value}

/-- What a host lends is among the values of its request. -/
theorem mem_values_of_mem_borrowed {v : Value} (h : v ∈ r.borrowed) : v ∈ r.values := by
  cases r <;> simp_all [Request.borrowed, Request.values]
  obtain h | h := h <;> simp [h]

/-- Services whose engines run code alike give the same answers. -/
theorem Knot.serve (K : Knot F s.engine s'.engine) (hr : ∀ v ∈ r.values, L.good v)
    (hexecute : ∀ code, r = .execute code →
      L.Agree w (s.execute code) (s'.execute code) fun _ v => L.good v)
    (hglobal : ∀ name, r = .global name → L.Agree w (Engine.global? name) (Engine.global? name)
      fun _ r => ∀ v ∈ r, L.good v)
    (hdefine : ∀ name v, r = .define name v → L.Agree w (modify fun m => m.defineGlobal name v)
      (modify fun m => m.defineGlobal name v) fun _ _ => True)
    (hreset : r = .reset → L.Agree w (modify s.reset) (modify s'.reset) fun _ _ => True)
    (hcollect : r = .collect →
      L.Agree w (modify s.collect) (modify s'.collect) fun _ _ => True) :
    L.Agree w (s.serve r) (s'.serve r) fun _ a => ∀ v ∈ a.values, L.good v :=
  later_steady.1 (K.steady.serve hr (fun v hv => lasts_steady (hr v (mem_values_of_mem_borrowed hv)))
    (fun code hcode => later_steady.2 (hexecute code hcode))
    (fun name hname => later_steady.2 (hglobal name hname))
    (fun name v h => later_steady.2 (hdefine name v h)) (fun h => later_steady.2 (hreset h))
    fun h => later_steady.2 (hcollect h))

end Likeness
end ScriptVM
