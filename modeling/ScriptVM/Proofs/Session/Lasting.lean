import ScriptVM.Proofs.Collection.Release
import ScriptVM.Proofs.Passage.Still
import ScriptVM.Proofs.Session.Request

/-!
# What lasts through requests

What the calls and runs of code keep true of the objects is kept by every request of a host, and so
by everything that a host can do with a machine from some point on.
-/
namespace ScriptVM

/-- A host can bring about a machine from another one, request after request, each with as much fuel
as it needs. -/
inductive Machine.LeadsTo (digests : Digests) (m : Machine) : Machine → Prop
  | refl : LeadsTo digests m m
  | served {k k' : Machine} {fuel : Nat} {r : Request Value} (h : LeadsTo digests m k)
    (hend : ((Service.withFuel fuel digests).serve r).EndsIn k k') : LeadsTo digests m k'

variable {digests : Digests}

/-- Whatever a host can bring about comes after a new machine. -/
theorem Machine.Reachable.leadsTo {config : Config} {m : Machine} (h : Reachable config digests m) :
    (Machine.new config).LeadsTo digests m := by
  induction h with
  | new => exact .refl
  | served _ hend ih => exact .served ih hend

theorem Machine.heap_reset (m : Machine) : m.reset.heap = m.heap := rfl

theorem Machine.heap_collectGarbage (m : Machine) : m.collectGarbage.heap = m.heap := by
  rw [collectGarbage_eq]

/-- Data is made of values only. -/
theorem Datum.lends (datum : Datum Value) (h : Heap) : h.Lends datum.kind := by
  cases datum with
  | hash => exact h.lends_empty
  | _ => exact h.lends_of_isPlain rfl

namespace Lasting

variable {S : Lasting} {α : Type} {x y : Run α} {m m' : Machine}

/-- What lasts is true of the machine in which a computation ends. -/
theorem inv_of_endsIn_when {known : Machine → Prop} {r : α → α}
    (h : S.passage.CarriesWhen known x y r) (hinv : S.inv m.heap) (hm : known m)
    (hx : x.EndsIn m m') : S.inv m'.heap := by
  have hxy := h.holds m m ⟨rfl, hinv⟩ hm trivial
  generalize y m = t at hxy
  cases hx with
  | ok hx =>
    rw [hx] at hxy
    cases hxy with
    | ok a hmn => exact hmn.2
  | failed hx =>
    rw [hx] at hxy
    cases hxy with
    | failed _ hmn => exact hmn.2

theorem inv_of_endsIn {r : α → α} (h : S.passage.Carries x y r) (hinv : S.inv m.heap)
    (hx : x.EndsIn m m') : S.inv m'.heap :=
  inv_of_endsIn_when h hinv trivial hx

/-- A change that does not touch the objects. -/
theorem carries_modify {change : Machine → Machine} (h : ∀ m, (change m).heap = m.heap) :
    S.passage.Carries (modify change) (modify change) id :=
  carries_of_sparesHeap (Run.sparesHeap_modify h) fun _ => rfl

theorem carries_execute {e : Engine} (K : S.passage.Knot e e) (code : Cursor) :
    S.passage.Carries (e.execute code) (e.execute code) id := by
  refine S.frames.execution K S.places ?_ ?_ code
  · rintro _ n ⟨rfl, -⟩
    rfl
  · rintro _ n ⟨rfl, hn⟩
    exact ⟨rfl, hn⟩

theorem carries_findOwn (s : Service) (on : Value) (name : String) :
    S.passage.Carries (s.serve (.findOwn on name)) (s.serve (.findOwn on name)) id := by
  refine (Passage.Carries.read (r := id) ?_).bind fun r => ?_
  · rintro _ n ⟨rfl, -⟩
    rfl
  · cases r with
    | none => exact .pure rfl
    | some member =>
      have hbind := Passage.carries_bindMember (P := S.passage) on member
      rw [show member.rename S.passage.value = member from Member.rename_id _] at hbind
      exact Passage.Carries.map (s := id) hbind (f := fun v => Answer.optional (some v))
        (g := fun v => Answer.optional (some v)) fun _ => rfl

theorem carries_global? (name : String) :
    S.passage.Carries (Engine.global? name) (Engine.global? name) (Option.map id) := by
  have hresolve : ∀ f, S.passage.Carries (Run.resolve f name) (Run.resolve f name) (Option.map id) :=
    fun f => carries_resolve f name
  refine ⟨fun m => (hresolve m.globals).grows m, ?_⟩
  rintro m n ⟨rfl, hn⟩ - -
  exact (hresolve n.globals).holds n n ⟨rfl, hn⟩ trivial trivial

/-- Every request keeps what lasts. -/
theorem Steps.serve (H : S.Steps digests) (fuel : Nat) (r : Request Value) :
    S.passage.Carries ((Service.withFuel fuel digests).serve r)
      ((Service.withFuel fuel digests).serve r) id := by
  have K := H.knot fuel
  have hargs : ∀ vs : List Value, vs.map S.passage.value = vs := List.map_id
  have hdone : ∀ {x : Run Unit}, S.passage.Carries x x id →
      S.passage.Carries (do x; return Answer.done) (do x; return Answer.done) id :=
    fun h => h.bind fun _ => .pure rfl
  cases r with
  | execute code => exact (carries_execute K code).map fun _ => rfl
  | make datum =>
    have h : S.passage.Carries (Run.newObject datum.kind)
        (Run.newObject (datum.kind.rename S.passage.value)) S.passage.value :=
      Passage.carries_newObject_when datum.kind fun m _ => datum.lends m.heap
    rw [show datum.kind.rename S.passage.value = datum.kind from Kind.rename_id _] at h
    exact h.map fun _ => rfl
  | global name => exact (carries_global? name).map fun r => congrArg _ Option.map_id_apply
  | define name v => exact hdone (carries_modify fun _ => rfl)
  | call callee args =>
    have h := K.call callee args
    rw [hargs] at h
    exact h.map fun _ => rfl
  | symbol on name args =>
    have h := K.callNamed on name args
    rw [hargs] at h
    exact h.map fun _ => rfl
  | operation operator left right => exact (K.operation operator left right).map fun _ => rfl
  | construct cls => exact (S.frames.construct K cls).map fun _ => rfl
  | resume generator => exact (K.resume generator).map fun r => congrArg _ Option.map_id_apply
  | equals left right => exact (K.equals left right).map fun _ => rfl
  | hash v => exact (K.hashOf v).map fun _ => rfl
  | truthy v => exact (K.truthy v).map fun _ => rfl
  | stringify v => exact (K.stringify v).map fun _ => rfl
  | iterator v => exact (K.iteratorOf v).map fun _ => rfl
  | hasNext iterator => exact (K.hasNext iterator).map fun _ => rfl
  | next iterator => exact (K.next iterator).map fun r => congrArg _ Option.map_id_apply
  | drain iterator => exact (K.drain iterator).map fun r => congrArg _ (hargs r)
  | unpack v count => exact (K.unpackWith K.next v count).map fun r => congrArg _ (hargs r)
  | find on name =>
    exact (Passage.carries_lookup on name).map fun r => congrArg _ Option.map_id_apply
  | findOwn on name => exact carries_findOwn _ on name
  | set on name v => exact hdone (Passage.carries_setMember on name (.value v) nofun)
  | store table key v => exact hdone (K.store table key v)
  | reset => exact hdone (carries_modify Machine.heap_reset)
  | collect => exact hdone (carries_modify Machine.heap_collectGarbage)

/-- What is true of the objects stays true, whatever a host does with the machine. -/
theorem Steps.inv_of_leadsTo (H : S.Steps digests) (h : m.LeadsTo digests m') (hinv : S.inv m.heap) :
    S.inv m'.heap := by
  induction h with
  | refl => exact hinv
  | served _ hend ih => exact inv_of_endsIn (H.serve _ _) ih hend

end Lasting
end ScriptVM
