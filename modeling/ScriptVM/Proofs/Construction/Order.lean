import ScriptVM.Proofs.Data.Keeping
import ScriptVM.Proofs.Growth
import ScriptVM.Proofs.Statement.Keeping

/-!
# The order in which class bodies run

The bodies of a class and its bases run in post-order: for each base in turn those of its own bases
and then its own, and the body of the class at the end. Nothing notes that a body has run before, so
a base that is reached along several paths is visited once on each of them. Built-in types have no
body. A class cannot be its own base, even indirectly: its bases were there before it was.
-/
namespace ScriptVM

/-! ## Bases -/

/-- The bases of every class are types, and older than the class. -/
def Heap.Grounded (h : Heap) : Prop :=
  ∀ v c, h.kind v = .type (.ofClass c) → ∀ base ∈ c.bases,
    base.address < v.address ∧ ∃ d, h.kind base = .type d

/-- Types stay what they are. -/
def Heap.KeepsTypes (h h' : Heap) : Prop := ∀ v d, h.kind v = .type d → h'.kind v = .type d

namespace Heap

variable {h h' h'' : Heap} {k : Kind} {v : Value} {c : ClassDef} {d : TypeDef}
  {bases : List Value} {order order' : List ClassDef}

theorem KeepsTypes.trans (hh : h.KeepsTypes h') (hh' : h'.KeepsTypes h'') : h.KeepsTypes h'' :=
  fun v d hv => hh' v d (hh v d hv)

theorem Extends.keepsTypes (hh : h.Extends h') : h.KeepsTypes h' := by
  intro v d hv
  have hbecomes := hh.becomes v (lt_size_of_kind hv nofun)
  rwa [hv] at hbecomes

theorem Grounded.alloc (hg : h.Grounded) (hk : h.Lends k) : (h.alloc k).2.Grounded := by
  have hkeeps : h.KeepsTypes (h.alloc k).2 := (extends_alloc h k).keepsTypes
  intro v c hv base hbase
  by_cases hlt : v.address < h.objects.size
  · rw [kind, get_alloc_of_lt k hlt] at hv
    obtain ⟨hbelow, d, hd⟩ := hg v c hv base hbase
    exact ⟨hbelow, d, hkeeps base d hd⟩
  · have hle : h.objects.size ≤ v.address := Nat.le_of_not_lt hlt
    rcases h.get_alloc_cases k v with hget | hget
    · rw [kind, hget, get_of_le hle] at hv
      cases hv
    · rw [kind, hget] at hv
      obtain ⟨d, hd⟩ := hk.bases c hv base hbase
      exact ⟨Nat.lt_of_lt_of_le (lt_size_of_kind hd nofun) hle, d, hkeeps base d hd⟩

/-- What an object may change into is a type only if it was one. -/
theorem kind_of_modify {f : Object → Object} (hf : (h.get v).Precedes (f (h.get v))) {u : Value} :
    (h.modify v f).kind u = .type d ↔ h.kind u = .type d := by
  unfold kind
  rcases h.get_modify v u f with ⟨hu, rfl⟩ | hu
  · rw [hu]
    constructor
    · intro hd
      rw [← hf.kind (by rw [← hf.tag, hd]; rfl), hd]
    · intro hd
      rw [hf.kind (by rw [hd]; rfl), hd]
  · rw [hu]

theorem Grounded.modify {f : Object → Object} (hg : h.Grounded)
    (hf : (h.get v).Precedes (f (h.get v))) : (h.modify v f).Grounded := by
  intro u c hu base hbase
  obtain ⟨hlt, d, hd⟩ := hg u c ((kind_of_modify hf).1 hu) base hbase
  exact ⟨hlt, d, (kind_of_modify hf).2 hd⟩

end Heap

/-- Bases are older than what has them. -/
def Lasting.grounded : Lasting :=
  ofChanges Heap.Grounded Object.Precedes (fun h => h.toPrecedes) (fun h _ hk => h.alloc hk)
    fun h _ _ hf => h.modify hf

theorem Lasting.grounded_steps (digests : Digests) : Lasting.grounded.Steps digests :=
  .of_becomes (fun _ _ h => h) (fun _ C => C.calls id) fun _ _ _ => trivial

theorem Machine.grounded_new (config : Config) : (Machine.new config).heap.Grounded := by
  refine new_induction (P := fun m => m.heap.Grounded) config (fun v c hv => ?_) fun m tag h =>
    h.alloc (m.heap.lends_of_isPlain rfl)
  exact absurd (Heap.lt_size_of_kind hv nofun) (Nat.not_lt_zero _)

/-! ## The order -/

/-- The classes whose bodies run for bases in turn, each as often and at the place where it does. -/
inductive Heap.Layers (h : Heap) : List Value → List ClassDef → Prop
  | nil : Layers h [] []
  | builtin {base : Value} {tag : TypeTag} {rest : List Value} {order : List ClassDef}
      (hkind : h.kind base = .type (.builtin tag)) (hrest : Layers h rest order) :
      Layers h (base :: rest) order
  | ofClass {base : Value} {c : ClassDef} {rest : List Value} {first order : List ClassDef}
      (hkind : h.kind base = .type (.ofClass c)) (hfirst : Layers h c.bases first)
      (hrest : Layers h rest order) : Layers h (base :: rest) (first ++ c :: order)

namespace Heap

variable {h h' : Heap} {cls : Value} {c : ClassDef} {bases : List Value}
  {order order' : List ClassDef}

/-- There is only one order. -/
theorem Layers.unique (hl : h.Layers bases order) (hl' : h.Layers bases order') :
    order' = order := by
  induction hl generalizing order' with
  | nil =>
    cases hl'
    rfl
  | builtin hkind _ ih =>
    cases hl' with
    | builtin _ hrest => exact ih hrest
    | ofClass hkind' => cases hkind.symm.trans hkind'
  | ofClass hkind _ _ ihfirst ihrest =>
    cases hl' with
    | builtin hkind' => cases hkind.symm.trans hkind'
    | ofClass hkind' hfirst hrest =>
      cases hkind.symm.trans hkind'
      rw [ihfirst hfirst, ihrest hrest]

/-- The body of a class runs after those of its bases, and nothing else does. -/
theorem Layers.of_class (hkind : h.kind cls = .type (.ofClass c)) (hl : h.Layers [cls] order) :
    ∃ first, h.Layers c.bases first ∧ order = first ++ [c] := by
  cases hl with
  | builtin hkind' => cases hkind.symm.trans hkind'
  | ofClass hkind' hfirst hrest =>
    cases hkind.symm.trans hkind'
    cases hrest
    exact ⟨_, hfirst, rfl⟩

/-- Bases have an order, because they are older than what has them. -/
theorem Grounded.exists_layers_lt (hg : h.Grounded) (limit : Nat) :
    ∀ bases : List Value, (∀ base ∈ bases, base.address < limit ∧ ∃ d, h.kind base = .type d) →
      ∃ order, h.Layers bases order := by
  induction limit with
  | zero =>
    rintro (_ | ⟨base, rest⟩) hbases
    · exact ⟨[], .nil⟩
    · exact absurd (hbases base (.head _)).1 (Nat.not_lt_zero _)
  | succ limit ih =>
    intro bases hbases
    induction bases with
    | nil => exact ⟨[], .nil⟩
    | cons base rest ihrest =>
      obtain ⟨order, hrest⟩ := ihrest fun other hother => hbases other (.tail _ hother)
      obtain ⟨hlt, d, hkind⟩ := hbases base (.head _)
      cases d with
      | builtin tag => exact ⟨order, .builtin hkind hrest⟩
      | ofClass c =>
        obtain ⟨first, hfirst⟩ := ih c.bases fun other hother => by
          obtain ⟨hbelow, hother⟩ := hg base c hkind other hother
          exact ⟨by omega, hother⟩
        exact ⟨first ++ c :: order, .ofClass hkind hfirst hrest⟩

theorem Grounded.exists_layers (hg : h.Grounded) (hkind : h.kind cls = .type (.ofClass c)) :
    ∃ order, h.Layers [cls] order := by
  refine hg.exists_layers_lt (cls.address + 1) [cls] fun base hbase => ?_
  obtain rfl := List.mem_singleton.1 hbase
  exact ⟨Nat.lt_succ_self _, _, hkind⟩

end Heap

/-! ## Construction -/

/-- What comes to the same after the same start. -/
theorem Run.bind_congr_of_ok {α β : Type} {m : Machine} {x x' : Run α} {f f' : α → Run β}
    (hx : x m = x' m) (hf : ∀ a m', x' m = .ok a m' → f a m' = f' a m') :
      (x >>= f) m = (x' >>= f') m := by
  cases hx' : x' m with
  | ok a m' => rw [Run.bind_of_ok hx', Run.bind_of_ok (hx.trans hx'), hf a m' hx']
  | error stop m' => rw [Run.bind_of_error hx', Run.bind_of_error (hx.trans hx')]

namespace Engine

open Run

variable {h : Heap} {m m' : Machine} {object cls : Value} {c : ClassDef} {bases : List Value}
  {order : List ClassDef} {fuel depth : Nat} {digests : Digests}

/-- Runs the bodies of classes on an object, one after the other. -/
def runBodies (e : Engine) (order : List ClassDef) (object : Value) : Run Unit :=
  order.forM fun c => e.runClassBody c object

theorem runBodies_cons (e : Engine) (c : ClassDef) (order : List ClassDef) (object : Value) :
    e.runBodies (c :: order) object = (do
      e.runClassBody c object
      e.runBodies order object) := rfl

theorem runBodies_append (e : Engine) (first order : List ClassDef) (object : Value) :
    e.runBodies (first ++ order) object = (do
      e.runBodies first object
      e.runBodies order object) :=
  List.forM_append

theorem extends_runClassBody (hrun : (withFuel fuel digests).runClassBody c object m = .ok () m') :
    m.heap.Extends m'.heap :=
  ((Likeness.growing_knot m.heap False fuel).bodies.classBody (w := ()) trivial
    trivial).extends hrun

theorem keepsTypes_runBodies (hrun : (withFuel fuel digests).runBodies order object m = .ok () m') :
    m.heap.KeepsTypes m'.heap :=
  ((Likeness.Agree.forM (w := ()) order fun _ _ _ _ =>
    (Likeness.growing_knot m.heap False fuel).bodies.classBody trivial trivial).extends
      hrun).keepsTypes

/-- Runs the bodies for a base. -/
def visit (e : Engine) (object : Value) (depth : Nat) (base : Value) : Run Unit := do
  match ← kindOf base with
  | .type (.ofClass _) => e.buildWithin object depth base
  | .type (.builtin _) => return ()
  | _ => failType base ["Type"]

/-- Runs the bodies for bases in turn. -/
def visitAll (e : Engine) (object : Value) (depth : Nat) (bases : List Value) : Run Unit :=
  bases.forM (e.visit object depth)

theorem visitAll_cons (e : Engine) (object : Value) (depth : Nat) (base : Value)
    (rest : List Value) :
    e.visitAll object depth (base :: rest) = (do
      e.visit object depth base
      e.visitAll object depth rest) := rfl

theorem buildWithin_succ {e : Engine} (hplain : e.tracks = false)
    (hkind : m.heap.kind cls = .type (.ofClass c)) :
    e.buildWithin object (depth + 1) cls m =
      (do e.visitAll object depth c.bases; e.runClassBody c object) m := by
  unfold buildWithin
  rw [kindOf_bind, hkind]
  dsimp only
  rw [keep_of_plain hplain]
  rfl

/-- The bodies for bases run in their order, where the bases are nested less deep than they may. -/
theorem visitAll_eq (hg : h.Grounded) (hl : h.Layers bases order)
    (hdepth : ∀ base ∈ bases, base.address < depth) (hm : h.KeepsTypes m.heap) :
    (withFuel fuel digests).visitAll object depth bases m =
      (withFuel fuel digests).runBodies order object m := by
  induction hl generalizing depth m with
  | nil => rfl
  | @builtin base tag rest order hkind _ ih =>
    have hvisit : (withFuel fuel digests).visit object depth base m = .ok () m := by
      rw [visit, kindOf_bind, hm base _ hkind]
      rfl
    rw [visitAll_cons, bind_of_ok hvisit]
    exact ih (fun other hother => hdepth other (.tail _ hother)) hm
  | @ofClass base c rest first order hkind hfirst _ ihfirst ihrest =>
    obtain ⟨depth, rfl⟩ : ∃ d, depth = d + 1 :=
      Nat.exists_eq_succ_of_ne_zero (Nat.ne_of_gt (Nat.zero_lt_of_lt (hdepth base (.head _))))
    have hbases : ∀ other ∈ c.bases, other.address < depth := fun other hother =>
      Nat.lt_of_lt_of_le (hg base c hkind other hother).1
        (Nat.le_of_lt_succ (hdepth base (.head _)))
    have hvisit : (withFuel fuel digests).visit object (depth + 1) base m =
        (withFuel fuel digests).runBodies (first ++ [c]) object m := by
      rw [visit, kindOf_bind, hm base _ hkind]
      dsimp only
      rw [buildWithin_succ (tracks_withFuel ..) (hm base _ hkind), runBodies_append]
      refine bind_congr_of_ok (ihfirst hbases hm) fun _ m' _ => ?_
      simp [runBodies]
    rw [visitAll_cons, List.append_cons, runBodies_append]
    refine bind_congr_of_ok hvisit fun _ m' hrun => ?_
    exact ihrest (fun other hother => hdepth other (.tail _ hother))
      (hm.trans (keepsTypes_runBodies hrun))

/-- An object is made by running the bodies of its class in their order on a new object. -/
theorem construct_eq (hg : m.heap.Grounded) (hkind : m.heap.kind cls = .type (.ofClass c))
    (hl : m.heap.Layers [cls] order) (hfuel : cls.address < fuel) :
    (withFuel fuel digests).construct cls m = (do
      let object ← newObject (.object cls)
      (withFuel fuel digests).runBodies order object
      return object) m := by
  refine bind_congr_of_ok rfl fun object m' hnew => ?_
  have hkeeps : m.heap.KeepsTypes m'.heap := by
    cases hnew
    exact (m.heap.extends_alloc _).keepsTypes
  refine bind_congr_of_ok ?_ fun _ _ _ => rfl
  have hvisit : (withFuel fuel digests).visit object fuel cls m' =
      (withFuel fuel digests).buildWithin object fuel cls m' := by
    rw [visit, kindOf_bind, hkeeps cls _ hkind]
  rw [keep_withFuel, fuel_withFuel, ← visitAll_eq hg hl (by simpa using hfuel) hkeeps, ← hvisit]
  exact congrFun (bind_pure_unit (x := (withFuel fuel digests).visit object fuel cls)).symm m'

end Engine
end ScriptVM
