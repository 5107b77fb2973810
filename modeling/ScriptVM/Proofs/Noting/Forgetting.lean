import ScriptVM.Proofs.Noting.Machine

/-!
# The machine without notes

A machine that forgets all notes around every call and every step never has one when a name is looked
up: a note is taken of behaviour that is found, and what is found is called, or the step is over. So
this machine looks names up as though it never took a note, and it does what the ordinary machine
does.
-/
namespace ScriptVM

/-- Forgets all notes. -/
def Machine.forgetNotes (m : Machine) : Machine := { m with heap := m.heap.forgetNotes }

theorem Machine.SameButNotes.forgetNotes {m n : Machine} (h : m.SameButNotes n) :
    m.SameButNotes n.forgetNotes := by
  obtain ⟨heap, hheap, rfl⟩ := h
  exact ⟨_, hheap.trans (Heap.sameButNotes_forgetNotes hheap.symm.notesHold), rfl⟩

theorem Machine.forgetNotes_of_unnoted {m : Machine} (h : m.heap.Unnoted) : m.forgetNotes = m := by
  rw [forgetNotes, h.forgetNotes_eq]

theorem Machine.unnoted_forgetNotes (m : Machine) : m.forgetNotes.heap.Unnoted :=
  m.heap.unnoted_forgetNotes

namespace Run

variable {α β : Type} {x y : Run α} {m : Machine}

/-- What a computation ends with, without notes. -/
def forgotten : Ending α → Ending α
  | .ok a m => .ok a m.forgetNotes
  | .error stop m => .error stop m.forgetNotes

/-- A computation before which all notes are forgotten, and after which they are, too. -/
def forgetting (x : Run α) : Run α := fun m => forgotten (x m.forgetNotes)

/-- The value that a name has on a value, of which no note is taken. -/
def peek (v : Value) (name : String) : Run (Option Value) := modifyGet fun m =>
  let (found, heap) := m.heap.peek v name
  (found, { m with heap := heap })

theorem forgetting_apply_forgetNotes (x : Run α) (m : Machine) :
    forgetting x m.forgetNotes = forgetting x m := by
  unfold forgetting
  rw [Machine.forgetNotes_of_unnoted m.unnoted_forgetNotes]

/-- There are no notes after everything was forgotten. -/
theorem unnoted_after_forgetting (x : Run α) (m : Machine) :
    ((forgetting x).after m).heap.Unnoted := by
  unfold after forgetting
  cases x m.forgetNotes <;> exact Machine.unnoted_forgetNotes _

theorem forgetting_of_unnoted (x : Run α) (hm : m.heap.Unnoted) :
    forgetting x m = forgotten (x m) := by
  rw [forgetting, Machine.forgetNotes_of_unnoted hm]

theorem forgotten_of_unnoted (hx : (x.after m).heap.Unnoted) : forgotten (x m) = x m := by
  unfold after at hx
  generalize x m = s at hx
  cases s <;> simp only [forgotten, Machine.forgetNotes_of_unnoted hx]

/-- No notes are taken. -/
def StaysUnnoted (x : Run α) : Prop := ∀ m : Machine, m.heap.Unnoted → (x.after m).heap.Unnoted

theorem StaysUnnoted.bind {f : α → Run β} (hx : x.StaysUnnoted) (hf : ∀ a, (f a).StaysUnnoted) :
    (x >>= f).StaysUnnoted := by
  intro m hm
  have hafter := hx m hm
  rw [Passage.after_bind]
  unfold after at hafter
  cases hx : x m with
  | ok a m' =>
    rw [hx] at hafter
    exact hf a m' hafter
  | error stop m' =>
    rw [hx] at hafter
    exact hafter

theorem staysUnnoted_of_sparesHeap (hx : x.SparesHeap) : x.StaysUnnoted := by
  intro m hm
  rcases hx m with ⟨a, m', hx, hheap⟩ | ⟨c, m', hx, hheap⟩ <;>
  · unfold after
    rw [hx]
    change m'.heap.Unnoted
    rwa [hheap]

theorem staysUnnoted_pure (a : α) : StaysUnnoted (pure a) := fun _ hm => hm

theorem staysUnnoted_read (f : Machine → α) : StaysUnnoted (read f) := fun _ hm => hm

theorem staysUnnoted_peek (v : Value) (name : String) : StaysUnnoted (peek v name) := by
  intro m hm
  change (m.heap.peek v name).2.Unnoted
  unfold Heap.peek
  split
  · exact hm.bind v _
  · exact hm

/-! ## Looking names up without taking a note -/

/-- A note that is forgotten before anything else happens might as well not be taken. -/
theorem lookup_bind {f : Option Value → Run β} (hm : m.heap.Unnoted) (v : Value) (name : String)
    (hf : ∀ found k, f (some found) k.forgetNotes = f (some found) k) :
    (lookup v name >>= f) m = (peek v name >>= f) m := by
  simp only [bind, EStateM.bind, lookup, peek, modifyGet_apply, hm.peek_eq v name]
  cases hfound : (m.heap.lookup v name).1 with
  | none => rw [Heap.lookup_snd_of_none hfound, hm.forgetNotes_eq]
  | some found => exact (hf found _).symm

/-- A name that stands for no behaviour of a value is looked up without taking a note. -/
theorem lookup_eq_peek {v : Value} {name : String} (hm : m.heap.Unnoted)
    (hname : (m.heap.tag v).symbol? name = none) : lookup v name m = peek v name m := by
  have hkept : (m.heap.lookup v name).2.forgetNotes = (m.heap.lookup v name).2 := by
    have hfind : (m.heap.find v name).2 = m.heap := by
      unfold Heap.find
      split
      · rfl
      · rw [hname]
    unfold Heap.lookup
    generalize m.heap.find v name = found at hfind
    obtain ⟨r, h⟩ := found
    cases hfind
    cases r with
    | none => exact hm.forgetNotes_eq
    | some member => exact (hm.bind v member).forgetNotes_eq
  unfold lookup peek
  simp only [modifyGet_apply, hm.peek_eq v name, hkept]

/-- What is done without looking at the objects is done before the notes are forgotten. -/
theorem forgetting_bind {f g : α → Run β} (hm : m.heap.Unnoted) (hx : x.IgnoresHeap)
    (hfg : ∀ a k, k.heap.Unnoted → forgetting (f a) k = g a k) :
    forgetting (x >>= f) m = (x >>= g) m := by
  rw [forgetting_of_unnoted _ hm]
  simp only [bind, EStateM.bind]
  rcases hx m with ⟨a, m', h⟩ | ⟨c, m', h⟩
  · have hm' : Heap.Unnoted { m' with heap := m.heap }.heap := hm
    rw [show x m = _ from h m.heap]
    exact (forgetting_of_unnoted (f a) hm').symm.trans (hfg a _ hm')
  · rw [show x m = _ from h m.heap]
    exact congrArg (EStateM.Result.error _) (Machine.forgetNotes_of_unnoted hm)

/-- A note that is forgotten after something that does not look at the objects might as well not be
taken. -/
theorem forgetting_lookup_bind {f : Option Value → Run β} (hm : m.heap.Unnoted) (v : Value)
    (name : String) (hsome : ∀ found, (f (some found)).IgnoresHeap)
    (hnone : (f none).StaysUnnoted) :
    forgetting (lookup v name >>= f) m = (peek v name >>= f) m := by
  rw [forgetting_of_unnoted _ hm]
  simp only [bind, EStateM.bind, lookup, peek, modifyGet_apply, hm.peek_eq v name]
  cases hfound : (m.heap.lookup v name).1 with
  | none =>
    rw [Heap.lookup_snd_of_none hfound, hm.forgetNotes_eq]
    exact forgotten_of_unnoted (hnone m hm)
  | some found =>
    rcases hsome found m with ⟨a, m', h⟩ | ⟨c, m', h⟩
    · rw [h, h]
      rfl
    · rw [h, h]
      rfl

end Run

/-! ## The machine -/

namespace Forgetful

open Run

/-- Runs code in a frame until it ends or is left. Notes are forgotten around every step. -/
def run (e : Engine) (id : FrameId) (c : Cursor) : Run (Value × Cursor) := do
  (← dispatchBy (fun i id c => located i.span (forgetting (e.step id c i.op))) e.fuel id c).finish

/-- The machine with some fuel that forgets all notes. -/
def engine (digests : Digests) : Nat → Engine
  | 0 => ⟨0, fun _ _ => forgetting giveUp, fun _ _ => giveUp, digests, false⟩
  | fuel + 1 =>
    ⟨fuel + 1, fun callee args => forgetting ((engine digests fuel).callValue callee args),
      fun id c => activation id (run (engine digests fuel) id c), digests, false⟩

/-- Executes code in the global frame from where the cursor stands. -/
def execute (fuel : Nat) (digests : Digests) (code : Cursor) : Run Value :=
  forgetting (outermost fun id => run (engine digests fuel) id code)

variable {digests : Digests} {fuel : Nat}

@[simp] theorem fuel_engine (digests : Digests) (fuel : Nat) : (engine digests fuel).fuel = fuel := by
  cases fuel <;> rfl

theorem tracks_engine (digests : Digests) (fuel : Nat) : (engine digests fuel).tracks = false := by
  cases fuel <;> rfl

@[simp] theorem digests_engine (digests : Digests) (fuel : Nat) :
    (engine digests fuel).digests = digests := by
  cases fuel <;> rfl

/-! ## It does what the ordinary machine does -/

open Passage

variable {α : Type} {x y : Run α} {r : α → α} {e e' : Engine}

theorem carries_forgetting (h : noting.Carries x y r) : noting.Carries x (forgetting y) r := by
  refine ⟨h.grows, fun m n hmn _ _ => ?_⟩
  have hxy := h.holds m n.forgetNotes hmn.forgetNotes trivial trivial
  unfold forgetting
  generalize x m = s at hxy
  generalize y n.forgetNotes = t at hxy
  cases hxy with
  | ok a hmn' => exact .ok a hmn'.forgetNotes
  | failed hfg hmn' => exact .failed hfg hmn'.forgetNotes
  | gaveUp _ _ hstop => exact .gaveUp _ _ hstop
  | unsaid _ _ honeWay => exact honeWay.elim

theorem carries_run (K : noting.Knot e e') (f : FrameId) (c : Cursor) :
    noting.Carries (e.run f c) (run e' f c) id := by
  unfold Engine.run run
  rw [K.fuel_eq, Engine.dispatch_eq]
  refine (noting_frames.dispatchBy (fun i f c => ?_) e.fuel f c).bind carries_finish
  exact .located places_noting i.span (carries_forgetting (noting_frames.step K f c i.op))

theorem knot (digests : Digests) (fuel : Nat) :
    noting.Knot (.withFuel fuel digests) (engine digests fuel) := by
  induction fuel with
  | zero => exact noting_knot ⟨rfl, rfl⟩ rfl rfl (fun _ _ => carries_forgetting .giveUp) fun _ _ =>
    .giveUp
  | succ fuel ih =>
    refine noting_knot ⟨rfl, rfl⟩ rfl rfl (fun callee args => ?_) fun f c => ?_
    · exact carries_forgetting (noting_callValue ih callee args)
    · exact noting_activation f (carries_run ih f c)

theorem carries_execute (fuel : Nat) (digests : Digests) (code : Cursor) :
    noting.Carries ((Engine.withFuel fuel digests).execute code) (execute fuel digests code) id := by
  refine carries_forgetting (carries_outermost (fun f => carries_run (knot digests fuel) f code) ?_ ?_)
  · rintro m _ ⟨h, -, rfl⟩
    rfl
  · rintro m _ ⟨h, hh, rfl⟩
    exact ⟨h, hh, rfl⟩

/-! ## It takes no notes -/

theorem call_forgetNotes (callee : Value) (args : List Value) (m : Machine) :
    (engine digests fuel).call callee args m.forgetNotes =
      (engine digests fuel).call callee args m := by
  cases fuel with
  | zero => exact forgetting_apply_forgetNotes (giveUp : Run Value) m
  | succ fuel => exact forgetting_apply_forgetNotes _ m

theorem unnoted_after_call (callee : Value) (args : List Value) (m : Machine) :
    (((engine digests fuel).call callee args).after m).heap.Unnoted := by
  cases fuel with
  | zero => exact unnoted_after_forgetting (giveUp : Run Value) m
  | succ fuel => exact unnoted_after_forgetting _ m

end Forgetful

/-- Whether a machine without notes looks names up as though it took none, and has none after calls.
Names are looked up by calls of what a name means, by operators, for hashes, by calls of values that
are neither functions nor types, and by the instruction that selects a name. -/
structure Engine.NeverNotes (e : Engine) : Prop where
  call : ∀ callee args m, ((e.call callee args).after m).heap.Unnoted
  callNamed : ∀ v name args m, m.heap.Unnoted → e.callNamed v name args m = (do
    match ← Run.peek v name with
    | some method => e.call method args
    | none => Run.fail (.missingSymbol (← Run.typeName v) name)) m
  operation : ∀ operator left right m, m.heap.Unnoted → e.operation operator left right m = (do
    match ← Run.peek left operator.forward.name with
    | none => e.reflectedOperation operator left right
    | some method =>
      match ← Run.attempt (e.call method [right]) with
      | some result => return result
      | none => e.reflectedOperation operator left right) m
  hashOf : ∀ v m, m.heap.Unnoted → e.hashOf v m = (do
    match ← Run.peek v Symbol.hash.name with
    | some method => expectInteger (← e.call method [])
    | none => Run.fail (.unhashable (← Run.typeName v))) m
  callOther : ∀ callee args m, m.heap.Unnoted → e.callOther callee args m = (do
    match ← Run.peek callee Symbol.call.name with
    | none => Run.fail (.notCallable (← Run.typeName callee))
    | some method =>
      match ← Run.kindOf method with
      | .function _ => e.call method args
      | _ => Run.failType method ["Function"]) m
  selectName : ∀ id c name m, m.heap.Unnoted → Run.forgetting (e.step id c (.selectName name)) m = (do
    let source ← Run.pop id
    match ← Run.peek source name with
    | some v => Run.setLast id v
    | none => Run.fail (.missingSymbol (← Run.typeName source) name)
    return Flow.next c) m

namespace Forgetful

open Run

variable {digests : Digests} {fuel : Nat}

theorem neverNotes (digests : Digests) (fuel : Nat) : (engine digests fuel).NeverNotes where
  call := unnoted_after_call
  callNamed v name args m hm := by
    simp only [Engine.callNamed, Engine.keep_of_plain (tracks_engine digests fuel)]
    exact lookup_bind hm v name fun method k => call_forgetNotes method args k
  operation operator left right m hm := lookup_bind hm left _ fun method k => by
    simp only [bind, EStateM.bind, attempt, call_forgetNotes]
  hashOf v m hm := by
    simp only [Engine.hashOf, Engine.keep_of_plain (tracks_engine digests fuel)]
    exact lookup_bind hm v _ fun method k => by simp only [bind, EStateM.bind, call_forgetNotes]
  callOther callee args m hm := by
    have hcall : (m.heap.tag callee).symbol? Symbol.call.name = none := by
      cases m.heap.tag callee <;> rfl
    have hbind : ∀ f : Option Value → Run Value,
        (lookup callee Symbol.call.name >>= f) m = (peek callee Symbol.call.name >>= f) m := by
      intro f
      simp only [bind, EStateM.bind, lookup_eq_peek hm hcall]
    exact hbind _
  selectName id c name m hm := by
    refine forgetting_bind hm (ignoresHeap_pop id) fun source k hk => ?_
    refine forgetting_lookup_bind hk source name (fun found => ?_) ?_
    · exact (ignoresHeap_modifyFrame id _).bind fun _ => ignoresHeap_pure _
    · exact fun m hm => hm

end Forgetful
end ScriptVM
