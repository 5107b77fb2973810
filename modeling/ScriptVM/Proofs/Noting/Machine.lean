import ScriptVM.Proofs.Composition.Frames
import ScriptVM.Proofs.Growth
import ScriptVM.Proofs.Noting.Heap

/-!
# Machines that are the same but for notes

What runs on two machines that are the same but for notes of behaviour ends in the same way on both,
and leaves them the same but for notes.
-/
namespace ScriptVM

/-- Two machines are the same but for notes, all of which hold. -/
def Machine.SameButNotes (m n : Machine) : Prop :=
  ∃ h, m.heap.SameButNotes h ∧ n = { m with heap := h }

theorem Machine.SameButNotes.refl {m : Machine} (hnotes : m.heap.NotesHold) : m.SameButNotes m :=
  ⟨m.heap, .refl hnotes, rfl⟩

theorem Machine.SameButNotes.heap {m n : Machine} (h : m.SameButNotes n) :
    m.heap.SameButNotes n.heap := by
  obtain ⟨_, hheap, rfl⟩ := h
  exact hheap

/-- The passage between machines that are the same but for notes. -/
def Passage.noting : Passage where
  value := id
  injective h := h
  rel := Machine.SameButNotes
  becomes _ _ _ := True
  becomes_refl _ _ := trivial
  becomes_framed _ _ _ := trivial
  becomes_exhausted _ _ := trivial
  becomes_delivered _ _ := trivial
  allows := Object.Precedes
  allows_mild h := h.toPrecedes
  room _ := True
  room_of_le _ _ := trivial
  excuses := Cutoff.Stops
  excuses_gaveUp := Cutoff.stops
  excuses_placedAt := Cutoff.Stops.placedAt
  oneWay _ := False
  fails f g := g = f
  fails_of c := congrArg Failure.of c.rename_id
  kind_eq h v := (h.heap.kind v).trans (Kind.rename_id _).symm
  hash_eq h v := h.heap.hash? v
  has_eq h v name := h.heap.has v name
  types_eq := by
    rintro m _ ⟨h, -, rfl⟩ name
    simp
  text_eq h quoted v := by
    have hsize := h.heap.size
    rw [Heap.textWithin_rename fun v => (h.heap.kind v).trans (Kind.rename_id _).symm,
      Heap.nestingBound, Heap.nestingBound, hsize]
    rfl
  rel_alloc := by
    rintro m _ ⟨h, hh, rfl⟩ - k -
    rw [Kind.rename_id]
    obtain ⟨hvalue, hheap⟩ := hh.alloc k
    exact ⟨hvalue, _, hheap, rfl⟩
  rel_find := by
    rintro m _ ⟨h, hh, rfl⟩ v name
    obtain ⟨hfound, hheap⟩ := hh.find v name
    refine ⟨hfound.trans ?_, _, hheap, rfl⟩
    rw [show Member.rename id = id from funext Member.rename_id, Option.map_id]
    rfl
  rel_setMember := by
    rintro m _ ⟨h, hh, rfl⟩ v name member hmember
    rw [Member.rename_id]
    exact ⟨_, hh.setMember v name hmember, rfl⟩
  rel_setHash := by
    rintro m _ ⟨h, hh, rfl⟩ v hash -
    exact ⟨_, hh.setHash v hash, rfl⟩
  rel_setKind := by
    rintro m _ ⟨h, hh, rfl⟩ v k - hallows
    rw [Kind.rename_id]
    exact ⟨_, hh.setKind hallows.tag, rfl⟩

namespace Passage

open Run

theorem places_noting : noting.Places := by
  rintro f _ span rfl
  rfl

variable {α : Type} {x y : Run α} {r : α → α}

/-! ## Frames -/

theorem noting_of_ignoresHeap (hx : x.IgnoresHeap) (hr : ∀ a, r a = a) : noting.Carries x x r := by
  constructor
  · intro m
    rcases hx.sparesHeap m with ⟨a, m', hm, hheap⟩ | ⟨c, m', hm, hheap⟩ <;>
    · unfold Run.after
      rw [hm]
      exact Nat.le_of_eq (congrArg (·.objects.size) hheap.symm)
  · rintro m _ ⟨h, hh, rfl⟩ - -
    rcases hx m with ⟨a, m', hm⟩ | ⟨c, m', hm⟩
    · rw [show x m = _ from hm m.heap, hm h]
      have hmatches := Matches.ok (P := noting) (r := r) a
        (⟨h, hh, rfl⟩ : Machine.SameButNotes { m' with heap := m.heap } { m' with heap := h })
      rwa [hr a] at hmatches
    · rw [show x m = _ from hm m.heap, hm h]
      exact .failed rfl ⟨h, hh, rfl⟩

theorem noting_assign (f : FrameId) (name : String) (v : Value) :
    noting.Carries (assign f name v) (assign f name v) id := by
  refine (noting_of_ignoresHeap (ignoresHeap_frame f) fun _ => rfl).bind fun _ => ?_
  refine .modify (fun m => Arena.size_assign m.arena m.heap f name v) ?_
  rintro m _ ⟨h, hh, rfl⟩
  unfold Arena.assign
  cases (m.arena.get? f).bind fun fr => if fr.bindsObject then fr.object else none with
  | none => exact ⟨h, hh, rfl⟩
  | some object => exact ⟨_, hh.setMember object name nofun, rfl⟩

theorem noting_resolve (f : FrameId) (name : String) :
    noting.Carries (resolve f name) (resolve f name) (Option.map id) := by
  rw [resolve_eq]
  refine .read_bind id ?_ fun r => ?_
  · rintro m _ ⟨h, hh, rfl⟩
    refine congrArg (fun g => (m.arena.chain f).findSome? g) (funext fun fr => ?_)
    unfold Frame.meaning?
    simp only [hh.own?]
  · cases r with
    | none => exact .pure rfl
    | some r =>
      obtain ⟨owner, member⟩ := r
      have hbind := carries_bindMember (P := noting) owner member
      rw [show member.rename noting.value = member from Member.rename_id _] at hbind
      exact hbind.bind fun _ => .pure rfl

theorem noting_activation {β : Type} {y : Run β} {r : α → β} (f : FrameId)
    (h : noting.Carries x y r) : noting.Carries (activation f x) (activation f y) r := by
  refine ⟨grows_activation f h.grows, ?_⟩
  rintro m _ ⟨heap, hheap, rfl⟩ - -
  have hdepth : ({ m with heap := heap } : Machine).depth = m.depth := rfl
  unfold activation
  by_cases hfull : m.config.maxCallDepth ≤ m.depth
  · simp only [hdepth, if_pos hfull]
    exact .failed rfl ⟨heap, hheap, rfl⟩
  · simp only [hdepth, if_neg hfull]
    have hxy := h.holds { m with callStack := m.callStack.push f }
      { m with heap := heap, callStack := m.callStack.push f } ⟨heap, hheap, rfl⟩ trivial trivial
    generalize x _ = s at hxy ⊢
    generalize y _ = t at hxy ⊢
    cases hxy with
    | ok a hmn =>
      obtain ⟨heap', hheap', rfl⟩ := hmn
      exact .ok a ⟨heap', hheap', rfl⟩
    | failed hfg hmn =>
      obtain ⟨heap', hheap', rfl⟩ := hmn
      exact .failed hfg ⟨heap', hheap', rfl⟩
    | gaveUp _ _ hstop => exact .gaveUp _ _ hstop
    | unsaid _ _ honeWay => exact honeWay.elim

/-- Whatever is done with frames is done in the same way, whatever notes there are. -/
theorem noting_frames : noting.Frames where
  define _ _ _ := noting_of_ignoresHeap (ignoresHeap_modifyFrame _ _) fun _ => rfl
  push _ _ := noting_of_ignoresHeap (ignoresHeap_modifyFrame _ _) fun _ => rfl
  pushAll f vs := by
    rw [show vs.map noting.value = vs from List.map_id vs]
    exact noting_of_ignoresHeap (ignoresHeap_modifyFrame _ _) fun _ => rfl
  pop _ := noting_of_ignoresHeap (ignoresHeap_pop _) fun _ => rfl
  popMany _ count := noting_of_ignoresHeap (ignoresHeap_popMany _ count) fun vs => List.map_id vs
  top _ := noting_of_ignoresHeap (ignoresHeap_top _) fun _ => rfl
  last _ := noting_of_ignoresHeap (ignoresHeap_last _) fun r => Option.map_id_apply
  setLast _ _ := noting_of_ignoresHeap (ignoresHeap_modifyFrame _ _) fun _ => rfl
  assign := noting_assign
  resolve := noting_resolve
  retain _ := noting_of_ignoresHeap (ignoresHeap_retain _) fun _ => rfl
  methodScope _ := noting_of_ignoresHeap (ignoresHeap_methodScope _) fun _ => rfl
  newFrame parent object bindsObject := by
    rw [show object.map noting.value = object from Option.map_id_apply]
    exact noting_of_ignoresHeap (ignoresHeap_newFrame _ _ _) fun _ => rfl
  activate _ := noting_of_ignoresHeap (ignoresHeap_activate _) fun _ => rfl
  trace position i := noting_of_ignoresHeap (ignoresHeap_trace position i) fun _ => rfl
  activation f h := noting_activation f h

/-! ## Engines -/

variable {e e' : Engine}

/-- As much is done in the same way as calls and runs of code are. -/
theorem noting_knot (hplain : Plain e e') (hfuel : e'.fuel = e.fuel)
    (hdigests : e'.digests = e.digests)
    (hcall : ∀ callee args, noting.Carries (e.call callee args) (e'.call callee args) id)
    (henter : ∀ f c, noting.Carries (e.enter f c) (e'.enter f c) id) : noting.Knot e e' := by
  refine noting_frames.knot_of_calls (fun _ _ h => h) (fun _ _ _ => trivial) (fun h => h) hplain hfuel
    hdigests (fun callee args => ?_) henter
  rw [show args.map noting.value = args from List.map_id args]
  exact hcall callee args

theorem noting_callValue (K : noting.Knot e e') (callee : Value) (args : List Value) :
    noting.Carries (e.callValue callee args) (e'.callValue callee args) id := by
  have h := noting_frames.callValue K callee args
  rw [show args.map noting.value = args from List.map_id args] at h
  exact ⟨h.grows, fun m n hmn _ => h.holds m n hmn fun _ _ _ => rfl⟩

end Passage
end ScriptVM
