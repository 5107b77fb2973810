import ScriptVM.Proofs.Code.Course
import ScriptVM.Proofs.Code.Label

/-!
# Code in another place

Sound code does the same wherever it stands: each step goes on at the same position of the code, and
sets aside the same body.
-/
namespace ScriptVM

namespace Cursor

/-- A body that comes next is set aside as code of its own, also an empty one. -/
theorem cut_of_at {c : Cursor} {code : Block} (h : c.At code)
    (hlength : c.index + code.length ≤ c.length) :
    c.cut code.length = (View.ofList code, c.skip code.length) := by
  obtain ⟨rest, hrest⟩ := h
  unfold Cursor.cut take
  rw [View.detached_eq, View.instructions_sub, ← hrest, List.take_left, Nat.min_eq_left hlength]
  rfl

theorem At.drop {c : Cursor} {code : Block} (h : c.At code) (p : Nat) (hp : p ≤ code.length) :
    (c.skip p).At (code.drop p) := by
  rw [← List.take_append_drop p code] at h
  have hskip := (at_append.1 h).2
  rwa [List.length_take, Nat.min_eq_left hp] at hskip

theorem At.take {c : Cursor} {code : Block} (h : c.At code) (count : Nat) :
    c.At (code.take count) :=
  (List.take_prefix count code).trans h

theorem jumpBack?_skip {c : Cursor} {p offset : Nat} (h : offset ≤ p) :
    (c.skip p).jumpBack? offset = some (c.skip (p - offset)) := by
  have hle : offset ≤ (c.skip p).index := by
    rw [index_skip]
    omega
  rw [jumpBack?, if_pos hle]
  simp only [skip, Nat.add_sub_assoc h]

end Cursor

/-- Two flows go on at the same position of code that stands at two places, or leave the body with
the same value. -/
inductive SameFlow (mode : Mode) (labels : Labels) (length : Nat) (c d : Cursor) : Flow → Flow → Prop
  | next (p : Nat) (hp : p ≤ length) (hlabel : labels p ≠ none) :
    SameFlow mode labels length c d (.next (c.skip p)) (.next (d.skip p))
  | leave (hmode : mode.exits ≠ .never) (v : Value) (c' d' : Cursor) :
    SameFlow mode labels length c d (.leave v c') (.leave v d')

/-- Ends of steps that do the same at two places. -/
inductive SameStep (mode : Mode) (labels : Labels) (length : Nat) (c d : Cursor) :
    Ending Flow → Ending Flow → Prop
  | ok {flow flow' : Flow} (h : SameFlow mode labels length c d flow flow') (m : Machine) :
    SameStep mode labels length c d (.ok flow m) (.ok flow' m)
  | error (stop : Stop) (m : Machine) :
    SameStep mode labels length c d (.error stop m) (.error stop m)

/-- Steps that do the same at two places. -/
def SameSteps (mode : Mode) (labels : Labels) (length : Nat) (c d : Cursor) (x y : Run Flow) :
    Prop :=
  ∀ m, SameStep mode labels length c d (x m) (y m)

section locality

variable {mode : Mode} {labels : Labels} {length : Nat} {c d : Cursor} {α : Type}

theorem SameSteps.bind {x : Run α} {f g : α → Run Flow}
    (h : ∀ a, SameSteps mode labels length c d (f a) (g a)) :
    SameSteps mode labels length c d (x >>= f) (x >>= g) := by
  intro m
  simp only [Bind.bind, EStateM.bind]
  cases x m with
  | ok a m => exact h a m
  | error stop m => exact .error stop m

theorem SameSteps.fail (cause : Cause) :
    SameSteps mode labels length c d (Run.fail cause) (Run.fail cause) :=
  fun m => .error _ m

theorem SameSteps.next (p : Nat) (h : p ≤ length ∧ labels p ≠ none) :
    SameSteps mode labels length c d (pure (.next (c.skip p))) (pure (.next (d.skip p))) :=
  fun m => .ok (.next p h.1 h.2) m

/-- What an operation needs to know of the place behind it. -/
structure Op.Behind (op : Op) (c : Cursor) (body : View) (position : Nat) : Prop where
  cut : (c.skip (position + 1)).cut op.bodyLength =
    (body, c.skip (position + 1 + op.bodyLength))
  jump : ∀ offset, op = .jump offset ∨ op = .ifJump offset ∨ op = .unlessJump offset →
    (c.skip (position + 1)).jump offset = c.skip (position + 1 + offset)

variable {op : Op} {position depth : Nat} {body : View}

theorem Op.Fits.goes (h : op.Fits mode labels length position depth) {p : Nat}
    (hp : p ∈ op.targets position) : p ≤ length ∧ labels p ≠ none := by
  obtain ⟨hle, hlabel⟩ := h.targets p hp
  exact ⟨hle, by rw [hlabel]; exact nofun⟩

theorem Op.Fits.goBack {offset : Nat} (hback : offset ≤ position + 1)
    (hgoes : position + 1 - offset ≤ length ∧ labels (position + 1 - offset) ≠ none) :
    SameSteps mode labels length c d (Engine.goBack (c.skip (position + 1)) offset)
      (Engine.goBack (d.skip (position + 1)) offset) := by
  unfold Engine.goBack
  rw [Cursor.jumpBack?_skip hback, Cursor.jumpBack?_skip hback]
  exact .next _ hgoes

/-- An operation that fits does the same at two places. -/
theorem Op.Fits.sameSteps (h : op.Fits mode labels length position depth)
    (hc : op.Behind c body position)
    (hd : op.Behind d body position) (e : Engine) (id : FrameId) :
    SameSteps mode labels length c d (e.step id (c.skip (position + 1)) op)
      (e.step id (d.skip (position + 1)) op) := by
  have hnext : position + 1 ∈ op.targets position →
      SameSteps mode labels length c d (pure (.next (c.skip (position + 1))))
        (pure (.next (d.skip (position + 1)))) := fun hp => .next _ (h.goes hp)
  have hcutc := hc.cut
  have hcutd := hd.cut
  cases op with
  | jump offset =>
    have hgoes := h.goes (List.mem_singleton.2 rfl)
    simp only [Engine.step, hc.jump offset (.inl rfl), hd.jump offset (.inl rfl)]
    exact .next _ hgoes
  | jumpBack offset => exact Op.Fits.goBack h.back (h.goes (List.mem_singleton.2 rfl))
  | ifJump offset =>
    simp only [Engine.step, hc.jump offset (.inr (.inl rfl)), hd.jump offset (.inr (.inl rfl))]
    refine .bind fun b => ?_
    cases b with
    | true => exact hnext List.mem_cons_self
    | false => exact .next _ (h.goes (List.mem_cons_of_mem _ (List.mem_singleton.2 rfl)))
  | unlessJump offset =>
    simp only [Engine.step, hc.jump offset (.inr (.inr rfl)), hd.jump offset (.inr (.inr rfl))]
    refine .bind fun b => ?_
    cases b with
    | true => exact .next _ (h.goes (List.mem_cons_of_mem _ (List.mem_singleton.2 rfl)))
    | false => exact hnext List.mem_cons_self
  | ifJumpBack offset =>
    refine .bind fun b => ?_
    cases b with
    | true => exact hnext List.mem_cons_self
    | false => exact Op.Fits.goBack h.back (h.goes (List.mem_cons_of_mem _ (List.mem_singleton.2 rfl)))
  | unlessJumpBack offset =>
    refine .bind fun b => ?_
    cases b with
    | true => exact Op.Fits.goBack h.back (h.goes (List.mem_cons_of_mem _ (List.mem_singleton.2 rfl)))
    | false => exact hnext List.mem_cons_self
  | redoMark | continueMark | breakMark => exact .fail _
  | exit count =>
    refine .bind fun vs => .bind fun v m => .ok (.leave ?_ v _ _) m
    intro hnever
    have hallow := (h.exit count rfl).2
    rw [hnever] at hallow
    exact hallow
  | raise => exact .bind fun v => .fail _
  | push =>
    refine .bind fun r => ?_
    cases r with
    | some v => exact .bind fun _ => hnext (List.mem_singleton.2 rfl)
    | none => exact .bind fun _ => .bind fun _ => hnext (List.mem_singleton.2 rfl)
  | getIdentifier name =>
    refine .bind fun r => ?_
    cases r with
    | some v => exact .bind fun _ => hnext (List.mem_singleton.2 rfl)
    | none => exact .bind fun _ => hnext (List.mem_singleton.2 rfl)
  | selectName name =>
    refine .bind fun source => .bind fun r => ?_
    cases r with
    | some v => exact .bind fun _ => hnext (List.mem_singleton.2 rfl)
    | none => exact .bind fun _ => .bind fun _ => hnext (List.mem_singleton.2 rfl)
  | nop => exact hnext (List.mem_singleton.2 rfl)
  | newString _ | newBytes _ | newInteger _ | newFloat _ | getTrue | getFalse | getNone
  | loadArguments _ => exact .bind fun _ => hnext (List.mem_singleton.2 rfl)
  | newTuple _ | newArray _ | assignIdentifier _ =>
    exact .bind fun _ => .bind fun _ => hnext (List.mem_singleton.2 rfl)
  | newHash _ | unary _ | assignSelector _ =>
    exact .bind fun _ => .bind fun _ => .bind fun _ => hnext (List.mem_singleton.2 rfl)
  | binary _ | index | methodInvocation _ | assignIndex =>
    exact .bind fun _ => .bind fun _ => .bind fun _ => .bind fun _ =>
      hnext (List.mem_singleton.2 rfl)
  | newFunction info =>
    have hgoes := h.goes (List.mem_singleton.2 rfl)
    simp only [Op.bodyLength, Op.body?, Option.elim] at hcutc hcutd hgoes
    simp only [Engine.step, Engine.newFunction, hcutc, hcutd, bind_assoc, pure_bind]
    refine .bind fun scope => .bind fun v => ?_
    cases info.name with
    | some name => exact .bind fun _ => .bind fun _ => .next _ hgoes
    | none => exact .bind fun _ => .next _ hgoes
  | newLambda info =>
    have hgoes := h.goes (List.mem_singleton.2 rfl)
    simp only [Op.bodyLength, Op.body?, Option.elim] at hcutc hcutd hgoes
    simp only [Engine.step, Engine.newFunction, hcutc, hcutd, bind_assoc, pure_bind]
    exact .bind fun _ => .bind fun _ => .bind fun _ => .next _ hgoes
  | newMethod info =>
    have hgoes := h.goes (List.mem_singleton.2 rfl)
    simp only [Op.bodyLength, Op.body?, Option.elim] at hcutc hcutd hgoes
    simp only [Engine.step, Engine.newMethod, hcutc, hcutd, bind_assoc, pure_bind]
    exact .bind fun _ => .bind fun _ => .bind fun _ => .bind fun _ => .next _ hgoes
  | newGenerator info =>
    have hgoes := h.goes (List.mem_singleton.2 rfl)
    simp only [Op.bodyLength, Op.body?, Option.elim] at hcutc hcutd hgoes
    simp only [Engine.step, Engine.newGenerator, hcutc, hcutd, bind_assoc, pure_bind]
    exact .bind fun _ => .bind fun _ => .bind fun _ => .bind fun _ => .next _ hgoes
  | newClass info | newInterface info =>
    have hgoes := h.goes (List.mem_singleton.2 rfl)
    simp only [Op.bodyLength, Op.body?, Option.elim] at hcutc hcutd hgoes
    simp only [Engine.step, Engine.newClass, hcutc, hcutd, bind_assoc, pure_bind]
    exact .bind fun _ => .bind fun _ => .bind fun _ => .bind fun _ => .bind fun _ => .bind fun _ =>
      .next _ hgoes
  | newModule info =>
    have hgoes := h.goes (List.mem_singleton.2 rfl)
    simp only [Op.bodyLength, Op.body?, Option.elim] at hcutc hcutd hgoes
    simp only [Engine.step, Engine.newModule, hcutc, hcutd, bind_assoc, pure_bind]
    exact .bind fun _ => .bind fun _ => .bind fun _ => .bind fun _ => .next _ hgoes

/-- Code that stands somewhere in longer code. -/
structure Cursor.Stands (c : Cursor) (code : Block) : Prop where
  here : c.At code
  inside : c.index + code.length ≤ c.length
  fits : c.length ≤ Text.maxCount

theorem Cursor.stands_ofList {code : Block} (h : code.length ≤ Text.maxCount) :
    (ofList code).Stands code :=
  ⟨at_ofList code, by simp [ofList, ofView], by simpa [ofList, ofView] using h⟩

variable {code : Block} {i : Instruction}

theorem Cursor.Stands.next? (h : c.Stands code) (hi : code[position]? = some i) :
    (c.skip position).next? = some (i, c.skip (position + 1)) := by
  obtain ⟨hp, hi⟩ := List.getElem?_eq_some_iff.1 hi
  have hdrop := h.here.drop position (Nat.le_of_lt hp)
  rw [List.drop_eq_getElem_cons hp, hi] at hdrop
  rw [hdrop.next?, skip_skip]

/-- Sound code sets aside the same bodies wherever it stands, and jumps as far. -/
theorem Cursor.Stands.behind (h : c.Stands code)
    (hfits : i.op.Fits mode labels code.length position depth)
    (hinside : position + 1 + i.op.bodyLength ≤ code.length) :
    i.op.Behind c (.ofList ((code.drop (position + 1)).take i.op.bodyLength)) position where
  cut := by
    have hdrop := (h.here.drop (position + 1) (by omega)).take i.op.bodyLength
    have hlength : ((code.drop (position + 1)).take i.op.bodyLength).length = i.op.bodyLength := by
      rw [List.length_take, List.length_drop]
      omega
    have hcut := cut_of_at hdrop (by
      have := h.inside
      simp only [hlength, index_skip, toView_skip]
      omega)
    rwa [hlength, skip_skip] at hcut
  jump := by
    intro offset hop
    have hle : position + 1 + offset ≤ code.length := by
      have htargets := hfits.targets (position + 1 + offset)
      rcases hop with hop | hop | hop <;> rw [hop] at htargets
      · exact (htargets (List.mem_singleton.2 rfl)).1
      · exact (htargets (List.mem_cons_of_mem _ (List.mem_singleton.2 rfl))).1
      · exact (htargets (List.mem_cons_of_mem _ (List.mem_singleton.2 rfl))).1
    rw [jump_eq_skip, skip_skip]
    have := h.inside
    have := h.fits
    rw [index_skip]
    omega

/-- Steps of labelled code do the same wherever it stands. -/
theorem Labels.Fit.sameSteps (h : labels.Fit mode code.length 0 code) (hc : c.Stands code)
    (hd : d.Stands code) (hi : code[position]? = some i) (hlabel : labels position ≠ none)
    (e : Engine) (id : FrameId) :
    SameSteps mode labels code.length c d (e.step id (c.skip (position + 1)) i.op)
      (e.step id (d.skip (position + 1)) i.op) := by
  obtain ⟨depth, hdepth⟩ := Option.ne_none_iff_exists'.1 hlabel
  obtain ⟨hfits, hinside, -⟩ := h position i depth hi (by rwa [Nat.zero_add])
  rw [Nat.zero_add] at hfits
  exact hfits.sameSteps (hc.behind hfits hinside) (hd.behind hfits hinside) e id

end locality
end ScriptVM
