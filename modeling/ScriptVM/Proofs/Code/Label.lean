import ScriptVM.Proofs.Code.Place

/-!
# Labelled code

A label is the number of operands that a body has on its stack before an instruction. Sound code can
be labelled so that every operation finds the operands that it takes, every jump stays in the code
and arrives at the label that it leaves with, and every body is sound on its own. Bodies that are set
aside are not labelled with the code around them.
-/
namespace ScriptVM

/-- Where a body may be left. -/
inductive Exits where
  | never
  /-- Behind its last instruction only. -/
  | last
  | anywhere
  deriving DecidableEq

/-- Whether code may be left in front of a position. -/
def Exits.allow (length position : Nat) : Exits → Prop
  | .never => False
  | .last => position = length
  | .anywhere => True

/-- What kind of body some code belongs to. -/
structure Mode where
  /-- How many operands lie below those of a statement. -/
  base : Nat
  exits : Exits
  /-- Whether there may be loop controls that have not become jumps. -/
  marked : Bool

namespace Mode

/-- The body of a function, a module or a program. -/
def plain : Mode := ⟨0, .anywhere, false⟩

/-- The body of a class, with the object at the bottom of the operands. -/
def classBody : Mode := ⟨1, .anywhere, false⟩

/-- The operation of a generator, which runs from its start at every step. -/
def operation : Mode := ⟨0, .last, false⟩

/-- The body of a loop. -/
def insideLoop (mode : Mode) : Mode := { mode with marked := true }

/-- Code that does not leave the body. -/
def staying (mode : Mode) : Mode := { mode with exits := .never }

/-- Code of a kind may be a part of code of another kind, from a position on. -/
structure Within (inner outer : Mode) (offset length total : Nat) : Prop where
  base : inner.base = outer.base
  marked : outer.marked = false → inner.marked = false
  exits : ∀ p, inner.exits.allow length p → outer.exits.allow total (offset + p)

theorem within_of_ne (mode : Mode) (h : mode.exits ≠ .last) (offset length total : Nat) :
    mode.Within mode offset length total := by
  refine ⟨rfl, id, fun p => ?_⟩
  revert h
  cases mode.exits <;> simp [Exits.allow]

theorem within_end (mode : Mode) {offset length total : Nat} (h : offset + length = total) :
    mode.Within mode offset length total := by
  refine ⟨rfl, id, fun p => ?_⟩
  cases mode.exits with
  | never => exact id
  | last => simp only [Exits.allow]; omega
  | anywhere => exact id

theorem within_staying (mode : Mode) (offset length total : Nat) :
    mode.staying.Within mode offset length total :=
  ⟨rfl, id, fun _ => False.elim⟩

end Mode

/-- A body that is set aside: its length, its kind and the operands that it is entered with. -/
structure BodyShape where
  length : Nat
  mode : Mode
  entry : Nat

namespace Op

/-- The body behind a definition. -/
def body? : Op → Option BodyShape
  | .newFunction info | .newLambda info | .newMethod info =>
    some ⟨info.bodyLength, .plain, info.arity⟩
  | .newGenerator info => some ⟨info.operationLength, .operation, info.receiverCount⟩
  | .newClass info | .newInterface info => some ⟨info.bodyLength, .classBody, 1⟩
  | .newModule info => some ⟨info.bodyLength, .plain, 0⟩
  | _ => none

/-- How many instructions behind an operation are set aside. -/
def bodyLength (op : Op) : Nat := op.body?.elim 0 BodyShape.length

/-- How many operands an operation takes. -/
def takes : Op → Nat
  | .newTuple count | .newArray count | .exit count => count
  | .newHash count => 2 * count
  | .unary _ | .selectName _ | .assignIdentifier _ | .ifJump _ | .unlessJump _ | .ifJumpBack _
  | .unlessJumpBack _ | .newGenerator _ | .raise => 1
  | .binary _ | .index | .assignSelector _ => 2
  | .methodInvocation count => count + 1
  | .assignIndex => 3
  | .loadArguments names => names.length
  | .newClass info | .newInterface info => info.baseCount
  | _ => 0

/-- How many operands an operation looks for. -/
def needs : Op → Nat
  | .newMethod _ => 1
  | op => op.takes

/-- How many operands an operation puts on the stack. -/
def gives : Op → Nat
  | .push => 1
  | _ => 0

/-- How far back an operation may go, counted from behind it. -/
def back : Op → Nat
  | .jumpBack offset | .ifJumpBack offset | .unlessJumpBack offset => offset
  | _ => 0

/-- Where the code may go on behind an operation at a position. -/
def targets (position : Nat) : Op → List Nat
  | .jump offset => [position + 1 + offset]
  | .jumpBack offset => [position + 1 - offset]
  | .ifJump offset | .unlessJump offset => [position + 1, position + 1 + offset]
  | .ifJumpBack offset | .unlessJumpBack offset => [position + 1, position + 1 - offset]
  | .exit _ | .raise | .redoMark | .continueMark | .breakMark => []
  | op => [position + 1 + op.bodyLength]

/-- Definitions are no jumps. -/
theorem of_body? {op : Op} {shape : BodyShape} (h : op.body? = some shape) :
    (∀ position, op.targets position = [position + 1 + op.bodyLength]) ∧ op.back = 0 ∧
      op.gives = 0 := by
  cases op <;> first | exact ⟨fun _ => rfl, rfl, rfl⟩ | cases h

/-- Nothing is known of where the code goes on behind a loop control. -/
theorem of_isLoopMark {op : Op} (h : op.isLoopMark = true) :
    op.body? = none ∧ (∀ position, op.targets position = []) ∧ op.needs = 0 ∧ op.back = 0 := by
  cases op <;> first | exact ⟨rfl, fun _ => rfl, rfl, rfl⟩ | cases h

theorem isLoopMark_of_body? {op : Op} {shape : BodyShape} (h : op.body? = some shape) :
    op.isLoopMark = false := by
  cases op <;> first | rfl | cases h

theorem marked_of_body? {op : Op} {shape : BodyShape} (h : op.body? = some shape) :
    shape.mode.marked = false := by
  cases op <;> cases h <;> rfl

/-- Targets move along with the operation. -/
theorem targets_add {op : Op} {position : Nat} (h : op.back ≤ position + 1) (offset : Nat) :
    op.targets (offset + position) = (op.targets position).map fun q => offset + q := by
  cases op <;> simp_all [targets, back, Nat.add_assoc] <;> omega

end Op

/-- Labels of positions in some code; what is never reached has none. -/
abbrev Labels := Nat → Option Nat

/-- An operation under a label fits into some code: it finds its operands, and the code goes on at
the label that it leaves with. -/
structure Op.Fits (mode : Mode) (labels : Labels) (length position depth : Nat) (op : Op) :
    Prop where
  needs : op.needs ≤ depth
  back : op.back ≤ position + 1
  targets : ∀ q ∈ op.targets position, q ≤ length ∧ labels q = some (depth - op.takes + op.gives)
  exit : ∀ count, op = .exit count → depth = mode.base + count ∧ mode.exits.allow length (position + 1)
  mark : op.isLoopMark = true → mode.marked = true ∧ depth = mode.base

/-- Code that goes from some operands to others when it reaches its end. -/
inductive Sound : Mode → Nat → Block → Nat → Prop
  | intro {mode : Mode} {entry stop : Nat} {code : Block} (labels : Labels) (ends : Nat → Nat)
    (start : labels 0 = some entry) (finish : labels code.length = some stop)
    (fits : ∀ p i d, code[p]? = some i → labels p = some d →
      i.op.Fits mode labels code.length p d ∧ p + 1 + i.op.bodyLength ≤ code.length)
    (bodies : ∀ p i d b, code[p]? = some i → labels p = some d → i.op.body? = some b →
      Sound b.mode b.entry ((code.drop (p + 1)).take b.length) (ends p))
    (unmarked : mode.marked = false → ∀ i ∈ code, i.op.isLoopMark = false) :
    Sound mode entry code stop

/-- Labels fit to a piece of code at a position of some longer code. -/
def Labels.Fit (labels : Labels) (mode : Mode) (length offset : Nat) (code : Block) : Prop :=
  ∀ p i d, code[p]? = some i → labels (offset + p) = some d →
    i.op.Fits mode labels length (offset + p) d ∧ p + 1 + i.op.bodyLength ≤ code.length ∧
      ∀ b, i.op.body? = some b →
        ∃ stop, Sound b.mode b.entry ((code.drop (p + 1)).take b.length) stop

/-- One labelling up to a position and another one from there on. -/
def Labels.glue (left : Labels) (position : Nat) (right : Labels) : Labels := fun p =>
  if p < position then left p else right (p - position)

/-- The label of a single instruction. -/
def Labels.const (depth : Nat) : Labels := fun _ => some depth

/-- No labels, as for the body of a definition. -/
def Labels.unreached : Labels := fun _ => none

section sound

variable {mode : Mode} {labels left right : Labels} {length offset entry stop depth : Nat}
  {code a b : Block}

theorem Sound.iff_labels : Sound mode entry code stop ↔
    (∃ labels : Labels, labels 0 = some entry ∧ labels code.length = some stop ∧
      labels.Fit mode code.length 0 code) ∧
    (mode.marked = false → ∀ i ∈ code, i.op.isLoopMark = false) := by
  constructor
  · rintro ⟨labels, ends, start, finish, fits, bodies, unmarked⟩
    refine ⟨⟨labels, start, finish, fun p i d hi hd => ?_⟩, unmarked⟩
    rw [Nat.zero_add] at hd ⊢
    obtain ⟨hfits, hinside⟩ := fits p i d hi hd
    exact ⟨hfits, hinside, fun b hb => ⟨_, bodies p i d b hi hd hb⟩⟩
  · rintro ⟨⟨labels, start, finish, hfit⟩, unmarked⟩
    simp only [Labels.Fit, Nat.zero_add] at hfit
    have hends : ∀ p, ∃ stop, ∀ i d b, code[p]? = some i → labels p = some d →
        i.op.body? = some b →
        Sound b.mode b.entry ((code.drop (p + 1)).take b.length) stop := by
      intro p
      by_cases h : ∃ i d b, code[p]? = some i ∧ labels p = some d ∧ i.op.body? = some b
      · obtain ⟨i, d, b, hi, hd, hb⟩ := h
        obtain ⟨stop, hstop⟩ := (hfit p i d hi hd).2.2 b hb
        refine ⟨stop, fun i' d' b' hi' _ hb' => ?_⟩
        cases hi.symm.trans hi'
        cases hb.symm.trans hb'
        exact hstop
      · exact ⟨0, fun i d b hi hd hb => absurd ⟨i, d, b, hi, hd, hb⟩ h⟩
    obtain ⟨ends, hends⟩ := Classical.axiomOfChoice hends
    exact ⟨labels, ends, start, finish, fun p i d hi hd => ⟨(hfit p i d hi hd).1,
      (hfit p i d hi hd).2.1⟩, fun p i d b hi hd hb => hends p i d b hi hd hb, unmarked⟩

theorem Sound.unmarked (h : Sound mode entry code stop) (hmode : mode.marked = false) :
    ∀ i ∈ code, i.op.isLoopMark = false :=
  (Sound.iff_labels.1 h).2 hmode

theorem Labels.glue_of_lt {p : Nat} (h : p < offset) : left.glue offset right p = left p :=
  if_pos h

@[simp] theorem Labels.glue_add (p : Nat) : left.glue offset right (offset + p) = right p := by
  rw [glue, if_neg (by omega), Nat.add_sub_cancel_left]

@[simp] theorem Labels.glue_self : left.glue offset right offset = right 0 :=
  glue_add 0

theorem Labels.glue_of_le (hmeet : left offset = right 0) {p : Nat} (h : p ≤ offset) :
    left.glue offset right p = left p := by
  rcases Nat.lt_or_eq_of_le h with h | rfl
  · exact glue_of_lt h
  · rw [glue_self, hmeet]

/-- Operations that fit into code fit into longer code around it. -/
theorem Op.Fits.shift {op : Op} {inner : Labels} {position total : Nat} {outer : Mode}
    (h : op.Fits mode inner length position depth)
    (hmode : mode.Within outer offset length total)
    (hlabels : ∀ p ≤ length, labels (offset + p) = inner p) (htotal : offset + length ≤ total) :
    op.Fits outer labels total (offset + position) depth where
  needs := h.needs
  back := by have := h.back; omega
  targets := by
    intro q hq
    rw [Op.targets_add h.back offset] at hq
    obtain ⟨p, hp, rfl⟩ := List.mem_map.1 hq
    obtain ⟨hle, hlabel⟩ := h.targets p hp
    exact ⟨by omega, by rw [hlabels p hle, hlabel]⟩
  exit := by
    intro count hop
    obtain ⟨hdepth, hallow⟩ := h.exit count hop
    exact ⟨hmode.base ▸ hdepth, hmode.exits _ hallow⟩
  mark := by
    intro hop
    obtain ⟨hmarked, hdepth⟩ := h.mark hop
    refine ⟨?_, hmode.base ▸ hdepth⟩
    cases houter : outer.marked with
    | true => rfl
    | false => exact absurd (hmode.marked houter) (by simp [hmarked])

/-- Labels that agree with those of a piece of code fit to it in longer code. -/
theorem Labels.Fit.shift {inner : Labels} {total : Nat} {outer : Mode}
    (h : inner.Fit mode code.length 0 code) (hmode : mode.Within outer offset code.length total)
    (hlabels : ∀ p ≤ code.length, labels (offset + p) = inner p)
    (htotal : offset + code.length ≤ total) : labels.Fit outer total offset code := by
  intro p i d hi hd
  have hp : p < code.length := (List.getElem?_eq_some_iff.1 hi).1
  rw [hlabels p (Nat.le_of_lt hp)] at hd
  obtain ⟨hfits, hrest⟩ := h p i d hi (by rwa [Nat.zero_add])
  rw [Nat.zero_add] at hfits
  exact ⟨hfits.shift hmode hlabels htotal, hrest⟩

/-- Labels fit to code when they fit to its parts. -/
theorem Labels.Fit.append {middle : Nat} (ha : labels.Fit mode length offset a)
    (hb : labels.Fit mode length middle b) (hmiddle : offset + a.length = middle) :
    labels.Fit mode length offset (a ++ b) := by
  subst hmiddle
  intro p i d hi hd
  rcases Nat.lt_or_ge p a.length with hp | hp
  · rw [List.getElem?_append_left hp] at hi
    obtain ⟨hfits, hinside, hbody⟩ := ha p i d hi hd
    refine ⟨hfits, by rw [List.length_append]; omega, fun b' hb' => ?_⟩
    have hlength : i.op.bodyLength = b'.length := by rw [Op.bodyLength, hb']; rfl
    have hdrop : b'.length ≤ (a.drop (p + 1)).length := by rw [List.length_drop]; omega
    rw [List.drop_append_of_le_length (by omega), List.take_append_of_le_length hdrop]
    exact hbody b' hb'
  · obtain ⟨q, rfl⟩ := Nat.exists_eq_add_of_le hp
    rw [List.getElem?_append_right hp, Nat.add_sub_cancel_left] at hi
    rw [← Nat.add_assoc] at hd
    obtain ⟨hfits, hinside, hbody⟩ := hb q i d hi hd
    rw [Nat.add_assoc] at hfits
    refine ⟨hfits, by rw [List.length_append]; omega, fun b' hb' => ?_⟩
    rw [Nat.add_assoc, List.drop_length_add_append]
    exact hbody b' hb'

/-- A single instruction without a body. -/
theorem Labels.Fit.single {i : Instruction} (hbody : i.op.body? = none)
    (h : ∀ d, labels offset = some d → i.op.Fits mode labels length offset d) :
    labels.Fit mode length offset [i] := by
  intro p j d hj hd
  obtain ⟨hp, hj⟩ := List.getElem?_eq_some_iff.1 hj
  have hp : p = 0 := by simpa using hp
  subst hp
  cases hj
  exact ⟨h d hd, by simp [Op.bodyLength, hbody], fun b hb => nomatch hbody.symm.trans hb⟩

/-- A definition with its body, which has no labels here. -/
theorem Labels.Fit.definition {i : Instruction} {shape : BodyShape} {body : Block}
    (hshape : i.op.body? = some shape) (hlength : body.length = shape.length)
    (hbody : Sound shape.mode shape.entry body stop)
    (h : ∀ d, labels offset = some d → i.op.Fits mode labels length offset d)
    (hnone : ∀ p < body.length, labels (offset + 1 + p) = none) :
    labels.Fit mode length offset (i :: body) := by
  have hinside : i.op.bodyLength = body.length := by rw [Op.bodyLength, hshape, hlength]; rfl
  intro p j d hj hd
  cases p with
  | zero =>
    cases hj
    refine ⟨h d hd, by rw [List.length_cons]; omega, fun b hb => ?_⟩
    cases hshape.symm.trans hb
    refine ⟨stop, ?_⟩
    rw [List.drop_succ_cons, List.drop_zero, ← hlength, List.take_length]
    exact hbody
  | succ p =>
    have hp : p < body.length := (List.getElem?_eq_some_iff.1 hj).1 |> Nat.lt_of_succ_lt_succ
    rw [Nat.add_comm p 1, ← Nat.add_assoc, hnone p hp] at hd
    cases hd

/-! ## Sound pieces of code -/

/-- Code is sound when its parts are, one after the other. -/
theorem Sound.append_within {modeA modeB : Mode} {middle : Nat} (ha : Sound modeA entry a middle)
    (hb : Sound modeB middle b stop) (hmodeA : modeA.Within mode 0 a.length (a ++ b).length)
    (hmodeB : modeB.Within mode a.length b.length (a ++ b).length) :
    Sound mode entry (a ++ b) stop := by
  obtain ⟨⟨left, hstart, hmiddle, hleft⟩, hunmarkedA⟩ := Sound.iff_labels.1 ha
  obtain ⟨⟨right, hmiddle', hstop, hright⟩, hunmarkedB⟩ := Sound.iff_labels.1 hb
  have hmeet : left a.length = right 0 := by rw [hmiddle, hmiddle']
  refine Sound.iff_labels.2 ⟨⟨left.glue a.length right, ?_, ?_, .append ?_ ?_ (Nat.zero_add _)⟩,
    fun h => ?_⟩
  · rw [Labels.glue_of_le hmeet (Nat.zero_le _), hstart]
  · rw [List.length_append, Labels.glue_add, hstop]
  · refine hleft.shift hmodeA (fun p hp => ?_) (by simp)
    rw [Nat.zero_add, Labels.glue_of_le hmeet hp]
  · exact hright.shift hmodeB (fun p _ => Labels.glue_add p) (by simp)
  · intro i hi
    rcases List.mem_append.1 hi with hi | hi
    · exact hunmarkedA (hmodeA.marked h) i hi
    · exact hunmarkedB (hmodeB.marked h) i hi

theorem Sound.append {middle : Nat} (hmode : mode.exits ≠ .last) (ha : Sound mode entry a middle)
    (hb : Sound mode middle b stop) : Sound mode entry (a ++ b) stop :=
  ha.append_within hb (mode.within_of_ne hmode ..) (mode.within_of_ne hmode ..)

theorem Sound.nil : Sound mode depth [] depth :=
  Sound.iff_labels.2 ⟨⟨.const depth, rfl, rfl, fun _ _ _ hi => nomatch hi⟩,
    fun _ _ hi => nomatch hi⟩

section single

variable {op : Op} {span : Span}

theorem Sound.of_fits (hbody : op.body? = none) (hmark : op.isLoopMark = false)
    (h : op.Fits mode ((Labels.const depth).glue 1 (.const stop)) 1 0 depth) :
    Sound mode depth [op.at span] stop := by
  refine Sound.iff_labels.2 ⟨⟨(Labels.const depth).glue 1 (.const stop), rfl, rfl,
    .single hbody fun d hd => ?_⟩, fun _ i hi => ?_⟩
  · cases hd
    exact h
  · cases List.mem_singleton.1 hi
    exact hmark

/-- An operation behind which the code goes on. -/
theorem Sound.single (hbody : op.body? = none) (htargets : op.targets 0 = [1])
    (hback : op.back = 0) (hneeds : op.needs ≤ depth)
    (hstop : depth - op.takes + op.gives = stop) : Sound mode depth [op.at span] stop := by
  have hexit : ∀ count, op ≠ .exit count := by
    rintro count rfl
    cases htargets
  have hmark : op.isLoopMark = false := by
    cases op <;> first | rfl | cases htargets
  refine .of_fits hbody hmark ⟨hneeds, by omega, fun q hq => ?_, fun count hop => ?_, ?_⟩
  · rw [htargets] at hq
    cases List.mem_singleton.1 hq
    exact ⟨Nat.le_refl _, by rw [hstop]; rfl⟩
  · exact absurd hop (hexit count)
  · rw [hmark]
    exact nofun

/-- An operation with which a body is left. -/
theorem Sound.exit (hmode : mode.exits ≠ .never) (count : Nat) :
    Sound mode (mode.base + count) [(Op.exit count).at span] mode.base := by
  refine .of_fits rfl rfl ⟨?_, by simp [Op.back], by simp [Op.targets], ?_, nofun⟩
  · simp [Op.needs, Op.takes]
  · rintro _ ⟨⟩
    refine ⟨rfl, ?_⟩
    revert hmode
    cases mode.exits <;> simp [Exits.allow]

/-- A loop control in a loop. -/
theorem Sound.mark (hop : op.isLoopMark = true) (hmode : mode.marked = true) :
    Sound mode mode.base [op.at span] mode.base := by
  obtain ⟨hbody, htargets, hneeds, hback⟩ := Op.of_isLoopMark hop
  refine Sound.iff_labels.2 ⟨⟨.const mode.base, rfl, rfl, .single hbody fun d hd => ?_⟩, ?_⟩
  · cases hd
    refine ⟨?_, ?_, ?_, ?_, fun _ => ⟨hmode, rfl⟩⟩
    · rw [Op.at, hneeds]
      exact Nat.zero_le _
    · rw [Op.at, hback]
      exact Nat.zero_le _
    · rw [Op.at, htargets]
      exact nofun
    · rintro count rfl
      cases hop
  · rw [hmode]
    exact nofun

theorem Sound.raise : Sound mode (depth + 1) [Op.raise.at span] depth :=
  .of_fits rfl rfl ⟨by simp [Op.needs, Op.takes], by simp [Op.back], by simp [Op.targets], nofun,
    nofun⟩

/-- A definition and its body. -/
theorem Sound.definition {shape : BodyShape} {body : Block} {ending : Nat}
    (hshape : op.body? = some shape) (hlength : body.length = shape.length)
    (hbody : Sound shape.mode shape.entry body ending) (hneeds : op.needs ≤ depth) :
    Sound mode depth (op.at span :: body) (depth - op.takes) := by
  have hinside : op.bodyLength = body.length := by rw [Op.bodyLength, hshape, hlength]; rfl
  let labels : Labels := (Labels.const depth).glue 1
    (Labels.unreached.glue body.length (.const (depth - op.takes)))
  have hfinish : labels (1 + body.length) = some (depth - op.takes) := by
    simp only [labels, Labels.glue_add]
    exact Labels.glue_self
  refine Sound.iff_labels.2 ⟨⟨labels, rfl, ?_, .definition hshape hlength hbody ?_ ?_⟩, ?_⟩
  · rw [List.length_cons, Nat.add_comm, hfinish]
  · intro d hd
    cases hd
    obtain ⟨htargets, hback, hgives⟩ := Op.of_body? hshape
    refine ⟨hneeds, by rw [Op.at, hback]; omega, fun q hq => ?_, ?_, ?_⟩
    · rw [Op.at, htargets, hinside, Nat.zero_add, List.mem_singleton] at hq
      rw [hq, hfinish, Op.at, hgives, List.length_cons]
      exact ⟨by omega, rfl⟩
    · rintro count rfl
      cases hshape
    · intro hmark
      rw [Op.at, Op.isLoopMark_of_body? hshape] at hmark
      cases hmark
  · intro p hp
    rw [Nat.zero_add]
    simp only [labels, Labels.glue_add]
    exact Labels.glue_of_lt hp
  · intro _ i hi
    rcases List.mem_cons.1 hi with rfl | hi
    · exact Op.isLoopMark_of_body? hshape
    · exact hbody.unmarked (Op.marked_of_body? hshape) i hi

end single

end sound
end ScriptVM
