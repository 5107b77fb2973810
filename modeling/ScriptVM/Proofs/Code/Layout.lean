import ScriptVM.Lowering.Statement
import ScriptVM.Proofs.Code.Control

/-!
# The layout of code

A definition encloses the instructions of the body behind it. Code is laid out when bodies nest,
methods stand in the bodies of classes and interfaces, arguments are loaded at the start of a body
that takes as many, and a jump stays in its body and outside of all others. Pieces of code are laid
out for what surrounds them, and so is what they are joined into: pieces behind each other, a jump
between pieces, a definition in front of its body, a loop with its marks turned into jumps.
-/
namespace ScriptVM

namespace Op

/-- How far an operation may jump, counted from behind it. -/
def jump? : Op → Option Int
  | .jump offset | .ifJump offset | .unlessJump offset => some offset
  | .jumpBack offset | .ifJumpBack offset | .unlessJumpBack offset => some (-offset)
  | _ => none

/-- How many arguments the body behind a definition takes. -/
def arity? : Op → Option Nat
  | .newFunction info | .newLambda info | .newMethod info => some info.arity
  | .newGenerator info => some info.receiverCount
  | _ => none

/-- What surrounds the code in the body behind a definition. -/
def inside : Op → Surroundings
  | .newClass _ | .newInterface _ => .inClassBody
  | _ => .inFunction

/-- Whether the operation installs a method on the object under construction. -/
def isMethod : Op → Bool
  | .newMethod _ => true
  | _ => false

theorem inLoop_inside (op : Op) : op.inside.inLoop = false := by
  cases op <;> rfl

theorem bodyLength_of_body? {op : Op} (h : op.body? = none) : op.bodyLength = 0 := by
  rw [bodyLength, h]
  rfl

theorem isMethod_of_body? {op : Op} (h : op.body? = none) : op.isMethod = false := by
  cases op <;> first | rfl | cases h

/-- What is enough to know of an operation that may stand anywhere: it has no body, waits for no
loop and loads no arguments. -/
structure Plain (op : Op) : Prop where
  body : op.body? = none
  mark : op.isLoopMark = false
  load : ∀ names, op ≠ .loadArguments names

theorem plain_of_jump? {op : Op} {offset : Int} (h : op.jump? = some offset) : op.Plain := by
  cases op <;> cases h <;> exact ⟨rfl, rfl, fun names hop => by cases hop⟩

end Op

/-- How many instructions the instruction at a position sets aside. -/
def bodyAt (code : Block) (p : Nat) : Nat := (code[p]?.map fun i => i.op.bodyLength).getD 0

/-- Whether a position is in the body of the definition at another one. -/
def Encloses (code : Block) (d p : Nat) : Prop := d < p ∧ p ≤ d + bodyAt code d

/-- The definition whose body a position is in, and in no body inside of that one. -/
def Innermost (code : Block) (d p : Nat) : Prop :=
  Encloses code d p ∧ ∀ e, Encloses code e p → e ≤ d

/-- Whether a position is a place in the code that is in no body, its end included. -/
def Open (code : Block) (p : Nat) : Prop := p ≤ code.length ∧ ∀ d, ¬ Encloses code d p

/-- Every body is in the code. -/
def Contained (code : Block) : Prop := ∀ d, d < code.length → d + 1 + bodyAt code d ≤ code.length

/-- A position is a place in each body that another position is in, its end included, and in none
of the other bodies. -/
def Reaches (code : Block) (p t : Nat) : Prop :=
  ∀ d, (Encloses code d p → d < t ∧ t ≤ d + bodyAt code d + 1) ∧
    (¬ Encloses code d p → ¬ Encloses code d t)

section positions

variable {code a b : Block} {i : Instruction} {d e p q t : Nat}

theorem getElem?_append_of_eq_some (h : a[p]? = some i) : (a ++ b)[p]? = some i :=
  (List.getElem?_append_left (List.getElem?_eq_some_iff.1 h).1).trans h

theorem bodyAt_of_getElem? (h : code[p]? = some i) : bodyAt code p = i.op.bodyLength := by
  simp [bodyAt, h]

theorem bodyAt_append_left (h : d < a.length) : bodyAt (a ++ b) d = bodyAt a d := by
  simp only [bodyAt, List.getElem?_append_left h]

@[simp] theorem bodyAt_append_add : bodyAt (a ++ b) (a.length + d) = bodyAt b d := by
  simp [bodyAt, List.getElem?_append_right]

@[simp] theorem bodyAt_cons_succ : bodyAt (i :: code) (d + 1) = bodyAt code d := rfl

@[simp] theorem bodyAt_cons_zero : bodyAt (i :: code) 0 = i.op.bodyLength := rfl

theorem encloses_cons_succ : Encloses (i :: code) (d + 1) (p + 1) ↔ Encloses code d p := by
  simp only [Encloses, bodyAt_cons_succ]
  omega

theorem encloses_append_left (h : p ≤ a.length) : Encloses (a ++ b) d p ↔ Encloses a d p := by
  unfold Encloses
  rcases Nat.lt_or_ge d a.length with hd | hd
  · rw [bodyAt_append_left hd]
  · omega

theorem encloses_append_add : Encloses (a ++ b) (a.length + d) (a.length + p) ↔ Encloses b d p := by
  simp only [Encloses, bodyAt_append_add]
  omega

/-- A body in some code does not extend over what follows. -/
theorem Contained.not_encloses (h : Contained a) (hd : d < a.length) :
    ¬ Encloses (a ++ b) d (a.length + p) := by
  rintro ⟨-, hle⟩
  rw [bodyAt_append_left hd] at hle
  have := h d hd
  omega

/-- What encloses a position behind some code is behind it as well. -/
theorem Contained.encloses_add (h : Contained a) (hd : Encloses (a ++ b) d (a.length + p)) :
    ∃ e, d = a.length + e ∧ Encloses b e p := by
  rcases Nat.lt_or_ge d a.length with hlt | hge
  · exact absurd hd (h.not_encloses hlt)
  · obtain ⟨e, rfl⟩ := Nat.exists_eq_add_of_le hge
    exact ⟨e, rfl, encloses_append_add.1 hd⟩

theorem contained_single (h : i.op.body? = none) : Contained [i] := by
  intro d hd
  obtain rfl : d = 0 := by simpa using hd
  simp [Op.bodyLength_of_body? h]

theorem Contained.append (ha : Contained a) (hb : Contained b) : Contained (a ++ b) := by
  intro d hd
  rw [List.length_append] at hd ⊢
  rcases Nat.lt_or_ge d a.length with hlt | hge
  · rw [bodyAt_append_left hlt]
    exact Nat.le_trans (ha d hlt) (Nat.le_add_right _ _)
  · obtain ⟨e, rfl⟩ := Nat.exists_eq_add_of_le hge
    rw [bodyAt_append_add]
    have := hb e (by omega)
    omega

theorem open_zero (code : Block) : Open code 0 :=
  ⟨Nat.zero_le _, fun _ h => Nat.not_lt_zero _ h.1⟩

theorem Contained.open_length (h : Contained code) : Open code code.length := by
  refine ⟨Nat.le_refl _, fun d hd => ?_⟩
  have := h d hd.1
  have := hd.2
  omega

theorem Open.append_left (h : Open a p) (b : Block) : Open (a ++ b) p :=
  ⟨Nat.le_trans h.1 (by simp), fun d hd => h.2 d ((encloses_append_left h.1).1 hd)⟩

theorem Contained.open_add (ha : Contained a) (h : Open b p) : Open (a ++ b) (a.length + p) := by
  refine ⟨by simpa using h.1, fun d hd => ?_⟩
  obtain ⟨e, -, he⟩ := ha.encloses_add hd
  exact h.2 e he

theorem Open.reaches (hp : Open code p) (ht : Open code t) : Reaches code p t :=
  fun d => ⟨fun h => absurd h (hp.2 d), fun _ => ht.2 d⟩

end positions

/-- An operation at a position of some code is in its place, for what surrounds the code and the
number of arguments that the code loads first. -/
structure Placed (s : Surroundings) (arity : Option Nat) (code : Block) (p : Nat) (op : Op) :
    Prop where
  contained : p + 1 + op.bodyLength ≤ code.length
  nested : ∀ d, Encloses code d p → p + op.bodyLength ≤ d + bodyAt code d
  mark : op.isLoopMark = true → s.inLoop = true ∧ Open code p
  method : op.isMethod = true → s.inClass = true ∧ Open code p ∨
    ∃ d c, code[d]? = some c ∧ c.op.inside.inClass = true ∧ Innermost code d p
  load : ∀ names, op = .loadArguments names → p = 0 ∧ arity = some names.length ∨
    ∃ d c, p = d + 1 ∧ code[d]? = some c ∧ c.op.arity? = some names.length ∧ Encloses code d p
  jump : ∀ offset, op.jump? = some offset →
    ∃ t : Nat, (t : Int) = p + 1 + offset ∧ t ≤ code.length ∧ Reaches code p t

/-- Every instruction of some code is in its place. -/
def Laid (s : Surroundings) (arity : Option Nat) (code : Block) : Prop :=
  ∀ p i, code[p]? = some i → Placed s arity code p i.op

section laid

variable {s : Surroundings} {arity : Option Nat} {code a b : Block} {op : Op} {span : Span}
  {p t : Nat} {offset : Int}

theorem Laid.contained (h : Laid s arity code) : Contained code := by
  intro d hd
  have hi := List.getElem?_eq_getElem hd
  rw [bodyAt_of_getElem? hi]
  exact (h d _ hi).contained

/-- An operation in no body that is no definition, no mark and no loading of arguments is in its
place when its jump, if it is one, goes to a place that is in no body either. -/
theorem Open.placed (h : Open code p) (hp : p < code.length) (hplain : op.Plain)
    (hjump : ∀ offset, op.jump? = some offset →
      ∃ t : Nat, (t : Int) = p + 1 + offset ∧ Open code t) : Placed s arity code p op where
  contained := by rw [Op.bodyLength_of_body? hplain.body]; omega
  nested := fun d hd => absurd hd (h.2 d)
  mark := fun hmark => by rw [hplain.mark] at hmark; cases hmark
  method := fun hmethod => by rw [Op.isMethod_of_body? hplain.body] at hmethod; cases hmethod
  load := fun names hop => absurd hop (hplain.load names)
  jump := fun offset hoffset => by
    obtain ⟨t, ht, hopen⟩ := hjump offset hoffset
    exact ⟨t, ht, hopen.1, h.reaches hopen⟩

/-- More code behind changes nothing. -/
theorem Placed.append_left (h : Placed s arity a p op) (b : Block) :
    Placed s arity (a ++ b) p op := by
  have hp : p < a.length := by have := h.contained; omega
  have hlength : a.length ≤ (a ++ b).length := by simp
  refine ⟨Nat.le_trans h.contained hlength, fun d hd => ?_, fun hmark => ?_, fun hmethod => ?_,
    fun names hop => ?_, fun offset hoffset => ?_⟩
  · rw [encloses_append_left (Nat.le_of_lt hp)] at hd
    rw [bodyAt_append_left (Nat.lt_trans hd.1 hp)]
    exact h.nested d hd
  · exact ⟨(h.mark hmark).1, (h.mark hmark).2.append_left b⟩
  · rcases h.method hmethod with ⟨hclass, hopen⟩ | ⟨d, c, hc, hclass, hd, hinner⟩
    · exact .inl ⟨hclass, hopen.append_left b⟩
    · refine .inr ⟨d, c, getElem?_append_of_eq_some hc, hclass, ?_, fun e he => ?_⟩
      · exact (encloses_append_left (Nat.le_of_lt hp)).2 hd
      · exact hinner e ((encloses_append_left (Nat.le_of_lt hp)).1 he)
  · rcases h.load names hop with hfirst | ⟨d, c, hd, hc, harity, hencloses⟩
    · exact .inl hfirst
    · exact .inr ⟨d, c, hd, getElem?_append_of_eq_some hc, harity,
        (encloses_append_left (Nat.le_of_lt hp)).2 hencloses⟩
  · obtain ⟨t, ht, hle, hreaches⟩ := h.jump offset hoffset
    refine ⟨t, ht, Nat.le_trans hle hlength, fun d => ?_⟩
    rw [encloses_append_left (Nat.le_of_lt hp), encloses_append_left hle]
    refine ⟨fun hd => ?_, (hreaches d).2⟩
    rw [bodyAt_append_left (Nat.lt_trans hd.1 hp)]
    exact (hreaches d).1 hd

/-- More code in front changes nothing but the position. -/
theorem Placed.append_right (h : Placed s none b p op) (ha : Contained a) :
    Placed s arity (a ++ b) (a.length + p) op := by
  refine ⟨?_, fun d hd => ?_, fun hmark => ?_, fun hmethod => ?_, fun names hop => ?_,
    fun offset hoffset => ?_⟩
  · have := h.contained
    rw [List.length_append]
    omega
  · obtain ⟨e, rfl, he⟩ := ha.encloses_add hd
    have := h.nested e he
    rw [bodyAt_append_add]
    omega
  · exact ⟨(h.mark hmark).1, ha.open_add (h.mark hmark).2⟩
  · rcases h.method hmethod with ⟨hclass, hopen⟩ | ⟨d, c, hc, hclass, hd, hinner⟩
    · exact .inl ⟨hclass, ha.open_add hopen⟩
    · refine .inr ⟨a.length + d, c, ?_, hclass, encloses_append_add.2 hd, fun e he => ?_⟩
      · rwa [List.getElem?_append_right (Nat.le_add_right _ _), Nat.add_sub_cancel_left]
      · obtain ⟨f, rfl, hf⟩ := ha.encloses_add he
        exact Nat.add_le_add_left (hinner f hf) _
  · rcases h.load names hop with ⟨-, hnone⟩ | ⟨d, c, rfl, hc, harity, hencloses⟩
    · cases hnone
    · refine .inr ⟨a.length + d, c, (Nat.add_assoc ..).symm, ?_, harity,
        encloses_append_add.2 hencloses⟩
      rwa [List.getElem?_append_right (Nat.le_add_right _ _), Nat.add_sub_cancel_left]
  · obtain ⟨t, ht, hle, hreaches⟩ := h.jump offset hoffset
    refine ⟨a.length + t, by push_cast; omega, by simpa using hle, fun d => ?_⟩
    rcases Nat.lt_or_ge d a.length with hlt | hge
    · exact ⟨fun hd => absurd hd (ha.not_encloses hlt), fun _ => ha.not_encloses hlt⟩
    · obtain ⟨e, rfl⟩ := Nat.exists_eq_add_of_le hge
      rw [encloses_append_add, encloses_append_add, bodyAt_append_add]
      refine ⟨fun he => ?_, (hreaches e).2⟩
      have := (hreaches e).1 he
      omega

theorem Laid.nil : Laid s arity [] := by
  intro p i hi
  cases hi

theorem Laid.append (ha : Laid s arity a) (hb : Laid s none b) : Laid s arity (a ++ b) := by
  intro p i hi
  rcases Nat.lt_or_ge p a.length with hlt | hge
  · rw [List.getElem?_append_left hlt] at hi
    exact (ha p i hi).append_left b
  · obtain ⟨q, rfl⟩ := Nat.exists_eq_add_of_le hge
    rw [List.getElem?_append_right hge, Nat.add_sub_cancel_left] at hi
    exact (hb q i hi).append_right ha.contained

/-- Code that is laid out for less is laid out for more. -/
theorem Laid.mono (h : Laid s arity code) {s' : Surroundings}
    (hloop : s.inLoop = true → s'.inLoop = true) (hclass : s.inClass = true → s'.inClass = true) :
    Laid s' arity code := by
  intro p i hi
  have hplaced := h p i hi
  exact { hplaced with
    mark := fun hmark => (hplaced.mark hmark).imp_left hloop
    method := fun hmethod => (hplaced.method hmethod).imp_left (And.imp_left hclass) }

/-- What is laid out outside of loops and classes is laid out anywhere. -/
theorem Laid.anywhere (h : Laid .inFunction arity code) : Laid s arity code :=
  h.mono (fun hloop => absurd hloop Bool.false_ne_true)
    fun hclass => absurd hclass Bool.false_ne_true

/-- A single operation that may stand anywhere. -/
theorem Laid.single (hplain : op.Plain) (hjump : op.jump? = none) :
    Laid s arity [op.at span] := by
  intro p i hi
  obtain ⟨hp, rfl⟩ := List.getElem?_eq_some_iff.1 hi
  obtain rfl : p = 0 := by simpa using hp
  refine (open_zero _).placed hp hplain fun offset hoffset => ?_
  cases hjump.symm.trans hoffset

/-- The mark of a loop control. -/
theorem Laid.mark (hmark : op.isLoopMark = true) (hloop : s.inLoop = true) :
    Laid s arity [op.at span] := by
  intro p i hi
  obtain ⟨hp, rfl⟩ := List.getElem?_eq_some_iff.1 hi
  obtain rfl : p = 0 := by simpa using hp
  refine ⟨?_, fun d hd => absurd hd.1 (Nat.not_lt_zero d), fun _ => ⟨hloop, open_zero _⟩, ?_, ?_, ?_⟩
  all_goals cases op <;> cases hmark
  all_goals first | exact Nat.le_refl 1 | (intros; contradiction)

/-- The operation that loads the arguments of a body. -/
theorem Laid.load (names : List String) :
    Laid s (some names.length) [(Op.loadArguments names).at span] := by
  intro p i hi
  obtain ⟨hp, rfl⟩ := List.getElem?_eq_some_iff.1 hi
  obtain rfl : p = 0 := by simpa using hp
  exact {
    contained := Nat.le_refl 1
    nested := fun d hd => absurd hd.1 (Nat.not_lt_zero d)
    mark := fun h => by cases h
    method := fun h => by cases h
    load := fun names' h => by
      cases h
      exact .inl ⟨rfl, rfl⟩
    jump := fun offset h => by cases h }

/-- A jump between a piece of code and operations that are in their places behind it. -/
theorem Laid.jump_of_placed (ha : Laid s none a) (hjump : op.jump? = some offset)
    (ht : (t : Int) = a.length + 1 + offset) (hopen : Open (a ++ op.at span :: b) t)
    (hb : ∀ q i, b[q]? = some i →
      Placed s none (a ++ op.at span :: b) (a.length + 1 + q) i.op) :
    Laid s none (a ++ op.at span :: b) := by
  intro p i hi
  rcases Nat.lt_trichotomy p a.length with hlt | rfl | hgt
  · rw [List.getElem?_append_left hlt] at hi
    exact (ha p i hi).append_left _
  · rw [List.getElem?_append_right (Nat.le_refl _), Nat.sub_self] at hi
    cases hi
    have hhere := (ha.contained.open_length).append_left (op.at span :: b)
    refine hhere.placed (by simp) (Op.plain_of_jump? hjump) fun offset' hoffset' => ⟨t, ?_, hopen⟩
    cases hjump.symm.trans hoffset'
    exact ht
  · obtain ⟨q, rfl⟩ := Nat.exists_eq_add_of_lt hgt
    rw [List.getElem?_append_right (by omega), Nat.add_assoc, Nat.add_sub_cancel_left] at hi
    have hplaced := hb q i hi
    rwa [Nat.add_right_comm] at hplaced

/-- Code up to an operation without a body. -/
theorem Laid.contained_append (ha : Laid s arity a) (hbody : op.body? = none) :
    Contained (a ++ [op.at span]) :=
  ha.contained.append (contained_single hbody)

/-- What is in its place behind some code and an operation. -/
theorem Placed.append_right_op (h : Placed s none b p op) {first : Op}
    (ha : Contained (a ++ [first.at span])) :
    Placed s arity (a ++ first.at span :: b) (a.length + 1 + p) op := by
  have hplaced : Placed s arity ((a ++ [first.at span]) ++ b) _ op := h.append_right ha
  rwa [List.append_assoc, List.length_append] at hplaced

/-- A place behind some code and an operation. -/
theorem Contained.open_add_op {first : Op} (ha : Contained (a ++ [first.at span]))
    (h : Open b p) : Open (a ++ first.at span :: b) (a.length + 1 + p) := by
  have hopen := ha.open_add h
  rwa [List.append_assoc, List.length_append] at hopen

/-- A jump between two pieces of code, to a place that is in no body. -/
theorem Laid.jump (ha : Laid s none a) (hb : Laid s none b) (hjump : op.jump? = some offset)
    (ht : (t : Int) = a.length + 1 + offset) (hopen : Open (a ++ op.at span :: b) t) :
    Laid s none (a ++ op.at span :: b) :=
  ha.jump_of_placed hjump ht hopen fun q i hi =>
    (hb q i hi).append_right_op (ha.contained_append (Op.plain_of_jump? hjump).body)

/-- A definition says how long its body is. -/
theorem bodyAt_definition {shape : BodyShape} (hshape : op.body? = some shape)
    (hlength : code.length = shape.length) : bodyAt (op.at span :: code) 0 = code.length := by
  rw [bodyAt_cons_zero, hlength]
  change op.bodyLength = _
  rw [Op.bodyLength, hshape]
  rfl

/-- The operation of a definition is in its place in front of the body. -/
theorem Placed.definition {shape : BodyShape} (hshape : op.body? = some shape)
    (hlength : code.length = shape.length) (hmethod : op.isMethod = true → s.inClass = true) :
    Placed s none (op.at span :: code) 0 op := by
  refine ⟨?_, fun d hd => absurd hd.1 (Nat.not_lt_zero d), ?_,
    fun h => .inl ⟨hmethod h, open_zero _⟩, ?_, ?_⟩
  · have hset : bodyAt (op.at span :: code) 0 = code.length := bodyAt_definition hshape hlength
    rw [bodyAt_cons_zero] at hset
    change op.bodyLength = _ at hset
    rw [hset, List.length_cons]
    omega
  · intro hmark
    rw [Op.isLoopMark_of_body? hshape] at hmark
    cases hmark
  · rintro names hop
    cases op <;> cases hop
    cases hshape
  · intro offset hoffset
    exact absurd ((Op.plain_of_jump? hoffset).body.symm.trans hshape) (by simp)

/-- What is in its place in the body of a definition is in its place behind the definition. -/
theorem Placed.enclosed {q : Nat} {inner : Op}
    (h : Placed op.inside op.arity? code q inner)
    (hset : bodyAt (op.at span :: code) 0 = code.length) :
    Placed s none (op.at span :: code) (q + 1) inner := by
  have hcontained := h.contained
  have hhere : Encloses (op.at span :: code) 0 (q + 1) := ⟨by omega, by omega⟩
  refine ⟨?_, fun d hd => ?_, fun hmark => ?_, fun hm => .inr ?_, fun names hop => .inr ?_,
    fun offset hoffset => ?_⟩
  · rw [List.length_cons]
    omega
  · cases d with
    | zero => omega
    | succ d =>
      have hnested := h.nested d (encloses_cons_succ.1 hd)
      rw [bodyAt_cons_succ]
      omega
  · -- a loop around the definition is none of the body's
    have hloop := (h.mark hmark).1
    rw [op.inLoop_inside] at hloop
    cases hloop
  · rcases h.method hm with ⟨hclass, hopen⟩ | ⟨d, c, hc, hclass, hd, hinner⟩
    · refine ⟨0, op.at span, rfl, hclass, hhere, fun e he => ?_⟩
      cases e with
      | zero => exact Nat.le_refl 0
      | succ e => exact absurd (encloses_cons_succ.1 he) (hopen.2 e)
    · refine ⟨d + 1, c, hc, hclass, encloses_cons_succ.2 hd, fun e he => ?_⟩
      cases e with
      | zero => exact Nat.zero_le _
      | succ e => exact Nat.succ_le_succ (hinner e (encloses_cons_succ.1 he))
  · rcases h.load names hop with ⟨rfl, harity⟩ | ⟨d, c, rfl, hc, harity, hencloses⟩
    · exact ⟨0, op.at span, rfl, rfl, harity, hhere⟩
    · exact ⟨d + 1, c, rfl, hc, harity, encloses_cons_succ.2 hencloses⟩
  · obtain ⟨t, ht, hle, hreaches⟩ := h.jump offset hoffset
    refine ⟨t + 1, by push_cast; omega, by simpa using hle, fun d => ?_⟩
    cases d with
    | zero => exact ⟨fun _ => ⟨by omega, by omega⟩, fun hnot => absurd hhere hnot⟩
    | succ d =>
      rw [encloses_cons_succ, encloses_cons_succ, bodyAt_cons_succ]
      refine ⟨fun hd => ?_, (hreaches d).2⟩
      have hinside := (hreaches d).1 hd
      omega

/-- A definition in front of its body. -/
theorem Laid.definition {shape : BodyShape} (hshape : op.body? = some shape)
    (hlength : code.length = shape.length) (hbody : Laid op.inside op.arity? code)
    (hmethod : op.isMethod = true → s.inClass = true) : Laid s none (op.at span :: code) := by
  intro p i hi
  cases p with
  | zero =>
    cases hi
    exact .definition hshape hlength hmethod
  | succ q => exact (hbody q i hi).enclosed (bodyAt_definition hshape hlength)

/-- The operation in front of the pieces of a choice. -/
theorem jump?_ite (inverted : Bool) (skip : Nat) :
    (if inverted then Op.unlessJump skip else Op.ifJump skip).jump? = some (skip : Int) := by
  cases inverted <;> rfl

/-- A choice between two pieces of code. -/
theorem Laid.choice {inverted : Bool} {condition chosen alternative : Block}
    (hcondition : Laid s none condition) (hchosen : Laid s none chosen)
    (halternative : Laid s none alternative) :
    Laid s none (choiceCode inverted condition chosen alternative span) := by
  have hleave : Contained (chosen ++ [(Op.jump alternative.length).at span]) :=
    hchosen.contained_append rfl
  have hrest : Contained (chosen ++ (Op.jump alternative.length).at span :: alternative) := by
    simpa using hleave.append halternative.contained
  have hbranches : Laid s none (chosen ++ (Op.jump alternative.length).at span :: alternative) :=
    hchosen.jump halternative rfl (by simp; omega) hrest.open_length
  have htest := jump?_ite inverted (chosen.length + 1)
  have hplain := Op.plain_of_jump? htest
  have h : Laid s none (condition ++ Op.at _ span :: _) :=
    hcondition.jump hbranches htest (by push_cast; omega)
      ((hcondition.contained_append hplain.body).open_add_op
        (hleave.open_add_op (open_zero alternative)))
  simpa [choiceCode] using h

/-- A loop control lands in front of the body of its loop, behind it or behind the loop. -/
theorem LoopLayout.jump?_resolve (layout : LoopLayout) (position : Nat)
    (hposition : position < layout.bodyLength) (hop : op.isLoopMark = true) :
    ∃ offset, (layout.resolve position op).jump? = some offset ∧
      (position + 1 + offset = 0 ∨ position + 1 + offset = layout.bodyLength ∨
        position + 1 + offset = layout.bodyLength + layout.tail) := by
  cases op <;> cases hop
  · exact ⟨_, rfl, .inl (by omega)⟩
  · exact ⟨_, rfl, .inr (.inl (by omega))⟩
  · simp only [LoopLayout.resolve, LoopLayout.tail]
    cases layout.testsAfter with
    | true => exact ⟨_, rfl, .inr (.inr (by simp; omega))⟩
    | false => exact ⟨_, rfl, .inr (.inr (by simp; omega))⟩

/-- Turning marks into jumps leaves every body as long as it is. -/
theorem LoopLayout.bodyLength_resolve (layout : LoopLayout) (position : Nat) (op : Op) :
    (layout.resolve position op).bodyLength = op.bodyLength := by
  cases op <;> first | rfl | skip
  simp only [LoopLayout.resolve]
  split <;> rfl

/-- Code around a body without marks of its own, once the marks of the body have become jumps. -/
theorem LoopLayout.getElem?_around (layout : LoopLayout) (body : Block)
    (ha : ∀ i ∈ a, i.op.isLoopMark = false) (hb : ∀ i ∈ b, i.op.isLoopMark = false) (p : Nat) :
    (a ++ (layout.resolveFrom 0 body ++ b))[p]? =
      (a ++ (body ++ b))[p]?.map
        fun i => { i with op := layout.resolve (p - a.length) i.op } := by
  have hkeep : ∀ {part : Block} (_ : ∀ i ∈ part, i.op.isLoopMark = false) (n q : Nat),
      part[n]? = part[n]?.map fun i => { i with op := layout.resolve q i.op } := by
    intro part hpart n q
    cases hn : part[n]? with
    | none => rfl
    | some i =>
      rw [Option.map_some, layout.resolve_of_unmarked (hpart i (List.mem_of_getElem? hn))]
  rcases Nat.lt_or_ge p a.length with hlt | hge
  · rw [List.getElem?_append_left hlt, List.getElem?_append_left hlt]
    exact hkeep ha p _
  · obtain ⟨q, rfl⟩ := Nat.exists_eq_add_of_le hge
    rw [List.getElem?_append_right hge, List.getElem?_append_right hge, Nat.add_sub_cancel_left]
    rcases Nat.lt_or_ge q body.length with hlt | hge
    · rw [List.getElem?_append_left (by simpa using hlt), List.getElem?_append_left hlt,
        layout.getElem?_resolveFrom, Nat.zero_add]
    · rw [List.getElem?_append_right (by simpa using hge), List.getElem?_append_right hge,
        length_resolveFrom]
      exact hkeep hb _ _

/-- A mark can only stand in the body. -/
theorem between_of_mark {body : Block} {i : Instruction}
    (ha : ∀ i ∈ a, i.op.isLoopMark = false) (hb : ∀ i ∈ b, i.op.isLoopMark = false)
    (hi : (a ++ (body ++ b))[p]? = some i) (hmark : i.op.isLoopMark = true) :
    a.length ≤ p ∧ p < a.length + body.length := by
  constructor
  · refine Nat.le_of_not_lt fun hlt => ?_
    rw [List.getElem?_append_left hlt] at hi
    rw [ha i (List.mem_of_getElem? hi)] at hmark
    cases hmark
  · refine Nat.lt_of_not_le fun hge => ?_
    rw [List.getElem?_append_right (by omega), List.getElem?_append_right (by omega)] at hi
    rw [hb i (List.mem_of_getElem? hi)] at hmark
    cases hmark

section unmarked

variable {code' : Block} (hbodies : bodyAt code' = bodyAt code)
  (hlength : code'.length = code.length)
  (hstays : ∀ (d : Nat) (c : Instruction), code[d]? = some c → c.op.isLoopMark = false →
    code'[d]? = some c)
include hbodies

theorem encloses_eq : Encloses code' = Encloses code := by
  unfold Encloses
  rw [hbodies]

include hlength

theorem Open.of_bodyAt (h : Open code p) : Open code' p := by
  unfold Open
  rw [encloses_eq hbodies, hlength]
  exact h

include hstays

/-- What is no mark stays in its place when marks are turned into jumps. -/
theorem Placed.unmark (h : Placed s.insideLoop arity code p op) (hop : op.isLoopMark = false) :
    Placed s arity code' p op := by
  refine ⟨hlength ▸ h.contained, fun d hd => ?_, fun hmark => ?_, fun hmethod => ?_,
    fun names hload => ?_, fun offset hoffset => ?_⟩
  · rw [encloses_eq hbodies] at hd
    rw [hbodies]
    exact h.nested d hd
  · rw [hop] at hmark
    cases hmark
  · rcases h.method hmethod with ⟨hclass, hp⟩ | ⟨d, c, hc, hclass, hinner⟩
    · exact .inl ⟨hclass, hp.of_bodyAt hbodies hlength⟩
    · refine .inr ⟨d, c, hstays d c hc ?_, hclass, ?_⟩
      · cases hdef : c.op <;> first | rfl | (rw [hdef] at hclass; cases hclass)
      · unfold Innermost
        rw [encloses_eq hbodies]
        exact hinner
  · rcases h.load names hload with hfirst | ⟨d, c, hd, hc, harity, hinside⟩
    · exact .inl hfirst
    · refine .inr ⟨d, c, hd, hstays d c hc ?_, harity, by rwa [encloses_eq hbodies]⟩
      cases hdef : c.op <;> first | rfl | (rw [hdef] at harity; cases harity)
  · obtain ⟨t, ht, hle, hreaches⟩ := h.jump offset hoffset
    refine ⟨t, ht, hlength ▸ hle, ?_⟩
    unfold Reaches
    rw [encloses_eq hbodies, hbodies]
    exact hreaches

end unmarked

/-- The marks of a loop become jumps to places around its body. -/
theorem Laid.resolve {body : Block} {layout : LoopLayout}
    (h : Laid s.insideLoop none (a ++ (body ++ b))) (hbody : layout.bodyLength = body.length)
    (htail : layout.tail = b.length) (ha : ∀ i ∈ a, i.op.isLoopMark = false)
    (hb : ∀ i ∈ b, i.op.isLoopMark = false)
    (hstart : Open (a ++ (body ++ b)) a.length)
    (hend : Open (a ++ (body ++ b)) (a.length + body.length)) :
    Laid s none (a ++ (layout.resolveFrom 0 body ++ b)) := by
  have hget := layout.getElem?_around body ha hb
  have hlength : (a ++ (layout.resolveFrom 0 body ++ b)).length = (a ++ (body ++ b)).length := by
    simp
  have hbodies : bodyAt (a ++ (layout.resolveFrom 0 body ++ b)) = bodyAt (a ++ (body ++ b)) := by
    funext p
    simp only [bodyAt, hget, Option.map_map]
    congr 2
    funext i
    exact layout.bodyLength_resolve _ i.op
  intro p i' hi'
  rw [hget] at hi'
  obtain ⟨i, hi, rfl⟩ := Option.map_eq_some_iff.1 hi'
  have hplaced := h p i hi
  cases hmark : i.op.isLoopMark with
  | false =>
    have hstay : ({ i with op := layout.resolve (p - a.length) i.op } : Instruction).op = i.op :=
      layout.resolve_of_unmarked hmark _
    rw [hstay]
    refine hplaced.unmark hbodies hlength (fun d c hc hop => ?_) hmark
    rw [hget, hc, Option.map_some, layout.resolve_of_unmarked hop]
  | true =>
    have hp := between_of_mark ha hb hi hmark
    obtain ⟨offset, hoffset, htarget⟩ :=
      layout.jump?_resolve (p - a.length) (by omega) hmark
    have hopen : ∀ t, Open (a ++ (body ++ b)) t →
        Open (a ++ (layout.resolveFrom 0 body ++ b)) t :=
      fun t ht => ht.of_bodyAt hbodies hlength
    have hcontained := hplaced.contained
    refine (hopen p (hplaced.mark hmark).2).placed (by omega) (Op.plain_of_jump? hoffset) ?_
    intro offset' hoffset'
    cases hoffset.symm.trans hoffset'
    rcases htarget with htarget | htarget | htarget
    · exact ⟨a.length, by omega, hopen _ hstart⟩
    · exact ⟨a.length + body.length, by push_cast; omega, hopen _ hend⟩
    · refine ⟨a.length + (body.length + b.length), by push_cast; omega, hopen _ ?_⟩
      have hfinish := h.contained.open_length
      rwa [List.length_append, List.length_append] at hfinish

/-- Code that is laid out for no loop has no marks. -/
theorem Laid.unmarked (h : Laid s arity code) (hloop : s.inLoop = false) :
    ∀ i ∈ code, i.op.isLoopMark = false := by
  intro i hi
  obtain ⟨p, hp⟩ := List.getElem?_of_mem hi
  cases hmark : i.op.isLoopMark with
  | false => rfl
  | true => exact absurd ((h p i hp).mark hmark).1 (by simp [hloop])

/-- A test that may leave, a body and the jump back to the test. -/
theorem Laid.rounds {test back : Op} {condition body : Block} (hcondition : Laid s none condition)
    (hbody : Laid s none body) (htest : test.jump? = some ((body.length + 1 : Nat) : Int))
    (hback : back.jump? = some (-((condition.length + body.length + 2 : Nat) : Int))) :
    Laid s none (condition ++ test.at span :: (body ++ [back.at span])) := by
  have hfront : Contained (condition ++ [test.at span]) :=
    hcondition.contained_append (Op.plain_of_jump? htest).body
  have hrest : Contained (body ++ [back.at span]) :=
    hbody.contained_append (Op.plain_of_jump? hback).body
  have hend := hfront.open_add_op hrest.open_length
  refine hcondition.jump_of_placed htest (by simp) hend fun q i hi => ?_
  rcases Nat.lt_or_ge q body.length with hlt | hge
  · rw [List.getElem?_append_left hlt] at hi
    exact ((hbody q i hi).append_left _).append_right_op hfront
  · rw [List.getElem?_append_right hge] at hi
    obtain ⟨hq, rfl⟩ := List.getElem?_eq_some_iff.1 hi
    obtain rfl : q = body.length := by
      rw [List.length_singleton] at hq
      omega
    have hlast := hfront.open_add_op (hbody.contained.open_length.append_left [back.at span])
    simp only [Nat.sub_self, List.getElem_cons_zero]
    refine hlast.placed (by simp; omega) (Op.plain_of_jump? hback) fun offset hoffset => ?_
    cases hback.symm.trans hoffset
    exact ⟨0, by push_cast; omega, open_zero _⟩

/-- A loop that tests first. -/
theorem Laid.testFirst {inverted : Bool} {condition body : Block}
    (hcondition : Laid .inFunction none condition) (hbody : Laid s.insideLoop none body) :
    Laid s none (testFirstCode inverted condition body span) := by
  have htest := jump?_ite inverted (body.length + 1)
  simp only [testFirstCode]
  generalize (if inverted then Op.unlessJump (body.length + 1)
    else Op.ifJump (body.length + 1)) = test at htest ⊢
  have hplain := Op.plain_of_jump? htest
  have hfront : Contained (condition ++ [test.at span]) := hcondition.contained_append hplain.body
  have hrounds : Laid s.insideLoop none (condition ++ test.at span ::
      (body ++ [(Op.jumpBack (condition.length + body.length + 2)).at span])) :=
    hcondition.anywhere.rounds hbody htest rfl
  rw [List.append_assoc]
  refine Laid.resolve (by simpa using hrounds) rfl rfl (fun i hi => ?_) (fun i hi => ?_)
    (hfront.open_length.append_left _)
    (hfront.open_add (hbody.contained.open_length.append_left _))
  · rcases List.mem_append.1 hi with hi | hi
    · exact hcondition.unmarked rfl i hi
    · rw [List.mem_singleton.1 hi]
      exact hplain.mark
  · rw [List.mem_singleton.1 hi]
    rfl

/-- A loop that tests last. -/
theorem Laid.testLast {condition body : Block}
    (hcondition : Laid .inFunction none condition) (hbody : Laid s.insideLoop none body) :
    Laid s none (testLastCode body condition span) := by
  have hround : Laid s.insideLoop none (body ++ condition) :=
    hbody.append hcondition.anywhere
  have hwhole : Laid s.insideLoop none
      ((body ++ condition) ++ [(Op.unlessJumpBack (body.length + condition.length + 1)).at span]) :=
    hround.jump .nil rfl (by rw [List.length_append]; omega) (open_zero _)
  unfold testLastCode
  rw [List.append_assoc]
  refine Laid.resolve (a := []) (by simpa using hwhole) rfl (by simp [LoopLayout.tail])
    (fun i hi => by cases hi) (fun i hi => ?_) (open_zero _) ?_
  · rcases List.mem_append.1 hi with hi | hi
    · exact hcondition.unmarked rfl i hi
    · rw [List.mem_singleton.1 hi]
      rfl
  · simpa using hbody.contained.open_length.append_left _

end laid
end ScriptVM
