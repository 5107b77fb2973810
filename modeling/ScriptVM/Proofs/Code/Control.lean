import ScriptVM.Lowering.Statement
import ScriptVM.Proofs.Code.Label

/-!
# Labelled choices and loops

Jumps lead from one piece of code to another, so a choice and a loop are labelled as a whole.
-/
namespace ScriptVM

section control

variable {mode : Mode} {depth stop : Nat} {labels : Labels} {length offset : Nat} {span : Span}

/-! ## Jumps -/

theorem Labels.Fit.jump {skip : Nat} (hlabel : labels offset = some depth)
    (hlength : offset + 1 + skip ≤ length)
    (htarget : labels (offset + 1 + skip) = some depth) :
    labels.Fit mode length offset [(Op.jump skip).at span] := by
  refine .single rfl fun d hd => ?_
  cases hlabel.symm.trans hd
  refine ⟨Nat.zero_le _, Nat.zero_le _, fun q hq => ?_, nofun, nofun⟩
  cases List.mem_singleton.1 hq
  exact ⟨hlength, htarget⟩

theorem Labels.Fit.jumpBack {skip : Nat} (hlabel : labels offset = some depth)
    (hskip : skip ≤ offset + 1) (hlength : offset + 1 - skip ≤ length)
    (htarget : labels (offset + 1 - skip) = some depth) :
    labels.Fit mode length offset [(Op.jumpBack skip).at span] := by
  refine .single rfl fun d hd => ?_
  cases hlabel.symm.trans hd
  refine ⟨Nat.zero_le _, hskip, fun q hq => ?_, nofun, nofun⟩
  cases List.mem_singleton.1 hq
  exact ⟨hlength, htarget⟩

/-- A jump forward on a condition. -/
theorem Labels.Fit.branch {inverted : Bool} {skip : Nat} (hlabel : labels offset = some (depth + 1))
    (hlength : offset + 1 + skip ≤ length) (hnext : labels (offset + 1) = some depth)
    (htarget : labels (offset + 1 + skip) = some depth) :
    labels.Fit mode length offset
      [(if inverted then Op.unlessJump skip else Op.ifJump skip).at span] := by
  refine .single (by cases inverted <;> rfl) fun d hd => ?_
  cases hlabel.symm.trans hd
  have hgoes : ∀ q ∈ [offset + 1, offset + 1 + skip], q ≤ length ∧ labels q = some depth := by
    intro q hq
    rcases List.mem_cons.1 hq with rfl | hq
    · exact ⟨by omega, hnext⟩
    · cases List.mem_singleton.1 hq
      exact ⟨hlength, htarget⟩
  cases inverted <;> exact ⟨Nat.le_add_left 1 depth, Nat.zero_le _, hgoes, nofun, nofun⟩

/-- A jump back on a condition. -/
theorem Labels.Fit.branchBack {skip : Nat} (hlabel : labels offset = some (depth + 1))
    (hskip : skip ≤ offset + 1) (hlength : offset + 1 ≤ length)
    (hnext : labels (offset + 1) = some depth)
    (htarget : labels (offset + 1 - skip) = some depth) :
    labels.Fit mode length offset [(Op.unlessJumpBack skip).at span] := by
  refine .single rfl fun d hd => ?_
  cases hlabel.symm.trans hd
  refine ⟨Nat.le_add_left 1 depth, hskip, fun q hq => ?_, nofun, nofun⟩
  rcases List.mem_cons.1 hq with rfl | hq
  · exact ⟨hlength, hnext⟩
  · cases List.mem_singleton.1 hq
    exact ⟨by omega, htarget⟩

/-! ## Choices -/

theorem Sound.choice {inverted : Bool} {condition chosen alternative : Block}
    (hmode : mode.exits ≠ .last) (hcondition : Sound mode depth condition (depth + 1))
    (hchosen : Sound mode depth chosen stop) (halternative : Sound mode depth alternative stop) :
    Sound mode depth (choiceCode inverted condition chosen alternative span) stop := by
  obtain ⟨⟨l₁, hstart₁, hstop₁, hfit₁⟩, hunmarked₁⟩ := Sound.iff_labels.1 hcondition
  obtain ⟨⟨l₂, hstart₂, hstop₂, hfit₂⟩, hunmarked₂⟩ := Sound.iff_labels.1 hchosen
  obtain ⟨⟨l₃, hstart₃, hstop₃, hfit₃⟩, hunmarked₃⟩ := Sound.iff_labels.1 halternative
  let labels := l₁.glue (condition.length + 1) (l₂.glue (chosen.length + 1) l₃)
  have hat₁ : ∀ p ≤ condition.length, labels (0 + p) = l₁ p := by
    intro p hp
    rw [Nat.zero_add]
    exact Labels.glue_of_lt (by omega)
  have hat₂ : ∀ p ≤ chosen.length, labels (condition.length + 1 + p) = l₂ p := by
    intro p hp
    exact (Labels.glue_add p).trans (Labels.glue_of_lt (by omega))
  have hat₃ : ∀ p, labels (condition.length + 1 + (chosen.length + 1) + p) = l₃ p := by
    intro p
    rw [Nat.add_assoc]
    exact (Labels.glue_add _).trans (Labels.glue_add p)
  have hstart : labels 0 = some depth := (hat₁ 0 (Nat.zero_le _)).trans hstart₁
  have hbranch : labels condition.length = some (depth + 1) := by
    rw [← hstop₁, ← hat₁ condition.length (Nat.le_refl _), Nat.zero_add]
  have hchosen : labels (condition.length + 1) = some depth :=
    (hat₂ 0 (Nat.zero_le _)).trans hstart₂
  have hjump : labels (condition.length + 1 + chosen.length) = some stop :=
    (hat₂ _ (Nat.le_refl _)).trans hstop₂
  have halternative : labels (condition.length + 1 + (chosen.length + 1)) = some depth :=
    (hat₃ 0).trans hstart₃
  have hend := (hat₃ alternative.length).trans hstop₃
  have hlength : (choiceCode inverted condition chosen alternative span).length =
      condition.length + 1 + (chosen.length + 1) + alternative.length := by
    simp only [choiceCode, List.length_append, List.length_singleton]
    omega
  refine Sound.iff_labels.2 ⟨⟨labels, hstart, by rw [hlength, hend], ?_⟩, fun h i hi => ?_⟩
  · have hwithin := mode.within_of_ne hmode
    rw [hlength]
    refine .append (.append (.append (.append (hfit₁.shift (hwithin ..) hat₁ (by omega))
      (.branch hbranch (by omega) hchosen halternative) (Nat.zero_add _))
      (hfit₂.shift (hwithin ..) hat₂ (by omega)) ?_)
      (.jump hjump (by omega) (by rw [← hend]; congr 1)) ?_)
      (hfit₃.shift (hwithin ..) (fun p _ => hat₃ p) (by omega)) ?_
    all_goals simp only [List.length_append, List.length_singleton]; omega
  · simp only [choiceCode, List.mem_append, List.mem_singleton] at hi
    rcases hi with (((hi | rfl) | hi) | rfl) | hi
    · exact hunmarked₁ h i hi
    · cases inverted <;> rfl
    · exact hunmarked₂ h i hi
    · rfl
    · exact hunmarked₃ h i hi

/-! ## Marks -/

namespace LoopLayout

variable (layout : LoopLayout)

theorem resolve_of_unmarked {op : Op} (h : op.isLoopMark = false) (position : Nat) :
    layout.resolve position op = op := by
  cases op <;> first | rfl | cases h

theorem getElem?_resolveFrom (position : Nat) (body : Block) (p : Nat) :
    (layout.resolveFrom position body)[p]? =
      body[p]?.map fun i => { i with op := layout.resolve (position + p) i.op } := by
  induction body generalizing position p with
  | nil => rfl
  | cons i rest ih =>
    cases p with
    | zero => rfl
    | succ p =>
      rw [resolveFrom, List.getElem?_cons_succ, List.getElem?_cons_succ, ih, Nat.add_right_comm]
      rfl

theorem resolveFrom_of_unmarked {body : Block} (h : ∀ i ∈ body, i.op.isLoopMark = false)
    (position : Nat) : layout.resolveFrom position body = body := by
  induction body generalizing position with
  | nil => rfl
  | cons i rest ih =>
    rw [resolveFrom, ih (fun j hj => h j (List.mem_cons_of_mem i hj)),
      layout.resolve_of_unmarked (h i List.mem_cons_self)]

theorem drop_resolveFrom (position count : Nat) (body : Block) :
    (layout.resolveFrom position body).drop count =
      layout.resolveFrom (position + count) (body.drop count) := by
  induction count generalizing position body with
  | zero => rfl
  | succ count ih =>
    cases body with
    | nil => rfl
    | cons i rest =>
      rw [resolveFrom, List.drop_succ_cons, List.drop_succ_cons, ih, Nat.add_assoc,
        Nat.add_comm 1]

theorem take_resolveFrom (position count : Nat) (body : Block) :
    (layout.resolveFrom position body).take count = layout.resolveFrom position (body.take count) := by
  induction count generalizing position body with
  | zero => rfl
  | succ count ih =>
    cases body with
    | nil => rfl
    | cons i rest => rw [resolveFrom, List.take_succ_cons, List.take_succ_cons, resolveFrom, ih]

/-- How far behind the end of the body a loop ends. -/
def tail : Nat := if layout.testsAfter then layout.conditionLength + 1 else 1

end LoopLayout

theorem Op.Fits.unmark {op : Op} {position : Nat} (hop : op.isLoopMark = false)
    (h : op.Fits mode.insideLoop labels length position depth) :
    op.Fits mode labels length position depth :=
  ⟨h.needs, h.back, h.targets, h.exit, by rw [hop]; exact nofun⟩

/-- Labels that agree with those of the body of a loop fit to it once its marks are jumps. -/
theorem Labels.Fit.resolve {layout : LoopLayout} {body : Block} {inner : Labels}
    (h : inner.Fit mode.insideLoop body.length 0 body) (hmode : mode.exits ≠ .last)
    (hlayout : layout.bodyLength = body.length)
    (hat : ∀ p ≤ body.length, labels (offset + p) = inner p)
    (hstart : inner 0 = some mode.base) (hfinish : inner body.length = some mode.base)
    (hlength : offset + body.length + layout.tail ≤ length)
    (hend : labels (offset + body.length + layout.tail) = some mode.base) :
    labels.Fit mode length offset (layout.resolveFrom 0 body) := by
  intro p i d hi hd
  rw [LoopLayout.getElem?_resolveFrom, Option.map_eq_some_iff] at hi
  obtain ⟨j, hj, rfl⟩ := hi
  have hp : p < body.length := (List.getElem?_eq_some_iff.1 hj).1
  have hshift := h.shift (mode.insideLoop.within_of_ne hmode offset body.length length) hat
    (by omega)
  obtain ⟨hfits, hinside, hbody⟩ := hshift p j d hj hd
  rw [Nat.zero_add, length_resolveFrom]
  cases hmark : j.op.isLoopMark with
  | false =>
    rw [layout.resolve_of_unmarked hmark]
    refine ⟨hfits.unmark hmark, hinside, fun b hb => ?_⟩
    obtain ⟨stop, hsound⟩ := hbody b hb
    refine ⟨stop, ?_⟩
    rw [LoopLayout.drop_resolveFrom, LoopLayout.take_resolveFrom,
      LoopLayout.resolveFrom_of_unmarked]
    · exact hsound
    · exact hsound.unmarked (Op.marked_of_body? hb)
  | true =>
    obtain ⟨-, hdepth⟩ := hfits.mark hmark
    subst hdepth
    have hjump : ∀ skip, offset + p + 1 + skip ≤ length →
        labels (offset + p + 1 + skip) = some mode.base →
        (Op.jump skip).Fits mode labels length (offset + p) mode.base := by
      intro skip hle hlabel
      refine ⟨Nat.zero_le _, Nat.zero_le _, fun q hq => ?_, by simp, by simp [Op.isLoopMark]⟩
      cases List.mem_singleton.1 hq
      exact ⟨hle, hlabel⟩
    have hback : (Op.jumpBack (p + 1)).Fits mode labels length (offset + p) mode.base := by
      refine ⟨Nat.zero_le _, by simp [Op.back], fun q hq => ?_, by simp, by simp [Op.isLoopMark]⟩
      cases List.mem_singleton.1 hq
      have hq : offset + p + 1 - (p + 1) = offset + 0 := by omega
      rw [hq]
      exact ⟨by omega, (hat 0 (Nat.zero_le _)).trans hstart⟩
    have hbreak : ∀ skip, p + 1 + skip = body.length + layout.tail →
        (Op.jump skip).Fits mode labels length (offset + p) mode.base := by
      intro skip hskip
      have heq : offset + p + 1 + skip = offset + body.length + layout.tail := by omega
      exact hjump skip (by omega) (by rw [heq, hend])
    have hcontinue : (Op.jump (layout.bodyLength - p - 1)).Fits mode labels length (offset + p)
        mode.base := by
      have heq : offset + p + 1 + (layout.bodyLength - p - 1) = offset + body.length := by omega
      exact hjump _ (by omega) (by rw [heq, hat _ (Nat.le_refl _), hfinish])
    suffices hresolved : (layout.resolve p j.op).Fits mode labels length (offset + p) mode.base ∧
        (layout.resolve p j.op).body? = none by
      refine ⟨hresolved.1, ?_, by simp [hresolved.2]⟩
      rw [Op.bodyLength, hresolved.2]
      exact hp
    cases hop : j.op with
    | breakMark =>
      have htail : layout.resolve p .breakMark = .jump (body.length + layout.tail - (p + 1)) := by
        simp only [LoopLayout.resolve, LoopLayout.tail]
        split <;> congr 1 <;> omega
      rw [htail]
      exact ⟨hbreak _ (by omega), rfl⟩
    | continueMark => exact ⟨hcontinue, rfl⟩
    | redoMark => exact ⟨hback, rfl⟩
    | _ =>
      rw [hop] at hmark
      cases hmark

/-- No marks are left in the body of a loop. -/
theorem LoopLayout.unmarked_resolveFrom (layout : LoopLayout) (position : Nat) (body : Block) :
    ∀ i ∈ layout.resolveFrom position body, i.op.isLoopMark = false := by
  induction body generalizing position with
  | nil => exact nofun
  | cons j rest ih =>
    intro i hi
    rcases List.mem_cons.1 hi with rfl | hi
    · simp only [LoopLayout.resolve]
      split
      · split <;> rfl
      · rfl
      · rfl
      · cases hop : j.op <;> first | rfl | simp_all
    · exact ih _ i hi

/-! ## Loops -/

theorem Sound.testFirst {inverted : Bool} {condition body : Block} (hmode : mode.exits ≠ .last)
    (hcondition : Sound mode mode.base condition (mode.base + 1))
    (hbody : Sound mode.insideLoop mode.base body mode.base) :
    Sound mode mode.base (testFirstCode inverted condition body span) mode.base := by
  obtain ⟨⟨l₁, hstart₁, hstop₁, hfit₁⟩, hunmarked₁⟩ := Sound.iff_labels.1 hcondition
  obtain ⟨⟨l₂, hstart₂, hstop₂, hfit₂⟩, -⟩ := Sound.iff_labels.1 hbody
  let labels := l₁.glue (condition.length + 1) (l₂.glue (body.length + 1) (.const mode.base))
  have hat₁ : ∀ p ≤ condition.length, labels (0 + p) = l₁ p := by
    intro p hp
    rw [Nat.zero_add]
    exact Labels.glue_of_lt (by omega)
  have hat₂ : ∀ p ≤ body.length, labels (condition.length + 1 + p) = l₂ p := by
    intro p hp
    exact (Labels.glue_add p).trans (Labels.glue_of_lt (by omega))
  have hstart : labels 0 = some mode.base := (hat₁ 0 (Nat.zero_le _)).trans hstart₁
  have hbranch : labels condition.length = some (mode.base + 1) := by
    rw [← hstop₁, ← hat₁ condition.length (Nat.le_refl _), Nat.zero_add]
  have hinside : labels (condition.length + 1) = some mode.base :=
    (hat₂ 0 (Nat.zero_le _)).trans hstart₂
  have hjump : labels (condition.length + 1 + body.length) = some mode.base :=
    (hat₂ _ (Nat.le_refl _)).trans hstop₂
  have hend : labels (condition.length + 1 + (body.length + 1)) = some mode.base :=
    (Labels.glue_add _).trans Labels.glue_self
  have hlength : (testFirstCode inverted condition body span).length =
      condition.length + 1 + (body.length + 1) := by
    simp only [testFirstCode, List.length_append, List.length_singleton, length_resolveFrom]
    omega
  refine Sound.iff_labels.2 ⟨⟨labels, hstart, by rw [hlength, hend], ?_⟩, fun h i hi => ?_⟩
  · have hwithin := mode.within_of_ne hmode
    rw [hlength]
    have hback : condition.length + 1 + body.length + 1 -
        (condition.length + body.length + 2) = 0 := by omega
    refine .append (.append (.append (hfit₁.shift (hwithin ..) hat₁ (by omega))
      (.branch hbranch (Nat.le_refl _) hinside hend) (Nat.zero_add _))
      (hfit₂.resolve hmode rfl hat₂ hstart₂ hstop₂ (by simp [LoopLayout.tail, Nat.add_assoc]) ?_)
      ?_) (.jumpBack hjump (by omega) (by omega) (by rw [hback, hstart])) ?_
    · exact hend
    all_goals
      simp only [List.length_append, List.length_singleton, length_resolveFrom]
      omega
  · simp only [testFirstCode, List.mem_append, List.mem_singleton] at hi
    rcases hi with ((hi | rfl) | hi) | rfl
    · exact hunmarked₁ h i hi
    · cases inverted <;> rfl
    · exact LoopLayout.unmarked_resolveFrom _ _ _ i hi
    · rfl

theorem Sound.testLast {condition body : Block} (hmode : mode.exits ≠ .last)
    (hcondition : Sound mode mode.base condition (mode.base + 1))
    (hbody : Sound mode.insideLoop mode.base body mode.base) :
    Sound mode mode.base (testLastCode body condition span) mode.base := by
  obtain ⟨⟨l₁, hstart₁, hstop₁, hfit₁⟩, hunmarked₁⟩ := Sound.iff_labels.1 hcondition
  obtain ⟨⟨l₂, hstart₂, hstop₂, hfit₂⟩, -⟩ := Sound.iff_labels.1 hbody
  let rest := l₁.glue (condition.length + 1) (.const mode.base)
  let labels := l₂.glue body.length rest
  have hmeet : l₂ body.length = rest 0 := by
    rw [hstop₂, ← hstart₁]
    exact (Labels.glue_of_lt (Nat.succ_pos _)).symm
  have hat₂ : ∀ p ≤ body.length, labels (0 + p) = l₂ p := by
    intro p hp
    rw [Nat.zero_add]
    exact Labels.glue_of_le hmeet hp
  have hat₁ : ∀ p ≤ condition.length, labels (body.length + p) = l₁ p := by
    intro p hp
    exact (Labels.glue_add p).trans (Labels.glue_of_lt (by omega))
  have hstart : labels 0 = some mode.base := (hat₂ 0 (Nat.zero_le _)).trans hstart₂
  have hbranch : labels (body.length + condition.length) = some (mode.base + 1) :=
    (hat₁ _ (Nat.le_refl _)).trans hstop₁
  have hend : labels (body.length + (condition.length + 1)) = some mode.base :=
    (Labels.glue_add _).trans Labels.glue_self
  have hlength : (testLastCode body condition span).length =
      body.length + (condition.length + 1) := by
    simp only [testLastCode, List.length_append, List.length_singleton, length_resolveFrom]
    omega
  refine Sound.iff_labels.2 ⟨⟨labels, hstart, by rw [hlength, hend], ?_⟩, fun h i hi => ?_⟩
  · have hwithin := mode.within_of_ne hmode
    rw [hlength]
    have hback : body.length + condition.length + 1 -
        (body.length + condition.length + 1) = 0 := by omega
    refine .append (.append (hfit₂.resolve hmode rfl hat₂ hstart₂ hstop₂ ?_ ?_)
      (hfit₁.shift (hwithin ..) hat₁ (by omega)) ?_)
      (.branchBack hbranch (by omega) (by omega) (by rw [Nat.add_assoc, hend])
        (by rw [hback, hstart])) ?_
    · simp [LoopLayout.tail]
    · simpa [LoopLayout.tail] using hend
    all_goals
      simp only [List.length_append, length_resolveFrom]
      omega
  · simp only [testLastCode, List.mem_append, List.mem_singleton] at hi
    rcases hi with (hi | hi) | rfl
    · exact LoopLayout.unmarked_resolveFrom _ _ _ i hi
    · exact hunmarked₁ h i hi
    · rfl

end control
end ScriptVM
