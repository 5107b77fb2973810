import ScriptVM.Proofs.Expression.Evaluate
import ScriptVM.Proofs.Likeness.Steady

/-!
# Evaluation on machines that are alike

Direct evaluation of an expression comes down to calls, so it agrees when calls do.
-/
namespace ScriptVM.Likeness

variable {L : Likeness} {w : L.World} {e e' : Engine} {F : Frames L} {id : FrameId}

theorem agree_named (hid : F.runs w id) (name : String) :
    L.Agree w (Engine.named id name) (Engine.named id name) fun _ v => L.good v := by
  refine (F.resolve name hid).bind fun _ r _ hr => ?_
  cases r with
  | some v => exact .pure (hr v rfl)
  | none => exact .fail (L.admits_ordinary rfl)

theorem agree_member {source : Value} (hs : L.good source) (name : String) :
    L.Agree w (Engine.select source name) (Engine.select source name) fun _ v => L.good v := by
  refine (agree_lookup hs name).bind fun _ r _ hr => ?_
  cases r with
  | some v => exact .pure (hr v rfl)
  | none => exact agree_missingSymbol source name

theorem Calls.storeAll (he : L.Calls e e') {owner : Value} (ho : L.good owner)
    {entries : List (Value × Value)} (h : ∀ entry ∈ entries, L.good entry.1 ∧ L.good entry.2) :
    L.Agree w (e.storeAll owner entries) (e'.storeAll owner entries) fun _ _ => True := by
  induction entries generalizing w with
  | nil => exact .pure trivial
  | cons entry rest ih =>
    obtain ⟨hkey, hvalue⟩ := h entry (by simp)
    refine (he.store ho hkey hvalue).bind fun _ _ _ _ => ?_
    exact ih fun entry hentry => h entry (by simp [hentry])

theorem Calls.newHash (he : L.Calls e e') {entries : List (Value × Value)}
    (h : ∀ entry ∈ entries, L.good entry.1 ∧ L.good entry.2) :
    L.Agree w (e.newHash entries) (e'.newHash entries) fun _ v => L.good v := by
  refine (agree_newObject (k := .hash .empty) ⟨L.table_empty, by
    simp [Table.empty, Table.entries]⟩).bind fun _ owner _ ho => ?_
  exact (he.storeAll ho h).bind fun _ _ _ _ => .pure ho

theorem agree_newLambda (hid : F.runs w id) (arity : Nat) (body : Block) :
    L.Agree w (Engine.newLambda id arity body) (Engine.newLambda id arity body)
      fun _ v => L.good v := by
  refine (F.retain hid).bind fun _ scope _ hscope => agree_newObject ?_
  exact ⟨F.function_of_scope hscope, by simp⟩

theorem Calls.newGeneratorOver (he : L.Calls e e') (hid : F.runs w id) {source : Value}
    (hs : L.good source) (receivers : Nat) (body : Block) :
    L.Agree w (e.newGeneratorOver id source receivers body)
      (e'.newGeneratorOver id source receivers body) fun _ v => L.good v := by
  refine (he.iteratorOf hs).bind fun w₁ source hw₁ hs => ?_
  refine (F.retain (F.runs_mono hw₁ hid)).bind fun _ scope _ hscope => agree_newObject ?_
  exact ⟨F.generator_of_scope hscope rfl, hs, by simp⟩

mutual

/-- Evaluation of an expression agrees when calls do. -/
theorem Calls.eval (he : L.Calls e e') : ∀ (x : Expr) {w : L.World}, F.runs w id →
    L.Agree w (x.eval e id) (x.eval e' id) fun _ v => L.good v
  | .integer _ text, w, _ => by
    simp only [Expr.eval]
    split
    · exact agree_newInteger _
    · exact .giveUp
  | .float _ text, w, _ => by
    simp only [Expr.eval]
    split
    · exact agree_newFloat _
    · exact .giveUp
  | .string _ text, w, _ => agree_newString text
  | .bytes _ content, w, _ => agree_newObject (k := .bytes content) trivial
  | .bool _ value, w, _ => agree_newBool value
  | .none _, w, _ => agree_newNone
  | .tuple _ values, w, hid => by
    simp only [Expr.eval]
    exact (Calls.evalReversed he values hid).bind fun _ _ _ hvs => agree_newObject hvs
  | .array _ values, w, hid => by
    simp only [Expr.eval]
    exact (Calls.evalReversed he values hid).bind fun _ _ _ hvs => agree_newObject hvs
  | .hash span entries, w, hid => by
    simp only [Expr.eval]
    exact (Calls.evalEntries he entries hid).bind fun _ _ _ h => (he.newHash h).located span
  | .identifier span name, w, hid => by
    simp only [Expr.eval]
    exact (agree_named hid name).located span
  | .selector span object name, w, hid => by
    simp only [Expr.eval]
    exact (Calls.eval he object hid).bind fun _ _ _ hv => (agree_member hv name).located span
  | .index span source position, w, hid => by
    simp only [Expr.eval]
    refine (Calls.eval he source hid).bind fun w₁ s hw₁ hs => ?_
    refine (Calls.eval he position (F.runs_mono hw₁ hid)).bind fun _ p _ hp => ?_
    exact (he.callSymbol hs .index (by simpa using hp)).located span
  | .call span callee arguments, w, hid => by
    simp only [Expr.eval]
    refine (Calls.evalReversed he arguments hid).bind fun w₁ args hw₁ hargs => ?_
    refine (Calls.eval he callee (F.runs_mono hw₁ hid)).bind fun _ f _ hf => ?_
    exact (he.call hf hargs).located span
  | .binary span left operator right, w, hid => by
    simp only [Expr.eval]
    refine (Calls.eval he right hid).bind fun w₁ b hw₁ hb => ?_
    refine (Calls.eval he left (F.runs_mono hw₁ hid)).bind fun _ a _ ha => ?_
    exact (he.operation _ ha hb).located span
  | .unary span operator operand, w, hid => by
    simp only [Expr.eval]
    split
    · refine (Calls.eval he operand hid).bind fun _ v _ hv => ?_
      exact (he.callSymbol hv _ (by simp)).located span
    · exact .giveUp
  | .parentheses _ inner, w, hid => by
    simp only [Expr.eval]
    exact Calls.eval he inner hid
  | .ifElse span condition result alternative, w, hid => by
    simp only [Expr.eval]
    refine (Calls.eval he condition hid).bind fun w₁ v hw₁ hv => ?_
    refine ((he.truthy hv).located span).bind fun w₂ b hw₂ _ => ?_
    have hid := F.runs_mono hw₂ (F.runs_mono hw₁ hid)
    split
    · exact Calls.eval he result hid
    · exact Calls.evalAlternative he alternative hid
  | .unlessElse span condition result alternative, w, hid => by
    simp only [Expr.eval]
    refine (Calls.eval he condition hid).bind fun w₁ v hw₁ hv => ?_
    refine ((he.truthy hv).located span).bind fun w₂ b hw₂ _ => ?_
    have hid := F.runs_mono hw₂ (F.runs_mono hw₁ hid)
    split
    · exact Calls.evalAlternative he alternative hid
    · exact Calls.eval he result hid
  | .lambda span parameters output, w, hid => by
    simp only [Expr.eval]
    split
    · exact (agree_newLambda hid _ _).located span
    · exact .giveUp
  | .generator span operation receivers source, w, hid => by
    simp only [Expr.eval]
    split
    · refine (Calls.eval he source hid).bind fun w₁ v hw₁ hv => ?_
      exact (he.newGeneratorOver (F.runs_mono hw₁ hid) hv _ _).located span
    · exact .giveUp

theorem Calls.evalReversed (he : L.Calls e e') : ∀ (xs : List Expr) {w : L.World}, F.runs w id →
    L.Agree w (evalReversed e id xs) (evalReversed e' id xs) fun _ vs => ∀ v ∈ vs, L.good v
  | [], w, _ => .pure (by simp)
  | x :: rest, w, hid => by
    simp only [ScriptVM.evalReversed]
    refine (Calls.evalReversed he rest hid).bind fun w₁ later hw₁ hlater => ?_
    refine (Calls.eval he x (F.runs_mono hw₁ hid)).bind fun _ v _ hv => .pure ?_
    simpa using ⟨hv, hlater⟩

theorem Calls.evalEntries (he : L.Calls e e') : ∀ (xs : List (Expr × Expr)) {w : L.World},
    F.runs w id → L.Agree w (evalEntries e id xs) (evalEntries e' id xs)
      fun _ vs => ∀ entry ∈ vs, L.good entry.1 ∧ L.good entry.2
  | [], w, _ => .pure (by simp)
  | (key, value) :: rest, w, hid => by
    simp only [ScriptVM.evalEntries]
    refine (Calls.evalEntries he rest hid).bind fun w₁ later hw₁ hlater => ?_
    have hid := F.runs_mono hw₁ hid
    refine (Calls.eval he value hid).bind fun w₂ v hw₂ hv => ?_
    refine (Calls.eval he key (F.runs_mono hw₂ hid)).bind fun _ k _ hk => .pure ?_
    intro entry hentry
    rcases List.mem_cons.1 hentry with rfl | hentry
    · exact ⟨hk, hv⟩
    · exact hlater entry hentry

theorem Calls.evalAlternative (he : L.Calls e e') : ∀ (x : Option Expr) {w : L.World},
    F.runs w id → L.Agree w (evalAlternative e id x) (evalAlternative e' id x) fun _ v => L.good v
  | some x, w, hid => by
    simp only [ScriptVM.evalAlternative]
    exact Calls.eval he x hid
  | none, w, _ => agree_newNone

end

end ScriptVM.Likeness
