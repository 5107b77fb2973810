import ScriptVM.Lowering.Statement
import ScriptVM.Proofs.Code.Control

/-!
# Lowered code is sound

The code of an expression adds its value to the operands in push mode and leaves them alone
otherwise. The code of a statement leaves alone the operands that its body keeps at the bottom. So
the code of a program, and of every function, class, module and generator in it, is sound.
-/
namespace ScriptVM

section expressions

variable {mode : Mode} {depth : Nat} {push : Bool} {span : Span} {code : Block}

theorem Sound.pushIf : Sound mode depth (pushIf push span) (depth + push.toNat) := by
  cases push with
  | false => exact .nil
  | true => exact .single rfl rfl rfl (Nat.zero_le _) rfl

/-- An operation that only takes some operands. -/
structure Op.Consumes (op : Op) (count : Nat) : Prop where
  body : op.body? = none
  targets : op.targets 0 = [1]
  back : op.back = 0
  gives : op.gives = 0
  needs : op.needs = count
  takes : op.takes = count

theorem Sound.consume {op : Op} (count : Nat) (h : op.Consumes count) :
    Sound mode (depth + count) [op.at span] depth := by
  obtain ⟨hbody, htargets, hback, hgives, hneeds, htakes⟩ := h
  exact .single hbody htargets hback (by omega) (by omega)

/-- An instruction that produces an object, and the push behind it. -/
theorem Sound.produce {op : Op} (count : Nat) (h : op.Consumes count) (hmode : mode.exits ≠ .last) :
    Sound mode (depth + count) ([op.at span] ++ ScriptVM.pushIf push span)
      (depth + push.toNat) :=
  (Sound.consume count h).append hmode .pushIf

/-- The body of a lambda is sound, and so is the operation of a generator. -/
theorem Sound.lambdaBody {names : List String} {output : Block}
    (houtput : ∀ mode : Mode, mode.exits ≠ .last → Sound mode mode.base output (mode.base + 1))
    (hmode : mode.exits ≠ .never) (hbase : mode.base = 0) :
    Sound mode names.length (lambdaBody names output span) 0 := by
  have hload : Sound mode.staying names.length [(Op.loadArguments names).at span] mode.base :=
    .single rfl rfl rfl (Nat.le_refl _) (by simp [Op.takes, Op.gives, hbase])
  have hinit := hload.append (by simp [Mode.staying]) (houtput mode.staying (by simp [Mode.staying]))
  rw [← hbase]
  exact hinit.append_within (.exit hmode 1) (mode.within_staying ..)
    (mode.within_end (by simp))

mutual

/-- The code of an expression is sound. -/
theorem Expr.sound : ∀ (x : Expr) {mode : Mode} {push : Bool} {code : Block} {depth : Nat},
    mode.exits ≠ .last → x.code push = .ok code →
    Sound mode depth code (depth + push.toNat)
  | .integer span text, mode, push, code, depth, hmode, hcode => by
    simp only [Expr.code] at hcode
    split at hcode
    · cases hcode
      exact .produce 0 ⟨rfl, rfl, rfl, rfl, rfl, rfl⟩ hmode
    · cases hcode
  | .float span text, mode, push, code, depth, hmode, hcode => by
    simp only [Expr.code] at hcode
    split at hcode
    · cases hcode
      exact .produce 0 ⟨rfl, rfl, rfl, rfl, rfl, rfl⟩ hmode
    · cases hcode
  | .string span text, mode, push, code, depth, hmode, hcode => by
    simp only [Expr.code] at hcode
    cases hcode
    exact .produce 0 ⟨rfl, rfl, rfl, rfl, rfl, rfl⟩ hmode
  | .bytes span content, mode, push, code, depth, hmode, hcode => by
    simp only [Expr.code] at hcode
    cases hcode
    exact .produce 0 ⟨rfl, rfl, rfl, rfl, rfl, rfl⟩ hmode
  | .bool span value, mode, push, code, depth, hmode, hcode => by
    simp only [Expr.code] at hcode
    cases hcode
    cases value <;> exact .produce 0 ⟨rfl, rfl, rfl, rfl, rfl, rfl⟩ hmode
  | .none span, mode, push, code, depth, hmode, hcode => by
    simp only [Expr.code] at hcode
    cases hcode
    exact .produce 0 ⟨rfl, rfl, rfl, rfl, rfl, rfl⟩ hmode
  | .tuple span values, mode, push, code, depth, hmode, hcode => by
    simp only [Expr.code] at hcode
    obtain ⟨items, hitems, hcode⟩ := bind_eq_ok hcode
    cases hcode
    rw [List.append_assoc]
    exact (reversedCode_sound values hmode hitems).append hmode
      (.produce values.length ⟨rfl, rfl, rfl, rfl, rfl, rfl⟩ hmode)
  | .array span values, mode, push, code, depth, hmode, hcode => by
    simp only [Expr.code] at hcode
    obtain ⟨items, hitems, hcode⟩ := bind_eq_ok hcode
    cases hcode
    rw [List.append_assoc]
    exact (reversedCode_sound values hmode hitems).append hmode
      (.produce values.length ⟨rfl, rfl, rfl, rfl, rfl, rfl⟩ hmode)
  | .hash span entries, mode, push, code, depth, hmode, hcode => by
    simp only [Expr.code] at hcode
    obtain ⟨pairs, hpairs, hcode⟩ := bind_eq_ok hcode
    cases hcode
    rw [List.append_assoc]
    exact (entriesCode_sound entries hmode hpairs).append hmode
      (.produce (2 * entries.length) ⟨rfl, rfl, rfl, rfl, rfl, rfl⟩ hmode)
  | .identifier span name, mode, push, code, depth, hmode, hcode => by
    simp only [Expr.code] at hcode
    cases hcode
    exact .produce 0 ⟨rfl, rfl, rfl, rfl, rfl, rfl⟩ hmode
  | .selector span object name, mode, push, code, depth, hmode, hcode => by
    simp only [Expr.code] at hcode
    obtain ⟨object', hobject, hcode⟩ := bind_eq_ok hcode
    cases hcode
    rw [List.append_assoc]
    exact (Expr.sound object hmode hobject).append hmode
      (.produce 1 ⟨rfl, rfl, rfl, rfl, rfl, rfl⟩ hmode)
  | .index span source position, mode, push, code, depth, hmode, hcode => by
    simp only [Expr.code] at hcode
    obtain ⟨source', hsource, hcode⟩ := bind_eq_ok hcode
    obtain ⟨position', hposition, hcode⟩ := bind_eq_ok hcode
    cases hcode
    rw [List.append_assoc]
    exact ((Expr.sound source hmode hsource).append hmode
      (Expr.sound position hmode hposition)).append hmode
        (.produce 2 ⟨rfl, rfl, rfl, rfl, rfl, rfl⟩ hmode)
  | .call span callee arguments, mode, push, code, depth, hmode, hcode => by
    simp only [Expr.code] at hcode
    obtain ⟨items, hitems, hcode⟩ := bind_eq_ok hcode
    obtain ⟨callee', hcallee, hcode⟩ := bind_eq_ok hcode
    cases hcode
    rw [List.append_assoc]
    exact ((reversedCode_sound arguments hmode hitems).append hmode
      (Expr.sound callee hmode hcallee)).append hmode
        (.produce (arguments.length + 1) ⟨rfl, rfl, rfl, rfl, rfl, rfl⟩ hmode)
  | .binary span l operator r, mode, push, code, depth, hmode, hcode => by
    simp only [Expr.code] at hcode
    obtain ⟨r', hr, hcode⟩ := bind_eq_ok hcode
    obtain ⟨l', hl, hcode⟩ := bind_eq_ok hcode
    cases hcode
    rw [List.append_assoc]
    exact ((Expr.sound r hmode hr).append hmode (Expr.sound l hmode hl)).append hmode
      (.produce 2 ⟨rfl, rfl, rfl, rfl, rfl, rfl⟩ hmode)
  | .unary span operator operand, mode, push, code, depth, hmode, hcode => by
    simp only [Expr.code] at hcode
    split at hcode
    · obtain ⟨operand', hoperand, hcode⟩ := bind_eq_ok hcode
      cases hcode
      rw [List.append_assoc]
      exact (Expr.sound operand hmode hoperand).append hmode
        (.produce 1 ⟨rfl, rfl, rfl, rfl, rfl, rfl⟩ hmode)
    · cases hcode
  | .parentheses _ inner, mode, push, code, depth, hmode, hcode => by
    simp only [Expr.code] at hcode
    exact Expr.sound inner hmode hcode
  | .ifElse span condition result alternative, mode, push, code, depth, hmode, hcode => by
    simp only [Expr.code] at hcode
    obtain ⟨condition', hcondition, hcode⟩ := bind_eq_ok hcode
    obtain ⟨result', hresult, hcode⟩ := bind_eq_ok hcode
    obtain ⟨alternative', halternative, hcode⟩ := bind_eq_ok hcode
    cases hcode
    exact .choice hmode (Expr.sound condition hmode hcondition) (Expr.sound result hmode hresult)
      (alternativeCode_sound alternative hmode halternative)
  | .unlessElse span condition result alternative, mode, push, code, depth, hmode, hcode => by
    simp only [Expr.code] at hcode
    obtain ⟨condition', hcondition, hcode⟩ := bind_eq_ok hcode
    obtain ⟨result', hresult, hcode⟩ := bind_eq_ok hcode
    obtain ⟨alternative', halternative, hcode⟩ := bind_eq_ok hcode
    cases hcode
    exact .choice hmode (Expr.sound condition hmode hcondition) (Expr.sound result hmode hresult)
      (alternativeCode_sound alternative hmode halternative)
  | .lambda span parameters output, mode, push, code, depth, hmode, hcode => by
    simp only [Expr.code] at hcode
    obtain ⟨output', houtput, hcode⟩ := bind_eq_ok hcode
    cases hcode
    refine .append hmode (.definition rfl rfl (.lambdaBody (fun mode hmode => ?_) ?_ rfl) ?_)
      .pushIf
    · exact Expr.sound output hmode houtput
    · simp [Mode.plain]
    · exact Nat.zero_le _
  | .generator span operation receivers source, mode, push, code, depth, hmode, hcode => by
    simp only [Expr.code] at hcode
    obtain ⟨source', hsource, hcode⟩ := bind_eq_ok hcode
    obtain ⟨operation', hoperation, hcode⟩ := bind_eq_ok hcode
    cases hcode
    rw [List.append_assoc source']
    refine .append hmode ((Expr.sound source hmode hsource).append hmode
      (.definition rfl rfl (.lambdaBody (fun mode hmode => ?_) ?_ rfl) ?_)) .pushIf
    · exact Expr.sound operation hmode hoperation
    · simp [Mode.operation]
    · exact Nat.le_add_left 1 depth

theorem reversedCode_sound : ∀ (xs : List Expr) {mode : Mode} {code : Block} {depth : Nat},
    mode.exits ≠ .last → reversedCode xs = .ok code → Sound mode depth code (depth + xs.length)
  | [], mode, code, depth, _, hcode => by
    cases hcode
    exact .nil
  | x :: rest, mode, code, depth, hmode, hcode => by
    simp only [reversedCode] at hcode
    obtain ⟨later, hlater, hcode⟩ := bind_eq_ok hcode
    obtain ⟨first, hfirst, hcode⟩ := bind_eq_ok hcode
    cases hcode
    exact (reversedCode_sound rest hmode hlater).append hmode (Expr.sound x hmode hfirst)

theorem entriesCode_sound : ∀ (xs : List (Expr × Expr)) {mode : Mode} {code : Block}
    {depth : Nat}, mode.exits ≠ .last → entriesCode xs = .ok code →
    Sound mode depth code (depth + 2 * xs.length)
  | [], mode, code, depth, _, hcode => by
    cases hcode
    exact .nil
  | (key, value) :: rest, mode, code, depth, hmode, hcode => by
    simp only [entriesCode] at hcode
    obtain ⟨later, hlater, hcode⟩ := bind_eq_ok hcode
    obtain ⟨value', hvalue, hcode⟩ := bind_eq_ok hcode
    obtain ⟨key', hkey, hcode⟩ := bind_eq_ok hcode
    cases hcode
    exact ((entriesCode_sound rest hmode hlater).append hmode
      (Expr.sound value hmode hvalue)).append hmode (Expr.sound key hmode hkey)

theorem alternativeCode_sound : ∀ (x : Option Expr) {mode : Mode} {push : Bool} {span : Span}
    {code : Block} {depth : Nat}, mode.exits ≠ .last → alternativeCode push span x = .ok code →
    Sound mode depth code (depth + push.toNat)
  | some x, mode, push, span, code, depth, hmode, hcode => by
    simp only [alternativeCode] at hcode
    exact Expr.sound x hmode hcode
  | none, mode, push, span, code, depth, hmode, hcode => by
    cases hcode
    exact .produce 0 ⟨rfl, rfl, rfl, rfl, rfl, rfl⟩ hmode

end

end expressions

section statements

variable {mode : Mode} {s : Surroundings} {span : Span} {code : Block}

/-- A body of some kind may hold code with some surroundings. -/
structure Surroundings.Suit (s : Surroundings) (mode : Mode) : Prop where
  exits : mode.exits = .anywhere
  marked : s.inLoop = true → mode.marked = true
  base : s.inClass = true → 1 ≤ mode.base

theorem Surroundings.Suit.ne_last (h : s.Suit mode) : mode.exits ≠ .last := by
  simp [h.exits]

theorem Surroundings.Suit.insideLoop (h : s.Suit mode) : s.insideLoop.Suit mode.insideLoop :=
  ⟨h.exits, fun _ => rfl, h.base⟩

theorem suit_inFunction : Surroundings.inFunction.Suit .plain := ⟨rfl, nofun, nofun⟩

theorem suit_inClassBody : Surroundings.inClassBody.Suit .classBody :=
  ⟨rfl, nofun, fun _ => Nat.le_refl 1⟩

/-- The codes of a guard and its block are sound. -/
def SoundGuard (mode : Mode) (guard : Block × Block) : Prop :=
  Sound mode mode.base guard.1 (mode.base + 1) ∧ Sound mode mode.base guard.2 mode.base

theorem Sound.chain (hmode : mode.exits ≠ .last) {guards : List (Block × Block)}
    {alternative : Block} (inverted : Bool) (hguards : ∀ guard ∈ guards, SoundGuard mode guard)
    (halternative : Sound mode mode.base alternative mode.base) :
    Sound mode mode.base (chainCode span inverted guards alternative) mode.base := by
  induction guards generalizing inverted with
  | nil => exact halternative
  | cons guard rest ih =>
    obtain ⟨hcondition, hbody⟩ := hguards guard List.mem_cons_self
    exact .choice hmode hcondition hbody
      (ih false fun guard hguard => hguards guard (List.mem_cons_of_mem _ hguard))

theorem targetCode_sound (hmode : mode.exits ≠ .last) {target : Expr}
    (hcode : targetCode target span = .ok code) :
    Sound mode (mode.base + 1) code mode.base := by
  unfold targetCode at hcode
  split at hcode
  · cases hcode
    exact .consume 1 ⟨rfl, rfl, rfl, rfl, rfl, rfl⟩
  · obtain ⟨object, hobject, hcode⟩ := bind_eq_ok hcode
    cases hcode
    exact (Expr.sound _ hmode hobject).append hmode (.consume 2 ⟨rfl, rfl, rfl, rfl, rfl, rfl⟩)
  · obtain ⟨source, hsource, hcode⟩ := bind_eq_ok hcode
    obtain ⟨position, hposition, hcode⟩ := bind_eq_ok hcode
    cases hcode
    exact ((Expr.sound _ hmode hsource).append hmode (Expr.sound _ hmode hposition)).append hmode
      (.consume 3 ⟨rfl, rfl, rfl, rfl, rfl, rfl⟩)
  · cases hcode

theorem assignCode_sound (hmode : mode.exits ≠ .last) {target value : Expr} {operator : AssignOp}
    (hcode : assignCode target operator value span = .ok code) :
    Sound mode mode.base code mode.base := by
  have hstored : ∀ {x : Expr}, (do
      let value ← x.code true
      let store ← targetCode target span
      return value ++ store) = .ok code → Sound mode mode.base code mode.base := by
    intro x hcode
    obtain ⟨value', hvalue, hcode⟩ := bind_eq_ok hcode
    obtain ⟨store, hstore, hcode⟩ := bind_eq_ok hcode
    cases hcode
    exact (Expr.sound x hmode hvalue).append hmode (targetCode_sound hmode hstore)
  unfold assignCode at hcode
  split at hcode
  · exact hstored hcode
  · exact hstored hcode

theorem basesCode_sound (hmode : mode.exits ≠ .last) (bases : List Expr) {depth : Nat}
    (hcode : basesCode bases = .ok code) : Sound mode depth code (depth + bases.length) := by
  induction bases generalizing depth code with
  | nil =>
    cases hcode
    exact .nil
  | cons base rest ih =>
    simp only [basesCode] at hcode
    obtain ⟨first, hfirst, hcode⟩ := bind_eq_ok hcode
    obtain ⟨later, hlater, hcode⟩ := bind_eq_ok hcode
    cases hcode
    rw [List.length_cons, Nat.add_comm rest.length, ← Nat.add_assoc]
    exact (Expr.sound base hmode hfirst).append hmode (ih hlater)

theorem loopMarkCode_sound (hs : s.Suit mode) {mark : Op} {name : String}
    (hmark : mark.isLoopMark = true)
    (hcode : loopMarkCode s mark name span = .ok code) : Sound mode mode.base code mode.base := by
  unfold loopMarkCode at hcode
  split at hcode
  · rename_i hloop
    cases hcode
    exact .mark hmark (hs.marked hloop)
  · cases hcode

theorem functionCode_sound (hs : s.Suit mode) {name : String} {parameters : List String}
    {block : Block} (hblock : Sound .plain 0 block 0) :
    Sound mode mode.base (functionCode s name parameters block span) mode.base := by
  have hload : Sound .plain parameters.length [(Op.loadArguments parameters).at span] 0 :=
    .single rfl rfl rfl (Nat.le_refl _) (by simp [Op.takes, Op.gives])
  have hbody := hload.append (by simp [Mode.plain]) hblock
  unfold functionCode
  cases hclass : s.inClass with
  | true => exact .definition rfl rfl hbody (hs.base hclass)
  | false => exact .definition rfl rfl hbody (Nat.zero_le _)

/-- The code of a class or an interface. -/
theorem classCode_sound (hmode : mode.exits ≠ .last) {op : Op} {bases : List Expr}
    {info : ClassInfo} (hop : op = .newClass info ∨ op = .newInterface info) {bases' body : Block}
    (hbases : basesCode bases = .ok bases') (hbody : Sound .classBody 1 body 1)
    (hlength : body.length = info.bodyLength) (hcount : info.baseCount = bases.length) :
    Sound mode mode.base (bases' ++ [op.at span] ++ body) mode.base := by
  rw [List.append_assoc]
  refine (basesCode_sound hmode bases hbases).append hmode ?_
  rw [← hcount]
  have htakes : op.takes = info.baseCount := by rcases hop with rfl | rfl <;> rfl
  have hneeds : op.needs = info.baseCount := by rcases hop with rfl | rfl <;> rfl
  have hbody? : op.body? = some ⟨info.bodyLength, .classBody, 1⟩ := by
    rcases hop with rfl | rfl <;> rfl
  have h : Sound mode (mode.base + info.baseCount) (op.at span :: body) _ :=
    .definition hbody? hlength hbody (by omega)
  rwa [htakes, Nat.add_sub_cancel] at h

mutual

/-- The code of a node is sound. -/
theorem Node.sound : ∀ (node : Node) {s : Surroundings} {mode : Mode} {code : Block},
    s.Suit mode → node.code s = .ok code → Sound mode mode.base code mode.base
  | .expr e, s, mode, code, hs, hcode => by
    simp only [Node.code] at hcode
    exact Expr.sound e hs.ne_last hcode
  | .assign span target operator value, s, mode, code, hs, hcode => by
    simp only [Node.code] at hcode
    exact assignCode_sound hs.ne_last hcode
  | .conditional span inverted first others alternative, s, mode, code, hs, hcode => by
    simp only [Node.code] at hcode
    obtain ⟨first', hfirst, hcode⟩ := bind_eq_ok hcode
    obtain ⟨others', hothers, hcode⟩ := bind_eq_ok hcode
    obtain ⟨alternative', halternative, hcode⟩ := bind_eq_ok hcode
    cases hcode
    refine .chain hs.ne_last inverted (fun guard hguard => ?_)
      (optionalCode_sound alternative hs halternative)
    rcases List.mem_cons.1 hguard with rfl | hguard
    · exact branchCode_sound first hs hfirst
    · exact branchesCode_sound others hs hothers guard hguard
  | .switch span target cases alternative, s, mode, code, hs, hcode => by
    simp only [Node.code] at hcode
    obtain ⟨cases', hcases, hcode⟩ := bind_eq_ok hcode
    obtain ⟨alternative', halternative, hcode⟩ := bind_eq_ok hcode
    cases hcode
    exact .chain hs.ne_last false (casesCode_sound cases hs hcases)
      (optionalCode_sound alternative hs halternative)
  | .loop span inverted condition body, s, mode, code, hs, hcode => by
    simp only [Node.code] at hcode
    obtain ⟨condition', hcondition, hcode⟩ := bind_eq_ok hcode
    obtain ⟨body', hbody, hcode⟩ := bind_eq_ok hcode
    cases hcode
    exact .testFirst hs.ne_last (Expr.sound condition hs.ne_last hcondition)
      (blockCode_sound body hs.insideLoop hbody)
  | .doWhile span body condition, s, mode, code, hs, hcode => by
    simp only [Node.code] at hcode
    obtain ⟨body', hbody, hcode⟩ := bind_eq_ok hcode
    obtain ⟨condition', hcondition, hcode⟩ := bind_eq_ok hcode
    cases hcode
    exact .testLast hs.ne_last (Expr.sound condition hs.ne_last hcondition)
      (blockCode_sound body hs.insideLoop hbody)
  | .forIn .., s, mode, code, hs, hcode => by
    simp only [Node.code] at hcode
    cases hcode
  | .redoLoop span, s, mode, code, hs, hcode => by
    simp only [Node.code] at hcode
    exact loopMarkCode_sound hs rfl hcode
  | .continueLoop span, s, mode, code, hs, hcode => by
    simp only [Node.code] at hcode
    exact loopMarkCode_sound hs rfl hcode
  | .breakLoop span, s, mode, code, hs, hcode => by
    simp only [Node.code] at hcode
    exact loopMarkCode_sound hs rfl hcode
  | .pass span, s, mode, code, hs, hcode => by
    simp only [Node.code] at hcode
    cases hcode
    exact .consume 0 ⟨rfl, rfl, rfl, rfl, rfl, rfl⟩
  | .exit span values, s, mode, code, hs, hcode => by
    simp only [Node.code] at hcode
    obtain ⟨items, hitems, hcode⟩ := bind_eq_ok hcode
    cases hcode
    exact (reversedCode_sound values hs.ne_last hitems).append hs.ne_last
      (.exit (by simp [hs.exits]) values.length)
  | .raise span value, s, mode, code, hs, hcode => by
    simp only [Node.code] at hcode
    obtain ⟨value', hvalue, hcode⟩ := bind_eq_ok hcode
    cases hcode
    exact (Expr.sound value hs.ne_last hvalue).append hs.ne_last .raise
  | .guarded .., s, mode, code, hs, hcode => by
    simp only [Node.code] at hcode
    cases hcode
  | .function span decl, s, mode, code, hs, hcode => by
    simp only [Node.code] at hcode
    exact declCode_sound decl hs hcode
  | .classDef span name bases body, s, mode, code, hs, hcode => by
    simp only [Node.code] at hcode
    obtain ⟨bases', hbases, hcode⟩ := bind_eq_ok hcode
    obtain ⟨body', hbody, hcode⟩ := bind_eq_ok hcode
    cases hcode
    exact classCode_sound hs.ne_last (.inl rfl) hbases (blockCode_sound body suit_inClassBody hbody)
      rfl rfl
  | .interfaceDef span name bases methods, s, mode, code, hs, hcode => by
    simp only [Node.code] at hcode
    obtain ⟨bases', hbases, hcode⟩ := bind_eq_ok hcode
    obtain ⟨body', hbody, hcode⟩ := bind_eq_ok hcode
    cases hcode
    exact classCode_sound hs.ne_last (.inr rfl) hbases
      (methodsCode_sound methods suit_inClassBody hbody) rfl rfl
  | .moduleDef span name body, s, mode, code, hs, hcode => by
    simp only [Node.code] at hcode
    obtain ⟨body', hbody, hcode⟩ := bind_eq_ok hcode
    cases hcode
    exact .definition rfl rfl (blockCode_sound body suit_inFunction hbody) (Nat.zero_le _)

theorem blockCode_sound : ∀ (block : List Node) {s : Surroundings} {mode : Mode} {code : Block},
    s.Suit mode → blockCode s block = .ok code → Sound mode mode.base code mode.base
  | [], s, mode, code, _, hcode => by
    cases hcode
    exact .nil
  | node :: rest, s, mode, code, hs, hcode => by
    simp only [blockCode] at hcode
    obtain ⟨first, hfirst, hcode⟩ := bind_eq_ok hcode
    obtain ⟨later, hlater, hcode⟩ := bind_eq_ok hcode
    cases hcode
    exact (Node.sound node hs hfirst).append hs.ne_last (blockCode_sound rest hs hlater)

theorem optionalCode_sound : ∀ (block : Option (List Node)) {s : Surroundings} {mode : Mode}
    {code : Block}, s.Suit mode → optionalCode s block = .ok code →
    Sound mode mode.base code mode.base
  | some block, s, mode, code, hs, hcode => by
    simp only [optionalCode] at hcode
    exact blockCode_sound block hs hcode
  | none, s, mode, code, _, hcode => by
    cases hcode
    exact .nil

theorem branchCode_sound : ∀ (branch : Branch Node) {s : Surroundings} {mode : Mode}
    {guard : Block × Block}, s.Suit mode → branchCode s branch = .ok guard → SoundGuard mode guard
  | ⟨condition, body⟩, s, mode, guard, hs, hcode => by
    simp only [branchCode] at hcode
    obtain ⟨condition', hcondition, hcode⟩ := bind_eq_ok hcode
    obtain ⟨body', hbody, hcode⟩ := bind_eq_ok hcode
    cases hcode
    exact ⟨Expr.sound condition hs.ne_last hcondition, blockCode_sound body hs hbody⟩

theorem branchesCode_sound : ∀ (branches : List (Branch Node)) {s : Surroundings} {mode : Mode}
    {guards : List (Block × Block)}, s.Suit mode → branchesCode s branches = .ok guards →
    ∀ guard ∈ guards, SoundGuard mode guard
  | [], s, mode, guards, _, hcode => by
    cases hcode
    exact nofun
  | branch :: rest, s, mode, guards, hs, hcode => by
    simp only [branchesCode] at hcode
    obtain ⟨first, hfirst, hcode⟩ := bind_eq_ok hcode
    obtain ⟨later, hlater, hcode⟩ := bind_eq_ok hcode
    cases hcode
    intro guard hguard
    rcases List.mem_cons.1 hguard with rfl | hguard
    · exact branchCode_sound branch hs hfirst
    · exact branchesCode_sound rest hs hlater guard hguard

theorem caseCode_sound : ∀ (block : CaseBlock Node) {target : Expr} {span : Span}
    {s : Surroundings} {mode : Mode} {guard : Block × Block}, s.Suit mode →
    caseCode s target span block = .ok guard → SoundGuard mode guard
  | ⟨values, body⟩, target, span, s, mode, guard, hs, hcode => by
    simp only [caseCode] at hcode
    obtain ⟨condition', hcondition, hcode⟩ := bind_eq_ok hcode
    obtain ⟨body', hbody, hcode⟩ := bind_eq_ok hcode
    cases hcode
    exact ⟨Expr.sound _ hs.ne_last hcondition, blockCode_sound body hs hbody⟩

theorem casesCode_sound : ∀ (cases : List (CaseBlock Node)) {target : Expr} {span : Span}
    {s : Surroundings} {mode : Mode} {guards : List (Block × Block)}, s.Suit mode →
    casesCode s target span cases = .ok guards → ∀ guard ∈ guards, SoundGuard mode guard
  | [], target, span, s, mode, guards, _, hcode => by
    cases hcode
    exact nofun
  | block :: rest, target, span, s, mode, guards, hs, hcode => by
    simp only [casesCode] at hcode
    obtain ⟨first, hfirst, hcode⟩ := bind_eq_ok hcode
    obtain ⟨later, hlater, hcode⟩ := bind_eq_ok hcode
    cases hcode
    intro guard hguard
    rcases List.mem_cons.1 hguard with rfl | hguard
    · exact caseCode_sound block hs hfirst
    · exact casesCode_sound rest hs hlater guard hguard

theorem declCode_sound : ∀ (decl : FunctionDecl Node) {span : Span} {s : Surroundings}
    {mode : Mode} {code : Block}, s.Suit mode → declCode s span decl = .ok code →
    Sound mode mode.base code mode.base
  | ⟨name, parameters, body⟩, span, s, mode, code, hs, hcode => by
    simp only [declCode] at hcode
    obtain ⟨block, hblock, hcode⟩ := bind_eq_ok hcode
    cases hcode
    exact functionCode_sound hs (blockCode_sound body suit_inFunction hblock)

theorem methodsCode_sound : ∀ (methods : List (FunctionDecl Node)) {span : Span}
    {s : Surroundings} {mode : Mode} {code : Block}, s.Suit mode →
    methodsCode s span methods = .ok code → Sound mode mode.base code mode.base
  | [], span, s, mode, code, _, hcode => by
    cases hcode
    exact .nil
  | method :: rest, span, s, mode, code, hs, hcode => by
    simp only [methodsCode] at hcode
    obtain ⟨first, hfirst, hcode⟩ := bind_eq_ok hcode
    obtain ⟨later, hlater, hcode⟩ := bind_eq_ok hcode
    cases hcode
    exact (declCode_sound method hs hfirst).append hs.ne_last
      (methodsCode_sound rest hs hlater)

end

/-- The code of a program is sound. -/
theorem Program.sound {p : Program} (hcode : p.code = .ok code) : Sound .plain 0 code 0 := by
  unfold Program.code at hcode
  obtain ⟨prologue, hprologue, hcode⟩ := bind_eq_ok hcode
  obtain ⟨body, hbody, hcode⟩ := bind_eq_ok hcode
  obtain ⟨epilogue, hepilogue, hcode⟩ := bind_eq_ok hcode
  cases hcode
  have hmode := suit_inFunction.ne_last
  exact ((blockCode_sound _ suit_inFunction hprologue).append hmode
    (blockCode_sound _ suit_inFunction hbody)).append hmode
    (blockCode_sound _ suit_inFunction hepilogue)

end statements
end ScriptVM
