import ScriptVM.Proofs.Code.Layout

/-!
# The layout of compiled programs

The code of an expression is laid out for any surroundings and that of a statement for the
surroundings that it was made in. So a program that compiles has no marks left, its bodies nest,
methods stand in classes and interfaces, arguments are loaded where a body begins, and every jump
stays in its body.
-/
namespace ScriptVM

section expressions

variable {s : Surroundings} {push : Bool} {span : Span} {op : Op} {code : Block}

theorem Laid.pushIf : Laid s none (pushIf push span) := by
  cases push with
  | false => exact .nil
  | true => exact .single ⟨rfl, rfl, nofun⟩ rfl

/-- An instruction that produces an object, and the push behind it. -/
theorem Laid.produce (hplain : op.Plain) (hjump : op.jump? = none) :
    Laid s none ([op.at span] ++ ScriptVM.pushIf push span) :=
  (Laid.single hplain hjump).append .pushIf

/-- The body of a lambda or of a generator. -/
theorem Laid.lambdaBody {names : List String} (houtput : Laid s none code) :
    Laid s (some names.length) (lambdaBody names code span) :=
  ((Laid.load names).append houtput).append (.single ⟨rfl, rfl, nofun⟩ rfl)

mutual

/-- The code of an expression is laid out. -/
theorem Expr.laid : ∀ (x : Expr) {push : Bool} {code : Block}, x.code push = .ok code →
    Laid .inFunction none code
  | .integer span text, push, code, hcode => by
    simp only [Expr.code] at hcode
    split at hcode
    · cases hcode
      exact .produce ⟨rfl, rfl, nofun⟩ rfl
    · cases hcode
  | .float span text, push, code, hcode => by
    simp only [Expr.code] at hcode
    split at hcode
    · cases hcode
      exact .produce ⟨rfl, rfl, nofun⟩ rfl
    · cases hcode
  | .string span text, push, code, hcode => by
    simp only [Expr.code] at hcode
    cases hcode
    exact .produce ⟨rfl, rfl, nofun⟩ rfl
  | .bytes span content, push, code, hcode => by
    simp only [Expr.code] at hcode
    cases hcode
    exact .produce ⟨rfl, rfl, nofun⟩ rfl
  | .bool span value, push, code, hcode => by
    simp only [Expr.code] at hcode
    cases hcode
    cases value <;> exact .produce ⟨rfl, rfl, nofun⟩ rfl
  | .none span, push, code, hcode => by
    simp only [Expr.code] at hcode
    cases hcode
    exact .produce ⟨rfl, rfl, nofun⟩ rfl
  | .tuple span values, push, code, hcode => by
    simp only [Expr.code] at hcode
    obtain ⟨items, hitems, hcode⟩ := bind_eq_ok hcode
    cases hcode
    rw [List.append_assoc]
    exact (reversedCode_laid values hitems).append (.produce ⟨rfl, rfl, nofun⟩ rfl)
  | .array span values, push, code, hcode => by
    simp only [Expr.code] at hcode
    obtain ⟨items, hitems, hcode⟩ := bind_eq_ok hcode
    cases hcode
    rw [List.append_assoc]
    exact (reversedCode_laid values hitems).append (.produce ⟨rfl, rfl, nofun⟩ rfl)
  | .hash span entries, push, code, hcode => by
    simp only [Expr.code] at hcode
    obtain ⟨pairs, hpairs, hcode⟩ := bind_eq_ok hcode
    cases hcode
    rw [List.append_assoc]
    exact (entriesCode_laid entries hpairs).append (.produce ⟨rfl, rfl, nofun⟩ rfl)
  | .identifier span name, push, code, hcode => by
    simp only [Expr.code] at hcode
    cases hcode
    exact .produce ⟨rfl, rfl, nofun⟩ rfl
  | .selector span object name, push, code, hcode => by
    simp only [Expr.code] at hcode
    obtain ⟨object', hobject, hcode⟩ := bind_eq_ok hcode
    cases hcode
    rw [List.append_assoc]
    exact (Expr.laid object hobject).append (.produce ⟨rfl, rfl, nofun⟩ rfl)
  | .index span source position, push, code, hcode => by
    simp only [Expr.code] at hcode
    obtain ⟨source', hsource, hcode⟩ := bind_eq_ok hcode
    obtain ⟨position', hposition, hcode⟩ := bind_eq_ok hcode
    cases hcode
    rw [List.append_assoc]
    exact ((Expr.laid source hsource).append (Expr.laid position hposition)).append
      (.produce ⟨rfl, rfl, nofun⟩ rfl)
  | .call span callee arguments, push, code, hcode => by
    simp only [Expr.code] at hcode
    obtain ⟨items, hitems, hcode⟩ := bind_eq_ok hcode
    obtain ⟨callee', hcallee, hcode⟩ := bind_eq_ok hcode
    cases hcode
    rw [List.append_assoc]
    exact ((reversedCode_laid arguments hitems).append (Expr.laid callee hcallee)).append
      (.produce ⟨rfl, rfl, nofun⟩ rfl)
  | .binary span l operator r, push, code, hcode => by
    simp only [Expr.code] at hcode
    obtain ⟨r', hr, hcode⟩ := bind_eq_ok hcode
    obtain ⟨l', hl, hcode⟩ := bind_eq_ok hcode
    cases hcode
    rw [List.append_assoc]
    exact ((Expr.laid r hr).append (Expr.laid l hl)).append (.produce ⟨rfl, rfl, nofun⟩ rfl)
  | .unary span operator operand, push, code, hcode => by
    simp only [Expr.code] at hcode
    split at hcode
    · obtain ⟨operand', hoperand, hcode⟩ := bind_eq_ok hcode
      cases hcode
      rw [List.append_assoc]
      exact (Expr.laid operand hoperand).append (.produce ⟨rfl, rfl, nofun⟩ rfl)
    · cases hcode
  | .parentheses _ inner, push, code, hcode => by
    simp only [Expr.code] at hcode
    exact Expr.laid inner hcode
  | .ifElse span condition result alternative, push, code, hcode => by
    simp only [Expr.code] at hcode
    obtain ⟨condition', hcondition, hcode⟩ := bind_eq_ok hcode
    obtain ⟨result', hresult, hcode⟩ := bind_eq_ok hcode
    obtain ⟨alternative', halternative, hcode⟩ := bind_eq_ok hcode
    cases hcode
    exact .choice (Expr.laid condition hcondition) (Expr.laid result hresult)
      (alternativeCode_laid alternative halternative)
  | .unlessElse span condition result alternative, push, code, hcode => by
    simp only [Expr.code] at hcode
    obtain ⟨condition', hcondition, hcode⟩ := bind_eq_ok hcode
    obtain ⟨result', hresult, hcode⟩ := bind_eq_ok hcode
    obtain ⟨alternative', halternative, hcode⟩ := bind_eq_ok hcode
    cases hcode
    exact .choice (Expr.laid condition hcondition) (Expr.laid result hresult)
      (alternativeCode_laid alternative halternative)
  | .lambda span parameters output, push, code, hcode => by
    simp only [Expr.code] at hcode
    obtain ⟨output', houtput, hcode⟩ := bind_eq_ok hcode
    cases hcode
    refine .append (.definition rfl rfl ?_ ?_) .pushIf
    · exact .lambdaBody (Expr.laid output houtput)
    · exact nofun
  | .generator span operation receivers source, push, code, hcode => by
    simp only [Expr.code] at hcode
    obtain ⟨source', hsource, hcode⟩ := bind_eq_ok hcode
    obtain ⟨operation', hoperation, hcode⟩ := bind_eq_ok hcode
    cases hcode
    rw [List.append_assoc source']
    refine ((Expr.laid source hsource).append (.definition rfl rfl ?_ ?_)).append .pushIf
    · exact .lambdaBody (Expr.laid operation hoperation)
    · exact nofun

theorem reversedCode_laid : ∀ (xs : List Expr) {code : Block}, reversedCode xs = .ok code →
    Laid .inFunction none code
  | [], code, hcode => by
    cases hcode
    exact .nil
  | x :: rest, code, hcode => by
    simp only [reversedCode] at hcode
    obtain ⟨later, hlater, hcode⟩ := bind_eq_ok hcode
    obtain ⟨first, hfirst, hcode⟩ := bind_eq_ok hcode
    cases hcode
    exact (reversedCode_laid rest hlater).append (Expr.laid x hfirst)

theorem entriesCode_laid : ∀ (xs : List (Expr × Expr)) {code : Block},
    entriesCode xs = .ok code → Laid .inFunction none code
  | [], code, hcode => by
    cases hcode
    exact .nil
  | (key, value) :: rest, code, hcode => by
    simp only [entriesCode] at hcode
    obtain ⟨later, hlater, hcode⟩ := bind_eq_ok hcode
    obtain ⟨value', hvalue, hcode⟩ := bind_eq_ok hcode
    obtain ⟨key', hkey, hcode⟩ := bind_eq_ok hcode
    cases hcode
    exact ((entriesCode_laid rest hlater).append (Expr.laid value hvalue)).append
      (Expr.laid key hkey)

theorem alternativeCode_laid : ∀ (x : Option Expr) {push : Bool} {span : Span} {code : Block},
    alternativeCode push span x = .ok code → Laid .inFunction none code
  | some x, push, span, code, hcode => by
    simp only [alternativeCode] at hcode
    exact Expr.laid x hcode
  | none, push, span, code, hcode => by
    cases hcode
    exact .produce ⟨rfl, rfl, nofun⟩ rfl

end

/-- The code of an expression is laid out for any surroundings. -/
theorem Expr.laid_in {x : Expr} (h : x.code push = .ok code) : Laid s Option.none code :=
  (x.laid h).anywhere

end expressions

section statements

variable {s : Surroundings} {span : Span} {op : Op} {code : Block}

/-- The codes of a guard and its block are laid out. -/
def LaidGuard (s : Surroundings) (guard : Block × Block) : Prop :=
  Laid s none guard.1 ∧ Laid s none guard.2

theorem Laid.chain {guards : List (Block × Block)} {alternative : Block} (inverted : Bool)
    (hguards : ∀ guard ∈ guards, LaidGuard s guard) (halternative : Laid s none alternative) :
    Laid s none (chainCode span inverted guards alternative) := by
  induction guards generalizing inverted with
  | nil => exact halternative
  | cons guard rest ih =>
    obtain ⟨hcondition, hbody⟩ := hguards guard List.mem_cons_self
    exact .choice hcondition hbody
      (ih false fun guard hguard => hguards guard (List.mem_cons_of_mem _ hguard))

theorem targetCode_laid {target : Expr} (hcode : targetCode target span = .ok code) :
    Laid s none code := by
  unfold targetCode at hcode
  split at hcode
  · cases hcode
    exact .single ⟨rfl, rfl, nofun⟩ rfl
  · obtain ⟨object, hobject, hcode⟩ := bind_eq_ok hcode
    cases hcode
    exact (Expr.laid_in hobject).append (.single ⟨rfl, rfl, nofun⟩ rfl)
  · obtain ⟨source, hsource, hcode⟩ := bind_eq_ok hcode
    obtain ⟨position, hposition, hcode⟩ := bind_eq_ok hcode
    cases hcode
    exact ((Expr.laid_in hsource).append (Expr.laid_in hposition)).append
      (.single ⟨rfl, rfl, nofun⟩ rfl)
  · cases hcode

theorem assignCode_laid {target value : Expr} {operator : AssignOp}
    (hcode : assignCode target operator value span = .ok code) : Laid s none code := by
  have hstored : ∀ {x : Expr}, (do
      let value ← x.code true
      let store ← targetCode target span
      return value ++ store) = .ok code → Laid s none code := by
    intro x hcode
    obtain ⟨value', hvalue, hcode⟩ := bind_eq_ok hcode
    obtain ⟨store, hstore, hcode⟩ := bind_eq_ok hcode
    cases hcode
    exact (Expr.laid_in hvalue).append (targetCode_laid hstore)
  unfold assignCode at hcode
  split at hcode
  · exact hstored hcode
  · exact hstored hcode

theorem basesCode_laid (bases : List Expr) (hcode : basesCode bases = .ok code) :
    Laid s none code := by
  induction bases generalizing code with
  | nil =>
    cases hcode
    exact .nil
  | cons base rest ih =>
    simp only [basesCode] at hcode
    obtain ⟨first, hfirst, hcode⟩ := bind_eq_ok hcode
    obtain ⟨later, hlater, hcode⟩ := bind_eq_ok hcode
    cases hcode
    exact (Expr.laid_in hfirst).append (ih hlater)

theorem loopMarkCode_laid {mark : Op} {name : String} (hmark : mark.isLoopMark = true)
    (hcode : loopMarkCode s mark name span = .ok code) : Laid s none code := by
  unfold loopMarkCode at hcode
  split at hcode
  · rename_i hloop
    cases hcode
    exact .mark hmark hloop
  · cases hcode

theorem functionCode_laid {name : String} {parameters : List String} {block : Block}
    (hblock : Laid .inFunction none block) :
    Laid s none (functionCode s name parameters block span) := by
  have hbody : Laid .inFunction (some parameters.length)
      ([(Op.loadArguments parameters).at span] ++ block) := (Laid.load parameters).append hblock
  unfold functionCode
  cases hclass : s.inClass with
  | true => exact .definition rfl rfl hbody fun _ => hclass
  | false => exact .definition rfl rfl hbody nofun

mutual

/-- The code of a node is laid out for the surroundings that it was made in. -/
theorem Node.laid : ∀ (node : Node) {s : Surroundings} {code : Block},
    node.code s = .ok code → Laid s none code
  | .expr e, s, code, hcode => by
    simp only [Node.code] at hcode
    exact Expr.laid_in hcode
  | .assign span target operator value, s, code, hcode => by
    simp only [Node.code] at hcode
    exact assignCode_laid hcode
  | .conditional span inverted first others alternative, s, code, hcode => by
    simp only [Node.code] at hcode
    obtain ⟨first', hfirst, hcode⟩ := bind_eq_ok hcode
    obtain ⟨others', hothers, hcode⟩ := bind_eq_ok hcode
    obtain ⟨alternative', halternative, hcode⟩ := bind_eq_ok hcode
    cases hcode
    refine .chain inverted (fun guard hguard => ?_) (optionalCode_laid alternative halternative)
    rcases List.mem_cons.1 hguard with rfl | hguard
    · exact branchCode_laid first hfirst
    · exact branchesCode_laid others hothers guard hguard
  | .switch span target cases alternative, s, code, hcode => by
    simp only [Node.code] at hcode
    obtain ⟨cases', hcases, hcode⟩ := bind_eq_ok hcode
    obtain ⟨alternative', halternative, hcode⟩ := bind_eq_ok hcode
    cases hcode
    exact .chain false (casesCode_laid cases hcases) (optionalCode_laid alternative halternative)
  | .loop span inverted condition body, s, code, hcode => by
    simp only [Node.code] at hcode
    obtain ⟨condition', hcondition, hcode⟩ := bind_eq_ok hcode
    obtain ⟨body', hbody, hcode⟩ := bind_eq_ok hcode
    cases hcode
    exact .testFirst (condition.laid hcondition) (blockCode_laid body hbody)
  | .doWhile span body condition, s, code, hcode => by
    simp only [Node.code] at hcode
    obtain ⟨body', hbody, hcode⟩ := bind_eq_ok hcode
    obtain ⟨condition', hcondition, hcode⟩ := bind_eq_ok hcode
    cases hcode
    exact .testLast (condition.laid hcondition) (blockCode_laid body hbody)
  | .forIn .., s, code, hcode => by
    simp only [Node.code] at hcode
    cases hcode
  | .redoLoop span, s, code, hcode => by
    simp only [Node.code] at hcode
    exact loopMarkCode_laid rfl hcode
  | .continueLoop span, s, code, hcode => by
    simp only [Node.code] at hcode
    exact loopMarkCode_laid rfl hcode
  | .breakLoop span, s, code, hcode => by
    simp only [Node.code] at hcode
    exact loopMarkCode_laid rfl hcode
  | .pass span, s, code, hcode => by
    simp only [Node.code] at hcode
    cases hcode
    exact .single ⟨rfl, rfl, nofun⟩ rfl
  | .exit span values, s, code, hcode => by
    simp only [Node.code] at hcode
    obtain ⟨items, hitems, hcode⟩ := bind_eq_ok hcode
    cases hcode
    exact (reversedCode_laid values hitems).anywhere.append
      (.single ⟨rfl, rfl, nofun⟩ rfl)
  | .raise span value, s, code, hcode => by
    simp only [Node.code] at hcode
    obtain ⟨value', hvalue, hcode⟩ := bind_eq_ok hcode
    cases hcode
    exact (Expr.laid_in hvalue).append (.single ⟨rfl, rfl, nofun⟩ rfl)
  | .guarded .., s, code, hcode => by
    simp only [Node.code] at hcode
    cases hcode
  | .function span decl, s, code, hcode => by
    simp only [Node.code] at hcode
    exact declCode_laid decl hcode
  | .classDef span name bases body, s, code, hcode => by
    simp only [Node.code] at hcode
    obtain ⟨bases', hbases, hcode⟩ := bind_eq_ok hcode
    obtain ⟨body', hbody, hcode⟩ := bind_eq_ok hcode
    cases hcode
    rw [List.append_assoc]
    exact (basesCode_laid bases hbases).append
      (.definition rfl rfl (blockCode_laid body hbody) nofun)
  | .interfaceDef span name bases methods, s, code, hcode => by
    simp only [Node.code] at hcode
    obtain ⟨bases', hbases, hcode⟩ := bind_eq_ok hcode
    obtain ⟨body', hbody, hcode⟩ := bind_eq_ok hcode
    cases hcode
    rw [List.append_assoc]
    exact (basesCode_laid bases hbases).append
      (.definition rfl rfl (methodsCode_laid methods hbody) nofun)
  | .moduleDef span name body, s, code, hcode => by
    simp only [Node.code] at hcode
    obtain ⟨body', hbody, hcode⟩ := bind_eq_ok hcode
    cases hcode
    exact .definition rfl rfl (blockCode_laid body hbody) nofun

theorem blockCode_laid : ∀ (block : List Node) {s : Surroundings} {code : Block},
    blockCode s block = .ok code → Laid s none code
  | [], s, code, hcode => by
    cases hcode
    exact .nil
  | node :: rest, s, code, hcode => by
    simp only [blockCode] at hcode
    obtain ⟨first, hfirst, hcode⟩ := bind_eq_ok hcode
    obtain ⟨later, hlater, hcode⟩ := bind_eq_ok hcode
    cases hcode
    exact (Node.laid node hfirst).append (blockCode_laid rest hlater)

theorem optionalCode_laid : ∀ (block : Option (List Node)) {s : Surroundings} {code : Block},
    optionalCode s block = .ok code → Laid s none code
  | some block, s, code, hcode => by
    simp only [optionalCode] at hcode
    exact blockCode_laid block hcode
  | none, s, code, hcode => by
    cases hcode
    exact .nil

theorem branchCode_laid : ∀ (branch : Branch Node) {s : Surroundings} {guard : Block × Block},
    branchCode s branch = .ok guard → LaidGuard s guard
  | ⟨condition, body⟩, s, guard, hcode => by
    simp only [branchCode] at hcode
    obtain ⟨condition', hcondition, hcode⟩ := bind_eq_ok hcode
    obtain ⟨body', hbody, hcode⟩ := bind_eq_ok hcode
    cases hcode
    exact ⟨Expr.laid_in hcondition, blockCode_laid body hbody⟩

theorem branchesCode_laid : ∀ (branches : List (Branch Node)) {s : Surroundings}
    {guards : List (Block × Block)}, branchesCode s branches = .ok guards →
    ∀ guard ∈ guards, LaidGuard s guard
  | [], s, guards, hcode => by
    cases hcode
    exact nofun
  | branch :: rest, s, guards, hcode => by
    simp only [branchesCode] at hcode
    obtain ⟨first, hfirst, hcode⟩ := bind_eq_ok hcode
    obtain ⟨later, hlater, hcode⟩ := bind_eq_ok hcode
    cases hcode
    intro guard hguard
    rcases List.mem_cons.1 hguard with rfl | hguard
    · exact branchCode_laid branch hfirst
    · exact branchesCode_laid rest hlater guard hguard

theorem caseCode_laid : ∀ (block : CaseBlock Node) {target : Expr} {span : Span}
    {s : Surroundings} {guard : Block × Block}, caseCode s target span block = .ok guard →
    LaidGuard s guard
  | ⟨values, body⟩, target, span, s, guard, hcode => by
    simp only [caseCode] at hcode
    obtain ⟨condition', hcondition, hcode⟩ := bind_eq_ok hcode
    obtain ⟨body', hbody, hcode⟩ := bind_eq_ok hcode
    cases hcode
    exact ⟨Expr.laid_in hcondition, blockCode_laid body hbody⟩

theorem casesCode_laid : ∀ (cases : List (CaseBlock Node)) {target : Expr} {span : Span}
    {s : Surroundings} {guards : List (Block × Block)}, casesCode s target span cases = .ok guards →
    ∀ guard ∈ guards, LaidGuard s guard
  | [], target, span, s, guards, hcode => by
    cases hcode
    exact nofun
  | block :: rest, target, span, s, guards, hcode => by
    simp only [casesCode] at hcode
    obtain ⟨first, hfirst, hcode⟩ := bind_eq_ok hcode
    obtain ⟨later, hlater, hcode⟩ := bind_eq_ok hcode
    cases hcode
    intro guard hguard
    rcases List.mem_cons.1 hguard with rfl | hguard
    · exact caseCode_laid block hfirst
    · exact casesCode_laid rest hlater guard hguard

theorem declCode_laid : ∀ (decl : FunctionDecl Node) {span : Span} {s : Surroundings}
    {code : Block}, declCode s span decl = .ok code → Laid s none code
  | ⟨name, parameters, body⟩, span, s, code, hcode => by
    simp only [declCode] at hcode
    obtain ⟨block, hblock, hcode⟩ := bind_eq_ok hcode
    cases hcode
    exact functionCode_laid (blockCode_laid body hblock)

theorem methodsCode_laid : ∀ (methods : List (FunctionDecl Node)) {span : Span}
    {s : Surroundings} {code : Block}, methodsCode s span methods = .ok code → Laid s none code
  | [], span, s, code, hcode => by
    cases hcode
    exact .nil
  | method :: rest, span, s, code, hcode => by
    simp only [methodsCode] at hcode
    obtain ⟨first, hfirst, hcode⟩ := bind_eq_ok hcode
    obtain ⟨later, hlater, hcode⟩ := bind_eq_ok hcode
    cases hcode
    exact (declCode_laid method hfirst).append (methodsCode_laid rest hlater)

end

/-- The code of a program is laid out for a body that no loop and no class is around. -/
theorem Program.laid {p : Program} (hcode : p.code = .ok code) : Laid .inFunction none code := by
  unfold Program.code at hcode
  obtain ⟨prologue, hprologue, hcode⟩ := bind_eq_ok hcode
  obtain ⟨body, hbody, hcode⟩ := bind_eq_ok hcode
  obtain ⟨epilogue, hepilogue, hcode⟩ := bind_eq_ok hcode
  cases hcode
  exact ((blockCode_laid _ hprologue).append (blockCode_laid _ hbody)).append
    (blockCode_laid _ hepilogue)

end statements

/-- The layout of code as it is handed to the machine. -/
structure LaidOut (code : Block) : Prop where
  /-- No loop control is left that has not become a jump. -/
  unmarked : ∀ i ∈ code, i.op.isLoopMark = false
  /-- Every body is in the code. -/
  contained : ∀ (p : Nat) (i : Instruction), code[p]? = some i →
    p + 1 + i.op.bodyLength ≤ code.length
  /-- A body whose definition is in another body ends in it. -/
  nested : ∀ (d p : Nat) (c i : Instruction), code[d]? = some c → code[p]? = some i →
    Encloses code d p → p + i.op.bodyLength ≤ d + c.op.bodyLength
  /-- The innermost body around a method is that of a class or an interface. -/
  methods : ∀ (p : Nat) (i : Instruction) (info : FunctionInfo), code[p]? = some i →
    i.op = .newMethod info → ∃ d c, code[d]? = some c ∧ Innermost code d p ∧
      ∃ info, c.op = .newClass info ∨ c.op = .newInterface info
  /-- Arguments are loaded by the first instruction of a body that takes as many. -/
  arguments : ∀ (p : Nat) (i : Instruction) (names : List String), code[p]? = some i →
    i.op = .loadArguments names → ∃ d c, p = d + 1 ∧ code[d]? = some c ∧ Encloses code d p ∧
      c.op.arity? = some names.length
  /-- A jump leads to a place of the code, its end included, that is in each body around the jump,
  its end included, and in no other body. -/
  jumps : ∀ (p : Nat) (i : Instruction) (offset : Int), code[p]? = some i →
    i.op.jump? = some offset →
      ∃ t : Nat, (t : Int) = p + 1 + offset ∧ t ≤ code.length ∧ Reaches code p t

/-- The code of every program that compiles is laid out. -/
theorem Program.laidOut {p : Program} {code : Block} (hcode : p.code = .ok code) :
    LaidOut code := by
  have h := Program.laid hcode
  refine ⟨h.unmarked rfl, fun p i hi => (h p i hi).contained, ?_, ?_, ?_,
    fun p i offset hi => (h p i hi).jump offset⟩
  · intro d p c i hd hi hinside
    rw [← bodyAt_of_getElem? hd]
    exact (h p i hi).nested d hinside
  · intro p i info hi hop
    rcases (h p i hi).method (by rw [hop]; rfl) with ⟨hclass, -⟩ | ⟨d, c, hc, hclass, hinner⟩
    · cases hclass
    · refine ⟨d, c, hc, hinner, ?_⟩
      cases hdef : c.op with
      | newClass info => exact ⟨info, .inl rfl⟩
      | newInterface info => exact ⟨info, .inr rfl⟩
      | _ =>
        rw [hdef] at hclass
        cases hclass
  · intro p i names hi hop
    rcases (h p i hi).load names hop with ⟨-, hnone⟩ | ⟨d, c, hd, hc, harity, hencloses⟩
    · cases hnone
    · exact ⟨d, c, hd, hc, hencloses, harity⟩

/-- A class with a method that leaves a loop. -/
def Program.methodWithLoop : Program :=
  .ofBody [.classDef (.onLine 1) "A" [] [.function (.onLine 2) ⟨"f", ["x"],
    [.loop (.onLine 3) false (.identifier (.onLine 3) "x") [.breakLoop (.onLine 4)]]⟩]]

/-- The method is in the body of the class, and its loop control jumps over the way back. -/
theorem Program.laidOut_method :
    Program.methodWithLoop.code = .ok
      [(Op.newClass ⟨"A", 7, 0⟩).at (.onLine 1), (Op.newMethod ⟨some "f", 6, 1⟩).at (.onLine 2),
        (Op.loadArguments ["x"]).at (.onLine 2), (Op.getIdentifier "x").at (.onLine 3),
        Op.push.at (.onLine 3), (Op.ifJump 2).at (.onLine 3), (Op.jump 1).at (.onLine 4),
        (Op.jumpBack 5).at (.onLine 3)] ∧
    LaidOut
      [(Op.newClass ⟨"A", 7, 0⟩).at (.onLine 1), (Op.newMethod ⟨some "f", 6, 1⟩).at (.onLine 2),
        (Op.loadArguments ["x"]).at (.onLine 2), (Op.getIdentifier "x").at (.onLine 3),
        Op.push.at (.onLine 3), (Op.ifJump 2).at (.onLine 3), (Op.jump 1).at (.onLine 4),
        (Op.jumpBack 5).at (.onLine 3)] :=
  ⟨rfl, Program.laidOut (p := Program.methodWithLoop) rfl⟩

end ScriptVM
