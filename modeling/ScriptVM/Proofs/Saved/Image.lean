import ScriptVM.Saved.Image

/-!
# Reading an image back

The tree of an image is read as that image, in either form of saved code: a record is read as the
fields it was made of, and a tag is found where it stands among the known ones. Of an instruction
this takes one thing only, that its counts, offsets, lengths and its line are machine words.

The second half says which trees images are. A `Tree.Within` has no more levels than it is given,
its integers have 64 bits, its keys are texts, and its floats and lengths are those that a form of
saved code allows. A reader and a writer that agree on these trees agree on images.
-/
namespace ScriptVM

/-! ## Records and tags -/

namespace Tree

variable {d : Dialect} {names : List String} {α : Type}

theorem idxOf?_append_cons {before after : List String} {s : String} (h : s ∉ before) :
    (before ++ s :: after).idxOf? s = some before.length := by
  induction before with
  | nil => simp [List.idxOf?_cons]
  | cons t before ih =>
    obtain ⟨hne, hmem⟩ : s ≠ t ∧ s ∉ before := by simpa using h
    simp [List.idxOf?_cons, Ne.symm hne, ih hmem]

/-- The fields of a record are filled in one after the other. -/
theorem collectFields_record (before fields : List (String × Tree))
    (hnodup : ((before ++ fields).map (·.1)).Nodup) :
    collectFields d ((before ++ fields).map (·.1))
        (before.map (fun field => some field.2) ++ List.replicate fields.length none)
        (fields.map fun field => (.text field.1, field.2)) =
      some ((before ++ fields).map fun field => some field.2) := by
  induction fields generalizing before with
  | nil => simp [collectFields]
  | cons field fields ih =>
    have hnew : field.1 ∉ before.map (·.1) := by
      rw [List.map_append, List.nodup_append] at hnodup
      exact fun hmem => hnodup.2.2 _ hmem _ (by simp) rfl
    have hplace : ((before ++ field :: fields).map (·.1)).idxOf? field.1 = some before.length := by
      rw [List.map_append, List.map_cons, idxOf?_append_cons hnew, List.length_map]
    have hrest := ih (before ++ [field]) (by simpa using hnodup)
    simp only [List.append_assoc, List.cons_append, List.nil_append, List.map_append,
      List.map_cons, List.map_nil] at hrest hplace ⊢
    simp only [collectFields, identify, hplace]
    simpa [List.replicate_succ] using hrest

/-- A record is read as the fields it was made of. -/
theorem fields?_record (fields : List (String × Tree)) (hnames : fields.map (·.1) = names)
    (hnodup : names.Nodup) :
    (record fields).fields? d names = some (fields.map fun field => some field.2) := by
  subst hnames
  simpa [record, fields?] using collectFields_record [] fields hnodup

/-! ## Values -/

theorem mapM_map {β : Type} {write : α → β} {read : β → Option α} (xs : List α)
    (h : ∀ x ∈ xs, read (write x) = some x) : (xs.map write).mapM read = some xs := by
  induction xs with
  | nil => rfl
  | cons x xs ih =>
    have hhead : read (write x) = some x := h x (by simp)
    have htail := ih fun y hy => h y (by simp [hy])
    simp [List.mapM_cons, hhead, htail]

/-- A list is read as the values it was made of. -/
theorem list?_list {write : α → Tree} {read : Tree → Option α} (xs : List α)
    (h : ∀ x ∈ xs, read (write x) = some x) : (Tree.list (xs.map write)).list? read = some xs :=
  mapM_map xs h

theorem natural?_integer {limit n : Nat} (h : n ≤ limit) :
    (Tree.integer n).natural? limit = some n := by
  simp [natural?, h]

theorem count?_integer {n : Nat} (h : n ≤ Text.maxCount) : (Tree.integer n).count? = some n :=
  natural?_integer h

theorem byte?_integer (b : UInt8) : (Tree.integer b.toNat).byte? = some b := by
  have h : b.toNat ≤ 255 := Nat.le_of_lt_succ b.toNat_lt
  rw [byte?, natural?_integer h, Option.map_some, UInt8.ofNat_toNat]

theorem int64?_integer (n : Int64) : (Tree.integer n.toInt).int64? = some n := by
  have hlow := n.le_toInt
  have hhigh := n.toInt_lt
  rw [int64?, Text.int64OfInt?, if_pos (by omega), Int64.ofInt_toInt]

/-- A name that may be missing. -/
theorem optional?_text (name : Option String) :
    (name.elim Tree.null Tree.text).optional? text? = some name := by
  cases name <;> rfl

/-- A count that may be missing. -/
theorem optional?_count (line : Option Nat) (h : ∀ n ∈ line, n ≤ Text.maxCount) :
    (line.elim Tree.null fun n => Tree.integer n).optional? count? = some line := by
  cases line with
  | none => rfl
  | some n => simp [optional?, count?_integer (h n rfl)]

end Tree

/-! ## Words -/

/-- The unsigned words of an operand. -/
def Operand.words : Operand → List Nat
  | .count n | .offset n => [n]
  | .function info => [info.bodyLength, info.arity]
  | .classInfo info => [info.bodyLength, info.baseCount]
  | .generator info => [info.receiverCount, info.operationLength]
  | _ => []

/-- Whether an instruction's counts, offsets, lengths and its line are machine words. -/
def Instruction.HasWords (i : Instruction) : Prop :=
  ∀ n ∈ i.op.operand.words ++ i.line.toList, n ≤ Text.maxCount

instance (i : Instruction) : Decidable i.HasWords := by
  unfold Instruction.HasWords
  infer_instance

/-! ## Images -/

section reading

variable (d : Dialect)

theorem FunctionInfo.ofTree?_toTree (info : FunctionInfo)
    (h : ∀ n ∈ (Operand.function info).words, n ≤ Text.maxCount) :
    ofTree? d info.toTree = some info := by
  have hfields : info.toTree.fields? d fieldNames = _ := Tree.fields?_record _ rfl (by decide)
  have hlength : info.bodyLength ≤ Text.maxCount := h _ (by simp [Operand.words])
  have harity : info.arity ≤ Text.maxCount := h _ (by simp [Operand.words])
  simp [ofTree?, hfields, Tree.optional?_text, Tree.count?_integer, hlength, harity]

theorem ClassInfo.ofTree?_toTree (info : ClassInfo)
    (h : ∀ n ∈ (Operand.classInfo info).words, n ≤ Text.maxCount) :
    ofTree? d info.toTree = some info := by
  have hfields : info.toTree.fields? d fieldNames = _ := Tree.fields?_record _ rfl (by decide)
  have hlength : info.bodyLength ≤ Text.maxCount := h _ (by simp [Operand.words])
  have hbases : info.baseCount ≤ Text.maxCount := h _ (by simp [Operand.words])
  simp [ofTree?, hfields, Tree.text?, Tree.count?_integer, hlength, hbases]

theorem GeneratorInfo.ofTree?_toTree (info : GeneratorInfo)
    (h : ∀ n ∈ (Operand.generator info).words, n ≤ Text.maxCount) :
    ofTree? d info.toTree = some info := by
  have hfields : info.toTree.fields? d fieldNames = _ := Tree.fields?_record _ rfl (by decide)
  have hreceivers : info.receiverCount ≤ Text.maxCount := h _ (by simp [Operand.words])
  have hlength : info.operationLength ≤ Text.maxCount := h _ (by simp [Operand.words])
  simp [ofTree?, hfields, Tree.count?_integer, hreceivers, hlength]

theorem operatorOfTree?_unary (operator : UnaryOperator) :
    operatorOfTree? d unaryOperators UnaryOperator.name (.text operator.name) = some operator := by
  cases operator <;> rfl

theorem operatorOfTree?_binary (operator : BinaryOperator) :
    operatorOfTree? d binaryOperators BinaryOperator.name (.text operator.name) =
      some operator := by
  cases operator <;> rfl

/-- The tree of an operation is read as that operation. -/
theorem Op.ofTree?_toTree (op : Op) (h : ∀ n ∈ op.operand.words, n ≤ Text.maxCount) :
    ofTree? d op.toTree = some op := by
  have hcount : ∀ n, op.operand.words = [n] → (Tree.integer n).count? = some n :=
    fun n hn => Tree.count?_integer (h n (by simp [hn]))
  cases op with
  | newString s | getIdentifier s | selectName s | assignIdentifier s | assignSelector s => rfl
  | newBytes content =>
    exact congrArg (Option.map Op.newBytes)
      (Tree.list?_list content fun b _ => Tree.byte?_integer b)
  | newInteger n => exact congrArg (Option.map Op.newInteger) (Tree.int64?_integer n)
  | newFloat x => rfl
  | newTuple n | newArray n | newHash n | methodInvocation n | exit n
  | jump n | jumpBack n | ifJump n | unlessJump n | ifJumpBack n | unlessJumpBack n =>
    exact congrArg (Option.map _) (hcount n rfl)
  | unary operator => exact congrArg (Option.map Op.unary) (operatorOfTree?_unary d operator)
  | binary operator => exact congrArg (Option.map Op.binary) (operatorOfTree?_binary d operator)
  | loadArguments names =>
    exact congrArg (Option.map Op.loadArguments) (Tree.list?_list names fun _ _ => rfl)
  | newFunction info | newLambda info | newMethod info =>
    exact congrArg (Option.map _) (FunctionInfo.ofTree?_toTree d info h)
  | newGenerator info =>
    exact congrArg (Option.map Op.newGenerator) (GeneratorInfo.ofTree?_toTree d info h)
  | newClass info | newInterface info | newModule info =>
    exact congrArg (Option.map _) (ClassInfo.ofTree?_toTree d info h)
  | getTrue | getFalse | getNone | push | index | assignIndex | nop | redoMark | continueMark
  | breakMark | raise => rfl

/-- The record of an instruction is read as that instruction. -/
theorem Instruction.ofTree?_toTree (i : Instruction) (h : i.HasWords) :
    ofTree? d i.toTree = some i := by
  have hfields : i.toTree.fields? d fieldNames = _ := Tree.fields?_record _ rfl (by decide)
  have hop : Op.ofTree? d.inner i.op.toTree = some i.op :=
    Op.ofTree?_toTree d.inner i.op fun n hn => h n (List.mem_append_left _ hn)
  have hline := Tree.optional?_count i.line fun n hn => h n (by simp_all)
  simp [ofTree?, hfields, hop, hline]

/-- The record of an image of code is read as that image. -/
theorem Image.ofTree?_toTree (code : List Instruction) (h : ∀ i ∈ code, i.HasWords) :
    ofTree? d (ofCode code).toTree = some (ofCode code) := by
  have hfields : (ofCode code).toTree.fields? d fieldNames = _ :=
    Tree.fields?_record _ rfl (by decide)
  have hformat : (Tree.integer imageFormat).natural? 0xFFFFFFFF = some imageFormat :=
    Tree.natural?_integer (by decide)
  have hcode : (Tree.list (code.map Instruction.toTree)).list?
      (Instruction.ofTree? d.inner.inner) = some code :=
    Tree.list?_list code fun i hi => Instruction.ofTree?_toTree _ i (h i hi)
  rw [ofTree?, hfields]
  simp [ofCode, hformat, hcode]

end reading

/-! ## The trees of images -/

/-- What a form of saved code can hold: which floats, and texts and lists of which lengths. Short
ones are never refused. -/
structure Limits where
  float : FloatBits → Prop
  length : Nat → Prop
  short : ∀ n < 32, length n

/-- Whether a text has a length in bytes that a form of saved code can hold. -/
def Limits.text (l : Limits) (s : String) : Prop := l.length s.utf8ByteSize

namespace Tree

/-- A tree of at most some number of levels that is made of null, integers of 64 bits, floats,
texts, lists, and maps whose keys are texts, all within the limits of a form of saved code. -/
inductive Within (l : Limits) : Nat → Tree → Prop
  | null {depth : Nat} : Within l depth .null
  | integer {depth : Nat} {n : Int} (hlow : -0x8000000000000000 ≤ n)
      (hhigh : n < 0x10000000000000000) : Within l depth (.integer n)
  | float {depth : Nat} {x : FloatBits} (h : l.float x) : Within l depth (.float x)
  | text {depth : Nat} {s : String} (h : l.text s) : Within l depth (.text s)
  | list {depth : Nat} {items : List Tree} (hlength : l.length items.length)
      (hitems : ∀ t ∈ items, Within l depth t) : Within l (depth + 1) (.list items)
  | map {depth : Nat} {entries : List (Tree × Tree)} (hlength : l.length entries.length)
      (hkeys : ∀ e ∈ entries, ∃ s, e.1 = .text s ∧ l.text s)
      (hvalues : ∀ e ∈ entries, Within l depth e.2) : Within l (depth + 1) (.map entries)

variable {l : Limits} {depth : Nat}

theorem Within.natural {n : Nat} (h : n ≤ Text.maxCount) : Within l depth (.integer n) := by
  rw [Text.maxCount] at h
  exact .integer (by omega) (by omega)

/-- A record is within the limits if its fields are. Its names are few and short. -/
theorem Within.record {fields : List (String × Tree)} (names : List String)
    (hnames : fields.map (·.1) = names) (hfew : names.length < 32)
    (hshort : ∀ s ∈ names, s.utf8ByteSize < 32)
    (hfields : ∀ field ∈ fields, Within l depth field.2) :
    Within l (depth + 1) (Tree.record fields) := by
  subst hnames
  refine .map (l.short _ (by simpa using hfew)) ?_ ?_ <;> intro e he <;>
    obtain ⟨field, hmem, rfl⟩ := List.mem_map.1 he
  · exact ⟨field.1, rfl, l.short _ (hshort _ (List.mem_map_of_mem hmem))⟩
  · exact hfields field hmem

end Tree

/-- Whether the floats, texts and lists of an operand are within limits. -/
def Operand.Within (l : Limits) : Operand → Prop
  | .float x => l.float x
  | .string s => l.text s
  | .bytes content => l.length content.length
  | .names list => l.length list.length ∧ ∀ s ∈ list, l.text s
  | .function info => ∀ s ∈ info.name, l.text s
  | .classInfo info => l.text info.name
  | _ => True

section within

variable {l : Limits} (depth : Nat)

theorem UnaryOperator.utf8ByteSize_name (operator : UnaryOperator) :
    operator.name.utf8ByteSize < 32 := by
  cases operator <;> decide

theorem BinaryOperator.utf8ByteSize_name (operator : BinaryOperator) :
    operator.name.utf8ByteSize < 32 := by
  cases operator <;> decide

theorem Op.tag_mem_opTags (op : Op) : op.tag ∈ opTags := by
  cases op <;> simp [tag, opTags]

theorem Op.utf8ByteSize_tag (op : Op) : op.tag.utf8ByteSize < 32 :=
  (by decide : ∀ s ∈ opTags, s.utf8ByteSize < 32) op.tag op.tag_mem_opTags

theorem FunctionInfo.within_toTree (info : FunctionInfo) (h : (Operand.function info).Within l)
    (hwords : ∀ n ∈ (Operand.function info).words, n ≤ Text.maxCount) :
    info.toTree.Within l (depth + 1) := by
  have hname : (info.name.elim Tree.null Tree.text).Within l depth := by
    cases hn : info.name with
    | none => exact .null
    | some s => exact .text (h s hn)
  refine Tree.Within.record fieldNames rfl (by decide) (by decide) ?_
  simp only [List.mem_cons, List.not_mem_nil, or_false]
  rintro field (rfl | rfl | rfl)
  · exact hname
  · exact .natural (hwords _ (by simp [Operand.words]))
  · exact .natural (hwords _ (by simp [Operand.words]))

theorem ClassInfo.within_toTree (info : ClassInfo) (h : (Operand.classInfo info).Within l)
    (hwords : ∀ n ∈ (Operand.classInfo info).words, n ≤ Text.maxCount) :
    info.toTree.Within l (depth + 1) := by
  refine Tree.Within.record fieldNames rfl (by decide) (by decide) ?_
  simp only [List.mem_cons, List.not_mem_nil, or_false]
  rintro field (rfl | rfl | rfl)
  · exact .text h
  · exact .natural (hwords _ (by simp [Operand.words]))
  · exact .natural (hwords _ (by simp [Operand.words]))

theorem GeneratorInfo.within_toTree (info : GeneratorInfo)
    (hwords : ∀ n ∈ (Operand.generator info).words, n ≤ Text.maxCount) :
    info.toTree.Within l (depth + 1) := by
  refine Tree.Within.record fieldNames rfl (by decide) (by decide) ?_
  simp only [List.mem_cons, List.not_mem_nil, or_false]
  rintro field (rfl | rfl)
  · exact .natural (hwords _ (by simp [Operand.words]))
  · exact .natural (hwords _ (by simp [Operand.words]))

/-- What an operation carries is a tree within the limits. -/
theorem Op.within_payload? {op : Op} {payload : Tree} (h : op.operand.Within l)
    (hwords : ∀ n ∈ op.operand.words, n ≤ Text.maxCount) (hpayload : op.payload? = some payload) :
    payload.Within l (depth + 1) := by
  unfold payload? at hpayload
  generalize op.operand = operand at h hwords hpayload
  cases operand <;> simp only [Option.some.injEq, reduceCtorEq] at hpayload <;> subst hpayload
  case integer n =>
    have hlow := n.le_toInt
    have hhigh := n.toInt_lt
    exact .integer (by omega) (by omega)
  case float x => exact .float h
  case string s => exact .text h
  case bytes content =>
    refine .list (by simpa [Operand.Within] using h) ?_
    simp only [List.mem_map, forall_exists_index, and_imp, forall_apply_eq_imp_iff₂]
    intro b _
    have hbyte := b.toNat_lt
    exact .natural (by rw [Text.maxCount]; omega)
  case names list =>
    refine .list (by simpa using h.1) ?_
    simp only [List.mem_map, forall_exists_index, and_imp, forall_apply_eq_imp_iff₂]
    exact fun s hs => .text (h.2 s hs)
  case count n => exact .natural (hwords n (by simp [Operand.words]))
  case offset n => exact .natural (hwords n (by simp [Operand.words]))
  case unary operator => exact .text (l.short _ operator.utf8ByteSize_name)
  case binary operator => exact .text (l.short _ operator.utf8ByteSize_name)
  case function info => exact info.within_toTree depth h hwords
  case classInfo info => exact info.within_toTree depth h hwords
  case generator info => exact info.within_toTree depth hwords

theorem Op.within_toTree {op : Op} (h : op.operand.Within l)
    (hwords : ∀ n ∈ op.operand.words, n ≤ Text.maxCount) :
    op.toTree.Within l (depth + 2) := by
  unfold toTree
  split
  · exact .text (l.short _ op.utf8ByteSize_tag)
  · rename_i payload hpayload
    refine .map (l.short 1 (by decide)) ?_ ?_ <;> simp only [List.mem_singleton, forall_eq]
    · exact ⟨op.tag, rfl, l.short _ op.utf8ByteSize_tag⟩
    · exact within_payload? depth h hwords hpayload

theorem Instruction.within_toTree {i : Instruction} (h : i.op.operand.Within l)
    (hwords : i.HasWords) : i.toTree.Within l (depth + 3) := by
  have hline : (i.line.elim Tree.null fun n => Tree.integer n).Within l (depth + 2) := by
    cases hn : i.line with
    | none => exact .null
    | some n => exact .natural (hwords n (by simp [hn]))
  refine Tree.Within.record fieldNames rfl (by decide) (by decide) ?_
  simp only [List.mem_cons, List.not_mem_nil, or_false]
  rintro field (rfl | rfl)
  · exact Op.within_toTree depth h fun n hn => hwords n (List.mem_append_left _ hn)
  · exact hline

/-- Images of code within the limits are trees within the limits, of five levels. -/
theorem Image.within_toTree {code : List Instruction} (hlength : l.length code.length)
    (h : ∀ i ∈ code, i.op.operand.Within l) (hwords : ∀ i ∈ code, i.HasWords) :
    (ofCode code).toTree.Within l (depth + 5) := by
  refine Tree.Within.record fieldNames rfl (by decide) (by decide) ?_
  simp only [List.mem_cons, List.not_mem_nil, or_false]
  rintro field (rfl | rfl)
  · exact .natural (show imageFormat ≤ Text.maxCount by decide)
  · refine .list (by simpa [ofCode] using hlength) ?_
    simp only [ofCode, List.mem_map, forall_exists_index, and_imp, forall_apply_eq_imp_iff₂]
    exact fun i hi => Instruction.within_toTree depth (h i hi) (hwords i hi)

end within
end ScriptVM
