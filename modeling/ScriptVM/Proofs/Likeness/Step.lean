import ScriptVM.Machine.Execution
import ScriptVM.Proofs.Likeness.Call

/-!
# Steps on machines that are alike

A likeness that also says what happens to running frames and to the frames that are closed over
makes all steps of arbitrary code agree, as soon as bodies run in frames of their own agree. Where less
may be known after a call, a frame that runs goes on running all the same.
-/
namespace ScriptVM

namespace Likeness

/-- What a likeness says about frames. -/
structure Frames (L : Likeness) where
  /-- The frames that may run. -/
  runs : L.World → FrameId → Prop
  /-- The frames that something closes over. -/
  scope : L.World → FrameId → Prop
  runs_mono : ∀ {w w' id}, L.le w w' → runs w id → runs w' id
  scope_of_function : ∀ {w f}, L.function w f → scope w f.scope
  function_of_scope : ∀ {w f}, scope w f.scope → L.function w f
  scope_of_classDef : ∀ {w c}, L.classDef w c → scope w c.scope
  classDef_of_scope : ∀ {w c}, scope w c.scope → L.classDef w c
  generator_of_scope : ∀ {w g}, scope w g.scope → g.frame = none → L.generator w g
  generator_suspend : ∀ {w g} (i), L.generator w g → L.generator w { g with status := .suspended i }
  admits_frame : ∀ {c : Cause}, c = .stackUnderflow ∨ c = .jumpOutOfRange ∨
    c = .unresolvedLoopControl ∨ (∃ v, c = .raised v ∧ L.good v) → L.admits c
  define : ∀ {w id} (name) {v}, runs w id → L.good v →
    L.Agree w (Run.define id name v) (Run.define id name v) fun _ _ => True
  push : ∀ {w id v}, runs w id → L.good v →
    L.Agree w (Run.push id v) (Run.push id v) fun _ _ => True
  pop : ∀ {w id}, runs w id → L.Agree w (Run.pop id) (Run.pop id) fun _ v => L.good v
  popMany : ∀ {w id} (count), runs w id →
    L.Agree w (Run.popMany id count) (Run.popMany id count) fun _ vs => ∀ v ∈ vs, L.good v
  top : ∀ {w id}, runs w id → L.Agree w (Run.top id) (Run.top id) fun _ v => L.good v
  last : ∀ {w id}, runs w id →
    L.Agree w (Run.last id) (Run.last id) fun _ r => ∀ v ∈ r, L.good v
  setLast : ∀ {w id v}, runs w id → L.good v →
    L.Agree w (Run.setLast id v) (Run.setLast id v) fun _ _ => True
  assign : ∀ {w id} (name) {v}, runs w id → L.good v →
    L.Agree w (Run.assign id name v) (Run.assign id name v) fun _ _ => True
  resolve : ∀ {w id} (name), runs w id →
    L.Agree w (Run.resolve id name) (Run.resolve id name) fun _ r => ∀ v ∈ r, L.good v
  retain : ∀ {w id}, runs w id →
    L.Agree w (Run.retain id) (Run.retain id) fun w' scopeId => scope w' scopeId
  retainMethodScope : ∀ {w id}, runs w id →
    L.Agree w (Run.methodScope id >>= Run.retain) (Run.methodScope id >>= Run.retain)
      fun w' scopeId => scope w' scopeId
  trace : ∀ {w} (position instruction),
    L.Agree w (Run.trace position instruction) (Run.trace position instruction) fun _ _ => True

/-- The value that a body may have been left with is good. -/
def GoodFlow (L : Likeness) : Flow → Prop
  | .next _ => True
  | .leave v _ => L.good v

variable {L : Likeness} {F : Frames L} {w : L.World} {id : FrameId}

open Run Engine

/-! ## Parts of steps that call nothing -/

theorem agree_produce (hid : F.runs w id) {k : Kind} (hk : L.SoundKind w k) :
    L.Agree w (produce id k) (produce id k) fun _ _ => True :=
  (agree_newObject hk).bind fun _ _ hw hv => F.setLast (F.runs_mono hw hid) hv

theorem agree_goBack (F : Frames L) (c : Cursor) (offset : Nat) :
    L.Agree w (goBack c offset) (goBack c offset) fun _ flow => L.GoodFlow flow := by
  unfold goBack
  split
  · exact .pure trivial
  · exact .fail (F.admits_frame (by simp))

theorem agree_exitValue {vs : List Value} (h : ∀ v ∈ vs, L.good v) :
    L.Agree w (exitValue vs) (exitValue vs) fun _ v => L.good v := by
  match vs with
  | [] => exact agree_newNone
  | [v] => exact .pure (h v (by simp))
  | a :: b :: rest => exact agree_newObject h

theorem agree_loadArguments (hid : F.runs w id) (names : List String) :
    L.Agree w (loadArguments id names) (loadArguments id names) fun _ _ => True := by
  induction names generalizing w with
  | nil => exact .pure trivial
  | cons name rest ih =>
    refine (F.pop hid).bind fun w₁ v hw₁ hv => ?_
    have hid := F.runs_mono hw₁ hid
    exact (F.define name hid hv).bind fun w₂ _ hw₂ _ => ih (F.runs_mono hw₂ hid)

theorem agree_newFunction (hid : F.runs w id) (c : Cursor) (info : FunctionInfo) :
    L.Agree w (newFunction id c info) (newFunction id c info) fun _ r => L.good r.1 := by
  refine (F.retain hid).bind fun _ scope _ hscope => ?_
  have hk : L.SoundKind _ (.function
      ⟨.code ⟨info.name, info.arity, (c.cut info.bodyLength).1, scope⟩, none⟩) :=
    ⟨F.function_of_scope hscope, by simp⟩
  exact (agree_newObject hk).bind fun _ _ _ hv => .pure hv

theorem agree_newMethod (hid : F.runs w id) (c : Cursor) (info : FunctionInfo) :
    L.Agree w (newMethod id c info) (newMethod id c info) fun _ _ => True := by
  refine (F.top hid).bind fun w₁ target hw₁ _ => ?_
  have hid := F.runs_mono hw₁ hid
  rw [← bind_assoc]
  refine (F.retainMethodScope hid).bind fun w₂ scope _ hscope => ?_
  have hm : L.SoundMember w₂ (.method
      ⟨some (info.name.getD ""), info.arity, (c.cut info.bodyLength).1, scope⟩) :=
    F.function_of_scope hscope
  exact (agree_setMember target _ hm).bind fun _ _ _ _ => .pure trivial

theorem agree_expectTypes {vs : List Value} (h : ∀ v ∈ vs, L.good v) :
    L.Agree w (expectTypes vs) (expectTypes vs) fun _ _ => True := by
  refine .forM vs fun w' v hv _ => (agree_kindOf (h v hv)).bind fun _ k _ _ => ?_
  split
  · exact .pure trivial
  · exact agree_failType v _

theorem agree_newClass (hid : F.runs w id) (c : Cursor) (info : ClassInfo) :
    L.Agree w (newClass id c info) (newClass id c info) fun _ _ => True := by
  refine (F.popMany info.baseCount hid).bind fun w₁ popped hw₁ hpopped => ?_
  have hid := F.runs_mono hw₁ hid
  have hbases : ∀ v ∈ popped.reverse, L.good v := by simpa using hpopped
  refine (agree_expectTypes hbases).bind fun w₂ _ hw₂ _ => ?_
  have hid := F.runs_mono hw₂ hid
  refine (F.retain hid).bind fun w₃ scope hw₃ hscope => ?_
  have hid := F.runs_mono hw₃ hid
  have hk : L.SoundKind w₃ (.type
      (.ofClass ⟨info.name, popped.reverse, (c.cut info.bodyLength).1, scope⟩)) :=
    ⟨F.classDef_of_scope hscope, hbases⟩
  refine (agree_newObject hk).bind fun w₄ cls hw₄ hcls => ?_
  have hid := F.runs_mono hw₄ hid
  refine (F.assign info.name hid hcls).bind fun w₅ _ hw₅ _ => ?_
  have hid := F.runs_mono hw₅ hid
  exact (F.setLast hid hcls).bind fun _ _ _ _ => .pure trivial

theorem Agree.next {x y : Run Unit} {c : Cursor} (h : L.Agree w x y fun _ _ => True) :
    L.Agree w (do x; return Flow.next c) (do y; return Flow.next c)
      fun _ flow => L.GoodFlow flow :=
  h.bind fun _ _ _ _ => .pure trivial

theorem Agree.nextAt {x y : Run Cursor} (h : L.Agree w x y fun _ _ => True) :
    L.Agree w (do return Flow.next (← x)) (do return Flow.next (← y))
      fun _ flow => L.GoodFlow flow :=
  h.bind fun _ _ _ _ => .pure trivial

theorem agree_produceNext (hid : F.runs w id) {k : Kind} (hk : L.SoundKind w k) (c : Cursor) :
    L.Agree w (do produce id k; return Flow.next c) (do produce id k; return Flow.next c)
      fun _ flow => L.GoodFlow flow :=
  (agree_produce hid hk).next

end Likeness

namespace Fading

/-- What the likenesses say about frames, and that frames run on. -/
structure Frames (F : Fading) where
  each : ∀ s, Likeness.Frames (F.likeness s)
  runs_hold : ∀ {s} {w : (F.likeness s).World} {refs id}, (each s).runs w id →
    (each s).runs (F.hold w refs) id
  runs_past : ∀ {s s'} {w : (F.likeness s).World} {w' : (F.likeness s').World} {id}, F.past w w' →
    (each s).runs w id → (each s').runs w' id

variable {F : Fading} {R : F.Frames} {s s' : F.Stage} {w : (F.likeness s).World}
  {w' : (F.likeness s').World} {e e' : Engine} {id : FrameId}

/-- The frame runs. -/
abbrev Frames.Runs (R : F.Frames) (w : (F.likeness s).World) (id : FrameId) : Prop :=
  (R.each s).runs w id

/-- Something closes over the frame. -/
abbrev Frames.IsScope (R : F.Frames) (w : (F.likeness s).World) (id : FrameId) : Prop :=
  (R.each s).scope w id

/-- Calls of one engine, and bodies in frames of their own, follow those of another one. -/
structure Knot {F : Fading} (R : F.Frames) (e e' : Engine) : Prop extends Calls F e e' where
  runIn : ∀ {s : F.Stage} {w : (F.likeness s).World} {scope object} (bindsObject) {self operands}
    (body), R.IsScope w scope ∨ R.Runs w scope → (∀ v ∈ object, F.Good s v) → F.Good s self →
    (∀ v ∈ operands, F.Good s v) →
    F.Later w (e.runIn scope object bindsObject self operands body)
      (e'.runIn scope object bindsObject self operands body) F.Good
  runOperation : ∀ {s : F.Stage} {w : (F.likeness s).World} {g state values}, F.Good s g →
    (F.likeness s).SoundKind w (.generator state) → (∀ v ∈ values, F.Good s v) →
    F.Later w (e.runOperation g state values) (e'.runOperation g state values)
      fun s' r => F.Good s' r.1

/-- The value that a body may have been left with is good. -/
abbrev GoodFlow (F : Fading) (s : F.Stage) (flow : Flow) : Prop := (F.likeness s).GoodFlow flow

open Run Engine Likeness

theorem Frames.Runs.le {w' : (F.likeness s).World} (hid : R.Runs w id) (hw : (F.likeness s).le w w') :
    R.Runs w' id :=
  (R.each s).runs_mono hw hid

theorem Frames.Runs.past (hid : R.Runs w id) (hw : F.past w w') : R.Runs w' id :=
  R.runs_past hw hid

/-! ## Bodies -/

theorem Knot.applyBody (K : Knot R e e') {next next' : Value → Run (Option Value)}
    (hnext : F.NextFollows next next') {g item : Value} (hg : F.Lasts w g) (hitem : F.Good s item) :
    F.Later w (e.applyBody next g item) (e'.applyBody next' g item) F.Good := by
  refine (agree_expectGenerator hg.good).bindLater fun w₁ state hw₁ hstate => ?_
  -- The proof does not look into what is held on to.
  generalize hrefs :
    (if state.receivers = 1 then [] else [.value item]) ++ state.references = refs
  have hmem : ∀ r ∈ (Kind.generator state).references, r ∈ refs :=
    fun r hr => hrefs ▸ List.mem_append_right _ hr
  have hknown : ∀ r ∈ refs, F.knows w₁ r := by
    subst hrefs
    intro r hr
    rcases List.mem_append.1 hr with hr | hr
    · split at hr
      · cases hr
      · cases List.mem_singleton.1 hr
        exact F.knows_value.2 hitem
    · exact F.knows_of_sound hstate hr
  have hlasting := lastingKind_hold _ hstate hmem
  have hg₁ := hg.le hw₁
  have hran : F.Later (F.hold w₁ refs)
      (do
        let values ← e.received next item state.receivers
        e.runOperation g state values)
      (do
        let values ← e'.received next' item state.receivers
        e'.runOperation g state values) fun s' r => F.Good s' r.1 :=
    (K.received hnext hitem state.receivers).bind fun s₂ w₂ values hw₂ hvalues =>
      K.runOperation ((hg₁.hold refs).past hw₂).good (hlasting.past hw₂).1 hvalues
  change F.Later w₁ (e.keep (_ ++ _) _ >>= _) (e'.keep (_ ++ _) _ >>= _) _
  rw [hrefs]
  refine (K.kept hknown hran).bind fun s₃ w₃ r hw₃ hr => ?_
  have hsuspend : ∀ state, (F.likeness s₃).SoundKind w₃ (.generator state) →
      (F.likeness s₃).SoundKind w₃ (.generator { state with status := .suspended r.2.index }) :=
    fun state h => ⟨(R.each s₃).generator_suspend _ h.1, h.2⟩
  exact (agree_changeGenerator (hg₁.past hw₃).good hsuspend
    fun _ => .ofGenerator ⟨rfl, rfl, rfl, rfl⟩).bindLater fun _ _ _ _ => .pure hr

theorem Knot.bodies (K : Knot R e e') : F.Bodies e e' where
  toCalls := K.toCalls
  body := fun hnext hg hitem => K.applyBody hnext hg hitem
  code := by
    intro s w callee f receiver args hcallee hf hreceiver hargs _
    refine K.runIn false _ (.inl ((R.each s).scope_of_function hf)) hreceiver ?_ hargs
    cases receiver with
    | none => exact hcallee
    | some receiver => exact hreceiver receiver rfl
  classBody := by
    intro s w c object hc ho
    have hobject : ∀ v ∈ some object, F.Good s v := by
      rintro v ⟨⟩
      exact ho
    exact (K.runIn true _ (.inl ((R.each s).scope_of_classDef hc)) hobject ho
      (by simpa using ho)).discard fun _ _ _ => trivial

/-! ## Parts of steps -/

theorem Calls.fillHash (he : F.Calls e e') (hid : R.Runs w id) {owner : Value}
    (ho : F.Good s owner) (count : Nat) :
    F.Later w (e.fillHash id owner count) (e'.fillHash id owner count)
      fun s' _ => F.Good s' owner := by
  induction count generalizing s w with
  | zero => exact .pure ho
  | succ count ih =>
    refine ((R.each s).pop hid).bindLater fun w₁ key hw₁ hkey => ?_
    have hid := hid.le hw₁
    refine ((R.each s).pop hid).bindLater fun w₂ value hw₂ hvalue => ?_
    have hid := hid.le hw₂
    exact (he.keepValues [owner] (by simpa using ho) (he.store ho hkey hvalue)).bind
      fun _ _ _ hw₃ h => ih (hid.past hw₃) (h.2 owner (by simp))

theorem Calls.popCondition (he : F.Calls e e') (hid : R.Runs w id) :
    F.Later w (e.popCondition id) (e'.popCondition id) fun _ _ => True :=
  ((R.each s).pop hid).bindLater fun _ _ _ hv => he.truthy hv

theorem Calls.newGenerator (he : F.Calls e e') (hid : R.Runs w id) (c : Cursor)
    (info : GeneratorInfo) :
    F.Later w (e.newGenerator id c info) (e'.newGenerator id c info) fun _ _ => True := by
  refine ((R.each s).pop hid).bindLater fun w₁ v hw₁ hv => ?_
  refine (he.iteratorOf hv).bind fun s₂ w₂ source hw₂ hsource => ?_
  have hid := (hid.le hw₁).past hw₂
  refine ((R.each s₂).retain hid).bindLater fun w₃ scope hw₃ hscope => ?_
  have hid := hid.le hw₃
  refine (agree_produce hid ?_).bindLater fun _ _ _ _ => .pure trivial
  exact ⟨(R.each s₂).generator_of_scope hscope rfl, hsource, by simp⟩

theorem Knot.newModule (K : Knot R e e') (hid : R.Runs w id) (c : Cursor) (info : ClassInfo) :
    F.Later w (e.newModule id c info) (e'.newModule id c info) fun _ _ => True := by
  refine (agree_newObject (k := .module info.name) trivial).bindLater fun w₁ module hw₁ hm => ?_
  have hid := hid.le hw₁
  have hobject : ∀ v ∈ some module, F.Good s v := by
    rintro v ⟨⟩
    exact hm
  have hrun : ∀ body, F.Later w₁
      (discard (e.keep [.value module] (e.runIn id (some module) true module [] body)))
      (discard (e'.keep [.value module] (e'.runIn id (some module) true module [] body)))
      fun s _ => F.Good s module := fun body =>
    (K.keepValues [module] (by simpa using hm)
      (K.runIn true _ (.inr (R.runs_hold hid)) hobject hm (by simp))).discard
        fun _ _ h => h.2 module (by simp)
  refine (hrun _).bind fun s₂ w₂ _ hw₂ hm => ?_
  have hid := hid.past hw₂
  refine ((R.each s₂).assign info.name hid hm).bindLater fun w₃ _ hw₃ _ => ?_
  exact ((R.each s₂).setLast (hid.le hw₃) hm).bindLater fun _ _ _ _ => .pure trivial

/-! ## Steps -/

theorem Later.next {x y : Run Unit} {c : Cursor} (h : F.Later w x y fun _ _ => True) :
    F.Later w (do x; return Flow.next c) (do y; return Flow.next c) F.GoodFlow :=
  h.bind fun _ _ _ _ _ => .pure trivial

theorem Later.nextAt {x y : Run Cursor} (h : F.Later w x y fun _ _ => True) :
    F.Later w (do return Flow.next (← x)) (do return Flow.next (← y)) F.GoodFlow :=
  h.bind fun _ _ _ _ _ => .pure trivial

/-- What a computation produces becomes the last object. -/
theorem later_setLast_of {x y : Run Value} (hid : R.Runs w id) (h : F.Later w x y F.Good)
    (c : Cursor) :
    F.Later w (do setLast id (← x); return Flow.next c) (do setLast id (← y); return Flow.next c)
      F.GoodFlow :=
  h.bind fun s' _ _ hw hv => ((R.each s').setLast (hid.past hw) hv).next.later

/-- A step of a frame that runs follows the same step. -/
theorem Knot.step (K : Knot R e e') (hid : R.Runs w id) (c : Cursor) (op : Op) :
    F.Later w (e.step id c op) (e'.step id c op) F.GoodFlow := by
  have hc := K.toCalls
  cases op with
  | newString s => exact (agree_produceNext (k := .string s) hid trivial c).later
  | newBytes content => exact (agree_produceNext (k := .bytes content) hid trivial c).later
  | newInteger n => exact (agree_produceNext (k := .integer n) hid trivial c).later
  | newFloat x => exact (agree_produceNext (k := .float x) hid trivial c).later
  | getTrue => exact (agree_produceNext (k := .bool true) hid trivial c).later
  | getFalse => exact (agree_produceNext (k := .bool false) hid trivial c).later
  | getNone => exact (agree_produceNext (k := .none) hid trivial c).later
  | newTuple count =>
    refine ((R.each s).popMany count hid).bindLater fun _ vs hw hvs => ?_
    exact (agree_produceNext (k := .tuple vs) (hid.le hw) hvs c).later
  | newArray count =>
    refine ((R.each s).popMany count hid).bindLater fun _ vs hw hvs => ?_
    exact (agree_produceNext (k := .array vs) (hid.le hw) hvs c).later
  | newHash count =>
    refine (agree_newObject (k := .hash .empty) ⟨(F.likeness s).table_empty, by
      simp [Table.empty, Table.entries]⟩).bindLater fun w₁ owner hw₁ ho => ?_
    have hid := hid.le hw₁
    refine (hc.fillHash hid ho count).bind fun s₂ w₂ _ hw₂ ho => ?_
    exact ((R.each s₂).setLast (hid.past hw₂) ho).next.later
  | push =>
    refine ((R.each s).last hid).bindLater fun w₁ r hw₁ hr => ?_
    have hid := hid.le hw₁
    cases r with
    | some v => exact ((R.each s).push hid (hr v rfl)).next.later
    | none => exact agree_newNone.bindLater fun _ _ hw hv => ((R.each s).push (hid.le hw) hv).next.later
  | unary operator =>
    refine ((R.each s).pop hid).bindLater fun w₁ operand hw₁ hoperand => ?_
    exact later_setLast_of (hid.le hw₁) (hc.callSymbol hoperand _ (by simp)) c
  | binary operator =>
    refine ((R.each s).pop hid).bindLater fun w₁ left hw₁ hleft => ?_
    have hid := hid.le hw₁
    refine ((R.each s).pop hid).bindLater fun w₂ right hw₂ hright => ?_
    exact later_setLast_of (hid.le hw₂) (hc.keepOperation operator hleft hright) c
  | getIdentifier name =>
    refine ((R.each s).resolve name hid).bindLater fun w₁ r hw₁ hr => ?_
    have hid := hid.le hw₁
    cases r with
    | some v => exact ((R.each s).setLast hid (hr v rfl)).next.later
    | none => exact (Agree.fail ((F.likeness s).admits_ordinary rfl)).next.later
  | selectName name =>
    refine ((R.each s).pop hid).bindLater fun w₁ source hw₁ hsource => ?_
    have hid := hid.le hw₁
    refine (agree_lookup hsource name).bindLater fun w₂ r hw₂ hr => ?_
    have hid := hid.le hw₂
    cases r with
    | some v => exact ((R.each s).setLast hid (hr v rfl)).next.later
    | none =>
      refine (agree_typeName source).bindLater fun _ _ _ _ => ?_
      exact (Agree.fail ((F.likeness s).admits_ordinary rfl)).next.later
  | index =>
    refine ((R.each s).pop hid).bindLater fun w₁ position hw₁ hposition => ?_
    have hid := hid.le hw₁
    refine ((R.each s).pop hid).bindLater fun w₂ source hw₂ hsource => ?_
    exact later_setLast_of (hid.le hw₂)
      (hc.callSymbol hsource .index (by simpa using hposition)) c
  | methodInvocation count =>
    refine ((R.each s).pop hid).bindLater fun w₁ callee hw₁ hcallee => ?_
    have hid := hid.le hw₁
    refine ((R.each s).popMany count hid).bindLater fun w₂ args hw₂ hargs => ?_
    exact later_setLast_of (hid.le hw₂) (hc.call hcallee hargs) c
  | assignIdentifier name =>
    refine ((R.each s).pop hid).bindLater fun w₁ v hw₁ hv => ?_
    exact ((R.each s).assign name (hid.le hw₁) hv).next.later
  | assignSelector name =>
    refine ((R.each s).pop hid).bindLater fun w₁ receiver hw₁ _ => ?_
    refine ((R.each s).pop (hid.le hw₁)).bindLater fun w₂ value _ hvalue => ?_
    exact (agree_setMember receiver name (k := .value value) hvalue).next.later
  | assignIndex =>
    refine ((R.each s).pop hid).bindLater fun w₁ position hw₁ hposition => ?_
    have hid := hid.le hw₁
    refine ((R.each s).pop hid).bindLater fun w₂ receiver hw₂ hreceiver => ?_
    have hid := hid.le hw₂
    refine ((R.each s).pop hid).bindLater fun w₃ element _ helement => ?_
    exact ((hc.callSymbol hreceiver .assign (by simpa using ⟨hposition, helement⟩)).discard
      fun _ _ _ => trivial).next
  | jump offset => exact .pure trivial
  | jumpBack offset => exact (agree_goBack (R.each s) c offset).later
  | ifJump offset => exact (hc.popCondition hid).bind fun _ _ _ _ _ => .pure trivial
  | unlessJump offset => exact (hc.popCondition hid).bind fun _ _ _ _ _ => .pure trivial
  | ifJumpBack offset =>
    refine (hc.popCondition hid).bind fun s' _ b _ _ => ?_
    split
    · exact .pure trivial
    · exact (agree_goBack (R.each s') c offset).later
  | unlessJumpBack offset =>
    refine (hc.popCondition hid).bind fun s' _ b _ _ => ?_
    split
    · exact (agree_goBack (R.each s') c offset).later
    · exact .pure trivial
  | nop => exact .pure trivial
  | redoMark | continueMark | breakMark => exact .fail ((R.each s).admits_frame (by simp))
  | loadArguments names => exact (agree_loadArguments hid names).next.later
  | newFunction info =>
    refine (agree_newFunction hid c info).bindLater fun w₁ r hw₁ hr => ?_
    have hid := hid.le hw₁
    obtain ⟨v, after⟩ := r
    dsimp only
    split
    · refine ((R.each s).assign _ hid hr).bindLater fun w₂ _ hw₂ _ => ?_
      exact ((R.each s).setLast (hid.le hw₂) hr).next.later
    · exact ((R.each s).setLast hid hr).next.later
  | newLambda info =>
    refine (agree_newFunction hid c info).bindLater fun w₁ r hw₁ hr => ?_
    exact ((R.each s).setLast (hid.le hw₁) hr).next.later
  | newMethod info => exact (agree_newMethod hid c info).nextAt.later
  | newGenerator info => exact (hc.newGenerator hid c info).nextAt
  | newClass info => exact (agree_newClass hid c info).nextAt.later
  | newInterface info => exact (agree_newClass hid c info).nextAt.later
  | newModule info => exact (K.newModule hid c info).nextAt
  | exit count =>
    refine ((R.each s).popMany count hid).bindLater fun _ vs _ hvs => ?_
    exact (agree_exitValue hvs).bindLater fun _ _ _ hv => .pure hv
  | raise =>
    refine ((R.each s).pop hid).bindLater fun _ v _ hv => ?_
    exact .fail ((R.each s).admits_frame (by simp [hv]))

/-! ## Runs -/

/-- Code that runs in the same frame for as many steps or more ends in the same way. -/
theorem Knot.dispatch (K : Knot R e e') (hid : R.Runs w id) {steps steps' : Nat}
    (hsteps : steps ≤ steps') (c : Cursor) :
    F.Later w (e.dispatch steps id c) (e'.dispatch steps' id c) F.GoodFlow := by
  induction steps generalizing s w steps' c with
  | zero => exact .giveUp
  | succ steps ih =>
    cases steps' with
    | zero => omega
    | succ steps' =>
      unfold Engine.dispatch
      split
      · exact .pure trivial
      · rename_i i after _
        refine ((R.each s).trace _ i).bindLater fun w₁ _ hw₁ _ => ?_
        have hid := hid.le hw₁
        refine ((K.step hid after i.op).located i.span).bind fun s₂ w₂ flow hw₂ hflow => ?_
        cases flow with
        | next c => exact ih (hid.past hw₂) (by omega) c
        | leave v c => exact .pure hflow

theorem Knot.run (K : Knot R e e') (hid : R.Runs w id) (c : Cursor) :
    F.Later w (e.run id c) (e'.run id c) fun s' r => F.Good s' r.1 := by
  refine (K.dispatch hid K.fuel_le c).bind fun _ _ flow _ hflow => ?_
  cases flow with
  | next c => exact agree_newNone.bindLater fun _ _ _ hv => .pure hv
  | leave v c => exact .pure hflow

end Fading
end ScriptVM
