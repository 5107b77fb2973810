import ScriptVM.Machine.Call
import ScriptVM.Proofs.Likeness.Builtin

/-!
# Calls on machines that are alike

A call comes down to built-in methods, to the calls of the engine, and to running the body of a
function or of a class in a frame of its own. Where the calls and the bodies of one engine follow those
of another one, so do the calls of all values.
-/
namespace ScriptVM.Fading

/-- The bodies of functions and classes follow one another, too. -/
structure Bodies (F : Fading) (e e' : Engine) : Prop extends Engines F e e' where
  code : ∀ {s : F.Stage} {w : (F.likeness s).World} {callee f receiver args}, F.Good s callee →
    (F.likeness s).function w f → (∀ v ∈ receiver, F.Good s v) → (∀ v ∈ args, F.Good s v) →
    args.length = f.arity →
    F.Later w (e.callCode callee f receiver args) (e'.callCode callee f receiver args) F.Good
  classBody : ∀ {s : F.Stage} {w : (F.likeness s).World} {c object}, (F.likeness s).classDef w c →
    F.Good s object →
    F.Later w (e.runClassBody c object) (e'.runClassBody c object) fun _ _ => True

variable {F : Fading} {s : F.Stage} {w : (F.likeness s).World} {e e' : Engine}

open Run Engine Likeness

theorem Engines.callBuiltin (he : F.Engines e e') {receiver : Value} (hr : F.Lasts w receiver)
    (symbol : Symbol) {args : List Value} (hargs : ∀ v ∈ args, F.Lasts w v) :
    F.Later w (e.callBuiltin receiver symbol args) (e'.callBuiltin receiver symbol args) F.Good := by
  refine (agree_kindOf hr.good).bindLater fun w' k hw _ => ?_
  split
  · rename_i method hm
    exact tableFollows_method he k.tag symbol method hm s w' receiver args (hr.le hw)
      fun v hv => (hargs v hv).le hw
  · exact (agree_missingSymbol receiver symbol.name).later

theorem Bodies.buildWithin (he : F.Bodies e e') {object : Value} (ho : F.Lasts w object)
    {depth depth' : Nat} (hd : depth ≤ depth') {cls : Value} (hcls : F.Good s cls) :
    F.Later w (e.buildWithin object depth cls) (e'.buildWithin object depth' cls)
      fun _ _ => True := by
  induction depth generalizing s w depth' cls with
  | zero => exact .giveUp
  | succ depth ih =>
    cases depth' with
    | zero => omega
    | succ depth' =>
      refine (agree_kindOf hcls).bindLater fun w₁ k hw₁ hk => ?_
      split
      · rename_i c
        refine he.kept (fun r hr => F.knows_of_sound hk hr) ?_
        -- The class lasts while the bodies of its bases run.
        have hclass := lastingKind_hold (TypeDef.ofClass c).references hk fun _ hr => hr
        have ho := (ho.le hw₁).hold (TypeDef.ofClass c).references
        have hbody : ∀ {x y : Run PUnit},
            F.Later (F.hold w₁ (TypeDef.ofClass c).references) x y (fun _ _ => True) →
            F.Later (F.hold w₁ (TypeDef.ofClass c).references)
              (do x; e.runClassBody c object) (do y; e'.runClassBody c object) fun _ _ => True :=
          fun h => h.bind fun _ _ _ hw₂ _ =>
            he.classBody (hclass.past hw₂).1.1 (ho.past hw₂).good
        refine hbody (.forM c.bases fun {s₂ w₂} base hbase hw₂ => ?_)
        have hgood := (hclass.past hw₂).1.2 base hbase
        refine (agree_kindOf hgood).bindLater fun w₃ k' hw₃ _ => ?_
        split
        · exact ih ((ho.past hw₂).le hw₃) (by omega) hgood
        · exact .pure trivial
        · exact (agree_failType base _).later
      · exact (agree_failType cls _).later

theorem Bodies.construct (he : F.Bodies e e') {cls : Value} (hcls : F.Good s cls) :
    F.Later w (e.construct cls) (e'.construct cls) F.Good := by
  refine (agree_newObject (k := .object cls) hcls).bindLater fun _ object _ ho => ?_
  refine (he.keepValues [cls, object] (by simpa using ⟨hcls, ho⟩)
    (he.buildWithin (lasts_hold ho (by simp)) he.fuel_le hcls)).bind ?_
  exact fun _ _ _ _ h => .pure (h.2 object (by simp))

theorem Engines.convertValue (he : F.Engines e e') (tag : TypeTag) {v : Value} (hv : F.Good s v) :
    F.Later w (e.convertValue tag v) (e'.convertValue tag v) F.Good := by
  have hask : ∀ symbol, F.Later w (e.callSymbol v symbol []) (e'.callSymbol v symbol []) F.Good :=
    fun symbol => he.callSymbol hv symbol (by simp)
  unfold Engine.convertValue
  split
  · exact hask _
  · exact hask _
  · exact (he.stringify hv).bind fun _ _ _ _ _ => (agree_newString _).later
  · exact (he.truthy hv).bind fun _ _ _ _ _ => (agree_newBool _).later
  · exact hask _
  · exact hask _
  · refine (agree_kindOf hv).bindLater fun w' k _ _ => ?_
    split
    · exact (agree_newObject (k := .bytes _) trivial).later
    · exact (agree_newObject (k := .bytes _) trivial).later
    · exact (agree_failType v _).later
  · exact he.iteratorOf hv
  · exact (he.stringify hv).bind fun _ _ _ _ _ => (agree_newObject (k := .error _ _) trivial).later
  · exact hask _
  · exact .failOrdinary rfl

theorem Engines.convert (he : F.Engines e e') (tag : TypeTag) {args : List Value}
    (hargs : ∀ v ∈ args, F.Good s v) :
    F.Later w (e.convert tag args) (e'.convert tag args) F.Good := by
  unfold Engine.convert
  split
  · exact (agree_newObject (k := .hash .empty)
      ⟨(F.likeness s).table_empty, by simp [Table.empty, Table.entries]⟩).later
  · exact (agree_newObject (k := .tuple []) (by simp [SoundKind])).later
  · exact (agree_newObject (k := .array []) (by simp [SoundKind])).later
  · exact (agree_newString "").later
  · exact (agree_builtinType .object).bindLater fun _ _ _ hv =>
      (agree_newObject (k := .object _) hv).later
  · exact he.convertValue tag (hargs _ (by simp))
  · exact .failOrdinary rfl

theorem Engines.callOther (he : F.Engines e e') {callee : Value} (hc : F.Good s callee)
    {args : List Value} (hargs : ∀ v ∈ args, F.Good s v) :
    F.Later w (e.callOther callee args) (e'.callOther callee args) F.Good := by
  refine (agree_lookup hc _).bindLater fun w' r _ hr => ?_
  cases r with
  | none => exact (agree_typeName callee).bindLater fun _ _ _ _ => .failOrdinary rfl
  | some method =>
    refine (agree_kindOf (hr method rfl)).bindLater fun w'' k _ _ => ?_
    split
    · exact he.call (hr method rfl) hargs
    · exact (agree_failType method _).later

theorem Bodies.callFunction (he : F.Bodies e e') {callee : Value} (hc : F.Good s callee)
    {f : Function} (hf : (F.likeness s).SoundKind w (.function f)) {args : List Value}
    (hargs : ∀ v ∈ args, F.Good s v) :
    F.Later w (e.callFunction callee f args) (e'.callFunction callee f args) F.Good := by
  obtain ⟨callable, receiver⟩ := f
  unfold Engine.callFunction
  split
  · exact .failOrdinary rfl
  · rename_i harity
    cases callable with
    | code f => exact he.code hc hf.1 hf.2 hargs (Decidable.not_not.1 harity)
    | builtin symbol =>
      have hreceiver : F.Good s (receiver.getD callee) := by
        cases receiver with
        | none => exact hc
        | some receiver => exact hf receiver rfl
      refine (he.keepValues _ (List.forall_mem_cons.2 ⟨hreceiver, hargs⟩)
        (he.callBuiltin (lasts_hold hreceiver (by simp)) symbol fun v hv => ?_)).mono fun _ _ h => h.1
      exact lasts_hold (hargs v hv) (List.mem_map_of_mem (List.mem_cons_of_mem _ hv))

/-- Calls of any value follow one another. -/
theorem Bodies.callValue (he : F.Bodies e e') {callee : Value} (hc : F.Good s callee)
    {args : List Value} (hargs : ∀ v ∈ args, F.Good s v) :
    F.Later w (e.callValue callee args) (e'.callValue callee args) F.Good := by
  refine (agree_kindOf hc).bindLater fun w' k _ hk => ?_
  split
  · exact he.callFunction hc hk hargs
  · refine (he.keepValues _ hargs (he.construct hc)).bind fun s₁ w₁ object _ ho => ?_
    have hinitialized : F.Later w₁
        (discard (e.keep [.value object] (e.callSymbol object .initializer args)))
        (discard (e'.keep [.value object] (e'.callSymbol object .initializer args)))
        fun s _ => F.Good s object :=
      (he.keepValues [object] (by simpa using ho.1)
        (he.callSymbol ho.1 .initializer ho.2)).discard fun _ _ h => h.2 object (by simp)
    exact hinitialized.bind fun _ _ _ _ h => .pure h
  · exact he.convert _ hargs
  · exact he.callOther hc hargs

end ScriptVM.Fading
