import ScriptVM.Proofs.Likeness.Step

/-!
# Engines that keep track of nothing

Where nothing is ever forgotten, nothing has to be held on to. Engines that keep track of nothing agree
along a single likeness as soon as their calls do.
-/
namespace ScriptVM

open Fading

/-- What a likeness says about frames, along the likeness that never fades. -/
def Likeness.Frames.steady {L : Likeness} (F : L.Frames) : (Fading.steady L).Frames where
  each _ := F
  runs_hold h := h
  runs_past hw h := F.runs_mono hw h

namespace Likeness

/-- Engines whose calls agree. -/
structure Calls (L : Likeness) (e e' : Engine) : Prop where
  fuel_le : e.fuel ≤ e'.fuel
  digests_eq : e'.digests = e.digests
  plain : e.tracks = false ∧ e'.tracks = false
  call : ∀ {w callee args}, L.good callee → (∀ v ∈ args, L.good v) →
    L.Agree w (e.call callee args) (e'.call callee args) fun _ v => L.good v

/-- The steps of two iterations agree. -/
def NextAgrees (L : Likeness) (next next' : Value → Run (Option Value)) : Prop :=
  ∀ {w v}, L.good v → L.Agree w (next v) (next' v) fun _ r => ∀ u ∈ r, L.good u

/-- Engines that also run the bodies of generators alike. -/
structure Engines (L : Likeness) (e e' : Engine) : Prop extends Calls L e e' where
  body : ∀ {w next next' g item}, L.NextAgrees next next' → L.good g → L.good item →
    L.Agree w (e.applyBody next g item) (e'.applyBody next' g item) fun _ v => L.good v

/-- Engines that also run the bodies of functions and classes alike. -/
structure Bodies (L : Likeness) (e e' : Engine) : Prop extends Engines L e e' where
  code : ∀ {w callee f receiver args}, L.good callee → L.function w f → (∀ v ∈ receiver, L.good v) →
    (∀ v ∈ args, L.good v) → args.length = f.arity →
    L.Agree w (e.callCode callee f receiver args) (e'.callCode callee f receiver args)
      fun _ v => L.good v
  classBody : ∀ {w c object}, L.classDef w c → L.good object →
    L.Agree w (e.runClassBody c object) (e'.runClassBody c object) fun _ _ => True

/-- Engines that call values and run bodies in frames of their own alike. -/
structure Knot {L : Likeness} (F : Frames L) (e e' : Engine) : Prop extends Calls L e e' where
  runIn : ∀ {w s object} (bindsObject) {self operands} (body), F.scope w s ∨ F.runs w s →
    (∀ v ∈ object, L.good v) → L.good self → (∀ v ∈ operands, L.good v) →
    L.Agree w (e.runIn s object bindsObject self operands body)
      (e'.runIn s object bindsObject self operands body) fun _ v => L.good v
  runOperation : ∀ {w g state values}, L.good g → L.SoundKind w (.generator state) →
    (∀ v ∈ values, L.good v) →
    L.Agree w (e.runOperation g state values) (e'.runOperation g state values)
      fun _ r => L.good r.1

variable {L : Likeness} {F : Frames L} {w : L.World} {e e' : Engine} {id : FrameId}

theorem NextAgrees.steady {next next' : Value → Run (Option Value)} (h : L.NextAgrees next next') :
    (Fading.steady L).NextFollows next next' :=
  fun hv => later_steady.2 (h hv.good)

theorem NextAgrees.of_steady {next next' : Value → Run (Option Value)}
    (h : (Fading.steady L).NextFollows next next') : L.NextAgrees next next' :=
  fun hv => later_steady.1 (h (lasts_steady hv))

/-! ## What is asked of values -/

theorem Calls.steady (he : L.Calls e e') : (Fading.steady L).Calls e e' where
  fuel_le := he.fuel_le
  digests_eq := he.digests_eq
  keep hrefs h := by
    rw [Engine.keep_of_plain he.plain.1, Engine.keep_of_plain he.plain.2]
    exact h.mono fun _ _ ha => ⟨ha, fun v hv => hrefs _ hv v rfl⟩
  call hc hargs := later_steady.2 (he.call hc hargs)

theorem Calls.callNamed (he : L.Calls e e') {v : Value} (hv : L.good v) (name : String)
    {args : List Value} (hargs : ∀ a ∈ args, L.good a) :
    L.Agree w (e.callNamed v name args) (e'.callNamed v name args) fun _ r => L.good r :=
  later_steady.1 (he.steady.callNamed hv name hargs)

theorem Calls.callSymbol (he : L.Calls e e') {v : Value} (hv : L.good v) (symbol : Symbol)
    {args : List Value} (hargs : ∀ a ∈ args, L.good a) :
    L.Agree w (e.callSymbol v symbol args) (e'.callSymbol v symbol args) fun _ r => L.good r :=
  he.callNamed hv symbol.name hargs

theorem Calls.operation (he : L.Calls e e') (operator : BinaryOperator) {left right : Value}
    (hl : L.good left) (hr : L.good right) :
    L.Agree w (e.operation operator left right) (e'.operation operator left right)
      fun _ v => L.good v :=
  later_steady.1 (he.steady.operation operator (lasts_steady hl) (lasts_steady hr))

theorem Calls.equals (he : L.Calls e e') {left right : Value} (hl : L.good left)
    (hr : L.good right) :
    L.Agree w (e.equals left right) (e'.equals left right) fun _ _ => True :=
  later_steady.1 (he.steady.equals hl hr)

theorem Calls.hashOf (he : L.Calls e e') {v : Value} (hv : L.good v) :
    L.Agree w (e.hashOf v) (e'.hashOf v) fun _ _ => True :=
  later_steady.1 (he.steady.hashOf hv)

theorem Calls.truthy (he : L.Calls e e') {v : Value} (hv : L.good v) :
    L.Agree w (e.truthy v) (e'.truthy v) fun _ _ => True :=
  later_steady.1 (he.steady.truthy hv)

theorem Calls.iteratorOf (he : L.Calls e e') {v : Value} (hv : L.good v) :
    L.Agree w (e.iteratorOf v) (e'.iteratorOf v) fun _ v => L.good v :=
  later_steady.1 (he.steady.iteratorOf hv)

theorem Calls.received (he : L.Calls e e') {next next' : Value → Run (Option Value)}
    (hnext : L.NextAgrees next next') {item : Value} (hitem : L.good item) (receivers : Nat) :
    L.Agree w (e.received next item receivers) (e'.received next' item receivers)
      fun _ vs => ∀ v ∈ vs, L.good v :=
  later_steady.1 (he.steady.received hnext.steady hitem receivers)

theorem Calls.positionOf (he : L.Calls e e') {key : Value} (hkey : L.good key)
    {candidates : List Value} (hc : ∀ v ∈ candidates, L.good v) (position : Nat) :
    L.Agree w (e.positionOf key position candidates) (e'.positionOf key position candidates)
      fun _ _ => True :=
  later_steady.1
    (he.steady.positionOf (lasts_steady hkey) (fun v hv => lasts_steady (hc v hv)) position)

theorem Calls.store (he : L.Calls e e') {owner key value : Value} (ho : L.good owner)
    (hkey : L.good key) (hvalue : L.good value) :
    L.Agree w (e.store owner key value) (e'.store owner key value) fun _ _ => True :=
  later_steady.1 (he.steady.store ho hkey hvalue)

theorem Calls.popCondition (he : L.Calls e e') (hid : F.runs w id) :
    L.Agree w (e.popCondition id) (e'.popCondition id) fun _ _ => True :=
  later_steady.1 (Fading.Calls.popCondition (R := F.steady) he.steady hid)

/-! ## Calls of any value -/

theorem Engines.steady (he : L.Engines e e') : (Fading.steady L).Engines e e' where
  toCalls := he.toCalls.steady
  body hnext hg hitem := later_steady.2 (he.body (NextAgrees.of_steady hnext) hg.good hitem)

theorem Engines.tupleHash (he : L.Engines e e') {v : Value} (hv : L.good v) :
    L.Agree w (Builtin.tupleHash e v) (Builtin.tupleHash e' v) fun _ _ => True :=
  later_steady.1 (later_tupleHash he.steady (lasts_steady hv))

theorem Engines.resumeWith (he : L.Engines e e') {next next' : Value → Run (Option Value)}
    (hnext : L.NextAgrees next next') {g : Value} (hg : L.good g) :
    L.Agree w (e.resumeWith next g) (e'.resumeWith next' g) fun _ r => ∀ v ∈ r, L.good v :=
  later_steady.1 (he.steady.resumeWith hnext.steady (lasts_steady hg))

theorem Engines.nextWithin (he : L.Engines e e') {depth depth' : Nat} (hd : depth ≤ depth') :
    L.NextAgrees (e.nextWithin depth) (e'.nextWithin depth') :=
  NextAgrees.of_steady (he.steady.nextWithin hd)

theorem Bodies.steady (he : L.Bodies e e') : (Fading.steady L).Bodies e e' where
  toEngines := he.toEngines.steady
  code hc hf hr hargs harity := later_steady.2 (he.code hc hf hr hargs harity)
  classBody hc ho := later_steady.2 (he.classBody hc ho)

/-- Every value is called alike. -/
theorem Bodies.callValue (he : L.Bodies e e') {callee : Value} (hc : L.good callee)
    {args : List Value} (hargs : ∀ v ∈ args, L.good v) :
    L.Agree w (e.callValue callee args) (e'.callValue callee args) fun _ v => L.good v :=
  later_steady.1 (he.steady.callValue hc hargs)

/-! ## Steps and runs -/

theorem Knot.steady (K : Knot F e e') : Fading.Knot F.steady e e' where
  toCalls := K.toCalls.steady
  runIn bindsObject _ _ body hscope ho hself hoperands :=
    later_steady.2 (K.runIn bindsObject body hscope ho hself hoperands)
  runOperation hg hstate hvalues := later_steady.2 (K.runOperation hg hstate hvalues)

theorem Knot.bodies (K : Knot F e e') : L.Bodies e e' where
  toCalls := K.toCalls
  body hnext hg hitem := later_steady.1 (K.steady.applyBody hnext.steady (lasts_steady hg) hitem)
  code hc hf hr hargs harity := later_steady.1 (K.steady.bodies.code hc hf hr hargs harity)
  classBody hc ho := later_steady.1 (K.steady.bodies.classBody hc ho)

/-- Steps of a frame that runs agree. -/
theorem Knot.step (K : Knot F e e') (hid : F.runs w id) (c : Cursor) (op : Op) :
    L.Agree w (e.step id c op) (e'.step id c op) fun _ flow => L.GoodFlow flow :=
  later_steady.1 (K.steady.step hid c op)

theorem Knot.dispatch (K : Knot F e e') (hid : F.runs w id) {steps steps' : Nat}
    (hsteps : steps ≤ steps') (c : Cursor) :
    L.Agree w (e.dispatch steps id c) (e'.dispatch steps' id c) fun _ flow => L.GoodFlow flow :=
  later_steady.1 (K.steady.dispatch hid hsteps c)

theorem Knot.run (K : Knot F e e') (hid : F.runs w id) (c : Cursor) :
    L.Agree w (e.run id c) (e'.run id c) fun _ r => L.good r.1 :=
  later_steady.1 (K.steady.run hid c)

end Likeness
end ScriptVM
