import ScriptVM.Builtin.Behaviour
import ScriptVM.Proofs.Likeness.Fading

/-!
# The value protocol on machines that are alike

When the calls of one engine follow those of another one, so does everything that the machine asks of
values through them: behaviour by name, operators, truth, text, iteration and the storage of hashes.
What a question goes on with after it has called something is held on to: by the question itself, or
by who asks, and then it is to last.
-/
namespace ScriptVM

namespace Likeness

variable {L : Likeness} {w : L.World}

open Engine

/-! ## Expectations -/

theorem agree_expectBool {v : Value} (hv : L.good v) :
    L.Agree w (expectBool v) (expectBool v) fun _ _ => True := by
  refine (agree_kindOf hv).bind fun w' k _ _ => ?_
  split
  · exact .pure trivial
  · exact agree_failType v _

theorem agree_expectInteger {v : Value} (hv : L.good v) :
    L.Agree w (expectInteger v) (expectInteger v) fun _ _ => True := by
  refine (agree_kindOf hv).bind fun w' k _ _ => ?_
  split
  · exact .pure trivial
  · exact agree_failType v _

theorem agree_expectText {v : Value} (hv : L.good v) :
    L.Agree w (expectText v) (expectText v) fun _ _ => True := by
  refine (agree_kindOf hv).bind fun w' k _ _ => ?_
  split
  · exact .pure trivial
  · exact agree_failType v _

theorem agree_expectGenerator {v : Value} (hv : L.good v) :
    L.Agree w (expectGenerator v) (expectGenerator v)
      fun w' g => L.SoundKind w' (.generator g) := by
  refine (agree_kindOf hv).bind fun w' k _ hk => ?_
  split
  · exact .pure hk
  · exact agree_failType v _

theorem agree_expectTable {v : Value} (hv : L.good v) :
    L.Agree w (expectTable v) (expectTable v) fun w' t => L.SoundKind w' (.hash t) := by
  refine (agree_kindOf hv).bind fun w' k _ hk => ?_
  split
  · exact .pure hk
  · exact agree_failType v _

theorem agree_missingSymbol {α : Type} (v : Value) (name : String) {post : L.World → α → Prop} :
    L.Agree w (do Run.fail (.missingSymbol (← Run.typeName v) name))
      (do Run.fail (.missingSymbol (← Run.typeName v) name)) post :=
  (agree_typeName v).bind fun _ _ _ _ => .fail (L.admits_ordinary rfl)

/-- A change of a generator that keeps its parts good keeps machines alike. -/
theorem Alike.changeGenerator {m n : Machine} (h : L.Alike w m n) {v : Value}
    (hv : L.good v) {change : Generator → Generator}
    (hc : ∀ g, m.heap.kind v = .generator g → L.SoundKind w (.generator g) →
      L.SoundKind w (.generator (change g)))
    (hbecomes : ∀ g, (Kind.generator g).Becomes (.generator (change g))) :
    L.Alike w { m with heap := Engine.changeGenerator v change m.heap }
      { n with heap := Engine.changeGenerator v change m.heap } := by
  unfold Engine.changeGenerator
  have hk := h.soundKind hv
  cases hkind : m.heap.kind v with
  | generator g =>
    have hchange : (m.heap.kind v).Becomes (.generator (change g)) := hkind ▸ hbecomes g
    exact h.modify v hchange fun _ ho => ho.setKind (hc g hkind (hkind ▸ hk))
  | _ => exact h.setHeap (.refl _) h.sound

theorem agree_changeGenerator {v : Value} (hv : L.good v) {change : Generator → Generator}
    (hc : ∀ g, L.SoundKind w (.generator g) → L.SoundKind w (.generator (change g)))
    (hbecomes : ∀ g, (Kind.generator g).Becomes (.generator (change g))) :
    L.Agree w (Run.modifyHeap (Engine.changeGenerator v change))
      (Run.modifyHeap (Engine.changeGenerator v change)) fun _ _ => True :=
  agree_modifyHeap fun _ _ hmn => hmn.changeGenerator hv (fun g _ => hc g) hbecomes

/-- Forgetting what a generator has in store. -/
theorem soundKind_unbuffered {g : Generator} (h : L.SoundKind w (.generator g)) :
    L.SoundKind w (.generator { g with buffered := none }) :=
  ⟨L.generator_buffer none h.1, h.2.1, by simp⟩

theorem soundKind_buffered {g : Generator} {v : Value} (hv : L.good v)
    (h : L.SoundKind w (.generator g)) :
    L.SoundKind w (.generator { g with buffered := some v }) :=
  ⟨L.generator_buffer _ h.1, h.2.1, by rintro u ⟨⟩; exact hv⟩

theorem soundKind_exhausted {g : Generator} (h : L.SoundKind w (.generator g)) :
    L.SoundKind w (.generator { g with status := .exhausted }) :=
  ⟨L.generator_exhaust h.1, h.2⟩

end Likeness

namespace Fading

open Engine Likeness

/-- The calls of the second engine follow those of the first one. -/
structure Calls (F : Fading) (e e' : Engine) : Prop where
  fuel_le : e.fuel ≤ e'.fuel
  digests_eq : e'.digests = e.digests
  /-- Values that are held on to during a computation are still good after it. -/
  keep : ∀ {α : Type} {s : F.Stage} {w : (F.likeness s).World} {refs : List Reference} {x y : Run α}
    {post : F.Stage → α → Prop}, (∀ r ∈ refs, F.knows w r) → F.Later (F.hold w refs) x y post →
    F.Later w (e.keep refs x) (e'.keep refs y) fun s' a =>
      post s' a ∧ ∀ v, .value v ∈ refs → F.Good s' v
  call : ∀ {s : F.Stage} {w : (F.likeness s).World} {callee args}, F.Good s callee →
    (∀ v ∈ args, F.Good s v) → F.Later w (e.call callee args) (e'.call callee args) F.Good

/-- The steps of one iteration follow those of another one. -/
def NextFollows (F : Fading) (next next' : Value → Run (Option Value)) : Prop :=
  ∀ {s : F.Stage} {w : (F.likeness s).World} {v}, F.Lasts w v →
    F.Later w (next v) (next' v) fun s' r => ∀ u ∈ r, F.Good s' u

/-- The second engine follows the first one, in the bodies of generators too. -/
structure Engines (F : Fading) (e e' : Engine) : Prop extends Calls F e e' where
  body : ∀ {s : F.Stage} {w : (F.likeness s).World} {next next' g item}, F.NextFollows next next' →
    F.Lasts w g → F.Good s item →
    F.Later w (e.applyBody next g item) (e'.applyBody next' g item) F.Good

variable {F : Fading} {s : F.Stage} {w : (F.likeness s).World} {e e' : Engine}

/-! ## Behaviour by name -/

theorem Calls.kept (he : F.Calls e e') {α : Type} {refs : List Reference} {x y : Run α}
    {post : F.Stage → α → Prop} (hrefs : ∀ r ∈ refs, F.knows w r)
    (h : F.Later (F.hold w refs) x y post) : F.Later w (e.keep refs x) (e'.keep refs y) post :=
  (he.keep hrefs h).mono fun _ _ h => h.1

/-- Holding on to values. -/
theorem Calls.keepValues (he : F.Calls e e') {α : Type} (vs : List Value) {x y : Run α}
    {post : F.Stage → α → Prop} (hvs : ∀ v ∈ vs, F.Good s v)
    (h : F.Later (F.hold w (vs.map .value)) x y post) :
    F.Later w (e.keep (vs.map .value) x) (e'.keep (vs.map .value) y)
      fun s' a => post s' a ∧ ∀ v ∈ vs, F.Good s' v :=
  (he.keep (knows_values hvs) h).mono
    fun _ _ ha => ⟨ha.1, fun v hv => ha.2 v (List.mem_map_of_mem hv)⟩

theorem Calls.callNamed (he : F.Calls e e') {v : Value} (hv : F.Good s v) (name : String)
    {args : List Value} (hargs : ∀ a ∈ args, F.Good s a) :
    F.Later w (e.callNamed v name args) (e'.callNamed v name args) F.Good := by
  refine (agree_lookup hv name).bindLater fun w' r _ hr => ?_
  cases r with
  | some method =>
    exact (he.keepValues [v] (by simpa using hv) (he.call (hr method rfl) hargs)).mono
      fun _ _ h => h.1
  | none => exact (agree_missingSymbol v name).later

theorem Calls.callSymbol (he : F.Calls e e') {v : Value} (hv : F.Good s v) (symbol : Symbol)
    {args : List Value} (hargs : ∀ a ∈ args, F.Good s a) :
    F.Later w (e.callSymbol v symbol args) (e'.callSymbol v symbol args) F.Good :=
  he.callNamed hv symbol.name hargs

theorem Calls.operation (he : F.Calls e e') (operator : BinaryOperator) {left right : Value}
    (hl : F.Lasts w left) (hr : F.Lasts w right) :
    F.Later w (e.operation operator left right) (e'.operation operator left right) F.Good := by
  have hreflected : ∀ {s} {w : (F.likeness s).World}, F.Good s left → F.Good s right →
      F.Later w (e.reflectedOperation operator left right) (e'.reflectedOperation operator left right)
        F.Good :=
    fun hl hr => he.callSymbol hr operator.reflected (by simpa using hl)
  refine (agree_lookup hl.good _).bindLater fun w₁ r hw₁ hfound => ?_
  cases r with
  | none => exact hreflected hl.good hr.good
  | some method =>
    have hcalled : F.Later w₁ (e.call method [right]) (e'.call method [right]) F.Good :=
      he.call (hfound method rfl) (by simpa using hr.good)
    refine hcalled.attempt.bind fun s₂ w₂ r hw₂ hresult => ?_
    cases r with
    | none => exact hreflected ((hl.le hw₁).past hw₂).good ((hr.le hw₁).past hw₂).good
    | some result => exact .pure (hresult result rfl)

/-- Operators hold on to their operands. -/
theorem Calls.keepOperation (he : F.Calls e e') (operator : BinaryOperator) {left right : Value}
    (hl : F.Good s left) (hr : F.Good s right) :
    F.Later w (e.keep [.value left, .value right] (e.operation operator left right))
      (e'.keep [.value left, .value right] (e'.operation operator left right)) F.Good :=
  (he.keepValues [left, right] (by simpa using ⟨hl, hr⟩)
    (he.operation operator (lasts_hold hl (by simp)) (lasts_hold hr (by simp)))).mono fun _ _ h => h.1

theorem Calls.equals (he : F.Calls e e') {left right : Value} (hl : F.Good s left)
    (hr : F.Good s right) :
    F.Later w (e.equals left right) (e'.equals left right) fun _ _ => True :=
  (he.keepOperation .equals hl hr).bind fun _ _ _ _ hv => (agree_expectBool hv).later

theorem Calls.hashOf (he : F.Calls e e') {v : Value} (hv : F.Good s v) :
    F.Later w (e.hashOf v) (e'.hashOf v) fun _ _ => True := by
  refine (agree_lookup hv _).bindLater fun w' r _ hr => ?_
  cases r with
  | some method =>
    refine (he.keepValues [v] (by simpa using hv) (he.call (hr method rfl) (by simp))).bind
      fun _ _ _ _ hh => ?_
    exact (agree_expectInteger hh.1).later
  | none => exact (agree_typeName v).bindLater fun _ _ _ _ => .failOrdinary rfl

theorem Calls.truthy (he : F.Calls e e') {v : Value} (hv : F.Good s v) :
    F.Later w (e.truthy v) (e'.truthy v) fun _ _ => True := by
  refine (agree_kindOf hv).bindLater fun w' k _ _ => ?_
  split
  · exact .pure trivial
  · exact (he.callSymbol hv .toBool (by simp)).bind fun _ _ _ _ hb =>
      (agree_expectBool hb).later

theorem Calls.stringify (he : F.Calls e e') {v : Value} (hv : F.Good s v) :
    F.Later w (e.stringify v) (e'.stringify v) fun _ _ => True := by
  refine (agree_kindOf hv).bindLater fun w' k _ _ => ?_
  split
  · exact .pure trivial
  · exact (he.callSymbol hv .toText (by simp)).bind fun _ _ _ _ hb =>
      (agree_expectText hb).later

/-! ## Iteration -/

theorem Calls.iteratorOf (he : F.Calls e e') {v : Value} (hv : F.Good s v) :
    F.Later w (e.iteratorOf v) (e'.iteratorOf v) F.Good := by
  refine (agree_kindOf hv).bindLater fun w' k _ _ => ?_
  split
  · exact .pure hv
  · exact .pure hv
  · refine (Agree.readHeap
      (f := fun h => h.has v Symbol.hasNext.name && h.has v Symbol.next.name)).bindLater ?_
    intro w'' b _ _
    split
    · exact .pure hv
    · exact he.callSymbol hv .iter (by simp)

theorem Calls.takeItems (he : F.Calls e e') {next next' : Value → Run (Option Value)}
    (hnext : F.NextFollows next next') {iterator : Value} (hi : F.Good s iterator)
    (wanted missing : Nat) {taken : List Value} (htaken : ∀ v ∈ taken, F.Good s v) :
    F.Later w (e.takeItems next iterator wanted missing taken)
      (e'.takeItems next' iterator wanted missing taken) fun s' vs => ∀ v ∈ vs, F.Good s' v := by
  induction missing generalizing s w taken with
  | zero => exact .pure (by simpa using htaken)
  | succ missing ih =>
    have hheld : ∀ v ∈ iterator :: taken, F.Good s v := List.forall_mem_cons.2 ⟨hi, htaken⟩
    refine (he.keepValues _ hheld (hnext (lasts_hold hi (by simp)))).bind fun s' w' r _ hr => ?_
    obtain ⟨hi', htaken'⟩ := List.forall_mem_cons.1 hr.2
    cases r with
    | some item => exact ih hi' (List.forall_mem_cons.2 ⟨hr.1 item rfl, htaken'⟩)
    | none => exact .failOrdinary rfl

theorem Calls.unpackWith (he : F.Calls e e') {next next' : Value → Run (Option Value)}
    (hnext : F.NextFollows next next') {v : Value} (hv : F.Good s v) (wanted : Nat) :
    F.Later w (e.unpackWith next v wanted) (e'.unpackWith next' v wanted)
      fun s' vs => ∀ u ∈ vs, F.Good s' u :=
  (he.iteratorOf hv).bind fun _ _ _ _ hi => he.takeItems hnext hi wanted wanted (by simp)

theorem Calls.received (he : F.Calls e e') {next next' : Value → Run (Option Value)}
    (hnext : F.NextFollows next next') {item : Value} (hitem : F.Good s item) (receivers : Nat) :
    F.Later w (e.received next item receivers) (e'.received next' item receivers)
      fun s' vs => ∀ v ∈ vs, F.Good s' v := by
  unfold Engine.received
  split
  · exact .pure (by simpa using hitem)
  · exact he.unpackWith hnext hitem receivers

/-- Whatever a step does, its generator lasts, and can be exhausted after it. -/
theorem later_orExhaust {g : Value} (hg : F.Lasts w g) {x y : Run (Option Value)}
    (h : F.Later w x y fun s' r => ∀ v ∈ r, F.Good s' v) :
    F.Later w (orExhaust g x) (orExhaust g y) fun s' r => ∀ v ∈ r, F.Good s' v := by
  have hexhaust : ∀ {s' : F.Stage} {w' : (F.likeness s').World} {m n}, F.past w w' →
      (F.likeness s').Alike w' m n → (F.likeness s').Alike w'
        { m with heap := Engine.changeGenerator g (fun s => { s with status := .exhausted }) m.heap }
        { n with heap :=
          Engine.changeGenerator g (fun s => { s with status := .exhausted }) n.heap } := by
    intro s' w' m n hw hmn
    rw [hmn.heap]
    exact hmn.changeGenerator (hg.past hw).good (fun _ _ hs => soundKind_exhausted hs)
      fun _ => .ofGenerator ⟨rfl, rfl, rfl, rfl⟩
  intro m n hmn
  unfold orExhaust
  refine (h m n hmn).byEnds (fun _ _ _ => trivial) ?_ ?_
  · intro r m' n' s' w' hw hr halike
    cases r with
    | some v => exact ⟨rfl, s', w', hw, hr, halike⟩
    | none => exact ⟨rfl, s', w', hw, hr, hexhaust hw halike⟩
  · intro f m' n' s' w' hw hadmits halike
    exact ⟨rfl, s', w', hw, hadmits, hexhaust hw halike⟩

theorem Engines.resumeWith (he : F.Engines e e') {next next' : Value → Run (Option Value)}
    (hnext : F.NextFollows next next') {g : Value} (hg : F.Lasts w g) :
    F.Later w (e.resumeWith next g) (e'.resumeWith next' g) fun s' r => ∀ v ∈ r, F.Good s' v := by
  refine (agree_expectGenerator hg.good).bindLater fun w₁ state hw₁ hstate => ?_
  have hg₁ := hg.le hw₁
  split
  · rename_i v hbuffered
    refine (agree_changeGenerator hg.good (fun _ hs => soundKind_unbuffered hs)
      fun _ => .ofGenerator ⟨rfl, rfl, rfl, rfl⟩).bindLater fun _ _ _ _ => ?_
    exact .pure (by rintro u ⟨⟩; exact hstate.2.2 v hbuffered)
  · exact .pure (by simp)
  · have hsource : F.Good s state.source := hstate.2.1
    refine later_orExhaust hg₁ ((he.keepValues [state.source] (by simpa using hsource)
      ((hnext (lasts_hold hsource (by simp))).bind fun s₂ w₂ r hw₂ hr => ?_)).mono fun _ _ h => h.1)
    have hg₂ := (hg₁.hold [.value state.source]).past hw₂
    cases r with
    | none => exact .pure (by simp)
    | some item =>
      refine (he.body hnext hg₂ (hr item rfl)).bind fun _ _ v _ hv => .pure ?_
      rintro u ⟨⟩
      exact hv

theorem Calls.askHasNext (he : F.Calls e e') {v : Value} (hv : F.Good s v) :
    F.Later w (e.askHasNext v) (e'.askHasNext v) fun _ _ => True :=
  (he.callSymbol hv .hasNext (by simp)).bind fun _ _ _ _ hb => he.truthy hb

theorem Engines.nextWithin (he : F.Engines e e') {depth depth' : Nat} (hd : depth ≤ depth') :
    F.NextFollows (e.nextWithin depth) (e'.nextWithin depth') := by
  induction depth generalizing depth' with
  | zero => exact fun _ => .giveUp
  | succ depth ih =>
    obtain ⟨depth', rfl⟩ := Nat.exists_eq_add_of_lt (Nat.lt_of_lt_of_le (Nat.succ_pos _) hd)
    intro s w v hv
    rw [show 0 + depth' + 1 = depth' + 1 by omega]
    refine later_kindOf_bind hv.good fun k hk => ?_
    split
    · exact Later.on (.pure (by simp))
    · rename_i item remaining delivered
      obtain ⟨hremaining, hdelivered⟩ := hk
      have hitem : F.Good s item := hremaining item (by simp)
      have hk' : (F.likeness s).SoundKind w (.iterator remaining (item :: delivered)) :=
        ⟨fun u hu => hremaining u (by simp [hu]), by simpa using ⟨hitem, hdelivered⟩⟩
      refine (agreeOn_setKind v hk' (by simp [Kind.Becomes])).bindLater fun _ _ _ _ => .pure ?_
      rintro u ⟨⟩
      exact hitem
    · exact (he.resumeWith (ih (by omega)) hv).on
    · refine ((he.askHasNext hv.good).bind fun s₁ w₁ b hw₁ _ => ?_).on
      split
      · refine (he.callSymbol (hv.past hw₁).good .next (by simp)).bind fun _ _ u _ hu => .pure ?_
        rintro x ⟨⟩
        exact hu
      · exact .pure (by simp)

theorem Engines.next (he : F.Engines e e') : F.NextFollows e.next e'.next :=
  he.nextWithin he.fuel_le

theorem Engines.resume (he : F.Engines e e') {g : Value} (hg : F.Lasts w g) :
    F.Later w (e.resume g) (e'.resume g) fun s' r => ∀ v ∈ r, F.Good s' v :=
  he.resumeWith he.next hg

theorem Engines.hasNext (he : F.Engines e e') {v : Value} (hv : F.Lasts w v) :
    F.Later w (e.hasNext v) (e'.hasNext v) fun _ _ => True := by
  refine (agree_kindOf hv.good).bindLater fun w₁ k hw₁ _ => ?_
  have hv₁ := hv.le hw₁
  split
  · exact .pure trivial
  · split
    · exact .pure trivial
    · refine (he.resume hv₁).bind fun s₂ w₂ r hw₂ hr => ?_
      cases r with
      | none => exact .pure trivial
      | some u =>
        refine (agree_changeGenerator (hv₁.past hw₂).good (fun _ hs => soundKind_buffered (hr u rfl) hs)
          fun _ => .ofGenerator ⟨rfl, rfl, rfl, rfl⟩).bindLater ?_
        exact fun _ _ _ _ => .pure trivial
  · exact he.askHasNext hv.good

theorem Engines.drainWithin (he : F.Engines e e') {v : Value} (hv : F.Good s v)
    {rounds rounds' : Nat} (hrounds : rounds ≤ rounds') {taken : List Value}
    (htaken : ∀ u ∈ taken, F.Good s u) :
    F.Later w (e.drainWithin v rounds taken) (e'.drainWithin v rounds' taken)
      fun s' vs => ∀ u ∈ vs, F.Good s' u := by
  induction rounds generalizing s w rounds' taken with
  | zero => exact .giveUp
  | succ rounds ih =>
    cases rounds' with
    | zero => omega
    | succ rounds' =>
      have hheld : ∀ u ∈ v :: taken, F.Good s u := List.forall_mem_cons.2 ⟨hv, htaken⟩
      refine (he.keepValues _ hheld (he.next (lasts_hold hv (by simp)))).bind fun s' w' r _ hr => ?_
      obtain ⟨hv', htaken'⟩ := List.forall_mem_cons.1 hr.2
      cases r with
      | some item => exact ih hv' (by omega) (List.forall_mem_cons.2 ⟨hr.1 item rfl, htaken'⟩)
      | none => exact .pure (by simpa using htaken')

theorem Engines.drain (he : F.Engines e e') {v : Value} (hv : F.Good s v) :
    F.Later w (e.drain v) (e'.drain v) fun s' vs => ∀ u ∈ vs, F.Good s' u :=
  he.drainWithin hv he.fuel_le (by simp)

/-! ## Storage of hashes -/

theorem Calls.positionOf (he : F.Calls e e') {key : Value} (hkey : F.Lasts w key)
    {candidates : List Value} (hc : ∀ v ∈ candidates, F.Lasts w v) (position : Nat) :
    F.Later w (e.positionOf key position candidates) (e'.positionOf key position candidates)
      fun _ _ => True := by
  induction candidates generalizing s w position with
  | nil => exact .pure trivial
  | cons candidate rest ih =>
    obtain ⟨hcandidate, hrest⟩ := List.forall_mem_cons.1 hc
    unfold Engine.positionOf
    split
    · exact .pure trivial
    · refine (he.equals hcandidate.good hkey.good).bind fun s' w' b hw' _ => ?_
      split
      · exact .pure trivial
      · exact ih (hkey.past hw') (fun v hv => (hrest v hv).past hw') _

theorem Calls.locate (he : F.Calls e e') {owner key : Value} (ho : F.Lasts w owner)
    (hkey : F.Lasts w key) :
    F.Later w (e.locate owner key) (e'.locate owner key) fun _ _ => True := by
  refine (he.hashOf hkey.good).bind fun s₁ w₁ hash hw₁ _ => ?_
  refine (agree_expectTable (ho.past hw₁).good).bindLater fun w₂ table hw₂ htable => ?_
  have hkey₂ := (hkey.past hw₁).le hw₂
  have hcandidates : ∀ v ∈ (table.bucket hash).map (·.1), F.Good s₁ v := by
    intro v hv
    obtain ⟨entry, hentry, rfl⟩ := List.mem_map.1 hv
    exact (htable.2 entry (Table.mem_entries_of_mem_bucket hentry)).1
  exact (he.keepValues _ hcandidates
    (he.positionOf (hkey₂.hold _) (lasts_hold_values hcandidates) 0)).bind
    fun _ _ _ _ _ => .pure trivial

/-- Who looks for a key holds on to it and to the table, and to what is to be stored. -/
theorem Calls.keepLocate (he : F.Calls e e') {owner key : Value} (more : List Value)
    (hvs : ∀ v ∈ owner :: key :: more, F.Good s v) :
    F.Later w (e.keep ((owner :: key :: more).map .value) (e.locate owner key))
      (e'.keep ((owner :: key :: more).map .value) (e'.locate owner key))
      fun s' _ => ∀ v ∈ owner :: key :: more, F.Good s' v :=
  (he.keepValues _ hvs (he.locate (lasts_hold_values hvs _ (by simp))
    (lasts_hold_values hvs _ (by simp)))).mono fun _ _ h => h.2

theorem Calls.stored? (he : F.Calls e e') {owner key : Value} (ho : F.Good s owner)
    (hkey : F.Good s key) :
    F.Later w (e.stored? owner key) (e'.stored? owner key) fun s' r => ∀ v ∈ r, F.Good s' v := by
  refine (he.keepLocate [] (by simpa using ⟨ho, hkey⟩)).bind fun s' w' place _ hvs => ?_
  obtain ⟨hash, position⟩ := place
  cases position with
  | none => exact .pure (by simp)
  | some position =>
    refine (agree_expectTable (hvs owner (by simp))).bindLater fun _ table _ htable => .pure ?_
    intro v hv
    obtain ⟨entry, hentry, rfl⟩ := Option.map_eq_some_iff.1 hv
    exact (htable.2 entry (Table.mem_entries_of_mem_bucket (List.mem_of_getElem? hentry))).2

theorem Calls.isStored (he : F.Calls e e') {owner key : Value} (ho : F.Good s owner)
    (hkey : F.Good s key) :
    F.Later w (e.isStored owner key) (e'.isStored owner key) fun _ _ => True :=
  (he.keepLocate [] (by simpa using ⟨ho, hkey⟩)).bind fun _ _ _ _ _ => .pure trivial

theorem Calls.store (he : F.Calls e e') {owner key value : Value} (ho : F.Good s owner)
    (hkey : F.Good s key) (hvalue : F.Good s value) :
    F.Later w (e.store owner key value) (e'.store owner key value) fun _ _ => True := by
  refine (he.keepLocate [value] (by simpa using ⟨ho, hkey, hvalue⟩)).bind
    fun s' w' place _ hvs => ?_
  obtain ⟨hash, position⟩ := place
  have ho' := hvs owner (by simp)
  have hfail : (F.likeness s').Agree w' (Run.failType owner ["Hash"]) (Run.failType owner ["Hash"])
      fun _ (_ : Table) => False := agree_failType owner _
  simp only [expectTable, bind_assoc]
  refine later_kindOf_bind ho' fun k hk => ?_
  split
  · rw [pure_bind]
    have hput : (F.likeness s').SoundKind w' (.hash _) :=
      ⟨(F.likeness s').table_put hash position key value hk.1,
        Table.good_put hash position hk.2 (hvs key (by simp)) (hvs value (by simp))⟩
    refine (agreeOn_setKind owner hput ?_).later
    exact Table.grows_put _ hash position key value
  · exact (hfail.bindLater fun _ _ _ h => h.elim).on

end Fading
end ScriptVM
