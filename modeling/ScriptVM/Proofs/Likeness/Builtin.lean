import ScriptVM.Proofs.Likeness.Protocol

/-!
# Built-in methods on machines that are alike

Every built-in method works through the calls of its engine, so of engines that follow one another the
methods do, too. Who calls a method holds on to its receiver and its arguments; what a method finds in
them and goes on with after a call, it holds on to itself.
-/
namespace ScriptVM

/-- A method under the second engine follows the one under the first. -/
def Method.Follows (F : Fading) (e e' : Engine) (method : Method) : Prop :=
  ∀ (s : F.Stage) (w : (F.likeness s).World) (this : Value) (args : List Value), F.Lasts w this →
    (∀ v ∈ args, F.Lasts w v) → F.Later w (method e this args) (method e' this args) F.Good

namespace Fading

variable {F : Fading} {e e' : Engine}

open Builtin

/-! ## Forms of methods -/

theorem follows_nullary {body : Engine → Value → Run Value}
    (h : ∀ {s : F.Stage} {w : (F.likeness s).World} {this}, F.Lasts w this →
      F.Later w (body e this) (body e' this) F.Good) : (Method.nullary body).Follows F e e' := by
  intro s w this args hthis _
  unfold Method.nullary
  split
  · exact h hthis
  · exact .failOrdinary rfl

theorem follows_unary {body : Engine → Value → Value → Run Value}
    (h : ∀ {s : F.Stage} {w : (F.likeness s).World} {this x}, F.Lasts w this → F.Lasts w x →
      F.Later w (body e this x) (body e' this x) F.Good) : (Method.unary body).Follows F e e' := by
  intro s w this args hthis hargs
  unfold Method.unary
  split
  · exact h hthis (hargs _ (by simp))
  · exact .failOrdinary rfl

theorem follows_binary {body : Engine → Value → Value → Value → Run Value}
    (h : ∀ {s : F.Stage} {w : (F.likeness s).World} {this x y}, F.Lasts w this → F.Lasts w x →
      F.Lasts w y → F.Later w (body e this x y) (body e' this x y) F.Good) :
    (Method.binary body).Follows F e e' := by
  intro s w this args hthis hargs
  unfold Method.binary
  split
  · exact h hthis (hargs _ (by simp)) (hargs _ (by simp))
  · exact .failOrdinary rfl

theorem follows_question (negated : Bool) {body : Engine → Value → Value → Run Bool}
    (h : ∀ {s : F.Stage} {w : (F.likeness s).World} {this x}, F.Lasts w this → F.Lasts w x →
      F.Later w (body e this x) (body e' this x) fun _ _ => True) :
    (Method.question negated body).Follows F e e' :=
  follows_unary fun hthis hx => (h hthis hx).bind fun _ _ _ _ _ => (Likeness.agree_newBool _).later

theorem follows_rememberedHash {compute : Engine → Value → Run Int64}
    (h : ∀ {s : F.Stage} {w : (F.likeness s).World} {this}, F.Lasts w this →
      F.Later w (compute e this) (compute e' this) fun _ _ => True) :
    (Method.rememberedHash compute).Follows F e e' := by
  refine follows_nullary fun {s w this} hthis => ?_
  refine (Likeness.Agree.readHeap (f := fun h => h.hash? this)).bindLater fun w₁ r hw₁ _ => ?_
  cases r with
  | some hash => exact (Likeness.agree_newInteger hash).later
  | none =>
    refine (h (hthis.le hw₁)).bind fun _ _ hash _ _ => ?_
    exact (Likeness.agree_setHash this hash).bindLater fun _ _ _ _ =>
      (Likeness.agree_newInteger hash).later

/-! ### Methods that call nothing -/

theorem agrees_nullary {body : Engine → Value → Run Value}
    (h : ∀ {s : F.Stage} {w : (F.likeness s).World} {this}, F.Good s this →
      (F.likeness s).Agree w (body e this) (body e' this) fun _ v => F.Good s v) :
    (Method.nullary body).Follows F e e' :=
  follows_nullary fun hthis => (h hthis.good).later

theorem agrees_unary {body : Engine → Value → Value → Run Value}
    (h : ∀ {s : F.Stage} {w : (F.likeness s).World} {this x}, F.Good s this → F.Good s x →
      (F.likeness s).Agree w (body e this x) (body e' this x) fun _ v => F.Good s v) :
    (Method.unary body).Follows F e e' :=
  follows_unary fun hthis hx => (h hthis.good hx.good).later

theorem agrees_self : Method.self.Follows F e e' :=
  agrees_nullary fun hthis => .pure hthis

theorem agrees_question (negated : Bool) {body : Engine → Value → Value → Run Bool}
    (h : ∀ {s : F.Stage} {w : (F.likeness s).World} {this x}, F.Good s this → F.Good s x →
      (F.likeness s).Agree w (body e this x) (body e' this x) fun _ _ => True) :
    (Method.question negated body).Follows F e e' :=
  follows_question negated fun hthis hx => (h hthis.good hx.good).later

theorem agrees_rememberedHash {compute : Engine → Value → Run Int64}
    (h : ∀ {s : F.Stage} {w : (F.likeness s).World} {this}, F.Good s this →
      (F.likeness s).Agree w (compute e this) (compute e' this) fun _ _ => True) :
    (Method.rememberedHash compute).Follows F e e' :=
  follows_rememberedHash fun hthis => (h hthis.good).later

/-- The methods of a table follow one another. -/
def TableFollows (F : Fading) (e e' : Engine) (table : Symbol → Option Method) : Prop :=
  ∀ s method, table s = some method → method.Follows F e e'

theorem tableFollows_equality {equal : Engine → Value → Value → Run Bool}
    (h : ∀ {s : F.Stage} {w : (F.likeness s).World} {this x}, F.Lasts w this → F.Lasts w x →
      F.Later w (equal e this x) (equal e' this x) fun _ _ => True) :
    F.TableFollows e e' (equality? equal) := by
  intro s method hs
  unfold equality? at hs
  split at hs
  · cases hs; exact follows_question false h
  · cases hs; exact follows_question false h
  · cases hs; exact follows_question true h
  · cases hs; exact follows_question true h
  · cases hs

end Fading

namespace Likeness

variable {L : Likeness} {w : L.World} {F : Fading} {s : F.Stage} {e e' : Engine}

open Builtin Fading


/-! ## Common behaviour, None, Bool and types -/

theorem agrees_connective (he : F.Engines e e') (join : Bool → Bool → Bool) :
    (connective join).Follows F e e' :=
  follows_unary fun hthis hother =>
    (he.truthy hthis.good).bind fun _ _ _ hw _ =>
      (he.truthy (hother.past hw).good).bind fun _ _ _ _ _ => (agree_newBool _).later

theorem agree_classOf {this : Value} (hthis : L.good this) :
    L.Agree w (classOf e this) (classOf e' this) fun _ v => L.good v := by
  refine (agree_kindOf hthis).bind fun w' k _ hk => ?_
  split
  · exact .pure hk
  · exact agree_builtinType _

theorem tableFollows_common (he : F.Engines e e') : F.TableFollows e e' common? := by
  intro s method hs
  have hsame : ∀ negated, (Method.question negated isSame).Follows F e e' := fun negated =>
    agrees_question negated fun _ _ => .pure trivial
  have hremembered : (Method.rememberedHash identityHash).Follows F e e' :=
    agrees_rememberedHash fun {_ _ this} _ => (agree_typeName this).bind fun _ _ _ _ => by
      rw [he.digests_eq]
      exact .pure trivial
  unfold common? at hs
  split at hs <;> cases hs
  · exact agrees_nullary fun _ => agree_newNone
  · exact hsame false
  · exact hsame false
  · exact follows_question true fun hthis hother => he.equals hthis.good hother.good
  · exact hsame true
  · exact hremembered
  · exact agrees_nullary fun _ => agree_newBool true
  · exact agrees_nullary fun {_ _ this} _ =>
      (agree_display this).bind fun _ _ _ _ => agree_newString _
  · exact follows_nullary fun hthis =>
      (he.truthy hthis.good).bind fun _ _ _ _ _ => (agree_newBool _).later
  · exact agrees_connective he and
  · exact agrees_connective he and
  · exact agrees_connective he or
  · exact agrees_connective he or
  · exact agrees_connective he xor
  · exact agrees_connective he xor
  · exact agrees_nullary fun hthis => agree_classOf hthis
  · exact agrees_self

theorem tableFollows_none (he : F.Engines e e') : F.TableFollows e e' none? := by
  intro s method hs
  unfold none? at hs
  split at hs
  · cases hs
    exact agrees_nullary fun _ => by
      rw [he.digests_eq]
      exact agree_newInteger _
  · cases hs; exact agrees_nullary fun _ => agree_newBool false
  · cases hs; exact agrees_nullary fun _ => agree_newString _
  · exact tableFollows_equality
      (fun {_ _ _ x} _ _ => (Agree.readHeap (f := fun h => h.isNone x)).later) s method hs

theorem agree_flagNumber (this : Value) :
    L.Agree w (flagNumber this) (flagNumber this) fun _ _ => True :=
  (Agree.readHeap (f := fun h => h.bool? this)).bind fun _ _ _ _ => .pure trivial

theorem agree_equalFlags (this other : Value) :
    L.Agree w (equalFlags e this other) (equalFlags e' this other) fun _ _ => True :=
  Agree.read fun _ _ hmn => ⟨by rw [hmn.heap], trivial⟩

theorem tableFollows_bool : F.TableFollows e e' bool? := by
  intro s method hs
  have hnumber : (Method.nullary fun _ this => do
      Run.newInteger (← flagNumber this)).Follows F e e' :=
    agrees_nullary fun {_ _ this} _ =>
      (agree_flagNumber this).bind fun _ _ _ _ => agree_newInteger _
  unfold bool? at hs
  split at hs
  · cases hs; exact hnumber
  · cases hs; exact hnumber
  · cases hs
    exact agrees_nullary fun {_ _ this} _ =>
      (agree_flagNumber this).bind fun _ _ _ _ => agree_newFloat _
  · cases hs; exact agrees_self
  · exact tableFollows_equality (fun {_ _ this x} _ _ => (agree_equalFlags this x).later) s method hs

theorem agree_basesOf {this : Value} (hthis : L.good this) :
    L.Agree w (basesOf e this) (basesOf e' this) fun _ v => L.good v := by
  refine (agree_kindOf hthis).bind fun w' k _ hk => ?_
  split
  · exact agree_newObject hk.2
  · exact agree_newObject (by simp [SoundKind])
  · exact agree_failType this _

theorem tableFollows_type : F.TableFollows e e' type? := by
  intro s method hs
  unfold type? at hs
  split at hs <;> cases hs
  exact agrees_nullary fun hthis => agree_basesOf hthis

/-! ## Numbers -/

theorem agree_expectNumber {v : Value} (hv : L.good v) :
    L.Agree w (expectNumber v) (expectNumber v) fun _ _ => True := by
  refine (agree_kindOf hv).bind fun w' k _ _ => ?_
  split
  · exact .pure trivial
  · exact agree_failType v _

theorem agree_expectFloat {v : Value} (hv : L.good v) :
    L.Agree w (expectFloat v) (expectFloat v) fun _ _ => True := by
  refine (agree_kindOf hv).bind fun w' k _ _ => ?_
  split
  · exact .pure trivial
  · exact agree_failType v _

theorem soundKind_number (n : Number) : L.SoundKind w n.toKind := by
  cases n <;> trivial

/-- Computing with numbers fails by a division by zero at most. -/
theorem Arithmetic.cause_of_compute {op : Arithmetic} {a b : Number} {c : Cause}
    (h : op.compute a b = .error c) : c = .divisionByZero := by
  have hi : ∀ {x y}, op.onIntegers x y = .error c → c = .divisionByZero := by
    intro x y h
    cases op <;> simp only [Arithmetic.onIntegers] at h <;> (try split at h) <;> cases h <;> rfl
  have hf : ∀ {x y}, op.onFloats x y = .error c → c = .divisionByZero := by
    intro x y h
    cases op <;> simp only [Arithmetic.onFloats] at h <;> (try split at h) <;> cases h <;> rfl
  unfold Arithmetic.compute at h
  split at h
  · exact hi h
  · exact hf h

theorem agrees_arithmetic (op : Arithmetic) (reflected : Bool) :
    (arithmetic op reflected).Follows F e e' := by
  refine agrees_unary fun hthis hother => ?_
  refine (agree_expectNumber hthis).bind fun _ a _ _ => ?_
  refine (agree_expectNumber hother).bind fun _ b _ _ => ?_
  cases hc : op.compute (inOrder reflected a b).1 (inOrder reflected a b).2 with
  | ok n => simpa [hc] using agree_newObject (soundKind_number n)
  | error c =>
    have hcause := Arithmetic.cause_of_compute hc
    subst hcause
    simpa [hc] using Agree.fail ((F.likeness _).admits_ordinary rfl)

theorem agrees_comparison (c : Comparison) (reflected : Bool) :
    (comparison c reflected).Follows F e e' := by
  refine agrees_unary fun hthis hother => ?_
  refine (agree_expectNumber hthis).bind fun _ _ _ _ => ?_
  exact (agree_expectNumber hother).bind fun _ _ _ _ => agree_newBool _

theorem agrees_bitwise (op : Bitwise) (reflected : Bool) :
    (bitwise op reflected).Follows F e e' := by
  refine agrees_unary fun hthis hother => ?_
  refine (agree_expectInteger hthis).bind fun _ _ _ _ => ?_
  exact (agree_expectInteger hother).bind fun _ _ _ _ => agree_newInteger _

theorem agree_equalNumbers (this other : Value) :
    L.Agree w (equalNumbers e this other) (equalNumbers e' this other) fun _ _ => True :=
  Agree.read fun _ _ hmn => ⟨by rw [hmn.heap], trivial⟩

theorem tableFollows_number : F.TableFollows e e' number? := by
  intro s method hs
  unfold number? at hs
  split at hs
  · cases hs; exact agrees_arithmetic _ _
  · cases hs; exact agrees_comparison _ _
  · exact tableFollows_equality (fun {_ _ this x} _ _ => (agree_equalNumbers this x).later) s method hs

theorem agrees_onInteger {body : Int64 → Run Value}
    (h : ∀ {s : F.Stage} {w : (F.likeness s).World} n,
      (F.likeness s).Agree w (body n) (body n) fun _ v => F.Good s v) :
    (onInteger body).Follows F e e' :=
  agrees_nullary fun hthis => (agree_expectInteger hthis).bind fun _ n _ _ => h n

theorem agrees_onFloat {body : Float → Run Value}
    (h : ∀ {s : F.Stage} {w : (F.likeness s).World} x,
      (F.likeness s).Agree w (body x) (body x) fun _ v => F.Good s v) :
    (onFloat body).Follows F e e' :=
  agrees_nullary fun hthis => (agree_expectFloat hthis).bind fun _ x _ _ => h x

theorem tableFollows_integer : F.TableFollows e e' integer? := by
  intro s method hs
  unfold integer? at hs
  split at hs
  · cases hs; exact agrees_onInteger fun _ => agree_newInteger _
  · cases hs; exact agrees_onInteger fun _ => agree_newInteger _
  · cases hs; exact agrees_onInteger agree_newInteger
  · cases hs; exact agrees_self
  · cases hs; exact agrees_onInteger fun _ => agree_newFloat _
  · cases hs; exact agrees_onInteger fun _ => agree_newBool _
  · split at hs
    · cases hs; exact agrees_bitwise _ _
    · exact tableFollows_number s method hs

theorem tableFollows_float (he : F.Engines e e') : F.TableFollows e e' float? := by
  intro s method hs
  unfold float? at hs
  split at hs
  · cases hs; exact agrees_onFloat fun _ => agree_newFloat _
  · cases hs
    exact agrees_rememberedHash fun hthis =>
      (agree_expectFloat hthis).bind fun _ _ _ _ => by
        rw [he.digests_eq]
        exact .pure trivial
  · cases hs; exact agrees_onFloat fun _ => agree_newInteger _
  · cases hs; exact agrees_self
  · cases hs; exact agrees_onFloat fun _ => agree_newBool _
  · exact tableFollows_number s method hs

/-! ## Positions and repetition -/

theorem agree_expectPosition (length : Nat) (index : Int64) (isBound : Bool) :
    L.Agree w (expectPosition length index isBound) (expectPosition length index isBound)
      fun _ _ => True := by
  unfold expectPosition
  split
  · exact .pure trivial
  · exact .fail (L.admits_ordinary rfl)

theorem agree_bounds (length : Nat) {low high : Value} (hlow : L.good low) (hhigh : L.good high) :
    L.Agree w
      (do
        let first ← expectPosition length (← Engine.expectInteger low) true
        let last ← expectPosition length (← Engine.expectInteger high) true
        return Selection.stretch first (max first last))
      (do
        let first ← expectPosition length (← Engine.expectInteger low) true
        let last ← expectPosition length (← Engine.expectInteger high) true
        return Selection.stretch first (max first last)) fun _ _ => True := by
  refine (agree_expectInteger hlow).bind fun _ _ _ _ => ?_
  refine (agree_expectPosition length _ true).bind fun _ _ _ _ => ?_
  refine (agree_expectInteger hhigh).bind fun _ _ _ _ => ?_
  exact (agree_expectPosition length _ true).bind fun _ _ _ _ => .pure trivial

theorem agree_select (length : Nat) {index : Value} (hindex : L.good index) :
    L.Agree w (select length index) (select length index) fun _ _ => True := by
  refine (agree_kindOf hindex).bind fun w' k _ hk => ?_
  split
  · exact (agree_expectPosition length _ false).bind fun _ _ _ _ => .pure trivial
  · exact agree_bounds length (hk _ (by simp)) (hk _ (by simp))
  · exact agree_bounds length (hk _ (by simp)) (hk _ (by simp))
  · exact agree_failType index _

/-- Selecting looks at objects only. -/
theorem isReading_select (length : Nat) (index : Value) : Run.IsReading (select length index) := by
  have hposition : ∀ i b, Run.IsReading (expectPosition length i b) := by
    intro i b
    unfold expectPosition
    split
    · exact Run.isReading_pure _
    · exact Run.isReading_fail _
  have hinteger : ∀ v, Run.IsReading (Engine.expectInteger v) := by
    intro v
    refine (Run.isReading_read _).bind fun k => ?_
    split
    · exact Run.isReading_pure _
    · exact Run.isReading_failType _ _
  have hbounds : ∀ low high, Run.IsReading (do
      let first ← expectPosition length (← Engine.expectInteger low) true
      let last ← expectPosition length (← Engine.expectInteger high) true
      return Selection.stretch first (max first last)) := fun low high =>
    (hinteger low).bind fun _ => (hposition _ _).bind fun _ => (hinteger high).bind fun _ =>
      (hposition _ _).bind fun _ => Run.isReading_pure _
  refine (Run.isReading_read _).bind fun k => ?_
  split
  · exact (hposition _ _).bind fun _ => Run.isReading_pure _
  · exact hbounds _ _
  · exact hbounds _ _
  · exact Run.isReading_failType _ _

theorem mem_of_mem_pick {α : Type} {items : List α} {s : Selection} {a : α}
    (h : a ∈ s.pick items) : a ∈ items := by
  cases s with
  | single position => exact List.mem_of_mem_drop (List.mem_of_mem_take h)
  | stretch first last => exact List.mem_of_mem_take (List.mem_of_mem_drop h)

theorem mem_of_mem_repeat? {α : Type} {itemBytes : Nat} {items repeated : List α} {times : Int64}
    (h : repeat? itemBytes items times = some repeated) {a : α} (ha : a ∈ repeated) :
    a ∈ items := by
  have hflat : ∀ count, a ∈ (List.replicate count items).flatten → a ∈ items := by
    intro count hmem
    obtain ⟨l, hl, hal⟩ := List.mem_flatten.1 hmem
    exact (List.mem_replicate.1 hl).2 ▸ hal
  simp only [repeat?] at h
  split at h
  · cases h
    simp at ha
  · split at h
    · cases h
    · cases h
      split at ha
      · exact hflat _ (List.mem_reverse.1 ha)
      · exact hflat _ ha

theorem agree_repetition {α : Type} (itemBytes : Nat) (items : List α) (times : Int64) :
    L.Agree w (repetition itemBytes items times) (repetition itemBytes items times)
      fun _ repeated => ∀ a ∈ repeated, a ∈ items := by
  unfold repetition
  split
  · rename_i repeated h
    exact .pure fun a ha => mem_of_mem_repeat? h ha
  · exact .fail (L.admits_ordinary rfl)

/-! ## Strings and bytes -/

theorem agree_textOfChars (cs : List Char) :
    L.Agree w (textOfChars cs) (textOfChars cs) fun _ v => L.good v :=
  agree_newString _

theorem agree_characters {this : Value} (hthis : L.good this) :
    L.Agree w (characters this) (characters this) fun _ vs => ∀ v ∈ vs, L.good v :=
  (agree_expectText hthis).bind fun _ text _ _ =>
    .mapM (fun _ h => h) text.toList fun _ _ _ _ => agree_textOfChars _

theorem agree_repeatText {this times : Value} (hthis : L.good this) (htimes : L.good times) :
    L.Agree w (repeatText e this times) (repeatText e' this times) fun _ v => L.good v := by
  refine (agree_expectText hthis).bind fun _ _ _ _ => ?_
  refine (agree_expectInteger htimes).bind fun _ _ _ _ => ?_
  exact (agree_repetition 4 _ _).bind fun _ _ _ _ => agree_textOfChars _

theorem agree_twoTexts {α : Type} {this other : Value} {f : String → String → Run α}
    {post : L.World → α → Prop} (hthis : L.good this) (hother : L.good other)
    (hf : ∀ {w} a b, L.Agree w (f a b) (f a b) post) :
    L.Agree w
      (do f (← Engine.expectText this) (← Engine.expectText other))
      (do f (← Engine.expectText this) (← Engine.expectText other)) post := by
  refine (agree_expectText hthis).bind fun _ _ _ _ => ?_
  exact (agree_expectText hother).bind fun _ _ _ _ => hf _ _

theorem agree_equalTexts (this other : Value) :
    L.Agree w (equalTexts e this other) (equalTexts e' this other) fun _ _ => True :=
  Agree.read fun _ _ hmn => ⟨by rw [hmn.heap], trivial⟩

theorem agree_indexText {this index : Value} (hthis : L.good this) (hindex : L.good index) :
    L.Agree w (indexText e this index) (indexText e' this index) fun _ v => L.good v := by
  refine (agree_expectText hthis).bind fun _ _ _ _ => ?_
  exact (agree_select _ hindex).bind fun _ _ _ _ => agree_textOfChars _

theorem agree_textToInteger {this : Value} (hthis : L.good this) :
    L.Agree w (textToInteger e this) (textToInteger e' this) fun _ v => L.good v := by
  refine (agree_expectText hthis).bind fun _ _ _ _ => ?_
  split
  · exact agree_newInteger _
  · exact .fail (L.admits_ordinary rfl)

theorem agree_textToFloat {this : Value} (hthis : L.good this) :
    L.Agree w (textToFloat e this) (textToFloat e' this) fun _ v => L.good v := by
  refine (agree_expectText hthis).bind fun _ _ _ _ => ?_
  split
  · exact agree_newFloat _
  · exact .fail (L.admits_ordinary rfl)

theorem tableFollows_string (he : F.Engines e e') : F.TableFollows e e' string? := by
  intro s method hs
  unfold string? at hs
  split at hs
  · cases hs
    exact agrees_unary fun hthis hother =>
      agree_twoTexts hthis hother fun a b => agree_newString (a ++ b)
  · cases hs; exact agrees_unary agree_repeatText
  · cases hs; exact agrees_unary agree_repeatText
  · cases hs
    exact agrees_question false fun hthis hother =>
      agree_twoTexts hthis hother fun _ _ => .pure trivial
  · cases hs
    exact agrees_question false fun hthis hother =>
      agree_twoTexts hthis hother fun _ _ => .pure trivial
  · cases hs
    exact agrees_rememberedHash fun hthis =>
      (agree_expectText hthis).bind fun _ _ _ _ => by
        rw [he.digests_eq]
        exact .pure trivial
  · cases hs; exact agrees_unary agree_indexText
  · cases hs
    exact agrees_nullary fun hthis =>
      (agree_characters hthis).bind fun _ _ _ hvs => agree_newIterator hvs
  · cases hs
    exact agrees_nullary fun hthis =>
      (agree_expectText hthis).bind fun _ _ _ _ => agree_newString _
  · cases hs; exact agrees_self
  · cases hs
    exact agrees_nullary fun hthis => (agree_expectText hthis).bind fun _ _ _ _ => agree_newBool _
  · cases hs; exact agrees_nullary agree_textToInteger
  · cases hs; exact agrees_nullary agree_textToFloat
  · cases hs
    exact agrees_nullary fun hthis =>
      (agree_characters hthis).bind fun _ _ _ hvs => agree_newObject hvs
  · cases hs
    exact agrees_nullary fun hthis =>
      (agree_characters hthis).bind fun _ _ _ hvs => agree_newObject hvs
  · exact tableFollows_equality (fun {_ _ this x} _ _ => (agree_equalTexts this x).later) s method hs

theorem agree_expectBytes {v : Value} (hv : L.good v) :
    L.Agree w (expectBytes v) (expectBytes v) fun _ _ => True := by
  refine (agree_kindOf hv).bind fun w' k _ _ => ?_
  split
  · exact .pure trivial
  · exact agree_failType v _

theorem agree_byteIntegers {this : Value} (hthis : L.good this) :
    L.Agree w (byteIntegers this) (byteIntegers this) fun _ vs => ∀ v ∈ vs, L.good v :=
  (agree_expectBytes hthis).bind fun _ content _ _ =>
    .mapM (fun _ h => h) content fun _ _ _ _ => agree_newInteger _

theorem agree_joinBytes {this other : Value} (hthis : L.good this) (hother : L.good other) :
    L.Agree w (joinBytes e this other) (joinBytes e' this other) fun _ v => L.good v := by
  refine (agree_expectBytes hthis).bind fun _ _ _ _ => ?_
  exact (agree_expectBytes hother).bind fun _ _ _ _ => agree_newObject trivial

theorem agree_repeatBytes {this times : Value} (hthis : L.good this) (htimes : L.good times) :
    L.Agree w (repeatBytes e this times) (repeatBytes e' this times) fun _ v => L.good v := by
  refine (agree_expectInteger htimes).bind fun _ _ _ _ => ?_
  refine (agree_expectBytes hthis).bind fun _ _ _ _ => ?_
  exact (agree_repetition 1 _ _).bind fun _ _ _ _ => agree_newObject trivial

theorem agree_equalBytes (this other : Value) :
    L.Agree w (equalBytes e this other) (equalBytes e' this other) fun _ _ => True :=
  Agree.read fun _ _ hmn => ⟨by rw [hmn.heap], trivial⟩

theorem agree_indexBytes {this index : Value} (hthis : L.good this) (hindex : L.good index) :
    L.Agree w (indexBytes e this index) (indexBytes e' this index) fun _ v => L.good v := by
  refine (agree_expectBytes hthis).bind fun _ _ _ _ => ?_
  refine (agree_select _ hindex).bind fun _ _ _ _ => ?_
  split
  · exact agree_newInteger _
  · exact agree_newObject trivial

theorem tableFollows_bytes (he : F.Engines e e') : F.TableFollows e e' bytes? := by
  intro s method hs
  unfold bytes? at hs
  split at hs
  · cases hs; exact agrees_unary agree_joinBytes
  · cases hs; exact agrees_unary agree_repeatBytes
  · cases hs
    exact agrees_rememberedHash fun hthis =>
      (agree_expectBytes hthis).bind fun _ _ _ _ => by
        rw [he.digests_eq]
        exact .pure trivial
  · cases hs; exact agrees_unary agree_indexBytes
  · cases hs
    exact agrees_nullary fun hthis =>
      (agree_byteIntegers hthis).bind fun _ _ _ hvs => agree_newIterator hvs
  · cases hs
    exact agrees_nullary fun hthis =>
      (agree_expectBytes hthis).bind fun _ _ _ _ => agree_newString _
  · cases hs
    exact agrees_nullary fun hthis => (agree_expectBytes hthis).bind fun _ _ _ _ => agree_newBool _
  · cases hs
    exact agrees_nullary fun hthis =>
      (agree_byteIntegers hthis).bind fun _ _ _ hvs => agree_newObject hvs
  · cases hs
    exact agrees_nullary fun hthis =>
      (agree_byteIntegers hthis).bind fun _ _ _ hvs => agree_newObject hvs
  · exact tableFollows_equality (fun {_ _ this x} _ _ => (agree_equalBytes this x).later) s method hs

/-! ## Tuples and arrays -/

theorem later_elementText {w : (F.likeness s).World} (he : F.Engines e e') {v : Value}
    (hv : F.Good s v) :
    F.Later w (elementText e v) (elementText e' v) fun _ _ => True := by
  refine (agree_kindOf hv).bindLater fun w' k _ _ => ?_
  split
  · exact (agree_repr v).later
  · exact he.stringify hv

theorem agree_expectItems {v : Value} (hv : L.good v) :
    L.Agree w (expectItems v) (expectItems v) fun _ items => ∀ u ∈ items, L.good u := by
  refine (agree_kindOf hv).bind fun w' k _ hk => ?_
  split
  · exact .pure hk
  · exact .pure hk
  · exact agree_failType v _

theorem agree_newLike {like : Value} (hlike : L.good like) {items : List Value}
    (hitems : ∀ v ∈ items, L.good v) :
    L.Agree w (newLike like items) (newLike like items) fun _ v => L.good v := by
  refine (agree_kindOf hlike).bind fun w' k _ _ => ?_
  split
  · exact agree_newObject hitems
  · exact agree_newObject hitems

theorem later_allEqual {w : (F.likeness s).World} (he : F.Engines e e') {left right : List Value}
    (hl : ∀ v ∈ left, F.Lasts w v) (hr : ∀ v ∈ right, F.Lasts w v) :
    F.Later w (allEqual e left right) (allEqual e' left right) fun _ _ => True := by
  induction left generalizing s w right with
  | nil => exact .pure trivial
  | cons a as ih =>
    cases right with
    | nil => exact .pure trivial
    | cons b bs =>
      obtain ⟨ha, has⟩ := List.forall_mem_cons.1 hl
      obtain ⟨hb, hbs⟩ := List.forall_mem_cons.1 hr
      refine (he.equals ha.good hb.good).bind fun _ _ r hw _ => ?_
      split
      · exact ih (fun v hv => (has v hv).past hw) fun v hv => (hbs v hv).past hw
      · exact .pure trivial

theorem agree_haveSameTag (a b : Value) :
    L.Agree w (haveSameTag a b) (haveSameTag a b) fun _ _ => True :=
  Agree.readHeap (f := fun h => decide (h.tag a = h.tag b))

theorem later_equalSequences {w : (F.likeness s).World} (he : F.Engines e e') {this other : Value}
    (hthis : F.Lasts w this)
    (hother : F.Lasts w other) :
    F.Later w (equalSequences e this other) (equalSequences e' this other) fun _ _ => True := by
  refine (agree_haveSameTag this other).bindLater fun _ b _ _ => ?_
  split
  · refine (agree_expectItems hthis.good).bindLater fun _ left _ hleft => ?_
    refine (agree_expectItems hother.good).bindLater fun _ right _ hright => ?_
    split
    · refine (he.keepValues _ (List.forall_mem_append.2 ⟨hleft, hright⟩) (later_allEqual he ?_ ?_)).mono
        fun _ _ _ => trivial
      · exact fun v hv => lasts_hold (hleft v hv) (List.mem_map_of_mem (by simp [hv]))
      · exact fun v hv => lasts_hold (hright v hv) (List.mem_map_of_mem (by simp [hv]))
    · exact .pure trivial
  · exact .pure trivial

theorem later_containsElement {w : (F.likeness s).World} (he : F.Engines e e') {needle : Value}
    (hneedle : F.Lasts w needle)
    {items : List Value} (hitems : ∀ v ∈ items, F.Good s v) :
    F.Later w (containsElement e needle items) (containsElement e' needle items)
      fun _ _ => True := by
  induction items generalizing s w with
  | nil => exact .pure trivial
  | cons element rest ih =>
    obtain ⟨helement, hrest⟩ := List.forall_mem_cons.1 hitems
    refine (he.keepValues _ hrest (he.equals helement hneedle.good)).bind fun _ _ b hw hrest' => ?_
    split
    · exact .pure trivial
    · exact ih (hneedle.past hw) hrest'.2

theorem agree_joinSequences {this other : Value} (hthis : L.good this) (hother : L.good other) :
    L.Agree w (joinSequences e this other) (joinSequences e' this other) fun _ v => L.good v := by
  refine (agree_haveSameTag this other).bind fun _ b _ _ => ?_
  split
  · refine (agree_expectItems hthis).bind fun _ left _ hleft => ?_
    refine (agree_expectItems hother).bind fun _ right _ hright => ?_
    refine agree_newLike hthis fun v hv => ?_
    rcases List.mem_append.1 hv with hv | hv
    · exact hleft v hv
    · exact hright v hv
  · exact (agree_kindOf hthis).bind fun _ _ _ _ => agree_failType other _

theorem agree_repeatSequence {this times : Value} (hthis : L.good this) (htimes : L.good times) :
    L.Agree w (repeatSequence e this times) (repeatSequence e' this times)
      fun _ v => L.good v := by
  refine (agree_expectInteger htimes).bind fun _ times _ _ => ?_
  refine (agree_expectItems hthis).bind fun _ items _ hitems => ?_
  refine (agree_repetition 8 items times).bind fun _ repeated _ hr => ?_
  exact agree_newLike hthis fun v hv => hitems v (hr v hv)

theorem agree_indexSequence {this index : Value} (hthis : L.good this) (hindex : L.good index) :
    L.Agree w (indexSequence e this index) (indexSequence e' this index) fun _ v => L.good v := by
  refine (agree_expectItems hthis).bind fun _ items _ hitems => ?_
  refine (agree_select items.length hindex).bind fun _ selection _ _ => ?_
  have hpick : ∀ v ∈ selection.pick items, L.good v := fun v hv => hitems v (mem_of_mem_pick hv)
  split
  · rename_i item hitem
    exact .pure (hpick item (by simp [hitem]))
  · exact agree_newLike hthis hpick

theorem later_sequenceText {w : (F.likeness s).World} (he : F.Engines e e') {this : Value}
    (hthis : F.Lasts w this) :
    F.Later w (sequenceText e this) (sequenceText e' this) F.Good := by
  refine (agree_expectItems hthis.good).bindLater fun w₁ items hw₁ hitems => ?_
  refine (he.keepValues _ hitems (.mapM items fun v hv hw =>
    later_elementText he ((lasts_hold_values hitems v hv).past hw).good)).bind fun _ _ parts hw₂ _ => ?_
  refine (agree_kindOf ((hthis.le hw₁).past hw₂).good).bindLater fun w' k _ _ => ?_
  split
  · exact (agree_newString _).later
  · exact (agree_newString _).later

theorem tableFollows_sequence (he : F.Engines e e') : F.TableFollows e e' sequence? := by
  intro s method hs
  unfold sequence? at hs
  split at hs
  · cases hs; exact agrees_unary agree_joinSequences
  · cases hs; exact agrees_unary agree_repeatSequence
  · cases hs
    exact follows_question false fun hthis hneedle =>
      (agree_expectItems hthis.good).bindLater fun _ _ hw hitems =>
        later_containsElement he (hneedle.le hw) hitems
  · cases hs; exact agrees_unary agree_indexSequence
  · cases hs
    exact agrees_nullary fun hthis =>
      (agree_expectItems hthis).bind fun _ _ _ hitems => agree_newIterator hitems
  · cases hs
    exact agrees_nullary fun hthis =>
      (agree_expectItems hthis).bind fun _ _ _ hitems => agree_newLike hthis hitems
  · cases hs
    exact agrees_nullary fun hthis =>
      (agree_expectItems hthis).bind fun _ _ _ hitems => agree_newObject hitems
  · cases hs
    exact agrees_nullary fun hthis =>
      (agree_expectItems hthis).bind fun _ _ _ hitems => agree_newObject hitems
  · cases hs; exact follows_nullary (later_sequenceText he)
  · cases hs
    exact agrees_nullary fun hthis => (agree_expectItems hthis).bind fun _ _ _ _ => agree_newBool _
  · exact tableFollows_equality (later_equalSequences he) s method hs

theorem later_tupleHash {w : (F.likeness s).World} (he : F.Engines e e') {this : Value}
    (hthis : F.Lasts w this) :
    F.Later w (tupleHash e this) (tupleHash e' this) fun _ _ => True := by
  refine (agree_expectItems hthis.good).bindLater fun _ items _ hitems => ?_
  rw [he.digests_eq]
  refine (he.keepValues _ hitems (.foldlM items _ fun _ v hv hw => ?_)).mono fun _ _ _ => trivial
  exact (he.hashOf ((lasts_hold_values hitems v hv).past hw).good).bind fun _ _ _ _ _ => .pure trivial

theorem tableFollows_tuple (he : F.Engines e e') : F.TableFollows e e' tuple? := by
  intro s method hs
  unfold tuple? at hs
  split at hs
  · cases hs; exact follows_rememberedHash (later_tupleHash he)
  · exact tableFollows_sequence he s method hs

theorem agree_assignElement {this index element : Value} (hthis : L.good this)
    (hindex : L.good index) (helement : L.good element) :
    L.Agree w (assignElement e this index element) (assignElement e' this index element)
      fun _ v => L.good v := by
  refine Agree.kindOf_bind hthis fun k hk => ?_
  split
  · rename_i items
    refine AgreeOn.bind_reading (isReading_select items.length index)
      (agree_select items.length hindex) fun w'' selection _ _ => ?_
    cases selection with
    | single position =>
      have hset : L.SoundKind w'' (.array (items.set position element)) := by
        intro v hv
        rcases List.mem_or_eq_of_mem_set hv with hv | rfl
        · exact hk v hv
        · exact helement
      have hbecomes : (Kind.array items).Becomes (.array (items.set position element)) := trivial
      exact (agreeOn_setKind this hset hbecomes).bind fun _ _ _ _ => agree_newNone
    | stretch first last => exact (agree_failType index _).on
  · exact (agree_failType this _).on

theorem tableFollows_array (he : F.Engines e e') : F.TableFollows e e' array? := by
  intro s method hs
  unfold array? at hs
  split at hs
  · cases hs; exact follows_binary fun hthis hindex helement =>
      (agree_assignElement hthis.good hindex.good helement.good).later
  · exact tableFollows_sequence he s method hs

/-! ## Hashes -/

/-- What the entries of a table refer to is known. -/
theorem knows_entries {w : (F.likeness s).World} {entries : List (Value × Value)}
    (h : ∀ entry ∈ entries, F.Good s entry.1 ∧ F.Good s entry.2) :
    ∀ r ∈ entryReferences entries, F.knows w r := by
  intro r hr
  obtain ⟨entry, hentry, hmem⟩ := List.mem_flatMap.1 hr
  simp only [List.mem_cons, List.not_mem_nil, or_false] at hmem
  obtain rfl | rfl := hmem
  · exact F.knows_value.2 (h entry hentry).1
  · exact F.knows_value.2 (h entry hentry).2

theorem mem_entryReferences {entries : List (Value × Value)} {entry : Value × Value}
    (h : entry ∈ entries) :
    .value entry.1 ∈ entryReferences entries ∧ .value entry.2 ∈ entryReferences entries :=
  ⟨List.mem_flatMap.2 ⟨entry, h, by simp⟩, List.mem_flatMap.2 ⟨entry, h, by simp⟩⟩

/-- Entries that are held on to last. -/
theorem lasts_hold_entries {w : (F.likeness s).World} {entries : List (Value × Value)}
    (h : ∀ entry ∈ entries, F.Good s entry.1 ∧ F.Good s entry.2) :
    ∀ entry ∈ entries, F.Lasts (F.hold w (entryReferences entries)) entry.1 ∧
      F.Lasts (F.hold w (entryReferences entries)) entry.2 :=
  fun entry hentry => ⟨lasts_hold (h entry hentry).1 (mem_entryReferences hentry).1,
    lasts_hold (h entry hentry).2 (mem_entryReferences hentry).2⟩

/-- Holding on to entries. -/
theorem keepEntries {w : (F.likeness s).World} (he : F.Engines e e') {α : Type}
    {entries : List (Value × Value)} {x y : Run α}
    {post : F.Stage → α → Prop} (hentries : ∀ entry ∈ entries, F.Good s entry.1 ∧ F.Good s entry.2)
    (h : F.Later (F.hold w (entryReferences entries)) x y post) :
    F.Later w (e.keep (entryReferences entries) x) (e'.keep (entryReferences entries) y)
      fun s' a => post s' a ∧ ∀ entry ∈ entries, F.Good s' entry.1 ∧ F.Good s' entry.2 :=
  (he.keep (knows_entries hentries) h).mono fun _ _ ha => ⟨ha.1, fun _ hentry =>
    ⟨ha.2 _ (mem_entryReferences hentry).1, ha.2 _ (mem_entryReferences hentry).2⟩⟩

theorem later_entriesIn {w : (F.likeness s).World} (he : F.Engines e e') {other : Value}
    (hother : F.Lasts w other)
    {entries : List (Value × Value)}
    (h : ∀ entry ∈ entries, F.Good s entry.1 ∧ F.Good s entry.2) :
    F.Later w (entriesIn e other entries) (entriesIn e' other entries) fun _ _ => True := by
  induction entries generalizing s w with
  | nil => exact .pure trivial
  | cons entry rest ih =>
    obtain ⟨key, value⟩ := entry
    have hfound : F.Later (F.hold w (entryReferences ((key, value) :: rest))) (e.stored? other key)
        (e'.stored? other key) fun s' r => ∀ v ∈ r, F.Good s' v :=
      he.stored? hother.good (h (key, value) (by simp)).1
    refine (keepEntries he h hfound).bind fun s₁ w₁ r hw₁ hr => ?_
    obtain ⟨hentry, hrest⟩ := List.forall_mem_cons.1 hr.2
    cases r with
    | none => exact .pure trivial
    | some found =>
      have hsame : F.Later (F.hold w₁ (entryReferences rest)) (e.equals value found)
          (e'.equals value found) fun _ _ => True :=
        he.equals hentry.2 (hr.1 found rfl)
      refine (keepEntries he hrest hsame).bind fun s₂ w₂ b hw₂ hrest' => ?_
      split
      · exact ih ((hother.past hw₁).past hw₂) hrest'.2
      · exact .pure trivial

theorem later_equalHashes {w : (F.likeness s).World} (he : F.Engines e e') {this other : Value}
    (hthis : F.Lasts w this)
    (hother : F.Lasts w other) :
    F.Later w (equalHashes e this other) (equalHashes e' this other) fun _ _ => True := by
  refine (Agree.readHeap (f := fun h => h.table? other)).bindLater fun _ r hw₁ _ => ?_
  cases r with
  | none => exact .pure trivial
  | some right =>
    refine (agree_expectTable hthis.good).bindLater fun _ left hw₂ hleft => ?_
    split
    · exact later_entriesIn he ((hother.le hw₁).le hw₂) hleft.2
    · exact .pure trivial

theorem later_indexHash {w : (F.likeness s).World} (he : F.Engines e e') {this key : Value}
    (hthis : F.Lasts w this)
    (hkey : F.Lasts w key) :
    F.Later w (indexHash e this key) (indexHash e' this key) F.Good := by
  refine (he.stored? hthis.good hkey.good).bind fun _ _ r _ hr => ?_
  cases r with
  | some value => exact .pure (hr value rfl)
  | none => exact (agree_repr key).bindLater fun _ _ _ _ => .failOrdinary rfl

theorem later_entryText {w : (F.likeness s).World} (he : F.Engines e e') {entry : Value × Value}
    (hkey : F.Good s entry.1)
    (hvalue : F.Lasts w entry.2) :
    F.Later w (entryText e entry) (entryText e' entry) fun _ _ => True :=
  (later_elementText he hkey).bind fun _ _ _ hw _ =>
    (later_elementText he (hvalue.past hw).good).bind fun _ _ _ _ _ => .pure trivial

theorem later_hashValueText {w : (F.likeness s).World} (he : F.Engines e e') {this : Value}
    (hthis : F.Lasts w this) :
    F.Later w (hashValueText e this) (hashValueText e' this) F.Good := by
  refine (agree_expectTable hthis.good).bindLater fun w₁ table _ htable => ?_
  refine (keepEntries he htable.2 (.mapM table.entries fun entry hentry hw => ?_)).bind
    fun _ _ _ _ _ => (agree_newString _).later
  obtain ⟨hkey, hvalue⟩ := lasts_hold_entries (w := w₁) htable.2 entry hentry
  exact later_entryText he (hkey.past hw).good (hvalue.past hw)

theorem tableFollows_hash (he : F.Engines e e') : F.TableFollows e e' hash? := by
  intro s method hs
  unfold hash? at hs
  split at hs
  · cases hs; exact follows_unary (later_indexHash he)
  · cases hs
    exact follows_binary fun hthis hkey hvalue =>
      (he.store hthis.good hkey.good hvalue.good).bind fun _ _ _ _ _ => agree_newNone.later
  · cases hs; exact follows_question false fun hthis hkey => he.isStored hthis.good hkey.good
  · cases hs
    refine agrees_nullary fun hthis =>
      (agree_expectTable hthis).bind fun _ table _ htable => agree_newIterator fun v hv => ?_
    obtain ⟨entry, hentry, rfl⟩ := List.mem_map.1 hv
    exact (htable.2 entry hentry).1
  · cases hs; exact follows_nullary (later_hashValueText he)
  · cases hs
    exact agrees_nullary fun hthis => (agree_expectTable hthis).bind fun _ _ _ _ => agree_newBool _
  · cases hs
    exact agrees_nullary fun hthis =>
      (agree_expectTable hthis).bind fun _ _ _ htable => agree_newObject htable
  · exact tableFollows_equality (later_equalHashes he) s method hs

/-! ## Iterators and generators -/

theorem later_nextItem {w : (F.likeness s).World} (he : F.Engines e e') {this : Value}
    (hthis : F.Lasts w this) :
    F.Later w (nextItem e this) (nextItem e' this) F.Good := by
  refine (he.next hthis).bind fun _ _ r _ hr => ?_
  cases r with
  | some item => exact .pure (hr item rfl)
  | none => exact agree_newNone.later

theorem tableFollows_iterator (he : F.Engines e e') : F.TableFollows e e' iterator? := by
  intro s method hs
  unfold iterator? at hs
  split at hs <;> cases hs
  · exact follows_nullary fun hthis =>
      (he.hasNext hthis).bind fun _ _ _ _ _ => (agree_newBool _).later
  · exact follows_nullary (later_nextItem he)
  · exact agrees_self
  · exact follows_nullary fun hthis =>
      (he.drain hthis.good).bind fun _ _ _ _ hvs => (agree_newObject (k := .array _) hvs).later
  · exact follows_nullary fun hthis =>
      (he.drain hthis.good).bind fun _ _ _ _ hvs => (agree_newObject (k := .tuple _) hvs).later

/-! ## All of them -/

theorem tableFollows_special (he : F.Engines e e') (tag : TypeTag) :
    F.TableFollows e e' tag.special? := by
  cases tag with
  | none => exact tableFollows_none he
  | bool => exact tableFollows_bool
  | integer => exact tableFollows_integer
  | float => exact tableFollows_float he
  | string => exact tableFollows_string he
  | bytes => exact tableFollows_bytes he
  | tuple => exact tableFollows_tuple he
  | array => exact tableFollows_array he
  | hash => exact tableFollows_hash he
  | generator => exact tableFollows_iterator he
  | iterator => exact tableFollows_iterator he
  | type => exact tableFollows_type
  | function | module | error | object => exact fun _ _ hs => by cases hs

/-- The methods of every built-in type follow one another. -/
theorem tableFollows_method (he : F.Engines e e') (tag : TypeTag) :
    F.TableFollows e e' tag.method? := by
  intro s method hs
  rcases Option.or_eq_some_iff.1 hs with hs | ⟨-, hs⟩
  · exact tableFollows_special he tag s method hs
  · exact tableFollows_common he s method hs

end Likeness
end ScriptVM
