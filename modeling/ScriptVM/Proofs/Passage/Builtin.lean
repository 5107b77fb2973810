import ScriptVM.Proofs.Likeness.Builtin
import ScriptVM.Proofs.Passage.Protocol

/-!
# Built-in methods along a passage

Every built-in method works through the calls of its engine and carries over with them. The one
exception is the hash of an object as itself, which comes from the number of the object: it carries
over when the object keeps its number.
-/
namespace ScriptVM

/-- A method under two engines carries over on every receiver. -/
def Method.Carries (P : Passage) (e e' : Engine) (method : Method) : Prop :=
  ∀ this args, P.Carries (method e this args) (method e' (P.value this) (args.map P.value)) P.value

/-- How the hash of a value is computed that it remembers. -/
inductive TypeTag.Remembers : TypeTag → (Engine → Value → Run Int64) → Prop
  | float : Remembers .float Builtin.floatHash
  | string : Remembers .string fun e this => return e.digests.text (← Engine.expectText this)
  | bytes : Remembers .bytes fun e this => return e.digests.bytes (← Builtin.expectBytes this)
  | tuple : Remembers .tuple Builtin.tupleHash
  | identity {tag : TypeTag} (h : tag.hashesNumber = true) : Remembers tag Builtin.identityHash

namespace Passage

variable {P : Passage} {e e' : Engine} {known : Machine → Prop}

open Builtin

/-! ## Forms of methods -/

theorem carries_nullary {body : Engine → Value → Run Value} {this : Value}
    (h : P.CarriesWhen known (body e this) (body e' (P.value this)) P.value) (args : List Value) :
    P.CarriesWhen known (Method.nullary body e this args)
      (Method.nullary body e' (P.value this) (args.map P.value)) P.value := by
  cases args with
  | nil => exact h
  | cons a rest =>
    unfold Method.nullary
    simp only [List.map_cons, List.length_cons, List.length_map]
    exact (Carries.fail _).when

theorem carries_unary {body : Engine → Value → Value → Run Value}
    (h : ∀ this x, P.Carries (body e this x) (body e' (P.value this) (P.value x)) P.value) :
    (Method.unary body).Carries P e e' := by
  intro this args
  match args with
  | [x] => exact h this x
  | [] => exact .fail _
  | _ :: _ :: rest =>
    unfold Method.unary
    simp only [List.map_cons, List.length_cons, List.length_map]
    exact .fail _

theorem carries_binary {body : Engine → Value → Value → Value → Run Value}
    (h : ∀ this x y,
      P.Carries (body e this x y) (body e' (P.value this) (P.value x) (P.value y)) P.value) :
    (Method.binary body).Carries P e e' := by
  intro this args
  match args with
  | [x, y] => exact h this x y
  | [] => exact .fail _
  | [_] => exact .fail _
  | _ :: _ :: _ :: rest =>
    unfold Method.binary
    simp only [List.map_cons, List.length_cons, List.length_map]
    exact .fail _

theorem carries_self : Method.self.Carries P e e' := fun _ => carries_nullary (Carries.pure rfl)

theorem carries_question (negated : Bool) {body : Engine → Value → Value → Run Bool}
    (h : ∀ this x, P.Carries (body e this x) (body e' (P.value this) (P.value x)) id) :
    (Method.question negated body).Carries P e e' :=
  carries_unary fun this x => (h this x).bind fun b => carries_newBool (negated != b)

/-- A hash carries over when computing it and remembering it does. -/
theorem carries_rememberedHash {compute : Engine → Value → Run Int64} {this : Value}
    {q : Int64 → Machine → Prop}
    (h : P.CarriesWhen known (compute e this) (compute e' (P.value this)) id)
    (hq : ∀ m n hash m', P.rel m n → known m → compute e this m = .ok hash m' → q hash m')
    (hset : ∀ hash, P.CarriesWhen (q hash) (Run.modifyHeap fun h => h.setHash this hash)
      (Run.modifyHeap fun h => h.setHash (P.value this) hash) id) (args : List Value) :
    P.CarriesWhen known (Method.rememberedHash compute e this args)
      (Method.rememberedHash compute e' (P.value this) (args.map P.value)) P.value := by
  refine carries_nullary ?_ args
  refine .read_bind id (fun _ _ hmn => P.hash_eq hmn this) fun r => ?_
  cases r with
  | some hash => exact (carries_newInteger hash).when
  | none =>
    refine CarriesWhen.bind_when (q := q) ⟨h.grows, fun m n hmn hm => h.holds m n hmn hm.1⟩
      (fun m n hash m' hmn hm => hq m n hash m' hmn hm.1) fun hash => ?_
    exact (hset hash).bind fun _ => carries_newInteger hash

/-- The methods of a table carry over, but for hashes. -/
def TableCarries (P : Passage) (e e' : Engine) (table : Symbol → Option Method) : Prop :=
  ∀ s method, s ≠ .hash → table s = some method → method.Carries P e e'

theorem tableCarries_equality {equal : Engine → Value → Value → Run Bool}
    (h : ∀ this x, P.Carries (equal e this x) (equal e' (P.value this) (P.value x)) id) :
    P.TableCarries e e' (equality? equal) := by
  intro s method hhash hs
  unfold equality? at hs
  split at hs
  · cases hs; exact carries_question false h
  · cases hs; exact carries_question false h
  · cases hs; exact carries_question true h
  · cases hs; exact carries_question true h
  · cases hs

/-! ## Common behaviour, None, Bool and types -/

theorem carries_connective (E : P.Engines e e') (join : Bool → Bool → Bool) :
    (connective join).Carries P e e' :=
  carries_unary fun this other => (E.truthy this).bind fun _ => (E.truthy other).bind fun _ =>
    carries_newBool _

theorem carries_classOf (this : Value) :
    P.Carries (classOf e this) (classOf e' (P.value this)) P.value := by
  refine (carries_kindOf this).bind fun k => ?_
  cases k with
  | object cls => exact .pure rfl
  | _ => exact carries_builtinType _

theorem carries_isSame (this other : Value) :
    P.Carries (isSame e this other) (isSame e' (P.value this) (P.value other)) id :=
  .pure (by simp)

/-- An object that keeps its number keeps its hash. -/
theorem carries_identityHash (C : P.Calling e e') {this : Value}
    (hknown : ∀ m, known m → P.value this = this) :
    P.CarriesWhen known (identityHash e this) (identityHash e' (P.value this)) id := by
  refine ⟨fun _ => Nat.le_refl _, fun m n hmn hm => ?_⟩
  have hthis := hknown m hm
  have hsame : P.Carries (identityHash e this) (identityHash e' (P.value this)) id :=
    (carries_typeName this).bind fun _ => .pure (by rw [hthis, C.digests_eq]; rfl)
  exact hsame.holds m n hmn trivial

theorem carries_common (E : P.Engines e e') {s : Symbol} (hhash : s ≠ .hash) {method : Method}
    (hs : common? s = some method) : method.Carries P e e' := by
  unfold common? at hs
  split at hs <;> cases hs
  · exact fun _ => carries_nullary carries_newNone
  · exact carries_question false carries_isSame
  · exact carries_question false carries_isSame
  · exact carries_question true E.equals
  · exact carries_question true carries_isSame
  · exact absurd rfl hhash
  · exact fun _ => carries_nullary (carries_newBool true)
  · exact fun this => carries_nullary ((carries_display this).bind fun _ => carries_newString _)
  · exact fun this => carries_nullary ((E.truthy this).bind fun _ => carries_newBool _)
  · exact carries_connective E and
  · exact carries_connective E and
  · exact carries_connective E or
  · exact carries_connective E or
  · exact carries_connective E xor
  · exact carries_connective E xor
  · exact fun this => carries_nullary (carries_classOf this)
  · exact carries_self

theorem tableCarries_none : P.TableCarries e e' none? := by
  intro s method hhash hs
  unfold none? at hs
  split at hs
  · exact absurd rfl hhash
  · cases hs; exact fun _ => carries_nullary (carries_newBool false)
  · cases hs; exact fun _ => carries_nullary (carries_newString _)
  · exact tableCarries_equality (fun _ x => .read fun _ _ hmn => isNone_eq hmn x) s method hhash hs

theorem carries_flagNumber (this : Value) :
    P.Carries (flagNumber this) (flagNumber (P.value this)) id :=
  .read_bind id (fun _ _ hmn => bool?_eq hmn this) fun _ => .pure rfl

theorem carries_equalFlags (this other : Value) :
    P.Carries (equalFlags e this other) (equalFlags e' (P.value this) (P.value other)) id :=
  .read fun _ _ hmn => by rw [bool?_eq hmn, bool?_eq hmn]; rfl

theorem tableCarries_bool : P.TableCarries e e' bool? := by
  intro s method hhash hs
  unfold bool? at hs
  split at hs
  · exact absurd rfl hhash
  · cases hs
    exact fun this =>
      carries_nullary ((carries_flagNumber this).bind fun _ => carries_newInteger _)
  · cases hs
    exact fun this =>
      carries_nullary ((carries_flagNumber this).bind fun _ => carries_newFloat _)
  · cases hs; exact carries_self
  · exact tableCarries_equality carries_equalFlags s method hhash hs

theorem carries_basesOf (this : Value) :
    P.Carries (basesOf e this) (basesOf e' (P.value this)) P.value := by
  refine (carries_kindOf this).bind fun k => ?_
  cases k with
  | type d =>
    cases d with
    | builtin tag => exact carries_newObject (.tuple []) rfl
    | ofClass c => exact carries_newObject (.tuple c.bases) rfl
  | _ => exact carries_failType this _

theorem tableCarries_type : P.TableCarries e e' type? := by
  intro s method hhash hs
  unfold type? at hs
  split at hs <;> cases hs
  exact fun this => carries_nullary (carries_basesOf this)

/-! ## Numbers -/

theorem Number.ofKind?_rename (σ : Value → Value) (k : Kind) :
    Number.ofKind? (k.rename σ) = Number.ofKind? k := by
  cases k <;> rfl

theorem carries_expectNumber (v : Value) :
    P.Carries (expectNumber v) (expectNumber (P.value v)) id := by
  refine (carries_kindOf v).bind fun k => ?_
  simp only [Number.ofKind?_rename]
  cases Number.ofKind? k with
  | some n => exact .pure rfl
  | none => exact carries_failType v _

theorem carries_expectFloat (v : Value) :
    P.Carries (expectFloat v) (expectFloat (P.value v)) id := by
  refine (carries_kindOf v).bind fun k => ?_
  cases k with
  | float x => exact .pure rfl
  | _ => exact carries_failType v _

theorem carries_newNumber (n : Number) :
    P.Carries (Run.newObject n.toKind) (Run.newObject n.toKind) P.value := by
  cases n with
  | integer i => exact carries_newInteger i
  | float x => exact carries_newFloat x

theorem carries_arithmetic (op : Arithmetic) (reflected : Bool) :
    (arithmetic op reflected).Carries P e e' := by
  refine carries_unary fun this other => ?_
  refine (carries_expectNumber this).bind fun a => ?_
  refine (carries_expectNumber other).bind fun b => ?_
  simp only [id_eq]
  cases hc : op.compute (inOrder reflected a b).1 (inOrder reflected a b).2 with
  | ok n => exact carries_newNumber n
  | error c =>
    cases Likeness.Arithmetic.cause_of_compute hc
    exact .fail _

theorem carries_comparison (c : Comparison) (reflected : Bool) :
    (comparison c reflected).Carries P e e' := by
  refine carries_unary fun this other => ?_
  refine (carries_expectNumber this).bind fun _ => ?_
  exact (carries_expectNumber other).bind fun _ => carries_newBool _

theorem carries_bitwise (op : Bitwise) (reflected : Bool) :
    (bitwise op reflected).Carries P e e' := by
  refine carries_unary fun this other => ?_
  refine (carries_expectInteger this).bind fun _ => ?_
  exact (carries_expectInteger other).bind fun _ => carries_newInteger _

theorem carries_equalNumbers (this other : Value) :
    P.Carries (equalNumbers e this other) (equalNumbers e' (P.value this) (P.value other)) id :=
  .read fun _ _ hmn => by
    rw [P.kind_eq hmn, P.kind_eq hmn, Number.ofKind?_rename, Number.ofKind?_rename]
    rfl

theorem tableCarries_number : P.TableCarries e e' number? := by
  intro s method hhash hs
  unfold number? at hs
  split at hs
  · cases hs; exact carries_arithmetic _ _
  · cases hs; exact carries_comparison _ _
  · exact tableCarries_equality carries_equalNumbers s method hhash hs

theorem carries_onInteger {body : Int64 → Run Value}
    (h : ∀ n, P.Carries (body n) (body n) P.value) : (onInteger body).Carries P e e' :=
  fun this => carries_nullary ((carries_expectInteger this).bind fun n => h n)

theorem carries_onFloat {body : Float → Run Value}
    (h : ∀ x, P.Carries (body x) (body x) P.value) : (onFloat body).Carries P e e' :=
  fun this => carries_nullary ((carries_expectFloat this).bind fun x => h x)

theorem tableCarries_integer : P.TableCarries e e' integer? := by
  intro s method hhash hs
  unfold integer? at hs
  split at hs
  · cases hs; exact carries_onInteger fun _ => carries_newInteger _
  · cases hs; exact carries_onInteger fun _ => carries_newInteger _
  · exact absurd rfl hhash
  · cases hs; exact carries_self
  · cases hs; exact carries_onInteger fun _ => carries_newFloat _
  · cases hs; exact carries_onInteger fun _ => carries_newBool _
  · split at hs
    · cases hs; exact carries_bitwise _ _
    · exact tableCarries_number s method hhash hs

theorem tableCarries_float : P.TableCarries e e' float? := by
  intro s method hhash hs
  unfold float? at hs
  split at hs
  · cases hs; exact carries_onFloat fun _ => carries_newFloat _
  · exact absurd rfl hhash
  · cases hs; exact carries_onFloat fun _ => carries_newInteger _
  · cases hs; exact carries_self
  · cases hs; exact carries_onFloat fun _ => carries_newBool _
  · exact tableCarries_number s method hhash hs

/-! ## Positions and repetition -/

theorem carries_expectPosition (length : Nat) (index : Int64) (isBound : Bool) :
    P.Carries (expectPosition length index isBound) (expectPosition length index isBound) id := by
  unfold expectPosition
  split
  · exact .pure rfl
  · exact .fail _

theorem carries_bounds (length : Nat) (low high : Value) :
    P.Carries
      (do
        let first ← expectPosition length (← Engine.expectInteger low) true
        let last ← expectPosition length (← Engine.expectInteger high) true
        return Selection.stretch first (max first last))
      (do
        let first ← expectPosition length (← Engine.expectInteger (P.value low)) true
        let last ← expectPosition length (← Engine.expectInteger (P.value high)) true
        return Selection.stretch first (max first last)) id := by
  refine (carries_expectInteger low).bind fun _ => ?_
  refine (carries_expectPosition length _ true).bind fun _ => ?_
  refine (carries_expectInteger high).bind fun _ => ?_
  exact (carries_expectPosition length _ true).bind fun _ => .pure rfl

theorem carries_select (length : Nat) (index : Value) :
    P.Carries (select length index) (select length (P.value index)) id := by
  refine (carries_kindOf index).bind fun k => ?_
  cases k with
  | integer n => exact (carries_expectPosition length n false).bind fun _ => .pure rfl
  | tuple items | array items =>
    match items with
    | [low, high] => exact carries_bounds length low high
    | [] => exact carries_failType index _
    | [_] => exact carries_failType index _
    | _ :: _ :: _ :: _ => exact carries_failType index _
  | _ => exact carries_failType index _

theorem pick_map {α β : Type} (f : α → β) (items : List α) (s : Selection) :
    s.pick (items.map f) = (s.pick items).map f := by
  cases s with
  | single position => simp [Selection.pick, List.map_take, List.map_drop]
  | stretch first last => simp [Selection.pick, List.map_take, List.map_drop]

theorem repeat?_map {α β : Type} (f : α → β) (itemBytes : Nat) (items : List α) (times : Int64) :
    repeat? itemBytes (items.map f) times = (repeat? itemBytes items times).map (List.map f) := by
  simp only [repeat?, List.isEmpty_map, List.length_map]
  split
  · rfl
  · split
    · rfl
    · simp only [← List.map_replicate, ← List.map_flatten, ← List.map_reverse, Option.map_some]
      split <;> rfl

theorem carries_repetition {α β : Type} (f : α → β) (itemBytes : Nat) (items : List α)
    (times : Int64) :
    P.Carries (repetition itemBytes items times) (repetition itemBytes (items.map f) times)
      (List.map f) := by
  unfold repetition
  rw [repeat?_map]
  cases repeat? itemBytes items times with
  | some repeated => exact .pure rfl
  | none =>
    simp only [Option.map_none, List.length_map]
    exact .fail _

/-- The same items on both sides. -/
theorem carries_repetition_same {α : Type} (itemBytes : Nat) (items : List α) (times : Int64) :
    P.Carries (repetition itemBytes items times) (repetition itemBytes items times) id := by
  have h := carries_repetition (P := P) id itemBytes items times
  rwa [List.map_id, List.map_id_fun] at h

/-! ## Strings and bytes -/

theorem carries_characters (this : Value) :
    P.Carries (characters this) (characters (P.value this)) (List.map P.value) :=
  (carries_expectText this).bind fun text =>
    .mapM_same text.toList fun _ => carries_newString _

theorem carries_repeatText (this times : Value) :
    P.Carries (repeatText e this times) (repeatText e' (P.value this) (P.value times)) P.value := by
  refine (carries_expectText this).bind fun text => ?_
  refine (carries_expectInteger times).bind fun i => ?_
  exact (carries_repetition_same 4 _ _).bind fun _ => carries_newString _

theorem carries_twoTexts {α β : Type} {this other : Value} {f : String → String → Run α}
    {g : String → String → Run β} {r : α → β} (hf : ∀ a b, P.Carries (f a b) (g a b) r) :
    P.Carries
      (do f (← Engine.expectText this) (← Engine.expectText other))
      (do g (← Engine.expectText (P.value this)) (← Engine.expectText (P.value other))) r :=
  (carries_expectText this).bind fun _ => (carries_expectText other).bind fun _ => hf _ _

theorem carries_equalTexts (this other : Value) :
    P.Carries (equalTexts e this other) (equalTexts e' (P.value this) (P.value other)) id :=
  .read fun _ _ hmn => by rw [text?_eq hmn, text?_eq hmn]; rfl

theorem carries_indexText (this index : Value) :
    P.Carries (indexText e this index) (indexText e' (P.value this) (P.value index)) P.value := by
  refine (carries_expectText this).bind fun _ => ?_
  exact (carries_select _ index).bind fun _ => carries_newString _

theorem carries_textToInteger (this : Value) :
    P.Carries (textToInteger e this) (textToInteger e' (P.value this)) P.value := by
  refine (carries_expectText this).bind fun text => ?_
  simp only [id_eq]
  split
  · exact carries_newInteger _
  · exact .fail _

theorem carries_textToFloat (this : Value) :
    P.Carries (textToFloat e this) (textToFloat e' (P.value this)) P.value := by
  refine (carries_expectText this).bind fun text => ?_
  simp only [id_eq]
  split
  · exact carries_newFloat _
  · exact .fail _

theorem tableCarries_string : P.TableCarries e e' string? := by
  intro s method hhash hs
  unfold string? at hs
  split at hs
  · cases hs
    exact carries_unary fun _ _ => carries_twoTexts fun a b => carries_newString (a ++ b)
  · cases hs; exact carries_unary carries_repeatText
  · cases hs; exact carries_unary carries_repeatText
  · cases hs; exact carries_question false fun _ _ => carries_twoTexts fun _ _ => .pure rfl
  · cases hs; exact carries_question false fun _ _ => carries_twoTexts fun _ _ => .pure rfl
  · exact absurd rfl hhash
  · cases hs; exact carries_unary carries_indexText
  · cases hs
    exact fun this =>
      carries_nullary ((carries_characters this).bind fun vs => carries_newIterator vs)
  · cases hs
    exact fun this => carries_nullary ((carries_expectText this).bind fun _ => carries_newString _)
  · cases hs; exact carries_self
  · cases hs
    exact fun this => carries_nullary ((carries_expectText this).bind fun _ => carries_newBool _)
  · cases hs; exact fun this => carries_nullary (carries_textToInteger this)
  · cases hs; exact fun this => carries_nullary (carries_textToFloat this)
  · cases hs
    exact fun this =>
      carries_nullary ((carries_characters this).bind fun vs => carries_newObject (.array vs) rfl)
  · cases hs
    exact fun this =>
      carries_nullary ((carries_characters this).bind fun vs => carries_newObject (.tuple vs) rfl)
  · exact tableCarries_equality carries_equalTexts s method hhash hs

theorem carries_expectBytes (v : Value) :
    P.Carries (expectBytes v) (expectBytes (P.value v)) id := by
  refine (carries_kindOf v).bind fun k => ?_
  cases k with
  | bytes content => exact .pure rfl
  | _ => exact carries_failType v _

theorem carries_newBytes (content : List UInt8) :
    P.Carries (Run.newObject (.bytes content)) (Run.newObject (.bytes content)) P.value :=
  carries_newObject (.bytes content) rfl

theorem carries_byteIntegers (this : Value) :
    P.Carries (byteIntegers this) (byteIntegers (P.value this)) (List.map P.value) :=
  (carries_expectBytes this).bind fun content =>
    .mapM_same content fun _ => carries_newInteger _

theorem carries_joinBytes (this other : Value) :
    P.Carries (joinBytes e this other) (joinBytes e' (P.value this) (P.value other)) P.value := by
  refine (carries_expectBytes this).bind fun _ => ?_
  exact (carries_expectBytes other).bind fun _ => carries_newBytes _

theorem carries_repeatBytes (this times : Value) :
    P.Carries (repeatBytes e this times) (repeatBytes e' (P.value this) (P.value times)) P.value := by
  refine (carries_expectInteger times).bind fun _ => ?_
  refine (carries_expectBytes this).bind fun _ => ?_
  exact (carries_repetition_same 1 _ _).bind fun _ => carries_newBytes _

theorem carries_equalBytes (this other : Value) :
    P.Carries (equalBytes e this other) (equalBytes e' (P.value this) (P.value other)) id :=
  .read fun _ _ hmn => by rw [bytes?_eq hmn, bytes?_eq hmn]; rfl

theorem carries_indexBytes (this index : Value) :
    P.Carries (indexBytes e this index) (indexBytes e' (P.value this) (P.value index)) P.value := by
  refine (carries_expectBytes this).bind fun content => ?_
  refine (carries_select _ index).bind fun selection => ?_
  simp only [id_eq]
  split
  · exact carries_newInteger _
  · exact carries_newBytes _

theorem tableCarries_bytes : P.TableCarries e e' bytes? := by
  intro s method hhash hs
  unfold bytes? at hs
  split at hs
  · cases hs; exact carries_unary carries_joinBytes
  · cases hs; exact carries_unary carries_repeatBytes
  · exact absurd rfl hhash
  · cases hs; exact carries_unary carries_indexBytes
  · cases hs
    exact fun this =>
      carries_nullary ((carries_byteIntegers this).bind fun vs => carries_newIterator vs)
  · cases hs
    exact fun this => carries_nullary ((carries_expectBytes this).bind fun _ => carries_newString _)
  · cases hs
    exact fun this => carries_nullary ((carries_expectBytes this).bind fun _ => carries_newBool _)
  · cases hs
    exact fun this =>
      carries_nullary ((carries_byteIntegers this).bind fun vs =>
        carries_newObject (.array vs) rfl)
  · cases hs
    exact fun this =>
      carries_nullary ((carries_byteIntegers this).bind fun vs =>
        carries_newObject (.tuple vs) rfl)
  · exact tableCarries_equality carries_equalBytes s method hhash hs

/-! ## Tuples and arrays -/

theorem carries_elementText (E : P.Engines e e') (v : Value) :
    P.Carries (elementText e v) (elementText e' (P.value v)) id := by
  refine (carries_kindOf v).bind fun k => ?_
  cases k with
  | string s => exact carries_repr v
  | _ => exact E.stringify v

theorem carries_expectItems (v : Value) :
    P.Carries (expectItems v) (expectItems (P.value v)) (List.map P.value) := by
  refine (carries_kindOf v).bind fun k => ?_
  cases k with
  | tuple items => exact .pure rfl
  | array items => exact .pure rfl
  | _ => exact carries_failType v _

theorem carries_newLike (like : Value) (items : List Value) :
    P.Carries (newLike like items) (newLike (P.value like) (items.map P.value)) P.value := by
  refine (carries_kindOf like).bind fun k => ?_
  cases k with
  | array old => exact carries_newObject (.array items) rfl
  | _ => exact carries_newObject (.tuple items) rfl

theorem carries_allEqual (E : P.Engines e e') (left right : List Value) :
    P.Carries (allEqual e left right)
      (allEqual e' (left.map P.value) (right.map P.value)) id := by
  induction left generalizing right with
  | nil => exact .pure rfl
  | cons a as ih =>
    cases right with
    | nil => exact .pure rfl
    | cons b bs =>
      refine (E.equals a b).bind fun r => ?_
      cases r with
      | true => exact ih bs
      | false => exact .pure rfl

theorem carries_haveSameTag (a b : Value) :
    P.Carries (haveSameTag a b) (haveSameTag (P.value a) (P.value b)) id :=
  .read fun _ _ hmn => by rw [tag_eq hmn, tag_eq hmn]; rfl

theorem carries_equalSequences (E : P.Engines e e') (this other : Value) :
    P.Carries (equalSequences e this other)
      (equalSequences e' (P.value this) (P.value other)) id := by
  refine (carries_haveSameTag this other).bind fun b => ?_
  cases b with
  | false => exact .pure rfl
  | true =>
    refine (carries_expectItems this).bind fun left => ?_
    refine (carries_expectItems other).bind fun right => ?_
    simp only [List.length_map]
    split
    · exact E.keep (carries_allEqual E left right)
    · exact .pure rfl

theorem carries_containsElement (E : P.Engines e e') (needle : Value) (items : List Value) :
    P.Carries (containsElement e needle items)
      (containsElement e' (P.value needle) (items.map P.value)) id := by
  induction items with
  | nil => exact .pure rfl
  | cons element rest ih =>
    refine (E.keep (E.equals element needle)).bind fun b => ?_
    cases b with
    | true => exact .pure rfl
    | false => exact ih

theorem carries_joinSequences (this other : Value) :
    P.Carries (joinSequences e this other)
      (joinSequences e' (P.value this) (P.value other)) P.value := by
  refine (carries_haveSameTag this other).bind fun b => ?_
  cases b with
  | true =>
    refine (carries_expectItems this).bind fun left => ?_
    refine (carries_expectItems other).bind fun right => ?_
    rw [← List.map_append]
    exact carries_newLike this (left ++ right)
  | false =>
    refine (carries_kindOf this).bind fun k => ?_
    rw [Kind.tag_rename]
    exact carries_failType other _

theorem carries_repeatSequence (this times : Value) :
    P.Carries (repeatSequence e this times)
      (repeatSequence e' (P.value this) (P.value times)) P.value := by
  refine (carries_expectInteger times).bind fun i => ?_
  refine (carries_expectItems this).bind fun items => ?_
  exact (carries_repetition P.value 8 items i).bind fun repeated => carries_newLike this repeated

theorem carries_indexSequence (this index : Value) :
    P.Carries (indexSequence e this index)
      (indexSequence e' (P.value this) (P.value index)) P.value := by
  refine (carries_expectItems this).bind fun items => ?_
  rw [List.length_map]
  refine (carries_select items.length index).bind fun selection => ?_
  simp only [id_eq, pick_map]
  cases selection with
  | stretch first last => exact carries_newLike this _
  | single position =>
    match (Selection.single position).pick items with
    | [item] => exact .pure rfl
    | [] => exact carries_newLike this []
    | a :: b :: rest => exact carries_newLike this (a :: b :: rest)

theorem carries_sequenceText (E : P.Engines e e') (this : Value) :
    P.Carries (sequenceText e this) (sequenceText e' (P.value this)) P.value := by
  refine (carries_expectItems this).bind fun items => ?_
  refine (E.keep (Carries.mapM items (carries_elementText E))).bind fun parts => ?_
  rw [List.map_id_fun, id_eq]
  refine (carries_kindOf this).bind fun k => ?_
  cases k with
  | array old => exact carries_newString _
  | _ => exact carries_newString _

theorem tableCarries_sequence (E : P.Engines e e') : P.TableCarries e e' sequence? := by
  intro s method hhash hs
  unfold sequence? at hs
  split at hs
  · cases hs; exact carries_unary carries_joinSequences
  · cases hs; exact carries_unary carries_repeatSequence
  · cases hs
    exact carries_question false fun this needle =>
      (carries_expectItems this).bind fun items => carries_containsElement E needle items
  · cases hs; exact carries_unary carries_indexSequence
  · cases hs
    exact fun this =>
      carries_nullary ((carries_expectItems this).bind fun items => carries_newIterator items)
  · cases hs
    exact fun this =>
      carries_nullary ((carries_expectItems this).bind fun items => carries_newLike this items)
  · cases hs
    exact fun this =>
      carries_nullary ((carries_expectItems this).bind fun items =>
        carries_newObject (.array items) rfl)
  · cases hs
    exact fun this =>
      carries_nullary ((carries_expectItems this).bind fun items =>
        carries_newObject (.tuple items) rfl)
  · cases hs; exact fun this => carries_nullary (carries_sequenceText E this)
  · cases hs
    exact fun this => carries_nullary ((carries_expectItems this).bind fun items => by
      rw [List.isEmpty_map]
      exact carries_newBool _)
  · exact tableCarries_equality (carries_equalSequences E) s method hhash hs

theorem carries_tupleHash (C : P.Calling e e') (this : Value) :
    P.Carries (tupleHash e this) (tupleHash e' (P.value this)) id :=
  (carries_expectItems this).bind fun items => by
    rw [C.digests_eq]
    refine C.keep ?_
    exact Carries.foldlM items _ fun _ v => (C.hashOf v).bind fun _ => .pure rfl

theorem tableCarries_tuple (E : P.Engines e e') : P.TableCarries e e' tuple? := by
  intro s method hhash hs
  unfold tuple? at hs
  split at hs
  · exact absurd rfl hhash
  · exact tableCarries_sequence E s method hhash hs

theorem carries_assignElement (this index element : Value) :
    P.Carries (assignElement e this index element)
      (assignElement e' (P.value this) (P.value index) (P.value element)) P.value := by
  refine carries_kindOf_bind fun k => ?_
  cases k with
  | array items =>
    simp only [Kind.rename, List.length_map]
    refine CarriesWhen.bind_reading (Likeness.isReading_select items.length index)
      (carries_select items.length index) fun selection => ?_
    cases selection with
    | single position =>
      have hset := carries_setKind (P := P) this (.array (items.set position element))
        fun m (hm : True ∧ m.heap.kind this = .array items) =>
          ⟨fun s hs => Kind.noConfusion (hm.2.symm.trans hs),
            P.allows_mild (Object.mild_setKind (congrArg Kind.tag hm.2) rfl rfl (by rintro ⟨⟩))⟩
      simp only [Kind.rename, List.map_set] at hset
      exact hset.bind fun _ => carries_newNone
    | stretch first last => exact (carries_failType index _).when
  | _ => exact (carries_failType this _).when

theorem tableCarries_array (E : P.Engines e e') : P.TableCarries e e' array? := by
  intro s method hhash hs
  unfold array? at hs
  split at hs
  · cases hs; exact carries_binary carries_assignElement
  · exact tableCarries_sequence E s method hhash hs

/-! ## Hashes -/

theorem carries_entriesIn (E : P.Engines e e') (other : Value) (entries : List (Value × Value)) :
    P.Carries (entriesIn e other entries) (entriesIn e' (P.value other)
      (entries.map fun entry => (P.value entry.1, P.value entry.2))) id := by
  induction entries with
  | nil => exact .pure rfl
  | cons entry rest ih =>
    obtain ⟨key, v⟩ := entry
    refine (E.keep (E.stored? other key)).bind fun r => ?_
    cases r with
    | none => exact .pure rfl
    | some found =>
      refine (E.keep (E.equals v found)).bind fun b => ?_
      cases b with
      | true => exact ih
      | false => exact .pure rfl

theorem carries_equalHashes (E : P.Engines e e') (this other : Value) :
    P.Carries (equalHashes e this other) (equalHashes e' (P.value this) (P.value other)) id := by
  refine .read_bind (Option.map (Table.rename P.value)) (fun _ _ hmn => table?_eq hmn other) fun r => ?_
  cases r with
  | none => exact .pure rfl
  | some right =>
    refine (carries_expectTable this).bind fun left => ?_
    simp only [Table.entries_rename, List.length_map, Table.size_rename]
    split
    · exact carries_entriesIn E other left.entries
    · exact .pure rfl

theorem carries_indexHash (E : P.Engines e e') (this key : Value) :
    P.Carries (indexHash e this key) (indexHash e' (P.value this) (P.value key)) P.value := by
  refine (E.stored? this key).bind fun r => ?_
  cases r with
  | some v => exact .pure rfl
  | none => exact (carries_repr key).bind fun _ => .fail _

theorem carries_entryText (E : P.Engines e e') (entry : Value × Value) :
    P.Carries (entryText e entry) (entryText e' (P.value entry.1, P.value entry.2)) id :=
  (carries_elementText E entry.1).bind fun _ =>
    (carries_elementText E entry.2).bind fun _ => .pure rfl

theorem carries_hashValueText (E : P.Engines e e') (this : Value) :
    P.Carries (hashValueText e this) (hashValueText e' (P.value this)) P.value := by
  refine (carries_expectTable this).bind fun table => ?_
  rw [Table.entries_rename]
  refine (E.keep (Carries.mapM table.entries (carries_entryText E))).bind fun parts => ?_
  rw [List.map_id_fun, id_eq]
  exact carries_newString _

/-- A copy has the entries of a Hash that there is. -/
theorem carries_copyHash (this : Value) :
    P.Carries (do Run.newObject (.hash (← Engine.expectTable this)))
      (do Run.newObject (.hash (← Engine.expectTable (P.value this)))) P.value := by
  unfold Engine.expectTable
  simp only [bind_assoc]
  refine carries_kindOf_bind fun k => ?_
  cases k with
  | hash table =>
    refine carries_newObject_when (.hash table) fun m hm => ⟨fun t ht => ?_, fun c hc => ?_⟩
    · cases ht
      exact .inr ⟨this, Heap.table?_of_kind hm.2⟩
    · cases hc
  | _ => exact (carries_failType (r := P.value) this ["Hash"]).when

theorem tableCarries_hash (E : P.Engines e e') : P.TableCarries e e' hash? := by
  intro s method hhash hs
  unfold hash? at hs
  split at hs
  · cases hs; exact carries_unary (carries_indexHash E)
  · cases hs
    exact carries_binary fun this key v => (E.store this key v).bind fun _ => carries_newNone
  · cases hs; exact carries_question false E.isStored
  · cases hs
    exact fun this => carries_nullary ((carries_expectTable this).bind fun table => by
      rw [Table.keys_rename]
      exact carries_newIterator table.keys)
  · cases hs; exact fun this => carries_nullary (carries_hashValueText E this)
  · cases hs
    exact fun this => carries_nullary ((carries_expectTable this).bind fun _ => carries_newBool _)
  · cases hs
    exact fun this => carries_nullary (carries_copyHash this)
  · exact tableCarries_equality (carries_equalHashes E) s method hhash hs

/-! ## Iterators and generators -/

theorem carries_nextItem (E : P.Engines e e') (this : Value) :
    P.Carries (nextItem e this) (nextItem e' (P.value this)) P.value := by
  refine (E.next this).bind fun r => ?_
  cases r with
  | some item => exact .pure rfl
  | none => exact carries_newNone

theorem tableCarries_iterator (E : P.Engines e e') : P.TableCarries e e' iterator? := by
  intro s method hhash hs
  unfold iterator? at hs
  split at hs <;> cases hs
  · exact fun this => carries_nullary ((E.hasNext this).bind fun _ => carries_newBool _)
  · exact fun this => carries_nullary (carries_nextItem E this)
  · exact carries_self
  · exact fun this =>
      carries_nullary ((E.drain this).bind fun items => carries_newObject (.array items) rfl)
  · exact fun this =>
      carries_nullary ((E.drain this).bind fun items => carries_newObject (.tuple items) rfl)

/-! ## All of them -/

theorem tableCarries_special (E : P.Engines e e') (tag : TypeTag) :
    P.TableCarries e e' tag.special? := by
  cases tag with
  | none => exact tableCarries_none
  | bool => exact tableCarries_bool
  | integer => exact tableCarries_integer
  | float => exact tableCarries_float
  | string => exact tableCarries_string
  | bytes => exact tableCarries_bytes
  | tuple => exact tableCarries_tuple E
  | array => exact tableCarries_array E
  | hash => exact tableCarries_hash E
  | generator => exact tableCarries_iterator E
  | iterator => exact tableCarries_iterator E
  | type => exact tableCarries_type
  | function | module | error | object => exact fun _ _ _ hs => by cases hs

/-- The methods of every built-in type carry over. -/
theorem carries_method (E : P.Engines e e') {known : Machine → Prop} {tag : TypeTag} {s : Symbol}
    {this : Value} (hknown : ∀ m, known m → s = .hash → m.heap.tag this = tag ∧
      (tag.hashesNumber = true → P.value this = this))
    {method : Method} (hs : tag.method? s = some method) (args : List Value) :
    P.CarriesWhen known (method e this args) (method e' (P.value this) (args.map P.value))
      P.value := by
  by_cases hhash : s = .hash
  · subst hhash
    have h := E.hash hs this args
    exact ⟨h.grows, fun m n hmn hm => h.holds m n hmn (hknown m hm rfl)⟩
  · rcases Option.or_eq_some_iff.1 hs with hs | ⟨-, hs⟩
    · exact (tableCarries_special E tag s method hhash hs this args).when
    · exact (carries_common E hhash hs this args).when

/-! ## Calls -/

section calling

variable (C : P.Calling e e') {tag : TypeTag} {this : Value}
include C

theorem Calling.carries_compute {compute : Engine → Value → Run Int64} (h : tag.Remembers compute)
    (this : Value) :
    P.CarriesWhen (fun m => m.heap.tag this = tag ∧ (tag.hashesNumber = true → P.value this = this))
      (compute e this) (compute e' (P.value this)) id := by
  cases h with
  | float =>
    exact Carries.when
      ((carries_expectFloat this).bind fun _ => .pure (by rw [C.digests_eq]; rfl))
  | string =>
    exact Carries.when
      ((carries_expectText this).bind fun _ => .pure (by rw [C.digests_eq]; rfl))
  | bytes =>
    exact Carries.when
      ((carries_expectBytes this).bind fun _ => .pure (by rw [C.digests_eq]; rfl))
  | tuple => exact (carries_tupleHash C this).when
  | identity hnumber => exact carries_identityHash C fun m hm => hm.2 hnumber

/-- Hashes carry over when objects may remember what was computed. -/
theorem Calling.hash_of_set {method : Method} (hs : tag.method? .hash = some method)
    {q : Int64 → Machine → Prop}
    (hq : ∀ {compute}, tag.Remembers compute → ∀ m n hash m', P.rel m n → m.heap.tag this = tag →
      compute e this m = .ok hash m' → q hash m')
    (hset : ∀ hash, P.CarriesWhen (q hash) (Run.modifyHeap fun h => h.setHash this hash)
      (Run.modifyHeap fun h => h.setHash (P.value this) hash) id) (args : List Value) :
    P.CarriesWhen (fun m => m.heap.tag this = tag ∧ (tag.hashesNumber = true → P.value this = this))
      (method e this args) (method e' (P.value this) (args.map P.value)) P.value := by
  have hremembered : ∀ {compute}, tag.Remembers compute →
      P.CarriesWhen (fun m => m.heap.tag this = tag ∧ (tag.hashesNumber = true → P.value this = this))
        (Method.rememberedHash compute e this args)
        (Method.rememberedHash compute e' (P.value this) (args.map P.value)) P.value :=
    fun h => carries_rememberedHash (C.carries_compute h this)
      (fun m n hash m' hmn hm => hq h m n hash m' hmn hm.1) hset args
  cases tag with
  | none =>
    cases hs
    refine carries_nullary (Carries.when ?_) args
    rw [C.digests_eq]
    exact carries_newInteger _
  | bool =>
    cases hs
    exact carries_nullary
      (Carries.when ((carries_flagNumber this).bind fun _ => carries_newInteger _)) args
  | integer => cases hs; exact (carries_onInteger carries_newInteger this args).when
  | float => cases hs; exact hremembered .float
  | string => cases hs; exact hremembered .string
  | bytes => cases hs; exact hremembered .bytes
  | tuple => cases hs; exact hremembered .tuple
  | _ => cases hs; exact hremembered (.identity rfl)

/-- Calls that carry over are all that is needed where tables may change and objects may remember
their hashes. -/
theorem Calling.calls (hallows : ∀ {o o'}, o.Precedes o' → P.allows o o') : P.Calls e e' where
  toCalling := C
  store := C.store hallows
  hash hs this args := C.hash_of_set hs (q := fun _ _ => True) (fun _ _ _ _ _ _ _ _ => trivial)
    (fun hash => (carries_setHash hallows this hash).when) args

end calling

end Passage
end ScriptVM
