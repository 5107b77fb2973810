import ScriptVM.Proofs.Nested.Text
import ScriptVM.Proofs.Text.Decimal
import ScriptVM.Proofs.Text.Utf8

/-!
# Conversions to text and back

Calling the built-in types `String`, `Integer` and `Bytes` on values whose text or number is that of
their type. A number becomes its decimal text and every text that spells it becomes the number
again; a text becomes its bytes and these become the text again.

## Main definitions

* `Run.Makes` — a run makes a value with a payload and changes nothing else.

## Main results

* `Engine.text_conversions` — what the conversions make, and that they invert each other.
-/
namespace ScriptVM

open Run

/-- A run makes a value with a payload. It may make other objects and note behaviour, and changes
nothing else. -/
def Run.Makes (x : Run Value) (m : Machine) (kind : Kind) : Prop :=
  ∃ r h, m.heap.Noted h ∧ x m = .ok r { m with heap := h } ∧ h.kind r = kind

/-- A value has a payload and answers everything as its type does. -/
def Heap.Fresh (h : Heap) (kind : Kind) (v : Value) : Prop := h.kind v = kind ∧ ∀ s, h.Answers v s

variable {m : Machine} {E : Stop → Prop}

theorem Run.Makes.of_comes {x : Run Value} {kind : Kind}
    (hx : x.Comes m (fun r h => h.Fresh kind r) fun _ => False) : x.Makes m kind := by
  obtain ⟨h, hn, ⟨r, hr, hrun⟩ | ⟨_, hstop, -⟩⟩ := hx
  · exact ⟨r, h, hn, hrun, hr.1⟩
  · exact hstop.elim

theorem Run.comes_newObject_fresh (kind : Kind) :
    (newObject kind).Comes m (fun r h => h.Fresh kind r) E :=
  comes_newObject ⟨m.heap.kind_alloc kind, fun s => .inl (by rw [Heap.get_alloc]; rfl)⟩

namespace Engine

variable {d : Digests} {fuel : Nat} {v T : Value} {text : String} {n : Int64}
  {content : List UInt8}

/-! ## Single conversions -/

/-- A call of a built-in type converts the argument. -/
theorem call_type {tag : TypeTag} (hT : m.heap.kind T = .type (.builtin tag)) :
    (withFuel (fuel + 1) d).call T [v] m = (withFuel fuel d).convertValue tag v m := by
  show callValue _ T [v] m = _
  rw [callValue, kindOf_bind, hT]
  cases tag <;> rfl

/-- What is no String becomes a new String with the text that it is asked for. -/
theorem comes_toString (hT : m.heap.kind T = .type (.builtin .string))
    (htext : ((withFuel (fuel + 1) d).stringify v).Comes m (fun t _ => t = text) E) :
    ((withFuel (fuel + 2) d).call T [v]).Comes m (fun r h => h.Fresh (.string text) r) E := by
  refine Comes.congr (htext.bind (f := newString) ?_) (call_type hT)
  rintro t h - rfl
  exact comes_newObject_fresh _

/-- An Integer becomes its decimal text. -/
theorem comes_toString_integer (hT : m.heap.kind T = .type (.builtin .string))
    (hv : m.heap.kind v = .integer n) (hanswers : m.heap.Answers v .toText) :
    ((withFuel (fuel + 2) d).call T [v]).Comes m
      (fun r h => h.Fresh (.string (toString n.toInt)) r) E := by
  have hword : (m.heap.tag v).isWord = true := by
    rw [Heap.tag, hv]
    rfl
  refine comes_toString hT ((comes_stringify_word hanswers
    (Heap.lt_size_of_kind hv Kind.noConfusion) hword).imp (fun t _ _ ht => ?_) fun _ => id)
  rw [Heap.repr?, Heap.nestingBound, Heap.textWithin, hv] at ht
  exact (Option.some.inj ht).symm

/-- A Bytes value becomes the text that it decodes to. -/
theorem comes_toString_bytes (hT : m.heap.kind T = .type (.builtin .string))
    (hv : m.heap.kind v = .bytes content) (hanswers : m.heap.Answers v .toText) :
    ((withFuel (fuel + 2) d).call T [v]).Comes m
      (fun r h => h.Fresh (.string (Text.decodeUtf8Lossy content)) r) E :=
  comes_toString hT (comes_stringify_bytes hanswers hv)

/-- A String that spells a number becomes that number. -/
theorem comes_toInteger (hT : m.heap.kind T = .type (.builtin .integer))
    (hv : m.heap.kind v = .string text) (hanswers : m.heap.Answers v .toInteger)
    (hspells : Text.Spells text n) :
    ((withFuel (fuel + 2) d).call T [v]).Comes m (fun r h => h.Fresh (.integer n) r) E := by
  have htag : m.heap.tag v = .string := congrArg Kind.tag hv
  have hlt := Heap.lt_size_of_kind hv Kind.noConfusion
  refine Comes.congr ?_ (call_type hT)
  have hmethod : (m.heap.tag v).method? .toInteger = some (.nullary Builtin.textToInteger) := by
    rw [htag]
    rfl
  refine comes_callSymbol d fuel hanswers hlt (by rw [htag]; rfl) hmethod rfl fun h hn => ?_
  show (Builtin.textToInteger (withFuel fuel d) v).Comes _ _ _
  refine (comes_expectText (P := fun t _ => t = text) ((hn.kind v hlt).trans hv) rfl).bind ?_
  rintro t h' - rfl
  rw [hspells.int64?_numberChars]
  exact comes_newObject_fresh _

/-- A String becomes its bytes. -/
theorem comes_toBytes (hT : m.heap.kind T = .type (.builtin .bytes))
    (hv : m.heap.kind v = .string text) :
    ((withFuel (fuel + 1) d).call T [v]).Comes m
      (fun r h => h.Fresh (.bytes (Text.encodeUtf8 text)) r) E := by
  refine Comes.congr ?_ (call_type hT)
  rw [convertValue]
  refine comes_kindOf_bind ?_
  rw [hv]
  exact comes_newObject_fresh _

/-! ## There and back -/

/-- The conversions to text and back invert each other: every number is read off its decimal text,
and off every text that spells it; every text is decoded from its bytes; and bytes are those of the
text they are decoded to, unless they are no well-formed UTF-8. -/
theorem text_conversions (d : Digests) (fuel : Nat) {m : Machine} {S I B : Value}
    (hS : m.heap.kind S = .type (.builtin .string))
    (hI : m.heap.kind I = .type (.builtin .integer))
    (hB : m.heap.kind B = .type (.builtin .bytes)) :
    (∀ v n, m.heap.kind v = .integer n → m.heap.Answers v .toText →
      ((withFuel (fuel + 2) d).call S [v]).Makes m (.string (toString n.toInt)) ∧
      ((withFuel (fuel + 2) d).call S [v] >>= fun s =>
        (withFuel (fuel + 2) d).call I [s]).Makes m (.integer n)) ∧
    (∀ v text n, m.heap.kind v = .string text → m.heap.Answers v .toInteger →
      Text.Spells text n → ((withFuel (fuel + 2) d).call I [v]).Makes m (.integer n)) ∧
    (∀ v text, m.heap.kind v = .string text →
      ((withFuel (fuel + 2) d).call B [v]).Makes m (.bytes (Text.encodeUtf8 text)) ∧
      ((withFuel (fuel + 2) d).call B [v] >>= fun b =>
        (withFuel (fuel + 2) d).call S [b]).Makes m (.string text)) ∧
    (∀ v content, m.heap.kind v = .bytes content → m.heap.Answers v .toText →
      ∃ text, ((withFuel (fuel + 2) d).call S [v]).Makes m (.string text) ∧
        (Text.encodeUtf8 text ≠ content ↔ ¬Text.IsUtf8 content)) := by
  have hlt : ∀ {T : Value} {tag : TypeTag}, m.heap.kind T = .type (.builtin tag) →
      T.address < m.heap.objects.size := fun hT => Heap.lt_size_of_kind hT Kind.noConfusion
  refine ⟨fun v n hv hanswers => ⟨?_, ?_⟩, fun v text n hv hanswers hspells => ?_,
    fun v text hv => ⟨?_, ?_⟩, fun v content hv hanswers =>
      ⟨Text.decodeUtf8Lossy content, ?_, not_congr Text.encodeUtf8_decodeUtf8Lossy_iff⟩⟩
  · exact .of_comes (comes_toString_integer hS hv hanswers)
  · refine .of_comes ((comes_toString_integer hS hv hanswers).bind fun s h hn hs => ?_)
    exact comes_toInteger ((hn.kind I (hlt hI)).trans hI) hs.1 (hs.2 _) (Text.spells_toString n)
  · exact .of_comes (comes_toInteger hI hv hanswers hspells)
  · exact .of_comes (comes_toBytes hB hv)
  · refine .of_comes ((comes_toBytes hB hv).bind fun b h hn hb => ?_)
    rw [← Text.decodeUtf8Lossy_encodeUtf8 text]
    exact comes_toString_bytes ((hn.kind S (hlt hS)).trans hS) hb.1 (hb.2 _)
  · exact .of_comes (comes_toString_bytes hS hv hanswers)

/-- The least number, a text that spells it, and the bytes that a surrogate would have. -/
theorem text_conversions_least :
    let text := "\u2003_-9_223_372_036_854_775_808\n"
    let surrogate : List UInt8 := [0xED, 0xA0, 0x80]
    let m : Machine := { (default : Machine) with
      heap := ⟨#[⟨.type (.builtin .string), .empty, 0⟩, ⟨.type (.builtin .integer), .empty, 0⟩,
        ⟨.type (.builtin .bytes), .empty, 0⟩, ⟨.integer Int64.minValue, .empty, 0⟩,
        ⟨.string text, .empty, 0⟩, ⟨.bytes surrogate, .empty, 0⟩]⟩ }
    ((withFuel 2 .standard).call ⟨0⟩ [⟨3⟩] >>= fun s => (withFuel 2 .standard).call ⟨1⟩ [s]).Makes m
        (.integer Int64.minValue) ∧
      ((withFuel 2 .standard).call ⟨1⟩ [⟨4⟩]).Makes m (.integer Int64.minValue) ∧
      ((withFuel 2 .standard).call ⟨2⟩ [⟨4⟩] >>= fun b => (withFuel 2 .standard).call ⟨0⟩ [b]).Makes
        m (.string text) ∧
      ∃ decoded, ((withFuel 2 .standard).call ⟨0⟩ [⟨5⟩]).Makes m (.string decoded) ∧
        Text.encodeUtf8 decoded ≠ surrogate := by
  intro text surrogate m
  have hspells : Text.Spells text Int64.minValue :=
    ⟨['\u2003'], "_-9_223_372_036_854_775_808".toList, ['\n'], by decide,
      List.all_eq_true.mp (by decide), List.all_eq_true.mp (by decide), by decide⟩
  have hmalformed : ¬Text.IsUtf8 surrogate := by
    rw [← Text.encodeUtf8_decodeUtf8Lossy_iff]
    have hdecoded : Text.decodeUtf8Lossy surrogate = "\uFFFD\uFFFD\uFFFD" := by
      simp [surrogate, Text.decodeUtf8Lossy, Text.utf8Pieces, Text.utf8Piece, Text.utf8Lead?,
        Text.utf8Rest, Text.Utf8Piece.shown]
    rw [hdecoded, Text.encodeUtf8_eq]
    decide
  obtain ⟨hinteger, hspelled, htext, hbytes⟩ := text_conversions .standard 0 (m := m)
    (S := ⟨0⟩) (I := ⟨1⟩) (B := ⟨2⟩) rfl rfl rfl
  obtain ⟨decoded, hmade, hdiffers⟩ := hbytes ⟨5⟩ surrogate rfl (.inl rfl)
  exact ⟨(hinteger ⟨3⟩ _ rfl (.inl rfl)).2, hspelled ⟨4⟩ text _ rfl (.inl rfl) hspells,
    (htext ⟨4⟩ text rfl).2, decoded, hmade, hdiffers.mpr hmalformed⟩

end Engine
end ScriptVM
