import Mathlib.Algebra.Order.BigOperators.Group.List
import Mathlib.Algebra.Order.Ring.Nat
import ScriptVM.Proofs.Nested.Asking

/-!
# Texts of containers

The text of a container is put together from those of its elements, in the same way whether the
machine shows the container or the container is asked for its text by `ToString`. A longer text of an
element makes a longer text of the container.

## Main definitions

* `Kind.join?` — the text of a container from those of what it contains.
-/
namespace ScriptVM

open Run Relation

/-! ## Lengths -/

section lengths

theorem length_intercalate (sep : String) (parts : List String) :
    (sep.intercalate parts).length =
      (parts.map String.length).sum + sep.length * (parts.length - 1) := by
  induction parts with
  | nil => simp
  | cons part parts ih =>
    cases parts with
    | nil => simp
    | cons next parts =>
      rw [String.intercalate_cons_cons, String.length_append, String.length_append, ih]
      simp only [List.map_cons, List.sum_cons, List.length_cons, Nat.add_sub_cancel, Nat.mul_add,
        Nat.mul_one]
      omega

variable {α : Type} {l : List α} {f g : α → String}

/-- Joined texts are longer if one of them is. -/
theorem length_intercalate_lt (sep : String) (hle : ∀ a ∈ l, (f a).length ≤ (g a).length)
    (hlt : ∃ a ∈ l, (f a).length < (g a).length) :
    (sep.intercalate (l.map f)).length < (sep.intercalate (l.map g)).length := by
  have hsum := List.sum_lt_sum (fun a => (f a).length) (fun a => (g a).length) hle hlt
  simp only [length_intercalate, List.map_map, List.length_map, Function.comp_def]
  omega

theorem length_arrayText_lt (hle : ∀ a ∈ l, (f a).length ≤ (g a).length)
    (hlt : ∃ a ∈ l, (f a).length < (g a).length) :
    (arrayText (l.map f)).length < (arrayText (l.map g)).length := by
  have hjoined := length_intercalate_lt ", " hle hlt
  simp only [arrayText, String.length_append]
  omega

theorem length_tupleText_lt (hle : ∀ a ∈ l, (f a).length ≤ (g a).length)
    (hlt : ∃ a ∈ l, (f a).length < (g a).length) :
    (tupleText (l.map f)).length < (tupleText (l.map g)).length := by
  have hjoined := length_intercalate_lt ", " hle hlt
  rcases l with _ | ⟨a, _ | ⟨b, l⟩⟩
  · obtain ⟨a, ha, -⟩ := hlt
    cases ha
  · simp only [List.map_cons, List.map_nil, tupleText, String.length_append,
      String.intercalate_singleton] at hjoined ⊢
    omega
  · simp only [List.map_cons, tupleText, String.length_append] at hjoined ⊢
    omega

/-- The character that is put for a piece takes the place of a byte at least. -/
theorem length_utf8Pieces_le (bytes : List UInt8) : (Text.utf8Pieces bytes).length ≤ bytes.length := by
  induction bytes using Text.utf8Pieces.induct with
  | case1 => simp [Text.utf8Pieces]
  | case2 b bytes ih =>
    rw [Text.utf8Pieces, List.length_cons, List.length_cons]
    have hrest := Text.length_utf8Piece_le b bytes
    omega

theorem length_escapeByte_pos (b : UInt8) : 0 < (Text.escapeByte b).length := by
  unfold Text.escapeByte
  split_ifs <;> simp

/-- The literal of Bytes is longer than what they decode to. -/
theorem length_decodeUtf8Lossy_lt (bytes : List UInt8) :
    (Text.decodeUtf8Lossy bytes).length < (Text.formatBytes bytes).length := by
  have hescaped : bytes.length ≤ (bytes.flatMap Text.escapeByte).length := by
    induction bytes with
    | nil => simp
    | cons b bytes ih =>
      have hb := length_escapeByte_pos b
      rw [List.flatMap_cons, List.length_append, List.length_cons]
      omega
  have hpieces := length_utf8Pieces_le bytes
  rw [Text.decodeUtf8Lossy, Text.formatBytes, String.length_ofList, String.length_ofList,
    List.length_map]
  simp only [List.length_cons, List.length_append, List.cons_append]
  omega

end lengths

/-! ## Texts put together -/

/-- The text of a container from those of what it contains. -/
def Kind.join? (part : Value → String) : Kind → Option String
  | .tuple items => some (tupleText (items.map part))
  | .array items => some (arrayText (items.map part))
  | .hash table => some (hashText (table.entries.map fun entry => (part entry.1, part entry.2)))
  | _ => Option.none

section join

variable {kind : Kind} {f g : Value → String} {s t : String}

theorem Kind.join?_congr (hfg : ∀ w ∈ kind.elements, f w = g w) : kind.join? f = kind.join? g := by
  cases kind with
  | tuple items =>
    have hitems : items.map f = items.map g := List.map_congr_left hfg
    rw [join?, join?, hitems]
  | array items =>
    have hitems : items.map f = items.map g := List.map_congr_left hfg
    rw [join?, join?, hitems]
  | hash table =>
    have hentry : ∀ entry ∈ table.entries, (f entry.1, f entry.2) = (g entry.1, g entry.2) := by
      intro entry hentry
      rw [hfg entry.1 (List.mem_flatMap.mpr ⟨entry, hentry, by simp⟩),
        hfg entry.2 (List.mem_flatMap.mpr ⟨entry, hentry, by simp⟩)]
    rw [join?, join?, List.map_congr_left hentry]
  | _ => rfl

/-- The text of a container is longer if that of an element is. -/
theorem Kind.length_join?_lt (hs : kind.join? f = some s) (ht : kind.join? g = some t)
    (hle : ∀ w ∈ kind.elements, (f w).length ≤ (g w).length)
    (hlt : ∃ w ∈ kind.elements, (f w).length < (g w).length) : s.length < t.length := by
  cases kind with
  | tuple items =>
    cases hs
    cases ht
    exact length_tupleText_lt hle hlt
  | array items =>
    cases hs
    cases ht
    exact length_arrayText_lt hle hlt
  | hash table =>
    cases hs
    cases ht
    have hentryle : ∀ entry ∈ table.entries, (f entry.1 ++ ": " ++ f entry.2).length ≤
        (g entry.1 ++ ": " ++ g entry.2).length := by
      intro entry hentry
      have hkey := hle entry.1 (List.mem_flatMap.mpr ⟨entry, hentry, by simp⟩)
      have hvalue := hle entry.2 (List.mem_flatMap.mpr ⟨entry, hentry, by simp⟩)
      simp only [String.length_append]
      omega
    have hentrylt : ∃ entry ∈ table.entries, (f entry.1 ++ ": " ++ f entry.2).length <
        (g entry.1 ++ ": " ++ g entry.2).length := by
      obtain ⟨w, hw, hwlt⟩ := hlt
      obtain ⟨entry, hentry, hmem⟩ := List.mem_flatMap.mp hw
      refine ⟨entry, hentry, ?_⟩
      have hkey := hle entry.1 (List.mem_flatMap.mpr ⟨entry, hentry, by simp⟩)
      have hvalue := hle entry.2 (List.mem_flatMap.mpr ⟨entry, hentry, by simp⟩)
      simp only [String.length_append]
      simp only [List.mem_cons, List.not_mem_nil, or_false] at hmem
      obtain rfl | rfl := hmem <;> omega
    have hjoined := length_intercalate_lt ", " hentryle hentrylt
    simp only [hashText, List.map_map, Function.comp_def, String.length_append] at hjoined ⊢
    omega
  | _ => cases hs

end join

/-! ## The text that the machine makes -/

namespace Heap

variable {h : Heap} {v : Value} {depth : Nat} {quoted : Bool} {text : String}

theorem mapM_of_imp {α β : Type} {f g : α → Option β} {l : List α} {bs : List β}
    (hfg : ∀ a ∈ l, ∀ b, f a = some b → g a = some b) (hf : l.mapM f = some bs) :
    l.mapM g = some bs := by
  induction l generalizing bs with
  | nil => exact hf
  | cons a l ih =>
    rw [List.mapM_cons, Option.bind_eq_bind, Option.bind_eq_some_iff] at hf ⊢
    obtain ⟨b, hb, hrest⟩ := hf
    refine ⟨b, hfg a List.mem_cons_self b hb, ?_⟩
    rw [Option.bind_eq_bind, Option.bind_eq_some_iff] at hrest ⊢
    obtain ⟨cs, hcs, hbs⟩ := hrest
    exact ⟨cs, ih (fun c hc => hfg c (List.mem_cons_of_mem a hc)) hcs, hbs⟩

theorem mapM_eq_map {α β : Type} {f : α → Option β} {g : α → β} {l : List α}
    (hf : ∀ a ∈ l, f a = some (g a)) : l.mapM f = some (l.map g) := by
  induction l with
  | nil => rfl
  | cons a l ih =>
    rw [List.mapM_cons, hf a List.mem_cons_self, ih fun b hb => hf b (List.mem_cons_of_mem a hb)]
    rfl

/-- More levels change nothing about a text. -/
theorem textWithin_mono {depth' : Nat} (hle : depth ≤ depth')
    (htext : h.textWithin depth quoted v = some text) :
    h.textWithin depth' quoted v = some text := by
  induction depth generalizing depth' quoted v text with
  | zero => cases htext
  | succ depth ih =>
    obtain ⟨depth', rfl⟩ : ∃ n, depth' = n + 1 := ⟨depth' - 1, by omega⟩
    have hle' : depth ≤ depth' := by omega
    rw [textWithin] at htext ⊢
    cases hkind : h.kind v with
    | tuple items =>
      simp only [hkind, Option.map_eq_some_iff] at htext ⊢
      obtain ⟨parts, hparts, rfl⟩ := htext
      exact ⟨parts, mapM_of_imp (fun a _ b hb => ih hle' hb) hparts, rfl⟩
    | array items =>
      simp only [hkind, Option.map_eq_some_iff] at htext ⊢
      obtain ⟨parts, hparts, rfl⟩ := htext
      exact ⟨parts, mapM_of_imp (fun a _ b hb => ih hle' hb) hparts, rfl⟩
    | hash table =>
      simp only [hkind, Option.map_eq_some_iff] at htext ⊢
      obtain ⟨parts, hparts, rfl⟩ := htext
      refine ⟨parts, mapM_of_imp (fun entry _ b hb => ?_) hparts, rfl⟩
      simp only [Option.bind_eq_bind, Option.bind_eq_some_iff] at hb ⊢
      obtain ⟨key, hkey, value, hvalue, hb⟩ := hb
      exact ⟨key, ih hle' hkey, value, ih hle' hvalue, hb⟩
    | bool b =>
      simp only [hkind] at htext ⊢
      cases b <;> exact htext
    | _ =>
      simp only [hkind] at htext ⊢
      exact htext

/-- The text of a container is put together from those of what it contains. -/
theorem Acyclic.textWithin_eq_join? {shown : Value → String} (hv : h.Acyclic v)
    (hshown : ∀ w, h.Contains w v → h.repr? w = some (shown w))
    (hjoin : (h.kind v).join? shown = some text) (quoted : Bool) :
    h.textWithin h.nestingBound quoted v = some text := by
  have hparts : ∀ w, h.Contains w v → h.textWithin h.objects.size true w = some (shown w) := by
    intro w hw
    have hsome := isSome_textWithin_succ.mp (hv.isSome_within_nestingBound quoted) w hw
    obtain ⟨part, hpart⟩ := Option.isSome_iff_exists.mp hsome
    have hrepr : h.repr? w = some part := textWithin_mono (Nat.le_succ _) hpart
    rw [hpart, ← hrepr, hshown w hw]
  rw [nestingBound, textWithin]
  cases hkind : h.kind v with
  | tuple items =>
    rw [hkind] at hjoin
    cases hjoin
    have hall : items.mapM (h.textWithin h.objects.size true) = some (items.map shown) :=
      mapM_eq_map fun w hw => hparts w (by rw [Contains, hkind]; exact hw)
    simp only [hall, Option.map_some]
  | array items =>
    rw [hkind] at hjoin
    cases hjoin
    have hall : items.mapM (h.textWithin h.objects.size true) = some (items.map shown) :=
      mapM_eq_map fun w hw => hparts w (by rw [Contains, hkind]; exact hw)
    simp only [hall, Option.map_some]
  | hash table =>
    rw [hkind] at hjoin
    cases hjoin
    have hentry : ∀ entry ∈ table.entries, (do
        let key ← h.textWithin h.objects.size true entry.1
        let value ← h.textWithin h.objects.size true entry.2
        return (key, value)) = some (shown entry.1, shown entry.2) := by
      intro entry hentry
      have hmem : ∀ w, w = entry.1 ∨ w = entry.2 → h.Contains w v := by
        intro w hw
        rw [Contains, hkind]
        exact List.mem_flatMap.mpr ⟨entry, hentry, by simpa using hw⟩
      rw [hparts entry.1 (hmem _ (.inl rfl)), hparts entry.2 (hmem _ (.inr rfl))]
      rfl
    simp only [mapM_eq_map hentry, Option.map_some]
  | _ =>
    rw [hkind] at hjoin
    cases hjoin

end Heap

/-! ## The text that is asked for -/

/-- Whether the values of a type contain others. -/
def TypeTag.isContainer : TypeTag → Bool
  | .tuple | .array | .hash => true
  | _ => false

/-- Whether the values of a type have a text that is a single word. -/
def TypeTag.isWord : TypeTag → Bool
  | .none | .bool | .integer | .float => true
  | _ => false

theorem TypeTag.supports_toText (tag : TypeTag) : tag.supports .toText = true := by
  cases tag <;> rfl

/-- A text is that of a container whose elements have texts as they are described. -/
def Kind.Joins (kind : Kind) (R : Value → String → Prop) (text : String) : Prop :=
  (∀ w ∈ kind.elements, ∃ t, R w t) ∧
    ∀ part : Value → String, (∀ w ∈ kind.elements, ∀ t, R w t → t = part w) →
      kind.join? part = some text

theorem exists_of_forall₂ {α β : Type} {R : α → β → Prop} {l : List α} {bs : List β}
    (hall : List.Forall₂ R l bs) : ∀ a ∈ l, ∃ b, R a b := by
  induction hall with
  | nil =>
    intro a ha
    cases ha
  | cons hab _ ih =>
    intro a ha
    obtain rfl | ha := List.mem_cons.mp ha
    · exact ⟨_, hab⟩
    · exact ih a ha

theorem eq_map_of_forall₂ {α β : Type} {R : α → β → Prop} {l : List α} {bs : List β} {g : α → β}
    (hall : List.Forall₂ R l bs) (hg : ∀ a ∈ l, ∀ b, R a b → b = g a) : bs = l.map g := by
  induction hall with
  | nil => rfl
  | cons hab _ ih =>
    rw [List.map_cons, hg _ List.mem_cons_self _ hab,
      ih fun a ha b hb => hg a (List.mem_cons_of_mem _ ha) b hb]

namespace Engine

variable {d : Digests} {m : Machine} {v : Value} {fuel : Nat} {E : Stop → Prop}
  {P : String → Heap → Prop} {R : Value → String → Prop}

/-- A new String, whose text is read. -/
theorem comes_newString (text : String) :
    (newString text).Comes m (fun r h => h.kind r = .string text) E :=
  comes_newObject (m.heap.kind_alloc (.string text))

theorem comes_expectText {r : Value} {text : String} (hr : m.heap.kind r = .string text)
    (hP : P text m.heap) : (expectText r).Comes m P E := by
  rw [expectText]
  refine comes_kindOf_bind ?_
  rw [hr]
  exact comes_pure hP

theorem stringify_eq_callSymbol {e : Engine} (hstring : m.heap.tag v ≠ .string) :
    e.stringify v m = (e.callSymbol v .toText [] >>= expectText) m := by
  rw [stringify, kindOf_bind]
  cases hkind : m.heap.kind v with
  | string text => exact absurd (congrArg Kind.tag hkind) hstring
  | _ => rfl

/-- What is no String is asked for its text by the method of its type. -/
theorem comes_stringify_of_method {method : Method} {Q : String → Prop}
    (hv : m.heap.Answers v .toText) (hlt : v.address < m.heap.objects.size)
    (hstring : m.heap.tag v ≠ .string) (hmethod : (m.heap.tag v).method? .toText = some method)
    (hrun : ∀ h, m.heap.Noted h → (method (withFuel fuel d) v []).Comes { m with heap := h }
      (fun r h' => ∃ text, h'.kind r = .string text ∧ Q text) E) :
    ((withFuel (fuel + 1) d).stringify v).Comes m (fun text _ => Q text) E := by
  refine Comes.congr ?_ (stringify_eq_callSymbol hstring)
  refine (comes_callSymbol d fuel hv hlt (TypeTag.supports_toText _) hmethod rfl hrun).bind ?_
  rintro r h - ⟨text, hr, hQ⟩
  exact comes_expectText hr hQ

/-- The elements of a sequence are asked one after the other. -/
theorem sequenceText_eq {e : Engine} (hplain : e.tracks = false) {items : List Value}
    (hv : m.heap.kind v = .tuple items ∨ m.heap.kind v = .array items) :
    Builtin.sequenceText e v m = (do
      let parts ← items.mapM (Builtin.elementText e)
      match ← kindOf v with
      | .array _ => newString (arrayText parts)
      | _ => newString (tupleText parts)) m := by
  simp only [Builtin.sequenceText, keep_of_plain hplain]
  rw [Builtin.expectItems, bind_assoc, kindOf_bind]
  obtain hv | hv := hv <;> rw [hv] <;> rfl

/-- The text of a tuple or an array, from what its elements come to. -/
theorem comes_sequenceText {e : Engine} (hplain : e.tracks = false) {items : List Value}
    (hlt : v.address < m.heap.objects.size)
    (hv : m.heap.kind v = .tuple items ∨ m.heap.kind v = .array items)
    (hparts : ∀ w ∈ items, ∀ h, m.heap.Noted h →
      (Builtin.elementText e w).Comes { m with heap := h } (fun text _ => R w text) E) :
    (Builtin.sequenceText e v).Comes m
      (fun r h => ∃ text, h.kind r = .string text ∧ (m.heap.kind v).Joins R text) E := by
  refine Comes.congr ((comes_mapM m hparts).bind fun parts h hn hall => ?_) 
    (sequenceText_eq hplain hv)
  refine comes_kindOf_bind ?_
  rw [show h.kind v = m.heap.kind v from hn.kind v hlt]
  obtain hv | hv := hv
  · rw [hv]
    refine (comes_newString (tupleText parts)).imp (fun r h' _ hr => ⟨_, hr, ?_⟩) fun _ => id
    refine ⟨exists_of_forall₂ hall, fun part hpart => ?_⟩
    rw [Kind.join?, eq_map_of_forall₂ hall hpart]
  · rw [hv]
    refine (comes_newString (arrayText parts)).imp (fun r h' _ hr => ⟨_, hr, ?_⟩) fun _ => id
    refine ⟨exists_of_forall₂ hall, fun part hpart => ?_⟩
    rw [Kind.join?, eq_map_of_forall₂ hall hpart]

/-- The text of a hash, from what its keys and values come to. -/
theorem comes_hashValueText {e : Engine} (hplain : e.tracks = false) {table : Table}
    (hv : m.heap.kind v = .hash table)
    (hparts : ∀ w, m.heap.Contains w v → ∀ h, m.heap.Noted h →
      (Builtin.elementText e w).Comes { m with heap := h } (fun text _ => R w text) E) :
    (Builtin.hashValueText e v).Comes m
      (fun r h => ∃ text, h.kind r = .string text ∧ (m.heap.kind v).Joins R text) E := by
  have hmem :
    ∀ entry ∈ table.entries, ∀ w, w = entry.1 ∨ w = entry.2 → w ∈ (Kind.hash table).elements :=
    fun entry hentry w hw => List.mem_flatMap.mpr ⟨entry, hentry, by simpa using hw⟩
  have heq : Builtin.hashValueText e v m =
      (table.entries.mapM (Builtin.entryText e) >>= fun parts => newString (hashText parts)) m := by
    simp only [Builtin.hashValueText, keep_of_plain hplain]
    rw [expectTable, bind_assoc, kindOf_bind, hv]
    rfl
  have hentries := comes_mapM (f := Builtin.entryText e) (E := E) (l := table.entries)
    (R := fun entry part => R entry.1 part.1 ∧ R entry.2 part.2) m fun entry hentry h hn => by
      have hcontains : ∀ w, w = entry.1 ∨ w = entry.2 → m.heap.Contains w v := by
        intro w hw
        rw [Heap.Contains, hv]
        exact hmem entry hentry w hw
      refine (hparts entry.1 (hcontains _ (.inl rfl)) h hn).bind fun key h' hn' hkey => ?_
      refine (hparts entry.2 (hcontains _ (.inr rfl)) h' (hn.trans hn')).bind ?_
      exact fun value h'' _ hvalue => comes_pure ⟨hkey, hvalue⟩
  refine Comes.congr (hentries.bind fun parts h hn hall => ?_) heq
  rw [hv]
  refine (comes_newString (hashText parts)).imp (fun r h' _ hr => ⟨_, hr, ?_, ?_⟩) fun _ => id
  · intro w hw
    obtain ⟨entry, hentry, hor⟩ := List.mem_flatMap.mp hw
    obtain ⟨part, hkey, hvalue⟩ := exists_of_forall₂ hall entry hentry
    simp only [List.mem_cons, List.not_mem_nil, or_false] at hor
    obtain rfl | rfl := hor
    · exact ⟨_, hkey⟩
    · exact ⟨_, hvalue⟩
  · intro part hpart
    rw [Kind.join?]
    rw [eq_map_of_forall₂ (g := fun entry => (part entry.1, part entry.2)) hall]
    rintro entry hentry ⟨key, value⟩ ⟨hkey, hvalue⟩
    exact Prod.ext (hpart _ (hmem entry hentry _ (.inl rfl)) _ hkey)
      (hpart _ (hmem entry hentry _ (.inr rfl)) _ hvalue)

/-- The text of a container, from what its elements come to with less fuel. -/
theorem comes_stringify_container (hv : m.heap.Datum v)
    (hcontainer : (m.heap.tag v).isContainer = true)
    (hparts : ∀ w, m.heap.Contains w v → ∀ h, m.heap.Noted h →
      (Builtin.elementText (withFuel fuel d) w).Comes { m with heap := h } (fun t _ => R w t) E) :
    ((withFuel (fuel + 1) d).stringify v).Comes m (fun t _ => (m.heap.kind v).Joins R t) E := by
  have hstring : m.heap.tag v ≠ .string := by
    intro htag
    rw [htag] at hcontainer
    cases hcontainer
  have hthen : ∀ {h : Heap}, m.heap.Noted h → ∀ w, h.Contains w v → ∀ h', h.Noted h' →
      (Builtin.elementText (withFuel fuel d) w).Comes { m with heap := h' } (fun t _ => R w t) E := by
    intro h hn w hw h' hn'
    refine hparts w ?_ h' (hn.trans hn')
    rw [Heap.Contains, ← hn.kind v hv.lt]
    exact hw
  cases hkind : m.heap.kind v with
  | tuple items =>
    have hmethod : (m.heap.tag v).method? .toText = some (.nullary Builtin.sequenceText) := by
      rw [Heap.tag, hkind]
      rfl
    refine comes_stringify_of_method (hv.answers _) hv.lt hstring hmethod fun h hn => ?_
    have hk : h.kind v = .tuple items := (hn.kind v hv.lt).trans hkind
    have hrun := comes_sequenceText (m := { m with heap := h }) (tracks_withFuel fuel d)
      (hv.noted hn).lt (.inl hk)
      fun w hw h' hn' => hthen hn w (by rw [Heap.Contains, hk]; exact hw) h' hn'
    rw [hk] at hrun
    exact hrun
  | array items =>
    have hmethod : (m.heap.tag v).method? .toText = some (.nullary Builtin.sequenceText) := by
      rw [Heap.tag, hkind]
      rfl
    refine comes_stringify_of_method (hv.answers _) hv.lt hstring hmethod fun h hn => ?_
    have hk : h.kind v = .array items := (hn.kind v hv.lt).trans hkind
    have hrun := comes_sequenceText (m := { m with heap := h }) (tracks_withFuel fuel d)
      (hv.noted hn).lt (.inr hk)
      fun w hw h' hn' => hthen hn w (by rw [Heap.Contains, hk]; exact hw) h' hn'
    rw [hk] at hrun
    exact hrun
  | hash table =>
    have hmethod : (m.heap.tag v).method? .toText = some (.nullary Builtin.hashValueText) := by
      rw [Heap.tag, hkind]
      rfl
    refine comes_stringify_of_method (hv.answers _) hv.lt hstring hmethod fun h hn => ?_
    have hk : h.kind v = .hash table := (hn.kind v hv.lt).trans hkind
    have hrun := comes_hashValueText (m := { m with heap := h }) (tracks_withFuel fuel d) hk
      fun w hw h' hn' => hthen hn w hw h' hn'
    rw [hk] at hrun
    exact hrun
  | _ =>
    rw [Heap.tag, hkind] at hcontainer
    cases hcontainer

/-- Bytes are asked for what they decode to. -/
theorem comes_stringify_bytes {content : List UInt8} (hv : m.heap.Answers v .toText)
    (hkind : m.heap.kind v = .bytes content) :
    ((withFuel (fuel + 1) d).stringify v).Comes m
      (fun t _ => t = Text.decodeUtf8Lossy content) E := by
  have htag : m.heap.tag v = .bytes := congrArg Kind.tag hkind
  have hlt := Heap.lt_size_of_kind hkind Kind.noConfusion
  refine comes_stringify_of_method (Q := fun t => t = Text.decodeUtf8Lossy content) hv hlt
    (by rw [htag]; exact TypeTag.noConfusion) (by rw [htag]; rfl) fun h hn => ?_
  have hk : h.kind v = .bytes content := (hn.kind v hlt).trans hkind
  refine Comes.congr (x := newString (Text.decodeUtf8Lossy content)) ?_ ?_
  · exact (comes_newString _).imp (fun r h' _ hr => ⟨_, hr, rfl⟩) fun _ => id
  · show (Builtin.expectBytes v >>= fun content => newString (Text.decodeUtf8Lossy content)) _ = _
    rw [Builtin.expectBytes, bind_assoc, kindOf_bind, hk]
    rfl

/-- The text of a word comes from its payload alone. -/
theorem textWithin_word {h h' : Heap} (hkind : h'.kind v = h.kind v)
    (hword : (h.tag v).isWord = true) (depth depth' : Nat) (quoted quoted' : Bool) :
    h'.textWithin (depth' + 1) quoted' v = h.textWithin (depth + 1) quoted v := by
  rw [Heap.textWithin, Heap.textWithin, hkind]
  rw [Heap.tag] at hword
  cases hk : h.kind v with
  | none | integer | float => rfl
  | bool b => cases b <;> rfl
  | _ =>
    have htag := congrArg (fun k => k.tag.isWord) hk
    exact absurd (htag.symm.trans hword) Bool.false_ne_true

/-- `None`, Bools and numbers are asked for the text that the machine shows. -/
theorem comes_stringify_word (hv : m.heap.Answers v .toText)
    (hlt : v.address < m.heap.objects.size) (hword : (m.heap.tag v).isWord = true) :
    ((withFuel (fuel + 1) d).stringify v).Comes m (fun t _ => m.heap.repr? v = some t) E := by
  have hsame : ∀ h, m.heap.Noted h → h.display? v = m.heap.repr? v := fun h hn =>
    textWithin_word (hn.kind v hlt) hword _ _ _ _
  have hcommon : ∀ h, m.heap.Noted h →
      (Run.display v >>= newString).Comes { m with heap := h }
        (fun r h' => ∃ text, h'.kind r = .string text ∧ m.heap.repr? v = some text) E := by
    intro h hn
    obtain ⟨text, htext⟩ : ∃ text, m.heap.repr? v = some text := by
      rw [Heap.repr?, Heap.nestingBound, Heap.textWithin]
      rw [Heap.tag] at hword
      cases hk : m.heap.kind v with
      | none | integer | float => exact ⟨_, rfl⟩
      | bool b => cases b <;> exact ⟨_, rfl⟩
      | _ =>
        rw [hk] at hword
        cases hword
    refine Comes.congr (x := newString text) ?_ ?_
    · exact (comes_newString text).imp (fun r h' _ hr => ⟨text, hr, htext⟩) fun _ => id
    · have hshown : h.display? v = some text := (hsame h hn).trans htext
      simp only [Run.display, bind_assoc, read_bind, hshown]
      rfl
  have hstring : m.heap.tag v ≠ .string := by
    intro htag
    rw [htag] at hword
    cases hword
  cases hk : m.heap.kind v with
  | none =>
    have hmethod : (m.heap.tag v).method? .toText = some (.nullary fun _ _ => newString "None") := by
      rw [Heap.tag, hk]
      rfl
    refine comes_stringify_of_method hv hlt hstring hmethod fun h hn => ?_
    refine (comes_newString "None").imp (fun r h' _ hr => ⟨_, hr, ?_⟩) fun _ => id
    rw [Heap.repr?, Heap.nestingBound, Heap.textWithin, hk]
  | bool b =>
    exact comes_stringify_of_method hv hlt hstring (by rw [Heap.tag, hk]; rfl) hcommon
  | integer n =>
    exact comes_stringify_of_method hv hlt hstring (by rw [Heap.tag, hk]; rfl) hcommon
  | float x =>
    exact comes_stringify_of_method hv hlt hstring (by rw [Heap.tag, hk]; rfl) hcommon
  | _ =>
    rw [Heap.tag, hk] at hword
    cases hword

/-- Inside a container, what is no String is asked for its text in the same way as outside. -/
theorem elementText_eq_stringify {e : Engine} (hv : m.heap.tag v ≠ .string) :
    Builtin.elementText e v m = e.stringify v m := by
  rw [Builtin.elementText, kindOf_bind]
  cases hkind : m.heap.kind v with
  | string text => exact absurd (congrArg Kind.tag hkind) hv
  | _ => rfl

theorem comes_elementText {e : Engine} (hv : m.heap.tag v ≠ .string)
    (hrun : (e.stringify v).Comes m P E) : (Builtin.elementText e v).Comes m P E :=
  hrun.congr (elementText_eq_stringify hv)

/-- Inside a container, a String stands in quotes. -/
theorem comes_elementText_string {e : Engine} {text : String} (hv : m.heap.kind v = .string text) :
    (Builtin.elementText e v).Comes m (fun t _ => t = Text.quote text) E := by
  have hrepr : m.heap.repr? v = some (Text.quote text) := by
    rw [Heap.repr?, Heap.nestingBound, Heap.textWithin, hv]
    rfl
  refine Comes.congr (x := pure (Text.quote text)) (comes_pure rfl) ?_
  rw [Builtin.elementText, kindOf_bind, hv]
  show Run.repr v m = _
  simp only [Run.repr, read_bind, hrepr]

end Engine
end ScriptVM
