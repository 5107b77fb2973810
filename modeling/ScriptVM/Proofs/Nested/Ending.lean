import ScriptVM.Proofs.Nested.Agreement
import ScriptVM.Proofs.Table

/-!
# Comparing data comes to an end

Two values are compared by way of what they contain, and Hashes by the hashes of their keys as well.
As long as nothing in either value contains itself, that ends with an answer or a failure, whatever
the two values are. The induction is on one of them: a comparison may be turned around, so it is
about both orders at once.
-/
namespace ScriptVM

open Run Relation

/-- A run only asks, and ends with a result or a failure. -/
def Run.Halts {α : Type} (x : Run α) (m : Machine) : Prop :=
  x.Comes m (fun _ _ => True) fun stop => stop ≠ .outOfFuel

namespace Run

variable {α β : Type} {m : Machine} {x : Run α} {f : α → Run β} {P : α → Heap → Prop}

theorem halts_read (g : Machine → α) : (read g).Halts m := comes_read trivial

theorem halts_fail (cause : Cause) : (fail cause : Run α).Halts m := comes_fail nofun

theorem halts_newObject (kind : Kind) : (newObject kind).Halts m := comes_newObject trivial

theorem Halts.bind (hx : x.Halts m) (hf : ∀ a h, m.heap.Noted h → (f a).Halts { m with heap := h }) :
    (x >>= f).Halts m :=
  Comes.bind hx fun a h hn _ => hf a h hn

theorem halts_foldlM {l : List β} {g : α → β → Run α} {a : α} (m : Machine)
    (hg : ∀ b ∈ l, ∀ a h, m.heap.Noted h → (g a b).Halts { m with heap := h }) :
    (l.foldlM g a).Halts m := by
  induction l generalizing a m with
  | nil => exact comes_pure trivial
  | cons b l ih =>
    rw [List.foldlM_cons]
    refine (hg b List.mem_cons_self a m.heap (.refl _)).bind fun a' h hn => ?_
    exact ih { m with heap := h } fun c hc a'' h' hn' =>
      hg c (List.mem_cons_of_mem b hc) a'' h' (hn.trans hn')

theorem halts_failType {v : Value} {expected : List String} :
    (failType v expected : Run α).Halts m :=
  (halts_read _).bind fun _ _ _ => halts_fail _

theorem halts_expectBool (v : Value) : (Engine.expectBool v).Halts m := by
  refine comes_kindOf_bind ?_
  cases m.heap.kind v with
  | bool b => exact comes_pure trivial
  | _ => exact halts_failType

theorem halts_expectInteger (v : Value) : (Engine.expectInteger v).Halts m := by
  refine comes_kindOf_bind ?_
  cases m.heap.kind v with
  | integer n => exact comes_pure trivial
  | _ => exact halts_failType

theorem halts_expectText (v : Value) : (Engine.expectText v).Halts m := by
  refine comes_kindOf_bind ?_
  cases m.heap.kind v with
  | string s => exact comes_pure trivial
  | _ => exact halts_failType

theorem halts_expectFloat (v : Value) : (Builtin.expectFloat v).Halts m := by
  refine comes_kindOf_bind ?_
  cases m.heap.kind v with
  | float x => exact comes_pure trivial
  | _ => exact halts_failType

theorem halts_expectBytes (v : Value) : (Builtin.expectBytes v).Halts m := by
  refine comes_kindOf_bind ?_
  cases m.heap.kind v with
  | bytes content => exact comes_pure trivial
  | _ => exact halts_failType

end Run

namespace Engine

variable {d : Digests} {m : Machine} {v w : Value} {fuel : Nat} {e : Engine}

theorem comes_expectItems {items : List Value} {E : Stop → Prop}
    (hv : m.heap.kind v = .tuple items ∨ m.heap.kind v = .array items) :
    (Builtin.expectItems v).Comes m (fun found _ => found = items) E := by
  refine comes_kindOf_bind ?_
  obtain hv | hv := hv <;> rw [hv] <;> exact comes_pure rfl

/-! ## Hashes -/

/-- Remembering a hash ends when computing it does. -/
theorem halts_rememberedHash {compute : Engine → Value → Run Int64}
    (hcompute : ∀ h, m.heap.Noted h → (compute e v).Halts { m with heap := h }) :
    (Method.rememberedHash compute e v []).Halts m := by
  refine (halts_read fun m => m.heap.hash? v).bind fun hash? h hn => ?_
  cases hash? with
  | some hash => exact halts_newObject _
  | none =>
    refine (hcompute h hn).bind fun hash h' hn' => ?_
    have hset : (modifyHeap fun h => h.setHash v hash).Halts { m with heap := h' } :=
      ⟨_, h'.noted_setHash v hash, .inl ⟨(), trivial, rfl⟩⟩
    exact hset.bind fun _ _ _ => halts_newObject _

/-- The hash of a payload is computed from the payload and the hashes of what it contains. -/
theorem halts_hashMethod {method : Method} (hplain : e.tracks = false)
    (hdata : (m.heap.tag v).isData = true) (hlt : v.address < m.heap.objects.size)
    (hmethod : (m.heap.tag v).method? .hash = some method)
    (helements : ∀ w, m.heap.Contains w v → ∀ h, m.heap.Noted h →
      (e.hashOf w).Halts { m with heap := h }) :
    (method e v []).Halts m := by
  rw [Heap.tag] at hdata hmethod
  cases hkind : m.heap.kind v with
  | none =>
    rw [hkind] at hmethod
    cases hmethod
    exact halts_newObject _
  | bool b =>
    rw [hkind] at hmethod
    cases hmethod
    refine Halts.bind (x := Builtin.flagNumber v) ?_ fun _ _ _ => halts_newObject _
    exact (halts_read _).bind fun _ _ _ => comes_pure trivial
  | integer n =>
    rw [hkind] at hmethod
    cases hmethod
    exact (halts_expectInteger v).bind fun _ _ _ => halts_newObject _
  | float x =>
    rw [hkind] at hmethod
    cases hmethod
    exact halts_rememberedHash fun _ _ =>
      (halts_expectFloat v).bind fun _ _ _ => comes_pure trivial
  | string text =>
    rw [hkind] at hmethod
    cases hmethod
    exact halts_rememberedHash fun _ _ =>
      (halts_expectText v).bind fun _ _ _ => comes_pure trivial
  | bytes content =>
    rw [hkind] at hmethod
    cases hmethod
    exact halts_rememberedHash fun _ _ =>
      (halts_expectBytes v).bind fun _ _ _ => comes_pure trivial
  | tuple items =>
    rw [hkind] at hmethod
    cases hmethod
    refine halts_rememberedHash fun h hn => ?_
    refine (comes_expectItems (.inl ((hn.kind v hlt).trans hkind))).bind ?_
    rintro _ h' hn' rfl
    rw [keep_of_plain hplain]
    refine halts_foldlM _ fun w hw hash h'' hn'' => ?_
    refine (helements w ?_ h'' ((hn.trans hn').trans hn'')).bind fun _ _ _ => comes_pure trivial
    rw [Heap.Contains, hkind]
    exact hw
  | array items | hash table =>
    rw [hkind] at hmethod
    cases hmethod
    exact halts_rememberedHash fun _ _ => (halts_read _).bind fun _ _ _ => comes_pure trivial
  | _ =>
    rw [hkind] at hdata
    cases hdata

/-- A symbol that a value answers as its type does is looked up as behaviour of the type, or not
found. -/
theorem exists_lookup_of_answers {s : Symbol} (hv : m.heap.Answers v s) :
    lookup v s.name m = .ok none m ∨
      ∃ f h, m.heap.Noted h ∧ lookup v s.name m = .ok (some f) { m with heap := h } ∧
        h.kind f = .function ⟨.builtin s, some v⟩ := by
  by_cases hs : (m.heap.tag v).supports s = true
  · exact .inr (lookup_of_answers hv hs)
  · obtain hget | hget := hv
    · left
      have hsymbol : (m.heap.tag v).symbol? s.name = none := by
        rw [TypeTag.symbol?, Symbol.ofName?_name, Option.filter_some, if_neg hs]
      rw [lookup, Run.modifyGet_apply, Heap.lookup, Heap.find]
      simp only [hget, hsymbol]
    · right
      let bound : Kind := .function ⟨.builtin s, some v⟩
      refine ⟨(m.heap.alloc bound).1, (m.heap.alloc bound).2, m.heap.noted_alloc bound, ?_,
        m.heap.kind_alloc bound⟩
      rw [lookup, Run.modifyGet_apply, Heap.lookup, Heap.find, hget]
      rfl

/-- Asking data for its hash ends when asking what it contains does, with less fuel. -/
theorem halts_hashOf_succ (hv : m.heap.Datum v)
    (helements : ∀ w, m.heap.Contains w v → ∀ h, m.heap.Noted h →
      ((withFuel fuel d).hashOf w).Halts { m with heap := h }) :
    ((withFuel (fuel + 1) d).hashOf v).Halts m := by
  obtain hnone | ⟨f, h, hn, hlookup, hf⟩ := exists_lookup_of_answers (hv.answers .hash)
  · refine Comes.congr (x := fail (.unhashable (m.heap.typeName v))) (halts_fail _) ?_
    simp only [hashOf, bind, EStateM.bind, hnone]
    rfl
  · have hv' := hv.noted hn
    obtain ⟨method, hmethod⟩ : ∃ method, (h.tag v).method? .hash = some method := by
      cases h.tag v <;> exact ⟨_, rfl⟩
    have hcall : (withFuel (fuel + 1) d).call f [] { m with heap := h } =
        method (withFuel fuel d) v [] { m with heap := h } := call_builtin hf rfl hmethod
    refine Comes.after (x := (withFuel (fuel + 1) d).call f [] >>= expectInteger) (h := h) ?_ hn ?_
    · refine Halts.bind (Comes.congr ?_ hcall) fun v _ _ => halts_expectInteger v
      refine halts_hashMethod (tracks_withFuel fuel d) hv'.data hv'.lt hmethod fun w hw h' hn' => ?_
      refine helements w ?_ h' (hn.trans hn')
      rw [Heap.Contains, ← hn.kind v hv.lt]
      exact hw
    · simp only [hashOf, keep_withFuel, bind, EStateM.bind, hlookup]

/-- Data in which nothing contains itself has a hash or is refused one, with enough fuel. -/
theorem exists_halts_hashOf (d : Digests) {h : Heap} (hv : h.MadeOfData v) (hacc : Acc h.Contains v) :
    ∃ needed, ∀ fuel, needed ≤ fuel → ∀ m : Machine, h.Noted m.heap →
      ((withFuel fuel d).hashOf v).Halts m := by
  induction hacc with
  | intro v _ ih =>
    obtain ⟨needed, hneeded⟩ := exists_bound (l := (h.kind v).elements)
      fun w hw => ih w hw (hv.element hw)
    refine ⟨needed + 1, fun fuel hfuel m hn => ?_⟩
    obtain ⟨fuel, rfl⟩ : ∃ n, fuel = n + 1 := ⟨fuel - 1, by omega⟩
    refine halts_hashOf_succ (hv.datum.noted hn) fun w hw h' hn' => ?_
    rw [Heap.Contains, hn.kind v hv.datum.lt] at hw
    exact hneeded fuel (by omega) w hw { m with heap := h' } (hn.trans hn')

/-! ## Equality -/

/-- All elements of two containers are compared, in either order. -/
def Compared (e : Engine) (m : Machine) (v w : Value) : Prop :=
  ∀ a, m.heap.Contains a v → ∀ b, m.heap.Contains b w → ∀ h, m.heap.Noted h →
    (e.equals a b).Halts { m with heap := h } ∧ (e.equals b a).Halts { m with heap := h }

/-- The elements of a container are asked for their hashes. -/
def Hashed (e : Engine) (m : Machine) (v : Value) : Prop :=
  ∀ a, m.heap.Contains a v → ∀ h, m.heap.Noted h → (e.hashOf a).Halts { m with heap := h }

theorem Compared.symm (hparts : Compared e m v w) : Compared e m w v :=
  fun b hb a ha h hn => (hparts a ha b hb h hn).symm

theorem Compared.noted {h : Heap} (hparts : Compared e m v w) (hv : v.address < m.heap.objects.size)
    (hw : w.address < m.heap.objects.size) (hn : m.heap.Noted h) :
    Compared e { m with heap := h } v w := by
  intro a ha b hb h' hn'
  rw [Heap.Contains, hn.kind v hv] at ha
  rw [Heap.Contains, hn.kind w hw] at hb
  exact hparts a ha b hb h' (hn.trans hn')

theorem Hashed.noted {h : Heap} (hhashed : Hashed e m v) (hv : v.address < m.heap.objects.size)
    (hn : m.heap.Noted h) : Hashed e { m with heap := h } v := by
  intro a ha h' hn'
  rw [Heap.Contains, hn.kind v hv] at ha
  exact hhashed a ha h' (hn.trans hn')

theorem halts_allEqual {as bs : List Value} (m : Machine)
    (hparts : ∀ a ∈ as, ∀ b ∈ bs, ∀ h, m.heap.Noted h → (e.equals a b).Halts { m with heap := h }) :
    (Builtin.allEqual e as bs).Halts m := by
  induction as generalizing bs m with
  | nil => exact comes_pure trivial
  | cons a as ih =>
    cases bs with
    | nil => exact comes_pure trivial
    | cons b bs =>
      rw [Builtin.allEqual]
      refine (hparts a List.mem_cons_self b List.mem_cons_self m.heap (.refl _)).bind ?_
      intro equal h hn
      cases equal with
      | false => exact comes_pure trivial
      | true =>
        refine ih { m with heap := h } fun c hc d hd h' hn' => ?_
        exact hparts c (List.mem_cons_of_mem a hc) d (List.mem_cons_of_mem b hd) h' (hn.trans hn')

theorem halts_positionOf {key : Value} {candidates : List Value} {position : Nat} (m : Machine)
    (hparts : ∀ c ∈ candidates, ∀ h, m.heap.Noted h → (e.equals c key).Halts { m with heap := h }) :
    (e.positionOf key position candidates).Halts m := by
  induction candidates generalizing position m with
  | nil => exact comes_pure trivial
  | cons candidate rest ih =>
    rw [positionOf]
    by_cases hsame : candidate = key
    · rw [if_pos hsame]
      exact comes_pure trivial
    · rw [if_neg hsame]
      refine (hparts candidate List.mem_cons_self m.heap (.refl _)).bind fun equal h hn => ?_
      cases equal with
      | true => exact comes_pure trivial
      | false =>
        exact ih { m with heap := h } fun c hc h' hn' =>
          hparts c (List.mem_cons_of_mem candidate hc) h' (hn.trans hn')

theorem comes_expectTable {table : Table} {E : Stop → Prop} (hw : m.heap.kind w = .hash table) :
    (expectTable w).Comes m (fun found _ => found = table) E := by
  refine comes_kindOf_bind ?_
  rw [hw]
  exact comes_pure rfl

theorem contains_of_mem_bucket {h : Heap} {table : Table} {hash : Int64} {entry : Value × Value}
    (hw : h.kind w = .hash table) (hentry : entry ∈ table.bucket hash) :
    h.Contains entry.1 w ∧ h.Contains entry.2 w := by
  have hmem := Table.mem_entries_of_mem_bucket hentry
  rw [Heap.Contains, Heap.Contains, hw]
  exact ⟨List.mem_flatMap.mpr ⟨entry, hmem, by simp⟩, List.mem_flatMap.mpr ⟨entry, hmem, by simp⟩⟩

/-- What is found under a key of a Hash is one of its values. -/
theorem comes_stored? (hplain : e.tracks = false) {table : Table} {key : Value}
    (hw : m.heap.kind w = .hash table) (hhash : (e.hashOf key).Halts m)
    (hparts : ∀ b, m.heap.Contains b w → ∀ h, m.heap.Noted h →
      (e.equals b key).Halts { m with heap := h }) :
    (e.stored? w key).Comes m (fun found? _ => ∀ found, found? = some found → m.heap.Contains found w)
      fun stop => stop ≠ .outOfFuel := by
  have hlt := Heap.lt_size_of_kind hw nofun
  have hlocate : (e.locate w key).Halts m := by
    refine hhash.bind fun hash h hn => ?_
    refine (comes_expectTable ((hn.kind w hlt).trans hw)).bind ?_
    rintro _ h' hn' rfl
    simp only [keep_of_plain hplain]
    refine (halts_positionOf _ fun c hc h'' hn'' => ?_).bind fun _ _ _ => comes_pure trivial
    obtain ⟨entry, hentry, rfl⟩ := List.mem_map.mp hc
    exact hparts _ (contains_of_mem_bucket hw hentry).1 h'' ((hn.trans hn').trans hn'')
  rw [stored?, keep_of_plain hplain]
  refine Comes.bind hlocate fun at? h hn _ => ?_
  obtain ⟨hash, position?⟩ := at?
  cases position? with
  | none => exact comes_pure nofun
  | some position =>
    refine (comes_expectTable ((hn.kind w hlt).trans hw)).bind ?_
    rintro _ h' hn' rfl
    refine comes_pure fun found hfound => ?_
    obtain ⟨entry, hentry, rfl⟩ := Option.map_eq_some_iff.mp hfound
    exact (contains_of_mem_bucket hw (List.mem_of_getElem? hentry)).2

theorem halts_entriesIn (hplain : e.tracks = false) {table : Table}
    {entries : List (Value × Value)} (m : Machine) (hw : m.heap.kind w = .hash table)
    (hhash : ∀ entry ∈ entries, ∀ h, m.heap.Noted h → (e.hashOf entry.1).Halts { m with heap := h })
    (hparts : ∀ entry ∈ entries, ∀ b, m.heap.Contains b w → ∀ h, m.heap.Noted h →
      (e.equals b entry.1).Halts { m with heap := h } ∧
        (e.equals entry.2 b).Halts { m with heap := h }) :
    (Builtin.entriesIn e w entries).Halts m := by
  induction entries generalizing m with
  | nil => exact comes_pure trivial
  | cons entry rest ih =>
    have hlt := Heap.lt_size_of_kind hw nofun
    have hself := List.mem_cons_self (a := entry) (l := rest)
    simp only [Builtin.entriesIn, keep_of_plain hplain]
    refine (comes_stored? hplain hw (hhash entry hself m.heap (.refl _))
      fun b hb h hn => (hparts entry hself b hb h hn).1).bind fun found? h hn hfound => ?_
    cases found? with
    | none => exact comes_pure trivial
    | some found =>
      have hequals := (hparts entry hself found (hfound found rfl) h hn).2
      refine hequals.bind fun equal h' hn' => ?_
      cases equal with
      | false => exact comes_pure trivial
      | true =>
        have hnoted := hn.trans hn'
        refine ih { m with heap := h' } ((hnoted.kind w hlt).trans hw) ?_ ?_
        · exact fun other hother h'' hn'' =>
            hhash other (List.mem_cons_of_mem entry hother) h'' (hnoted.trans hn'')
        · intro other hother b hb h'' hn''
          rw [Heap.Contains, hnoted.kind w hlt] at hb
          exact hparts other (List.mem_cons_of_mem entry hother) b hb h'' (hnoted.trans hn'')

/-- Two sequences of one kind are compared by their lengths first, then element by element. -/
theorem equalSequences_of_items (hplain : e.tracks = false) {left right : List Value}
    (htag : m.heap.tag v = m.heap.tag w)
    (hv : m.heap.kind v = .tuple left ∨ m.heap.kind v = .array left)
    (hw : m.heap.kind w = .tuple right ∨ m.heap.kind w = .array right) :
    Builtin.equalSequences e v w m =
      (if left.length = right.length then Builtin.allEqual e left right else return false) m := by
  have hleft : ∀ f : List Value → Run Bool, (Builtin.expectItems v >>= f) m = f left m := by
    intro f
    rw [Builtin.expectItems, bind_assoc, kindOf_bind]
    obtain hv | hv := hv <;> rw [hv] <;> rfl
  have hright : ∀ f : List Value → Run Bool, (Builtin.expectItems w >>= f) m = f right m := by
    intro f
    rw [Builtin.expectItems, bind_assoc, kindOf_bind]
    obtain hw | hw := hw <;> rw [hw] <;> rfl
  simp only [Builtin.equalSequences, keep_of_plain hplain]
  rw [Builtin.haveSameTag, read_bind, decide_eq_true htag, if_pos rfl, hleft, hright]

theorem equalSequences_of_ne (htag : m.heap.tag v ≠ m.heap.tag w) :
    Builtin.equalSequences e v w m = .ok false m := by
  rw [Builtin.equalSequences, Builtin.haveSameTag, read_bind, decide_eq_false htag]
  rfl

theorem halts_equalSequences (hplain : e.tracks = false)
    (hv : m.heap.tag v = .tuple ∨ m.heap.tag v = .array)
    (hparts : Compared e m v w) : (Builtin.equalSequences e v w).Halts m := by
  have hitems : ∀ u, m.heap.tag u = .tuple ∨ m.heap.tag u = .array →
      m.heap.kind u = .tuple (m.heap.kind u).elements ∨
        m.heap.kind u = .array (m.heap.kind u).elements := by
    intro u hu
    rw [Heap.tag] at hu
    cases hkind : m.heap.kind u with
    | tuple items => exact .inl rfl
    | array items => exact .inr rfl
    | _ =>
      rw [hkind] at hu
      obtain hu | hu := hu <;> cases hu
  by_cases htag : m.heap.tag v = m.heap.tag w
  · refine Comes.congr ?_
      (equalSequences_of_items hplain htag (hitems v hv) (hitems w (htag ▸ hv)))
    split
    · exact halts_allEqual m fun a ha b hb h hn => (hparts a ha b hb h hn).1
    · exact comes_pure trivial
  · exact Comes.congr (x := pure false) (comes_pure trivial) (equalSequences_of_ne htag)

/-- A hash is compared by way of its entries, and only with another hash. -/
theorem equalHashes_eq (e : Engine) (v w : Value) (m : Machine) :
    Builtin.equalHashes e v w m = (match m.heap.table? w with
      | none => return false
      | some right => do
        let left ← expectTable v
        if left.entries.length = right.size then Builtin.entriesIn e w left.entries
        else return false : Run Bool) m := by
  rewrite [Builtin.equalHashes, read_bind]
  cases m.heap.table? w <;> rfl

theorem halts_equalHashes (hplain : e.tracks = false) {table : Table}
    (hv : m.heap.kind v = .hash table) (hparts : Compared e m v w) (hhashed : Hashed e m v) :
    (Builtin.equalHashes e v w).Halts m := by
  refine Comes.congr ?_ (equalHashes_eq e v w m)
  rw [Heap.table?]
  cases hw : m.heap.kind w with
  | hash right =>
    have hlt := Heap.lt_size_of_kind hw Kind.noConfusion
    have hmem : ∀ entry ∈ table.entries, ∀ u, u = entry.1 ∨ u = entry.2 → m.heap.Contains u v := by
      intro entry hentry u hu
      rw [Heap.Contains, hv]
      exact List.mem_flatMap.mpr ⟨entry, hentry, by simpa using hu⟩
    refine (comes_expectTable hv).bind ?_
    rintro _ h hn rfl
    split
    · refine halts_entriesIn hplain { m with heap := h } ((hn.kind w hlt).trans hw) ?_ ?_
      · exact fun entry hentry h' hn' =>
          hhashed _ (hmem entry hentry _ (.inl rfl)) h' (hn.trans hn')
      · intro entry hentry b hb h' hn'
        rw [Heap.Contains, hn.kind w hlt] at hb
        exact ⟨(hparts _ (hmem entry hentry _ (.inl rfl)) b hb h' (hn.trans hn')).2,
          (hparts _ (hmem entry hentry _ (.inr rfl)) b hb h' (hn.trans hn')).1⟩
    · exact comes_pure trivial
  | _ => exact comes_pure trivial

/-- The answer to a question is a new Bool. -/
theorem halts_question {body : Engine → Value → Value → Run Bool} (hbody : (body e v w).Halts m) :
    (Method.question false body e v [w]).Halts m :=
  Halts.bind hbody fun _ _ _ => halts_newObject _

/-- Two payloads are compared by way of what they contain and the hashes of that. -/
theorem halts_equalsMethod (hplain : e.tracks = false) {method : Method}
    (hdata : (m.heap.tag v).isData = true) (hmethod : (m.heap.tag v).method? .equals = some method)
      (hparts : Compared e m v w)
    (hhashed : Hashed e m v) : (method e v [w]).Halts m := by
  have htag : m.heap.tag v = (m.heap.kind v).tag := rfl
  cases hkind : m.heap.kind v with
  | none | bool | integer | float | string | bytes =>
    rw [htag, hkind] at hmethod
    cases hmethod
    exact halts_question (halts_read _)
  | tuple items =>
    rw [hkind] at htag
    rw [htag] at hmethod
    cases hmethod
    exact halts_question (halts_equalSequences hplain (.inl htag) hparts)
  | array items =>
    rw [hkind] at htag
    rw [htag] at hmethod
    cases hmethod
    exact halts_question (halts_equalSequences hplain (.inr htag) hparts)
  | hash table =>
    rw [htag, hkind] at hmethod
    cases hmethod
    exact halts_question (halts_equalHashes hplain hkind hparts hhashed)
  | _ =>
    rw [htag, hkind] at hdata
    cases hdata

end Engine

theorem TypeTag.supports_equals (tag : TypeTag) :
    tag.supports .equals = true ∧ tag.supports .rightEquals = true := by
  cases tag <;> exact ⟨rfl, rfl⟩

/-- Both operands of an equality compare in the same way. -/
theorem TypeTag.exists_equals (tag : TypeTag) :
    ∃ method, tag.method? .equals = some method ∧ tag.method? .rightEquals = some method := by
  cases tag <;> exact ⟨_, rfl, rfl⟩

namespace Engine

variable {d : Digests} {m : Machine} {v w : Value} {fuel : Nat} {digests : Digests}

/-- An operator comes to what the left operand answers, or the right one if that fails. -/
theorem operation_of_lookup {e : Engine} {operator : BinaryOperator} {f : Value} {h : Heap}
    (hlookup : lookup v operator.forward.name m = .ok (some f) { m with heap := h }) :
    e.operation operator v w m = (do
      match ← attempt (e.call f [w]) with
      | some result => return result
      | none => e.reflectedOperation operator v w) { m with heap := h } := by
  rewrite [operation]
  cases hanswer : (e.call f [w]).attempt { m with heap := h } with
  | ok r _ => cases r <;> simp only [bind, EStateM.bind, hlookup, hanswer]
  | error _ _ => simp only [bind, EStateM.bind, hlookup, hanswer]

theorem comes_operation {e : Engine} {operator : BinaryOperator} {f : Value} {h : Heap}
    {P : Value → Heap → Prop} {E : Stop → Prop} (hn : m.heap.Noted h)
    (hlookup : lookup v operator.forward.name m = .ok (some f) { m with heap := h })
    (hcall : (e.call f [w]).Comes { m with heap := h } P E)
    (hreflected : ∀ h', m.heap.Noted h' → (∃ failure, E (.failed failure)) →
      (e.reflectedOperation operator v w).Comes { m with heap := h' } P E) :
    (e.operation operator v w).Comes m P E := by
  refine Comes.after ?_ hn (operation_of_lookup hlookup)
  refine Comes.bind (hcall.attempt.imp (fun _ _ _ => id) fun _ h => h.2) fun r h' hn' hr => ?_
  cases r with
  | some r => exact comes_pure hr
  | none => exact hreflected h' (hn.trans hn') hr

/-- Comparing two values ends when their elements can be compared, with less fuel. -/
theorem halts_equals_succ (hv : m.heap.Datum v) (hw : m.heap.Datum w)
    (hparts : Compared (withFuel fuel d) m v w) (hhashed : Hashed (withFuel fuel d) m v)
    (hhashed' : Hashed (withFuel fuel d) m w) :
    ((withFuel (fuel + 1) d).equals v w).Halts m := by
  obtain ⟨method, hmethod, -⟩ := TypeTag.exists_equals (m.heap.tag v)
  obtain ⟨method', hforward', hmethod'⟩ := TypeTag.exists_equals (m.heap.tag w)
  obtain ⟨f, h, hn, hlookup, hcall⟩ := exists_call_of_answers d fuel [w] (hv.answers .equals) hv.lt
    (TypeTag.supports_equals _).1 hmethod rfl
  have hasked : ((withFuel (fuel + 1) d).call f [w]).Halts { m with heap := h } := by
    refine Comes.congr ?_ hcall
    have hkind : h.tag v = m.heap.tag v := congrArg Kind.tag (hn.kind v hv.lt)
    exact halts_equalsMethod (tracks_withFuel fuel d) (hv.noted hn).data (hkind ▸ hmethod)
      (hparts.noted hv.lt hw.lt hn) (hhashed.noted hv.lt hn)
  have hreflected : ∀ h', m.heap.Noted h' →
      ((withFuel (fuel + 1) d).reflectedOperation .equals v w).Halts { m with heap := h' } := by
    intro h' hn'
    have hkind : h'.tag w = m.heap.tag w := congrArg Kind.tag (hn'.kind w hw.lt)
    refine comes_callSymbol d fuel ((hw.noted hn').answers _) (hw.noted hn').lt
      (TypeTag.supports_equals _).2
      (hkind ▸ hmethod') rfl fun h'' hn'' => ?_
    have hnoted := hn'.trans hn''
    have hkind' : h''.tag w = m.heap.tag w := congrArg Kind.tag (hnoted.kind w hw.lt)
    exact halts_equalsMethod (m := { m with heap := h'' }) (tracks_withFuel fuel d)
      (hw.noted hnoted).data
      (hkind' ▸ hforward') (hparts.symm.noted hw.lt hv.lt hnoted) (hhashed'.noted hw.lt hnoted)
  have hoperation : ((withFuel (fuel + 1) d).operation .equals v w).Halts m :=
    comes_operation hn hlookup hasked fun h' hn' _ => hreflected h' hn'
  exact hoperation.bind fun r _ _ => halts_expectBool r

/-- Two values in which nothing contains itself can be compared, in either order, with enough
fuel. -/
theorem exists_halts_equals (d : Digests) {h : Heap} (hv : h.MadeOfData v) (hw : h.MadeOfData w)
    (hacc : Acc h.Contains v) (hacc' : Acc h.Contains w) :
    ∃ needed, ∀ fuel, needed ≤ fuel → ∀ m : Machine, h.Noted m.heap →
      ((withFuel fuel d).equals v w).Halts m ∧ ((withFuel fuel d).equals w v).Halts m := by
  induction hacc generalizing w with
  | intro v hsub ih =>
    obtain ⟨paired, hpaired⟩ := exists_bound (l := (h.kind v).elements) fun a ha =>
      exists_bound (l := (h.kind w).elements) fun b hb =>
        ih a ha (hv.element ha) (hw.element hb) (hacc'.inv hb)
    obtain ⟨left, hleft⟩ := exists_bound (l := (h.kind v).elements) fun a ha =>
      exists_halts_hashOf d (hv.element ha) (hsub a ha)
    obtain ⟨right, hright⟩ := exists_bound (l := (h.kind w).elements) fun b hb =>
      exists_halts_hashOf d (hw.element hb) (hacc'.inv hb)
    refine ⟨max paired (max left right) + 1, fun fuel hfuel m hn => ?_⟩
    obtain ⟨fuel, rfl⟩ : ∃ n, fuel = n + 1 := ⟨fuel - 1, by omega⟩
    have hkind := hn.kind v hv.datum.lt
    have hkind' := hn.kind w hw.datum.lt
    have hparts : Compared (withFuel fuel d) m v w := by
      intro a ha b hb h' hn'
      rw [Heap.Contains, hkind] at ha
      rw [Heap.Contains, hkind'] at hb
      exact hpaired fuel (by omega) a ha b hb { m with heap := h' } (hn.trans hn')
    have hhashed : Hashed (withFuel fuel d) m v := by
      intro a ha h' hn'
      rw [Heap.Contains, hkind] at ha
      exact hleft fuel (by omega) a ha { m with heap := h' } (hn.trans hn')
    have hhashed' : Hashed (withFuel fuel d) m w := by
      intro b hb h' hn'
      rw [Heap.Contains, hkind'] at hb
      exact hright fuel (by omega) b hb { m with heap := h' } (hn.trans hn')
    have hdatum := hv.datum.noted hn
    have hdatum' := hw.datum.noted hn
    exact ⟨halts_equals_succ hdatum hdatum' hparts hhashed hhashed',
      halts_equals_succ hdatum' hdatum hparts.symm hhashed' hhashed⟩

/-! ## What has no end -/

/-- Two arrays are alike and never get to a difference: they are of one length, and the same holds
of their first elements. -/
structure Endless (h : Heap) (R : Value → Value → Prop) : Prop where
  datum : ∀ v w, R v w → h.Datum v
  step : ∀ v w, R v w → ∃ a as b bs, h.kind v = .array (a :: as) ∧ h.kind w = .array (b :: bs) ∧
    as.length = bs.length ∧ R a b

/-- Comparing such arrays uses up whatever fuel there is. -/
theorem comes_equals_endless (d : Digests) (fuel : Nat) {h : Heap} {R : Value → Value → Prop}
    (hR : Endless h R) (hvw : R v w) (hn : h.Noted m.heap) :
    ((withFuel fuel d).equals v w).Comes m (fun _ _ => False) fun stop => stop = .outOfFuel := by
  have hdatum := (hR.datum v w hvw).noted hn
  have hnever : ∀ {P : Prop}, (∃ failure : Failure, Stop.failed failure = .outOfFuel) → P :=
    fun ⟨_, hfailure⟩ => nomatch hfailure
  suffices hoperation : ((withFuel fuel d).operation .equals v w).Comes m (fun _ _ => False)
      fun stop => stop = .outOfFuel by
    rw [equals, keep_withFuel]
    exact hoperation.bind fun _ _ _ hfalse => hfalse.elim
  induction fuel generalizing v w m with
  | zero =>
    obtain ⟨f, h', hn', hlookup, -⟩ :=
      lookup_of_answers (hdatum.answers .equals) (TypeTag.supports_equals _).1
    exact comes_operation hn' hlookup (comes_giveUp rfl) fun _ _ hfailure => hnever hfailure
  | succ fuel ih =>
    obtain ⟨a, as, b, bs, hv, hw, hlength, hab⟩ := hR.step v w hvw
    have hkind := (hn.kind v (Heap.lt_size_of_kind hv nofun)).trans hv
    have hkind' := (hn.kind w (Heap.lt_size_of_kind hw nofun)).trans hw
    have hmethod : (m.heap.tag v).method? .equals =
        some (.question false Builtin.equalSequences) := by
      rw [Heap.tag, hkind]
      rfl
    obtain ⟨f, h', hn', hlookup, hcall⟩ := exists_call_of_answers d fuel [w]
      (hdatum.answers .equals) hdatum.lt (TypeTag.supports_equals _).1 hmethod rfl
    refine comes_operation hn' hlookup (Comes.congr ?_ hcall) fun _ _ hfailure => hnever hfailure
    have hfirst : ((withFuel fuel d).equals a b).Comes { m with heap := h' } (fun _ _ => False)
        fun stop => stop = .outOfFuel := by
      have hn'' : h.Noted h' := hn.trans hn'
      rw [equals, keep_withFuel]
      exact (ih hab hn'' ((hR.datum a b hab).noted hn'')).bind fun _ _ _ hfalse => hfalse.elim
    have hitems : Builtin.equalSequences (withFuel fuel d) v w { m with heap := h' } =
        Builtin.allEqual (withFuel fuel d) (a :: as) (b :: bs) { m with heap := h' } := by
      have hleft := (hn'.kind v (Heap.lt_size_of_kind hkind nofun)).trans hkind
      have hright := (hn'.kind w (Heap.lt_size_of_kind hkind' nofun)).trans hkind'
      refine (equalSequences_of_items (tracks_withFuel fuel d) ?_ (.inr hleft) (.inr hright)).trans ?_
      · rw [Heap.tag, Heap.tag, hleft, hright]
        rfl
      · rw [if_pos (by rw [List.length_cons, List.length_cons, hlength])]
    have hbody : (Builtin.equalSequences (withFuel fuel d) v w).Comes { m with heap := h' }
        (fun _ _ => False) fun stop => stop = .outOfFuel := by
      refine Comes.congr ?_ hitems
      rw [Builtin.allEqual]
      exact hfirst.bind fun _ _ _ hfalse => hfalse.elim
    exact hbody.bind fun _ _ _ hfalse => hfalse.elim

/-- **What comes to an end.** For values made of data, showing one and asking it for its text come to
an end exactly if nothing in it contains itself; otherwise there is no text to show, and asking for
one uses up whatever fuel there is. Comparing two values in which nothing contains itself comes to an
answer or a failure. -/
theorem printing_and_comparing (d : Digests) (hv : m.heap.MadeOfData v) :
    ((m.heap.display? v).isSome = true ↔ m.heap.Acyclic v) ∧
    (m.heap.Acyclic v → ∃ text needed, ∀ fuel, needed ≤ fuel → ∃ h, m.heap.Noted h ∧
      (withFuel fuel d).stringify v m = .ok text { m with heap := h }) ∧
    (¬m.heap.Acyclic v → ∀ fuel, ∃ h, m.heap.Noted h ∧
      (withFuel fuel d).stringify v m = .error .outOfFuel { m with heap := h }) ∧
    ∀ w, m.heap.MadeOfData w → m.heap.Acyclic v → m.heap.Acyclic w →
      ∃ needed, ∀ fuel, needed ≤ fuel → ((withFuel fuel d).equals v w).Halts m := by
  refine ⟨Heap.isSome_display?_iff, ?_, ?_, ?_⟩
  · intro hacyclic
    by_cases hstring : m.heap.tag v = .string
    · obtain ⟨text, hkind⟩ := Heap.exists_string hstring
      exact ⟨text, 0, fun fuel _ => ⟨m.heap, .refl _, stringify_string hkind⟩⟩
    · obtain ⟨asked, _, htexts⟩ := Heap.exists_texts (d := d) hv hacyclic
      exact ⟨asked, exists_stringify htexts hstring⟩
  · intro hcyclic fuel
    obtain ⟨h, hn, ⟨_, hacc, -⟩ | ⟨_, rfl, hrun⟩⟩ := comes_stringify_acc d fuel hv (.refl _)
    · exact absurd (Heap.acyclic_of_acc hacc) hcyclic
    · exact ⟨h, hn, hrun⟩
  · intro w hw hacyclic hacyclic'
    obtain ⟨needed, hneeded⟩ := exists_halts_equals d hv hw (Heap.acyclic_iff_acc.mp hacyclic)
      (Heap.acyclic_iff_acc.mp hacyclic')
    exact ⟨needed, fun fuel hfuel => (hneeded fuel hfuel m (.refl _)).1⟩

/-- An empty array in an array, and that compared with itself. -/
theorem printing_and_comparing_empty :
    let m : Machine := { (default : Machine) with
      heap := ⟨#[⟨.array [], .empty, 0⟩, ⟨.array [⟨0⟩], .empty, 0⟩]⟩ }
    (m.heap.MadeOfData ⟨1⟩ ∧ m.heap.Acyclic ⟨1⟩) ∧
      ∃ needed, ∀ fuel, needed ≤ fuel → ((withFuel fuel .standard).equals ⟨1⟩ ⟨1⟩).Halts m := by
  intro m
  have hdata : m.heap.MadeOfData ⟨1⟩ := by
    refine Heap.madeOfData_of_forall ?_ ?_ (by decide)
    · rintro ⟨_ | _ | a⟩ ha
      · exact ⟨by decide, rfl, fun _ => .inl rfl⟩
      · exact ⟨by decide, rfl, fun _ => .inl rfl⟩
      · exact absurd ha (Nat.not_lt.mpr (Nat.le_add_left 2 a))
    · rintro ⟨_ | _ | a⟩ w hw
      · cases hw
      · rw [List.mem_singleton.mp hw]
        decide
      · exact absurd hw.lt (Nat.not_lt.mpr (Nat.le_add_left 2 a))
  obtain ⟨hshown, -, -, hequals⟩ := printing_and_comparing .standard hdata
  have hacyclic : m.heap.Acyclic ⟨1⟩ := hshown.mp (by decide +kernel)
  exact ⟨⟨hdata, hacyclic⟩, hequals ⟨1⟩ hdata hacyclic hacyclic⟩

/-- An array that holds itself: there is no text of it to show, and asking it for its text and
comparing it with itself use up whatever fuel there is. -/
theorem endless_array :
    let m : Machine := { (default : Machine) with heap := ⟨#[⟨.array [⟨0⟩], .empty, 0⟩]⟩ }
    m.heap.MadeOfData ⟨0⟩ ∧ m.heap.display? ⟨0⟩ = none ∧ ∀ fuel,
      (∃ h, (withFuel fuel .standard).stringify ⟨0⟩ m = .error .outOfFuel { m with heap := h }) ∧
        ∃ h, (withFuel fuel .standard).equals ⟨0⟩ ⟨0⟩ m = .error .outOfFuel { m with heap := h } := by
  intro m
  have hself : m.heap.Contains ⟨0⟩ ⟨0⟩ := List.mem_singleton_self _
  have hdatum : m.heap.Datum ⟨0⟩ := ⟨by decide, rfl, fun _ => .inl rfl⟩
  have hdata : m.heap.MadeOfData ⟨0⟩ := by
    refine Heap.madeOfData_of_forall ?_ ?_ (by decide)
    · rintro ⟨_ | a⟩ ha
      · exact hdatum
      · exact absurd ha (Nat.not_lt.mpr (Nat.le_add_left 1 a))
    · rintro ⟨_ | a⟩ w hw
      · rw [List.mem_singleton.mp hw]
        decide
      · exact absurd hw.lt (Nat.not_lt.mpr (Nat.le_add_left 1 a))
  have hcyclic : ¬m.heap.Acyclic ⟨0⟩ := fun hacyclic => hacyclic ⟨0⟩ .refl (.single hself)
  have hendless : Endless m.heap fun v w => v = ⟨0⟩ ∧ w = ⟨0⟩ := by
    refine ⟨?_, ?_⟩
    · rintro _ _ ⟨rfl, rfl⟩
      exact hdatum
    · rintro _ _ ⟨rfl, rfl⟩
      exact ⟨⟨0⟩, [], ⟨0⟩, [], rfl, rfl, rfl, rfl, rfl⟩
  refine ⟨hdata, Heap.textWithin_of_not_acyclic hcyclic _ _, fun fuel => ⟨?_, ?_⟩⟩
  · obtain ⟨h, -, ⟨_, hacc, -⟩ | ⟨_, rfl, hrun⟩⟩ :=
      comes_stringify_acc .standard fuel hdata (.refl _)
    · exact absurd (Heap.acyclic_of_acc hacc) hcyclic
    · exact ⟨h, hrun⟩
  · obtain ⟨h, -, ⟨_, hfalse, -⟩ | ⟨_, rfl, hrun⟩⟩ :=
      comes_equals_endless .standard fuel hendless ⟨rfl, rfl⟩ (.refl _)
    · exact hfalse.elim
    · exact ⟨h, hrun⟩

end Engine
end ScriptVM
