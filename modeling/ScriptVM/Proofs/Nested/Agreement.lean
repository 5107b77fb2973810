import ScriptVM.Proofs.Nested.Text

/-!
# The two texts of a value

A value has a text that the machine makes by itself, and it is asked for its text by `ToString`. The
two are made separately, and both go down into what the value contains. They come to an end for the
same values, those in which nothing contains itself, and they are the same text unless there are
Bytes inside: asked for their text, Bytes are decoded, and the machine shows them as a literal.

## Main results

* `Engine.stringify_data` — for data, which texts there are and when they are the same.
-/
namespace ScriptVM

open Run Relation

theorem exists_bound {α : Type} {l : List α} {p : α → Nat → Prop}
    (h : ∀ a ∈ l, ∃ needed, ∀ n, needed ≤ n → p a n) :
    ∃ needed, ∀ n, needed ≤ n → ∀ a ∈ l, p a n := by
  induction l with
  | nil => exact ⟨0, fun _ _ a ha => absurd ha List.not_mem_nil⟩
  | cons a l ih =>
    obtain ⟨first, hfirst⟩ := h a List.mem_cons_self
    obtain ⟨rest, hrest⟩ := ih fun b hb => h b (List.mem_cons_of_mem a hb)
    refine ⟨max first rest, fun n hn b hb => ?_⟩
    obtain rfl | hb := List.mem_cons.mp hb
    · exact hfirst n (by omega)
    · exact hrest n (by omega) b hb

/-- The text that the machine shows for a value inside a container, the one that the value is asked
for, and how they compare. -/
structure Heap.Texts (h : Heap) (d : Digests) (v : Value) (asked shown : String) : Prop where
  asks : ∃ needed, ∀ fuel, needed ≤ fuel → ∀ m : Machine, h.Noted m.heap →
    (Builtin.elementText (Engine.withFuel fuel d) v).Comes m (fun t _ => t = asked) fun _ => False
  shows : h.repr? v = some shown
  same : (∀ w, ReflTransGen h.Contains w v → h.tag w ≠ .bytes) → asked = shown
  longer : (∃ w, ReflTransGen h.Contains w v ∧ h.tag w = .bytes) → asked.length < shown.length

namespace Heap

variable {h : Heap} {d : Digests} {v w : Value}

theorem exists_string (hv : h.tag v = .string) : ∃ text, h.kind v = .string text := by
  rw [tag] at hv
  cases hkind : h.kind v with
  | string text => exact ⟨text, rfl⟩
  | _ =>
    rw [hkind] at hv
    cases hv

/-- What contains nothing has only itself in it. -/
theorem eq_of_contains_nothing (hv : (h.kind v).elements = []) (hw : ReflTransGen h.Contains w v) :
    w = v := by
  cases hw with
  | refl => rfl
  | tail _ hstep =>
    rw [Contains, hv] at hstep
    cases hstep

theorem acc_of_contains_nothing (hv : (h.kind v).elements = []) : Acc h.Contains v := by
  refine Acc.intro v fun w hw => ?_
  rw [Contains, hv] at hw
  cases hw

/-- The texts of a String. -/
theorem texts_string {text : String} (hkind : h.kind v = .string text) :
    h.Texts d v (Text.quote text) (Text.quote text) where
  asks := by
    have hlt : v.address < h.objects.size := lt_size_of_kind hkind nofun
    refine ⟨0, fun fuel _ m hn => Engine.comes_elementText_string ?_⟩
    exact (hn.kind v hlt).trans hkind
  shows := by
    rw [repr?, nestingBound, textWithin, hkind]
    rfl
  same _ := rfl
  longer := by
    rintro ⟨w, hw, hbytes⟩
    obtain rfl := eq_of_contains_nothing (by rw [hkind]; rfl) hw
    rw [tag, hkind] at hbytes
    cases hbytes

/-- The texts of Bytes. -/
theorem texts_bytes {content : List UInt8} (hv : h.Datum v) (hkind : h.kind v = .bytes content) :
    h.Texts d v (Text.decodeUtf8Lossy content) (Text.formatBytes content) where
  asks := by
    refine ⟨1, fun fuel hfuel m hn => ?_⟩
    obtain ⟨fuel, rfl⟩ : ∃ n, fuel = n + 1 := ⟨fuel - 1, by omega⟩
    have hk : m.heap.kind v = .bytes content := (hn.kind v hv.lt).trans hkind
    refine Engine.comes_elementText (by rw [tag, hk]; nofun) ?_
    exact Engine.comes_stringify_bytes ((hv.noted hn).answers _) hk
  shows := by rw [repr?, nestingBound, textWithin, hkind]
  same hbytes := absurd (by rw [tag, hkind]; rfl) (hbytes v .refl)
  longer _ := length_decodeUtf8Lossy_lt content

theorem contains_nothing_of_isWord (hword : (h.tag v).isWord = true) :
    (h.kind v).elements = [] := by
  rw [tag] at hword
  cases hk : h.kind v with
  | none | bool | integer | float => rfl
  | _ => exact absurd hword (by rw [hk]; nofun)

/-- The text of `None`, a Bool or a number. -/
theorem texts_word (hv : h.Datum v) (hword : (h.tag v).isWord = true) :
    ∃ text, h.Texts d v text text := by
  have helements := contains_nothing_of_isWord hword
  have hacyclic := acyclic_of_acc (acc_of_contains_nothing helements)
  obtain ⟨text, htext⟩ :=
    Option.isSome_iff_exists.mp (hacyclic.isSome_within_nestingBound true)
  refine ⟨text, ⟨1, fun fuel hfuel m hn => ?_⟩, htext, fun _ => rfl, ?_⟩
  · obtain ⟨fuel, rfl⟩ : ∃ n, fuel = n + 1 := ⟨fuel - 1, by omega⟩
    have htag : m.heap.tag v = h.tag v := congrArg Kind.tag (hn.kind v hv.lt)
    have hsame : m.heap.repr? v = h.repr? v :=
      Engine.textWithin_word (hn.kind v hv.lt) hword _ _ _ _
    have hstring : m.heap.tag v ≠ .string := by
      rw [htag]
      intro hstring
      rw [hstring] at hword
      cases hword
    refine Engine.comes_elementText hstring ?_
    refine (Engine.comes_stringify_word ((hv.noted hn).answers _) (hv.noted hn).lt
      (htag ▸ hword)).imp ?_ fun _ => id
    intro t _ _ ht
    exact Option.some.inj (ht.symm.trans (hsame.trans htext))
  · rintro ⟨w, hw, hbytes⟩
    obtain rfl := eq_of_contains_nothing helements hw
    rw [hbytes] at hword
    cases hword

theorem exists_join? {kind : Kind} (hcontainer : kind.tag.isContainer = true)
    (part : Value → String) : ∃ text, kind.join? part = some text := by
  cases kind with
  | tuple | array | hash => exact ⟨_, rfl⟩
  | _ => cases hcontainer

/-- The texts of a container, from those of its elements. -/
theorem texts_container (hv : h.Datum v) (hacyclic : h.Acyclic v)
    (hcontainer : (h.tag v).isContainer = true)
    (helements : ∀ w, h.Contains w v → ∃ asked shown, h.Texts d w asked shown) :
    ∃ asked shown, h.Texts d v asked shown := by
  have hchoice : ∀ w, ∃ texts : String × String, h.Contains w v → h.Texts d w texts.1 texts.2 := by
    intro w
    by_cases hw : h.Contains w v
    · obtain ⟨asked, shown, htexts⟩ := helements w hw
      exact ⟨(asked, shown), fun _ => htexts⟩
    · exact ⟨("", ""), fun hw' => absurd hw' hw⟩
  choose texts htexts using hchoice
  obtain ⟨asked, hasked⟩ := exists_join? hcontainer fun w => (texts w).1
  obtain ⟨shown, hshown⟩ := exists_join? hcontainer fun w => (texts w).2
  refine ⟨asked, shown, ?_, ?_, ?_, ?_⟩
  · obtain ⟨needed, hneeded⟩ := exists_bound fun w hw => (htexts w hw).asks
    refine ⟨needed + 1, fun fuel hfuel m hn => ?_⟩
    obtain ⟨fuel, rfl⟩ : ∃ n, fuel = n + 1 := ⟨fuel - 1, by omega⟩
    have hkind : m.heap.kind v = h.kind v := hn.kind v hv.lt
    have hcontainer' : (m.heap.tag v).isContainer = true := by
      rw [tag, hkind]
      exact hcontainer
    have hstring : m.heap.tag v ≠ .string := by
      intro hstring
      rw [hstring] at hcontainer'
      cases hcontainer'
    refine Engine.comes_elementText hstring ?_
    refine (Engine.comes_stringify_container (R := fun w t => t = (texts w).1) (hv.noted hn)
      hcontainer' fun w hw h' hn' => ?_).imp ?_ fun _ => id
    · rw [Contains, hkind] at hw
      exact hneeded fuel (by omega) w hw { m with heap := h' } (hn.trans hn')
    · intro t _ _ hjoins
      have htext := hjoins.2 (fun w => (texts w).1) fun w _ t ht => ht
      rw [hkind, hasked] at htext
      exact (Option.some.inj htext).symm
  · exact hacyclic.textWithin_eq_join? (fun w hw => (htexts w hw).shows) hshown true
  · intro hfree
    have heach : ∀ w ∈ (h.kind v).elements, (texts w).1 = (texts w).2 := fun w hw =>
      (htexts w hw).same fun u hu => hfree u (hu.tail hw)
    rw [Kind.join?_congr heach, hshown] at hasked
    exact (Option.some.inj hasked).symm
  · rintro ⟨u, hu, hbytes⟩
    refine Kind.length_join?_lt hasked hshown (fun w hw => ?_) ?_
    · by_cases hw' : ∃ u, ReflTransGen h.Contains u w ∧ h.tag u = .bytes
      · exact Nat.le_of_lt ((htexts w hw).longer hw')
      · rw [(htexts w hw).same fun u hu htag => hw' ⟨u, hu, htag⟩]
    · cases hu with
      | refl =>
        rw [hbytes] at hcontainer
        cases hcontainer
      | @tail w _ hu hw => exact ⟨w, hw, (htexts w hw).longer ⟨u, hu, hbytes⟩⟩

/-- Data in which nothing contains itself has both texts. -/
theorem exists_texts (hv : h.MadeOfData v) (hacyclic : h.Acyclic v) :
    ∃ asked shown, h.Texts d v asked shown := by
  induction acyclic_iff_acc.mp hacyclic with
  | intro v _ ih =>
    have hdatum := hv.datum
    cases hkind : h.kind v with
    | string text => exact ⟨_, _, texts_string hkind⟩
    | bytes content => exact ⟨_, _, texts_bytes hdatum hkind⟩
    | none | bool | integer | float =>
      obtain ⟨text, htexts⟩ := texts_word (d := d) hdatum (by rw [tag, hkind]; rfl)
      exact ⟨text, text, htexts⟩
    | tuple | array | hash =>
      refine texts_container hdatum hacyclic (by rw [tag, hkind]; rfl) fun w hw => ?_
      exact ih w hw (hv.element hw) (hacyclic.element hw)
    | _ =>
      have hdata := hdatum.data
      rw [tag, hkind] at hdata
      cases hdata

end Heap

namespace Engine

variable {m : Machine} {v : Value} {digests : Digests}

theorem stringify_string {e : Engine} {text : String} (hkind : m.heap.kind v = .string text) :
    e.stringify v m = .ok text m := by
  rw [stringify, kindOf_bind, hkind]
  rfl

/-- Asked outside a container, what is no String comes to the same text as inside. -/
theorem exists_stringify {d : Digests} {asked shown : String}
    (htexts : m.heap.Texts d v asked shown) (hstring : m.heap.tag v ≠ .string) :
    ∃ needed, ∀ fuel, needed ≤ fuel → ∃ h, m.heap.Noted h ∧
      (withFuel fuel d).stringify v m = .ok asked { m with heap := h } := by
  obtain ⟨needed, hneeded⟩ := htexts.asks
  refine ⟨needed, fun fuel hfuel => ?_⟩
  obtain ⟨h, hn, ⟨text, rfl, hrun⟩ | ⟨stop, hfalse, -⟩⟩ := hneeded fuel hfuel m (.refl _)
  · exact ⟨h, hn, (elementText_eq_stringify hstring).symm.trans hrun⟩
  · exact hfalse.elim

/-- Only a String has another text inside a container than outside. -/
theorem textWithin_unquoted {h : Heap} (hv : h.tag v ≠ .string) (depth : Nat) :
    h.textWithin depth false v = h.textWithin depth true v := by
  cases depth with
  | zero => rfl
  | succ depth =>
    rw [Heap.textWithin, Heap.textWithin]
    cases hkind : h.kind v with
    | string text => exact absurd (congrArg Kind.tag hkind) hv
    | bool b => cases b <;> rfl
    | _ => rfl

/-- **The two texts of data.** Data in which nothing contains itself has a text that the machine
shows, and with enough fuel it comes to a text when it is asked for one. The two are the same text
exactly if there are no Bytes in it, at any depth. -/
theorem stringify_data (d : Digests) (hv : m.heap.MadeOfData v) (hacyclic : m.heap.Acyclic v) :
    ∃ shown asked needed, m.heap.display? v = some shown ∧
      (∀ fuel, needed ≤ fuel → ∃ h, m.heap.Noted h ∧
        (withFuel fuel d).stringify v m = .ok asked { m with heap := h }) ∧
      (asked = shown ↔ ∀ w, ReflTransGen m.heap.Contains w v → m.heap.tag w ≠ .bytes) := by
  by_cases hstring : m.heap.tag v = .string
  · obtain ⟨text, hkind⟩ := Heap.exists_string hstring
    refine ⟨text, text, 0, ?_, ?_, ?_⟩
    · rw [Heap.display?, Heap.nestingBound, Heap.textWithin, hkind]
      rfl
    · exact fun fuel _ => ⟨m.heap, .refl _, stringify_string hkind⟩
    · refine iff_of_true rfl fun w hw => ?_
      obtain rfl := Heap.eq_of_contains_nothing (by rw [hkind]; rfl) hw
      rw [hstring]
      exact TypeTag.noConfusion
  · obtain ⟨asked, shown, htexts⟩ := Heap.exists_texts (d := d) hv hacyclic
    obtain ⟨needed, hneeded⟩ := exists_stringify htexts hstring
    refine ⟨shown, asked, needed, ?_, hneeded, ?_⟩
    · rw [Heap.display?, textWithin_unquoted hstring]
      exact htexts.shows
    · constructor
      · intro hsame w hw hbytes
        have hlonger := htexts.longer ⟨w, hw, hbytes⟩
        rw [hsame] at hlonger
        exact Nat.lt_irrefl _ hlonger
      · exact htexts.same

/-- The text of an array of Bytes is not the one that it is asked for. -/
theorem stringify_data_bytes :
    let m : Machine := { (default : Machine) with
      heap := ⟨#[⟨.bytes [97], .empty, 0⟩, ⟨.array [⟨0⟩], .empty, 0⟩]⟩ }
    (m.heap.MadeOfData ⟨1⟩ ∧ m.heap.Acyclic ⟨1⟩) ∧
      ∃ asked needed, m.heap.display? ⟨1⟩ = some "[b'a']" ∧ asked ≠ "[b'a']" ∧
        ∀ fuel, needed ≤ fuel → ∃ h, m.heap.Noted h ∧
          (withFuel fuel .standard).stringify ⟨1⟩ m = .ok asked { m with heap := h } := by
  intro m
  have hbytes : m.heap.Contains ⟨0⟩ ⟨1⟩ := List.mem_singleton_self _
  have hdata : m.heap.MadeOfData ⟨1⟩ := by
    refine Heap.madeOfData_of_forall ?_ ?_ (by decide)
    · rintro ⟨_ | _ | a⟩ ha
      · exact ⟨by decide, rfl, fun _ => .inl rfl⟩
      · exact ⟨by decide, rfl, fun _ => .inl rfl⟩
      · exact absurd ha (Nat.not_lt.mpr (Nat.le_add_left 2 a))
    · rintro ⟨_ | _ | a⟩ w hw
      · cases hw
      · rw [List.mem_singleton.mp hw]
        decide
      · exact absurd hw.lt (Nat.not_lt.mpr (Nat.le_add_left 2 a))
  have hshown : m.heap.display? ⟨1⟩ = some "[b'a']" := by decide +kernel
  have hacyclic : m.heap.Acyclic ⟨1⟩ := Heap.isSome_display?_iff.mp (by rw [hshown]; rfl)
  obtain ⟨shown, asked, needed, hshown', hasked, hsame⟩ := stringify_data .standard hdata hacyclic
  obtain rfl : shown = "[b'a']" := Option.some.inj (hshown'.symm.trans hshown)
  refine ⟨⟨hdata, hacyclic⟩, asked, needed, hshown, ?_, hasked⟩
  exact fun heq => hsame.mp heq ⟨0⟩ (.single hbytes) rfl

/-- Asking data for its text comes to one only if nothing in it contains itself, and never fails. -/
theorem comes_stringify_acc (d : Digests) (fuel : Nat) {h : Heap} (hv : h.MadeOfData v)
    (hn : h.Noted m.heap) :
    ((withFuel fuel d).stringify v).Comes m (fun _ _ => Acc h.Contains v)
      fun stop => stop = .outOfFuel := by
  induction fuel generalizing v m with
  | zero =>
    have hkind : m.heap.kind v = h.kind v := hn.kind v hv.datum.lt
    by_cases hstring : m.heap.tag v = .string
    · obtain ⟨text, htext⟩ := Heap.exists_string hstring
      have hacc : Acc h.Contains v :=
        Heap.acc_of_contains_nothing (by rw [← hkind, htext]; rfl)
      exact Comes.congr (x := pure text) (comes_pure hacc) (stringify_string htext)
    · refine Comes.congr ?_ (stringify_eq_callSymbol hstring)
      refine (comes_callSymbol_zero (P := fun _ _ => False) (E := fun stop => stop = .outOfFuel) d []
        (hv.datum.noted hn) (TypeTag.supports_toText _) rfl).bind ?_
      exact fun _ _ _ hfalse => hfalse.elim
  | succ fuel ih =>
    have hdatum := hv.datum.noted hn
    have hk : m.heap.kind v = h.kind v := hn.kind v hv.datum.lt
    cases hkind : m.heap.kind v with
    | string text =>
      have hacc : Acc h.Contains v :=
        Heap.acc_of_contains_nothing (by rw [← hk, hkind]; rfl)
      exact Comes.congr (x := pure text) (comes_pure hacc) (stringify_string hkind)
    | bytes content =>
      have hacc : Acc h.Contains v :=
        Heap.acc_of_contains_nothing (by rw [← hk, hkind]; rfl)
      exact (comes_stringify_bytes (hdatum.answers _) hkind).imp (fun _ _ _ _ => hacc) fun _ => id
    | none | bool | integer | float =>
      have hacc : Acc h.Contains v :=
        Heap.acc_of_contains_nothing (by rw [← hk, hkind]; rfl)
      have hword : (m.heap.tag v).isWord = true := by
        rw [Heap.tag, hkind]
        rfl
      exact (comes_stringify_word (hdatum.answers _) hdatum.lt hword).imp
        (fun _ _ _ _ => hacc) fun _ => id
    | tuple | array | hash =>
      have hcontainer : (m.heap.tag v).isContainer = true := by
        rw [Heap.tag, hkind]
        rfl
      refine (comes_stringify_container (R := fun w _ => Acc h.Contains w) hdatum hcontainer
        fun w hw h' hn' => ?_).imp ?_ fun _ => id
      · rw [Heap.Contains, hk] at hw
        have hbase : h.Noted h' := hn.trans hn'
        by_cases hstring : h'.tag w = .string
        · obtain ⟨text, htext⟩ := Heap.exists_string hstring
          have hw' : h.kind w = .string text :=
            (hbase.kind w (hv.element hw).datum.lt).symm.trans htext
          have hacc : Acc h.Contains w := Heap.acc_of_contains_nothing (by rw [hw']; rfl)
          exact (comes_elementText_string htext).imp (fun _ _ _ _ => hacc) fun _ => False.elim
        · exact comes_elementText hstring (ih (hv.element hw) hbase)
      · intro _ _ _ hjoins
        refine Acc.intro v fun w hw => ?_
        rw [Heap.Contains, ← hk] at hw
        obtain ⟨_, hacc⟩ := hjoins.1 w hw
        exact hacc
    | _ =>
      have hdata := hdatum.data
      rw [Heap.tag, hkind] at hdata
      cases hdata

end Engine
end ScriptVM
