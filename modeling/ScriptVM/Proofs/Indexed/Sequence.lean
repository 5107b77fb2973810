import ScriptVM.Proofs.Indexed.Choice
import ScriptVM.Proofs.Number.Operator

/-!
# Indexing

What `Index` yields on Strings, Bytes, Tuples and Arrays, and what `Assign` does to Arrays, for
every index value. The four types differ in what an item is and how a stretch of items is made into
a value; which items are meant is the same rule for all of them.

## Main results

* `Engine.indexing_and_slicing` — `Index` and `Assign`, for every sequence, every index value and every engine.
-/
namespace ScriptVM

open Run

/-! ## Items of a sequence -/

/-- How many items a payload has that is indexed by position. -/
def Kind.itemCount? : Kind → Option Nat
  | .string text => some text.toList.length
  | .bytes content => some content.length
  | .tuple items | .array items => some items.length
  | _ => Option.none

/-- The items of a payload from a position up to another one, as a payload of the same type. -/
def Kind.part (first last : Nat) : Kind → Kind
  | .string text => .string (String.ofList (text.toList.extract first last))
  | .bytes content => .bytes (content.extract first last)
  | .tuple items => .tuple (items.extract first last)
  | .array items => .array (items.extract first last)
  | other => other

/-- A value is the item at a position of a payload: a character as a String, a byte as an Integer,
an element as itself. -/
def Heap.IsItem (h : Heap) (kind : Kind) (p : Nat) (v : Value) : Prop :=
  match kind with
  | .string text => ∃ c, text.toList[p]? = some c ∧ h.kind v = .string (String.ofList [c])
  | .bytes content => ∃ b, content[p]? = some b ∧ h.kind v = .integer (Int64.ofNat b.toNat)
  | .tuple items | .array items => items[p]? = some v
  | _ => False

/-- A run yields what was selected from a payload, or fails for the reason there is. It may make
objects and note behaviour, and changes nothing else. -/
def Run.Selects (run : Run Value) (m : Machine) (kind : Kind) : Except Cause Selection → Prop
  | .ok (.single p) =>
    ∃ r h, m.heap.Noted h ∧ run m = .ok r { m with heap := h } ∧ h.IsItem kind p r
  | .ok (.stretch first last) =>
    ∃ r h, m.heap.Noted h ∧ run m = .ok r { m with heap := h } ∧ h.kind r = kind.part first last
  | .error cause =>
    ∃ h, m.heap.Noted h ∧ run m = .error (.failed (.of cause)) { m with heap := h }

variable {m : Machine} {n : Nat} {v x : Value} {e : Engine}

/-- A built-in call runs the method of the type. -/
theorem Engine.callBuiltin_of_method {s : Symbol} {args : List Value} {method : Method}
    (hmethod : (m.heap.tag v).method? s = some method) :
    e.callBuiltin v s args m = method e v args m := by
  have hkind : (m.heap.kind v).tag.method? s = some method := hmethod
  rw [callBuiltin, kindOf_bind, hkind]

/-! ## Index -/

section index

theorem pick_stretch {α : Type} (items : List α) (first last : Nat) :
    (Selection.stretch first last).pick items = items.extract first last := by
  rw [Selection.pick, List.drop_take, List.extract_eq_take_drop]

/-- A new object is a value with its payload. -/
theorem Run.selects_newObject {kind part : Kind} {first last : Nat}
    (hpart : part = kind.part first last) :
    (newObject part).Selects m kind (.ok (.stretch first last)) :=
  ⟨_, _, m.heap.noted_alloc part, rfl, (m.heap.kind_alloc part).trans hpart⟩

/-- What a text yields for a selection. -/
theorem selects_text {text : String} {sel : Selection} (hsel : sel.Inside text.toList.length) :
    (Builtin.textOfChars (sel.pick text.toList)).Selects m (.string text) (.ok sel) := by
  cases sel with
  | single p =>
    have hp : p < text.toList.length := hsel
    rw [pick_single hp]
    exact ⟨_, _, m.heap.noted_alloc _, rfl, text.toList[p], List.getElem?_eq_getElem hp,
      m.heap.kind_alloc _⟩
  | stretch first last =>
    rw [pick_stretch]
    exact Run.selects_newObject rfl

/-- What bytes yield for a selection. -/
theorem selects_bytes {content : List UInt8} {sel : Selection} (hsel : sel.Inside content.length) :
    (match sel, sel.pick content with
      | .single _, [b] => Builtin.newByteInteger b
      | _, stretch => newObject (.bytes stretch)).Selects m (.bytes content) (.ok sel) := by
  cases sel with
  | single p =>
    have hp : p < content.length := hsel
    rw [pick_single hp]
    exact ⟨_, _, m.heap.noted_alloc _, rfl, content[p], List.getElem?_eq_getElem hp,
      m.heap.kind_alloc _⟩
  | stretch first last =>
    rw [pick_stretch]
    exact Run.selects_newObject rfl

/-- What a tuple or an array yields for a selection. -/
theorem selects_items {items : List Value} {sel : Selection}
    (hv : m.heap.kind v = .tuple items ∨ m.heap.kind v = .array items) :
    sel.Inside items.length → (match sel, sel.pick items with
      | .single _, [item] => pure item
      | _, stretch => Builtin.newLike v stretch : Run Value).Selects m (m.heap.kind v) (.ok sel) := by
  intro hsel
  cases sel with
  | single p =>
    have hp : p < items.length := hsel
    rw [pick_single hp]
    refine ⟨items[p], m.heap, .refl _, rfl, ?_⟩
    obtain hv | hv := hv <;> rw [hv] <;> exact List.getElem?_eq_getElem hp
  | stretch first last =>
    have hnew : Builtin.newLike v (items.extract first last) m =
        newObject ((m.heap.kind v).part first last) m := by
      rw [Builtin.newLike, kindOf_bind]
      obtain hv | hv := hv <;> rw [hv] <;> rfl
    rw [pick_stretch]
    exact ⟨_, _, m.heap.noted_alloc _, hnew, m.heap.kind_alloc _⟩

/-- A run that reads a selection off its index value does what the value names. -/
theorem Run.selects_of_names {kind : Kind} {f : Selection → Run Value} {o : Except Cause Selection}
    (hx : m.heap.Names n x o)
      (hf : ∀ sel : Selection, sel.Inside n → (f sel).Selects m kind (.ok sel)) :
    (select n x >>= f).Selects m kind o := by
  have hselect := select_of_names hx
  cases o with
  | error cause => exact ⟨m.heap, .refl _, by simp only [bind, EStateM.bind, hselect]⟩
  | ok sel =>
    have hrun : (select n x >>= f) m = f sel m := by simp only [bind, EStateM.bind, hselect]
    have hsel := hf sel hx.inside
    cases sel with
    | single p =>
      obtain ⟨r, h, hn, hr, hitem⟩ := hsel
      exact ⟨r, h, hn, hrun.trans hr, hitem⟩
    | stretch first last =>
      obtain ⟨r, h, hn, hr, hpart⟩ := hsel
      exact ⟨r, h, hn, hrun.trans hr, hpart⟩

/-- A run that reads a selection off its index value refuses a value that names nothing. -/
theorem Run.select_bind_of_unnamed (f : Selection → Run Value) (hx : ∀ o, ¬m.heap.Names n x o) :
    ∃ failure, (select n x >>= f) m = .error (.failed failure) m := by
  obtain ⟨failure, hselect⟩ := select_of_unnamed hx
  exact ⟨failure, by simp only [bind, EStateM.bind, hselect]⟩

/-- Asking for `Index` reads a selection off the index value and yields what is selected. -/
theorem Engine.exists_callBuiltin_index (hv : (m.heap.kind v).itemCount? = some n) (e : Engine) :
    ∃ f : Selection → Run Value,
      (∀ sel : Selection, sel.Inside n → (f sel).Selects m (m.heap.kind v) (.ok sel)) ∧
      ∀ x, e.callBuiltin v .index [x] m = (ScriptVM.select n x >>= f) m := by
  have hmethod : ∀ {kind : Kind} {method : Method}, m.heap.kind v = kind →
      kind.tag.method? .index = some method →
      ∀ x, e.callBuiltin v .index [x] m = method e v [x] m := by
    intro kind method hkind hmethod x
    exact callBuiltin_of_method (by rw [Heap.tag, hkind]; exact hmethod)
  have hitems : ∀ {items : List Value},
      m.heap.kind v = .tuple items ∨ m.heap.kind v = .array items →
      ∀ x, Builtin.indexSequence e v x m = (ScriptVM.select items.length x >>= fun sel =>
        match sel, sel.pick items with
        | .single _, [item] => pure item
        | _, stretch => Builtin.newLike v stretch) m := by
    intro items hkind x
    rw [Builtin.indexSequence, Builtin.expectItems, bind_assoc, kindOf_bind]
    obtain hkind | hkind := hkind <;> rw [hkind] <;> rfl
  cases hkind : m.heap.kind v with
  | string text =>
    rw [hkind] at hv
    cases hv
    refine ⟨_, fun sel hsel => selects_text hsel, fun x => (hmethod hkind rfl x).trans ?_⟩
    show Builtin.indexText e v x m = _
    rw [Builtin.indexText, expectText, bind_assoc, kindOf_bind, hkind]
    rfl
  | bytes content =>
    rw [hkind] at hv
    cases hv
    refine ⟨_, fun sel hsel => selects_bytes hsel, fun x => (hmethod hkind rfl x).trans ?_⟩
    show Builtin.indexBytes e v x m = _
    rw [Builtin.indexBytes, Builtin.expectBytes, bind_assoc, kindOf_bind, hkind]
    rfl
  | tuple items =>
    rw [hkind] at hv
    cases hv
    refine ⟨_, fun sel hsel => ?_, fun x => (hmethod hkind rfl x).trans (hitems (.inl hkind) x)⟩
    rw [← hkind]
    exact selects_items (.inl hkind) hsel
  | array items =>
    rw [hkind] at hv
    cases hv
    refine ⟨_, fun sel hsel => ?_, fun x => (hmethod hkind rfl x).trans (hitems (.inr hkind) x)⟩
    rw [← hkind]
    exact selects_items (.inr hkind) hsel
  | _ =>
    rw [hkind] at hv
    cases hv

end index

/-! ## Assign -/

section assign

variable {items : List Value} {element : Value} {p : Nat}

/-- What `Assign` on an array reads off its index value and does with it. -/
theorem callBuiltin_assign (hv : m.heap.kind v = .array items) (e : Engine) (x element : Value) :
    e.callBuiltin v .assign [x, element] m =
      (select items.length x >>= fun sel =>
        match sel with
        | .single position => do
          modifyHeap fun h => h.setKind v (.array (items.set position element))
          newNone
        | .stretch .. => failType x ["Integer"]) m := by
  have hmethod : (m.heap.tag v).method? .assign = some (.binary Builtin.assignElement) := by
    rw [Heap.tag, hv]
    rfl
  rw [Engine.callBuiltin_of_method hmethod]
  show Builtin.assignElement e v x element m = _
  rewrite [Builtin.assignElement, kindOf_bind, hv]
  rfl

/-- Storing an element touches the array alone. -/
theorem exists_assigned (hlt : v.address < m.heap.objects.size) (kind : Kind) :
    ∃ r h, (do modifyHeap fun h => h.setKind v kind; newNone : Run Value) m =
        .ok r { m with heap := h } ∧
      h.get v = { m.heap.get v with kind := kind } ∧
      ∀ w, w ≠ v → w.address < m.heap.objects.size → h.get w = m.heap.get w := by
  have hlt' : ∀ w : Value, w.address < m.heap.objects.size →
      w.address < (m.heap.setKind v kind).objects.size := by
    intro w hw
    rw [Heap.setKind, Heap.size_modify]
    exact hw
  refine ⟨((m.heap.setKind v kind).alloc .none).1, ((m.heap.setKind v kind).alloc .none).2, rfl,
    ?_, ?_⟩
  · rw [Heap.get_alloc_of_lt _ (hlt' v hlt)]
    exact Heap.get_modify_self _ hlt
  · intro w hne hw
    rw [Heap.get_alloc_of_lt _ (hlt' w hw)]
    exact Heap.get_modify_of_ne _ _ hne

theorem callBuiltin_assign_of_single (hv : m.heap.kind v = .array items)
    (hx : m.heap.Names items.length x (.ok (.single p))) (e : Engine) (element : Value) :
    ∃ r h, e.callBuiltin v .assign [x, element] m = .ok r { m with heap := h } ∧
      h.get v = { m.heap.get v with kind := .array (items.set p element) } ∧
      ∀ w, w ≠ v → w.address < m.heap.objects.size → h.get w = m.heap.get w := by
  obtain ⟨r, h, hrun, hself, hothers⟩ :=
    exists_assigned (Heap.lt_size_of_kind hv nofun) (.array (items.set p element))
  refine ⟨r, h, ?_, hself, hothers⟩
  rw [callBuiltin_assign hv]
  simp only [bind, EStateM.bind, select_of_names hx]
  exact hrun

/-- An index value that names no single item is refused, and nothing has changed. -/
theorem callBuiltin_assign_of_not_single (hv : m.heap.kind v = .array items)
    (hx : ∀ p, ¬m.heap.Names items.length x (.ok (.single p))) (e : Engine) (element : Value) :
    ∃ f, e.callBuiltin v .assign [x, element] m = .error (.failed f) m := by
  rw [callBuiltin_assign hv]
  by_cases hnamed : ∃ o, m.heap.Names items.length x o
  · obtain ⟨o, ho⟩ := hnamed
    have hselect := select_of_names ho
    simp only [bind, EStateM.bind]
    cases o with
    | error cause =>
      rw [hselect]
      exact ⟨_, rfl⟩
    | ok sel =>
      cases sel with
      | single p => exact absurd ho (hx p)
      | stretch first last =>
        rw [hselect]
        exact ⟨_, rfl⟩
  · exact Run.select_bind_of_unnamed _ fun o ho => hnamed ⟨o, ho⟩

/-- `Assign` that fails has changed nothing, whatever it was asked with. -/
theorem callBuiltin_assign_of_error (hv : m.heap.kind v = .array items) {args : List Value}
    {stop : Stop} {m' : Machine} (hrun : e.callBuiltin v .assign args m = .error stop m') : m' = m := by
  by_cases hargs : ∃ x element, args = [x, element]
  · obtain ⟨x, element, rfl⟩ := hargs
    by_cases hx : ∃ p, m.heap.Names items.length x (.ok (.single p))
    · obtain ⟨p, hp⟩ := hx
      obtain ⟨r, h, hok, -, -⟩ := callBuiltin_assign_of_single hv hp e element
      cases hok.symm.trans hrun
    · obtain ⟨f, herror⟩ :=
        callBuiltin_assign_of_not_single hv (fun p hp => hx ⟨p, hp⟩) e element
      cases herror.symm.trans hrun
      rfl
  · have hmethod : (m.heap.tag v).method? .assign = some (.binary Builtin.assignElement) := by
      rw [Heap.tag, hv]
      rfl
    rw [Engine.callBuiltin_of_method hmethod] at hrun
    rcases args with _ | ⟨x, _ | ⟨element, _ | ⟨next, rest⟩⟩⟩
    case cons.cons.nil => exact absurd ⟨x, element, rfl⟩ hargs
    all_goals
      cases hrun
      rfl

end assign

/-! ## Sequences of a machine -/

/-- A way to ask a value of so many items for `Index`: what the index value names is what comes of
it, and an index value that names nothing is refused. -/
structure Machine.Indexes (m : Machine) (v : Value) (n : Nat) (index : Value → Run Value) :
    Prop where
  named : ∀ x o, m.heap.Names n x o → (index x).Selects m (m.heap.kind v) o
  unnamed : ∀ x, (∀ o, ¬m.heap.Names n x o) → ∃ f, index x m = .error (.failed f) m

/-- A way to ask an array for `Assign`, next to a way to ask it for `Index`: the item that an
Integer names becomes the new one, and `Index` then finds the new item there and the old ones
everywhere else. Anything else is refused, and nothing has changed then. -/
structure Machine.Assigns (m : Machine) (v : Value) (items : List Value)
    (assign : List Value → Run Value) (index : Value → Run Value) : Prop where
  named : ∀ x p element, m.heap.Names items.length x (.ok (.single p)) →
    ∃ r h, assign [x, element] m = .ok r { m with heap := h } ∧
      h.get v = { m.heap.get v with kind := .array (items.set p element) } ∧
      (∀ w, w ≠ v → w.address < m.heap.objects.size → h.get w = m.heap.get w) ∧
      ∀ y q, m.heap.Names items.length y (.ok (.single q)) →
        ∃ found h', index y { m with heap := h } = .ok found { m with heap := h' } ∧
          some found = if q = p then some element else items[q]?
  refused : ∀ x element, (∀ p, ¬m.heap.Names items.length x (.ok (.single p))) →
    ∃ f, assign [x, element] m = .error (.failed f) m
  unchanged : ∀ args stop m', assign args m = .error stop m' → m' = m

/-- What is named stays so while the objects keep their payloads. -/
theorem Heap.Names.of_kinds {h h' : Heap} {o : Except Cause Selection} (hx : h.Names n x o)
    (hkind : ∀ w, w.address < h.objects.size → h'.kind w = h.kind w) : h'.Names n x o := by
  have hint : ∀ {w : Value} {i : Int64}, h.kind w = .integer i → h'.kind w = .integer i :=
    fun hw => (hkind _ (Heap.lt_size_of_kind hw nofun)).trans hw
  have hpair : ∀ {s e : Int64}, h.IsPair x s e → h'.IsPair x s e := by
    rintro s e ⟨low, high, hx, hlow, hhigh⟩
    refine ⟨low, high, ?_, hint hlow, hint hhigh⟩
    obtain hx | hx := hx
    · exact .inl ((hkind x (Heap.lt_size_of_kind hx nofun)).trans hx)
    · exact .inr ((hkind x (Heap.lt_size_of_kind hx nofun)).trans hx)
  cases hx with
  | front hi hnonneg hlt => exact .front (hint hi) hnonneg hlt
  | back hi hge hneg => exact .back (hint hi) hge hneg
  | outside hi hout => exact .outside (hint hi) hout
  | stretch hp hlow hhigh => exact .stretch (hpair hp) hlow hhigh
  | low hp hout => exact .low (hpair hp) hout
  | high hp hlow hout => exact .high (hpair hp) hlow hout

/-- Objects that are made and behaviour that is noted on the way belong to the run. -/
theorem Run.Selects.after {run run' : Run Value} {h : Heap} {kind : Kind}
    {o : Except Cause Selection} (hrun : run.Selects { m with heap := h } kind o)
    (hn : m.heap.Noted h) (heq : run' m = run { m with heap := h }) : run'.Selects m kind o := by
  cases o with
  | error cause =>
    obtain ⟨h', hn', hr⟩ := hrun
    exact ⟨h', hn.trans hn', heq.trans hr⟩
  | ok sel =>
    cases sel with
    | single p =>
      obtain ⟨r, h', hn', hr, hitem⟩ := hrun
      exact ⟨r, h', hn.trans hn', heq.trans hr, hitem⟩
    | stretch first last =>
      obtain ⟨r, h', hn', hr, hpart⟩ := hrun
      exact ⟨r, h', hn.trans hn', heq.trans hr, hpart⟩

namespace Engine

theorem indexes (hv : (m.heap.kind v).itemCount? = some n) (e : Engine) :
    m.Indexes v n fun x => e.callBuiltin v .index [x] := by
  obtain ⟨f, hf, hcall⟩ := exists_callBuiltin_index hv e
  constructor
  · intro x o hx
    exact (Run.selects_of_names hx hf).after (.refl _) (hcall x)
  · intro x hx
    obtain ⟨failure, hrun⟩ := Run.select_bind_of_unnamed f hx
    exact ⟨failure, (hcall x).trans hrun⟩

theorem assigns {items : List Value} (hv : m.heap.kind v = .array items) (e : Engine) :
    m.Assigns v items (fun args => e.callBuiltin v .assign args)
      (fun y => e.callBuiltin v .index [y]) := by
  constructor
  · intro x p element hx
    obtain ⟨r, h, hrun, hself, hothers⟩ := callBuiltin_assign_of_single hv hx e element
    refine ⟨r, h, hrun, hself, hothers, ?_⟩
    intro y q hy
    have hkind : h.kind v = .array (items.set p element) := by rw [Heap.kind, hself]
    have hy' : h.Names items.length y (.ok (.single q)) := by
      have hint : ∀ {i : Int64}, m.heap.kind y = .integer i → h.kind y = .integer i := by
        intro i hi
        have hne : y ≠ v := by
          rintro rfl
          cases hi.symm.trans hv
        rw [Heap.kind, hothers y hne (Heap.lt_size_of_kind hi Kind.noConfusion)]
        exact hi
      cases hy with
      | front hi hnonneg hlt => exact .front (hint hi) hnonneg hlt
      | back hi hge hneg => exact .back (hint hi) hge hneg
    have hcount : (h.kind v).itemCount? = some items.length := by
      rw [hkind, Kind.itemCount?, List.length_set]
    obtain ⟨found, h', -, hfound, hitem⟩ :=
      (indexes (m := { m with heap := h }) hcount e).named y _ hy'
    refine ⟨found, h', hfound, ?_⟩
    have hitem' : h'.IsItem (.array (items.set p element)) q found := hkind ▸ hitem
    have hp : p < items.length := hx.inside
    refine hitem'.symm.trans ?_
    rw [List.getElem?_set]
    by_cases hpq : p = q
    · rw [if_pos hpq, if_pos hp, if_pos hpq.symm]
    · rw [if_neg hpq, if_neg (Ne.symm hpq)]
  · intro x element hx
    exact callBuiltin_assign_of_not_single hv hx e element
  · intro args stop m' hrun
    exact callBuiltin_assign_of_error hv hrun

/-- Asking for a symbol that a value answers as its type does runs the method of the type. -/
theorem exists_callSymbol_of_answers (d : Digests) (fuel : Nat) {s : Symbol} (args : List Value)
    (hanswers : m.heap.Answers v s) (hlt : v.address < m.heap.objects.size)
    (hs : (m.heap.tag v).supports s = true) (hargs : args.length = s.arity) :
    ∃ h, m.heap.Noted h ∧ (withFuel (fuel + 1) d).callSymbol v s args m =
      (withFuel fuel d).callBuiltin v s args { m with heap := h } := by
  obtain ⟨method, hmethod⟩ := Option.isSome_iff_exists.mp (TypeTag.isSome_method? hs)
  obtain ⟨f, h, hn, hlookup, hcall⟩ :=
    exists_call_of_answers d fuel args hanswers hlt hs hmethod hargs
  refine ⟨h, hn, ?_⟩
  have hmethod' : (h.tag v).method? s = some method := by
    rw [Heap.tag, hn.kind v hlt]
    exact hmethod
  rw [callBuiltin_of_method (m := { m with heap := h }) hmethod', ← hcall]
  simp only [callSymbol, callNamed, keep_withFuel, bind, EStateM.bind, hlookup]

/-- **Indexing and slicing.** `Index` on a String, Bytes, a Tuple or an Array yields what the index
value names among its items, a stretch as a value of the same type, and fails otherwise; nothing is
named outside the items. `Assign` on an array replaces the one item that `Index` finds, and changes
nothing when it fails. Asked by name, a value that answers as its type does runs these methods. -/
theorem indexing_and_slicing (hv : (m.heap.kind v).itemCount? = some n) :
    (∀ e : Engine, m.Indexes v n fun x => e.callBuiltin v .index [x]) ∧
    (∀ x sel, m.heap.Names n x (.ok sel) → sel.Inside n) ∧
    (∀ items, m.heap.kind v = .array items → ∀ e : Engine,
      m.Assigns v items (fun args => e.callBuiltin v .assign args)
        (fun y => e.callBuiltin v .index [y])) ∧
    (∀ d fuel, m.heap.Answers v .index → ∀ x o, m.heap.Names n x o →
      ((withFuel (fuel + 1) d).callSymbol v .index [x]).Selects m (m.heap.kind v) o) ∧
    ∀ d fuel s args, m.heap.Answers v s → (m.heap.tag v).supports s = true →
      args.length = s.arity → ∃ h, m.heap.Noted h ∧
        (withFuel (fuel + 1) d).callSymbol v s args m =
          (withFuel fuel d).callBuiltin v s args { m with heap := h } := by
  have hlt : v.address < m.heap.objects.size := by
    refine Heap.lt_size_of_kind rfl fun hnone => ?_
    rw [hnone] at hv
    cases hv
  have hsupports : (m.heap.tag v).supports .index = true := by
    rw [Heap.tag]
    cases hkind : m.heap.kind v <;> rw [hkind] at hv <;> first | rfl | cases hv
  refine ⟨indexes hv, fun x sel hx => hx.inside, fun items => assigns, ?_, ?_⟩
  · intro d fuel hanswers x o hx
    obtain ⟨h, hn, hrun⟩ := exists_callSymbol_of_answers d fuel [x] hanswers hlt hsupports rfl
    have hkind : h.kind v = m.heap.kind v := hn.kind v hlt
    have hselects := (indexes (m := { m with heap := h }) (hkind ▸ hv) (withFuel fuel d)).named x o
      (hx.of_kinds hn.kind)
    rw [hkind] at hselects
    exact hselects.after hn hrun
  · intro d fuel s args hanswers hs hargs
    exact exists_callSymbol_of_answers d fuel args hanswers hlt hs hargs

/-- The last item of a two-element array by minus one, before and after `Assign`. -/
theorem indexing_and_slicing_last :
    let m : Machine := { (default : Machine) with
      heap := ⟨#[⟨.string "a", .empty, 0⟩, ⟨.integer 7, .empty, 0⟩, ⟨.integer (-1), .empty, 0⟩,
        ⟨.array [⟨0⟩, ⟨1⟩], .empty, 0⟩]⟩ }
    ((withFuel 1 .standard).callSymbol ⟨3⟩ .index [⟨2⟩]).Selects m (.array [⟨0⟩, ⟨1⟩])
      (.ok (.single 1)) ∧
      ∃ r h, (withFuel 0 .standard).callBuiltin ⟨3⟩ .assign [⟨2⟩, ⟨0⟩] m = .ok r { m with heap := h } ∧
        h.kind ⟨3⟩ = .array [⟨0⟩, ⟨0⟩] := by
  intro m
  obtain ⟨-, -, hassign, hindex, -⟩ := indexing_and_slicing (m := m) (v := ⟨3⟩) (n := 2) rfl
  have hlast : m.heap.Names 2 ⟨2⟩ (.ok (.single 1)) :=
    .back (i := -1) rfl (by decide) (by decide)
  refine ⟨hindex .standard 0 (.inl rfl) ⟨2⟩ _ hlast, ?_⟩
  obtain ⟨r, h, hrun, hself, -⟩ :=
    (hassign [⟨0⟩, ⟨1⟩] rfl (withFuel 0 .standard)).named ⟨2⟩ 1 ⟨0⟩ hlast
  exact ⟨r, h, hrun, by rw [Heap.kind, hself]; rfl⟩

end Engine
end ScriptVM
