import ScriptVM.Proofs.Passage

/-!
# Objects along a passage

What the machine reads off its objects and does with them carries over to a machine on which they
have other names.
-/
namespace ScriptVM.Passage

variable {P : Passage} {m n : Machine} {α : Type} {known : Machine → Prop}

/-! ## Reading objects -/

section related

@[simp] theorem value_inj {u v : Value} : P.value u = P.value v ↔ u = v :=
  ⟨P.injective, fun h => h ▸ rfl⟩

theorem tag_eq (h : P.rel m n) (v : Value) : n.heap.tag (P.value v) = m.heap.tag v := by
  rw [Heap.tag, P.kind_eq h, Kind.tag_rename]
  rfl

theorem typeName_eq (h : P.rel m n) (v : Value) :
    n.heap.typeName (P.value v) = m.heap.typeName v :=
  Heap.typeName_rename (P.kind_eq h) v

theorem isNone_eq (h : P.rel m n) (v : Value) : n.heap.isNone (P.value v) = m.heap.isNone v := by
  unfold Heap.isNone
  rw [P.kind_eq h]
  cases m.heap.kind v <;> rfl

theorem bool?_eq (h : P.rel m n) (v : Value) : n.heap.bool? (P.value v) = m.heap.bool? v := by
  unfold Heap.bool?
  rw [P.kind_eq h]
  cases m.heap.kind v <;> rfl

theorem text?_eq (h : P.rel m n) (v : Value) : n.heap.text? (P.value v) = m.heap.text? v := by
  unfold Heap.text?
  rw [P.kind_eq h]
  cases m.heap.kind v <;> rfl

theorem bytes?_eq (h : P.rel m n) (v : Value) :
    n.heap.bytes? (P.value v) = m.heap.bytes? v := by
  unfold Heap.bytes?
  rw [P.kind_eq h]
  cases m.heap.kind v <;> rfl

theorem table?_eq (h : P.rel m n) (v : Value) :
    n.heap.table? (P.value v) = (m.heap.table? v).map (Table.rename P.value) := by
  unfold Heap.table?
  rw [P.kind_eq h]
  cases m.heap.kind v <;> rfl

end related

theorem carries_kindOf (v : Value) :
    P.Carries (Run.kindOf v) (Run.kindOf (P.value v)) (Kind.rename P.value) :=
  .read fun _ _ hmn => P.kind_eq hmn v

/-- What is done with the payload of a value, as long as nothing else happens. -/
theorem carries_kindOf_bind {β : Type} {v : Value} {f : Kind → Run α} {g : Kind → Run β}
    {r : α → β} (hf : ∀ k, P.CarriesWhen (fun m => known m ∧ m.heap.kind v = k) (f k)
      (g (k.rename P.value)) r) :
    P.CarriesWhen known (Run.kindOf v >>= f) (Run.kindOf (P.value v) >>= g) r :=
  .read_bind (Kind.rename P.value) (fun _ _ hmn => P.kind_eq hmn v) hf

theorem carries_typeName (v : Value) :
    P.Carries (Run.typeName v) (Run.typeName (P.value v)) id :=
  .read fun _ _ hmn => typeName_eq hmn v

theorem carries_failType {β : Type} (v : Value) (expected : List String) {r : α → β} :
    P.Carries (Run.failType v expected) (Run.failType (P.value v) expected) r :=
  (carries_typeName v).bind fun _ => .fail _

theorem carries_missingSymbol {β : Type} (v : Value) (name : String) {r : α → β} :
    P.Carries (do Run.fail (.missingSymbol (← Run.typeName v) name))
      (do Run.fail (.missingSymbol (← Run.typeName (P.value v)) name)) r :=
  (carries_typeName v).bind fun _ => .fail _

theorem carries_display (v : Value) : P.Carries (Run.display v) (Run.display (P.value v)) id := by
  refine .read_bind id (fun _ _ hmn => P.text_eq hmn false v) fun r => ?_
  cases r with
  | some text => exact .pure rfl
  | none => exact .giveUp

theorem carries_repr (v : Value) : P.Carries (Run.repr v) (Run.repr (P.value v)) id := by
  refine .read_bind id (fun _ _ hmn => P.text_eq hmn true v) fun r => ?_
  cases r with
  | some text => exact .pure rfl
  | none => exact .giveUp

/-! ## New objects -/

theorem carries_newObject_when (k : Kind) (hk : ∀ m, known m → m.heap.Lends k) :
    P.CarriesWhen known (Run.newObject k) (Run.newObject (k.rename P.value)) P.value := by
  constructor
  · intro m
    change m.objectCount ≤ (m.heap.alloc k).2.objects.size
    simp [Machine.objectCount]
  · intro m n hmn hknown hroom
    have hsize : (m.heap.alloc k).2.objects.size = m.objectCount + 1 := Heap.size_alloc _ _
    have hcount : P.room (m.objectCount + 1) := hsize ▸ hroom
    obtain ⟨hvalue, hrel⟩ := P.rel_alloc hmn hcount k (hk m hknown)
    change P.Matches P.value (.ok (m.heap.alloc k).1 _) (.ok (n.heap.alloc (k.rename P.value)).1 _)
    rw [hvalue]
    exact .ok _ hrel

theorem carries_newObject (k : Kind) (hk : k.isPlain = true) :
    P.Carries (Run.newObject k) (Run.newObject (k.rename P.value)) P.value :=
  carries_newObject_when k fun m _ => m.heap.lends_of_isPlain hk

/-- A new Hash without entries. -/
theorem carries_newTable :
    P.Carries (Run.newObject (.hash .empty)) (Run.newObject (.hash .empty)) P.value :=
  carries_newObject_when (.hash .empty) fun m _ => m.heap.lends_empty

theorem carries_newNone : P.Carries Run.newNone Run.newNone P.value := carries_newObject .none rfl

theorem carries_newBool (b : Bool) : P.Carries (Run.newBool b) (Run.newBool b) P.value :=
  carries_newObject (.bool b) rfl

theorem carries_newInteger (i : Int64) :
    P.Carries (Run.newInteger i) (Run.newInteger i) P.value :=
  carries_newObject (.integer i) rfl

theorem carries_newFloat (x : Float) : P.Carries (Run.newFloat x) (Run.newFloat x) P.value :=
  carries_newObject (.float x) rfl

theorem carries_newString (s : String) : P.Carries (Run.newString s) (Run.newString s) P.value :=
  carries_newObject (.string s) rfl

theorem carries_newIterator (items : List Value) :
    P.Carries (Run.newIterator items) (Run.newIterator (items.map P.value)) P.value :=
  carries_newObject (.iterator items []) rfl

theorem carries_builtinType (tag : TypeTag) :
    P.Carries (Run.builtinType tag) (Run.builtinType tag) P.value := by
  refine .read_bind (Option.map P.value) (fun _ _ hmn => P.types_eq hmn tag.name) fun r => ?_
  cases r with
  | some v => exact .pure rfl
  | none => exact carries_newObject (.type (.builtin tag)) rfl

/-! ## Changes of objects -/

theorem carries_setMember (v : Value) (name : String) (member : Member)
    (hmember : ∀ s, member ≠ .builtin s) :
    P.Carries (Run.modifyHeap fun h => h.setMember v name member)
      (Run.modifyHeap fun h => h.setMember (P.value v) name (member.rename P.value)) id :=
  .modify (fun m => Heap.size_modify m.heap v _)
    fun _ _ hmn => P.rel_setMember hmn v name member hmember

theorem carries_setHash (hallows : ∀ {o o'}, o.Precedes o' → P.allows o o') (v : Value)
    (hash : Int64) :
    P.Carries (Run.modifyHeap fun h => h.setHash v hash)
      (Run.modifyHeap fun h => h.setHash (P.value v) hash) id :=
  .modify (fun m => Heap.size_modify m.heap v _)
    fun _ _ hmn => P.rel_setHash hmn v hash (hallows ⟨rfl, fun _ => rfl, id⟩)

/-- The payload of a value that is no generator changes. -/
theorem carries_setKind (v : Value) (k : Kind)
    (hknown : ∀ m, known m → (∀ s, m.heap.kind v ≠ .generator s) ∧
      P.allows (m.heap.get v) { m.heap.get v with kind := k }) :
    P.CarriesWhen known (Run.modifyHeap fun h => h.setKind v k)
      (Run.modifyHeap fun h => h.setKind (P.value v) (k.rename P.value)) id := by
  constructor
  · intro m
    change m.objectCount ≤ (m.heap.setKind v k).objects.size
    simp [Machine.objectCount, Heap.setKind]
  · intro m n hmn hm _
    exact .ok () (P.rel_setKind hmn (fun s hs => absurd hs ((hknown m hm).1 s)) (hknown m hm).2)

/-! ## Members -/

/-- Binding a member to its owner. -/
theorem carries_bindMember (owner : Value) (member : Member) :
    P.Carries (modifyGet fun m =>
        ((m.heap.bind owner member).1, { m with heap := (m.heap.bind owner member).2 }))
      (modifyGet fun m => ((m.heap.bind (P.value owner) (member.rename P.value)).1,
        { m with heap := (m.heap.bind (P.value owner) (member.rename P.value)).2 })) P.value := by
  cases member with
  | value v => exact .pure rfl
  | method f => exact carries_newObject (.function ⟨.code f, some owner⟩) rfl
  | builtin s => exact carries_newObject (.function ⟨.builtin s, some owner⟩) rfl

/-- Looking a name up is finding the member and binding it. -/
theorem lookup_eq (v : Value) (name : String) :
    Run.lookup v name = (do
      match ← modifyGet fun m =>
        ((m.heap.find v name).1, { m with heap := (m.heap.find v name).2 }) with
      | some member =>
        return some (← modifyGet fun m =>
          ((m.heap.bind v member).1, { m with heap := (m.heap.bind v member).2 }))
      | none => return none) := by
  funext m
  simp only [Run.lookup, Run.modifyGet_apply, Heap.lookup, bind, EStateM.bind]
  obtain ⟨r, h⟩ := m.heap.find v name
  cases r <;> rfl

theorem size_find (h : Heap) (v : Value) (name : String) :
    (h.find v name).2.objects.size = h.objects.size := by
  unfold Heap.find
  split
  · rfl
  · split
    · exact Heap.size_modify _ _ _
    · rfl

theorem carries_find (v : Value) (name : String) :
    P.Carries
      (modifyGet fun m => ((m.heap.find v name).1, { m with heap := (m.heap.find v name).2 }))
      (modifyGet fun m => ((m.heap.find (P.value v) name).1,
        { m with heap := (m.heap.find (P.value v) name).2 })) (Option.map (Member.rename P.value)) := by
  refine ⟨fun m => Nat.le_of_eq (size_find m.heap v name).symm, fun m n hmn _ _ => ?_⟩
  obtain ⟨hfound, hrel⟩ := P.rel_find hmn v name
  rw [Run.modifyGet_apply, Run.modifyGet_apply, hfound]
  exact .ok _ hrel

theorem carries_lookup (v : Value) (name : String) :
    P.Carries (Run.lookup v name) (Run.lookup (P.value v) name) (Option.map P.value) := by
  rw [lookup_eq, lookup_eq]
  refine (carries_find v name).bind fun r => ?_
  cases r with
  | none => exact .pure rfl
  | some member => exact (carries_bindMember v member).bind fun u => .pure rfl

end ScriptVM.Passage
