import ScriptVM.Proofs.Composition.Text
import ScriptVM.Proofs.Heap

/-!
# Notes of behaviour

A member table holds what a value has of its own and, besides, notes of behaviour of its type that
was asked for. Two heaps are the same but for notes when nothing else tells their objects apart and
all notes are of behaviour that the types have. Whatever is read off one of them through a name is
then read off the other one, too.
-/
namespace ScriptVM

/-- Whether a member is a note of behaviour. -/
def Member.isNote : Member → Bool
  | .builtin _ => true
  | _ => false

/-! ## Objects -/

namespace Object

/-- What an object has of its own under a name. -/
def own? (o : Object) (name : String) : Option Member :=
  (o.members.get? name).filter fun member => !member.isNote

/-- All notes are of behaviour that the type has. -/
def NotesHold (o : Object) : Prop :=
  ∀ name s, o.members.get? name = some (.builtin s) → o.kind.tag.symbol? name = some s

/-- Two objects are the same but for their notes. -/
structure SameButNotes (o o' : Object) : Prop where
  kind : o'.kind = o.kind
  hash : o'.hash = o.hash
  own : ∀ name, o'.own? name = o.own? name
  notes : o.NotesHold
  notes' : o'.NotesHold

variable {o o' o'' : Object} {name : String}

/-- Under a name there is nothing, a note, or something of the object's own. -/
theorem members_cases (o : Object) (name : String) :
    (o.members.get? name = none ∧ o.own? name = none) ∨
      (∃ s, o.members.get? name = some (.builtin s) ∧ o.own? name = none) ∨
      ∃ member, member.isNote = false ∧ o.members.get? name = some member ∧
        o.own? name = some member := by
  unfold own?
  cases hget : o.members.get? name with
  | none => exact .inl ⟨rfl, rfl⟩
  | some member =>
    cases member with
    | builtin s => exact .inr (.inl ⟨s, rfl, rfl⟩)
    | value v => exact .inr (.inr ⟨_, rfl, rfl, rfl⟩)
    | method f => exact .inr (.inr ⟨_, rfl, rfl, rfl⟩)

theorem SameButNotes.refl (h : o.NotesHold) : o.SameButNotes o := ⟨rfl, rfl, fun _ => rfl, h, h⟩

theorem SameButNotes.symm (h : o.SameButNotes o') : o'.SameButNotes o :=
  ⟨h.kind.symm, h.hash.symm, fun name => (h.own name).symm, h.notes', h.notes⟩

theorem SameButNotes.trans (h : o.SameButNotes o') (h' : o'.SameButNotes o'') : o.SameButNotes o'' :=
  ⟨h'.kind.trans h.kind, h'.hash.trans h.hash, fun name => (h'.own name).trans (h.own name), h.notes,
    h'.notes'⟩

theorem notesHold_of_empty {k : Kind} {hash : Int64} : NotesHold ⟨k, .empty, hash⟩ := nofun

/-- What a name is bound to after a member was set. -/
theorem own?_insert (o : Object) (name other : String) (member : Member) :
    own? { o with members := o.members.insert name member } other =
      if other = name then (some member).filter (fun member => !member.isNote)
      else o.own? other := by
  unfold own?
  rw [Bindings.get?_insert]
  split <;> rfl

theorem NotesHold.insert (h : o.NotesHold) {member : Member}
    (hmember : ∀ s, member = .builtin s → o.kind.tag.symbol? name = some s) :
    NotesHold { o with members := o.members.insert name member } := by
  intro other s hother
  rw [Bindings.get?_insert] at hother
  split at hother
  · rename_i hname
    cases hother
    exact hname ▸ hmember s rfl
  · exact h other s hother

/-- A member of the same name is set on both sides. -/
theorem SameButNotes.insert (h : o.SameButNotes o') (name : String) (member : Member)
    (hmember : ∀ s, member = .builtin s → o.kind.tag.symbol? name = some s) :
    SameButNotes { o with members := o.members.insert name member }
      { o' with members := o'.members.insert name member } where
  kind := h.kind
  hash := h.hash
  own other := by rw [own?_insert, own?_insert, h.own]
  notes := h.notes.insert hmember
  notes' := h.notes'.insert fun s hs => h.kind ▸ hmember s hs

/-- Taking a note changes nothing else. -/
theorem sameButNotes_note (h : o.NotesHold) {s : Symbol} (hnone : o.members.get? name = none)
    (hs : o.kind.tag.symbol? name = some s) :
    o.SameButNotes { o with members := o.members.insert name (.builtin s) } where
  kind := rfl
  hash := rfl
  own other := by
    rw [own?_insert]
    split
    · rename_i hname
      rw [hname, own?, hnone]
      rfl
    · rfl
  notes := h
  notes' := h.insert fun s' hs' => by cases hs'; exact hs

theorem SameButNotes.setHash (h : o.SameButNotes o') (hash : Int64) :
    SameButNotes { o with hash := hash } { o' with hash := hash } :=
  ⟨h.kind, rfl, h.own, h.notes, h.notes'⟩

theorem SameButNotes.setKind (h : o.SameButNotes o') {k : Kind} (htag : k.tag = o.kind.tag) :
    SameButNotes { o with kind := k } { o' with kind := k } where
  kind := rfl
  hash := h.hash
  own := h.own
  notes name s hs := (congrArg (TypeTag.symbol? · name) htag).trans (h.notes name s hs)
  notes' name s hs := by
    have hkind := h.notes' name s hs
    rw [h.kind] at hkind
    exact (congrArg (TypeTag.symbol? · name) htag).trans hkind

end Object

/-! ## Forgetting the notes of an object -/

/-- Takes the bindings to notes away. -/
def Bindings.forgetNotes (b : Bindings Member) : Bindings Member :=
  ⟨b.entries.filter fun entry => ((b.get? entry.1).filter fun member => !member.isNote).isSome⟩

theorem lookup_filter_fst {α : Type} (entries : List (String × α)) (p : String → Bool)
    (name : String) :
    (entries.filter fun entry => p entry.1).lookup name =
      if p name then entries.lookup name else none := by
  induction entries with
  | nil => simp
  | cons entry rest ih =>
    obtain ⟨key, a⟩ := entry
    by_cases hname : name = key
    · subst hname
      by_cases hp : p name
      · simp [hp]
      · simpa [hp] using ih
    · have hbeq : (name == key) = false := beq_false_of_ne hname
      by_cases hp : p key
      · simpa [hp, List.lookup_cons, hbeq] using ih
      · simpa [hp, List.lookup_cons, hbeq] using ih

theorem Bindings.get?_forgetNotes (b : Bindings Member) (name : String) :
    b.forgetNotes.get? name = (b.get? name).filter fun member => !member.isNote := by
  have hlookup := lookup_filter_fst b.entries
    (fun name => ((b.get? name).filter fun member => !member.isNote).isSome) name
  refine hlookup.trans ?_
  change (if _ then b.get? name else none) = _
  cases b.get? name with
  | none => rfl
  | some member => cases hnote : member.isNote <;> simp [hnote, Option.filter]

namespace Object

/-- Forgets the notes of an object. -/
def forgetNotes (o : Object) : Object := { o with members := o.members.forgetNotes }

variable {o : Object} {name : String}

theorem own?_forgetNotes (o : Object) (name : String) : o.forgetNotes.own? name = o.own? name := by
  unfold own? forgetNotes
  rw [Bindings.get?_forgetNotes]
  cases o.members.get? name with
  | none => rfl
  | some member => cases hnote : member.isNote <;> simp [hnote, Option.filter]

theorem get?_forgetNotes (o : Object) (name : String) :
    o.forgetNotes.members.get? name = o.own? name :=
  o.members.get?_forgetNotes name

theorem sameButNotes_forgetNotes (h : o.NotesHold) : o.SameButNotes o.forgetNotes where
  kind := rfl
  hash := rfl
  own := o.own?_forgetNotes
  notes := h
  notes' name s hs := by
    rw [get?_forgetNotes] at hs
    rcases o.members_cases name with ⟨-, hown⟩ | ⟨_, -, hown⟩ | ⟨member, hnote, -, hown⟩ <;>
      rw [hown] at hs <;> cases hs
    cases hnote

/-- Whether an object has no notes. -/
def Unnoted (o : Object) : Prop := ∀ name s, o.members.get? name ≠ some (.builtin s)

theorem unnoted_forgetNotes (o : Object) : o.forgetNotes.Unnoted := by
  intro name s hs
  rw [get?_forgetNotes] at hs
  rcases o.members_cases name with ⟨-, hown⟩ | ⟨_, -, hown⟩ | ⟨member, hnote, -, hown⟩ <;>
    rw [hown] at hs <;> cases hs
  cases hnote

theorem Unnoted.notesHold (h : o.Unnoted) : o.NotesHold := fun name s hs => absurd hs (h name s)

theorem own?_of_unnoted (h : o.Unnoted) (name : String) : o.own? name = o.members.get? name := by
  rcases o.members_cases name with ⟨hget, hown⟩ | ⟨s, hget, -⟩ | ⟨member, -, hget, hown⟩
  · rw [hget, hown]
  · exact absurd hget (h name s)
  · rw [hget, hown]

/-- Every entry of a table says something about its name. -/
theorem isSome_get?_of_mem {b : Bindings Member} {entry : String × Member} (h : entry ∈ b.entries) :
    (b.get? entry.1).isSome = true :=
  List.lookup_isSome_iff.2 ⟨entry, h, beq_self_eq_true _⟩

theorem forgetNotes_of_unnoted (h : o.Unnoted) : o.forgetNotes = o := by
  have hentries : o.members.forgetNotes = o.members := by
    refine congrArg Bindings.mk (List.filter_eq_self.2 fun entry hentry => ?_)
    change (o.own? entry.1).isSome = true
    rw [own?_of_unnoted h]
    exact isSome_get?_of_mem hentry
  rw [forgetNotes, hentries]

theorem insertInto_of_lookup_none {entries : List (String × Member)} {member : Member}
    (h : entries.lookup name = none) :
    Bindings.insertInto name member entries = entries ++ [(name, member)] := by
  induction entries with
  | nil => rfl
  | cons entry rest ih =>
    obtain ⟨key, old⟩ := entry
    rw [List.lookup_cons] at h
    split at h
    · cases h
    · rename_i hne
      rw [Bindings.insertInto, if_neg (by simpa using hne), ih h, List.cons_append]

/-- A note that was taken of a name that meant nothing is forgotten without a trace. -/
theorem forgetNotes_note (h : o.Unnoted) {s : Symbol} (hnone : o.members.get? name = none) :
    forgetNotes { o with members := o.members.insert name (.builtin s) } = o := by
  have hentries : (o.members.insert name (.builtin s)).forgetNotes = o.members := by
    have hinsert : (o.members.insert name (.builtin s)).entries =
        o.members.entries ++ [(name, .builtin s)] := insertInto_of_lookup_none hnone
    refine congrArg Bindings.mk ?_
    rw [hinsert, List.filter_append, List.filter_eq_self.2 fun entry hentry => ?_]
    · simp [Bindings.get?_insert, Member.isNote]
    · have hsome := isSome_get?_of_mem hentry
      have hname : entry.1 ≠ name := by
        intro hname
        rw [hname, hnone] at hsome
        cases hsome
      rw [Bindings.get?_insert, if_neg hname]
      change (o.own? entry.1).isSome = true
      rwa [own?_of_unnoted h]
  rw [forgetNotes, hentries]

end Object

/-! ## Heaps -/

namespace Heap

/-- All notes are of behaviour that the types have. -/
def NotesHold (h : Heap) : Prop := ∀ v, (h.get v).NotesHold

/-- Two heaps are the same but for notes. -/
structure SameButNotes (h h' : Heap) : Prop where
  size : h'.objects.size = h.objects.size
  object : ∀ v, (h.get v).SameButNotes (h'.get v)

/-- Whether no object has notes. -/
def Unnoted (h : Heap) : Prop := ∀ v, (h.get v).Unnoted

/-- Forgets all notes. -/
def forgetNotes (h : Heap) : Heap := ⟨h.objects.map Object.forgetNotes⟩

/-- What a name means on a value: what the value has of its own, or behaviour of its type. -/
def meaning? (h : Heap) (v : Value) (name : String) : Option Member :=
  (h.own? v name).or (((h.tag v).symbol? name).map .builtin)

/-- The value that a name has on a value, if any. No note is taken. -/
def peek (h : Heap) (v : Value) (name : String) : Option Value × Heap :=
  match h.meaning? v name with
  | some member => ((h.bind v member).map some id)
  | none => (none, h)

variable {h h' h'' : Heap} {v : Value} {name : String}

theorem own?_eq (h : Heap) (v : Value) (name : String) : h.own? v name = (h.get v).own? name := by
  unfold Heap.own? Object.own?
  cases (h.get v).members.get? name with
  | none => rfl
  | some member => cases member <;> rfl

namespace SameButNotes

theorem refl (hnotes : h.NotesHold) : h.SameButNotes h := ⟨rfl, fun v => .refl (hnotes v)⟩

theorem symm (hh : h.SameButNotes h') : h'.SameButNotes h :=
  ⟨hh.size.symm, fun v => (hh.object v).symm⟩

theorem trans (hh : h.SameButNotes h') (hh' : h'.SameButNotes h'') : h.SameButNotes h'' :=
  ⟨hh'.size.trans hh.size, fun v => (hh.object v).trans (hh'.object v)⟩

theorem kind (hh : h.SameButNotes h') (v : Value) : h'.kind v = h.kind v := (hh.object v).kind

theorem tag (hh : h.SameButNotes h') (v : Value) : h'.tag v = h.tag v :=
  congrArg Kind.tag (hh.kind v)

theorem own? (hh : h.SameButNotes h') (v : Value) (name : String) : h'.own? v name = h.own? v name := by
  rw [own?_eq, own?_eq, (hh.object v).own]

theorem notesHold (hh : h.SameButNotes h') : h.NotesHold := fun v => (hh.object v).notes

theorem meaning? (hh : h.SameButNotes h') (v : Value) (name : String) :
    h'.meaning? v name = h.meaning? v name := by
  unfold Heap.meaning?
  rw [hh.own?, hh.tag]

theorem hash? (hh : h.SameButNotes h') (v : Value) : h'.hash? v = h.hash? v := by
  rw [Heap.hash?, Heap.hash?, (hh.object v).hash]

/-- Both heaps get an object under the same name. -/
theorem alloc (hh : h.SameButNotes h') (k : Kind) :
    (h'.alloc k).1 = (h.alloc k).1 ∧ (h.alloc k).2.SameButNotes (h'.alloc k).2 := by
  have hsize := hh.size
  refine ⟨congrArg Value.mk hsize, ?_, fun v => ?_⟩
  · rw [size_alloc, size_alloc, hsize]
  · rcases Nat.lt_trichotomy v.address h.objects.size with hlt | heq | hgt
    · rw [get_alloc_of_lt k hlt, get_alloc_of_lt k (hsize ▸ hlt)]
      exact hh.object v
    · have hv : v = (h.alloc k).1 := congrArg Value.mk heq
      have hv' : v = (h'.alloc k).1 := congrArg Value.mk (heq.trans hsize.symm)
      rw [show (h.alloc k).2.get v = _ from hv ▸ get_alloc h k,
        show (h'.alloc k).2.get v = _ from hv' ▸ get_alloc h' k]
      exact .refl Object.notesHold_of_empty
    · rw [get_of_le (h := (h.alloc k).2) (by rw [size_alloc]; exact hgt),
        get_of_le (h := (h'.alloc k).2) (by rw [size_alloc, hsize]; exact hgt)]
      exact .refl Object.notesHold_of_empty

/-- Both heaps change the same object. -/
theorem modify (hh : h.SameButNotes h') (v : Value) {f g : Object → Object}
    (hfg : (f (h.get v)).SameButNotes (g (h'.get v))) :
    (h.modify v f).SameButNotes (h'.modify v g) where
  size := by simpa using hh.size
  object u := by
    by_cases hu : u = v
    · subst hu
      by_cases hlt : u.address < h.objects.size
      · rw [get_modify_self f hlt, get_modify_self g (hh.size ▸ hlt)]
        exact hfg
      · rw [get_of_le (h := h.modify u f) (by simpa using hlt),
          get_of_le (h := h'.modify u g) (by simpa [hh.size] using hlt)]
        exact .refl Object.notesHold_of_empty
    · rw [get_modify_of_ne h f hu, get_modify_of_ne h' g hu]
      exact hh.object u

theorem setMember (hh : h.SameButNotes h') (v : Value) (name : String) {member : Member}
    (hmember : ∀ s, member ≠ .builtin s) :
    (h.setMember v name member).SameButNotes (h'.setMember v name member) :=
  hh.modify v ((hh.object v).insert name member fun s hs => absurd hs (hmember s))

theorem setHash (hh : h.SameButNotes h') (v : Value) (hash : Int64) :
    (h.setHash v hash).SameButNotes (h'.setHash v hash) :=
  hh.modify v ((hh.object v).setHash hash)

theorem setKind (hh : h.SameButNotes h') {v : Value} {k : Kind} (htag : k.tag = h.tag v) :
    (h.setKind v k).SameButNotes (h'.setKind v k) :=
  hh.modify v ((hh.object v).setKind htag)

/-- A member becomes the same value on both sides. -/
theorem bind (hh : h.SameButNotes h') (owner : Value) (member : Member) :
    (h'.bind owner member).1 = (h.bind owner member).1 ∧
      (h.bind owner member).2.SameButNotes (h'.bind owner member).2 := by
  cases member with
  | value v => exact ⟨rfl, hh⟩
  | method f => exact hh.alloc _
  | builtin s => exact hh.alloc _

end SameButNotes

/-! ## Looking names up -/

theorem find_fst (hnotes : h.NotesHold) (v : Value) (name : String) :
    (h.find v name).1 = h.meaning? v name := by
  unfold find meaning?
  rw [own?_eq]
  rcases (h.get v).members_cases name with ⟨hget, hown⟩ | ⟨s, hget, hown⟩ | ⟨member, -, hget, hown⟩
  · rw [hget, hown]
    cases (h.tag v).symbol? name <;> rfl
  · have hsymbol : (h.tag v).symbol? name = some s := hnotes v name s hget
    rw [hget, hown, hsymbol]
    rfl
  · rw [hget, hown]
    rfl

/-- Finding a member takes a note at most. -/
theorem sameButNotes_find (hnotes : h.NotesHold) (v : Value) (name : String) :
    h.SameButNotes (h.find v name).2 := by
  unfold find
  split
  · exact .refl hnotes
  · rename_i hnone
    split
    · rename_i s hs
      refine ⟨by simp [Heap.setMember], fun u => ?_⟩
      rcases h.get_modify v u _ with ⟨hu, rfl⟩ | hu
      · rw [Heap.setMember, hu]
        exact Object.sameButNotes_note (hnotes u) hnone hs
      · rw [Heap.setMember, hu]
        exact .refl (hnotes u)
    · exact .refl hnotes

theorem SameButNotes.find (hh : h.SameButNotes h') (v : Value) (name : String) :
    (h'.find v name).1 = (h.find v name).1 ∧ (h.find v name).2.SameButNotes (h'.find v name).2 := by
  refine ⟨?_, ?_⟩
  · rw [find_fst hh.notesHold, find_fst hh.symm.notesHold, hh.meaning?]
  · exact (sameButNotes_find hh.notesHold v name).symm.trans
      (hh.trans (sameButNotes_find hh.symm.notesHold v name))

/-- Where a name means nothing, nothing changes. -/
theorem lookup_snd_of_none (hnone : (h.lookup v name).1 = none) : (h.lookup v name).2 = h := by
  unfold lookup find at hnone ⊢
  cases hget : (h.get v).members.get? name with
  | some member => simp [hget] at hnone
  | none =>
    cases hsymbol : (h.tag v).symbol? name with
    | some s => simp [hget, hsymbol] at hnone
    | none => simp

theorem has_eq (hnotes : h.NotesHold) (v : Value) (name : String) :
    h.has v name = (h.meaning? v name).isSome := by
  unfold Heap.has Bindings.contains meaning?
  rw [own?_eq]
  rcases (h.get v).members_cases name with ⟨hget, hown⟩ | ⟨s, hget, hown⟩ | ⟨member, -, hget, hown⟩
  · rw [hget, hown]
    cases (h.tag v).symbol? name <;> rfl
  · have hsymbol : (h.tag v).symbol? name = some s := hnotes v name s hget
    rw [hget, hown, hsymbol]
    rfl
  · rw [hget, hown]
    rfl

theorem SameButNotes.has (hh : h.SameButNotes h') (v : Value) (name : String) :
    h'.has v name = h.has v name := by
  rw [has_eq hh.notesHold, has_eq hh.symm.notesHold, hh.meaning?]

/-- Looking a name up gives the value that is there without the note. -/
theorem SameButNotes.lookup (hh : h.SameButNotes h') (v : Value) (name : String) :
    (h'.peek v name).1 = (h.lookup v name).1 ∧
      (h.lookup v name).2.SameButNotes (h'.peek v name).2 := by
  have hfound := find_fst hh.notesHold v name
  have hkept := (sameButNotes_find hh.notesHold v name).symm.trans hh
  unfold Heap.lookup peek
  rw [hh.meaning?, ← hfound]
  generalize h.find v name = found at hkept
  obtain ⟨r, h₁⟩ := found
  cases r with
  | none => exact ⟨rfl, hkept⟩
  | some member =>
    obtain ⟨hvalue, hrel⟩ := hkept.bind v member
    exact ⟨congrArg some hvalue, hrel⟩

/-! ## Forgetting -/

theorem get_forgetNotes (h : Heap) (v : Value) : h.forgetNotes.get v = (h.get v).forgetNotes := by
  unfold forgetNotes get
  by_cases hlt : v.address < h.objects.size
  · simp [Array.getD, hlt]
  · simp only [Array.getD, Array.size_map, hlt, dite_false]
    rfl

theorem size_forgetNotes (h : Heap) : h.forgetNotes.objects.size = h.objects.size := by
  simp [forgetNotes]

theorem sameButNotes_forgetNotes (hnotes : h.NotesHold) : h.SameButNotes h.forgetNotes where
  size := h.size_forgetNotes
  object v := by
    rw [get_forgetNotes]
    exact Object.sameButNotes_forgetNotes (hnotes v)

theorem unnoted_forgetNotes (h : Heap) : h.forgetNotes.Unnoted := by
  intro v
  rw [get_forgetNotes]
  exact Object.unnoted_forgetNotes _

theorem forgetNotes_alloc (h : Heap) (k : Kind) :
    (h.alloc k).2.forgetNotes = (h.forgetNotes.alloc k).2 :=
  congrArg Heap.mk (Array.map_push ..)

theorem forgetNotes_bind (h : Heap) (owner : Value) (member : Member) :
    h.forgetNotes.bind owner member =
      ((h.bind owner member).1, (h.bind owner member).2.forgetNotes) := by
  have halloc : ∀ k, h.forgetNotes.alloc k = ((h.alloc k).1, (h.alloc k).2.forgetNotes) :=
    fun k => Prod.ext (congrArg Value.mk h.size_forgetNotes) (h.forgetNotes_alloc k).symm
  cases member with
  | value v => rfl
  | method f => exact halloc _
  | builtin s => exact halloc _

/-- Heaps are equal when they have the same objects. -/
theorem eq_of_get (hsize : h.objects.size = h'.objects.size) (hget : ∀ v, h.get v = h'.get v) :
    h = h' := by
  refine congrArg Heap.mk (Array.ext hsize fun i hi hi' => ?_)
  have hobject := hget ⟨i⟩
  simpa [get, Array.getD, hi, hi'] using hobject

namespace Unnoted

theorem notesHold (hh : h.Unnoted) : h.NotesHold := fun v => (hh v).notesHold

theorem forgetNotes_eq (hh : h.Unnoted) : h.forgetNotes = h :=
  eq_of_get h.size_forgetNotes fun v =>
    (h.get_forgetNotes v).trans (Object.forgetNotes_of_unnoted (hh v))

/-- A note that was taken of a name that meant nothing is forgotten without a trace. -/
theorem forgetNotes_note (hh : h.Unnoted) {s : Symbol}
    (hnone : (h.get v).members.get? name = none) :
    (h.setMember v name (.builtin s)).forgetNotes = h := by
  refine eq_of_get ?_ fun u => ?_
  · rw [size_forgetNotes, Heap.setMember, size_modify]
  · rw [get_forgetNotes, Heap.setMember]
    rcases h.get_modify v u fun o => { o with members := o.members.insert name (.builtin s) } with
      ⟨hu, rfl⟩ | hu
    · rw [hu]
      exact Object.forgetNotes_note (hh u) hnone
    · rw [hu]
      exact Object.forgetNotes_of_unnoted (hh u)

theorem alloc (hh : h.Unnoted) (k : Kind) : (h.alloc k).2.Unnoted := by
  intro v
  rcases Nat.lt_trichotomy v.address h.objects.size with hlt | heq | hgt
  · rw [get_alloc_of_lt k hlt]
    exact hh v
  · have hv : v = (h.alloc k).1 := congrArg Value.mk heq
    rw [show (h.alloc k).2.get v = _ from hv ▸ get_alloc h k]
    exact nofun
  · rw [get_of_le (h := (h.alloc k).2) (by rw [size_alloc]; exact hgt)]
    exact nofun

theorem setMember (hh : h.Unnoted) (v : Value) (name : String) {member : Member}
    (hmember : ∀ s, member ≠ .builtin s) : (h.setMember v name member).Unnoted := by
  intro u other s
  rcases h.get_modify v u _ with ⟨hu, rfl⟩ | hu
  · rw [Heap.setMember, hu, Bindings.get?_insert]
    split
    · exact fun hs => hmember s (Option.some.inj hs)
    · exact hh u other s
  · rw [Heap.setMember, hu]
    exact hh u other s

theorem bind (hh : h.Unnoted) (owner : Value) (member : Member) :
    (h.bind owner member).2.Unnoted := by
  cases member with
  | value v => exact hh
  | method f => exact hh.alloc _
  | builtin s => exact hh.alloc _

/-- A name is looked up in a heap without notes as though no note were taken, once the notes are
forgotten. -/
theorem peek_eq (hh : h.Unnoted) (v : Value) (name : String) :
    h.peek v name = ((h.lookup v name).1, (h.lookup v name).2.forgetNotes) := by
  have hkept : (h.find v name).2.forgetNotes = h := by
    unfold find
    split
    · exact hh.forgetNotes_eq
    · rename_i hnone
      split
      · exact hh.forgetNotes_note hnone
      · exact hh.forgetNotes_eq
  have hfound := find_fst hh.notesHold v name
  unfold Heap.lookup peek
  rw [← hfound]
  generalize h.find v name = found at hkept
  obtain ⟨r, h₁⟩ := found
  cases r with
  | none => exact congrArg (Prod.mk none) hkept.symm
  | some member =>
    have hbind := forgetNotes_bind h₁ v member
    rw [hkept] at hbind
    exact congrArg (Prod.map some id) hbind

end Unnoted
end Heap
end ScriptVM
