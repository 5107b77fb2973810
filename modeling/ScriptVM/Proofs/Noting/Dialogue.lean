import ScriptVM.Proofs.Noting.Forgetting

/-!
# Asking about names

Someone asks a machine what names mean on values, sets members, calls what names mean, executes code
and looks names up in frames around which there are objects. What is asked next may depend on all
replies so far. With and without notes of behaviour the replies are the same, and so are the machines
in the end, but for the notes.
-/
namespace ScriptVM

namespace Dialogue

open Run

/-- What can be asked. -/
inductive Question where
  /-- What a name means on a value. -/
  | get (v : Value) (name : String)
  /-- What a value has of its own under a name. -/
  | getOwn (v : Value) (name : String)
  /-- Whether a name means anything on a value. -/
  | has (v : Value) (name : String)
  | set (v : Value) (name : String) (member : Value)
  | setMethod (v : Value) (name : String) (method : CodeFunction)
  /-- Calls what a name means on a value. -/
  | call (v : Value) (name : String) (args : List Value)
  /-- Makes a frame whose object is a value. -/
  | frame (object : Value) (parent : Option FrameId) (bindsObject : Bool)
  | assign (f : FrameId) (name : String) (v : Value)
  /-- What a name means in a frame and around it. -/
  | resolve (f : FrameId) (name : String)
  | execute (code : Cursor)

/-- What is replied. Of a value, everything is told: a method or a behaviour comes as a function that
refers to its receiver. -/
inductive Reply where
  | done
  | flag (b : Bool)
  | found (v : Option (Value × Kind))
  | frame (f : FrameId)
  | failed (f : Failure)

/-- What a machine replies with. -/
structure Respondent where
  engine : Engine
  execute : Cursor → Run Value
  /-- What a name means on a value. -/
  get : Value → String → Run (Option Value)

/-- The machine with some fuel for each question. -/
def noting (fuel : Nat) (digests : Digests) : Respondent where
  engine := .withFuel fuel digests
  execute := (Engine.withFuel fuel digests).execute
  get := lookup

/-- The same machine, which never takes a note. -/
def noteless (fuel : Nat) (digests : Digests) : Respondent where
  engine := Forgetful.engine digests fuel
  execute := Forgetful.execute fuel digests
  get := peek

/-- Tells what was found. -/
def tell : Option Value → Run Reply
  | some v => do return .found (some (v, ← kindOf v))
  | none => return .found none

/-- The value that a value has of its own under a name. -/
def getOwn (v : Value) (name : String) : Run (Option Value) := do
  match ← read fun m => m.heap.own? v name with
  | some member =>
    return some (← modifyGet fun m =>
      ((m.heap.bind v member).1, { m with heap := (m.heap.bind v member).2 }))
  | none => return none

/-- Replies to a question, unless something fails. -/
def answer (r : Respondent) : Question → Run Reply
  | .get v name => do tell (← r.get v name)
  | .getOwn v name => do tell (← getOwn v name)
  | .has v name => do return .flag (← read fun m => m.heap.has v name)
  | .set v name member => do
    modifyHeap fun h => h.setValue v name member
    return .done
  | .setMethod v name method => do
    modifyHeap fun h => h.setMember v name (.method method)
    return .done
  | .call v name args => do tell (some (← r.engine.callNamed v name args))
  | .frame object parent bindsObject => do return .frame (← newFrame parent (some object) bindsObject)
  | .assign f name v => do
    assign f name v
    return .done
  | .resolve f name => do tell (← resolve f name)
  | .execute code => do tell (some (← r.execute code))

/-- A failure is a reply, too. -/
def settle (x : Run Reply) : Run Reply := fun m =>
  match x m with
  | .ok reply m => .ok reply m
  | .error (.failed f) m => .ok (.failed f) m
  | .error (.gaveUp why) m => .error (.gaveUp why) m

/-- So many questions, one after the other, each of which is chosen after the replies so far, latest
first. -/
def converse (r : Respondent) (next : List Reply → Question) : Nat → List Reply → Run (List Reply)
  | 0, replies => return replies
  | rounds + 1, replies => do
    let reply ← settle (answer r (next replies))
    converse r next rounds (reply :: replies)

/-! ## The same replies -/

section replies

open Passage (noting_frames carries_kindOf)

variable {fuel : Nat} {digests : Digests} {x y : Run Reply}

theorem carries_tell (v : Option Value) : Passage.noting.Carries (tell v) (tell v) id := by
  cases v with
  | none => exact .pure rfl
  | some v =>
    refine (carries_kindOf (P := Passage.noting) v).bind fun k => .pure ?_
    rw [show k.rename Passage.noting.value = k from Kind.rename_id k]
    rfl

theorem carries_peek (v : Value) (name : String) :
    Passage.noting.Carries (lookup v name) (peek v name) id := by
  refine ⟨(Passage.carries_lookup (P := Passage.noting) v name).grows, ?_⟩
  rintro m _ ⟨h, hh, rfl⟩ - -
  obtain ⟨hfound, hheap⟩ := hh.lookup v name
  change Passage.Matches _ id (.ok (m.heap.lookup v name).1 _) (.ok (h.peek v name).1 _)
  rw [hfound]
  exact .ok _ ⟨_, hheap, rfl⟩

theorem carries_getOwn (v : Value) (name : String) :
    Passage.noting.Carries (getOwn v name) (getOwn v name) id := by
  refine .read_bind id ?_ fun member => ?_
  · rintro m _ ⟨h, hh, rfl⟩
    exact hh.own? v name
  · cases member with
    | none => exact .pure rfl
    | some member =>
      have hbind := Passage.carries_bindMember (P := Passage.noting) v member
      rw [show member.rename Passage.noting.value = member from Member.rename_id _] at hbind
      exact hbind.bind fun _ => .pure rfl

theorem carries_answer (q : Question) :
    Passage.noting.Carries (answer (noting fuel digests) q) (answer (noteless fuel digests) q) id := by
  have K := Forgetful.knot digests fuel
  cases q with
  | get v name => exact (carries_peek v name).bind carries_tell
  | getOwn v name => exact (carries_getOwn v name).bind carries_tell
  | has v name =>
    refine .read_bind id ?_ fun b => .pure rfl
    rintro m _ ⟨h, hh, rfl⟩
    exact hh.has v name
  | set v name member =>
    exact (Passage.carries_setMember (P := Passage.noting) v name (.value member) nofun).bind
      fun _ => .pure rfl
  | setMethod v name method =>
    exact (Passage.carries_setMember (P := Passage.noting) v name (.method method) nofun).bind
      fun _ => .pure rfl
  | call v name args =>
    have hcall := K.callNamed v name args
    rw [show args.map Passage.noting.value = args from List.map_id args] at hcall
    exact hcall.bind fun v => carries_tell (some v)
  | frame object parent bindsObject =>
    exact (noting_frames.newFrame parent (some object) bindsObject).bind fun _ => .pure rfl
  | assign f name v => exact (noting_frames.assign f name v).bind fun _ => .pure rfl
  | resolve f name =>
    refine (noting_frames.resolve f name).bind fun v => ?_
    rw [show v.map Passage.noting.value = v from Option.map_id_apply]
    exact carries_tell v
  | execute code =>
    exact (Forgetful.carries_execute fuel digests code).bind fun v => carries_tell (some v)

theorem carries_settle (h : Passage.noting.Carries x y id) :
    Passage.noting.Carries (settle x) (settle y) id := by
  constructor
  · intro m
    have hgrows := h.grows m
    unfold after settle at *
    generalize x m = s at hgrows
    rcases s with _ | ⟨_ | _, _⟩ <;> exact hgrows
  · intro m n hmn _ _
    have hxy := h.holds m n hmn trivial trivial
    unfold settle
    generalize x m = s at hxy
    generalize y n = t at hxy
    cases hxy with
    | ok a hmn' => exact .ok a hmn'
    | failed hfg hmn' =>
      cases hfg
      exact .ok _ hmn'
    | gaveUp m' n' hstop =>
      cases hstop
      exact .gaveUp m' n' rfl
    | unsaid _ _ honeWay => exact honeWay.elim

theorem carries_converse (next : List Reply → Question) (rounds : Nat) (replies : List Reply) :
    Passage.noting.Carries (converse (noting fuel digests) next rounds replies)
      (converse (noteless fuel digests) next rounds replies) id := by
  induction rounds generalizing replies with
  | zero => exact .pure rfl
  | succ rounds ih =>
    exact (carries_settle (carries_answer (next replies))).bind fun reply => ih (reply :: replies)

end replies

/-! ## No notes -/

section unnoted

variable {fuel : Nat} {digests : Digests} {x : Run Reply}

theorem staysUnnoted_tell (v : Option Value) : StaysUnnoted (tell v) := by
  cases v <;> exact fun _ hm => hm

theorem staysUnnoted_bindMember (v : Value) (member : Member) :
    StaysUnnoted (modifyGet fun m =>
      ((m.heap.bind v member).1, { m with heap := (m.heap.bind v member).2 })) :=
  fun _ hm => hm.bind v member

theorem staysUnnoted_getOwn (v : Value) (name : String) : StaysUnnoted (getOwn v name) := by
  refine (staysUnnoted_read _).bind fun member => ?_
  cases member with
  | none => exact staysUnnoted_pure none
  | some member => exact (staysUnnoted_bindMember v member).bind fun _ => staysUnnoted_pure _

theorem staysUnnoted_setMember (v : Value) (name : String) (member : Member)
    (hmember : ∀ s, member ≠ .builtin s) :
    StaysUnnoted (modifyHeap fun h => h.setMember v name member) :=
  fun _ hm => hm.setMember v name hmember

theorem staysUnnoted_callNamed (v : Value) (name : String) (args : List Value) :
    StaysUnnoted ((Forgetful.engine digests fuel).callNamed v name args) := by
  intro m hm
  unfold after
  rw [(Forgetful.neverNotes digests fuel).callNamed v name args m hm]
  refine (staysUnnoted_peek v name).bind (fun found => ?_) m hm
  cases found with
  | none => exact fun _ hm => hm
  | some method => exact fun m _ => Forgetful.unnoted_after_call method args m

theorem staysUnnoted_assign (f : FrameId) (name : String) (v : Value) :
    StaysUnnoted (assign f name v) := by
  refine (staysUnnoted_of_sparesHeap (ignoresHeap_frame f).sparesHeap).bind fun _ m hm => ?_
  change (m.arena.assign m.heap f name v).2.Unnoted
  unfold Arena.assign
  split
  · exact hm.setMember _ name nofun
  · exact hm

theorem staysUnnoted_resolve (f : FrameId) (name : String) : StaysUnnoted (resolve f name) := by
  rw [resolve_eq]
  refine (staysUnnoted_read _).bind fun found => ?_
  cases found with
  | none => exact staysUnnoted_pure none
  | some found =>
    exact (staysUnnoted_bindMember found.1 found.2).bind fun _ => staysUnnoted_pure _

theorem staysUnnoted_answer (q : Question) : StaysUnnoted (answer (noteless fuel digests) q) := by
  cases q with
  | get v name => exact (staysUnnoted_peek v name).bind staysUnnoted_tell
  | getOwn v name => exact (staysUnnoted_getOwn v name).bind staysUnnoted_tell
  | has v name => exact (staysUnnoted_read _).bind fun _ => staysUnnoted_pure _
  | set v name member =>
    exact (staysUnnoted_setMember v name (.value member) nofun).bind fun _ => staysUnnoted_pure _
  | setMethod v name method =>
    exact (staysUnnoted_setMember v name (.method method) nofun).bind fun _ => staysUnnoted_pure _
  | call v name args => exact (staysUnnoted_callNamed v name args).bind fun v => staysUnnoted_tell v
  | frame object parent bindsObject =>
    exact (staysUnnoted_of_sparesHeap (ignoresHeap_newFrame _ _ _).sparesHeap).bind
      fun _ => staysUnnoted_pure _
  | assign f name v => exact (staysUnnoted_assign f name v).bind fun _ => staysUnnoted_pure _
  | resolve f name => exact (staysUnnoted_resolve f name).bind staysUnnoted_tell
  | execute code =>
    exact StaysUnnoted.bind (fun m _ => unnoted_after_forgetting _ m) fun v => staysUnnoted_tell v

theorem staysUnnoted_settle (hx : x.StaysUnnoted) : (settle x).StaysUnnoted := by
  intro m hm
  have hafter := hx m hm
  unfold after settle at *
  generalize x m = s at hafter
  rcases s with _ | ⟨_ | _, _⟩ <;> exact hafter

theorem staysUnnoted_converse (next : List Reply → Question) (rounds : Nat) (replies : List Reply) :
    StaysUnnoted (converse (noteless fuel digests) next rounds replies) := by
  induction rounds generalizing replies with
  | zero => exact staysUnnoted_pure replies
  | succ rounds ih =>
    exact (staysUnnoted_settle (staysUnnoted_answer _)).bind fun reply => ih (reply :: replies)

end unnoted

end Dialogue

/-! ## Names -/

theorem Bindings.mem_names {α : Type} (b : Bindings α) (name : String) :
    name ∈ b.names ↔ (b.get? name).isSome = true := by
  rw [names, get?, List.lookup_isSome_iff, List.mem_map]
  simp only [beq_iff_eq, eq_comm (a := name)]

theorem Heap.mem_memberNames (h : Heap) (v : Value) (name : String) :
    name ∈ h.memberNames v ↔ ((h.get v).members.get? name).isSome = true := by
  rw [memberNames, List.mem_mergeSort, Bindings.mem_names]

/-- Without its notes a value has all the names that stand for more than behaviour of its type. -/
theorem Heap.SameButNotes.memberNames {h h' : Heap} (hh : h.SameButNotes h') (hunnoted : h'.Unnoted)
    (v : Value) (name : String) :
    name ∈ h'.memberNames v ↔
      name ∈ h.memberNames v ∧ ∀ s, (h.get v).members.get? name ≠ some (.builtin s) := by
  rw [mem_memberNames, mem_memberNames, ← Object.own?_of_unnoted (hunnoted v), (hh.object v).own]
  rcases (h.get v).members_cases name with ⟨hget, hown⟩ | ⟨s, hget, hown⟩ | ⟨member, hnote, hget, hown⟩
  · simp [hget, hown]
  · simp [hget, hown]
  · rw [hget, hown]
    cases member with
    | builtin s => cases hnote
    | _ => simp

/-- New machines have no notes. -/
theorem Machine.unnoted_new (config : Config) : (new config).heap.Unnoted :=
  new_induction (P := fun m => m.heap.Unnoted) config (fun _ _ _ => nofun) fun _ _ hm => hm.alloc _

/-! ## Scopes -/

/-- A note of behaviour does not hide a variable further out. -/
theorem Run.resolve_of_noted {m : Machine} {f : FrameId} {name : String} {inner rest : List Frame}
    {outer : Frame} {v : Value} (hchain : m.arena.chain f = inner ++ outer :: rest)
    (hvars : ∀ fr ∈ inner, fr.vars.get? name = none)
    (hnoted : ∀ fr ∈ inner, ∀ object, fr.object = some object → ∀ member,
      (m.heap.get object).members.get? name = some member → member.isNote = true)
    (houter : outer.vars.get? name = some v) : Run.resolve f name m = .ok (some v) m := by
  have hinner : (inner.findSome? fun fr => fr.resolve? m.heap name) = none := by
    refine List.findSome?_eq_none_iff.2 fun fr hfr => ?_
    unfold Frame.resolve?
    rw [hvars fr hfr]
    cases hobject : fr.object with
    | none => rfl
    | some object =>
      have hown : m.heap.own? object name = none := by
        rw [Heap.own?_eq, Object.own?]
        cases hget : (m.heap.get object).members.get? name with
        | none => rfl
        | some member => simp [hnoted fr hfr object hobject member hget]
      simp only [hown, Option.map_none]
  have hlookup : m.arena.lookup? m.heap f name = some (v, m.heap) := by
    rw [Arena.lookup?, hchain, List.findSome?_append, hinner, List.findSome?_cons]
    simp [Frame.resolve?, houter]
  rw [Run.resolve, Run.modifyGet_apply, hlookup]

/-! ## The notes make no difference -/

/-- Whatever is asked of a machine whose notes are of behaviour that the types have, as they are in
new machines, it replies the same with and without notes. In the end, too, notes are of such behaviour,
and the machines are the same but for them. The second machine never takes a note. In a frame, a note
does not hide a variable further out. -/
theorem Dialogue.converse_noteless (fuel : Nat) (digests : Digests) (next : List Reply → Question)
    (rounds : Nat) {m : Machine} (hnotes : m.heap.NotesHold) :
    (∀ replies m', converse (noting fuel digests) next rounds [] m = .ok replies m' →
      ∃ n', converse (noteless fuel digests) next rounds [] m.forgetNotes = .ok replies n' ∧
        m'.SameButNotes n' ∧ n'.heap.Unnoted ∧ ∀ v name,
          (name ∈ n'.heap.memberNames v → name ∈ m'.heap.memberNames v) ∧
          (name ∈ m'.heap.memberNames v → name ∉ n'.heap.memberNames v →
            ((m'.heap.tag v).symbol? name).isSome = true)) ∧
    (∀ replies n', converse (noteless fuel digests) next rounds [] m.forgetNotes = .ok replies n' →
      ∃ m', converse (noting fuel digests) next rounds [] m = .ok replies m') ∧
    (noteless fuel digests).engine.NeverNotes ∧
    (∀ config, (Machine.new config).heap.NotesHold) ∧
    ∀ (k : Machine) (f : FrameId) (name : String) (inner rest : List Frame) (outer : Frame) (v : Value),
      k.arena.chain f = inner ++ outer :: rest → outer.vars.get? name = some v →
      (∀ fr ∈ inner, fr.vars.get? name = none ∧ ∀ object, fr.object = some object → ∀ member,
        (k.heap.get object).members.get? name = some member → member.isNote = true) →
      Run.resolve f name k = .ok (some v) k := by
  have hboth := (@carries_converse fuel digests next rounds []).holds m
    m.forgetNotes (Machine.SameButNotes.refl hnotes).forgetNotes trivial trivial
  refine ⟨fun replies m' hm => ?_, fun replies n' hn => ?_, Forgetful.neverNotes digests fuel,
    fun config => (Machine.unnoted_new config).notesHold, ?_⟩
  · have hunnoted := @staysUnnoted_converse fuel digests next rounds []
      m.forgetNotes m.unnoted_forgetNotes
    unfold Run.after at hunnoted
    rw [hm] at hboth
    generalize converse (noteless fuel digests) next rounds [] m.forgetNotes = t at hboth hunnoted
    cases hboth with
    | @ok _ _ n' hmn =>
      refine ⟨n', rfl, hmn, hunnoted, fun v name => ⟨fun hname => ?_, fun hname hother => ?_⟩⟩
      · exact ((hmn.heap.memberNames hunnoted v name).1 hname).1
      · have hnote : ∃ s, (m'.heap.get v).members.get? name = some (.builtin s) := by
          by_contra hnone
          exact hother ((hmn.heap.memberNames hunnoted v name).2
            ⟨hname, fun s hs => hnone ⟨s, hs⟩⟩)
        obtain ⟨s, hs⟩ := hnote
        exact Option.isSome_iff_exists.2 ⟨s, hmn.heap.notesHold v name s hs⟩
  · rw [hn] at hboth
    generalize converse (noting fuel digests) next rounds [] m = s at hboth
    cases hboth with
    | @ok replies' m' _ _ => exact ⟨m', rfl⟩
    | unsaid _ _ honeWay => exact honeWay.elim
  · exact fun k f name inner rest outer v hchain houter hinner =>
      Run.resolve_of_noted hchain (fun fr hfr => (hinner fr hfr).1) (fun fr hfr => (hinner fr hfr).2)
        houter

/-- The value that is found, if any. -/
def Dialogue.Reply.value? : Reply → Option Value
  | Reply.found r => r.map fun found => found.1
  | _ => none

theorem Dialogue.Reply.eq_found_of_value? {reply : Reply} {v : Value} (h : reply.value? = some v) :
    ∃ kind, reply = .found (some (v, kind)) := by
  cases reply with
  | found r =>
    obtain ⟨⟨u, kind⟩, rfl, rfl⟩ := Option.map_eq_some_iff.1 h
    exact ⟨kind, rfl⟩
  | _ => cases h

/-- The behaviour that a member notes, if it is a note. -/
def Member.symbol? : Member → Option Symbol
  | .builtin s => some s
  | _ => none

theorem Member.eq_builtin_of_symbol? {member : Member} {s : Symbol} (h : member.symbol? = some s) :
    member = .builtin s := by
  cases member with
  | builtin t =>
    cases h
    rfl
  | _ => cases h

/-- Asks for a behaviour of the first type, binds its name to the second type, and asks what the name
means in a frame of the first type. -/
def Dialogue.askBehind : List Reply → Question
  | [] => .get ⟨0⟩ Symbol.toText.name
  | [_] => .assign (Machine.new .standard).globals Symbol.toText.name ⟨1⟩
  | [_, _] => .frame ⟨0⟩ (some (Machine.new .standard).globals) true
  | .frame f :: _ => .resolve f Symbol.toText.name
  | _ => .has ⟨0⟩ Symbol.toText.name

/-- A type is asked for its text, of which a note is taken, and a global variable gets the same name.
Inside a frame whose object is the type, the name means the variable. -/
theorem Dialogue.converse_noteless_variable :
    (Machine.new .standard).heap.NotesHold ∧
      ∃ (object outer : Value) (next : List Reply → Question) (rounds : Nat) (kind : Kind)
        (earlier : List Reply) (m' n' : Machine),
        converse (noting 9 .standard) next rounds [] (.new .standard) =
          .ok (.found (some (outer, kind)) :: earlier) m' ∧
        (m'.heap.get object).members.get? Symbol.toText.name = some (.builtin .toText) ∧
        converse (noteless 9 .standard) next rounds [] (Machine.new .standard).forgetNotes =
          .ok (.found (some (outer, kind)) :: earlier) n' ∧ n'.heap.Unnoted := by
  have hreplies : ((finished? (converse (noting 9 .standard) askBehind 4 [] (.new .standard))).any
      fun r => decide (r.1.head?.bind Reply.value? = some ⟨1⟩) &&
        decide (((r.2.heap.get ⟨0⟩).members.get? Symbol.toText.name).bind Member.symbol? =
          some .toText)) = true := by
    decide +kernel
  obtain ⟨⟨replies, m'⟩, hm, hreplies⟩ := (Option.any_eq_true _ _).1 hreplies
  have hm := eq_ok_of_finished? hm
  obtain ⟨hfound, hnote⟩ := Bool.and_eq_true_iff.1 hreplies
  obtain ⟨reply, hreply, hvalue⟩ := Option.bind_eq_some_iff.1 (of_decide_eq_true hfound)
  obtain ⟨earlier, rfl⟩ := List.head?_eq_some_iff.1 hreply
  obtain ⟨kind, rfl⟩ := reply.eq_found_of_value? hvalue
  obtain ⟨member, hmember, hsymbol⟩ := Option.bind_eq_some_iff.1 (of_decide_eq_true hnote)
  have hnotes := (Machine.unnoted_new .standard).notesHold
  obtain ⟨n', hn, -, hunnoted, -⟩ := (converse_noteless 9 .standard askBehind 4 hnotes).1 _ m' hm
  refine ⟨hnotes, ⟨0⟩, ⟨1⟩, askBehind, 4, kind, earlier, m', n', hm, ?_, hn, hunnoted⟩
  rw [hmember, member.eq_builtin_of_symbol? hsymbol]

end ScriptVM
