import ScriptVM.Proofs.Session.Serve

/-!
# Sessions

A host takes one turn after the other. In a turn it makes a request about values that it finds in
global names, and it keeps what it gets in global names, too: a value, or the value of a failure. A
session is over when a request does not end with the fuel that there is.
-/
namespace ScriptVM

/-! ## Requests about names -/

/-- A datum of other things. -/
def Datum.map {α β : Type} (f : α → β) : Datum α → Datum β
  | .none => .none
  | .bool b => .bool b
  | .integer n => .integer n
  | .float x => .float x
  | .string s => .string s
  | .bytes content => .bytes content
  | .tuple items => .tuple (items.map f)
  | .array items => .array (items.map f)
  | .hash => .hash
  | .iterator items => .iterator (items.map f)
  | .error kind message => .error kind message
  | .module name => .module name

/-- A request about other things. -/
def Request.map {α β : Type} (f : α → β) : Request α → Request β
  | .execute code => .execute code
  | .make datum => .make (datum.map f)
  | .global name => .global name
  | .define name v => .define name (f v)
  | .call callee args => .call (f callee) (args.map f)
  | .symbol on name args => .symbol (f on) name (args.map f)
  | .operation operator left right => .operation operator (f left) (f right)
  | .construct cls => .construct (f cls)
  | .resume v => .resume (f v)
  | .equals left right => .equals (f left) (f right)
  | .hash v => .hash (f v)
  | .truthy v => .truthy (f v)
  | .stringify v => .stringify (f v)
  | .iterator v => .iterator (f v)
  | .hasNext v => .hasNext (f v)
  | .next v => .next (f v)
  | .drain v => .drain (f v)
  | .unpack v count => .unpack (f v) count
  | .find on name => .find (f on) name
  | .findOwn on name => .findOwn (f on) name
  | .set on name v => .set (f on) name (f v)
  | .store table key v => .store (f table) (f key) (f v)
  | .reset => .reset
  | .collect => .collect

theorem Datum.values_map {α β : Type} (f : α → β) (datum : Datum α) :
    (datum.map f).values = datum.values.map f := by
  cases datum <;> rfl

theorem Request.values_map {α β : Type} (f : α → β) (r : Request α) :
    (r.map f).values = r.values.map f := by
  cases r with
  | make datum => exact datum.values_map f
  | _ => rfl

namespace Run

/-- The value of a global name. -/
def named (name : String) : Run Value := do
  match ← Engine.global? name with
  | some v => return v
  | none => fail (.undefinedIdentifier name)

/-- The values of global names. -/
def fetch : List String → Run (String → Value)
  | [] => return fun _ => ⟨0⟩
  | name :: rest => do
    let v ← named name
    let others ← fetch rest
    return fun other => if other = name then v else others other

end Run

/-! ## Turns -/

/-- What a host asks of a machine, and the names in which it keeps what it gets. -/
structure Turn where
  request : Request String
  /-- Where the host keeps a value. -/
  keep : Option String
  /-- Where the host keeps the value of a failure. -/
  caught : Option String

/-- The value that a host gets. -/
def Answer.value? : Answer → Option Value
  | .value v => some v
  | .optional v => v
  | _ => none

theorem Answer.mem_values_of_value? {a : Answer} {v : Value} (h : v ∈ a.value?) : v ∈ a.values := by
  cases a with
  | value u => exact List.mem_singleton.2 (Option.some.inj h).symm
  | optional r => exact Option.mem_toList.2 h
  | _ => cases h

/-- What a host sees after a turn: the reply, what the global names are bound to, and all of the
machine but its frames. -/
structure Seen where
  reply : Except Failure Answer
  globals : Option (Bindings Value)
  rest : Machine

/-- What a host sees of a machine. -/
def Machine.seen (m : Machine) (reply : Except Failure Answer) : Seen where
  reply := reply
  globals := (m.arena.get? m.globals).map Frame.vars
  rest := { m with arena := .empty }

/-- Keeps a value in a global name, if there is one. -/
def Machine.keep (m : Machine) (name : Option String) (v : Option Value) : Machine :=
  match name, v with
  | some name, some v => m.defineGlobal name v
  | _, _ => m

/-- Keeps the value of a failure in a global name, if there is one. -/
def Machine.keepFailure (m : Machine) (name : Option String) (f : Failure) : Machine :=
  match name, f.toValue? m.heap with
  | some name, some (v, heap) => { m with heap := heap }.defineGlobal name v
  | _, _ => m

/-- The request of a turn, once its values are found. The machine knows what the host lends to it. -/
def Turn.ask (t : Turn) (s : Service) : Run Answer := do
  let value ← Run.fetch t.request.values
  let request := t.request.map value
  s.engine.keep (request.borrowed.map .value) (s.serve request)

namespace Service

/-- One turn: what the host sees then, and the machine, unless the request does not end. -/
def take (s : Service) (t : Turn) (m : Machine) : Option (Seen × Machine) :=
  match t.ask s m with
  | .ok a m =>
    let m := m.keep t.keep a.value?
    some (m.seen (.ok a), m)
  | .error (.failed f) m =>
    let m := m.keepFailure t.caught f
    some (m.seen (.error f), m)
  | .error (.gaveUp _) _ => none

/-- One turn after the other. -/
def session (s : Service) : List Turn → Machine → Option (List Seen × Machine)
  | [], m => some ([], m)
  | t :: rest, m => do
    let (seen, m) ← s.take t m
    let (later, m) ← s.session rest m
    return (seen :: later, m)

end Service

/-! ## Values that are fetched -/

namespace Likeness

variable {L : Likeness} {w : L.World}

/-- Machines on which global names mean the same give a host the same values. -/
theorem agree_fetch (hglobal : ∀ w' name, L.le w w' →
      L.Agree w' (Engine.global? name) (Engine.global? name) fun _ r => ∀ v ∈ r, L.good v)
    (names : List String) :
    L.Agree w (Run.fetch names) (Run.fetch names) fun _ value =>
      ∀ name ∈ names, L.good (value name) := by
  induction names generalizing w with
  | nil => exact .pure nofun
  | cons name rest ih =>
    have hnamed : L.Agree w (Run.named name) (Run.named name) fun _ v => L.good v := by
      refine (hglobal w name (L.refl w)).bind fun _ r _ hr => ?_
      cases r with
      | some v => exact .pure (hr v rfl)
      | none => exact .fail (L.admits_ordinary rfl)
    refine hnamed.bind fun w₁ v hw₁ hv => ?_
    refine (ih fun w' name hw' => hglobal w' name (L.trans hw₁ hw')).bind fun w₂ others _ hothers => ?_
    refine .pure fun other hother => ?_
    split
    · exact hv
    · rename_i hne
      exact hothers other ((List.mem_cons.1 hother).resolve_left hne)

/-! ## What a host keeps -/

section keeping

variable {m n : Machine} (hdefine : ∀ {m n : Machine} (name : String) {v : Value}, L.Alike w m n →
  L.good v → L.Alike w (m.defineGlobal name v) (n.defineGlobal name v))

include hdefine

/-- A host keeps a good value. -/
theorem Alike.keep (h : L.Alike w m n) (name : Option String) {v : Option Value}
    (hv : ∀ u ∈ v, L.good u) : L.Alike w (m.keep name v) (n.keep name v) := by
  unfold Machine.keep
  split
  · exact hdefine _ h (hv _ rfl)
  · exact h

/-- A host keeps the value of a failure. -/
theorem Alike.keepFailure (h : L.Alike w m n) (name : Option String) {f : Failure}
    (hf : ∀ v, f.cause = .raised v → L.good v) :
    L.Alike w (m.keepFailure name f) (n.keepFailure name f) := by
  have hvalue : ∀ v heap, f.toValue? m.heap = some (v, heap) →
      L.good v ∧ L.Alike w { m with heap := heap } { n with heap := heap } := by
    intro v heap hfound
    unfold Failure.toValue? at hfound
    split at hfound
    · rename_i u hcause
      cases hfound
      exact ⟨hf v hcause, h.setHeap (.refl _) h.sound⟩
    · obtain ⟨message, -, halloc⟩ := Option.map_eq_some_iff.1 hfound
      cases halloc
      exact ⟨h.good_alloc (.error f.cause.kindName message), h.alloc trivial⟩
  unfold Machine.keepFailure
  rw [h.heap]
  cases name with
  | none => exact h
  | some name =>
    cases hfound : f.toValue? m.heap with
    | none => exact h
    | some found =>
      obtain ⟨hgood, halike⟩ := hvalue found.1 found.2 hfound
      exact hdefine name halike hgood

end keeping

/-! ## Turns on machines that are alike -/

section turns

variable {w' : L.World} {m n m' : Machine} {s s' : Service} {t : Turn} {turns : List Turn}

/-- Where global names mean the same, turns ask for the same if requests about good values do. -/
theorem agree_ask (hglobal : ∀ w' name, L.le w w' →
      L.Agree w' (Engine.global? name) (Engine.global? name) fun _ r => ∀ v ∈ r, L.good v)
    (hserve : ∀ w' r, L.le w w' → (∀ v ∈ r.values, L.good v) →
      L.Agree w' (s.engine.keep (r.borrowed.map .value) (s.serve r))
        (s'.engine.keep (r.borrowed.map .value) (s'.serve r)) fun _ a => ∀ v ∈ a.values, L.good v)
    (t : Turn) : L.Agree w (t.ask s) (t.ask s') fun _ a => ∀ v ∈ a.values, L.good v := by
  refine (agree_fetch hglobal t.request.values).bind fun w' value hw' hvalue => ?_
  refine hserve w' (t.request.map value) hw' fun v hv => ?_
  rw [Request.values_map] at hv
  obtain ⟨name, hname, rfl⟩ := List.mem_map.1 hv
  exact hvalue name hname

/-- Services that take turns alike. -/
structure Takes (L : Likeness) (w : L.World) (s s' : Service) : Prop where
  ask : ∀ {w'} (t : Turn), L.le w w' →
    L.Agree w' (t.ask s) (t.ask s') fun _ a => ∀ v ∈ a.values, L.good v
  define : ∀ {w' m n} (name : String) {v : Value}, L.le w w' → L.Alike w' m n → L.good v →
    L.Alike w' (m.defineGlobal name v) (n.defineGlobal name v)
  raised : ∀ {v : Value}, L.admits (.raised v) → L.good v

theorem Takes.take (h : L.Takes w s s') (hw : L.le w w') (hmn : L.Alike w' m n) {seen : Seen}
    (ht : s.take t m = some (seen, m')) :
    ∃ seen' n' w'', s'.take t n = some (seen', n') ∧ L.le w w'' ∧ L.Alike w'' m' n' := by
  have hends := h.ask t hw m n hmn
  unfold Service.take at ht ⊢
  generalize t.ask s m = x at hends ht
  generalize t.ask s' n = y at hends ⊢
  revert ht
  refine hends.byEnds ?_ ?_ ?_
  · intro why k r ht
    cases ht
  · intro a k l w'' hw'' ha halike ht
    have hle := L.trans hw hw''
    cases ht
    exact ⟨_, _, w'', rfl, hle, halike.keep (fun name _ hkl => h.define name hle hkl) t.keep
      fun u hu => ha u (Answer.mem_values_of_value? hu)⟩
  · intro f k l w'' hw'' hadmits halike ht
    have hle := L.trans hw hw''
    cases ht
    exact ⟨_, _, w'', rfl, hle, halike.keepFailure (fun name _ hkl => h.define name hle hkl) t.caught
      fun v hv => h.raised (hv ▸ hadmits)⟩

theorem Takes.session (h : L.Takes w s s') (hw : L.le w w') (hmn : L.Alike w' m n) {seen : List Seen}
    (hs : s.session turns m = some (seen, m')) :
    ∃ seen' n' w'', s'.session turns n = some (seen', n') ∧ L.le w w'' ∧ L.Alike w'' m' n' := by
  induction turns generalizing m n w' seen with
  | nil =>
    cases hs
    exact ⟨_, n, w', rfl, hw, hmn⟩
  | cons t rest ih =>
    obtain ⟨⟨first, m₁⟩, htake, hs⟩ := Option.bind_eq_some_iff.1 hs
    obtain ⟨⟨later, m₂⟩, hrest, hs⟩ := Option.bind_eq_some_iff.1 hs
    cases hs
    obtain ⟨first', n₁, w₁, htake', hw₁, h₁⟩ := h.take hw hmn htake
    obtain ⟨later', n₂, w₂, hrest', hw₂, h₂⟩ := ih hw₁ h₁ hrest
    refine ⟨first' :: later', n₂, w₂, ?_, hw₂, h₂⟩
    simp only [Service.session, htake', hrest', Option.bind_eq_bind, Option.bind_some]
    rfl

end turns
end Likeness
end ScriptVM
