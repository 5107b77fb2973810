/-!
# Bindings

Names bound to things, at most once each. Scopes and member tables are bindings.
-/
namespace ScriptVM

/-- Names bound to values of a type. -/
structure Bindings (α : Type) where
  entries : List (String × α)

namespace Bindings

variable {α : Type}

/-- No bindings. -/
def empty : Bindings α := ⟨[]⟩

instance : Inhabited (Bindings α) := ⟨empty⟩

/-- What a name is bound to. -/
def get? (b : Bindings α) (name : String) : Option α := b.entries.lookup name

/-- Whether a name is bound. -/
def contains (b : Bindings α) (name : String) : Bool := (b.get? name).isSome

/-- Replaces what a name is bound to, or binds it at the end. -/
def insertInto (name : String) (value : α) : List (String × α) → List (String × α)
  | [] => [(name, value)]
  | (other, old) :: rest =>
    if name = other then (name, value) :: rest else (other, old) :: insertInto name value rest

/-- Binds a name, whatever it was bound to. -/
def insert (b : Bindings α) (name : String) (value : α) : Bindings α :=
  ⟨insertInto name value b.entries⟩

/-- Takes a binding away. -/
def erase (b : Bindings α) (name : String) : Bindings α :=
  ⟨b.entries.filter fun entry => entry.1 ≠ name⟩

/-- Things bound to their positions in a list. -/
def numbered (values : List α) : Bindings α :=
  ⟨values.zipIdx.map fun entry => (toString entry.2, entry.1)⟩

/-- The bound names. -/
def names (b : Bindings α) : List String := b.entries.map (·.1)

/-- What the names are bound to. -/
def values (b : Bindings α) : List α := b.entries.map (·.2)

@[simp] theorem values_numbered (values : List α) : (numbered values).values = values := by
  simp [Bindings.values, numbered, Function.comp_def]

theorem lookup_insertInto (entries : List (String × α)) (name other : String) (value : α) :
    (insertInto name value entries).lookup other =
      if other = name then some value else entries.lookup other := by
  induction entries with
  | nil =>
    by_cases h : other = name
    · simp [insertInto, h]
    · simp [insertInto, List.lookup_cons, beq_false_of_ne h, h]
  | cons entry rest ih =>
    obtain ⟨key, old⟩ := entry
    by_cases hk : name = key
    · subst hk
      by_cases h : other = name
      · simp [insertInto, h]
      · simp [insertInto, List.lookup_cons, beq_false_of_ne h, h]
    · by_cases h : other = key
      · have hn : key ≠ name := fun e => hk e.symm
        simp [insertInto, hk, h, hn]
      · simp [insertInto, List.lookup_cons, hk, beq_false_of_ne h, ih]

theorem get?_insert (b : Bindings α) (name other : String) (value : α) :
    (b.insert name value).get? other = if other = name then some value else b.get? other :=
  lookup_insertInto b.entries name other value

end Bindings
end ScriptVM
