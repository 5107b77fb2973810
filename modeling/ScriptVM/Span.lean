/-!
# Source lines

Instructions, syntax nodes and errors remember the source line they belong to when it is
known. Only the line is tracked.
-/
namespace ScriptVM

/-- Where something stands in the source: a line, or nothing for what has no line of its own. -/
structure Span where
  line : Option Nat
  deriving DecidableEq, Repr, Inhabited

namespace Span

/-- The position of something whose line is not known. -/
def unknown : Span := ⟨none⟩

/-- A position on a line. -/
def onLine (line : Nat) : Span := ⟨some line⟩

/-- Whether the line is known. -/
def isKnown (s : Span) : Bool := s.line.isSome

/-- The first known one of two positions: the inner position wins over the outer one. -/
def orElse (inner outer : Span) : Span := if inner.isKnown then inner else outer

/-- How error messages name a position. -/
def describe (s : Span) : String :=
  match s.line with
  | some line => "line " ++ toString line
  | none => "unknown line"

@[simp] theorem orElse_onLine (line : Nat) (s : Span) : (onLine line).orElse s = onLine line := rfl

@[simp] theorem orElse_unknown (s : Span) : unknown.orElse s = s := rfl

@[simp] theorem orElse_unknown_right (s : Span) : s.orElse unknown = s := by
  cases s with
  | mk line => cases line <;> rfl

theorem orElse_assoc (a b c : Span) : (a.orElse b).orElse c = a.orElse (b.orElse c) := by
  cases a with
  | mk line => cases line <;> rfl

end Span
end ScriptVM
