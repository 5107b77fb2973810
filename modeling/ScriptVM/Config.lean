import ScriptVM.Text.Integer
import ScriptVM.Text.Whitespace

/-!
# Configuration

The limits and diagnostics switches of a machine, and how the environment overrides their
defaults. A variable that is absent or malformed keeps the default.
-/
namespace ScriptVM

/-- Limits and diagnostics switches of a machine. -/
structure Config where
  /-- How many activations may be on the call stack, the global one included. -/
  maxCallDepth : Nat
  /-- Whether every executed instruction is logged. -/
  trace : Bool
  /-- How many operands the global frame reserves room for. -/
  stackCapacity : Nat
  deriving DecidableEq, Repr

namespace Config

/-- The settings of a machine that is not configured. -/
def standard : Config := ⟨128, false, 256⟩

instance : Inhabited Config := ⟨standard⟩

/-- The count that a variable holds, white space around it ignored. -/
def readCount? (value : String) : Option Nat := Text.count? (Text.trimChars value.toList)

/-- Whether a switch is on: `1`, or `true` in any case. -/
def readSwitch (value : String) : Bool :=
  value = "1" || value.toList.map Char.toLower = "true".toList

/-- The settings under an environment. -/
def ofEnvironment (lookup : String → Option String) : Config where
  maxCallDepth := ((lookup "PLASMA_MAX_CALL_DEPTH").bind readCount?).getD standard.maxCallDepth
  trace := ((lookup "PLASMA_TRACE").map readSwitch).getD standard.trace
  stackCapacity := ((lookup "PLASMA_STACK_CAPACITY").bind readCount?).getD standard.stackCapacity

end Config
end ScriptVM
