import ScriptVM.Lowering.Statement
import ScriptVM.Machine.Step

/-!
# Execution

Calls and runs of code, each by way of the other. A call, and a body that runs as an activation,
leave one unit of fuel less to what happens inside, and the fuel that is left also bounds the
instructions of a body, so the recursion is on the fuel. With more fuel a computation that ended
ends in the same way.
-/
namespace ScriptVM

open Run

/-- The value of a body that has ended, `None` unless it was left with one, and where it stood. -/
def Flow.finish : Flow → Run (Value × Cursor)
  | .next c => do return (← newNone, c)
  | .leave v c => return (v, c)

namespace Engine

/-- Executes instructions of code in a frame, until nothing is under the cursor or the body is
left. At most so many steps are taken. -/
def dispatch (e : Engine) : Nat → FrameId → Cursor → Run Flow
  | 0, _, _ => giveUp
  | steps + 1, id, c =>
    match c.next? with
    | none => return .next c
    | some (i, after) => do
      trace c.index i
      match ← located i.span (e.step id after i.op) with
      | .next c => e.dispatch steps id c
      | .leave v c => return .leave v c

/-- Runs code in a frame until it ends or is left, and tells where it stood then. -/
def run (e : Engine) (id : FrameId) (c : Cursor) : Run (Value × Cursor) := do
  (← e.dispatch e.fuel id c).finish

/-- The machine with some fuel. -/
def withFuel (fuel : Nat) (digests : Digests) : Engine :=
  match fuel with
  | 0 => ⟨0, fun _ _ => giveUp, fun _ _ => giveUp, digests, false⟩
  | fuel + 1 =>
    ⟨fuel + 1, fun callee args => (withFuel fuel digests).callValue callee args,
      fun id c => activation id ((withFuel fuel digests).run id c), digests, false⟩

@[simp] theorem fuel_withFuel (fuel : Nat) (d : Digests) : (withFuel fuel d).fuel = fuel := by
  cases fuel <;> rfl

@[simp] theorem digests_withFuel (fuel : Nat) (d : Digests) : (withFuel fuel d).digests = d := by
  cases fuel <;> rfl

@[simp] theorem tracks_withFuel (fuel : Nat) (d : Digests) : (withFuel fuel d).tracks = false := by
  cases fuel <;> rfl

@[simp] theorem keep_withFuel {α : Type} (fuel : Nat) (d : Digests) (refs : List Reference)
    (x : Run α) : (withFuel fuel d).keep refs x = x :=
  keep_of_plain (tracks_withFuel fuel d) refs x

/-- More fuel than any computation uses up in practice. -/
def ample : Engine := withFuel 0x4000000000000000 .standard

/-- Executes code in the global frame from where the cursor stands. The value is that of a return
outside of functions, or `None`. After a failure the machine is brought back to rest. -/
def execute (e : Engine) (code : Cursor) : Run Value := fun m =>
  match e.run m.globals code m with
  | .ok (v, _) m => .ok v m
  | .error stop m => .error stop m.reset

/-- What a global name is bound to. -/
def global? (name : String) : Run (Option Value) := fun m => resolve m.globals name m

end Engine
end ScriptVM
