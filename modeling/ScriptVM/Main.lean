import ScriptVM.CommandLine

/-!
# The program

Reads the environment and the named file, and prints what the command line says.
-/
namespace ScriptVM

/-- The content of a file. -/
def readContent (path : String) : IO (Except FileError (List UInt8)) := do
  try
    return .ok (← IO.FS.readBinFile path).toList
  catch
    | .noFileOrDirectory .. => return .error .notFound
    | e => return .error (.other (toString e))

/-- Runs the command line with the real system around it. -/
def runProgram (args : List String) : IO UInt32 := do
  let mut environment : Bindings String := .empty
  for name in CommandLine.environmentNames do
    if let some value ← IO.getEnv name then environment := environment.insert name value
  let content ← match args with
    | [_, path] => readContent path
    | _ => pure (.error .notFound)
  let output ← IO.getStdout
  let outcome := CommandLine.run ⟨environment.get?, ← output.isTty, fun _ => content⟩ args
  IO.print outcome.standardOutput
  IO.eprint outcome.standardError
  return outcome.exitCode

end ScriptVM

/-- The program. -/
def main (args : List String) : IO UInt32 := ScriptVM.runProgram args
