import ScriptVM.Machine.Execution
import ScriptVM.Saved.Store

/-!
# The command line

What the program does with its arguments, as a function of the arguments, the environment and
the files: run saved code and print its result, or print its listing.
-/
namespace ScriptVM.CommandLine

/-- What a run of the program can see of the system. -/
structure System where
  environment : String → Option String
  /-- Whether the standard output is a terminal. -/
  isTerminal : Bool
  /-- The content of the file under a path. -/
  content : String → Except FileError (List UInt8)

/-- What a run of the program leaves behind. -/
structure Outcome where
  exitCode : UInt32
  standardOutput : String
  standardError : String

/-- The environment variables that the program reads. -/
def environmentNames : List String :=
  ["PLASMA_MAX_CALL_DEPTH", "PLASMA_TRACE", "PLASMA_STACK_CAPACITY", "CLICOLOR_FORCE", "CLICOLOR",
   "NO_COLOR"]

/-- The version of the program. -/
def version : String := "0.4.0"

/-- How the program is used. -/
def usage : String :=
  "\n".intercalate
    ["Plasma " ++ version ++ " - bytecode VM",
     "",
     "Usage: plasma run <file>",
     "       plasma dis <file>",
     "",
     "Files ending in .json are read as JSON, anything else as MessagePack.",
     "",
     "Environment:",
     "  PLASMA_MAX_CALL_DEPTH  Maximum call depth (default: " ++
       toString Config.standard.maxCallDepth ++ ")",
     "  PLASMA_TRACE           Trace every instruction to stderr (1/true)",
     "  PLASMA_STACK_CAPACITY  Initial operand stack capacity (default: " ++
       toString Config.standard.stackCapacity ++ ")",
     ""]

/-- Whether output is colored: when that is forced, or on a terminal unless it is switched off.
A variable that is `0` counts as switched off. -/
def isColored (s : System) : Bool :=
  let isOn : String → Option Bool := fun name =>
    (s.environment name).map fun value => value != "0"
  isOn "CLICOLOR_FORCE" = some true ||
    ((isOn "NO_COLOR").isNone && (isOn "CLICOLOR").getD true && s.isTerminal)

/-- The line that reports an error. -/
def errorLine (colored : Bool) (message : String) : String :=
  paint colored errorStyle "Error:" ++ " " ++ message ++ "\n"

/-- The outcome of a run that failed, after some output of diagnostics. -/
def failed (s : System) (exitCode : UInt32) (diagnostics message : String) : Outcome :=
  ⟨exitCode, "", diagnostics ++ errorLine (isColored s) message⟩

/-- The line of an executed instruction. -/
def traceLine (colored : Bool) (entry : TraceEntry) : String :=
  paint colored depthStyle ("[" ++ toString entry.depth ++ "]") ++ " " ++
    entry.instruction.format colored entry.position ++ "\n"

/-- The log of a machine as text. -/
def traceText (colored : Bool) (log : List TraceEntry) : String :=
  String.join (log.reverse.map (traceLine colored))

/-- What is said of a program or a text that has no end. -/
def endless : String := "The program does not end"

/-- Executes code and prints its result, unless that is `None`. -/
def runCode (s : System) (code : View) : Outcome :=
  let diagnostics := fun (m : Machine) => traceText (isColored s) m.log
  match Engine.ample.execute (.ofView code) (Machine.new (Config.ofEnvironment s.environment)) with
  | .ok v m =>
    if m.heap.isNone v then ⟨0, "", diagnostics m⟩
    else
      match m.heap.repr? v with
      | some text => ⟨0, text ++ "\n", diagnostics m⟩
      | none => failed s 70 (diagnostics m) endless
  | .error (.failed f) m => failed s 70 (diagnostics m) ((f.message? m.heap).getD endless)
  | .error (.gaveUp _) m => failed s 70 (diagnostics m) endless

/-- Does something with the code in a file. -/
def withCode (s : System) (path : String) (use : View → Outcome) : Outcome :=
  match View.ofFile path (s.content path) with
  | .ok code => use code
  | .error e => failed s 65 "" e.message

/-- Runs the program. -/
def run (s : System) : List String → Outcome
  | ["run", path] => withCode s path (runCode s)
  | ["dis", path] => withCode s path fun code => ⟨0, code.listingText (isColored s), ""⟩
  | ["--help"] | ["-h"] => ⟨0, "", usage⟩
  | ["--version"] | ["-V"] => ⟨0, "plasma " ++ version ++ "\n", ""⟩
  | _ => ⟨64, "", usage⟩

end ScriptVM.CommandLine
