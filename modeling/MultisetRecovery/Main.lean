import MultisetRecovery.CommandLine.Execution

/-!
# The program

Reads the arguments, the input that the command asks for and the clock, and prints what the command
prints. Messages about the progress go to the standard error output, so many as asked for.
-/

namespace MultisetRecovery.CommandLine

/-- The short form of the grammar. -/
def usage : String :=
  "usage: multiset-recovery [-h] [-v] \x7bsolve,generate,benchmark,demo\x7d ...\n"

/-- Whether an event is told at a verbosity. -/
def isTold (verbosity : Nat) (e : Event) : Bool :=
  match e.severity with
  | .warning | .error => true
  | .info => 1 ≤ verbosity
  | .debug => 2 ≤ verbosity

/-- The input of a command. -/
def readInput (command : Command) : IO Input := do
  match command.file? with
  | none => return .standardInput ""
  | some "-" => return .standardInput (← (← IO.getStdin).readToEnd)
  | some name =>
    try
      return .file (.ok (← IO.FS.readBinFile name).toList)
    catch
      | .permissionDenied _ code _ | .inappropriateType _ code _ | .invalidArgument _ code _ =>
        return .file (.error (.ofNumber code.toNat))
      | _ => return .file (.error .notFound)

/-- The clock of the machine. -/
def stopwatch : Stopwatch IO where
  now := return Float.ofNat (← IO.monoNanosNow) / 1e9
  run report := IO.lazyPure report

/-- Carries out the command line and ends with its exit code. -/
def run (args : List String) : IO UInt32 := do
  match Invocation.ofArguments args with
  | .error .help =>
    IO.print usage
    return 0
  | .error stop =>
    IO.eprint usage
    return UInt32.ofNat stop.code
  | .ok invocation =>
    let output ← invocation.command.execute stopwatch (← readInput invocation.command)
    for e in output.journal.filter (isTold invocation.verbosity) do
      IO.eprintln (e.severity.name ++ ": " ++ e.message)
    IO.print output.out
    IO.eprint output.err
    match output.exit with
    | .ok code => return UInt32.ofNat code
    | .error e =>
      IO.eprintln ("error: " ++ e.message)
      return 1

end MultisetRecovery.CommandLine

/-- The entry point of the program. -/
def main (args : List String) : IO UInt32 := MultisetRecovery.CommandLine.run args
