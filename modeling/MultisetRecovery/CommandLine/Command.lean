import MultisetRecovery.CommandLine.Grammar
import MultisetRecovery.Settings
import MultisetRecovery.Text.Integer

/-!
# The commands

What can be asked for on the command line: solving an instance, drawing one, timing a grid of them,
and the walkthrough. All of them take a request for help; more messages about the progress are asked
for in front of the command.

An option can be given without a value, by a double hyphen in the place of one. A list of values is
then empty; where a single value is needed, the lack of it shows only when the command uses it.
-/

namespace MultisetRecovery.CommandLine

/-- What an option was given, or has by default. -/
inductive Given (α : Type) where
  /-- A value. -/
  | value (a : α)
  /-- The option was given without a value. -/
  | nothing
deriving DecidableEq

/-- A command with its settings. -/
inductive Command where
  /-- Solve the instance in a file. -/
  | solve (file : String) (seed : Given (Option Int)) (method : Given Method) (attempts : Given Int)
  /-- Draw an instance. -/
  | generate (bits count : Given Int) (seed : Given (Option Int))
  /-- Time a grid of instances. -/
  | benchmark (sizes counts : List Int) (repeats seed : Given Int)
  /-- Show the walkthrough. -/
  | walkthrough
deriving DecidableEq

/-- A command and how much of its progress is told. -/
structure Invocation where
  /-- The command. -/
  command : Command
  /-- How often more messages were asked for. -/
  verbosity : Nat
deriving DecidableEq

/-- The request for help. -/
def helpRule {α : Type} : OptionRule α := ⟨["-h", "--help"], .flag, fun _ _ => .error .help⟩

/-- An option that takes a value, by the reading of one. -/
def valueRule {α β : Type} (names : List String) (read : String → Option β)
    (put : Given β → α → α) : OptionRule α :=
  ⟨names, .one, fun args a =>
    match args.mapM read with
    | some [] => .ok (put .nothing a)
    | some [v] => .ok (put (.value v) a)
    | _ => .error .badUsage⟩

/-- An option that takes an integer. -/
def integerRule {α : Type} (names : List String) (put : Given Int → α → α) : OptionRule α :=
  valueRule names Text.integer? put

/-- An option that takes a seed. -/
def seedRule {α : Type} (put : Given (Option Int) → α → α) : OptionRule α :=
  valueRule ["--seed"] (fun s => (Text.integer? s).map some) put

/-- An option that takes integers. -/
def integersRule {α : Type} (names : List String) (put : List Int → α → α) : OptionRule α :=
  ⟨names, .many, fun args a =>
    match args.mapM Text.integer? with
    | some vs => .ok (put vs a)
    | none => .error .badUsage⟩

/-- The settings of the command that solves. -/
structure SolveSettings where
  /-- The name of the file, `-` for the standard input. -/
  file : Option String
  /-- The seed of the random shifts. -/
  seed : Given (Option Int)
  /-- The method of finding roots. -/
  method : Given Method
  /-- The shifts to try for each split. -/
  attempts : Given Int

/-- The grammar of the command that solves. -/
def solveGrammar : Grammar SolveSettings where
  options := [
    helpRule,
    seedRule fun v a => { a with seed := v },
    valueRule ["--root-finder"] Method.ofName? fun v a => { a with method := v },
    integerRule ["--max-split-attempts"] fun v a => { a with attempts := v }]
  positional := some ⟨false, fun args a => .ok { a with file := args.head? }⟩

/-- The settings of the command that draws an instance. -/
structure GenerateSettings where
  /-- The number of bits of the prime. -/
  bits : Given Int
  /-- The number of messages. -/
  count : Given Int
  /-- The seed of the draw. -/
  seed : Given (Option Int)

/-- The grammar of the command that draws an instance. -/
def generateGrammar : Grammar GenerateSettings where
  options := [
    helpRule,
    integerRule ["--bits"] fun v a => { a with bits := v },
    integerRule ["-n"] fun v a => { a with count := v },
    seedRule fun v a => { a with seed := v }]
  positional := none

/-- The settings of the command that times a grid. -/
structure BenchmarkSettings where
  /-- The numbers of bits of the primes. -/
  sizes : List Int
  /-- The numbers of messages. -/
  counts : List Int
  /-- The number of instances at each point. -/
  repeats : Given Int
  /-- The seed of the draws. -/
  seed : Given Int

/-- The grammar of the command that times a grid. -/
def benchmarkGrammar : Grammar BenchmarkSettings where
  options := [
    helpRule,
    integersRule ["--bits"] fun vs a => { a with sizes := vs },
    integersRule ["-n"] fun vs a => { a with counts := vs },
    integerRule ["--repeats"] fun v a => { a with repeats := v },
    integerRule ["--seed"] fun v a => { a with seed := v }]
  positional := none

/-- The grammar of the command that shows the walkthrough. -/
def walkthroughGrammar : Grammar Unit := ⟨[helpRule], none⟩

/-- A command as far as it has been read. -/
structure Draft where
  /-- The command. -/
  command : Option Command
  /-- Whether there was something behind it that it does not take. -/
  leftover : Bool
  /-- How often more messages were asked for. -/
  verbosity : Nat

/-- The command of a grammar, by its arguments. -/
def readCommand {α : Type} (g : Grammar α) (initial : α) (make : α → Option Command)
    (args : List String) (p : Draft) : Except Stop Draft := do
  let progress ← g.read initial args
  match make progress.settings with
  | some command => return { p with command, leftover := progress.leftover }
  | none => throw .badUsage

/-- The command of a name, by its arguments. -/
def readNamed : List String → Draft → Except Stop Draft
  | "solve" :: args, p =>
    readCommand solveGrammar
      ⟨none, .value none, .value .frobenius, .value Settings.defaultAttempts⟩
      (fun a => a.file.map fun file => .solve file a.seed a.method a.attempts) args p
  | "generate" :: args, p =>
    readCommand generateGrammar ⟨.value 127, .value 5, .value none⟩
      (fun a => some (.generate a.bits a.count a.seed)) args p
  | "benchmark" :: args, p =>
    readCommand benchmarkGrammar ⟨[64, 128, 256], [5, 10, 20], .value 3, .value 0⟩
      (fun a => some (.benchmark a.sizes a.counts a.repeats a.seed)) args p
  | "demo" :: args, p => readCommand walkthroughGrammar () (fun _ => some .walkthrough) args p
  | _, _ => .error .badUsage

/-- The grammar of the whole line: a command and what stands before it. -/
def grammar : Grammar Draft where
  options := [
    helpRule,
    ⟨["-v", "--verbose"], .flag, fun _ p => .ok { p with verbosity := p.verbosity + 1 }⟩]
  positional := some ⟨true, readNamed⟩

namespace Invocation

/-- The invocation that the arguments of a command line stand for. -/
def ofArguments (args : List String) : Except Stop Invocation := do
  let progress ← grammar.read ⟨none, false, 0⟩ args
  match progress.settings.command with
  | some command =>
    if progress.leftover || progress.settings.leftover then throw .badUsage
    return ⟨command, progress.settings.verbosity⟩
  | none => throw .badUsage

end Invocation

end MultisetRecovery.CommandLine
