import MultisetRecovery.CommandLine.Command
import MultisetRecovery.CommandLine.FileTree
import MultisetRecovery.Instance.Text
import MultisetRecovery.Timing.Grid
import MultisetRecovery.Walkthrough

/-!
# Carrying out a command

What a command prints and the code that it exits with. A command that solves ends with the code of
its status. What it reads is given: the text of the standard input, or the bytes of the file that it
names, which have to be ASCII.
-/

namespace MultisetRecovery.CommandLine

/-- What a command reads. -/
inductive Input where
  /-- The text of the standard input. -/
  | standardInput (text : String)
  /-- The bytes of a file, or why it cannot be read. -/
  | file (content : Except FileError (List UInt8))

/-- A value that a command cannot do without. -/
inductive RequiredValue where
  /-- The method of finding roots. -/
  | method
  /-- The shifts to try for each split. -/
  | attempts
  /-- The seed of the draws. -/
  | seed
  /-- The number of bits of a prime. -/
  | bits
  /-- The number of messages. -/
  | count
  /-- The number of instances at each point of a grid. -/
  | repeats
deriving DecidableEq

namespace RequiredValue

/-- The text that reports the lack of a value. It tells what the value was needed for: a choice, a
comparison, the bits of a seed or a number of rounds. -/
def message : RequiredValue → String
  | method => "root_finder must be one of ('frobenius', 'exhaustive'), got []"
  | attempts | bits => "'<' not supported between instances of 'list' and 'int'"
  | seed => "unsupported operand type(s) for &: 'list' and 'int'"
  | count | repeats => "'list' object cannot be interpreted as an integer"

end RequiredValue

/-- Why a command could not be carried out to its end. -/
inductive CommandError where
  /-- There are no such settings. -/
  | settings (cause : SettingsError)
  /-- There is no instance. -/
  | case (cause : InstanceError)
  /-- There is no plan for a grid. -/
  | plan (cause : PlanError)
  /-- A zero character stands in the name of a file. -/
  | zeroInName
  /-- An option was given without a value that is needed. -/
  | missing (what : RequiredValue)
deriving DecidableEq

namespace CommandError

/-- The text that reports an error. -/
def message : CommandError → String
  | settings e => e.message
  | case e => e.message
  | plan e => e.message
  | zeroInName => "embedded null byte"
  | missing v => v.message

end CommandError

/-- What a command printed and how it ended. -/
structure Output where
  /-- The standard output. -/
  out : String
  /-- The standard error output. -/
  err : String
  /-- What it told about its progress. -/
  journal : List Event
  /-- The exit code, if it got that far. -/
  exit : Except CommandError Nat

namespace Output

/-- An end with an error message and an exit code. -/
def complaint (message : String) (code : Nat) : Output := ⟨"", message ++ "\n", [], .ok code⟩

/-- An end before anything was printed. -/
def broken (e : CommandError) : Output := ⟨"", "", [], .error e⟩

end Output

/-- The text that reports a byte outside ASCII. -/
def decodeMessage (byte : UInt8) (position : Nat) : String :=
  "'ascii' codec can't decode byte 0x" ++ Hex.padded 2 byte.toNat ++ " in position "
    ++ toString position ++ ": ordinal not in range(128)"

/-- The text that was read, or why there is none. -/
def Input.text (name : String) : Input → Except String String
  | standardInput s => .ok s
  | file (.error e) => .error (e.message name)
  | file (.ok bytes) =>
    match bytes.dropWhile (· < 128) with
    | [] => .ok (String.ofList (bytes.map fun b => Char.ofNat b.toNat))
    | b :: _ => .error (decodeMessage b (bytes.takeWhile (· < 128)).length)

namespace Command

/-- The name of the file that a command reads, `-` for the standard input. -/
def file? : Command → Option String
  | solve file _ _ _ => some file
  | _ => none

/-- The output of a recovery: its messages, or why there are none. -/
def recoveryOutput (r : Recovery) : Output :=
  if r.report.ok then
    ⟨String.join (r.report.messages.map (· ++ "\n")), "", r.journal, .ok r.report.status.code⟩
  else
    ⟨"", r.report.status.name ++ ": " ++ r.report.reason.getD "" ++ "\n", r.journal,
      .ok r.report.status.code⟩

/-- A recovery without a seed to draw random shifts with. It ends where the search for roots would
begin, unless it ends before or does not draw. -/
def recoverSeedless (settings : Settings) (r : Request) : Recovery :=
  let whole := r.recover (some settings) none
  match settings.method, whole.report.stage with
  | .exhaustive, _ | _, .start | _, .validated => whole
  | _, _ => { whole with report := .failed .internalError .symmetric RequiredValue.seed.message }

/-- The command that solves a request. -/
def solveRequest (seed : Given (Option Int)) (method : Given Method) (attempts : Given Int)
    (r : Request) : Output :=
  match method, attempts with
  | .nothing, _ => .broken (.missing .method)
  | .value _, .nothing => .broken (.missing .attempts)
  | .value method, .value attempts =>
    match Settings.make "cli" method.name attempts Settings.defaultLimit none with
    | .error e => .broken (.settings e)
    | .ok settings =>
      match seed with
      | .value seed => recoveryOutput (r.recover (some settings) seed)
      | .nothing => recoveryOutput (recoverSeedless settings r)

/-- The command that solves the instance of a text. -/
def solveText (seed : Given (Option Int)) (method : Given Method) (attempts : Given Int)
    (text : String) : Output :=
  match InstanceText.parse text with
  | .error n => .complaint ("error: " ++ InstanceText.tooFewMessage n) Status.inputError.code
  | .ok t => solveRequest seed method attempts t.request

/-- The command that solves the instance of a file. -/
def solveFile (name : String) (seed : Given (Option Int)) (method : Given Method)
    (attempts : Given Int) (input : Input) : Output :=
  if name.toList.contains '\x00' then .broken .zeroInName
  else
    match input.text name with
    | .error reason =>
      .complaint ("error: cannot read " ++ name ++ ": " ++ reason) Status.inputError.code
    | .ok text => solveText seed method attempts text

/-- The command that draws an instance. The prime is drawn before the number of messages is looked
at. -/
def generateOutput (bits count : Given Int) (seed : Given (Option Int)) : Output :=
  match seed, bits with
  | .nothing, _ => .broken (.missing .seed)
  | .value _, .nothing => .broken (.missing .bits)
  | .value seed, .value bits =>
    let sampler : Sampler SplitMix := .fresh (SplitMix.ofSeed seed)
    match count with
    | .value count =>
      match (Instance.random bits count sampler).1 with
      | .error e => .broken (.case e)
      | .ok i => ⟨i.text, "", [], .ok 0⟩
    | .nothing =>
      match (randomPrime bits sampler).1 with
      | .error e => .broken (.case (.prime e))
      | .ok _ => .broken (.missing .count)

/-- The output of a grid that was timed. A recovery that gave the wrong messages shows in the exit
code. -/
def benchmarkOutput (warnings : List Event) (xs : List Measurement) : Output :=
  let failures := xs.foldr (fun x n => x.failures + n) 0
  let table := Measurement.table Measurement.defaultSeparator xs
  ⟨table ++ "\n", "", warnings, .ok (if failures = 0 then 0 else 1)⟩

variable {μ : Type → Type} [Monad μ]

/-- The command that times a grid. The number of instances at a point is looked at when the first
point is reached. -/
def timeGrid (w : Stopwatch μ) (sizes counts : List Int) (repeats seed : Given Int) : μ Output :=
  match seed, repeats with
  | .nothing, _ => return .broken (.missing .seed)
  | .value seed, .value repeats => timed seed repeats
  | .value seed, .nothing =>
    match Plan.comesToPoint counts sizes (Sampler.fresh (SplitMix.ofSeed (some seed))) with
    | .error e => return .broken (.plan (.prime e))
    | .ok true => return .broken (.missing .repeats)
    | .ok false => timed seed 0
where
  /-- The output for a number of instances at each point. -/
  timed (seed repeats : Int) : μ Output :=
    match Plan.ofSeed sizes counts repeats seed with
    | .error e => return .broken (.plan e)
    | .ok plan => do
      let xs ← w.measureAll (some (.seeded seed)) plan
      return benchmarkOutput plan.warnings xs

/-- The output of a command. -/
def execute (w : Stopwatch μ) (input : Input) : Command → μ Output
  | solve file seed method attempts => return solveFile file seed method attempts input
  | generate bits count seed => return generateOutput bits count seed
  | benchmark sizes counts repeats seed => timeGrid w sizes counts repeats seed
  | walkthrough => return ⟨Walkthrough.text, "", [], .ok 0⟩

end Command

end MultisetRecovery.CommandLine
