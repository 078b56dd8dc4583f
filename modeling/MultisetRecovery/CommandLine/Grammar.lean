import MultisetRecovery.Text.Digit

/-!
# Arguments and options

The grammar of a command line: options in any order, long ones by any unambiguous beginning of their
names, values behind an equals sign or in the next argument, short options run together, and at most
one positional argument. Everything behind a double hyphen is positional. A negative number is no
option, and neither is an unknown option with a blank in it. A double hyphen that is attached to an
option as its value stands for no value at all.

An argument that nothing takes does not end the reading, because an option behind it may still ask
for help; the line is refused when all of it has been read. A run of short options is refused at
once if one of its letters is no option.
-/

namespace MultisetRecovery.CommandLine

/-- Why the reading of a command line ends without a result. -/
inductive Stop where
  /-- Help was asked for. -/
  | help
  /-- The line is wrong. -/
  | badUsage
deriving DecidableEq

/-- The exit code of a command line that was not carried out. -/
def Stop.code : Stop → Nat
  | help => 0
  | badUsage => 2

/-- How many arguments an option takes. -/
inductive Arity where
  /-- None. -/
  | flag
  /-- Exactly one. -/
  | one
  /-- One or more. -/
  | many
deriving DecidableEq

/-- An option, by what it makes of the settings read so far. -/
structure OptionRule (α : Type) where
  /-- The names, hyphens included. -/
  names : List String
  /-- How many arguments it takes. -/
  arity : Arity
  /-- What it does with its arguments, of which there are none if no value was attached to it. -/
  apply : List String → α → Except Stop α

/-- A positional argument. -/
structure PositionalRule (α : Type) where
  /-- Whether it takes all the arguments that follow it, options included. -/
  takesRest : Bool
  /-- What it does with its arguments. -/
  apply : List String → α → Except Stop α

/-- The options and the positional argument of a command. -/
structure Grammar (α : Type) where
  /-- The options. -/
  options : List (OptionRule α)
  /-- The positional argument, if there is one. -/
  positional : Option (PositionalRule α)

/-- An option that was recognised in an argument. -/
structure Found (α : Type) where
  /-- The option. -/
  rule : OptionRule α
  /-- Whether it was given by a name of one hyphen. -/
  isShort : Bool
  /-- The value that the same argument holds. -/
  attached : Option (List Char)

/-- What an argument is taken for. -/
inductive Token (α : Type) where
  /-- An argument that is no option. -/
  | word (s : String)
  /-- The double hyphen, behind which there are no options. -/
  | separator
  /-- An option, if it is a known one. -/
  | option (s : String) (found : Option (Found α))

namespace Token

variable {α : Type}

/-- The argument as it was given. -/
def raw : Token α → String
  | word s => s
  | separator => "--"
  | option s _ => s

/-- The words that a list of tokens begins with. -/
def leadingWords : List (Token α) → List String
  | word s :: ts => s :: leadingWords ts
  | _ => []

end Token

/-- The part of a text before the first equals sign and, if there is one, the part behind it. -/
def splitAtEquals : List Char → List Char × Option (List Char)
  | [] => ([], none)
  | '=' :: cs => ([], some cs)
  | c :: cs =>
    let (name, value) := splitAtEquals cs
    (c :: name, value)

/-- Whether a text consists of a hyphen and a decimal number, a line feed behind it aside. -/
def isNegativeNumber (s : String) : Bool :=
  let isDigit (c : Char) : Bool := (Text.digit? c).isSome
  match s.toList with
  | '-' :: cs =>
    let cs := if cs.getLast? = some '\n' then cs.dropLast else cs
    match cs.dropWhile isDigit with
    | [] => !cs.isEmpty
    | '.' :: fraction => !fraction.isEmpty && fraction.all isDigit
    | _ => false
  | _ => false

/-- The options that were used with their arguments, and the number of further arguments that they
took. -/
structure Uses (α : Type) where
  /-- The options in order. -/
  list : List (OptionRule α × List String)
  /-- The number of arguments taken from those that follow. -/
  taken : Nat

namespace Grammar

variable {α : Type} (g : Grammar α)

/-- The option of a name. -/
def find? (name : String) : Option (OptionRule α) := g.options.find? (name ∈ ·.names)

/-- The options of which a name begins so, once for each such name. -/
def beginningWith (beginning : List Char) : List (OptionRule α) :=
  g.options.flatMap fun r => (r.names.filter fun n => beginning.isPrefixOf n.toList).map fun _ => r

/-- The options that an argument could stand for which is no name of an option itself. -/
def candidates (cs : List Char) : List (Found α) :=
  match cs with
  | '-' :: '-' :: _ =>
    let (beginning, value) := splitAtEquals cs
    (g.beginningWith beginning).map fun r => ⟨r, false, value⟩
  | h :: c :: value =>
    match g.find? (String.ofList [h, c]) with
    | some r => [⟨r, true, some value⟩]
    | none => []
  | _ => []

/-- Whether a name is one of a single hyphen. -/
def isShortName (cs : List Char) : Bool := !(['-', '-'].isPrefixOf cs)

/-- An argument that begins with a hyphen and is more than that, unless it is the name of an option.
-/
def classifyHyphen (s : String) : Except Stop (Token α) :=
  let cs := s.toList
  let (name, value) := splitAtEquals cs
  match value.bind fun v => (g.find? (String.ofList name)).map (·, v) with
  | some (r, v) => .ok (.option s (some ⟨r, isShortName cs, some v⟩))
  | none =>
    match g.candidates cs with
    | [found] => .ok (.option s (some found))
    | _ :: _ :: _ => .error .badUsage
    | [] => .ok (if isNegativeNumber s || cs.contains ' ' then .word s else .option s none)

/-- What an argument is taken for that no double hyphen stands before. -/
def classify (s : String) : Except Stop (Token α) :=
  match s.toList with
  | '-' :: rest =>
    match g.find? s with
    | some r => .ok (.option s (some ⟨r, isShortName s.toList, none⟩))
    | none => if rest.isEmpty then .ok (.word s) else g.classifyHyphen s
  | _ => .ok (.word s)

/-- What the arguments are taken for. -/
def tokens : List String → Except Stop (List (Token α))
  | [] => .ok []
  | s :: ss =>
    if s = "--" then .ok (.separator :: ss.map .word)
    else do return (← g.classify s) :: (← tokens ss)

/-- An option with its arguments among the words that follow. -/
def useFollowing (r : OptionRule α) (words : List String) : Except Stop (Uses α) :=
  match r.arity, words with
  | .flag, _ => .ok ⟨[(r, [])], 0⟩
  | .one, w :: _ => .ok ⟨[(r, [w])], 1⟩
  | .many, w :: ws => .ok ⟨[(r, w :: ws)], ws.length + 1⟩
  | _, [] => .error .badUsage

/-- The arguments that a value attached to an option stands for. -/
def attachedArguments (value : List Char) : List String :=
  if value = ['-', '-'] then [] else [String.ofList value]

/-- An option with a value in the same argument. Behind a short option without arguments the value
is a run of further short options. -/
def useAttached (words : List String) (r : OptionRule α) (isShort : Bool) :
    List Char → Except Stop (Uses α)
  | [] => if r.arity = .flag then .error .badUsage else .ok ⟨[(r, [""])], 0⟩
  | c :: cs =>
    if r.arity ≠ .flag then .ok ⟨[(r, attachedArguments (c :: cs))], 0⟩
    else if !isShort then .error .badUsage
    else
      match g.find? (String.ofList ['-', c]) with
      | none => .error .badUsage
      | some r' => do
        let rest ← if cs.isEmpty then useFollowing r' words else useAttached words r' true cs
        return { rest with list := (r, []) :: rest.list }

/-- The uses of an option that was recognised, with the words that follow it. -/
def use (found : Found α) (words : List String) : Except Stop (Uses α) :=
  match found.attached with
  | none => useFollowing found.rule words
  | some value => g.useAttached words found.rule found.isShort value

/-- The arguments that a positional argument takes from the front of some tokens, and how many
tokens they are. A double hyphen next to a single argument is none of it. -/
def positionalArguments (takesRest : Bool) : List (Token α) → Option (List String × Nat)
  | .word s :: ts =>
    if takesRest then some (s :: ts.map Token.raw, ts.length + 1)
    else
      match ts with
      | .separator :: _ => some ([s], 2)
      | _ => some ([s], 1)
  | .separator :: .word s :: ts =>
    if takesRest then some ("--" :: s :: ts.map Token.raw, ts.length + 2) else some ([s], 2)
  | _ => none

/-- How far a command line has been read. -/
structure Progress (α : Type) where
  /-- The settings read so far. -/
  settings : α
  /-- Whether there was something that nothing takes. -/
  leftover : Bool
  /-- Whether the positional argument was read. -/
  placed : Bool

/-- The positional argument, if it still has to be read and some tokens begin with it. -/
def positional? (p : Progress α) (ts : List (Token α)) :
    Option (PositionalRule α × List String × Nat) :=
  if p.placed then none
  else g.positional.bind fun rule => (positionalArguments rule.takesRest ts).map (rule, ·)

/-- The settings after a list of options. -/
def applyAll : List (OptionRule α × List String) → α → Except Stop α
  | [], a => .ok a
  | (r, args) :: rest, a => do applyAll rest (← r.apply args a)

/-- The progress after all tokens. -/
def readTokens (p : Progress α) : List (Token α) → Except Stop (Progress α)
  | [] => .ok p
  | .option _ none :: ts => readTokens { p with leftover := true } ts
  | .option _ (some found) :: ts => do
    let uses ← g.use found (Token.leadingWords ts)
    let settings ← applyAll uses.list p.settings
    readTokens { p with settings } (ts.drop uses.taken)
  | t :: ts =>
    match g.positional? p (t :: ts) with
    | some (rule, args, n) => do
      let settings ← rule.apply args p.settings
      readTokens { p with settings, placed := true } (ts.drop (n - 1))
    | none => readTokens { p with leftover := true } ts
termination_by ts => ts.length
decreasing_by all_goals simp only [List.length_cons, List.length_drop]; omega

/-- The progress after all arguments. -/
def read (initial : α) (args : List String) : Except Stop (Progress α) := do
  g.readTokens ⟨initial, false, false⟩ (← g.tokens args)

end Grammar

end MultisetRecovery.CommandLine
