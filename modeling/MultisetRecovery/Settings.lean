import MultisetRecovery.RootSearch.Finder
import MultisetRecovery.Text.Quoted

/-!
# Settings

How a recovery looks for roots: the method, the limits of both methods, and a seed for the random
shifts. Over a prime modulus the settings decide whether a recovery comes to an answer, and never
which.
-/

namespace MultisetRecovery

/-- A method of finding roots. -/
inductive Method where
  /-- Splitting by the Frobenius map and random shifts. -/
  | frobenius
  /-- Trying every residue. -/
  | exhaustive
deriving DecidableEq

namespace Method

/-- The written name of a method. -/
def name : Method → String
  | frobenius => "frobenius"
  | exhaustive => "exhaustive"

/-- The method of a written name. -/
def ofName? (s : String) : Option Method :=
  if s = frobenius.name then some frobenius
  else if s = exhaustive.name then some exhaustive
  else none

end Method

/-- What is wrong with the values that settings are asked to have. -/
inductive SettingsError where
  /-- There is no method of this name. -/
  | unknownMethod (name : String)
  /-- Each split has to try one shift at least. -/
  | noAttempts
  /-- The smallest modulus is two. -/
  | limitTooSmall
deriving DecidableEq

namespace SettingsError

/-- The text that reports an error. -/
def message : SettingsError → String
  | unknownMethod s =>
    "root_finder must be one of ('frobenius', 'exhaustive'), got " ++ Text.quoted s
  | noAttempts => "max_split_attempts must be at least 1"
  | limitTooSmall => "exhaustive_limit must be at least 2"

end SettingsError

/-- The settings of a recovery. -/
structure Settings where
  /-- What the settings are called. -/
  name : String
  /-- The method of finding roots. -/
  method : Method
  /-- The shifts to try for each split. -/
  attempts : Int
  /-- The largest modulus of which every residue is tried. -/
  limit : Int
  /-- The seed of the random shifts, if they have one of their own. -/
  seed : Option Int
  /-- One shift at least is tried. -/
  one_le_attempts : 1 ≤ attempts
  /-- The smallest modulus is within the limit. -/
  two_le_limit : 2 ≤ limit
deriving DecidableEq

namespace Settings

/-- The settings with these values. Of several wrong values the first is reported. -/
def make (name method : String) (attempts limit : Int) (seed : Option Int) :
    Except SettingsError Settings :=
  match Method.ofName? method with
  | none => .error (.unknownMethod method)
  | some method =>
    if ha : 1 ≤ attempts then
      if hl : 2 ≤ limit then .ok ⟨name, method, attempts, limit, seed, ha, hl⟩
      else .error .limitTooSmall
    else .error .noAttempts

/-- The shifts to try for each split unless told otherwise. As many fail to separate two roots with
a chance of about one in `2 ^ 64`. -/
def defaultAttempts : Int := 64

/-- The largest modulus of which every residue is tried unless told otherwise. -/
def defaultLimit : Int := 0x10000

/-- The settings of a recovery that was given none. -/
def default : Settings :=
  ⟨"default", .frobenius, defaultAttempts, defaultLimit, none, by decide, by decide⟩

/-- Settings under which every run is the same. -/
def seeded (seed : Int) : Settings :=
  ⟨"test", .frobenius, defaultAttempts, defaultLimit, some seed, by decide, by decide⟩

/-- The seed of the reproducible settings unless told otherwise. -/
def defaultSeed : Int := 42

/-- Settings that try every residue. -/
def exhaustive (limit : Int) : Except SettingsError Settings :=
  make "exhaustive" Method.exhaustive.name defaultAttempts limit none

/-- The finder that the settings ask for. -/
def finder (s : Settings) : Finder :=
  match s.method with
  | .frobenius => .frobenius s.attempts
  | .exhaustive => .exhaustive s.limit

/-- The seed of a run: that of the call, if it has one, before that of the settings. -/
def seedFor (s : Settings) (call : Option Int) : Option Int :=
  match call with
  | some seed => some seed
  | none => s.seed

/-- A description in five lines. -/
def summary (s : Settings) : String :=
  let seed :=
    match s.seed with
    | some v => toString v
    | none => "OS entropy"
  "SolverConfig '" ++ s.name ++ "':\n  Root finder: " ++ s.method.name
    ++ "\n  Split attempts: " ++ toString s.attempts
    ++ "\n  Exhaustive limit: " ++ toString s.limit ++ "\n  Seed: " ++ seed

end Settings

end MultisetRecovery
