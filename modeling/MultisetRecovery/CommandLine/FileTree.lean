import MultisetRecovery.Text.Quoted

/-!
# Files by name

What the name of a file leads to. The parts of a name stand between slashes and are followed one by
one, from the root if the name begins with a slash and from the working directory otherwise. Every
step needs a directory to start from, also one to where it already is, so nothing is found behind
the name of a file. The first step that fails says why there is no such file.
-/

namespace MultisetRecovery.CommandLine

/-- Why a file cannot be read. -/
inductive FileError where
  /-- There is no such file. -/
  | notFound
  /-- It is a directory. -/
  | isDirectory
  /-- A part of its path is no directory. -/
  | notDirectory
  /-- It may not be read. -/
  | denied
  /-- Its name or a part of its name is too long. -/
  | nameTooLong
deriving DecidableEq

namespace FileError

/-- The number of an error. -/
def number : FileError → Nat
  | notFound => 2
  | denied => 13
  | notDirectory => 20
  | isDirectory => 21
  | nameTooLong => 36

/-- What an error is called. -/
def description : FileError → String
  | notFound => "No such file or directory"
  | denied => "Permission denied"
  | notDirectory => "Not a directory"
  | isDirectory => "Is a directory"
  | nameTooLong => "File name too long"

/-- The error of a number. What has no number here counts as a file that is not found. -/
def ofNumber (n : Nat) : FileError :=
  ([denied, notDirectory, isDirectory, nameTooLong].find? (·.number = n)).getD notFound

/-- The text that reports an error with a file of this name. -/
def message (name : String) (e : FileError) : String :=
  "[Errno " ++ toString e.number ++ "] " ++ e.description ++ ": " ++ Text.quoted name

end FileError

/-- A tree of files and directories, and the directory that names are followed from. A path is the
list of its parts, from the root on. -/
structure FileTree where
  /-- The contents of files by their paths. -/
  files : List (List String × List UInt8)
  /-- The paths of directories. What leads to a file or to a directory is a directory as well. -/
  directories : List (List String)
  /-- The path of the working directory. -/
  workingDirectory : List String

namespace FileTree

/-- The bytes that a name may have. -/
def maxNameSize : Nat := 4095

/-- The bytes that a part of a name may have. -/
def maxPartSize : Nat := 255

variable (t : FileTree)

/-- The content of the file at a path. -/
def file? (path : List String) : Option (List UInt8) := t.files.lookup path

/-- Whether there is a directory at a path. -/
def isDirectory (path : List String) : Bool :=
  path.isPrefixOf t.workingDirectory || t.directories.any (path.isPrefixOf ·)
    || t.files.any fun f => path.isPrefixOf f.1.dropLast

/-- Whether there is anything at a path. -/
def holds (path : List String) : Bool := t.isDirectory path || (t.file? path).isSome

/-- The path that the parts of a name lead to from a given one. An empty part and a single dot stay
where they are, and a double dot goes back, though not beyond the root. -/
def follow : (path parts : List String) → Except FileError (List String)
  | path, [] => .ok path
  | path, part :: parts =>
    if !t.isDirectory path then .error .notDirectory
    else if part = "" ∨ part = "." then follow path parts
    else if part = ".." then follow path.dropLast parts
    else if maxPartSize < part.utf8ByteSize then .error .nameTooLong
    else if t.holds (path ++ [part]) then follow (path ++ [part]) parts
    else .error .notFound

/-- The content of the file of a name. -/
def read (name : String) : Except FileError (List UInt8) := do
  if name.isEmpty then throw .notFound
  if maxNameSize < name.utf8ByteSize then throw .nameTooLong
  let start := if name.startsWith "/" then [] else t.workingDirectory
  match t.file? (← t.follow start (name.splitOn "/")) with
  | some content => return content
  | none => throw .isDirectory

/-- The directories of a usual machine. -/
def usualDirectories : List (List String) :=
  ["bin", "boot", "dev", "etc", "home", "lib", "media", "mnt", "opt", "proc", "root", "run", "sbin",
    "srv", "sys", "tmp", "usr", "var"].map fun name => [name]

/-- The file of a usual machine that is always empty. -/
def emptyDevice : List String × List UInt8 := (["dev", "null"], [])

/-- The name of a working directory that nobody was told. It is empty, and no empty part is ever
looked up, so a name leads out of such a directory and never back into it. -/
def unknownName : String := ""

/-- A usual machine with a working directory of an unknown name, which holds the given files and
no others. -/
def ofFiles (files : List (String × List UInt8)) : FileTree :=
  let here := ["tmp", unknownName]
  ⟨emptyDevice :: files.map fun (name, content) => (here ++ name.splitOn "/", content),
    usualDirectories, here⟩

end FileTree

end MultisetRecovery.CommandLine
