/-!
# What a command finds around it

A command reads files by their paths, and standard input as a whole. Both give bytes, which
count as text only if they are valid UTF-8.

## Main definitions

* `Unlambda.CommandLine.ReadError`: why something cannot be read
* `Unlambda.CommandLine.Surroundings`: files and standard input
* `Unlambda.CommandLine.Directory`: surroundings that consist of one flat directory
-/

namespace Unlambda.CommandLine

/-- Why something cannot be read. -/
inductive ReadError
  | notFound
  /-- The path names a directory. -/
  | isDirectory
  /-- The path goes on behind a name that is not a directory. -/
  | notDirectory
  /-- The bytes are not text. -/
  | notText
  /-- Any other reason, in the words of the system. -/
  | other (reason : String)
  deriving DecidableEq

/-- The wording of a failed read. -/
def ReadError.message : ReadError → String
  | notFound => "No such file or directory (os error 2)"
  | isDirectory => "Is a directory (os error 21)"
  | notDirectory => "Not a directory (os error 20)"
  | notText => "stream did not contain valid UTF-8"
  | other reason => reason

/-- The text that bytes stand for. -/
def decode (bytes : ByteArray) : Except ReadError String :=
  match String.fromUTF8? bytes with
  | some text => .ok text
  | none => .error .notText

/-- Files and standard input. -/
structure Surroundings where
  /-- The contents of the file at a path. -/
  file : String → Except ReadError ByteArray
  standardInput : ByteArray

namespace Surroundings

/-- The text of the file at a path. -/
def readFile (surroundings : Surroundings) (path : String) : Except ReadError String :=
  (surroundings.file path).bind decode

/-- The text on standard input. -/
def readInput (surroundings : Surroundings) : Except ReadError String :=
  decode surroundings.standardInput

end Surroundings

/-- A directory that holds files and no directories. -/
abbrev Directory := List (String × ByteArray)

namespace Directory

/-- What a path has led to so far. -/
inductive Place
  /-- The directory itself. -/
  | inside
  /-- A directory further up, of which nothing else is known. -/
  | above
  | file (contents : ByteArray)

/-- Follows the next name of a path. An empty name and `.` stay in a directory. -/
def Place.follow (directory : Directory) (name : String) : Place → Except ReadError Place
  | .file _ => .error .notDirectory
  | .above => if name = "" ∨ name = "." ∨ name = ".." then .ok .above else .error .notFound
  | .inside =>
    if name = "" ∨ name = "." then .ok .inside
    else if name = ".." then .ok .above
    else match directory.lookup name with
      | some contents => .ok (.file contents)
      | none => .error .notFound

/-- The place that names lead to, one after the other. -/
def walk (directory : Directory) (place : Place) (names : List String) : Except ReadError Place :=
  names.foldlM (fun place name => place.follow directory name) place

/-- The place that a path leads to. One that begins with a slash leads from the top. -/
def place (directory : Directory) (path : String) : Except ReadError Place :=
  match path.splitOn "/" with
  | "" :: name :: names => directory.walk .above (name :: names)
  | names => directory.walk .inside names

/-- The contents of the file at a path. -/
def read (directory : Directory) (path : String) : Except ReadError ByteArray :=
  if path.isEmpty then .error .notFound
  else match directory.place path with
    | .ok (.file contents) => .ok contents
    | .ok .inside => .error .isDirectory
    | .ok .above => .error .isDirectory
    | .error error => .error error

/-- The surroundings of a command that runs in the directory. -/
def surroundings (directory : Directory) (standardInput : ByteArray) : Surroundings :=
  ⟨directory.read, standardInput⟩

end Directory

end Unlambda.CommandLine
