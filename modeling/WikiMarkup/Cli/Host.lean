import WikiMarkup.Settings.Error

/-!
# What a run asks of the world

A run asks for files by their names and for the standard input. A file that is given by name may
also be found under the name with `.toml` behind it, and messages call a file by the way to it from
the working directory.
-/

namespace WikiMarkup.Cli

/-- What stands under the name of a file, or at the standard input. -/
inductive FileState where
  | absent
  | directory
  /-- What cannot be read, and why. -/
  | unreadable (regular : Bool) (reason : String)
  /-- A regular file. -/
  | content (bytes : List UInt8)
  /-- A pipe or a device. -/
  | stream (bytes : List UInt8)
deriving DecidableEq, Repr

/-- Why markup cannot be read. -/
inductive ReadError where
  | absent
  | directory
  | unreadable (reason : String)
  | notUtf8
deriving DecidableEq, Repr

def ReadError.message : ReadError → String
  | .absent => "No such file or directory (os error 2)"
  | .directory => "Is a directory (os error 21)"
  | .unreadable reason => reason
  | .notUtf8 => "stream did not contain valid UTF-8"

namespace FileState

def isRegular : FileState → Bool
  | .content _ => true
  | .unreadable regular _ => regular
  | _ => false

/-- The bytes that reading gives. -/
def read : FileState → Except ReadError (List UInt8)
  | .content bytes | .stream bytes => .ok bytes
  | .absent => .error .absent
  | .directory => .error .directory
  | .unreadable _ reason => .error (.unreadable reason)

end FileState

/-- The world as a run sees it. -/
structure Host (m : Type → Type) where
  file : String → m FileState
  input : m FileState
  /-- The name of the working directory, from the root. -/
  directory : String := "/"
  /-- The section of the settings that is looked at first; tables have no order of their own. -/
  first : Settings.Section := .parser

/-- Bytes at the standard input of a world that does not change. -/
instance : Coe (List UInt8) (Id FileState) := ⟨FileState.stream⟩

/-! ## Names of files -/

/-- The steps of a name, without those that stay where they are. -/
def stepsOf (name : String) : List String :=
  (name.splitOn "/").filter fun step => step ≠ "" ∧ step ≠ "."

/-- The steps from the root to the file of a name. -/
def stepsFromRoot (directory name : String) : List String :=
  if name.toList.head? = some '/' then stepsOf name else stepsOf directory ++ stepsOf name

/-- The way to a file from a directory, both given by the steps from the root. -/
def wayFrom : List String → List String → List String
  | here :: directory, next :: steps =>
    if here = next then wayFrom directory steps
    else ".." :: directory.map (fun _ => "..") ++ next :: steps
  | directory, steps => directory.map (fun _ => "..") ++ steps

/-- What a file is called in messages. -/
def nameFrom (directory : String) (steps : List String) : String :=
  "/".intercalate (wayFrom (stepsOf directory) steps)

/-- The steps with `.toml` behind the last one, if that is the name of a file. -/
def withToml? : List String → Option (List String)
  | [] => none
  | [last] => if last = ".." then none else some [last ++ ".toml"]
  | step :: steps => (withToml? steps).map (step :: ·)

/-- The name of a file from the root. -/
def nameFromRoot (steps : List String) : String := "/" ++ "/".intercalate steps

end WikiMarkup.Cli
