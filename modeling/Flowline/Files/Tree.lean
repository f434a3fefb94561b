import Flowline.Files.Path
import Flowline.Text.Utf8

/-! A tree of files, and what reading one of them comes to. -/

namespace Flowline

inductive FileError where
  | notFound
  | notDirectory
  | isDirectory
  | nameTooLong
  | notText
  | other (reason : String)
deriving DecidableEq, Repr, Inhabited

/-- The wording of a fault, with the number of the system error where there is one. -/
def FileError.message : FileError → String
  | notFound => "No such file or directory (os error 2)"
  | notDirectory => "Not a directory (os error 20)"
  | isDirectory => "Is a directory (os error 21)"
  | nameTooLong => "File name too long (os error 36)"
  | notText => "stream did not contain valid UTF-8"
  | other reason => reason

/-- Whatever can read files by their paths. -/
abbrev Disk : Type := String → Except FileError String

/-- The files below a root, each with the components of its path and its bytes; a directory has no
bytes. -/
structure Files where
  entries : List (List String × Option (List UInt8))
  base : List String
deriving Inhabited

namespace Files

/-- The longest name that a directory can hold, in bytes. -/
def nameLimit : Nat := 255

/-- What lies at a place: a directory also where only something below it is listed. -/
def at? (fs : Files) (place : List String) : Option (Option (List UInt8)) :=
  match fs.entries.lookup place with
  | some content => some content
  | none =>
    if place.isPrefixOf fs.base || fs.entries.any (fun e => place.isPrefixOf e.1) then some none
    else none

/-- Goes from a place along the components of a path. -/
def follow (fs : Files) : List String → List String → Except FileError (List String)
  | place, [] => .ok place
  | place, c :: r =>
    match fs.at? place with
    | none => .error .notFound
    | some (some _) => .error .notDirectory
    | some none =>
      if c = "" ∨ c = "." then follow fs place r
      else if c = ".." then follow fs place.dropLast r
      else if nameLimit < c.utf8ByteSize then .error .nameTooLong
      else follow fs (place ++ [c]) r

/-- The place that a path names, and what lies there. -/
def find (fs : Files) (path : String) : Except FileError (Option (List UInt8)) := do
  if path.isEmpty then throw .notFound
  let start := if Path.isAbsolute path then [] else fs.base
  let place ← fs.follow start ((path.toList.splitOn '/').map String.ofList)
  match fs.at? place with
  | some content => return content
  | none => throw .notFound

def exists? (fs : Files) (path : String) : Bool := (fs.find path).toOption.isSome

def disk (fs : Files) : Disk := fun path =>
  match fs.find path with
  | .error e => .error e
  | .ok none => .error .isDirectory
  | .ok (some bytes) =>
    match Text.ofUtf8? bytes with
    | some cs => .ok (String.ofList cs)
    | none => .error .notText

/-- Files by their paths below a base; nothing for a directory. -/
def ofList (base : List String) (l : List (String × Option (List UInt8))) : Files :=
  ⟨l.map fun e => (base ++ (e.1.toList.splitOn '/').map String.ofList, e.2), base⟩

end Files

end Flowline
