import Flowline.Document.Reader
import Flowline.Failure
import Flowline.Files.Tree

/-! Documents out of a directory, one file for each flow. An id is admitted only if its file lies in
the directory itself. -/

namespace Flowline.Loader

def isIdChar (c : Char) : Bool := c.isAlphanum || c = '-' || c = '_' || c = '.'

/-- Letters, digits and three marks, not all absent and no point in front. -/
def admits (id : String) : Bool :=
  !id.isEmpty && id.toList.all isIdChar && id.toList.head? != some '.'

def fileName (id : String) : String := id ++ ".json"

def path? (dir id : String) : Option String :=
  if admits id then some (Path.join dir (fileName id)) else none

def load (disk : Disk) (dir id : String) : Except Failure Document :=
  match path? dir id with
  | none => .error (.flowNotFound id)
  | some path =>
    match disk path with
    | .error .notFound => .error (.flowNotFound id)
    | .error _ => .error (.io Failure.unreadableFile)
    | .ok text =>
      match Document.parse? text with
      | some d => .ok d
      | none => .error (.document Failure.unreadableJson)

end Flowline.Loader
