/-!
Folders in memory and the paths into them. A path is walked name by name, so that a name on the
way has to be that of a folder even if the path leads out of it again.
-/

namespace ThreeAddress

inductive Entry where
  | file (bytes : ByteArray)
  | folder

/-- Entries by path. The folders on the way to an entry need not be listed. -/
structure Folder where
  entries : List (String × Entry) := []

namespace Folder

inductive Fault where
  | noSuchEntry
  | notFolder
  | isFolder
  deriving DecidableEq, Repr

def Fault.message : Fault → String
  | noSuchEntry => "No such file or directory (os error 2)"
  | notFolder => "Not a directory (os error 20)"
  | isFolder => "Is a directory (os error 21)"

/-- Where a walk has come to. Outside the folder there are folders, of which nothing is known. -/
inductive Place where
  | outside
  | inside (names : List String)
  | file (bytes : ByteArray)

def entry? (folder : Folder) (names : List String) : Option Entry :=
  match folder.entries.find? fun (path, _) => path.splitOn "/" == names with
  | some (_, entry) => some entry
  | none =>
    if folder.entries.any fun (path, _) => names.isPrefixOf (path.splitOn "/") then some .folder
    else none

def enter (folder : Folder) (place : Place) (name : String) : Except Fault Place :=
  match place with
  | .file _ => .error .notFolder
  | .outside =>
    if name = "" ∨ name = "." ∨ name = ".." then .ok .outside else .error .noSuchEntry
  | .inside names =>
    if name = "" ∨ name = "." then .ok (.inside names)
    else if name = ".." then .ok (if names = [] then .outside else .inside names.dropLast)
    else
      match folder.entry? (names ++ [name]) with
      | some (.file bytes) => .ok (.file bytes)
      | some .folder => .ok (.inside (names ++ [name]))
      | none => .error .noSuchEntry

/-- The place that a path leads to. One that begins with a slash does not start in the folder. -/
def walk (folder : Folder) (path : String) : Except Fault Place :=
  (path.splitOn "/").foldlM folder.enter
    (if path.startsWith "/" then .outside else .inside [])

def resolve (folder : Folder) (path : String) : Except Fault Entry :=
  (folder.walk path).map fun
    | .file bytes => .file bytes
    | _ => .folder

end Folder

end ThreeAddress
