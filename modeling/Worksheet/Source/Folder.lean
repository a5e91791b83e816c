import Worksheet.Source.OpenFault
import Worksheet.Text.Utf8

/-! # Folders

A folder of files and further folders, and what opening a path in it comes to. A path is walked
one name at a time from the folder itself; what lies outside the folder is unknown and holds
nothing.
-/
namespace Worksheet

/-- Files and folders by the names on the way to them. Every folder on the way to a member is a
member too. -/
structure Folder where
  files : List (List Text × Bytes)
  folders : List (List Text)

namespace Folder

inductive Node
  | file (contents : Bytes)
  | folder
deriving DecidableEq, Repr

/-- The names in a path, among them an empty one wherever a slash has no name beside it. -/
def namesAfter (name : Text) : Text → List Text
  | [] => [name.reverse]
  | c :: rest => if c = '/' then name.reverse :: namesAfter [] rest else namesAfter (c :: name) rest

def namesOf (path : Text) : List Text :=
  namesAfter [] path

/-- Whether a name leads nowhere else. -/
def stays (name : Text) : Bool :=
  name = [] || name = ['.']

/-- The names on the way to a member. -/
def placeOf (path : Text) : List Text :=
  (namesOf path).filter (!stays ·)

/-- No path holds a NUL, so a text that does cannot be asked for. -/
def isPath (text : Text) : Bool :=
  '\x00' ∉ text

def size (s : Text) : Nat :=
  s.foldl (fun n c => n + c.utf8Size) 0

def maxNameSize : Nat := 255

def maxPathSize : Nat := 4095

def node? (folder : Folder) (place : List Text) : Option Node :=
  match folder.files.find? (·.1 = place) with
  | some file => some (.file file.2)
  | none =>
    if folder.files.any (place.isPrefixOf ·.1) || folder.folders.any (place.isPrefixOf ·) then
      some .folder
    else none

/-- Walks on from a place, which is `none` outside the folder. -/
def walk (folder : Folder) : (place : Option (List Text)) → List Text → Except OpenFault Bytes
  | _, [] => .error .isAFolder
  | place, name :: rest =>
    if stays name then walk folder place rest
    else if name = ['.', '.'] then
      walk folder (place.bind fun p => if p.isEmpty then none else some p.dropLast) rest
    else if maxNameSize < size name then .error .nameTooLong
    else match place.map (· ++ [name]) with
      | none => .error .notFound
      | some place =>
        match folder.node? place with
        | none => .error .notFound
        | some .folder => walk folder (some place) rest
        | some (.file contents) => if rest.isEmpty then .ok contents else .error .notAFolder

def openFile (folder : Folder) (path : Text) : Except OpenFault Bytes :=
  if path.isEmpty then .error .notFound
  else if maxPathSize < size path then .error .nameTooLong
  else walk folder (if path.head? = some '/' then none else some []) (namesOf path)

end Folder

end Worksheet
