import EffectGraph.Data.Basic

/-!
# Files

The program sees files through their paths: each path leads to a file, a
folder, or nothing. A tree given as a list of paths can be seen that way.
-/

namespace EffectGraph

/-- What a path leads to. A path with a name that is too long leads nowhere in
a way of its own. -/
inductive Entry where
  | missing
  | overlong
  | file (bytes : ByteArray)
  | folder (names : List String)

/-- A view of files by path. -/
abbrev Files := String → Entry

/-! ## Paths -/

/-- The parts of a text between slashes. -/
def pathParts (path : String) : List String := path.splitOn "/"

/-- Whether a path starts at the root. -/
def isRooted (path : String) : Bool := path.startsWith "/"

/-- A path without empty parts and parts that stay in place. -/
def normalPath (path : String) : String :=
  let parts := (pathParts path).filter fun p => p != "" && p != "."
  let body := String.intercalate "/" parts
  if isRooted path then
    (if path.startsWith "//" && !path.startsWith "///" then "//" else "/") ++ body
  else if body == "" then "."
  else body

/-- The path of a name in a folder; a rooted name stands for itself. -/
def joinPath (folder name : String) : String :=
  if isRooted name || folder == "." then normalPath name
  else if folder.endsWith "/" then normalPath (folder ++ name)
  else normalPath (folder ++ "/" ++ name)

/-! ## Trees given by their paths -/

/-- A tree as the paths of its files and of folders that may be empty. -/
structure FileTree where
  files : List (List String × ByteArray) := []
  folders : List (List String) := []

namespace FileTree

/-- The parts of a path below the root of the tree. -/
def partsOf (path : String) : List String :=
  (pathParts path).filter fun p => p != "" && p != "."

/-- Adds a file, or an empty folder if there is no content. -/
def add (t : FileTree) (path : String) (content : Option ByteArray) : FileTree :=
  match content with
  | some bytes => { t with files := (partsOf path, bytes) :: t.files }
  | none => { t with folders := partsOf path :: t.folders }

/-- All places of the tree that are folders or files. -/
def places (t : FileTree) : List (List String) := t.files.map Prod.fst ++ t.folders

/-- Whether a place is a folder. -/
def isFolder (t : FileTree) (place : List String) : Bool :=
  place.isEmpty || t.folders.contains place
    || t.places.any fun p => place.length < p.length && place.isPrefixOf p

/-- The most bytes that a name may have. -/
def maxNameBytes : Nat := 255

/-- The most bytes that a path may have. -/
def maxPathBytes : Nat := 4095

/-- Walks along the parts of a path; a step up leads out of the last folder. -/
def walk (t : FileTree) (place : List String) : List String → Except Entry (List String)
  | [] => .ok place
  | p :: ps =>
    if !t.isFolder place then .error .missing
    else if maxNameBytes < p.utf8ByteSize then .error .overlong
    else if p == ".." then
      if place.isEmpty then .error .missing else walk t place.dropLast ps
    else walk t (place ++ [p]) ps

/-- The names in a folder, each once. -/
def namesIn (t : FileTree) (place : List String) : List String :=
  (t.places.filterMap fun p =>
    if place.isPrefixOf p then (p.drop place.length).head? else none).eraseDups

/-- The tree seen by path. -/
def view (t : FileTree) : Files := fun path =>
  if maxPathBytes < path.utf8ByteSize then .overlong
  else if isRooted path then .missing
  else
    match t.walk [] (partsOf path) with
    | .error e => e
    | .ok place =>
      if t.isFolder place then .folder (t.namesIn place)
      else
        match t.files.lookup place with
        | some bytes => .file bytes
        | none => .missing

end FileTree

end EffectGraph
