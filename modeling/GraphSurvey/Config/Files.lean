/-!
# Files

A file is read as a text in UTF-8. How files are found is left to a `FileReader`; the one made of a
`Directory` finds them by the components of their paths, without links.

## Main definitions

* `GraphSurvey.FileError` — why a file cannot be read.
* `GraphSurvey.FileReader` — a way to read files.
* `GraphSurvey.Directory`, `GraphSurvey.Directory.read` — a tree of files, and reading them.
-/

namespace GraphSurvey

/-- Why a file cannot be read. -/
inductive FileError where
  | notFound
  | notADirectory
  | isADirectory
  /-- The bytes of the file are no text. -/
  | notText
  deriving DecidableEq, Repr

namespace FileError

/-- The error as the system words it, with its number. -/
def message : FileError → String
  | .notFound => "No such file or directory (os error 2)"
  | .notADirectory => "Not a directory (os error 20)"
  | .isADirectory => "Is a directory (os error 21)"
  | .notText => "stream did not contain valid UTF-8"

end FileError

/-- A way to read the file at a path. -/
abbrev FileReader (m : Type → Type) := String → m (Except FileError String)

/-- The text of the bytes of a file. -/
def textOfBytes (bytes : ByteArray) : Except FileError String :=
  match String.fromUTF8? bytes with
  | some s => .ok s
  | none => .error .notText

/-- A tree of files, each with the components of its path from the root of the tree. -/
structure Directory where
  files : List (List String × ByteArray)

namespace Directory

/-- The directory with files of the given paths. -/
def ofList (files : List (String × ByteArray)) : Directory :=
  ⟨files.map fun e => (e.1.splitOn "/", e.2)⟩

/-- What a place is. -/
inductive Place where
  | file (bytes : ByteArray)
  | directory
  | nothing

/-- What is at a place in the tree. -/
def lookup (d : Directory) (path : List String) : Place :=
  match d.files.find? (·.1 = path) with
  | some (_, bytes) => .file bytes
  | none => if path.isEmpty ∨ d.files.any (path.isPrefixOf ·.1) then .directory else .nothing

/-- Follows the components of a path from a directory of the tree. Above the root of the tree there
is nothing but directories on the way to it. -/
def follow (d : Directory) : List String → (above : Nat) → List String → Except FileError ByteArray
  | path, above, [] =>
    if above = 0 then
      match d.lookup path with
      | .file bytes => .ok bytes
      | .directory => .error .isADirectory
      | .nothing => .error .notFound
    else .error .isADirectory
  | path, above, name :: rest =>
    if 0 < above then
      if name = "" ∨ name = "." then d.follow path above rest
      else if name = ".." then d.follow path (above + 1) rest
      else .error .notFound
    else
      match d.lookup path with
      | .file _ => .error .notADirectory
      | .nothing => .error .notFound
      | .directory =>
        if name = "" ∨ name = "." then d.follow path 0 rest
        else if name = ".." then
          if path.isEmpty then d.follow [] 1 rest else d.follow path.dropLast 0 rest
        else d.follow (path ++ [name]) 0 rest

/-- Reads the file at a path. It starts at the root of the tree or, if it is absolute, above it. -/
def read (d : Directory) : FileReader Id := fun path =>
  if path = "" then .error .notFound
  else
    match d.follow [] (if path.startsWith "/" then 1 else 0) (path.splitOn "/") with
    | .ok bytes => textOfBytes bytes
    | .error e => .error e

end Directory

end GraphSurvey
