import SandboxVm.Text.Path

/-!
A tree of files in memory, with the errors of reading a path in it.
-/

namespace SandboxVm

/-- Why a file cannot be read. -/
inductive FileError where
  | notFound
  | notADirectory
  | isADirectory
  | nameTooLong
  | badName
  deriving DecidableEq

def FileError.message : FileError → String
  | notFound => "No such file or directory (os error 2)"
  | notADirectory => "Not a directory (os error 20)"
  | isADirectory => "Is a directory (os error 21)"
  | nameTooLong => "File name too long (os error 36)"
  | badName => "file name contained an unexpected NUL byte"

/-- What a path can lead to. -/
inductive FileNode (α : Type) where
  | directory
  | file (contents : α)

/-- A place in a tree of files: the names on the way to it from the root. -/
abbrev Location := List String

/-- A tree of files with a working directory. -/
structure Files (α : Type) where
  /-- What there is, by location. The root is always there. -/
  nodes : List (Location × FileNode α) := []
  workingDirectory : Location := []

namespace Files

variable {α : Type}

def maxNameLength : Nat := 255

def maxPathLength : Nat := 4095

def node? (files : Files α) (location : Location) : Option (FileNode α) :=
  if location.isEmpty then some .directory else files.nodes.lookup location

def setNode (files : Files α) (location : Location) (node : FileNode α) : Files α :=
  { files with
    nodes := (location, node) :: files.nodes.filter fun (other, _) => other != location }

def start (files : Files α) (path : String) : Location :=
  if path.startsWith "/" then [] else files.workingDirectory

/-- Follow names from a directory to a file: its location and its contents. -/
def follow (files : Files α) (dir : Location) :
    (names : List String) → Except FileError (Location × α)
  | [] => .error .isADirectory
  | name :: rest =>
    if name == "" || name == "." then follow files dir rest
    else if name == ".." then follow files dir.dropLast rest
    else if maxNameLength < name.utf8ByteSize then .error .nameTooLong
    else
      let here := dir ++ [name]
      match files.node? here with
      | some .directory => follow files here rest
      | some (.file contents) =>
        if rest.isEmpty then .ok (here, contents) else .error .notADirectory
      | none => .error .notFound

/-- Find the file at a path: its location and its contents. -/
def find (files : Files α) (path : String) : Except FileError (Location × α) :=
  if path.contains '\x00' then .error .badName
  else if path == "" then .error .notFound
  else if maxPathLength < path.utf8ByteSize then .error .nameTooLong
  else files.follow (files.start path) (path.splitOn "/")

/-- The contents of the file at a path. -/
def read (files : Files α) (path : String) : Except FileError α :=
  (files.find path).map (·.2)

/-- Put a file where names lead to from a directory. Directories that are
missing on the way are made; nothing happens if the way is barred. -/
def place (contents : α) (files : Files α) (dir : Location) : (names : List String) → Files α
  | [] => files
  | name :: rest =>
    if name == "" || name == "." then place contents files dir rest
    else if name == ".." then place contents files dir.dropLast rest
    else
      let here := dir ++ [name]
      match files.node? here, rest with
      | some .directory, rest => place contents files here rest
      | some (.file _), [] | none, [] => files.setNode here (.file contents)
      | some (.file _), _ :: _ => files
      | none, rest => place contents (files.setNode here .directory) here rest

/-- Put a file at a path, in place of the one that was there. -/
def insert (files : Files α) (path : String) (contents : α) : Files α :=
  place contents files (files.start path) (path.splitOn "/")

/-- Remove the file at a path. Its directory stays. -/
def erase (files : Files α) (path : String) : Files α :=
  match files.find path with
  | .ok (location, _) =>
    { files with nodes := files.nodes.filter fun (other, _) => other != location }
  | .error _ => files

end Files

end SandboxVm
