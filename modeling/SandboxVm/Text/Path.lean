namespace SandboxVm.Text.Path

/-- The names along a path. Empty parts and `.` name nothing. -/
def names (path : String) : List String :=
  (path.splitOn "/").filter fun s => s != "" && s != "."

/-- The last name of a path, unless it leads upward. -/
def fileName? (path : String) : Option String :=
  (names path).getLast?.filter (· != "..")

/-- A file name without its extension. A name whose only dot stands first has none. -/
def stem (name : String) : String :=
  match name.toList.reverse.span (· != '.') with
  | (_, _ :: rest) => if rest.isEmpty then name else String.ofList rest.reverse
  | (_, []) => name

/-- The last name of a path without its extension, or nothing at all. -/
def fileStem (path : String) : String :=
  ((fileName? path).map stem).getD ""

/-- The path of a file relative to a directory. An absolute path stands for itself. -/
def join (dir file : String) : String :=
  if file.startsWith "/" || dir == "" then file
  else if dir.endsWith "/" then dir ++ file
  else dir ++ "/" ++ file

end SandboxVm.Text.Path
