/-!
The values of a settings document and the rules by which headers and dotted
keys build its tables.
-/

namespace SandboxVm.Toml

/-- How a table came to be, which decides who may still add to it. -/
inductive Origin where
  /-- Written in braces: complete. -/
  | inline
  /-- Made by a dotted key: open to more dotted keys. -/
  | dotted
  /-- Made on the way to the table of a header: open to its own header. -/
  | implicit
  /-- Made by a header of its own. -/
  | header
  deriving DecidableEq

/-- A value of a settings document. Of floats and times only the kind is kept.
An integer is known by its form; whether its digits make a number only matters
to the one who reads it. -/
inductive Value where
  | string (s : String)
  | integer (n? : Option Int)
  | float
  | boolean (b : Bool)
  | dateTime
  /-- An array, or a list of tables made by headers. -/
  | array (ofTables : Bool) (items : List Value)
  | table (origin : Origin) (entries : List (String × Value))

/-- The entries of a table, in the order of writing. -/
abbrev Entries := List (String × Value)

namespace Entries

def get? (entries : Entries) (key : String) : Option Value := entries.lookup key

def set (entries : Entries) (key : String) (v : Value) : Entries :=
  entries.map fun (k, old) => if k == key then (k, v) else (k, old)

/-- Add a value under a dotted key. A key that is taken is refused, and so is a
table that was not made by dotted keys. -/
def insert? (entries : Entries) (v : Value) : (path : List String) → Option Entries
  | [] => none
  | [key] => if (entries.get? key).isSome then none else some (entries ++ [(key, v)])
  | key :: rest =>
    match entries.get? key with
    | none => (Entries.insert? [] v rest).map fun sub => entries ++ [(key, .table .dotted sub)]
    | some (.table .dotted sub) =>
      (Entries.insert? sub v rest).map fun sub => entries.set key (.table .dotted sub)
    | some _ => none

/-- Change the last item of a list of tables. -/
def modifyLast? (items : List Value) (f : Entries → Option Entries) : Option (List Value) :=
  match items.reverse with
  | .table origin sub :: front => (f sub).map fun sub => (.table origin sub :: front).reverse
  | _ => none

/-- Open the table that a header names. `fresh` treats the last key, given the
value it has. -/
def openPath? (entries : Entries) (fresh : Option Value → Option Value) :
    (path : List String) → Option Entries
  | [] => none
  | [key] =>
    match entries.get? key with
    | none => (fresh none).map fun v => entries ++ [(key, v)]
    | some old => (fresh (some old)).map fun v => entries.set key v
  | key :: rest =>
    match entries.get? key with
    | none =>
      (Entries.openPath? [] fresh rest).map fun sub => entries ++ [(key, .table .implicit sub)]
    | some (.table .inline _) => none
    | some (.table origin sub) =>
      (Entries.openPath? sub fresh rest).map fun sub => entries.set key (.table origin sub)
    | some (.array true items) =>
      (modifyLast? items fun sub => Entries.openPath? sub fresh rest).map fun items =>
        entries.set key (.array true items)
    | some _ => none

/-- A table header: a table not made yet, or only on the way to another. -/
def freshTable : Option Value → Option Value
  | none => some (.table .header [])
  | some (.table .implicit sub) => some (.table .header sub)
  | some _ => none

/-- A header of a list of tables: one more table in the list. -/
def freshItem : Option Value → Option Value
  | none => some (.array true [.table .header []])
  | some (.array true items) => some (.array true (items ++ [.table .header []]))
  | some _ => none

/-- Change the table that the latest header named. -/
def modifyAt? (entries : Entries) (f : Entries → Option Entries) :
    (path : List String) → Option Entries
  | [] => f entries
  | key :: rest =>
    match entries.get? key with
    | some (.table origin sub) =>
      (Entries.modifyAt? sub f rest).map fun sub => entries.set key (.table origin sub)
    | some (.array true items) =>
      (modifyLast? items fun sub => Entries.modifyAt? sub f rest).map fun items =>
        entries.set key (.array true items)
    | _ => none

end Entries

end SandboxVm.Toml
