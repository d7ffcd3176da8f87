import Excerpt.Setting.Basic

/-!
# TOML documents

The statements of a document define tables and values at paths from its root. A path is defined
once, and a table is added to only in the way in which it was made. Under a path there may also be
a list of tables, which every header of its kind adds a table to, and it is the last of them that
a path then leads through.
-/

namespace Excerpt.Toml

inductive Statement where
  | header (path : List String)
  | itemHeader (path : List String)
  | assign (path : List String) (value : Setting)
deriving Repr

/-- A path has a value that nothing is added to, or a table with a header of its own, or a table
on the way to one with a header or to a value, or a list of tables with a header each. -/
inductive Definition where
  | value
  | opened
  | passed
  | dotted
  | listed
deriving DecidableEq, Repr

def inLast (change : Setting → Setting) : Setting → Setting
  | .list items => .list (items.dropLast ++ [change (items.getLastD .empty)])
  | setting => change setting

/-- Changes the entries of the table at a path of keys as they are written. -/
def changedAt (change : Keyed Setting → Keyed Setting) : List String → Setting → Setting
  | [], setting => .table (change setting.entries)
  | key :: path, setting =>
    .table (setting.entries.put key
      (inLast (changedAt change path) ((setting.get? key).getD .empty)))

def movedLast (key : String) (entries : Keyed Setting) : Keyed Setting :=
  entries.erase key ++ entries.filter fun entry => entry.1 == key

def withItem (key : String) (entries : Keyed Setting) : Keyed Setting :=
  entries.put key (.list (((entries.get? key).getD .nothing).items ++ [.empty]))

structure Document where
  defined : List (List String × Definition) := []
  root : Setting := .empty
  current : List String := []
deriving Repr

namespace Document

def definition? (d : Document) (path : List String) : Option Definition := d.defined.lookup path

def define (d : Document) (path : List String) (definition : Definition) : Document :=
  { d with defined := (path, definition) :: d.defined }

def edit (d : Document) (path : List String)
    (change : String → Keyed Setting → Keyed Setting) : Document :=
  { d with root := changedAt (change (path.getLastD "")) path.dropLast d.root }

/-- Goes through the tables above the last key of a path, and makes those that are new. -/
def walk (made : Definition) (allows : (last : Bool) → Definition → Bool) (d : Document)
    (above : List String) : List String → Option Document
  | [] => some d
  | [_] => some d
  | key :: path =>
    let here := above ++ [key]
    match d.definition? here with
    | none => (d.define here made).walk made allows here path
    | some definition =>
      if allows (path.length == 1) definition then d.walk made allows here path else none

/-- The table of a header must be new or only passed so far. -/
def openTable (d : Document) (path : List String) : Option Document := do
  let d ← d.walk .passed (fun _ => (· != .value)) [] path
  match d.definition? path with
  | none => return { (d.define path .opened).edit path fun key => .put key .empty with
      current := path }
  | some .passed => return { (d.define path .opened).edit path movedLast with current := path }
  | some _ => none

def openItem (d : Document) (path : List String) : Option Document := do
  let d ← d.walk .passed (fun _ => (· != .value)) [] path
  guard (d.definition? path ∈ [none, some .listed])
  -- what was defined in the last table of the list is free again in the next one
  let above := { d with defined := d.defined.filter fun entry => !path.isPrefixOf entry.1 }
  return { (above.define path .listed).edit path withItem with current := path }

/-- The last table that a dotted key goes through must be made by such keys. -/
def takesDotted (last : Bool) : Definition → Bool
  | .dotted => true
  | .passed => !last
  | .listed => !last
  | .value => false
  | .opened => false

def assign (d : Document) (path : List String) (value : Setting) : Option Document := do
  let d ← d.walk .dotted takesDotted d.current path
  let here := d.current ++ path
  match d.definition? here with
  | none => return (d.define here .value).edit here fun key => .put key value
  | some _ => none

def step (d : Document) : Statement → Option Document
  | .header path => d.openTable path
  | .itemHeader path => d.openItem path
  | .assign path value => d.assign path value

def ofStatements? (statements : List Statement) : Option Document := statements.foldlM step {}

end Document

end Excerpt.Toml
