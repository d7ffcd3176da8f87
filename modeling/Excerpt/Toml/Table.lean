import Excerpt.Toml.Value

/-!
# Tables of TOML documents

A line opens a table, or assigns a value, or says nothing. A byte order mark may stand before the
first one. The table of a document has its keys as they are written, and texts for its points in
time.
-/

namespace Excerpt.Toml

open Text (skipSpace)

/-- The end of the text ends a line too. -/
def lineEnd? (t : List Char) : Option (List Char) :=
  match afterComment t with
  | [] => some []
  | _ :: _ => lineBreak? t

def header : Reader Statement
  | '[' :: t => do
    let (path, ']' :: ']' :: t) ← keyPath longestKeyPath t | none
    return (.itemHeader path, t)
  | t => do
    let (path, ']' :: t) ← keyPath longestKeyPath t | none
    return (.header path, t)

/-- What a line says, if it says something, with what is left of it. -/
def line : Reader (Option Statement)
  | '[' :: t => (header t).map fun (statement, t) => (some statement, t)
  | t =>
    match lineEnd? t with
    | some _ => some (none, t)
    | none => (assignment (value deepestValue) t).map fun (statement, t) => (some statement, t)

def statements? : Nat → List Char → Option (List Statement)
  | _, [] => some []
  | 0, _ :: _ => none
  | fuel + 1, t => do
    let (statement, t) ← line (skipSpace t)
    return statement.toList ++ (← statements? fuel (← lineEnd? t))

def withoutMark : List Char → List Char
  | '\ufeff' :: t => t
  | t => t

def dateTime? : Setting → Option Setting
  | .scalar (.text t) =>
    (DateTime.ofText? t.toList).map fun d => .scalar (.text (String.ofList d.text))
  | _ => none

mutual

/-- A setting with the points in time that its tables stand for. -/
def dated? : Setting → Option Setting
  | .table ((key, value) :: entries) =>
    if key = dateTimeKey then dateTime? value
    else do
      let value ← dated? value
      return .table ((key, value) :: (← datedEntries? entries))
  | .list items => (datedItems? items).map .list
  | setting => some setting

def datedEntries? : List (String × Setting) → Option (List (String × Setting))
  | [] => some []
  | (key, value) :: entries => do
    let value ← dated? value
    return (key, value) :: (← datedEntries? entries)

def datedItems? : List Setting → Option (List Setting)
  | [] => some []
  | item :: items => do
    let item ← dated? item
    return item :: (← datedItems? items)

end

/-- The table that a text is as a document. -/
def table? (text : String) : Option (Keyed Setting) := do
  let t := withoutMark text.toList
  -- no line is without a character
  let document ← Document.ofStatements? (← statements? t.length t)
  let .table entries ← dated? document.root | none
  return entries

end Excerpt.Toml
