import Excerpt.Toml.DateTime
import Excerpt.Toml.Document
import Excerpt.Toml.Text

/-!
# Values of a TOML document

A value is a text, a number, a flag, a point in time, a list or a table within braces. A list may
go on over many lines, while a table within braces stands on one and is a document of assignments
alone. A key may be a path of keys. Paths have a greatest length, and brackets and braces around a
value a greatest depth.
-/

namespace Excerpt.Toml

open Text (skipSpace)

def afterComment (t : List Char) : List Char :=
  match skipSpace t with
  | '#' :: comment => comment.dropWhile isPlain
  | t => t

/-- What follows the end of a line of which nothing but spaces and a comment is left. -/
def lineBreak? (t : List Char) : Option (List Char) := (lineFeed (afterComment t)).map Prod.snd

def skipLines : Nat → List Char → List Char
  | 0, t => t
  | fuel + 1, t =>
    match lineBreak? t with
    | some t => skipLines fuel t
    | none => skipSpace t

/-! ## Scalars -/

/-- A table that begins with this key is not a table but the point in time under it. -/
def dateTimeKey : String := "$__toml_private_datetime"

def isWordChar (c : Char) : Bool :=
  c.isAlphanum || c == '_' || c == '+' || c == '-' || c == '.' || c == ':'

def isDate (t : List Char) : Bool := ((Date.read t).map fun (_, rest) => rest.isEmpty).getD false

def word : Reader (List Char) := fun t =>
  -- behind a date a word may go on after one space
  let first := t.takeWhile isWordChar
  let rest := t.dropWhile isWordChar
  let second := (rest.drop 1).takeWhile isWordChar
  if isDate first && rest.head? == some ' ' && !second.isEmpty then
    some (first ++ ' ' :: second, (rest.drop 1).dropWhile isWordChar)
  else some (first, rest)

def ofWord? (t : List Char) : Option Setting :=
  if t = "true".toList then some (.scalar (.flag true))
  else if t = "false".toList then some (.scalar (.flag false))
  else
    match DateTime.ofText? t with
    | some d => some (.table [(dateTimeKey, .scalar (.text (String.ofList d.text)))])
    | none =>
      (integer? t).map (fun n => .scalar (.integer n)) <|>
        (float? t).map fun text => .scalar (.float text)

def scalar : Reader Setting := fun t =>
  if t.head? ∈ [some '"', some '\''] then (text t).map fun (text, t) => (.scalar (.text text), t)
  else do
    let (w, t) ← word t
    return (← ofWord? w, t)

/-! ## Keys -/

def isBareKeyChar (c : Char) : Bool := c.isAlphanum || c == '_' || c == '-'

def key : Reader String := fun t =>
  if t.head? ∈ [some '"', some '\''] then lineText t
  else
    match t.takeWhile isBareKeyChar with
    | [] => none
    | bare => some (String.ofList bare, t.dropWhile isBareKeyChar)

def keyPath : (most : Nat) → Reader (List String)
  | 0, _ => none
  | most + 1, t => do
    let (first, t) ← key (skipSpace t)
    match skipSpace t with
    | '.' :: t =>
      let (others, t) ← keyPath most t
      return (first :: others, t)
    | t => return ([first], t)

def longestKeyPath : Nat := 79

def deepestValue : Nat := 79

def assignment (value : Reader Setting) : Reader Statement := fun t => do
  let (path, t) ← keyPath longestKeyPath t
  match t with
  | '=' :: t => (value (skipSpace t)).map fun (value, t) => (.assign path value, t)
  | _ => none

/-! ## Lists and tables -/

def listItems (value : Reader Setting) : (fuel : Nat) → Reader (List Setting)
  | 0, _ => none
  | fuel + 1, t =>
    match skipLines t.length t with
    | ']' :: t => some ([], t)
    | t => do
      let (first, t) ← value t
      match skipLines t.length t with
      | ',' :: t =>
        let (others, t) ← listItems value fuel t
        return (first :: others, t)
      | ']' :: t => return ([first], t)
      | _ => none

/-- One assignment or more up to the closing brace, `fuel` of them at most. -/
def assignments (value : Reader Setting) : (fuel : Nat) → Reader (List Statement)
  | 0, _ => none
  | fuel + 1, t => do
    let (first, t) ← assignment value t
    match skipSpace t with
    | ',' :: t =>
      let (others, t) ← assignments value fuel t
      return (first :: others, t)
    | '\x7d' :: t => return ([first], t)
    | _ => none

def tableBody (value : Reader Setting) : Reader (List Statement) := fun t =>
  match skipSpace t with
  | '\x7d' :: t => some ([], t)
  | t => assignments value t.length t

/-- A value with `depth` brackets and braces around it at most. -/
def value : (depth : Nat) → Reader Setting
  | depth + 1, '\x7b' :: t => do
    let (statements, t) ← tableBody (value depth) t
    return ((← Document.ofStatements? statements).root, t)
  | depth + 1, '[' :: t =>
    (listItems (value depth) t.length t).map fun (items, t) => (.list items, t)
  | _, t => scalar t

end Excerpt.Toml
