import Excerpt.Setting.Basic
import Excerpt.Text.Decimal
import Excerpt.Text.Space

/-!
# Paths into settings

A path leads from a table over keys and from a list over indices, and begins with a key. In
its text the other keys follow dots and the indices stand within brackets. Whatever is not of
the shape that a path needs on its way gives way to an empty table or list.
-/

namespace Excerpt.Setting

inductive Step where
  | key (key : String)
  | index (index : Int)
deriving DecidableEq, Repr

structure Path where
  first : String
  rest : List Step := []
deriving DecidableEq, Repr

/-- Puts a value where the last step leads. An item of a list is replaced as a whole. -/
def assignAt (value : Setting) : Step → List Step → Setting → Setting
  | .key key, [], setting => setting.update key (merge value)
  | .index index, [], setting => setting.updateItem index fun _ => value
  | .key key, step :: path, setting =>
    setting.update key fun old => assignAt value step path (old.getD nothing)
  | .index index, step :: path, setting => setting.updateItem index (assignAt value step path)

def assign (setting value : Setting) (path : Path) : Setting :=
  assignAt value (.key path.first) path.rest setting

/-- Whether a character may stand in a key of a path. -/
def isPathChar (c : Char) : Bool := c.isAlphanum || c == '_' || c == '-' || c == ' '

def pathKey? (t : List Char) : Option (String × List Char) :=
  match t.takeWhile isPathChar with
  | [] => none
  | key => some (String.ofList key, t.dropWhile isPathChar)

/-- An index is a whole number of 64 bits. -/
def index? : List Char → Option Int
  | '-' :: t =>
    (Text.number? t).bind fun n => if n ≤ Nat.pow 2 63 then some (-Int.ofNat n) else none
  | t => (Text.number? t).bind fun n => if n < Nat.pow 2 63 then some (Int.ofNat n) else none

def isIndexChar (c : Char) : Bool := c.isDigit || c == '-'

/-- An index after its opening bracket, with spaces around it at will. -/
def bracketed? (t : List Char) : Option (Int × List Char) := do
  let t := Text.skipSpace t
  let index ← index? (t.takeWhile isIndexChar)
  match Text.skipSpace (t.dropWhile isIndexChar) with
  | ']' :: t => return (index, t)
  | _ => none

def step? : List Char → Option (Step × List Char)
  | '.' :: t => (pathKey? t).map fun (key, t) => (.key key, t)
  | '[' :: t => (bracketed? t).map fun (index, t) => (.index index, t)
  | _ => none

/-- The steps that make up all of a text, `fuel` of them at most. -/
def steps? : Nat → List Char → Option (List Step)
  | _, [] => some []
  | 0, _ :: _ => none
  | fuel + 1, t => do
    let (step, t) ← step? t
    return step :: (← steps? fuel t)

namespace Path

/-- The path that a text is, if it is well formed. No step is without a character. -/
def ofText? (text : String) : Option Path := do
  let (first, t) ← pathKey? text.toList
  return ⟨first, ← steps? t.length t⟩

/-- A key that is not a path in itself stands for the path to itself. -/
def ofKey (key : String) : Path := (ofText? key).getD ⟨key, []⟩

end Path

/-- One source of settings: paths with what is assigned there, in order. -/
abbrev Layer := List (Path × Setting)

/-- The layer of a table whose keys may themselves be paths. -/
def Layer.ofEntries (entries : Keyed Setting) : Layer :=
  entries.map fun (key, value) => (Path.ofKey key, value)

def layer (setting : Setting) (layer : Layer) : Setting :=
  layer.foldl (fun s (path, value) => s.assign value path) setting

@[simp] theorem layer_nil (setting : Setting) : setting.layer [] = setting := rfl

theorem layer_cons (setting : Setting) (path : Path) (value : Setting) (l : Layer) :
    setting.layer ((path, value) :: l) = (setting.assign value path).layer l := rfl

theorem layer_append (setting : Setting) (l l' : Layer) :
    setting.layer (l ++ l') = (setting.layer l).layer l' := by
  simp [layer]

end Excerpt.Setting
