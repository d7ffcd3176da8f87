import Excerpt.Json.Basic
import Excerpt.Options

/-!
# Lines and defaults from JSON

A line or a set of defaults is written as an object, or as an array of its fields in a
fixed order. Names that are not known are ignored. Every field has a type of its own, and
a null is of none of them.
-/

namespace Excerpt

/-- Why a value is not what was to be read from it. -/
inductive MalformedJson where
  | wrongType
  | missingField
  | tooManyFields
  | unknownName
  | unknownNumbering (text : String)
deriving DecidableEq, Repr

namespace MalformedJson

/-- The text of the one failure whose wording is fixed. -/
def message? : MalformedJson → Option String
  | unknownNumbering text =>
    some ("unknown line number setting '" ++ text ++
      "' (expected off, sequential, original or a boolean)")
  | _ => none

end MalformedJson

namespace Json

def asString : Json → Except MalformedJson String
  | string text => .ok text
  | _ => .error .wrongType

def asBool : Json → Except MalformedJson Bool
  | bool value => .ok value
  | _ => .error .wrongType

/-- A whole number below `2 ^ 64`. -/
def asOffset : Json → Except MalformedJson Nat
  | number (.ofNat n) 0 => if n ≤ Offset.limit then .ok n else .error .wrongType
  | _ => .error .wrongType

def kindOfTag (tag : String) : Except MalformedJson LineKind :=
  match LineKind.ofTag? tag with
  | some kind => .ok kind
  | none => .error .unknownName

/-- A kind is written by its tag, or by an object with a null under the tag alone. -/
def asKind : Json → Except MalformedJson LineKind
  | string tag => kindOfTag tag
  | object [(tag, null)] => kindOfTag tag
  | _ => .error .wrongType

def asDefaultNumbering : Json → Except MalformedJson DefaultNumbering
  | bool value => .ok (.ofBool value)
  | string text =>
    match DefaultNumbering.ofName? text with
    | some setting => .ok setting
    | none => .error (.unknownNumbering text)
  | _ => .error .wrongType

/-- A field that has to be there. -/
def required {α : Type} (read : Json → Except MalformedJson α) :
    Option Json → Except MalformedJson α
  | some value => read value
  | none => .error .missingField

/-- A field that may be left out. -/
def optional {α : Type} (read : Json → Except MalformedJson α) (default : α) :
    Option Json → Except MalformedJson α
  | some value => read value
  | none => .ok default

end Json

namespace Line

def ofFields (number text kind : Option Json) : Except MalformedJson Line := do
  let number ← Json.required Json.asOffset number
  let text ← Json.required Json.asString text
  let kind ← Json.required Json.asKind kind
  return ⟨number, text, kind⟩

def ofJson : Json → Except MalformedJson Line
  | .object members =>
    ofFields (Json.member? "number" members) (Json.member? "text" members)
      (Json.member? "delimiter" members)
  | .array items =>
    if 3 < items.length then .error .tooManyFields else ofFields items[0]? items[1]? items[2]?
  | _ => .error .wrongType

end Line

namespace Defaults

/-- The fields of an object are read in the order of their names. -/
def ofMembers (members : List (String × Json)) : Except MalformedJson Defaults := do
  let numbering ← Json.optional Json.asDefaultNumbering .off (Json.member? "line_numbers" members)
  let proxyUrl ← Json.optional Json.asString "" (Json.member? "proxy_url" members)
  let removeIndentation ←
    Json.optional Json.asBool false (Json.member? "remove_indentation" members)
  let skip ← Json.optional Json.asString "" (Json.member? "skip" members)
  return ⟨proxyUrl, removeIndentation, numbering, skip⟩

def ofItems (items : List Json) : Except MalformedJson Defaults := do
  let proxyUrl ← Json.optional Json.asString "" items[0]?
  let removeIndentation ← Json.optional Json.asBool false items[1]?
  let numbering ← Json.optional Json.asDefaultNumbering .off items[2]?
  let skip ← Json.optional Json.asString "" items[3]?
  if 4 < items.length then .error .tooManyFields
  else return ⟨proxyUrl, removeIndentation, numbering, skip⟩

def ofJson : Json → Except MalformedJson Defaults
  | .object members => ofMembers members
  | .array items => ofItems items
  | _ => .error .wrongType

end Defaults

end Excerpt
