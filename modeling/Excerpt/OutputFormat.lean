import Excerpt.Json.Printer
import Excerpt.Request

/-!
# Output formats

A display is written in one of three formats: the bare text, the text with a gutter that
shows marks and numbers, or JSON. Each line of the annotated form begins with a gutter of
two characters. No format ends its output with a line feed.
-/

namespace Excerpt

inductive OutputFormat where
  | annotated
  | plain
  | json
deriving DecidableEq, Repr

/-- A name that belongs to no format. -/
structure UnknownFormat where
  name : String
deriving DecidableEq, Repr

namespace UnknownFormat

def message (e : UnknownFormat) : String :=
  "Unknown format '" ++ e.name ++ "' (expected one of: annotated, plain, json)"

end UnknownFormat

namespace OutputFormat

def all : List OutputFormat := [annotated, plain, json]

def default : OutputFormat := annotated

def name : OutputFormat → String
  | annotated => "annotated"
  | plain => "plain"
  | json => "json"

def ofName? (name : String) : Option OutputFormat := all.find? (·.name == name)

def ofName (name : String) : Except UnknownFormat OutputFormat :=
  match ofName? name with
  | some format => .ok format
  | none => .error ⟨name⟩

end OutputFormat

namespace RenderedLine

def gutter (line : RenderedLine) : String := if line.marked then "> " else "  "

def annotated (line : RenderedLine) : String :=
  match line.number with
  | some number => line.gutter ++ number ++ ": " ++ line.text
  | none => line.gutter ++ line.text

def toJson (line : RenderedLine) : Json :=
  let rest : List (String × Json) := [("marked", .bool line.marked), ("text", .string line.text)]
  match line.number with
  | some number => .object (("number", .string number) :: rest)
  | none => .object rest

end RenderedLine

namespace RenderedSample

def annotated (sample : RenderedSample) : String :=
  Text.joinLines (sample.lines.map RenderedLine.annotated)

def toJson (sample : RenderedSample) : Json :=
  let lines : String × Json := ("lines", .array (sample.lines.map RenderedLine.toJson))
  match sample.contentType with
  | some contentType => .object [lines, ("content_type", .string contentType)]
  | none => .object [lines]

def write (sample : RenderedSample) : OutputFormat → String
  | .annotated => sample.annotated
  | .plain => sample.text
  | .json => sample.toJson.text

end RenderedSample

end Excerpt
