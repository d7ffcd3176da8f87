import Excerpt.MarkTag
import Excerpt.Numbering
import Excerpt.OffsetSet
import Excerpt.Sample

/-!
# Rendering

A sample is displayed in fixed steps: delimiters and skipped lines are dropped, common
indentation is removed, and every line that is left gets its number and its mark. Offsets
to skip or to mark count the lines of the sample before any is dropped.
-/

namespace Excerpt

structure RenderOptions where
  removeIndentation : Bool := false
  numbering : Numbering := .off
  marked : OffsetSet := {}
  skipDelimiters : Bool := false
  skip : OffsetSet := {}
deriving DecidableEq, Repr

/-- One line of a display. -/
structure RenderedLine where
  number : Option String
  marked : Bool
  text : String
deriving DecidableEq, Repr

namespace RenderedLine

def plain (text : String) : RenderedLine := ⟨none, false, text⟩

end RenderedLine

namespace RenderOptions

def keeps (options : RenderOptions) (line : Line) (offset : Nat) : Bool :=
  !(options.skipDelimiters && line.isDelimiter) && !options.skip.contains offset

end RenderOptions

namespace Sample

/-- The lines to display, each with its offset in the sample. -/
def survivors (sample : Sample) (options : RenderOptions) : List (Line × Nat) :=
  sample.lines.zipIdx.filter fun (line, offset) => options.keeps line offset

end Sample

namespace RenderOptions

def indentation (options : RenderOptions) (lines : List Line) : Nat :=
  if options.removeIndentation then commonIndentation lines else 0

end RenderOptions

def dropChars (count : Nat) (text : String) : String := String.ofList (text.toList.drop count)

/-- The number of a line, to the right end of a field of the given width. -/
def numberText (width : Nat) (number : Nat) : String :=
  String.ofList (Text.padLeft width (Text.decimal number))

/-- A line without its first `indentation` characters and without a mark tag, which marks
it just as its offset may. -/
def renderLine (options : RenderOptions) (indentation width : Nat)
    (position : Nat) (line : Line) (offset : Nat) : RenderedLine :=
  let text := dropChars indentation line.text
  let number := (options.numbering.value? position line.number).map (numberText width)
  match stripMarkTag? text with
  | some stripped => ⟨number, true, stripped⟩
  | none => ⟨number, options.marked.contains offset, text⟩

namespace Sample

def render (sample : Sample) (options : RenderOptions) : List RenderedLine :=
  let kept := sample.survivors options
  let indentation := options.indentation (kept.map Prod.fst)
  let width := options.numbering.width kept.length sample.fileLineCount
  kept.zipIdx.map fun ((line, offset), position) =>
    renderLine options indentation width position line offset

end Sample

/-- The texts of a display, joined by line feeds. -/
def joinRendered (lines : List RenderedLine) : String :=
  Text.joinLines (lines.map RenderedLine.text)

end Excerpt
