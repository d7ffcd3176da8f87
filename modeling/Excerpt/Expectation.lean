import Excerpt.Rendering

/-!
# Expectations on samples

An expectation says what a sample should hold: how many lines, which numbers and texts,
or how single lines look. Others speak of the display of the sample. An expectation about
a line that is not there does not hold.
-/

namespace Excerpt

inductive Expectation where
  | lineCount (count : Nat)
  | numbers (expected : List Nat)
  | noDelimiters
  | texts (expected : List String)
  | lineNumber (index number : Nat)
  | lineText (index : Nat) (text : String)
  | lineContains (index : Nat) (part : String)
  | lineKind (index : Nat) (kind : LineKind)
  | renderedTexts (expected : List String)
  | renderedMarked (positions : List Nat)
  | renderedNumbers (expected : List (Option String))
deriving DecidableEq, Repr

/-- Whether the first text occurs in the second. -/
def occursIn (part : List Char) : List Char → Bool
  | [] => part.isEmpty
  | c :: t => part.isPrefixOf (c :: t) || occursIn part t

namespace Expectation

def ofLine (lines : List Line) (index : Nat) (holds : Line → Bool) : Bool :=
  match lines[index]? with
  | some line => holds line
  | none => false

def markedPositions (lines : List RenderedLine) : List Nat :=
  (lines.zipIdx.filter fun (line, _) => line.marked).map Prod.snd

def holds (sample : Sample) (options : RenderOptions) : Expectation → Bool
  | lineCount count => sample.lines.length == count
  | numbers expected => sample.lines.map Line.number == expected
  | noDelimiters => sample.lines.all fun line => !line.isDelimiter
  | texts expected => sample.lines.map Line.text == expected
  | lineNumber index number => ofLine sample.lines index fun line => line.number == number
  | lineText index text => ofLine sample.lines index fun line => line.text == text
  | lineContains index part =>
    ofLine sample.lines index fun line => occursIn part.toList line.text.toList
  | lineKind index kind => ofLine sample.lines index fun line => line.kind == kind
  | renderedTexts expected => (sample.render options).map RenderedLine.text == expected
  | renderedMarked positions => markedPositions (sample.render options) == positions
  | renderedNumbers expected => (sample.render options).map RenderedLine.number == expected

end Expectation

end Excerpt
