import Excerpt.Failure
import Excerpt.Selector
import Excerpt.Source
import Excerpt.Text.Word

/-!
# Samples

A sample is the lines that a selector takes from a file, in the order of its items and
with repetitions. Lines that carry the standalone word `skip-sample` are left out, even
where they are selected by number. A sample without lines is a failure of its request.
-/

namespace Excerpt

def skipTag : List Char := "skip-sample".toList

def hasSkipTag (text : String) : Bool := Text.containsWord skipTag text.toList

structure Sample where
  lines : List Line
  /-- How many lines the whole file has. -/
  fileLineCount : Nat
deriving DecidableEq, Repr

namespace Item

def select (source : Source) : Item → List Line
  | range start length => source.slice start length
  | region name => source.region name

end Item

namespace Sample

def selected (source : Source) : List Item → List Line
  | [] => source.lines
  | items => items.flatMap (Item.select source)

def ofItems (source : Source) (items : List Item) : Sample :=
  ⟨(selected source items).filter fun line => !hasSkipTag line.text, source.lineCount⟩

def ofSelector (source : Source) (selector : Option String) : Sample :=
  ofItems source ((selector.map selectorItems).getD [])

def isEmpty (sample : Sample) : Bool := sample.lines.isEmpty

/-- The sample itself, or the failure of a request for no lines. -/
def require (sample : Sample) (file : String) (selector : Option String) :
    Except SampleFailure Sample :=
  if sample.isEmpty then .error (.empty file selector) else .ok sample

end Sample

end Excerpt
