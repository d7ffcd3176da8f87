import Excerpt.Offset
import Excerpt.Region
import Excerpt.Text.Lines

/-!
# Source files

A source file is its lines and the regions among them. Every line is kept, delimiters
included, so that numbers count physical lines; only content lines belong to regions.
Reading a file never fails.
-/

namespace Excerpt

structure Source where
  lines : List Line
  regions : RegionTable
deriving DecidableEq, Repr

namespace Source

/-- The delimiter, if any, on each line of the content. -/
def classified (content : String) : List (List Char × Option Delimiter) :=
  (Text.lines content.toList).map fun t => (t, Delimiter.ofText? t)

def numbered (lines : List (List Char × Option Delimiter)) : List Line :=
  lines.zipIdx.map fun ((text, d), offset) =>
    ⟨offset + 1, String.ofList text, LineKind.ofDelimiter d⟩

def logged (lines : List (List Char × Option Delimiter)) : RegionLog :=
  lines.zipIdx.foldl (fun log ((_, d), offset) => log.step offset d) {}

def ofContent (content : String) : Source :=
  let lines := classified content
  ⟨numbered lines, (logged lines).table⟩

def lineCount (source : Source) : Nat := source.lines.length

/-- Where a slice begins and where it has ended. Neither offset passes the end of the file. -/
def sliceBounds (source : Source) (start length : Nat) : Nat × Nat :=
  let first := min start source.lineCount
  (first, min (Offset.add first length) source.lineCount)

/-- The lines at offsets from `start` on, `length` of them or as many as there are. -/
def slice (source : Source) (start length : Nat) : List Line :=
  let (first, stop) := source.sliceBounds start length
  source.lines.extract first stop

/-- The content lines of a region, in the order of the file. -/
def region (source : Source) (name : String) : List Line :=
  (source.regions.offsets name).filterMap (source.lines[·]?)

def hasRegion (source : Source) (name : String) : Bool := source.regions.contains name

def regionNames (source : Source) : List String := source.regions.names

end Source

end Excerpt
