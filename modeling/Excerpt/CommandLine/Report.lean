import Excerpt.CommandLine.Invocation
import Excerpt.OutputFormat
import Excerpt.Service.Run

/-!
# Reports

A report is what an invocation prints, part by part for its slugs. With more than one slug
each part has a heading, and blank lines stand between the parts. A slug that fails has a
line in the errors and nothing but its heading in the output.
-/

namespace Excerpt.CommandLine

/-- A slug with what came of it. -/
structure Element where
  slug : String
  result : Except SampleFailure RenderedSample

namespace Element

def output (element : Element) (format : OutputFormat) : String :=
  match element.result with
  | .ok sample => sample.write format ++ "\n"
  | .error _ => ""

def errors (element : Element) : String :=
  match element.result with
  | .ok _ => ""
  | .error failure => "Error in '" ++ element.slug ++ "': " ++ failure.message ++ "\n"

def failed (element : Element) : Bool :=
  match element.result with
  | .ok _ => false
  | .error _ => true

def heading (element : Element) : String := "==> " ++ element.slug ++ " <==\n"

/-- The part of an element among others. -/
def part (element : Element) (format : OutputFormat) : String :=
  element.heading ++ element.output format

end Element

structure Report where
  output : String
  errors : String
  failed : Bool
deriving DecidableEq, Repr

namespace Report

/-- Blank lines stand between parts only. -/
def outputOf (format : OutputFormat) : List Element → String
  | [] => ""
  | [element] => element.output format
  | elements => String.intercalate "\n" (elements.map fun element => element.part format)

def ofElements (format : OutputFormat) (elements : List Element) : Report where
  output := outputOf format elements
  errors := String.join (elements.map Element.errors)
  failed := elements.any Element.failed

end Report

/-- Why there is no report. -/
inductive Refusal where
  | usage
  | configuration (failure : ConfigurationFailure)
deriving DecidableEq, Repr

/-- How arguments and the texts of settings files are read. -/
structure Readers where
  arguments : ArgumentReader
  tables : TableReader

namespace Invocation

def requests (invocation : Invocation) : List Request :=
  invocation.slugs.map fun slug => Request.ofSlug slug invocation.attributes

/-- All slugs are asked of one service at once. -/
def elements (invocation : Invocation) (directory : Directory) (defaults : Defaults) :
    List Element :=
  let jobs := invocation.requests.map fun request => Job.render request defaults
  let service := Service.run (.ofDirectory directory) [.start jobs]
  (invocation.slugs.zip invocation.requests).zipIdx.map fun ((slug, request), n) =>
    let abandoned : Outcome := .failed (.abandoned (request.identifier defaults))
    ⟨slug, request.answer defaults ((service.outcome? n).getD abandoned)⟩

def report (invocation : Invocation) (directory : Directory) (c : Configuration) : Report :=
  Report.ofElements c.format (invocation.elements directory c.defaults)

end Invocation

/-- The whole of a run in a directory. -/
def report (readers : Readers) (directory : Directory) (arguments : List String) :
    Except Refusal Report :=
  match readers.arguments arguments with
  | .error (.printed text) => .ok ⟨text, "", false⟩
  | .error .usage => .error .usage
  | .ok invocation =>
    match Configuration.load readers.tables directory invocation.sources with
    | .ok c => .ok (invocation.report directory c)
    | .error failure => .error (.configuration failure)

end Excerpt.CommandLine
