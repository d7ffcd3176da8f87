import Excerpt.Json.Basic
import Excerpt.Options

/-!
# Requests

An element names its sample by a slug: the path of a file and, after the first hash, a
selector. The file is retrieved under an identifier that begins with the proxy of the
host. The extension of the file tells a highlighter what the text is.
-/

namespace Excerpt

/-- A display together with the kind of text it shows. -/
structure RenderedSample where
  lines : List RenderedLine
  contentType : Option String
deriving DecidableEq, Repr

namespace RenderedSample

def text (sample : RenderedSample) : String := joinRendered sample.lines

/-- The class that highlighters look for. -/
def languageClass? (sample : RenderedSample) : Option String :=
  sample.contentType.map fun extension => "language-" ++ extension

end RenderedSample

structure Request where
  file : String
  selector : Option String
  attributes : Attributes
deriving DecidableEq, Repr

namespace Request

/-- An empty selector is none. -/
def selector? : List Char → Option String
  | '#' :: c :: t => some (String.ofList (c :: t))
  | _ => none

def ofSlug (slug : String) (attributes : Attributes) : Request where
  file := String.ofList (slug.toList.takeWhile (· != '#'))
  selector := selector? (slug.toList.dropWhile (· != '#'))
  attributes := attributes

def identifier (request : Request) (defaults : Defaults) : String :=
  defaults.proxyUrl ++ request.file

/-- What follows the last dot, unless nothing does or there is no dot. -/
def extension? (name : List Char) : Option String :=
  match name.reverse.takeWhile (· != '.'), name.reverse.dropWhile (· != '.') with
  | [], _ => none
  | _, [] => none
  | extension, _ => some (String.ofList extension.reverse)

/-- The extension of the last segment of the path. -/
def contentType? (request : Request) : Option String :=
  extension? ((request.file.toList.reverse.takeWhile (· != '/')).reverse)

def sample (request : Request) (source : Source) : Except SampleFailure Sample :=
  (Sample.ofSelector source request.selector).require request.file request.selector

/-- The display of the request, once its file is there. -/
def render (request : Request) (source : Source) (defaults : Defaults) :
    Except SampleFailure RenderedSample :=
  (request.sample source).map fun sample =>
    ⟨sample.render (RenderOptions.resolve defaults request.attributes), request.contentType?⟩

end Request

end Excerpt
