/-!
# Failures

A sample fails in one of two ways: its file could not be retrieved, or nothing of the
file was selected. A retrieval fails because the file is not there, because reading it
failed, or because whoever retrieved it for others gave up.
-/

namespace Excerpt

inductive RetrievalFailure where
  | notFound (identifier : String)
  | unreadable (identifier reason : String)
  | abandoned (identifier : String)
deriving DecidableEq, Repr

namespace RetrievalFailure

def message : RetrievalFailure → String
  | notFound identifier => "file not found: " ++ identifier
  | unreadable identifier reason => "failed to read " ++ identifier ++ ": " ++ reason
  | abandoned identifier => "retrieval of " ++ identifier ++ " did not complete"

end RetrievalFailure

inductive SampleFailureCause where
  | retrieval (failure : RetrievalFailure)
  | emptySample
deriving DecidableEq, Repr

/-- Why there is no sample, with the file and the selector that were asked for. -/
structure SampleFailure where
  cause : SampleFailureCause
  file : String
  selector : Option String
deriving DecidableEq, Repr

namespace SampleFailure

def retrieval (file : String) (selector : Option String) (failure : RetrievalFailure) :
    SampleFailure := ⟨.retrieval failure, file, selector⟩

def empty (file : String) (selector : Option String) : SampleFailure :=
  ⟨.emptySample, file, selector⟩

def isEmptySample (failure : SampleFailure) : Bool :=
  match failure.cause with
  | .emptySample => true
  | .retrieval _ => false

/-- The retrieval that failed, if that was the cause. -/
def source? (failure : SampleFailure) : Option RetrievalFailure :=
  match failure.cause with
  | .emptySample => none
  | .retrieval r => some r

def message (failure : SampleFailure) : String :=
  match failure.cause, failure.selector with
  | .retrieval r, _ => "could not retrieve '" ++ failure.file ++ "': " ++ r.message
  | .emptySample, some selector =>
    "no lines selected from '" ++ failure.file ++ "' by selector '" ++ selector ++ "'"
  | .emptySample, none => "no lines to show from '" ++ failure.file ++ "'"

end SampleFailure

end Excerpt
