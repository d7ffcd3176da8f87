import Excerpt.Keyed
import Excerpt.Request

/-!
# The file service

Many samples share one file, so a service retrieves and scans each file once. A table says
of every identifier whether its retrieval is open, with the tasks that wait for it, or
whether its scanned file is there. Tasks take turns in the order of a queue.
-/

namespace Excerpt

/-- What came of reading a file. -/
inductive Retrieved where
  | content (text : String)
  | missing
  | unreadable (reason : String)
deriving DecidableEq, Repr

/-- A fetcher answers a call after one turn, or, if it gives nothing, when somebody
finishes the call. -/
abbrev Fetcher := String → Option Retrieved

namespace Fetcher

/-- Serves the given files and no others. -/
def ofFiles (files : Keyed String) : Fetcher := fun identifier =>
  match files.get? identifier with
  | some text => some (.content text)
  | none => some .missing

/-- Leaves every call to be finished from outside. -/
def held : Fetcher := fun _ => none

end Fetcher

/-- A scanned file together with the call that retrieved it. -/
structure SharedSource where
  call : Nat
  source : Source
deriving DecidableEq, Repr

inductive Entry where
  /-- The waiters are listed in the order in which they came. -/
  | pending (call : Nat) (waiters : List Nat)
  | completed (file : SharedSource)
deriving DecidableEq, Repr

/-- What a task was started for. -/
inductive Job where
  | get (identifier : String)
  | render (request : Request) (defaults : Defaults)
deriving DecidableEq, Repr

namespace Job

def identifier : Job → String
  | get identifier => identifier
  | render request defaults => request.identifier defaults

def isGet : Job → Bool
  | get _ => true
  | render _ _ => false

end Job

/-- What a task gets in the end. -/
inductive Outcome where
  | served (file : SharedSource)
  | failed (failure : RetrievalFailure)
deriving DecidableEq, Repr

namespace Retrieved

/-- The outcome for the task that made the call. -/
def outcome (call : Nat) (identifier : String) : Retrieved → Outcome
  | content text => .served ⟨call, Source.ofContent text⟩
  | missing => .failed (.notFound identifier)
  | unreadable reason => .failed (.unreadable identifier reason)

end Retrieved

inductive Phase where
  | started
  | retrieving (call : Nat)
  | waiting (call : Nat)
  /-- The retrieval that this task waited for is over; without a file it was given up. -/
  | answered (file : Option SharedSource)
  | completed (outcome : Outcome)
  | cancelled
deriving DecidableEq, Repr

namespace Phase

/-- Neither completed nor cancelled. -/
def isLive : Phase → Bool
  | completed _ => false
  | cancelled => false
  | _ => true

end Phase

structure Task where
  job : Job
  phase : Phase
deriving DecidableEq, Repr

namespace Task

def identifier (task : Task) : String := task.job.identifier

end Task

structure Call where
  identifier : String
  task : Nat
  retrieved : Option Retrieved
deriving DecidableEq, Repr

/-- Tasks and calls are numbered from zero in the order in which they came. -/
structure Service where
  tasks : List Task := []
  calls : List Call := []
  table : Keyed Entry := []
  queue : List Nat := []
  /-- The tasks that completed, in that order. -/
  completed : List Nat := []
deriving DecidableEq, Repr

namespace Service

def empty : Service := {}

def phase? (s : Service) (n : Nat) : Option Phase := (s.tasks[n]?).map Task.phase

/-- Whether a scanned file is there for the identifier. -/
def isCached (s : Service) (identifier : String) : Bool :=
  match s.table.get? identifier with
  | some (.completed _) => true
  | _ => false

/-- Whether a call was made and nothing has come of it yet. -/
def isOpen (s : Service) (call : Nat) : Bool :=
  match s.calls[call]? with
  | some c => c.retrieved.isNone
  | none => false

def setPhase (s : Service) (n : Nat) (phase : Phase) : Service :=
  { s with tasks := s.tasks.modify n fun task => { task with phase := phase } }

/-- Puts a task at the end of the queue unless it is in the queue already. -/
def wake (s : Service) (n : Nat) : Service :=
  if n ∈ s.queue then s else { s with queue := s.queue ++ [n] }

def complete (s : Service) (n : Nat) (outcome : Outcome) : Service :=
  { s.setPhase n (.completed outcome) with completed := s.completed ++ [n] }

end Service

end Excerpt
