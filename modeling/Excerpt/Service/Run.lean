import Excerpt.Service.Turn

/-!
# Runs of the file service

From outside, jobs are started, open calls are finished and tasks are cancelled. After each
such event the tasks take turns until none is left in the queue. The outcome of a
completed task is a scanned file or a display, or the reason why there is none.
-/

namespace Excerpt

inductive Event where
  | start (jobs : List Job)
  | finish (call : Nat) (retrieved : Retrieved)
  | cancel (task : Nat)
deriving DecidableEq, Repr

namespace Service

def start (s : Service) (job : Job) : Service :=
  { s with tasks := s.tasks ++ [⟨job, .started⟩], queue := s.queue ++ [s.tasks.length] }

/-- Wakes the task that made a call, if it is still there to take the outcome. -/
def wakeRetriever (s : Service) (call task : Nat) : Service :=
  if s.phase? task = some (.retrieving call) then s.wake task else s

/-- Only an open call can be finished. -/
def finish (s : Service) (call : Nat) (retrieved : Retrieved) : Service :=
  match s.calls[call]? with
  | some c =>
    if c.retrieved.isSome then s
    else
      let calls := s.calls.modify call fun c => { c with retrieved := some retrieved }
      ({ s with calls := calls } : Service).wakeRetriever call c.task
  | none => s

/-- A task that is cancelled while it retrieves gives its waiters nothing. -/
def cancel (s : Service) (n : Nat) : Service :=
  match s.tasks[n]? with
  | some task =>
    match task.phase with
    | .completed _ => s
    | .cancelled => s
    | .retrieving _ =>
      ((s.forget task.identifier).setPhase n .cancelled).answerWaiters
        (s.waiters task.identifier) none
    | _ => s.setPhase n .cancelled
  | none => s

def apply (s : Service) : Event → Service
  | .start jobs => jobs.foldl start s
  | .finish call retrieved => s.finish call retrieved
  | .cancel task => s.cancel task

def step (fetcher : Fetcher) (s : Service) (event : Event) : Service :=
  drain fetcher (s.apply event)

def run (fetcher : Fetcher) (events : List Event) : Service := events.foldl (step fetcher) empty

@[simp] theorem run_nil (fetcher : Fetcher) : run fetcher [] = empty := rfl

theorem run_append (fetcher : Fetcher) (events : List Event) (event : Event) :
    run fetcher (events ++ [event]) = step fetcher (run fetcher events) event := by
  simp [run]

theorem queue_step (fetcher : Fetcher) (s : Service) (event : Event) :
    (step fetcher s event).queue = [] := queue_drain fetcher _

/-- What a completed task got. -/
def outcome? (s : Service) (n : Nat) : Option Outcome :=
  match s.phase? n with
  | some (.completed outcome) => some outcome
  | _ => none

/-- The tasks that completed after the first `before` ones, in that order. -/
def completedSince (s : Service) (before : Nat) : List Nat := s.completed.drop before

/-- Whether a task asked for a file as such and got the file of the call. -/
def holdsFile (s : Service) (call n : Nat) : Bool :=
  match s.tasks[n]? with
  | some ⟨.get _, .completed (.served file)⟩ => file.call == call
  | _ => false

/-- Of the tasks that completed before, the first one that got the same file as such. -/
def sharedWith? (s : Service) (n : Nat) (file : SharedSource) : Option Nat :=
  ((s.completed.takeWhile (· != n)).filter (s.holdsFile file.call)).min?

end Service

/-- The display that a request comes to, given what came of its file. -/
def Request.answer (request : Request) (defaults : Defaults) :
    Outcome → Except SampleFailure RenderedSample
  | .served file => request.render file.source defaults
  | .failed failure => .error (.retrieval request.file request.selector failure)

end Excerpt
