import Excerpt.Proofs.Service.Waiting
import Excerpt.Proofs.Service.Accounting

/-!
# Calls that all return

When a fetcher answers every call and nobody is cancelled, a call comes back with what is answered
for its identifier. Only a failure is passed on in short, as the word that the retrieval was given
up. With nobody left in the queue every task has its outcome.
-/

namespace Excerpt

/-- Answers every call after one turn. -/
def Fetcher.instant (answer : String → Retrieved) : Fetcher :=
  fun identifier => some (answer identifier)

/-- What a phase says of what the call for the file of its task returns. -/
def Phase.Tells (retrieved : Retrieved) : Phase → Prop
  | .answered none => retrieved.fate = .erred
  | .completed (.failed _) => retrieved.fate = .erred
  | .cancelled => False
  | _ => True

namespace Service

variable {answer : String → Retrieved} {s t : Service} {n m : Nat} {job : Job} {phase : Phase}

/-- Every call returned what the files answer, and nobody was cancelled or told otherwise. -/
structure Faithful (answer : String → Retrieved) (s : Service) : Prop where
  call : ∀ (k : Nat) (c : Call), s.calls[k]? = some c → c.retrieved = some (answer c.identifier)
  task : ∀ (n : Nat) (job : Job) (phase : Phase), s.tasks[n]? = some ⟨job, phase⟩ →
    phase.Tells (answer job.identifier)

theorem Faithful.setPhase (h : Faithful answer s) {phase₀ : Phase}
    (ht : s.tasks[n]? = some ⟨job, phase₀⟩) (htasks : t.tasks = (s.setPhase n phase).tasks)
    (hcalls : t.calls = s.calls) (hp : phase.Tells (answer job.identifier)) :
    Faithful answer t where
  call k c hc := h.call k c (by rwa [← hcalls])
  task m job' phase' hm := by
    rw [htasks] at hm
    rcases task_setPhase_eq_or ht hm with ⟨-, hs⟩ | ⟨rfl, rfl, rfl⟩
    · exact h.task m job' phase' hs
    · exact hp

theorem Retrieved.tells_outcome (retrieved : Retrieved) (call : Nat) (identifier : String) :
    (Phase.completed (retrieved.outcome call identifier)).Tells retrieved := by
  cases retrieved with
  | content text => trivial
  | missing => rfl
  | unreadable reason => rfl

theorem Retrieved.tells_file (retrieved : Retrieved) (call : Nat) (identifier : String) :
    (Phase.answered (retrieved.outcome call identifier).file?).Tells retrieved := by
  cases retrieved with
  | content text => trivial
  | missing => rfl
  | unreadable reason => rfl

theorem Faithful.ask (h : Faithful answer s) (ht : s.tasks[n]? = some ⟨job, .started⟩) :
    Faithful answer (s.ask (.instant answer) n job.identifier) := by
  have hset : Faithful answer (s.setPhase n (.retrieving s.calls.length)) :=
    h.setPhase ht rfl rfl trivial
  refine ⟨fun k c hc => ?_, fun m job' phase hm => ?_⟩
  · rw [calls_ask] at hc
    rcases getElem?_snoc_eq_some hc with hold | ⟨-, rfl⟩
    · exact h.call k c hold
    · rfl
  · rw [tasks_ask] at hm
    exact hset.task m job' phase hm

/-- The end of a call is told as it is to its task and in short to those who wait for it. -/
theorem Faithful.settle (h : Faithful answer s) (hs : Consistent s) {call : Nat}
    (ht : s.tasks[n]? = some ⟨job, .retrieving call⟩) :
    Faithful answer (s.settle n call job.identifier (answer job.identifier)) := by
  have hclose := closes_settle (answer job.identifier) ht
  refine ⟨fun k c hk => h.call k c (by rwa [← hclose.calls]), fun m job' phase hm => ?_⟩
  by_cases hmn : m = n
  · subst hmn
    obtain ⟨rfl, rfl⟩ := Task.mk.inj (Option.some.inj (hclose.self.symm.trans hm))
    exact Retrieved.tells_outcome (answer job.identifier) call _
  · rcases hclose.task_eq_or hmn hm with ⟨hold, -⟩ | ⟨hmem, ⟨call', hold⟩, rfl⟩
    · exact h.task m job' phase hold
    · rw [hs.identifier_of_mem_waiters hmem hold]
      exact Retrieved.tells_file (answer job.identifier) call _

theorem Faithful.resumed (h : Faithful answer s) (hs : Consistent s)
    (hr : Resumed (.instant answer) s n t) : Faithful answer t := by
  cases hr with
  | idle => exact h
  | hit ht => exact h.setPhase ht rfl rfl trivial
  | join ht => exact h.setPhase ht rfl rfl trivial
  | ask ht => exact h.ask ht
  | settle ht hc hr =>
    next job call c retrieved =>
    obtain ⟨r, hcall⟩ := hs.call_of_retrieving ht
    obtain rfl := Option.some.inj (hc.symm.trans hcall)
    obtain rfl : retrieved = answer job.identifier :=
      Option.some.inj (hr.symm.trans (h.call call _ hc))
    exact h.settle hs ht
  | take ht =>
    next job file =>
    refine h.setPhase ht rfl rfl ?_
    have htold := h.task n job _ ht
    cases file with
    | none => exact htold
    | some file => trivial

theorem Faithful.poll (h : Faithful answer s) (hs : Consistent s) (n : Nat) :
    Faithful answer (s.poll (.instant answer) n) := by
  have h' : Faithful answer { s with queue := s.queue.erase n } := ⟨h.call, h.task⟩
  exact h'.resumed (hs.congr rfl rfl rfl) (resumed_poll _ s n)

theorem Faithful.start (h : Faithful answer s) (jobs : List Job) :
    Faithful answer (s.apply (.start jobs)) := by
  rw [apply_start_eq]
  refine ⟨h.call, fun m job phase hm => ?_⟩
  rcases task_append_started hm with hold | ⟨-, -, rfl⟩
  · exact h.task m job phase hold
  · trivial

theorem faithful_empty (answer : String → Retrieved) : Faithful answer empty :=
  ⟨fun k c hc => by simp [empty] at hc, fun n job phase ht => by simp [empty] at ht⟩

/-- When nobody is left in the queue, every task has its outcome. -/
theorem Faithful.completed (h : Faithful answer s) (hs : Consistent s) (ha : Awake s)
    (hq : s.queue = []) (ht : s.tasks[n]? = some ⟨job, phase⟩) :
    ∃ outcome, phase = .completed outcome := by
  have hover : s.AllOver := fun k c hc => Or.inl (by rw [h.call k c hc]; rfl)
  have hl := ha.not_live hs hq hover ht
  cases phase with
  | completed outcome => exact ⟨outcome, rfl⟩
  | cancelled => exact absurd (h.task n job _ ht) (fun h => h)
  | started => cases hl
  | retrieving call => cases hl
  | waiting call => cases hl
  | answered file => cases hl

end Service

end Excerpt
