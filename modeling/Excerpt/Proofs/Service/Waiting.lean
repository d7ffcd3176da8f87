import Excerpt.Proofs.Service.Awake
import Excerpt.Proofs.Service.Resuming
import Excerpt.Proofs.Service.SingleFlight
import Mathlib.Data.List.Nodup

/-!
# No waiter is lost

After every step of a run a live task is inside an open retrieval or is listed once as its
waiter. The step in which that retrieval ends, and no other, answers all of its waiters:
with the file that its task gets, or with the word that it was given up.
-/

namespace Excerpt

namespace Outcome

/-- What the waiters get when the task that they wait for gets this. -/
def shared (identifier : String) : Outcome → Outcome
  | .served file => .served file
  | .failed _ => .failed (.abandoned identifier)

theorem shared_eq_passedOn (identifier : String) (outcome : Outcome) :
    outcome.shared identifier = Service.passedOn identifier outcome.file? := by
  cases outcome <;> rfl

end Outcome

namespace Service

variable {fetcher : Fetcher} {s t : Service} {n m call : Nat} {job job' : Job} {phase : Phase}
  {file : Option SharedSource}

/-! ## Where live tasks are when the queue is empty -/

theorem Awake.standing (h : Awake s) (hs : Consistent s) (hq : s.queue = [])
    (ht : s.tasks[n]? = some ⟨job, phase⟩) (hl : phase.isLive = true) :
    ∃ call waiters, s.table.get? job.identifier = some (.pending call waiters) ∧
      (phase = .retrieving call ∧ (∀ m, s.Retrieves job.identifier m → m = n) ∨
        phase = .waiting call ∧ waiters.count n = 1) := by
  have hn := h.not_ready hq ht
  have hp := hs.task _ _ _ ht
  cases phase with
  | retrieving call =>
    obtain ⟨waiters, -, he, -⟩ := hp
    exact ⟨call, waiters, he, Or.inl ⟨rfl, fun m hm => hs.retrieves_unique hm ⟨job, call, ht, rfl⟩⟩⟩
  | waiting call =>
    obtain ⟨waiters, he, hmem⟩ := hp
    obtain ⟨-, hd, -⟩ := hs.entry _ _ he
    exact ⟨call, waiters, he, Or.inr ⟨rfl, List.count_eq_one_of_mem hd hmem⟩⟩
  | started => exact absurd trivial hn
  | answered file => exact absurd trivial hn
  | completed outcome => cases hl
  | cancelled => cases hl

/-! ## The step in which a retrieval ends -/

theorem outcome?_of_task {outcome : Outcome} (h : s.tasks[n]? = some ⟨job, .completed outcome⟩) :
    s.outcome? n = some outcome := by simp [outcome?, phase?_of_task h]

theorem Handed.outcome (h : Handed s m job file) (ha : Awake s) (hq : s.queue = []) :
    s.outcome? m = some (passedOn job.identifier file) := by
  rcases h with ht | ht
  · exact absurd trivial (ha.not_ready hq ht)
  · exact outcome?_of_task ht

theorem Resolving.outcome {retrieved : Retrieved} (h : Resolving s t n call job retrieved)
    (ha : Awake t) (hq : t.queue = []) :
    t.outcome? n = some (retrieved.outcome call job.identifier) ∧
      ∀ (m : Nat) (job' : Job), s.tasks[m]? = some ⟨job', .waiting call⟩ → t.outcome? m =
        some ((retrieved.outcome call job.identifier).shared job'.identifier) := by
  rcases h with ⟨ht, ⟨c, hc, hr⟩, -⟩ | ⟨ht, hw⟩
  · have hopen := ha.not_returned hq ht hc
    rw [hr] at hopen
    cases hopen
  · refine ⟨outcome?_of_task ht, fun m job' hm => ?_⟩
    rw [Outcome.shared_eq_passedOn]
    exact (hw m job' hm).outcome ha hq

/-- At whatever moment of a step a retrieval has returned, that step brings its outcome to
the task and to everybody who waits for it at that moment. -/
theorem outcome?_step_of_returned (fetcher : Fetcher) (events : List Event) (event : Event)
    (k : Nat) {c : Call} {retrieved : Retrieved}
    (ht : (turns fetcher k ((run fetcher events).apply event)).tasks[n]? =
      some ⟨job, .retrieving call⟩)
    (hc : (turns fetcher k ((run fetcher events).apply event)).calls[call]? = some c)
    (hr : c.retrieved = some retrieved) :
    (step fetcher (run fetcher events) event).outcome? n =
      some (retrieved.outcome call job.identifier) ∧
    ∀ (m : Nat) (job' : Job), (turns fetcher k ((run fetcher events).apply event)).tasks[m]? =
        some ⟨job', .waiting call⟩ →
      (step fetcher (run fetcher events) event).outcome? m =
        some ((retrieved.outcome call job.identifier).shared job'.identifier) := by
  have hs : Consistent (turns fetcher k ((run fetcher events).apply event)) :=
    ((consistent_run fetcher events).apply event).turns fetcher k
  obtain ⟨j, hj⟩ := drain_turns fetcher k ((run fetcher events).apply event)
  have hres := hs.resolving_turns fetcher ht hc hr j
  rw [← hj] at hres
  exact hres.outcome (awake_step fetcher events event) (queue_step fetcher _ event)

/-- A retrieval that is still open at the end of a step comes to what its call returns. -/
theorem outcome?_step_finish (fetcher : Fetcher) (events : List Event) (retrieved : Retrieved)
    (ht : (run fetcher events).tasks[n]? = some ⟨job, .retrieving call⟩) :
    (step fetcher (run fetcher events) (.finish call retrieved)).outcome? n =
      some (retrieved.outcome call job.identifier) ∧
    ∀ (m : Nat) (job' : Job), (run fetcher events).tasks[m]? = some ⟨job', .waiting call⟩ →
      (step fetcher (run fetcher events) (.finish call retrieved)).outcome? m =
        some ((retrieved.outcome call job.identifier).shared job'.identifier) := by
  obtain ⟨r, hc⟩ := (consistent_run fetcher events).call_of_retrieving ht
  obtain rfl : r = none := (awake_run fetcher events).not_returned (queue_run fetcher events) ht hc
  have hf := finish_of_open retrieved hc rfl
  have htasks : ((run fetcher events).finish call retrieved).tasks =
      (run fetcher events).tasks := by rw [hf, tasks_wakeRetriever]
  have hcall : ((run fetcher events).finish call retrieved).calls[call]? =
      some ⟨job.identifier, n, some retrieved⟩ := by
    rw [hf, calls_wakeRetriever]
    exact List.getElem?_set_self (List.getElem?_eq_some_iff.1 hc).1
  rw [← htasks] at ht ⊢
  exact outcome?_step_of_returned fetcher events (.finish call retrieved) 0 ht hcall rfl

/-- A retrieval whose task is cancelled is given up by everybody who waits for it. -/
theorem outcome?_step_cancel (fetcher : Fetcher) (events : List Event)
    (ht : (run fetcher events).tasks[n]? = some ⟨job, .retrieving call⟩) :
    (step fetcher (run fetcher events) (.cancel n)).phase? n = some .cancelled ∧
    ∀ (m : Nat) (job' : Job), (run fetcher events).tasks[m]? = some ⟨job', .waiting call⟩ →
      (step fetcher (run fetcher events) (.cancel n)).outcome? m =
        some (.failed (.abandoned job'.identifier)) := by
  have hc := closes_cancel ht
  constructor
  · have hn := turns_induction fetcher (p := fun t => t.tasks[n]? = some ⟨job, .cancelled⟩)
      (fun _ i h => task_act_of_ended fetcher (.poll i) h rfl)
      ((run fetcher events).apply (.cancel n)).work hc.self
    exact phase?_of_task hn
  · intro m job' hm
    obtain ⟨-, hmem⟩ := (consistent_run fetcher events).mem_waiters ht hm
    have hne : m ≠ n := by
      rintro rfl
      cases ht.symm.trans hm
    have htold : Handed ((run fetcher events).apply (.cancel n)) m job' none :=
      Or.inl (hc.task_of_waiting hne hmem hm)
    exact (htold.turns fetcher _).outcome (awake_step fetcher events _) (queue_step fetcher _ _)

/-! ## Which retrieval answers a waiter -/

/-- What a retrieval that is over came to for those who waited for it. -/
def CameTo (s : Service) (call : Nat) (file : Option SharedSource) : Prop :=
  ∃ c job, s.calls[call]? = some c ∧
    (s.tasks[c.task]? = some ⟨job, .cancelled⟩ ∧ file = none ∨
      ∃ retrieved, c.retrieved = some retrieved ∧
        s.tasks[c.task]? = some ⟨job, .completed (retrieved.outcome call c.identifier)⟩ ∧
        file = (retrieved.outcome call c.identifier).file?)

/-- Where a task that joined the waiters of a call can be from then on. -/
def Joined (s : Service) (m : Nat) (job : Job) (call : Nat) : Prop :=
  s.tasks[m]? = some ⟨job, .waiting call⟩ ∨ s.tasks[m]? = some ⟨job, .cancelled⟩ ∨
    ∃ file, s.CameTo call file ∧ s.Handed m job file

theorem Ending.cameTo (he : Ending s call job.identifier phase file)
    (hcall : ∃ retrieved, s.calls[call]? = some ⟨job.identifier, n, retrieved⟩)
    (hcalls : t.calls = s.calls) (hself : t.tasks[n]? = some ⟨job, phase⟩) :
    t.CameTo call file := by
  obtain ⟨r, hcall⟩ := hcall
  refine ⟨_, job, by rw [hcalls, hcall], ?_⟩
  cases he with
  | withdrawn => exact Or.inl ⟨hself, rfl⟩
  | returned hk hr =>
    obtain rfl := Option.some.inj (hk.symm.trans hcall)
    exact Or.inr ⟨_, hr, hself, rfl⟩

theorem CameTo.act (h : s.CameTo call file) (fetcher : Fetcher) (action : Action) :
    (act fetcher s action).CameTo call file := by
  obtain ⟨c, job, hc, ⟨ht, hf⟩ | ⟨retrieved, hr, ht, hf⟩⟩ := h
  · obtain ⟨retrieved, hc'⟩ := call_act_of_some fetcher action hc
    exact ⟨_, job, hc', Or.inl ⟨task_act_of_ended fetcher action ht rfl, hf⟩⟩
  · exact ⟨c, job, call_act_of_returned fetcher action hc hr,
      Or.inr ⟨retrieved, hr, task_act_of_ended fetcher action ht rfl, hf⟩⟩

theorem Joined.act (h : s.Joined m job call) (hs : Consistent s) (fetcher : Fetcher)
    (action : Action) : (act fetcher s action).Joined m job call := by
  rcases h with ht | ht | ⟨file, hf, hm⟩
  · rcases keeps_or_closes fetcher s action with hk |
      ⟨n, job', call', phase, file, queue, hn, -, he, hc⟩
    · rcases hk.task_of_ne ht (by simp) (by simp) with ht' | ⟨-, ht'⟩
      · exact Or.inl ht'
      · exact Or.inr (Or.inl ht')
    · have hne : m ≠ n := by
        rintro rfl
        cases ht.symm.trans hn
      by_cases hmem : m ∈ s.waiters job'.identifier
      · obtain rfl := hs.call_of_mem_waiters hn hmem ht
        exact Or.inr (Or.inr ⟨file, he.cameTo (hs.call_of_retrieving hn) hc.calls hc.self,
          Or.inl (hc.task_of_waiting hne hmem ht)⟩)
      · exact Or.inl ((hc.task_of_not_mem hne hmem).trans ht)
  · exact Or.inr (Or.inl (task_act_of_ended fetcher action ht rfl))
  · have hf' := hf.act fetcher action
    rcases hm with ht | ht
    · cases action with
      | poll n => exact Or.inr (Or.inr ⟨file, hf', Handed.poll (Or.inl ht) fetcher n⟩)
      | event event =>
        by_cases he : event = .cancel m
        · subst he
          exact Or.inr (Or.inl (task_cancel_self ht rfl))
        · exact Or.inr (Or.inr ⟨file, hf', Or.inl (task_apply_of_ne event ht (by simp) he)⟩)
    · exact Or.inr (Or.inr ⟨file, hf', Or.inr (task_act_of_ended fetcher action ht rfl)⟩)

theorem joined_foldl (fetcher : Fetcher) (actions : List Action) (hs : Consistent s)
    (h : s.Joined m job call) : (actions.foldl (act fetcher) s).Joined m job call :=
  (actions_induction fetcher (p := fun t => Consistent t ∧ t.Joined m job call)
    (fun _ action ht => ⟨ht.1.act fetcher action, ht.2.act ht.1 fetcher action⟩) actions
    ⟨hs, h⟩).2

theorem joined_interleave (fetcher : Fetcher) (actions actions' : List Action)
    (h : (interleave fetcher actions).tasks[m]? = some ⟨job, .waiting call⟩) :
    (interleave fetcher (actions ++ actions')).Joined m job call := by
  rw [interleave_append]
  exact joined_foldl fetcher actions' (consistent_interleave fetcher actions) (Or.inl h)

theorem joined_run (fetcher : Fetcher) (events events' : List Event) (event : Event) (k : Nat)
    (h : (turns fetcher k ((run fetcher events).apply event)).tasks[m]? =
      some ⟨job, .waiting call⟩) :
    (run fetcher (events ++ event :: events')).Joined m job call := by
  obtain ⟨actions, ha⟩ := run_eq_foldl_turns fetcher events events' event k
  rw [ha]
  exact joined_foldl fetcher actions
    (((consistent_run fetcher events).apply event).turns fetcher k) (Or.inl h)

/-! ## Nobody is left waiting -/

/-- Every call has returned, or its task was cancelled. -/
def AllOver (s : Service) : Prop :=
  ∀ (k : Nat) (c : Call), s.calls[k]? = some c →
    c.retrieved.isSome = true ∨ s.phase? c.task = some .cancelled

theorem Awake.not_retrieving (h : Awake s) (hs : Consistent s) (hq : s.queue = [])
    (hover : s.AllOver) :
    s.tasks[n]? ≠ some ⟨job, .retrieving call⟩ := by
  intro ht
  obtain ⟨retrieved, hc⟩ := hs.call_of_retrieving ht
  have hopen : retrieved = none := h.not_returned hq ht hc
  rcases hover _ _ hc with hr | hp
  · rw [hopen] at hr
    cases hr
  · rw [phase?_of_task ht] at hp
    cases hp

theorem Awake.not_live (h : Awake s) (hs : Consistent s) (hq : s.queue = [])
    (hover : s.AllOver) (ht : s.tasks[n]? = some ⟨job, phase⟩) : phase.isLive = false := by
  cases hl : phase.isLive with
  | false => rfl
  | true =>
    obtain ⟨call, waiters, he, ⟨rfl, -⟩ | -⟩ := h.standing hs hq ht hl
    · exact absurd ht (h.not_retrieving hs hq hover)
    · obtain ⟨n', job', ht', -⟩ := hs.retriever_of_pending he
      exact absurd ht' (h.not_retrieving hs hq hover)

/-- After every step of a run each live task is the one that retrieves its file or is listed
once as a waiter of the one that does. The step in which the retrieval ends resolves every
waiter with what it came to, no other retrieval ever resolves one, and when all retrievals
are over nobody waits. -/
theorem no_lost_waiter (fetcher : Fetcher) (events : List Event) :
    let s := run fetcher events
    (∀ n job phase, s.tasks[n]? = some ⟨job, phase⟩ → phase.isLive = true →
      ∃ call waiters, s.table.get? job.identifier = some (.pending call waiters) ∧
        (phase = .retrieving call ∧ (∀ m, s.Retrieves job.identifier m → m = n) ∨
          phase = .waiting call ∧ waiters.count n = 1)) ∧
    (∀ event k n job call c retrieved,
      (turns fetcher k (s.apply event)).tasks[n]? = some ⟨job, .retrieving call⟩ →
      (turns fetcher k (s.apply event)).calls[call]? = some c → c.retrieved = some retrieved →
      (step fetcher s event).outcome? n = some (retrieved.outcome call job.identifier) ∧
      ∀ (m : Nat) (job' : Job),
        (turns fetcher k (s.apply event)).tasks[m]? = some ⟨job', .waiting call⟩ →
        (step fetcher s event).outcome? m =
          some ((retrieved.outcome call job.identifier).shared job'.identifier)) ∧
    (∀ n job call, s.tasks[n]? = some ⟨job, .retrieving call⟩ →
      (∀ retrieved,
        (step fetcher s (.finish call retrieved)).outcome? n =
          some (retrieved.outcome call job.identifier) ∧
        ∀ (m : Nat) (job' : Job), s.tasks[m]? = some ⟨job', .waiting call⟩ →
          (step fetcher s (.finish call retrieved)).outcome? m =
            some ((retrieved.outcome call job.identifier).shared job'.identifier)) ∧
      (step fetcher s (.cancel n)).phase? n = some .cancelled ∧
      ∀ (m : Nat) (job' : Job), s.tasks[m]? = some ⟨job', .waiting call⟩ →
        (step fetcher s (.cancel n)).outcome? m = some (.failed (.abandoned job'.identifier))) ∧
    (∀ event k events' m job call,
      (turns fetcher k (s.apply event)).tasks[m]? = some ⟨job, .waiting call⟩ →
      (run fetcher (events ++ event :: events')).Joined m job call) ∧
    (∀ actions actions' m job call,
      (interleave fetcher actions).tasks[m]? = some ⟨job, .waiting call⟩ →
      (interleave fetcher (actions ++ actions')).Joined m job call) ∧
    (s.AllOver → ∀ (n : Nat) (job : Job) (phase : Phase),
        s.tasks[n]? = some ⟨job, phase⟩ → phase.isLive = false) := by
  intro s
  have hs : Consistent s := consistent_run fetcher events
  have ha : Awake s := awake_run fetcher events
  have hq : s.queue = [] := queue_run fetcher events
  refine ⟨fun n job phase => ha.standing hs hq, ?_, ?_, ?_, ?_, ?_⟩
  · intro event k n job call c retrieved ht hc hr
    exact outcome?_step_of_returned fetcher events event k ht hc hr
  · intro n job call ht
    exact ⟨fun retrieved => outcome?_step_finish fetcher events retrieved ht,
      outcome?_step_cancel fetcher events ht⟩
  · intro event k events' m job call ht
    exact joined_run fetcher events events' event k ht
  · intro actions actions' m job call ht
    exact joined_interleave fetcher actions actions' ht
  · intro hover n job phase ht
    exact ha.not_live hs hq hover ht

end Service

end Excerpt
