import Excerpt.Proofs.Service.Closing

/-!
# Who can go on is in the queue

A task that has started, whose call has returned or whose waiting is over stands in the
queue until it runs. So when a step of a run is over and the queue is empty, every live
task is inside an open retrieval or waits for one.
-/

namespace Excerpt

namespace Service

variable {s t : Service} {n : Nat} {job : Job} {phase : Phase}

def Awake (s : Service) : Prop :=
  ∀ m job phase, s.tasks[m]? = some ⟨job, phase⟩ → s.Ready phase → m ∈ s.queue

/-- Every task but one is in the queue if it can go on. -/
def AwakeBut (s : Service) (n : Nat) : Prop :=
  ∀ m job phase, m ≠ n → s.tasks[m]? = some ⟨job, phase⟩ → s.Ready phase → m ∈ s.queue

theorem Awake.but (h : Awake s) (n : Nat) : AwakeBut s n :=
  fun m job phase _ => h m job phase

theorem Awake.erase (h : Awake s) (n : Nat) : AwakeBut { s with queue := s.queue.erase n } n :=
  fun m job phase hm ht hr => (List.mem_erase_of_ne hm).2 (h m job phase ht hr)

theorem AwakeBut.setPhase (h : AwakeBut s n) {phase₀ : Phase}
    (ht : s.tasks[n]? = some ⟨job, phase₀⟩) (hp : ¬ s.Ready phase) :
    Awake (s.setPhase n phase) := by
  intro m job' phase' hm hr
  rcases task_setPhase_eq_or ht hm with ⟨hne, hs⟩ | ⟨-, -, rfl⟩
  · exact h m job' phase' hne hs hr
  · exact absurd hr hp

theorem AwakeBut.close {call : Nat} {file : Option SharedSource} (h : AwakeBut s n)
    (hc : Closes s t n job phase file) (he : Ending s call job.identifier phase file) :
    Awake t := by
  intro m job' phase' hm hr
  rw [hc.queue]
  by_cases hmn : m = n
  · subst hmn
    obtain ⟨rfl, rfl⟩ := Task.mk.inj (Option.some.inj (hc.self.symm.trans hm))
    cases he <;> cases hr
  · rcases hc.task_eq_or hmn hm with ⟨hs, -⟩ | ⟨hmem, ⟨call', hs⟩, -⟩
    · have hr' : s.Ready phase' := by
        cases phase' with
        | retrieving call' => simpa only [Ready, hc.calls] using hr
        | _ => exact hr
      exact Or.inl (h m job' phase' hmn hs hr')
    · exact Or.inr ⟨hmem, call', phase?_of_task hs⟩

theorem AwakeBut.ask (h : AwakeBut s n) (hs : Consistent s) (fetcher : Fetcher)
    (ht : s.tasks[n]? = some ⟨job, .started⟩) : Awake (s.ask fetcher n job.identifier) := by
  intro m job' phase' hm hr
  rw [tasks_ask] at hm
  rw [mem_queue_ask]
  rcases task_setPhase_eq_or ht hm with ⟨hne, hm'⟩ | ⟨rfl, -, rfl⟩
  · refine Or.inl (h m job' phase' hne hm' ?_)
    cases phase' with
    | retrieving call =>
      -- Calls that were made before are where they were.
      obtain ⟨c, r, hc, hcr⟩ := hr
      obtain ⟨retrieved', hcall⟩ := hs.call_of_retrieving hm'
      rw [calls_ask, getElem?_snoc_of_eq_some _ hcall] at hc
      obtain rfl := Option.some.inj hc
      exact ⟨_, r, hcall, hcr⟩
    | _ => exact hr
  · obtain ⟨c, r, hc, hcr⟩ := hr
    rw [calls_ask, List.getElem?_concat_length] at hc
    obtain rfl := Option.some.inj hc
    exact Or.inr ⟨rfl, r, hcr⟩

theorem AwakeBut.resumed (h : AwakeBut s n) (hs : Consistent s) {fetcher : Fetcher}
    (hr : Resumed fetcher s n t) : Awake t := by
  cases hr with
  | idle hn =>
    intro m job phase ht hr
    by_cases hm : m = n
    · subst hm
      exact absurd hr (hn _ ht)
    · exact h m job phase hm ht hr
  | hit ht he => exact h.setPhase ht (fun hr => hr)
  | join ht he => exact h.setPhase ht (fun hr => hr)
  | ask ht he => exact h.ask hs fetcher ht
  | settle ht hc hr => exact h.close (closes_settle _ ht) (.returned hc hr)
  | take ht => exact h.setPhase ht (fun hr => hr)

theorem Awake.start (h : Awake s) (job : Job) : Awake (s.start job) := by
  intro m job' phase ht hr
  change m ∈ s.queue ++ [s.tasks.length]
  rcases getElem?_snoc_eq_some ht with hs | ⟨rfl, -⟩
  · exact List.mem_append_left _ (h m job' phase hs hr)
  · simp

theorem Awake.finish (h : Awake s) (hs : Consistent s) (call : Nat) (retrieved : Retrieved) :
    Awake (s.finish call retrieved) := by
  rcases finish_eq_self_or s call retrieved with he | ⟨c, hc, hopen, he⟩
  · rwa [he]
  · rw [he]
    intro m job phase ht hr
    rw [tasks_wakeRetriever] at ht
    rw [mem_queue_wakeRetriever]
    cases phase with
    | retrieving call' =>
      obtain ⟨d, r, hd, hdr⟩ := hr
      rw [calls_wakeRetriever] at hd
      rcases getElem?_set_eq_some hd with hd' | ⟨rfl, -⟩
      · exact Or.inl (h m job _ ht ⟨d, r, hd', hdr⟩)
      · obtain ⟨retrieved', hcall⟩ := hs.call_of_retrieving ht
        obtain rfl := Option.some.inj (hc.symm.trans hcall)
        exact Or.inr ⟨rfl, phase?_of_task ht⟩
    | started => exact Or.inl (h m job _ ht hr)
    | answered file => exact Or.inl (h m job _ ht hr)
    | waiting call' => cases hr
    | completed outcome => cases hr
    | cancelled => cases hr

theorem Awake.cancel (h : Awake s) (n : Nat) : Awake (s.cancel n) := by
  rcases cancel_cases s n with he | ⟨job, phase, ht, -, -, he⟩ | ⟨job, call, ht, hc⟩
  · rwa [he]
  · rw [he]
    exact (h.but n).setPhase ht (fun hr => hr)
  · have he : Ending s call job.identifier .cancelled none := .withdrawn
    exact (h.but n).close hc he

theorem Awake.apply (h : Awake s) (hs : Consistent s) (event : Event) :
    Awake (s.apply event) := by
  cases event with
  | start jobs =>
    change Awake (jobs.foldl Service.start s)
    clear hs
    induction jobs generalizing s with
    | nil => exact h
    | cons job jobs ih => exact ih (h.start job)
  | finish call retrieved => exact h.finish hs call retrieved
  | cancel n => exact h.cancel n

theorem Awake.act (h : Awake s) (hs : Consistent s) (fetcher : Fetcher) (action : Action) :
    Awake (act fetcher s action) := by
  cases action with
  | event event => exact h.apply hs event
  | poll n => exact (h.erase n).resumed (hs.congr rfl rfl rfl) (resumed_poll fetcher s n)

theorem awake_interleave (fetcher : Fetcher) (actions : List Action) :
    Awake (interleave fetcher actions) :=
  (actions_induction fetcher (p := fun t => Consistent t ∧ Awake t)
    (fun _ action h => ⟨h.1.act fetcher action, h.2.act h.1 fetcher action⟩) actions
    ⟨consistent_empty, fun m job phase ht => by simp [empty] at ht⟩).2

/-! ## Between two steps of a run -/

theorem awake_run (fetcher : Fetcher) (events : List Event) : Awake (run fetcher events) := by
  obtain ⟨actions, h⟩ := run_eq_interleave fetcher events
  rw [h]
  exact awake_interleave fetcher actions

theorem queue_run (fetcher : Fetcher) (events : List Event) : (run fetcher events).queue = [] := by
  rcases List.eq_nil_or_concat events with rfl | ⟨events', event, rfl⟩
  · rfl
  · rw [List.concat_eq_append, run_append]
    exact queue_step fetcher _ event

theorem awake_step (fetcher : Fetcher) (events : List Event) (event : Event) :
    Awake (step fetcher (run fetcher events) event) := by
  rw [← run_append]
  exact awake_run fetcher _

theorem Awake.not_ready (h : Awake s) (hq : s.queue = [])
    (ht : s.tasks[n]? = some ⟨job, phase⟩) : ¬ s.Ready phase := by
  intro hr
  have hn := h n job phase ht hr
  rw [hq] at hn
  cases hn

/-- A call whose task is still inside the retrieval has not returned. -/
theorem Awake.not_returned (h : Awake s) (hq : s.queue = [])
    (ht : s.tasks[n]? = some ⟨job, .retrieving call⟩) {c : Call} (hc : s.calls[call]? = some c) :
    c.retrieved = none := by
  cases hr : c.retrieved with
  | none => rfl
  | some retrieved => exact absurd ⟨c, retrieved, hc, hr⟩ (h.not_ready hq ht)

end Service

end Excerpt
