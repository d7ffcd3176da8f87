import Excerpt.Proofs.Service.Closing

/-!
# What becomes of a task when some task runs

A task that runs takes what is there for it. Of the other tasks only those change that
wait for the retrieval that it ends. A waiter that was told what its retrieval came to
keeps that until it runs, and an outcome is kept for good.
-/

namespace Excerpt

namespace Service

variable {fetcher : Fetcher} {s t : Service} {n m call : Nat} {job job' : Job} {phase : Phase}
  {file : Option SharedSource}

theorem Resumed.eq_self (hr : Resumed fetcher s n t) (ht : s.tasks[n]? = some ⟨job, phase⟩)
    (hn : ¬ s.Ready phase) : t = s := by
  cases hr with
  | idle => rfl
  | hit h => cases ht.symm.trans h; exact absurd trivial hn
  | join h => cases ht.symm.trans h; exact absurd trivial hn
  | ask h => cases ht.symm.trans h; exact absurd trivial hn
  | settle h hc hr => cases ht.symm.trans h; exact absurd ⟨_, _, hc, hr⟩ hn
  | take h => cases ht.symm.trans h; exact absurd trivial hn

theorem Resumed.task_of_ne (hr : Resumed fetcher s n t) (hm : m ≠ n)
    (ht : s.tasks[m]? = some ⟨job, phase⟩) (hw : ∀ call, phase ≠ .waiting call) :
    t.tasks[m]? = some ⟨job, phase⟩ := by
  cases hr with
  | idle => exact ht
  | hit => exact (task_setPhase_of_ne s _ hm).trans ht
  | join => exact (task_setPhase_of_ne s _ hm).trans ht
  | ask =>
    rw [tasks_ask]
    exact (task_setPhase_of_ne s _ hm).trans ht
  | settle h => exact (closes_settle _ h).task_of_not_waiting hm ht hw
  | take => exact (task_setPhase_of_ne s _ hm).trans ht

/-- The waiter of a retrieval stands where the end of that retrieval finds it. -/
theorem Consistent.mem_waiters (hs : Consistent s)
    (hn : s.tasks[n]? = some ⟨job, .retrieving call⟩)
    (hm : s.tasks[m]? = some ⟨job', .waiting call⟩) :
    job'.identifier = job.identifier ∧ m ∈ s.waiters job.identifier := by
  obtain ⟨retrieved, hc⟩ := hs.call_of_retrieving hn
  obtain ⟨waiters, he, hmem⟩ := hs.task _ _ _ hm
  obtain ⟨⟨n', job'', retrieved', hc', -⟩, -, -⟩ := hs.entry _ _ he
  have hid : job'.identifier = job.identifier :=
    (Call.mk.inj (Option.some.inj (hc'.symm.trans hc))).1
  exact ⟨hid, by rwa [← hid, waiters_of_pending he]⟩

theorem Consistent.call_of_mem_waiters (hs : Consistent s) {call' : Nat}
    (hn : s.tasks[n]? = some ⟨job, .retrieving call'⟩) (hmem : m ∈ s.waiters job.identifier)
    (hm : s.tasks[m]? = some ⟨job', .waiting call⟩) : call' = call := by
  obtain ⟨waiters, he, -⟩ := hs.task _ _ _ hm
  obtain ⟨waiters', -, he', -⟩ := hs.task _ _ _ hn
  rw [hs.identifier_of_mem_waiters hmem hm, he'] at he
  exact (Entry.pending.inj (Option.some.inj he)).1

/-- A call is made only for an identifier that has no entry. -/
theorem Resumed.calls_eq_or (hr : Resumed fetcher s n t) :
    t.calls = s.calls ∨ ∃ job, s.tasks[n]? = some ⟨job, .started⟩ ∧
      s.table.get? job.identifier = none ∧
      t.calls = s.calls ++ [⟨job.identifier, n, fetcher job.identifier⟩] := by
  cases hr with
  | idle => exact Or.inl rfl
  | hit => exact Or.inl rfl
  | join => exact Or.inl rfl
  | ask ht he => exact Or.inr ⟨_, ht, he, calls_ask _ _ _ _⟩
  | settle ht => exact Or.inl (closes_settle _ ht).calls
  | take => exact Or.inl rfl

theorem Resumed.call_of_some (hr : Resumed fetcher s n t) {c : Call}
    (hc : s.calls[call]? = some c) : t.calls[call]? = some c := by
  rcases hr.calls_eq_or with h | ⟨job, -, -, h⟩
  · rw [h, hc]
  · rw [h]
    exact getElem?_snoc_of_eq_some _ hc

/-- A waiter is told by nobody but the task that retrieves what it waits for. -/
theorem Resumed.task_of_waiting (hr : Resumed fetcher s n t) (hs : Consistent s)
    (hm : s.tasks[m]? = some ⟨job', .waiting call⟩) :
    t.tasks[m]? = some ⟨job', .waiting call⟩ ∨
      ∃ job, s.tasks[n]? = some ⟨job, .retrieving call⟩ := by
  by_cases hmn : m = n
  · subst hmn
    rw [hr.eq_self hm (fun h => h)]
    exact Or.inl hm
  · cases hr with
    | idle => exact Or.inl hm
    | hit => exact Or.inl ((task_setPhase_of_ne s _ hmn).trans hm)
    | join => exact Or.inl ((task_setPhase_of_ne s _ hmn).trans hm)
    | ask =>
      rw [tasks_ask]
      exact Or.inl ((task_setPhase_of_ne s _ hmn).trans hm)
    | take => exact Or.inl ((task_setPhase_of_ne s _ hmn).trans hm)
    | settle h =>
      next job call' c retrieved _ _ =>
      by_cases hmem : m ∈ s.waiters job.identifier
      · obtain rfl := hs.call_of_mem_waiters h hmem hm
        exact Or.inr ⟨job, h⟩
      · exact Or.inl (((closes_settle retrieved h).task_of_not_mem hmn hmem).trans hm)

/-! ## What lasts -/

/-- A completed or cancelled task stays as it is. -/
theorem task_act_of_ended (fetcher : Fetcher) (action : Action)
    (ht : s.tasks[m]? = some ⟨job, phase⟩) (hl : phase.isLive = false) :
    (act fetcher s action).tasks[m]? = some ⟨job, phase⟩ := by
  rcases keeps_or_closes fetcher s action with hk |
    ⟨n, job', call, phase', file, queue, hn, -, -, hc⟩
  · rcases hk.task_of_ne ht (by rintro rfl; cases hl) (by rintro file rfl; cases hl) with
      ht' | ⟨⟨call, rfl⟩, -⟩
    · exact ht'
    · cases hl
  · refine hc.task_of_not_waiting ?_ ht (by rintro call rfl; cases hl)
    rintro rfl
    cases hn.symm.trans ht
    cases hl

/-- A task is for the same job from first to last. -/
theorem task_act (fetcher : Fetcher) (action : Action) (ht : s.tasks[m]? = some ⟨job, phase⟩) :
    ∃ phase', (act fetcher s action).tasks[m]? = some ⟨job, phase'⟩ := by
  rcases keeps_or_closes fetcher s action with hk |
    ⟨n, job', call, phase', file, queue, hn, -, -, hc⟩
  · obtain ⟨phase', ht', -⟩ := hk.task m job phase ht
    exact ⟨phase', ht'⟩
  · by_cases hm : m = n
    · subst hm
      obtain ⟨rfl, -⟩ := Task.mk.inj (Option.some.inj (ht.symm.trans hn))
      exact ⟨phase', hc.self⟩
    · rw [hc.other m hm]
      split
      · exact ⟨phase.answer file, by rw [ht]; rfl⟩
      · exact ⟨phase, ht⟩

theorem task_foldl (fetcher : Fetcher) (actions : List Action)
    (ht : s.tasks[m]? = some ⟨job, phase⟩) :
    ∃ phase', (actions.foldl (act fetcher) s).tasks[m]? = some ⟨job, phase'⟩ :=
  actions_induction fetcher (p := fun t => ∃ phase', t.tasks[m]? = some ⟨job, phase'⟩)
    (fun _ action ⟨_, h⟩ => task_act fetcher action h) actions ⟨phase, ht⟩

theorem call_act_of_some (fetcher : Fetcher) (action : Action) {c : Call}
    (hc : s.calls[call]? = some c) :
    ∃ retrieved, (act fetcher s action).calls[call]? = some ⟨c.identifier, c.task, retrieved⟩ := by
  rcases keeps_or_closes fetcher s action with hk | ⟨_, _, _, _, _, _, -, -, -, hcl⟩
  · obtain ⟨retrieved, hc', -⟩ := hk.call _ _ hc
    exact ⟨retrieved, hc'⟩
  · exact ⟨c.retrieved, by rw [hcl.calls, hc]⟩

/-- What a call returned is kept. -/
theorem call_act_of_returned (fetcher : Fetcher) (action : Action) {k : Nat} {c : Call}
    {retrieved : Retrieved} (hc : s.calls[k]? = some c) (hr : c.retrieved = some retrieved) :
    (act fetcher s action).calls[k]? = some c := by
  rcases keeps_or_closes fetcher s action with hk | ⟨_, _, _, _, _, _, -, -, -, hcl⟩
  · obtain ⟨retrieved', hc', hr'⟩ := hk.call k c hc
    rw [hc', hr' _ hr, ← hr]
  · rw [hcl.calls, ← hc]

/-- From outside a task is moved on only when it waits or is itself cancelled. -/
theorem task_apply_of_ne (event : Event) (ht : s.tasks[m]? = some ⟨job, phase⟩)
    (hw : ∀ call, phase ≠ .waiting call) (hne : event ≠ .cancel m) :
    (s.apply event).tasks[m]? = some ⟨job, phase⟩ := by
  cases event with
  | start jobs =>
    rw [apply_start_eq, List.getElem?_append_left (List.getElem?_eq_some_iff.1 ht).1, ht]
  | finish call retrieved =>
    change (s.finish call retrieved).tasks[m]? = _
    rcases finish_eq_self_or s call retrieved with he | ⟨c, -, -, he⟩
    · rw [he, ht]
    · rw [he, tasks_wakeRetriever]
      exact ht
  | cancel n =>
    have hm : m ≠ n := by
      rintro rfl
      exact hne rfl
    change (s.cancel n).tasks[m]? = _
    rcases cancel_cases s n with he | ⟨_, _, -, -, -, he⟩ | ⟨_, _, -, hc⟩
    · rw [he, ht]
    · rw [he, task_setPhase_of_ne s _ hm, ht]
    · exact hc.task_of_not_waiting hm ht hw

theorem task_cancel_self (ht : s.tasks[n]? = some ⟨job, phase⟩) (hl : phase.isLive = true) :
    (s.cancel n).tasks[n]? = some ⟨job, .cancelled⟩ := by
  cases phase with
  | retrieving call => exact (closes_cancel ht).self
  | completed outcome => cases hl
  | cancelled => cases hl
  | _ =>
    simp only [Service.cancel, ht]
    exact task_setPhase_self ht _

/-! ## Over several turns -/

theorem Consistent.turns (h : Consistent s) (fetcher : Fetcher) (k : Nat) :
    Consistent (Service.turns fetcher k s) :=
  turns_induction fetcher (fun _ n hs => hs.poll fetcher n) k h

/-- A waiter was told what its retrieval came to, and perhaps has taken it. -/
def Handed (s : Service) (m : Nat) (job : Job) (file : Option SharedSource) : Prop :=
  s.tasks[m]? = some ⟨job, .answered file⟩ ∨
    s.tasks[m]? = some ⟨job, .completed (passedOn job.identifier file)⟩

theorem Handed.poll (h : Handed s m job file) (fetcher : Fetcher) (n : Nat) :
    Handed (s.poll fetcher n) m job file := by
  rcases h with ht | ht
  · by_cases hm : m = n
    · subst hm
      rw [poll_of_answered fetcher ht]
      exact Or.inr (task_setPhase_self ht _)
    · exact Or.inl ((resumed_poll fetcher s n).task_of_ne hm ht (by simp))
  · exact Or.inr (task_act_of_ended fetcher (.poll n) ht rfl)

theorem Handed.turns (h : Handed s m job file) (fetcher : Fetcher) (k : Nat) :
    Handed (Service.turns fetcher k s) m job file :=
  turns_induction fetcher (p := fun t => Handed t m job file)
    (fun _ n hm => hm.poll fetcher n) k h

/-- How a retrieval that has returned in a state stands later: either its task has not run
and the waiters of that state still wait, or all of them were told. -/
def Resolving (s t : Service) (n call : Nat) (job : Job) (retrieved : Retrieved) : Prop :=
  (t.tasks[n]? = some ⟨job, .retrieving call⟩ ∧
    (∃ c, t.calls[call]? = some c ∧ c.retrieved = some retrieved) ∧
    ∀ (m : Nat) (job' : Job), s.tasks[m]? = some ⟨job', .waiting call⟩ →
      t.tasks[m]? = some ⟨job', .waiting call⟩) ∨
  (t.tasks[n]? = some ⟨job, .completed (retrieved.outcome call job.identifier)⟩ ∧
    ∀ (m : Nat) (job' : Job), s.tasks[m]? = some ⟨job', .waiting call⟩ →
      Handed t m job' (retrieved.outcome call job.identifier).file?)

theorem Resolving.poll {retrieved : Retrieved} (h : Resolving s t n call job retrieved)
    (hs : Consistent t) (fetcher : Fetcher) (i : Nat) :
    Resolving s (t.poll fetcher i) n call job retrieved := by
  have hr := resumed_poll fetcher t i
  rcases h with ⟨ht, ⟨c, hc, hcr⟩, hw⟩ | ⟨ht, hw⟩
  · by_cases hi : i = n
    · subst hi
      have he := poll_of_returned fetcher ht hc hcr
      have hcl := closes_settle (s := { t with queue := t.queue.erase i }) retrieved ht
      rw [← he] at hcl
      refine Or.inr ⟨hcl.self, fun m job' hm => Or.inl ?_⟩
      obtain ⟨-, hmem⟩ := hs.mem_waiters ht (hw m job' hm)
      refine hcl.task_of_waiting ?_ hmem (hw m job' hm)
      rintro rfl
      cases ht.symm.trans (hw m job' hm)
    · refine Or.inl ⟨hr.task_of_ne (Ne.symm hi) ht (by simp), ⟨c, hr.call_of_some hc, hcr⟩,
        fun m job' hm => ?_⟩
      rcases hr.task_of_waiting (hs.congr rfl rfl rfl) (hw m job' hm) with hm' | ⟨job'', ht'⟩
      · exact hm'
      · obtain ⟨_, hc₁⟩ := hs.call_of_retrieving ht
        obtain ⟨_, hc₂⟩ := hs.call_of_retrieving ht'
        exact absurd (Call.mk.inj (Option.some.inj (hc₂.symm.trans hc₁))).2.1 hi
  · exact Or.inr ⟨task_act_of_ended fetcher (.poll i) ht rfl,
      fun m job' hm => (hw m job' hm).poll fetcher i⟩

theorem Consistent.resolving_turns (hs : Consistent s) (fetcher : Fetcher)
    (hn : s.tasks[n]? = some ⟨job, .retrieving call⟩) {c : Call} {retrieved : Retrieved}
    (hc : s.calls[call]? = some c) (hr : c.retrieved = some retrieved) (k : Nat) :
    Resolving s (Service.turns fetcher k s) n call job retrieved :=
  (turns_induction fetcher (p := fun t => Consistent t ∧ Resolving s t n call job retrieved)
    (fun _ i h => ⟨h.1.poll fetcher i, h.2.poll h.1 fetcher i⟩) k
    ⟨hs, Or.inl ⟨hn, ⟨c, hc, hr⟩, fun _ _ hm => hm⟩⟩).2

end Service

end Excerpt
