import Excerpt.Proofs.Service.Keeping

/-!
# The end of a retrieval

A retrieval ends when its task takes what the call returned or is cancelled. It removes
the entry of its own call, and the waiters of that call are told. Together with the
actions that end no retrieval this makes every interleaving consistent.
-/

namespace Excerpt

namespace Service

variable {s t : Service} {n call : Nat} {job : Job} {phase : Phase} {file : Option SharedSource}

theorem waiters_of_pending {identifier : String} {waiters : List Nat}
    (h : s.table.get? identifier = some (.pending call waiters)) :
    s.waiters identifier = waiters := by simp [Service.waiters, h]

theorem Consistent.retriever_unique (h : Consistent s) {m call' : Nat} {job' : Job}
    (hn : s.tasks[n]? = some ⟨job, .retrieving call⟩)
    (hm : s.tasks[m]? = some ⟨job', .retrieving call'⟩)
    (hid : job'.identifier = job.identifier) : m = n := by
  obtain ⟨waiters, retrieved, he, hc⟩ := h.task _ _ _ hn
  obtain ⟨waiters', retrieved', he', hc'⟩ := h.task _ _ _ hm
  rw [hid, he] at he'
  obtain ⟨rfl, -⟩ := Entry.pending.inj (Option.some.inj he')
  exact (Call.mk.inj (Option.some.inj (hc'.symm.trans hc))).2.1

theorem Consistent.call_of_retrieving (h : Consistent s)
    (ht : s.tasks[n]? = some ⟨job, .retrieving call⟩) :
    ∃ retrieved, s.calls[call]? = some ⟨job.identifier, n, retrieved⟩ := by
  obtain ⟨-, retrieved, -, hc⟩ := h.task _ _ _ ht
  exact ⟨retrieved, hc⟩

/-- Who is listed as a waiter of an open retrieval asked for its identifier. -/
theorem Consistent.identifier_of_mem_waiters (h : Consistent s) {identifier : String}
    {m : Nat} {job' : Job} {phase' : Phase} (hm : m ∈ s.waiters identifier)
    (ht : s.tasks[m]? = some ⟨job', phase'⟩) : job'.identifier = identifier := by
  unfold Service.waiters at hm
  split at hm
  · next call waiters he =>
    obtain ⟨-, -, hw⟩ := h.entry _ _ he
    obtain ⟨job'', phase'', ht', hid, -⟩ := hw m hm
    rw [(Task.mk.inj (Option.some.inj (ht.symm.trans ht'))).1, hid]
  · cases hm

theorem Placed.congr (h : s.Placed n job phase) (hcalls : t.calls = s.calls)
    (htable : t.table.get? job.identifier = s.table.get? job.identifier) :
    t.Placed n job phase := by
  cases phase with
  | retrieving call => simpa only [Placed, htable, hcalls] using h
  | waiting call => simpa only [Placed, htable] using h
  | answered file =>
    cases file with
    | some file => simpa only [Placed, htable] using h
    | none => trivial
  | completed outcome => cases outcome <;> simpa only [Placed, htable, hcalls] using h
  | started => trivial
  | cancelled => trivial

/-- How the retrieval of a task can end. -/
inductive Ending (s : Service) (call : Nat) (identifier : String) :
    Phase → Option SharedSource → Prop
  | returned {c : Call} {retrieved : Retrieved} (hc : s.calls[call]? = some c)
      (hr : c.retrieved = some retrieved) :
      Ending s call identifier (.completed (retrieved.outcome call identifier))
        (retrieved.outcome call identifier).file?
  | withdrawn : Ending s call identifier .cancelled none

/-! ## What ended -/

theorem Ending.placed (he : Ending s call job.identifier phase file)
    (hc : Closes s t n job phase file)
    (hcall : ∃ retrieved, s.calls[call]? = some ⟨job.identifier, n, retrieved⟩) :
    t.Placed n job phase := by
  cases he with
  | withdrawn => trivial
  | returned hk hr =>
    next c retrieved =>
    obtain ⟨r, hcall⟩ := hcall
    obtain rfl := Option.some.inj (hk.symm.trans hcall)
    have htable := hc.table job.identifier
    rw [if_pos rfl] at htable
    cases ho : retrieved.outcome call job.identifier with
    | served file => simpa [Placed, Outcome.file?, ho] using htable
    | failed failure =>
      refine Or.inr ⟨call, retrieved, ?_, ho⟩
      rw [hc.calls, hk]
      simpa using hr

theorem Ending.backed {file : SharedSource} (he : Ending s call job.identifier phase (some file))
    (hc : Closes s t n job phase (some file))
    (hcall : ∃ retrieved, s.calls[call]? = some ⟨job.identifier, n, retrieved⟩) :
    t.Backed job.identifier (.completed file) := by
  generalize hf : some file = file? at he
  cases he with
  | withdrawn => cases hf
  | returned hk hr =>
    next c retrieved =>
    obtain ⟨r, hcall⟩ := hcall
    obtain rfl := Option.some.inj (hk.symm.trans hcall)
    obtain rfl : r = some retrieved := hr
    cases retrieved with
    | content text =>
      obtain rfl := Option.some.inj hf
      exact ⟨n, job, text, by rw [hc.calls, hk], rfl, hc.self⟩
    | missing => cases hf
    | unreadable reason => cases hf

theorem Ending.made (he : Ending s call job.identifier phase file)
    (hc : Closes s t n job phase file) {retrieved : Option Retrieved}
    (hcall : s.calls[call]? = some ⟨job.identifier, n, retrieved⟩) :
    t.Made call ⟨job.identifier, n, retrieved⟩ := by
  refine ⟨job, phase, hc.self, rfl, ?_⟩
  cases he with
  | withdrawn => exact Or.inr (Or.inl rfl)
  | returned hk hr =>
    next c r =>
    obtain rfl := Option.some.inj (hk.symm.trans hcall)
    exact Or.inr (Or.inr ⟨r, hr, rfl⟩)

/-! ## What stays as it was -/

/-- A task that the end of a retrieval does not touch, although it asked for the same
identifier, neither retrieves nor waits nor was served. -/
theorem Closes.placed_of_identifier_eq (hc : Closes s t n job phase file) (h : Consistent s)
    (ht : s.tasks[n]? = some ⟨job, .retrieving call⟩) {m : Nat} {job' : Job} {phase' : Phase}
    (hm : m ≠ n) (hs : s.tasks[m]? = some ⟨job', phase'⟩)
    (hw : ¬ (m ∈ s.waiters job.identifier ∧ ∃ call, phase' = .waiting call))
    (hid : job'.identifier = job.identifier) : t.Placed m job' phase' := by
  obtain ⟨waiters, -, he, -⟩ := h.task _ _ _ ht
  have hp := h.task _ _ _ hs
  cases phase' with
  | retrieving call' => exact absurd (h.retriever_unique ht hs hid) hm
  | waiting call' =>
    obtain ⟨waiters', he', hmem⟩ := hp
    rw [← waiters_of_pending he', hid] at hmem
    exact absurd ⟨hmem, call', rfl⟩ hw
  | answered file' =>
    cases file' with
    | none => trivial
    | some file' =>
      rw [Placed, hid, he] at hp
      cases hp
  | completed outcome =>
    cases outcome with
    | served file' =>
      rw [Placed, hid, he] at hp
      cases hp
    | failed failure => simpa only [Placed, hc.calls] using hp
  | started => trivial
  | cancelled => trivial

theorem Closes.placed_of_ne (hc : Closes s t n job phase file) (h : Consistent s)
    (ht : s.tasks[n]? = some ⟨job, .retrieving call⟩) {m : Nat} {job' : Job} {phase' : Phase}
    (hm : m ≠ n) (htask : t.tasks[m]? = some ⟨job', phase'⟩) : t.Placed m job' phase' := by
  rcases hc.task_eq_or hm htask with ⟨hs, hw⟩ | ⟨hmem, ⟨call', hs⟩, rfl⟩
  · by_cases hid : job'.identifier = job.identifier
    · exact hc.placed_of_identifier_eq h ht hm hs hw hid
    · refine (h.task _ _ _ hs).congr hc.calls ?_
      rw [hc.table, if_neg (Ne.symm hid)]
  · cases file with
    | none => trivial
    | some file =>
      change t.table.get? job'.identifier = _
      rw [hc.table, if_pos (h.identifier_of_mem_waiters hmem hs).symm]
      rfl

theorem Closes.backed_of_ne (hc : Closes s t n job phase file) (h : Consistent s)
    (ht : s.tasks[n]? = some ⟨job, .retrieving call⟩) {key : String} {entry : Entry}
    (hid : job.identifier ≠ key) (hkey : s.table.get? key = some entry) :
    t.Backed key entry := by
  obtain ⟨retrieved, hcall⟩ := h.call_of_retrieving ht
  have hb := h.entry _ _ hkey
  cases entry with
  | pending call' waiters' =>
    obtain ⟨⟨n', job', retrieved', hcall', ht'⟩, hd, hw'⟩ := hb
    refine ⟨⟨n', job', retrieved', by rw [hc.calls, hcall'], ?_⟩, hd, fun m hm => ?_⟩
    · refine hc.task_of_not_waiting ?_ ht' (by simp)
      rintro rfl
      obtain ⟨rfl, hr⟩ := Task.mk.inj (Option.some.inj (ht.symm.trans ht'))
      obtain rfl := Phase.retrieving.inj hr
      exact hid (Call.mk.inj (Option.some.inj (hcall.symm.trans hcall'))).1
    · obtain ⟨job', phase', htask, hid', hp⟩ := hw' m hm
      refine ⟨job', phase', ?_, hid', hp⟩
      rw [hc.task_of_not_mem, htask]
      · rintro rfl
        obtain ⟨rfl, -⟩ := Task.mk.inj (Option.some.inj (ht.symm.trans htask))
        exact hid hid'
      · intro hmem
        exact hid ((h.identifier_of_mem_waiters hmem htask).symm.trans hid')
  | completed file' =>
    obtain ⟨n', job', text, hcall', hf, ht'⟩ := hb
    refine ⟨n', job', text, by rw [hc.calls, hcall'], hf, hc.task_of_not_waiting ?_ ht' (by simp)⟩
    rintro rfl
    cases ht.symm.trans ht'

theorem Closes.made_of_ne (hc : Closes s t n job phase file) {k : Nat} {c : Call}
    (h : s.Made k c) (hn : c.task ≠ n) : t.Made k c := by
  obtain ⟨job', phase', htask, hid, hp⟩ := h
  refine ⟨job', phase', hc.task_of_not_waiting hn htask ?_, hid, hp⟩
  rcases hp with rfl | rfl | ⟨_, _, rfl⟩ <;> simp

/-- A task that retrieves has made no other call. -/
theorem Consistent.eq_of_task_eq (h : Consistent s)
    (ht : s.tasks[n]? = some ⟨job, .retrieving call⟩) {k : Nat} {c : Call}
    (hk : s.calls[k]? = some c) (hn : c.task = n) : k = call := by
  obtain ⟨job', phase', htask, -, hp⟩ := h.call k c hk
  rw [hn, ht] at htask
  obtain ⟨-, rfl⟩ := Task.mk.inj (Option.some.inj htask)
  rcases hp with hp | hp | ⟨_, _, hp⟩
  · exact (Phase.retrieving.inj hp).symm
  · cases hp
  · cases hp

/-! ## Every interleaving is consistent -/

theorem Consistent.close (h : Consistent s) (ht : s.tasks[n]? = some ⟨job, .retrieving call⟩)
    (hc : Closes s t n job phase file) (he : Ending s call job.identifier phase file) :
    Consistent t := by
  obtain ⟨retrieved, hcall⟩ := h.call_of_retrieving ht
  constructor
  · intro m job' phase' hm
    by_cases hmn : m = n
    · subst hmn
      obtain ⟨rfl, rfl⟩ := Task.mk.inj (Option.some.inj (hc.self.symm.trans hm))
      exact he.placed hc ⟨_, hcall⟩
    · exact hc.placed_of_ne h ht hmn hm
  · intro key entry hkey
    rw [hc.table] at hkey
    split at hkey
    · next hid =>
      subst hid
      obtain ⟨file, rfl, rfl⟩ := Option.map_eq_some_iff.1 hkey
      exact he.backed hc ⟨_, hcall⟩
    · next hid => exact hc.backed_of_ne h ht hid hkey
  · intro k c hk
    rw [hc.calls] at hk
    by_cases hn : c.task = n
    · obtain rfl := h.eq_of_task_eq ht hk hn
      obtain rfl := Option.some.inj (hk.symm.trans hcall)
      exact he.made hc hcall
    · exact hc.made_of_ne (h.call k c hk) hn

theorem Consistent.cancel (h : Consistent s) (n : Nat) : Consistent (s.cancel n) := by
  rcases cancel_cases s n with he | ⟨job, phase, ht, hl, hr, he⟩ | ⟨job, call, ht, hc⟩
  · rwa [he]
  · rw [he]
    exact h.setPhase ht (Phase.advances_cancelled hl hr) trivial
  · exact h.close ht hc .withdrawn

theorem Consistent.apply (h : Consistent s) (event : Event) : Consistent (s.apply event) := by
  cases event with
  | start jobs =>
    change Consistent (jobs.foldl Service.start s)
    induction jobs generalizing s with
    | nil => exact h
    | cons job jobs ih => exact ih (h.start job)
  | finish call retrieved => exact h.finish call retrieved
  | cancel n => exact h.cancel n

theorem Consistent.resumed (h : Consistent s) {fetcher : Fetcher} (hr : Resumed fetcher s n t) :
    Consistent t := by
  cases hr with
  | idle => exact h
  | hit ht he => exact h.complete ht (Or.inr (Or.inl rfl)) he
  | join ht he => exact h.join ht he
  | ask ht he => exact h.ask fetcher ht he
  | settle ht hc hr => exact h.close ht (closes_settle _ ht) (.returned hc hr)
  | take ht =>
    next job file =>
    refine h.complete ht (Or.inr (Or.inr (Or.inl ⟨file, rfl⟩))) ?_
    cases file with
    | none => exact Or.inl rfl
    | some file => exact h.task _ _ _ ht

theorem Consistent.poll (h : Consistent s) (fetcher : Fetcher) (n : Nat) :
    Consistent (s.poll fetcher n) :=
  (h.congr (t := { s with queue := s.queue.erase n }) rfl rfl rfl).resumed
    (resumed_poll fetcher s n)

theorem Consistent.act (h : Consistent s) (fetcher : Fetcher) (action : Action) :
    Consistent (act fetcher s action) := by
  cases action with
  | event event => exact h.apply event
  | poll n => exact h.poll fetcher n

theorem consistent_interleave (fetcher : Fetcher) (actions : List Action) :
    Consistent (interleave fetcher actions) :=
  actions_induction fetcher (fun _ action h => h.act fetcher action) actions consistent_empty

theorem consistent_run (fetcher : Fetcher) (events : List Event) :
    Consistent (run fetcher events) := by
  obtain ⟨actions, h⟩ := run_eq_interleave fetcher events
  rw [h]
  exact consistent_interleave fetcher actions

/-! ## Every action ends one retrieval or none -/

theorem Keeps.trans {u : Service} (hst : Keeps s t) (htu : Keeps t u) : Keeps s u where
  task n job phase h := by
    obtain ⟨phase', ht, hp⟩ := hst.task n job phase h
    obtain ⟨phase'', hu, hp'⟩ := htu.task n job phase' ht
    refine ⟨phase'', hu, ?_⟩
    rcases hp with rfl | hp | hp | ⟨call, rfl, rfl⟩
    · exact hp'
    · exact Or.inr (Or.inl hp)
    · exact Or.inr (Or.inr (Or.inl hp))
    · refine Or.inr (Or.inr (Or.inr ⟨call, rfl, ?_⟩))
      rcases hp' with hp' | hp' | ⟨_, hp'⟩ | ⟨_, hp', _⟩
      · exact hp'
      · cases hp'
      · cases hp'
      · cases hp'
  completed key file h := htu.completed _ _ (hst.completed _ _ h)
  pending key call waiters h := by
    obtain ⟨waiters', ht, hw⟩ := hst.pending _ _ _ h
    obtain ⟨waiters'', hu, hw'⟩ := htu.pending _ _ _ ht
    exact ⟨waiters'', hu, hw.trans hw'⟩
  call k c h := by
    obtain ⟨retrieved, ht, hr⟩ := hst.call k c h
    obtain ⟨retrieved', hu, hr'⟩ := htu.call k _ ht
    exact ⟨retrieved', hu, fun r h => hr' r (hr r h)⟩

theorem Keeps.refl (s : Service) : Keeps s s := .of_eq rfl rfl rfl

theorem keeps_start (jobs : List Job) (s : Service) : Keeps s (s.apply (.start jobs)) := by
  change Keeps s (jobs.foldl Service.start s)
  induction jobs generalizing s with
  | nil => exact .refl s
  | cons job jobs ih => exact (Keeps.start s job).trans (ih (s.start job))

/-- An action leaves every entry in place, or it is the end of one retrieval. -/
theorem keeps_or_closes (fetcher : Fetcher) (s : Service) (action : Action) :
    Keeps s (act fetcher s action) ∨
    ∃ n job call phase file queue, s.tasks[n]? = some ⟨job, .retrieving call⟩ ∧
      (action = .poll n ∨ action = .event (.cancel n)) ∧
      Ending s call job.identifier phase file ∧
      Closes { s with queue := queue } (act fetcher s action) n job phase file := by
  cases action with
  | event event =>
    cases event with
    | start jobs => exact Or.inl (keeps_start jobs s)
    | finish call retrieved => exact Or.inl (.finish s call retrieved)
    | cancel n =>
      change Keeps s (s.cancel n) ∨ _
      rcases cancel_cases s n with he | ⟨job, phase, ht, hl, hr, he⟩ | ⟨job, call, ht, hc⟩
      · rw [he]
        exact Or.inl (.refl s)
      · rw [he]
        exact Or.inl (.setPhase ht (Phase.advances_cancelled hl hr))
      · exact Or.inr ⟨n, job, call, _, _, s.queue, ht, Or.inr rfl, .withdrawn, hc⟩
  | poll n =>
    have h₀ : Keeps s { s with queue := s.queue.erase n } := .of_eq rfl rfl rfl
    have hr := resumed_poll fetcher s n
    change Keeps s (s.poll fetcher n) ∨ _
    generalize ht : s.poll fetcher n = t at hr
    cases hr with
    | idle => exact Or.inl h₀
    | hit h he => exact Or.inl (h₀.trans (.complete h (Or.inr (Or.inl rfl))))
    | join h he => exact Or.inl (h₀.trans (.join h he))
    | ask h he => exact Or.inl (h₀.trans (.ask fetcher h he))
    | settle h hc hr =>
      refine Or.inr ⟨n, _, _, _, _, s.queue.erase n, h, Or.inl rfl, .returned hc hr, ?_⟩
      change Closes _ (s.poll fetcher n) _ _ _ _
      rw [ht]
      exact closes_settle _ h
    | take h => exact Or.inl (h₀.trans (.complete h (Or.inr (Or.inr (Or.inl ⟨_, rfl⟩)))))

end Service

end Excerpt
