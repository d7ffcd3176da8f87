import Excerpt.Proofs.Service.Consistent

/-!
# Actions that end no retrieval

A task that starts, joins, opens a call, takes its answer or is cancelled before it
retrieves, and a call that returns, leave every table entry in place. Such an action keeps
a state consistent.
-/

namespace Excerpt

namespace Service

variable {s : Service} {n : Nat} {job : Job} {phase : Phase}

theorem task_setPhase_eq_or {phase₀ phase' : Phase} {m : Nat} {job' : Job}
    (ht : s.tasks[n]? = some ⟨job, phase₀⟩)
    (h : (s.setPhase n phase).tasks[m]? = some ⟨job', phase'⟩) :
    m ≠ n ∧ s.tasks[m]? = some ⟨job', phase'⟩ ∨ m = n ∧ job' = job ∧ phase' = phase := by
  by_cases hm : m = n
  · subst hm
    rw [task_setPhase_self ht, Option.some.injEq, Task.mk.injEq] at h
    exact Or.inr ⟨rfl, h.1.symm, h.2.symm⟩
  · exact Or.inl ⟨hm, by rwa [task_setPhase_of_ne s phase hm] at h⟩

/-! ## A task moves on -/

theorem advances_setPhase {phase₀ : Phase} (ht : s.tasks[n]? = some ⟨job, phase₀⟩)
    (hp : phase₀.Advances phase) (m : Nat) (job' : Job) (phase' : Phase)
    (h : s.tasks[m]? = some ⟨job', phase'⟩) :
    ∃ phase'', (s.setPhase n phase).tasks[m]? = some ⟨job', phase''⟩ ∧
      phase'.Advances phase'' := by
  by_cases hm : m = n
  · subst hm
    obtain ⟨rfl, rfl⟩ := Task.mk.inj (Option.some.inj (ht.symm.trans h))
    exact ⟨phase, task_setPhase_self ht phase, hp⟩
  · exact ⟨phase', by rw [task_setPhase_of_ne s phase hm, h], Or.inl rfl⟩

theorem Keeps.setPhase {phase₀ : Phase} (ht : s.tasks[n]? = some ⟨job, phase₀⟩)
    (hp : phase₀.Advances phase) : Keeps s (s.setPhase n phase) where
  task := advances_setPhase ht hp
  completed _ _ he := he
  pending _ _ waiters he := ⟨waiters, he, List.prefix_rfl⟩
  call _ c hc := ⟨c.retrieved, hc, fun _ hr => hr⟩

theorem Consistent.setPhase (h : Consistent s) {phase₀ : Phase}
    (ht : s.tasks[n]? = some ⟨job, phase₀⟩) (hp : phase₀.Advances phase)
    (hplaced : (s.setPhase n phase).Placed n job phase) : Consistent (s.setPhase n phase) := by
  refine h.keep (.setPhase ht hp) (fun m job' phase' hm => ?_) (fun _ _ => Or.inl)
    (fun _ _ => Or.inl)
  rcases task_setPhase_eq_or ht hm with ⟨-, hs⟩ | ⟨rfl, rfl, rfl⟩
  · exact Or.inl hs
  · exact Or.inr hplaced

theorem Keeps.complete {phase₀ : Phase} {outcome : Outcome}
    (ht : s.tasks[n]? = some ⟨job, phase₀⟩) (hp : phase₀.Advances (.completed outcome)) :
    Keeps s (s.complete n outcome) :=
  (Keeps.setPhase ht hp).congr rfl rfl rfl

theorem Consistent.complete (h : Consistent s) {phase₀ : Phase} {outcome : Outcome}
    (ht : s.tasks[n]? = some ⟨job, phase₀⟩) (hp : phase₀.Advances (.completed outcome))
    (hplaced : (s.setPhase n (.completed outcome)).Placed n job (.completed outcome)) :
    Consistent (s.complete n outcome) :=
  (h.setPhase ht hp hplaced).congr rfl rfl rfl

/-! ## A task starts -/

theorem Keeps.start (s : Service) (job : Job) : Keeps s (s.start job) where
  task _ _ phase ht := ⟨phase, getElem?_snoc_of_eq_some _ ht, Or.inl rfl⟩
  completed _ _ he := he
  pending _ _ waiters he := ⟨waiters, he, List.prefix_rfl⟩
  call _ c hc := ⟨c.retrieved, hc, fun _ hr => hr⟩

theorem Consistent.start (h : Consistent s) (job : Job) : Consistent (s.start job) := by
  refine h.keep (.start s job) (fun n job' phase ht => ?_) (fun _ _ => Or.inl)
    (fun _ _ => Or.inl)
  rcases getElem?_snoc_eq_some ht with hs | ⟨-, hnew⟩
  · exact Or.inl hs
  · obtain ⟨rfl, rfl⟩ := Task.mk.inj hnew
    exact Or.inr trivial

/-! ## A task joins the waiters of an open call -/

theorem Keeps.join {call : Nat} {waiters : List Nat} (ht : s.tasks[n]? = some ⟨job, .started⟩)
    (he : s.table.get? job.identifier = some (.pending call waiters)) :
    Keeps s (s.join n call job.identifier waiters) where
  task := advances_setPhase ht (Or.inr (Or.inl rfl))
  completed key file hf := by
    rw [get?_join, if_neg, hf]
    rintro rfl
    cases he.symm.trans hf
  pending key call' waiters' hp := by
    rw [get?_join]
    split
    · next hkey =>
      subst hkey
      obtain ⟨rfl, rfl⟩ := Entry.pending.inj (Option.some.inj (he.symm.trans hp))
      exact ⟨_, rfl, List.prefix_append _ _⟩
    · exact ⟨waiters', hp, List.prefix_rfl⟩
  call _ c hc := ⟨c.retrieved, hc, fun _ hr => hr⟩

/-- A task that has only started is in no list of waiters. -/
theorem Consistent.not_mem_waiters (h : Consistent s) {identifier : String} {call : Nat}
    {waiters : List Nat} (ht : s.tasks[n]? = some ⟨job, .started⟩)
    (he : s.table.get? identifier = some (.pending call waiters)) : n ∉ waiters := by
  intro hn
  obtain ⟨-, -, hw⟩ := h.entry _ _ he
  obtain ⟨job', phase, ht', -, hp⟩ := hw n hn
  obtain ⟨-, rfl⟩ := Task.mk.inj (Option.some.inj (ht.symm.trans ht'))
  rcases hp with hp | hp <;> cases hp

theorem Consistent.join (h : Consistent s) {call : Nat} {waiters : List Nat}
    (ht : s.tasks[n]? = some ⟨job, .started⟩)
    (he : s.table.get? job.identifier = some (.pending call waiters)) :
    Consistent (s.join n call job.identifier waiters) := by
  have hk := Keeps.join ht he
  refine h.keep hk (fun m job' phase hm => ?_) (fun key entry hkey => ?_) (fun _ _ => Or.inl)
  · rcases task_setPhase_eq_or ht hm with ⟨-, hs⟩ | ⟨rfl, rfl, rfl⟩
    · exact Or.inl hs
    · exact Or.inr ⟨_, by rw [get?_join, if_pos rfl], by simp⟩
  · rw [get?_join] at hkey
    split at hkey
    · next hid =>
      subst hid
      obtain rfl := Option.some.inj hkey
      obtain ⟨hr, hd, hw⟩ := (h.entry _ _ he).keep hk
      refine Or.inr ⟨hr, ?_, fun m hm => ?_⟩
      · rw [List.nodup_append]
        refine ⟨hd, by simp, fun a ha b hb => ?_⟩
        rintro rfl
        exact h.not_mem_waiters ht he (List.mem_singleton.1 hb ▸ ha)
      · rcases List.mem_append.1 hm with hm | hm
        · exact hw m hm
        · obtain rfl := List.mem_singleton.1 hm
          exact ⟨job, _, task_setPhase_self ht _, rfl, Or.inl rfl⟩
    · exact Or.inl hkey

/-! ## A task opens a call -/

theorem get?_ask_of_some (fetcher : Fetcher) {identifier key : String} {entry : Entry}
    (he : s.table.get? identifier = none) (hs : s.table.get? key = some entry) :
    (s.ask fetcher n identifier).table.get? key = some entry := by
  rw [get?_ask, if_neg, hs]
  rintro rfl
  cases he.symm.trans hs

theorem Keeps.ask (fetcher : Fetcher) (ht : s.tasks[n]? = some ⟨job, .started⟩)
    (he : s.table.get? job.identifier = none) : Keeps s (s.ask fetcher n job.identifier) where
  task := by
    rw [tasks_ask]
    exact advances_setPhase ht (Or.inr (Or.inl rfl))
  completed _ _ hf := get?_ask_of_some fetcher he hf
  pending _ _ waiters hp := ⟨waiters, get?_ask_of_some fetcher he hp, List.prefix_rfl⟩
  call _ c hc := by
    rw [calls_ask]
    exact ⟨c.retrieved, getElem?_snoc_of_eq_some _ hc, fun _ hr => hr⟩

theorem Consistent.ask (h : Consistent s) (fetcher : Fetcher)
    (ht : s.tasks[n]? = some ⟨job, .started⟩) (he : s.table.get? job.identifier = none) :
    Consistent (s.ask fetcher n job.identifier) := by
  have hcall : (s.ask fetcher n job.identifier).calls[s.calls.length]? =
      some ⟨job.identifier, n, fetcher job.identifier⟩ := by simp [calls_ask]
  have htask : (s.ask fetcher n job.identifier).tasks[n]? =
      some ⟨job, .retrieving s.calls.length⟩ := by
    rw [tasks_ask]
    exact task_setPhase_self ht _
  refine h.keep (.ask fetcher ht he) (fun m job' phase hm => ?_) (fun key entry hs => ?_)
    (fun k c hc => ?_)
  · rw [tasks_ask] at hm
    rcases task_setPhase_eq_or ht hm with ⟨-, hs⟩ | ⟨rfl, rfl, rfl⟩
    · exact Or.inl hs
    · exact Or.inr ⟨[], _, by rw [get?_ask, if_pos rfl], hcall⟩
  · rw [get?_ask] at hs
    split at hs
    · next hid =>
      subst hid
      obtain rfl := Option.some.inj hs
      exact Or.inr ⟨⟨n, job, _, hcall, htask⟩, List.nodup_nil, by simp⟩
    · exact Or.inl hs
  · rw [calls_ask] at hc
    rcases getElem?_snoc_eq_some hc with hs | ⟨rfl, rfl⟩
    · exact Or.inl hs
    · exact Or.inr ⟨job, _, htask, rfl, Or.inl rfl⟩

/-! ## A call returns -/

theorem Keeps.finish (s : Service) (call : Nat) (retrieved : Retrieved) :
    Keeps s (s.finish call retrieved) := by
  rcases finish_eq_self_or s call retrieved with he | ⟨c, hc, hopen, he⟩
  · rw [he]
    exact .of_eq rfl rfl rfl
  · rw [he]
    refine ⟨fun n job phase ht => ⟨phase, by rwa [tasks_wakeRetriever], Or.inl rfl⟩,
      fun _ _ he => by rwa [table_wakeRetriever],
      fun _ _ waiters he => ⟨waiters, by rwa [table_wakeRetriever], List.prefix_rfl⟩,
      fun k d hd => ?_⟩
    rw [calls_wakeRetriever]
    by_cases hk : call = k
    · subst hk
      obtain rfl := Option.some.inj (hc.symm.trans hd)
      exact ⟨some retrieved, List.getElem?_set_self (List.getElem?_eq_some_iff.1 hc).1,
        by simp [hopen]⟩
    · exact ⟨d.retrieved, by rw [List.getElem?_set_ne hk, hd], fun _ hr => hr⟩

theorem Consistent.finish (h : Consistent s) (call : Nat) (retrieved : Retrieved) :
    Consistent (s.finish call retrieved) := by
  have hk := Keeps.finish s call retrieved
  rcases finish_eq_self_or s call retrieved with he | ⟨c, hc, hopen, he⟩
  · rwa [he]
  · rw [he] at hk ⊢
    refine h.keep hk (fun _ _ _ ht => Or.inl (by rwa [tasks_wakeRetriever] at ht))
      (fun _ _ hs => Or.inl (by rwa [table_wakeRetriever] at hs)) (fun k d hd => ?_)
    rw [calls_wakeRetriever] at hd
    rcases getElem?_set_eq_some hd with hs | ⟨rfl, rfl⟩
    · exact Or.inl hs
    · obtain ⟨job, phase, ht, hid, hp⟩ := h.call k c hc
      refine Or.inr ⟨job, phase, by rwa [tasks_wakeRetriever], hid, ?_⟩
      rcases hp with hp | hp | ⟨r, hr, -⟩
      · exact Or.inl hp
      · exact Or.inr (Or.inl hp)
      · rw [hopen] at hr
        cases hr

end Service

end Excerpt
