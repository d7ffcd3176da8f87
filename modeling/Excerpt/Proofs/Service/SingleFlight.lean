import Excerpt.Proofs.Service.Closing

/-!
# One retrieval at a time

The table says of every identifier whether a task is inside its retrieval. So no two
tasks ever are at once, and whoever ends a retrieval removes the entry that it opened and
no other.
-/

namespace Excerpt

namespace Service

variable {s : Service} {n m : Nat} {identifier : String}

/-- Whether a task is inside the retrieval of an identifier. -/
def Retrieves (s : Service) (identifier : String) (n : Nat) : Prop :=
  ∃ job call, s.tasks[n]? = some ⟨job, .retrieving call⟩ ∧ job.identifier = identifier

theorem Consistent.retrieves_unique (h : Consistent s) (hn : s.Retrieves identifier n)
    (hm : s.Retrieves identifier m) : n = m := by
  obtain ⟨job, call, ht, hid⟩ := hn
  obtain ⟨job', call', ht', hid'⟩ := hm
  exact h.retriever_unique ht' ht (hid.trans hid'.symm)

theorem Consistent.retriever_of_pending (h : Consistent s) {call : Nat} {waiters : List Nat}
    (he : s.table.get? identifier = some (.pending call waiters)) :
    ∃ (n : Nat) (job : Job), s.tasks[n]? = some ⟨job, .retrieving call⟩ ∧
      job.identifier = identifier := by
  obtain ⟨⟨n, job, retrieved, hc, ht⟩, -, -⟩ := h.entry _ _ he
  obtain ⟨retrieved', hc'⟩ := h.call_of_retrieving ht
  exact ⟨n, job, ht, (Call.mk.inj (Option.some.inj (hc'.symm.trans hc))).1⟩

theorem Consistent.pending_iff (h : Consistent s) (identifier : String) :
    (∃ call waiters, s.table.get? identifier = some (.pending call waiters)) ↔
      ∃ n, s.Retrieves identifier n := by
  constructor
  · rintro ⟨call, waiters, he⟩
    obtain ⟨n, job, ht, hid⟩ := h.retriever_of_pending he
    exact ⟨n, job, call, ht, hid⟩
  · rintro ⟨n, job, call, ht, rfl⟩
    obtain ⟨waiters, retrieved, he, -⟩ := h.task _ _ _ ht
    exact ⟨call, waiters, he⟩

theorem not_pending_iff (s : Service) (identifier : String) :
    (s.table.get? identifier = none ∨ ∃ file, s.table.get? identifier = some (.completed file)) ↔
      ¬ ∃ call waiters, s.table.get? identifier = some (.pending call waiters) := by
  cases s.table.get? identifier with
  | none => simp
  | some entry => cases entry <;> simp

/-- A pending entry goes away only when the task that opened it ends its retrieval. -/
theorem get?_act_of_pending (h : Consistent s) (fetcher : Fetcher) (action : Action)
    {call : Nat} {waiters : List Nat}
    (he : s.table.get? identifier = some (.pending call waiters)) :
    (∃ waiters', (act fetcher s action).table.get? identifier = some (.pending call waiters') ∧
      waiters <+: waiters') ∨
    ∃ (n : Nat) (job : Job), s.tasks[n]? = some ⟨job, .retrieving call⟩ ∧
      job.identifier = identifier ∧ (action = .poll n ∨ action = .event (.cancel n)) := by
  rcases keeps_or_closes fetcher s action with hk | ⟨n, job, call', _, _, _, ht, ha, -, hc⟩
  · exact Or.inl (hk.pending _ _ _ he)
  · by_cases hid : job.identifier = identifier
    · obtain ⟨waiters', -, he', -⟩ := h.task _ _ _ ht
      rw [hid, he] at he'
      obtain ⟨rfl, -⟩ := Entry.pending.inj (Option.some.inj he')
      exact Or.inr ⟨n, job, ht, hid, ha⟩
    · refine Or.inl ⟨waiters, ?_, List.prefix_rfl⟩
      rw [hc.table, if_neg hid]
      exact he

/-- A completed entry never goes away. -/
theorem get?_act_of_completed (h : Consistent s) (fetcher : Fetcher)
    (action : Action) {file : SharedSource}
    (he : s.table.get? identifier = some (.completed file)) :
    (act fetcher s action).table.get? identifier = some (.completed file) := by
  rcases keeps_or_closes fetcher s action with hk | ⟨n, job, call, _, _, _, ht, -, -, hc⟩
  · exact hk.completed _ _ he
  · rw [hc.table, if_neg]
    · exact he
    · rintro rfl
      obtain ⟨waiters, -, he', -⟩ := h.task _ _ _ ht
      cases he.symm.trans he'

theorem get?_cancel {job : Job} {call : Nat} (ht : s.tasks[n]? = some ⟨job, .retrieving call⟩)
    (key : String) : (s.cancel n).table.get? key =
      if job.identifier = key then none else s.table.get? key := (closes_cancel ht).table key

/-- The entry that a returned retrieval leaves behind. -/
theorem get?_poll_of_returned (fetcher : Fetcher) {job : Job} {call : Nat} {c : Call}
    {retrieved : Retrieved} (ht : s.tasks[n]? = some ⟨job, .retrieving call⟩)
    (hc : s.calls[call]? = some c) (hr : c.retrieved = some retrieved) (key : String) :
    (s.poll fetcher n).table.get? key =
      if job.identifier = key then (retrieved.outcome call job.identifier).file?.map .completed
      else s.table.get? key := by
  rw [poll_of_returned fetcher ht hc hr]
  exact (closes_settle (s := { s with queue := s.queue.erase n }) retrieved ht).table key

/-- At every moment of every interleaving, an entry is pending just while one task is
inside the retrieval of its identifier. The end of that retrieval, and nothing else,
removes it. -/
theorem single_flight (fetcher : Fetcher) (actions : List Action) (identifier : String) :
    let s := interleave fetcher actions
    ((∃ call waiters, s.table.get? identifier = some (.pending call waiters)) ↔
      ∃! n, s.Retrieves identifier n) ∧
    ((s.table.get? identifier = none ∨ ∃ file, s.table.get? identifier = some (.completed file)) ↔
      ¬ ∃ n, s.Retrieves identifier n) ∧
    (∀ n m, s.Retrieves identifier n → s.Retrieves identifier m → n = m) ∧
    (∀ n job call, s.tasks[n]? = some ⟨job, .retrieving call⟩ → job.identifier = identifier →
      ∃ waiters retrieved, s.calls[call]? = some ⟨identifier, n, retrieved⟩ ∧
        s.table.get? identifier = some (.pending call waiters) ∧
        s.waiters identifier = waiters ∧
        (∀ key, (act fetcher s (.event (.cancel n))).table.get? key =
          if identifier = key then none else s.table.get? key) ∧
        ∀ r, retrieved = some r → ∀ key, (act fetcher s (.poll n)).table.get? key =
          if identifier = key then (r.outcome call identifier).file?.map .completed
          else s.table.get? key) ∧
    (∀ action call waiters, s.table.get? identifier = some (.pending call waiters) →
      (∃ waiters', (act fetcher s action).table.get? identifier = some (.pending call waiters') ∧
        waiters <+: waiters') ∨
      ∃ (n : Nat) (job : Job), s.tasks[n]? = some ⟨job, .retrieving call⟩ ∧
        job.identifier = identifier ∧ (action = .poll n ∨ action = .event (.cancel n))) ∧
    (∀ action file, s.table.get? identifier = some (.completed file) →
      (act fetcher s action).table.get? identifier = some (.completed file)) := by
  intro s
  have h : Consistent s := consistent_interleave fetcher actions
  refine ⟨(h.pending_iff identifier).trans ?_, ?_, fun n m => h.retrieves_unique, ?_,
    fun action call waiters => get?_act_of_pending h fetcher action,
    fun action file => get?_act_of_completed h fetcher action⟩
  · constructor
    · rintro ⟨n, hn⟩
      exact ⟨n, hn, fun m hm => h.retrieves_unique hm hn⟩
    · rintro ⟨n, hn, -⟩
      exact ⟨n, hn⟩
  · rw [not_pending_iff, h.pending_iff]
  · rintro n job call ht rfl
    obtain ⟨waiters, retrieved, he, hc⟩ := h.task _ _ _ ht
    exact ⟨waiters, retrieved, hc, he, waiters_of_pending he, get?_cancel ht,
      fun r hr => get?_poll_of_returned fetcher ht hc hr⟩

end Service

end Excerpt
