import Excerpt.Proofs.Service.Resuming
import Mathlib.Data.List.Nodup

/-!
# Who has completed

The service lists the tasks that completed, in that order. In every interleaving the tasks listed
are those that have an outcome. A task is put at the end of the list when it takes its outcome,
and nothing that comes from outside changes the list.
-/

namespace Excerpt

namespace Service

variable {fetcher : Fetcher} {s t : Service} {n m call : Nat} {job : Job} {phase phase₀ : Phase}
  {file : Option SharedSource}

/-- Whether a task has an outcome. -/
def Done (s : Service) (n : Nat) : Prop :=
  ∃ job outcome, s.tasks[n]? = some ⟨job, .completed outcome⟩

theorem Done.not_live (h : s.Done n) (ht : s.tasks[n]? = some ⟨job, phase⟩) :
    phase.isLive = false := by
  obtain ⟨job', outcome, hd⟩ := h
  obtain ⟨-, rfl⟩ := Task.mk.inj (Option.some.inj (ht.symm.trans hd))
  rfl

theorem done_congr (h : t.tasks[n]? = s.tasks[n]?) : t.Done n ↔ s.Done n := by
  unfold Done
  rw [h]

theorem done_self_iff (h : t.tasks[n]? = some ⟨job, phase⟩) :
    t.Done n ↔ ∃ outcome, phase = .completed outcome := by
  constructor
  · rintro ⟨job', outcome, hd⟩
    exact ⟨outcome, (Task.mk.inj (Option.some.inj (h.symm.trans hd))).2⟩
  · rintro ⟨outcome, rfl⟩
    exact ⟨job, outcome, h⟩

/-- A live task that moves on is the only one that can get an outcome by it. -/
theorem done_move (ht : s.tasks[n]? = some ⟨job, phase₀⟩) (hl : phase₀.isLive = true)
    (htasks : t.tasks = (s.setPhase n phase).tasks) (m : Nat) :
    t.Done m ↔ s.Done m ∨ m = n ∧ ∃ outcome, phase = .completed outcome := by
  by_cases hm : m = n
  · subst hm
    have hself : t.tasks[m]? = some ⟨job, phase⟩ := by
      rw [htasks]
      exact task_setPhase_self ht phase
    have hn : ¬ s.Done m := fun hd => Bool.noConfusion (hl.symm.trans (hd.not_live ht))
    rw [done_self_iff hself, or_iff_right hn]
    simp
  · have hsame : t.tasks[m]? = s.tasks[m]? := by
      rw [htasks]
      exact task_setPhase_of_ne s phase hm
    rw [done_congr hsame]
    simp [hm]

theorem done_complete (ht : s.tasks[n]? = some ⟨job, phase₀⟩) (hl : phase₀.isLive = true)
    (outcome : Outcome) (m : Nat) : (s.complete n outcome).Done m ↔ s.Done m ∨ m = n := by
  rw [done_move ht hl (tasks_complete s n outcome)]
  simp

theorem done_move_iff (ht : s.tasks[n]? = some ⟨job, phase₀⟩) (hl : phase₀.isLive = true)
    (htasks : t.tasks = (s.setPhase n phase).tasks) (hp : ∀ outcome, phase ≠ .completed outcome)
    (m : Nat) : t.Done m ↔ s.Done m := by
  rw [done_move ht hl htasks]
  simp [hp]

theorem Closes.done_iff (hc : Closes s t n job phase file)
    (ht : s.tasks[n]? = some ⟨job, .retrieving call⟩) (m : Nat) :
    t.Done m ↔ s.Done m ∨ m = n ∧ ∃ outcome, phase = .completed outcome := by
  by_cases hm : m = n
  · subst hm
    have hn : ¬ s.Done m := fun hd => by cases hd.not_live ht
    rw [done_self_iff hc.self, or_iff_right hn]
    simp
  · have hdone : t.Done m ↔ s.Done m := by
      constructor
      · rintro ⟨job', outcome, hd⟩
        rcases hc.task_eq_or hm hd with ⟨hs, -⟩ | ⟨-, -, hp⟩
        · exact ⟨job', outcome, hs⟩
        · cases hp
      · rintro ⟨job', outcome, hd⟩
        exact ⟨job', outcome, hc.task_of_not_waiting hm hd (by simp)⟩
    rw [hdone]
    simp [hm]

/-! ## The list -/

@[simp] theorem completed_setPhase (s : Service) (n : Nat) (phase : Phase) :
    (s.setPhase n phase).completed = s.completed := rfl

@[simp] theorem completed_wake (s : Service) (n : Nat) : (s.wake n).completed = s.completed := by
  unfold wake
  split <;> rfl

@[simp] theorem completed_wakeRetriever (s : Service) (call n : Nat) :
    (s.wakeRetriever call n).completed = s.completed := by
  unfold wakeRetriever
  split <;> simp

@[simp] theorem completed_answerWaiter (file : Option SharedSource) (s : Service) (n : Nat) :
    (answerWaiter file s n).completed = s.completed := by
  unfold answerWaiter
  split <;> simp

@[simp] theorem completed_answerWaiters (s : Service) (waiters : List Nat)
    (file : Option SharedSource) : (s.answerWaiters waiters file).completed = s.completed := by
  induction waiters generalizing s with
  | nil => rfl
  | cons n waiters ih => rw [answerWaiters_cons, ih, completed_answerWaiter]

theorem completed_ask (fetcher : Fetcher) (s : Service) (n : Nat) (identifier : String) :
    (s.ask fetcher n identifier).completed = s.completed := by
  unfold ask
  split
  · rw [completed_wake]
    rfl
  · rfl

theorem completed_settle (s : Service) (n call : Nat) (identifier : String)
    (retrieved : Retrieved) :
    (s.settle n call identifier retrieved).completed = s.completed ++ [n] := by
  unfold settle
  cases retrieved.outcome call identifier <;> simp [complete, keep, forget]

theorem completed_cancel (s : Service) (n : Nat) : (s.cancel n).completed = s.completed := by
  unfold cancel
  split
  · split <;> simp [forget]
  · rfl

theorem completed_apply (s : Service) (event : Event) :
    (s.apply event).completed = s.completed := by
  cases event with
  | start jobs => rw [apply_start_eq]
  | finish call retrieved =>
    change (s.finish call retrieved).completed = _
    rcases finish_eq_self_or s call retrieved with he | ⟨c, -, -, he⟩ <;> simp [he]
  | cancel n => exact completed_cancel s n

/-! ## Who is listed -/

/-- A task that runs is put at the end of the list if that gives it an outcome. -/
theorem Resumed.completed_eq_or (hr : Resumed fetcher s n t) :
    (t.completed = s.completed ∧ ∀ m, t.Done m ↔ s.Done m) ∨
    (t.completed = s.completed ++ [n] ∧ (∀ m, t.Done m ↔ s.Done m ∨ m = n) ∧
      ∃ job phase, s.tasks[n]? = some ⟨job, phase⟩ ∧ phase.isLive = true) := by
  cases hr with
  | idle => exact Or.inl ⟨rfl, fun _ => Iff.rfl⟩
  | hit ht => exact Or.inr ⟨rfl, done_complete ht rfl _, _, _, ht, rfl⟩
  | join ht => exact Or.inl ⟨rfl, done_move_iff ht rfl rfl (by simp)⟩
  | ask ht =>
    exact Or.inl ⟨completed_ask _ _ _ _, done_move_iff ht rfl (tasks_ask _ _ _ _) (by simp)⟩
  | settle ht =>
    refine Or.inr ⟨completed_settle _ _ _ _ _, fun m => ?_, _, _, ht, rfl⟩
    rw [(closes_settle _ ht).done_iff ht]
    simp
  | take ht => exact Or.inr ⟨rfl, done_complete ht rfl _, _, _, ht, rfl⟩

theorem done_apply (s : Service) (event : Event) (m : Nat) :
    (s.apply event).Done m ↔ s.Done m := by
  cases event with
  | start jobs =>
    rw [apply_start_eq]
    constructor
    · rintro ⟨job, outcome, hd⟩
      change (s.tasks ++ _)[m]? = _ at hd
      rw [List.getElem?_append] at hd
      split at hd
      · exact ⟨job, outcome, hd⟩
      · simp at hd
    · rintro ⟨job, outcome, hd⟩
      refine ⟨job, outcome, ?_⟩
      change (s.tasks ++ _)[m]? = _
      rw [List.getElem?_append_left (List.getElem?_eq_some_iff.1 hd).1, hd]
  | finish call retrieved =>
    refine done_congr ?_
    change (s.finish call retrieved).tasks[m]? = _
    rcases finish_eq_self_or s call retrieved with he | ⟨c, -, -, he⟩ <;> simp [he]
  | cancel n =>
    change (s.cancel n).Done m ↔ _
    rcases cancel_cases s n with he | ⟨job, phase, ht, hl, -, he⟩ | ⟨job, call, ht, hc⟩
    · rw [he]
    · rw [he]
      exact done_move_iff ht hl rfl (by simp) m
    · rw [hc.done_iff ht]
      simp

theorem mem_completed_act (fetcher : Fetcher) (action : Action)
    (h : ∀ n, n ∈ s.completed ↔ s.Done n) (n : Nat) :
    n ∈ (act fetcher s action).completed ↔ (act fetcher s action).Done n := by
  cases action with
  | event event =>
    change n ∈ (s.apply event).completed ↔ (s.apply event).Done n
    rw [completed_apply, done_apply, h]
  | poll m =>
    change n ∈ (s.poll fetcher m).completed ↔ (s.poll fetcher m).Done n
    have hn : n ∈ s.completed ↔ Done { s with queue := s.queue.erase m } n := h n
    rcases (resumed_poll fetcher s m).completed_eq_or with ⟨hc, hd⟩ | ⟨hc, hd, -⟩
    · rw [hc, hd, ← hn]
    · rw [hc, hd, ← hn, List.mem_append, List.mem_singleton]

/-- Nobody completes twice. -/
theorem nodup_completed_interleave (fetcher : Fetcher) (actions : List Action) :
    (interleave fetcher actions).completed.Nodup := by
  refine (actions_induction fetcher
    (p := fun s => (∀ n, n ∈ s.completed ↔ s.Done n) ∧ s.completed.Nodup)
    (fun s action h => ⟨mem_completed_act fetcher action h.1, ?_⟩) actions
    ⟨fun n => by simp [empty, Done], List.nodup_nil⟩).2
  obtain ⟨hd, hn⟩ := h
  cases action with
  | event event =>
    change (s.apply event).completed.Nodup
    rwa [completed_apply]
  | poll n =>
    change (s.poll fetcher n).completed.Nodup
    rcases (resumed_poll fetcher s n).completed_eq_or with ⟨hc, -⟩ | ⟨hc, -, job, phase, ht, hl⟩
    · rwa [hc]
    · have hmem : n ∉ s.completed := by
        intro hm
        rw [((hd n).1 hm).not_live ht] at hl
        cases hl
      rw [hc]
      exact List.nodup_append_comm.1 (List.nodup_cons.2 ⟨hmem, hn⟩)

theorem nodup_completed_run (fetcher : Fetcher) (events : List Event) :
    (run fetcher events).completed.Nodup := by
  obtain ⟨actions, h⟩ := run_eq_interleave fetcher events
  rw [h]
  exact nodup_completed_interleave fetcher actions

end Service

end Excerpt
