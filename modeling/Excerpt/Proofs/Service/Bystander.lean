import Excerpt.Proofs.Service.RestrictedTurn

/-!
# A service without a bystander

A task that waits for the retrieval of another task takes no part in it, and a task that has ended
takes no part in anything. When such a task is gone its number stays in the list of waiters, where
it is passed over. So whatever another task does when it runs, and whatever comes from outside, is
the same with the bystander and without it, and a bystander remains one.
-/

namespace Excerpt

namespace Phase

/-- A task in such a phase has asked for its file and retrieves nothing. -/
def isBystander : Phase → Bool
  | started => false
  | retrieving _ => false
  | waiting _ => true
  | answered _ => true
  | completed _ => true
  | cancelled => true

theorem isBystander_answer (file : Option SharedSource) (phase : Phase) :
    (phase.answer file).isBystander = phase.isBystander := by cases phase <;> rfl

end Phase

namespace Service

/-- The service as it is when the task is gone and has left no trace but its number in lists of
waiters. -/
def without (s : Service) (n : Nat) : Service :=
  { s.setPhase n .cancelled with
    queue := s.queue.filter (· ≠ n)
    completed := s.completed.filter (· ≠ n) }

def Bystander (s : Service) (n : Nat) : Prop :=
  ∃ job phase, s.tasks[n]? = some ⟨job, phase⟩ ∧ phase.isBystander = true

variable {fetcher : Fetcher} {s t : Service} {n m call : Nat} {job : Job} {phase : Phase}

theorem Bystander.isBystander (h : s.Bystander n) (ht : s.tasks[n]? = some ⟨job, phase⟩) :
    phase.isBystander = true := by
  obtain ⟨job', phase', ht', hp⟩ := h
  obtain ⟨-, rfl⟩ := Task.mk.inj (Option.some.inj (ht.symm.trans ht'))
  exact hp

theorem Bystander.ne_of_task (h : s.Bystander n) (ht : s.tasks[m]? = some ⟨job, phase⟩)
    (hp : phase.isBystander = false) : m ≠ n := by
  rintro rfl
  rw [h.isBystander ht] at hp
  cases hp

theorem Bystander.lt (h : s.Bystander n) : n < s.tasks.length := by
  obtain ⟨job, phase, ht, -⟩ := h
  exact (List.getElem?_eq_some_iff.1 ht).1

theorem Bystander.congr (h : s.Bystander n) (ht : t.tasks[n]? = s.tasks[n]?) :
    t.Bystander n := by
  obtain ⟨job, phase, hs, hp⟩ := h
  exact ⟨job, phase, ht.trans hs, hp⟩

/-! ## What the others find -/

theorem task_without (s : Service) (hm : m ≠ n) : (s.without n).tasks[m]? = s.tasks[m]? :=
  task_setPhase_of_ne s _ hm

theorem task_without_self (ht : s.tasks[n]? = some ⟨job, phase⟩) :
    (s.without n).tasks[n]? = some ⟨job, .cancelled⟩ := task_setPhase_self ht _

theorem phase?_without (s : Service) (hm : m ≠ n) : (s.without n).phase? m = s.phase? m := by
  rw [phase?, task_without s hm]
  rfl

theorem phase?_without_self (s : Service) (n : Nat) :
    (s.without n).phase? n = (s.phase? n).map fun _ => .cancelled := by
  have hself : (s.without n).tasks[n]? = _ := task_setPhase s n .cancelled n
  rw [phase?, phase?, hself, if_pos rfl, Option.map_map, Option.map_map]
  rfl

/-! ## Phases, queue and outcomes -/

theorem tasks_setPhase_setPhase_self (s : Service) (n : Nat) (phase phase' : Phase) :
    ((s.setPhase n phase).setPhase n phase').tasks = (s.setPhase n phase').tasks :=
  List.modify_modify_eq _ _ _ _

theorem tasks_setPhase_setPhase (s : Service) (hm : m ≠ n) (phase phase' : Phase) :
    ((s.setPhase m phase).setPhase n phase').tasks =
      ((s.setPhase n phase').setPhase m phase).tasks := List.modify_modify_ne _ _ _ hm

theorem without_setPhase_self (s : Service) (n : Nat) (phase : Phase) :
    (s.setPhase n phase).without n = s.without n :=
  Service.ext (tasks_setPhase_setPhase_self s n phase _) rfl rfl rfl rfl

theorem without_setPhase (s : Service) (hm : m ≠ n) (phase : Phase) :
    (s.setPhase m phase).without n = (s.without n).setPhase m phase :=
  Service.ext (tasks_setPhase_setPhase s hm phase _) rfl rfl rfl rfl

theorem without_wake_self (s : Service) (n : Nat) : (s.wake n).without n = s.without n := by
  unfold wake
  split
  · rfl
  · refine Service.ext rfl rfl rfl ?_ rfl
    simp [without]

theorem without_wake (s : Service) (hm : m ≠ n) :
    (s.wake m).without n = (s.without n).wake m := by
  have hmem : m ∈ (s.without n).queue ↔ m ∈ s.queue := by simp [without, hm]
  unfold wake
  by_cases h : m ∈ s.queue
  · rw [if_pos h, if_pos (hmem.2 h)]
  · rw [if_neg h, if_neg (mt hmem.1 h)]
    refine Service.ext rfl rfl rfl ?_ rfl
    simp [without, hm]

theorem without_complete_self (s : Service) (n : Nat) (outcome : Outcome) :
    (s.complete n outcome).without n = s.without n := by
  refine Service.ext (tasks_setPhase_setPhase_self s n _ _) rfl rfl rfl ?_
  simp [without, complete]

theorem without_complete (s : Service) (hm : m ≠ n) (outcome : Outcome) :
    (s.complete m outcome).without n = (s.without n).complete m outcome := by
  refine Service.ext (tasks_setPhase_setPhase s hm _ _) rfl rfl rfl ?_
  simp [without, complete, hm]

/-! ## Answers to waiters -/

/-- Telling the task that is gone is telling nobody. -/
theorem without_answerWaiter (file : Option SharedSource) (s : Service) (m n : Nat) :
    (answerWaiter file s m).without n = answerWaiter file (s.without n) m := by
  unfold answerWaiter
  by_cases hm : m = n
  · subst hm
    rw [phase?_without_self]
    cases hp : s.phase? m with
    | none => rfl
    | some phase =>
      cases phase with
      | waiting call =>
        simp only [Option.map_some]
        rw [without_wake_self, without_setPhase_self]
      | _ => rfl
  · rw [phase?_without s hm]
    split
    · rw [without_wake _ hm, without_setPhase s hm]
    · rfl

theorem without_answerWaiters (s : Service) (waiters : List Nat) (file : Option SharedSource)
    (n : Nat) : (s.answerWaiters waiters file).without n =
      (s.without n).answerWaiters waiters file := by
  induction waiters generalizing s with
  | nil => rfl
  | cons m waiters ih =>
    rw [answerWaiters_cons, ih, without_answerWaiter, answerWaiters_cons]

/-! ## Another task runs -/

theorem without_join (s : Service) (hm : m ≠ n) (call : Nat) (identifier : String)
    (waiters : List Nat) : (s.join m call identifier waiters).without n =
      (s.without n).join m call identifier waiters :=
  Service.ext (tasks_setPhase_setPhase s hm _ _) rfl rfl rfl rfl

theorem without_openCall (s : Service) (hm : m ≠ n) (identifier : String)
    (retrieved : Option Retrieved) : (s.openCall m identifier retrieved).without n =
      (s.without n).openCall m identifier retrieved :=
  Service.ext (tasks_setPhase_setPhase s hm _ _) rfl rfl rfl rfl

theorem without_ask (fetcher : Fetcher) (s : Service) (hm : m ≠ n) (identifier : String) :
    (s.ask fetcher m identifier).without n = (s.without n).ask fetcher m identifier := by
  unfold ask
  cases fetcher identifier with
  | none => exact without_openCall s hm identifier none
  | some retrieved =>
    simp only
    rw [without_wake _ hm, without_openCall s hm]

theorem without_settle (s : Service) (hm : m ≠ n) (call : Nat) (identifier : String)
    (retrieved : Retrieved) : (s.settle m call identifier retrieved).without n =
      (s.without n).settle m call identifier retrieved := by
  unfold settle
  cases retrieved.outcome call identifier with
  | served file =>
    simp only
    rw [without_answerWaiters, without_complete _ hm]
    rfl
  | failed failure =>
    simp only
    rw [without_answerWaiters, without_complete _ hm]
    rfl

theorem Resumed.without (hr : Resumed fetcher s m t) (hm : m ≠ n) :
    Resumed fetcher (s.without n) m (t.without n) := by
  have htask {job : Job} {phase : Phase} (ht : s.tasks[m]? = some ⟨job, phase⟩) :
      (s.without n).tasks[m]? = some ⟨job, phase⟩ := (task_without s hm).trans ht
  cases hr with
  | idle h =>
    refine .idle fun task ht => ?_
    rw [task_without s hm] at ht
    exact h task ht
  | hit ht he =>
    rw [without_complete s hm]
    exact .hit (htask ht) he
  | join ht he =>
    rw [without_join s hm]
    exact .join (htask ht) he
  | ask ht he =>
    rw [without_ask fetcher s hm]
    exact .ask (htask ht) he
  | settle ht hc hr =>
    rw [without_settle s hm]
    exact .settle (htask ht) hc hr
  | take ht =>
    rw [without_complete s hm]
    exact .take (htask ht)

theorem without_queue_erase (s : Service) (m n : Nat) :
    ({ s with queue := s.queue.erase m } : Service).without n =
      { s.without n with queue := (s.without n).queue.erase m } := by
  refine Service.ext rfl rfl rfl ?_ rfl
  exact List.erase_filter.symm

theorem without_queue_erase_self (s : Service) (n : Nat) :
    ({ s with queue := s.queue.erase n } : Service).without n = s.without n := by
  have hn : n ∉ s.queue.filter (· ≠ n) := by simp
  rw [without_queue_erase]
  exact Service.ext rfl rfl rfl (List.erase_of_not_mem hn) rfl

theorem without_poll (fetcher : Fetcher) (s : Service) (hm : m ≠ n) :
    (s.poll fetcher m).without n = (s.without n).poll fetcher m := by
  have hr := (resumed_poll fetcher s m).without hm
  rw [without_queue_erase] at hr
  exact hr.eq_poll

/-! ## The bystander itself runs -/

/-- All that a bystander does is to take its answer. -/
theorem Resumed.without_self (hr : Resumed fetcher s n t) (h : s.Bystander n) :
    t.without n = s.without n := by
  cases hr with
  | idle => rfl
  | hit ht => exact absurd rfl (h.ne_of_task ht rfl)
  | join ht => exact absurd rfl (h.ne_of_task ht rfl)
  | ask ht => exact absurd rfl (h.ne_of_task ht rfl)
  | settle ht => exact absurd rfl (h.ne_of_task ht rfl)
  | take => exact without_complete_self s n _

theorem Bystander.without_poll_self (h : s.Bystander n) (fetcher : Fetcher) :
    (s.poll fetcher n).without n = s.without n := by
  have hn : ({ s with queue := s.queue.erase n } : Service).Bystander n := h
  rw [(resumed_poll fetcher s n).without_self hn, without_queue_erase_self]

theorem poll_without_self (h : s.Bystander n) (fetcher : Fetcher) :
    (s.without n).poll fetcher n = s.without n := by
  obtain ⟨job, phase, ht, -⟩ := h
  have hn : n ∉ (s.without n).queue := by simp [without]
  simp only [poll, task_without_self ht, resume]
  exact Service.ext rfl rfl rfl (List.erase_of_not_mem hn) rfl

/-! ## Events -/

theorem modify_append_of_lt {α : Type} {l : List α} (h : n < l.length) (f : α → α) (l' : List α) :
    (l ++ l').modify n f = l.modify n f ++ l' := by
  obtain ⟨before, after, hl, rfl⟩ := exists_append_of_getElem? (List.getElem?_eq_getElem h)
  rw [hl, List.append_assoc, List.cons_append, modify_append_length, modify_append_length,
    List.append_assoc, List.cons_append]

theorem without_start (h : s.Bystander n) (job : Job) :
    (s.start job).without n = (s.without n).start job := by
  have hlength : (s.without n).tasks.length = s.tasks.length := List.length_modify _ _ _
  have hne : s.tasks.length ≠ n := Nat.ne_of_gt h.lt
  have hqueue : ((s.start job).without n).queue = (s.without n).queue ++ [s.tasks.length] := by
    simp [start, List.filter_append, without, hne]
  refine Service.ext (modify_append_of_lt h.lt _ _) rfl rfl ?_ rfl
  rw [hqueue, ← hlength]
  rfl

theorem Bystander.start (h : s.Bystander n) (job : Job) : (s.start job).Bystander n :=
  h.congr (List.getElem?_append_left h.lt)

theorem without_apply_start (h : s.Bystander n) (jobs : List Job) :
    (s.apply (.start jobs)).without n = (s.without n).apply (.start jobs) := by
  change (jobs.foldl start s).without n = jobs.foldl start (s.without n)
  induction jobs generalizing s with
  | nil => rfl
  | cons job jobs ih => rw [List.foldl_cons, ih (h.start job), without_start h, List.foldl_cons]

theorem without_wakeRetriever (h : s.Bystander n) (call m : Nat) :
    (s.wakeRetriever call m).without n = (s.without n).wakeRetriever call m := by
  unfold wakeRetriever
  by_cases hm : m = n
  · subst hm
    have hne : s.phase? m ≠ some (.retrieving call) := by
      intro hp
      obtain ⟨job, ht⟩ := phase?_eq_some_iff.1 hp
      exact h.ne_of_task ht rfl rfl
    have hne' : (s.without m).phase? m ≠ some (.retrieving call) := by
      rw [phase?_without_self]
      cases s.phase? m <;> simp
    rw [if_neg hne, if_neg hne']
  · rw [phase?_without s hm]
    split
    · rw [without_wake s hm]
    · rfl

theorem without_finish (h : s.Bystander n) (call : Nat) (retrieved : Retrieved) :
    (s.finish call retrieved).without n = (s.without n).finish call retrieved := by
  have hcalls : (s.without n).calls = s.calls := rfl
  unfold finish
  rw [hcalls]
  cases s.calls[call]? with
  | none => rfl
  | some c =>
    simp only
    split
    · rfl
    · have hback : (s.giveBack call retrieved).Bystander n := h
      exact without_wakeRetriever hback call c.task

theorem without_cancel (s : Service) (hm : m ≠ n) :
    (s.cancel m).without n = (s.without n).cancel m := by
  have hset := without_setPhase s hm .cancelled
  unfold cancel
  rw [task_without s hm]
  cases s.tasks[m]? with
  | none => rfl
  | some task =>
    obtain ⟨job, phase⟩ := task
    cases phase with
    | retrieving call =>
      simp only
      rw [without_answerWaiters, without_setPhase _ hm]
      rfl
    | completed outcome => rfl
    | cancelled => rfl
    | started => exact hset
    | waiting call => exact hset
    | answered file => exact hset

/-- Of the cancellation of a bystander nothing is seen. -/
theorem Bystander.without_cancel_self (h : s.Bystander n) :
    (s.cancel n).without n = s.without n := by
  obtain ⟨job, phase, ht, hp⟩ := h
  simp only [cancel, ht]
  cases phase with
  | started => cases hp
  | retrieving call => cases hp
  | completed outcome => rfl
  | cancelled => rfl
  | waiting call => exact without_setPhase_self s n _
  | answered file => exact without_setPhase_self s n _

theorem cancel_without_self (h : s.Bystander n) : (s.without n).cancel n = s.without n := by
  obtain ⟨job, phase, ht, -⟩ := h
  simp only [cancel, task_without_self ht]

theorem without_apply (h : s.Bystander n) (event : Event) :
    (s.apply event).without n = (s.without n).apply event := by
  cases event with
  | start jobs => exact without_apply_start h jobs
  | finish call retrieved => exact without_finish h call retrieved
  | cancel m =>
    change (s.cancel m).without n = (s.without n).cancel m
    by_cases hm : m = n
    · subst hm
      rw [h.without_cancel_self, cancel_without_self h]
    · exact without_cancel s hm

/-! ## A bystander remains one -/

theorem Bystander.closes {file : Option SharedSource} (h : s.Bystander n)
    (hc : Closes s t m job phase file) (hm : m ≠ n) : t.Bystander n := by
  obtain ⟨job', phase', ht, hp⟩ := h
  by_cases hw : n ∈ s.waiters job.identifier
  · refine ⟨job', phase'.answer file, ?_, (Phase.isBystander_answer file phase').trans hp⟩
    rw [hc.other n (Ne.symm hm), if_pos hw, ht]
    rfl
  · exact ⟨job', phase', (hc.task_of_not_mem (Ne.symm hm) hw).trans ht, hp⟩

theorem Bystander.setPhase (h : s.Bystander n) (hm : m ≠ n) (phase : Phase) :
    (s.setPhase m phase).Bystander n := h.congr (task_setPhase_of_ne s phase (Ne.symm hm))

theorem Bystander.resumed (h : s.Bystander n) (hr : Resumed fetcher s m t) : t.Bystander n := by
  cases hr with
  | idle => exact h
  | hit ht => exact h.setPhase (h.ne_of_task ht rfl) _
  | join ht => exact h.setPhase (h.ne_of_task ht rfl) _
  | ask ht =>
    have hn := h.setPhase (h.ne_of_task ht rfl) (.retrieving s.calls.length)
    exact hn.congr (by rw [tasks_ask])
  | settle ht => exact h.closes (closes_settle _ ht) (h.ne_of_task ht rfl)
  | take ht =>
    by_cases hm : m = n
    · subst hm
      exact ⟨_, _, task_setPhase_self ht _, rfl⟩
    · exact h.setPhase hm _

theorem Bystander.poll (h : s.Bystander n) (fetcher : Fetcher) (m : Nat) :
    (s.poll fetcher m).Bystander n := by
  have hn : ({ s with queue := s.queue.erase m } : Service).Bystander n := h
  exact hn.resumed (resumed_poll fetcher s m)

theorem Bystander.cancel (h : s.Bystander n) (m : Nat) : (s.cancel m).Bystander n := by
  rcases cancel_cases s m with he | ⟨job, phase, ht, -, -, he⟩ | ⟨job, call, ht, hc⟩
  · rwa [he]
  · rw [he]
    by_cases hm : m = n
    · subst hm
      exact ⟨_, _, task_setPhase_self ht _, rfl⟩
    · exact h.setPhase hm _
  · exact h.closes hc (h.ne_of_task ht rfl)

theorem Bystander.apply (h : s.Bystander n) (event : Event) : (s.apply event).Bystander n := by
  cases event with
  | start jobs =>
    change (jobs.foldl Service.start s).Bystander n
    induction jobs generalizing s with
    | nil => exact h
    | cons job jobs ih => exact ih (h.start job)
  | finish call retrieved =>
    change (s.finish call retrieved).Bystander n
    rcases finish_eq_self_or s call retrieved with he | ⟨c, -, -, he⟩
    · rwa [he]
    · refine h.congr ?_
      rw [he, tasks_wakeRetriever]
  | cancel m => exact h.cancel m

theorem Bystander.act (h : s.Bystander n) (fetcher : Fetcher) (action : Action) :
    (act fetcher s action).Bystander n := by
  cases action with
  | event event => exact h.apply event
  | poll m => exact h.poll fetcher m

end Service

end Excerpt
