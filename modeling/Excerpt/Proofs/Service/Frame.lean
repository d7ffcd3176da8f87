import Excerpt.Proofs.Service.Interleaving
import Mathlib.Data.List.Basic

/-!
# What the operations of the file service change

Every operation is described by what becomes of each task, of each table entry, of the
calls and of the queue. The end of a retrieval, whether it returned or was cancelled, has
one description for both.
-/

namespace Excerpt

namespace Phase

/-- What becomes of a task when the retrieval that it waits for is over. -/
def answer (file : Option SharedSource) : Phase → Phase
  | .waiting _ => .answered file
  | phase => phase

@[simp] theorem answer_answer (file : Option SharedSource) (phase : Phase) :
    (phase.answer file).answer file = phase.answer file := by cases phase <;> rfl

end Phase

namespace Task

def answer (file : Option SharedSource) (task : Task) : Task :=
  ⟨task.job, task.phase.answer file⟩

@[simp] theorem answer_answer (file : Option SharedSource) (task : Task) :
    (task.answer file).answer file = task.answer file := by simp [answer]

end Task

namespace Outcome

def file? : Outcome → Option SharedSource
  | .served file => some file
  | .failed _ => none

end Outcome

namespace Service

variable {s t : Service} {n m : Nat} {job : Job} {phase : Phase}

theorem phase?_eq_some_iff :
    s.phase? n = some phase ↔ ∃ job, s.tasks[n]? = some ⟨job, phase⟩ := by
  unfold phase?
  constructor
  · intro h
    obtain ⟨task, ht, hp⟩ := Option.map_eq_some_iff.1 h
    exact ⟨task.job, by rw [ht, ← hp]⟩
  · rintro ⟨job, ht⟩
    simp [ht]

theorem phase?_of_task (h : s.tasks[n]? = some ⟨job, phase⟩) : s.phase? n = some phase :=
  phase?_eq_some_iff.2 ⟨job, h⟩

theorem getElem?_snoc_of_eq_some {α : Type} {l : List α} {i : Nat} {x : α} (y : α)
    (h : l[i]? = some x) : (l ++ [y])[i]? = some x := by
  rw [List.getElem?_append_left (List.getElem?_eq_some_iff.1 h).1, h]

theorem getElem?_snoc_eq_some {α : Type} {l : List α} {i : Nat} {x y : α}
    (h : (l ++ [y])[i]? = some x) : l[i]? = some x ∨ i = l.length ∧ x = y := by
  rw [List.getElem?_append] at h
  split at h
  · exact Or.inl h
  · cases hd : i - l.length with
    | zero =>
      simp only [hd, List.getElem?_cons_zero, Option.some.injEq] at h
      exact Or.inr ⟨by omega, h.symm⟩
    | succ j => simp [hd] at h

/-! ## Phases and the queue -/

theorem task_setPhase (s : Service) (n : Nat) (phase : Phase) (m : Nat) :
    (s.setPhase n phase).tasks[m]? =
      if n = m then (s.tasks[m]?).map fun task => ⟨task.job, phase⟩ else s.tasks[m]? := by
  by_cases h : n = m <;> simp [setPhase, h]

theorem task_setPhase_of_ne (s : Service) (phase : Phase) (h : m ≠ n) :
    (s.setPhase n phase).tasks[m]? = s.tasks[m]? := by
  rw [task_setPhase, if_neg (Ne.symm h)]

theorem task_setPhase_self {phase₀ : Phase} (h : s.tasks[n]? = some ⟨job, phase₀⟩)
    (phase : Phase) : (s.setPhase n phase).tasks[n]? = some ⟨job, phase⟩ := by
  simp [task_setPhase, h]

@[simp] theorem table_setPhase (s : Service) (n : Nat) (phase : Phase) :
    (s.setPhase n phase).table = s.table := rfl

@[simp] theorem calls_setPhase (s : Service) (n : Nat) (phase : Phase) :
    (s.setPhase n phase).calls = s.calls := rfl

@[simp] theorem tasks_wake (s : Service) (n : Nat) : (s.wake n).tasks = s.tasks := by
  unfold wake
  split <;> rfl

@[simp] theorem table_wake (s : Service) (n : Nat) : (s.wake n).table = s.table := by
  unfold wake
  split <;> rfl

@[simp] theorem calls_wake (s : Service) (n : Nat) : (s.wake n).calls = s.calls := by
  unfold wake
  split <;> rfl

@[simp] theorem mem_queue_wake (s : Service) (n m : Nat) :
    m ∈ (s.wake n).queue ↔ m ∈ s.queue ∨ m = n := by
  unfold wake
  split
  · next h =>
    constructor
    · exact Or.inl
    · rintro (hm | rfl)
      · exact hm
      · exact h
  · simp

theorem mem_queue_wakeRetriever (s : Service) (call n m : Nat) :
    m ∈ (s.wakeRetriever call n).queue ↔
      m ∈ s.queue ∨ m = n ∧ s.phase? n = some (.retrieving call) := by
  unfold wakeRetriever
  split
  · next h => simp [h]
  · next h => simp [h]

@[simp] theorem tasks_wakeRetriever (s : Service) (call n : Nat) :
    (s.wakeRetriever call n).tasks = s.tasks := by
  unfold wakeRetriever
  split <;> simp

@[simp] theorem table_wakeRetriever (s : Service) (call n : Nat) :
    (s.wakeRetriever call n).table = s.table := by
  unfold wakeRetriever
  split <;> simp

@[simp] theorem calls_wakeRetriever (s : Service) (call n : Nat) :
    (s.wakeRetriever call n).calls = s.calls := by
  unfold wakeRetriever
  split <;> simp

theorem apply_start_eq (jobs : List Job) (s : Service) : s.apply (.start jobs) =
    { s with
      tasks := s.tasks ++ jobs.map fun job => ⟨job, .started⟩
      queue := s.queue ++ List.range' s.tasks.length jobs.length } := by
  change jobs.foldl start s = _
  induction jobs generalizing s with
  | nil => simp
  | cons job jobs ih =>
    rw [List.foldl_cons, ih]
    simp [start, List.range'_succ]

/-- After jobs were started, a task was there before or is that of one of them. -/
theorem task_append_started {tasks : List Task} {jobs : List Job}
    (h : (tasks ++ jobs.map fun job => (⟨job, .started⟩ : Task))[n]? = some ⟨job, phase⟩) :
    tasks[n]? = some ⟨job, phase⟩ ∨
      tasks.length ≤ n ∧ n < tasks.length + jobs.length ∧ phase = .started := by
  have hlt := (List.getElem?_eq_some_iff.1 h).1
  rw [List.length_append, List.length_map] at hlt
  rw [List.getElem?_append] at h
  split at h
  · exact Or.inl h
  · rw [List.getElem?_map] at h
    obtain ⟨job', -, he⟩ := Option.map_eq_some_iff.1 h
    exact Or.inr ⟨by omega, hlt, (Task.mk.inj he).2.symm⟩

theorem finish_of_open {call : Nat} {c : Call} (retrieved : Retrieved)
    (hc : s.calls[call]? = some c) (hopen : c.retrieved = none) :
    s.finish call retrieved = ({ s with
      calls := s.calls.set call { c with retrieved := some retrieved } } : Service).wakeRetriever
        call c.task := by
  simp only [finish, hc, hopen, Option.isSome_none, Bool.false_eq_true, if_false]
  rw [List.modify_eq_set_getElem?, hc]
  rfl

/-- A call that is not open is not finished again. -/
theorem finish_eq_self_or (s : Service) (call : Nat) (retrieved : Retrieved) :
    s.finish call retrieved = s ∨ ∃ c, s.calls[call]? = some c ∧ c.retrieved = none ∧
      s.finish call retrieved = ({ s with
        calls := s.calls.set call { c with retrieved := some retrieved } } : Service).wakeRetriever
          call c.task := by
  cases hc : s.calls[call]? with
  | none => exact Or.inl (by simp [finish, hc])
  | some c =>
    cases hr : c.retrieved with
    | none => exact Or.inr ⟨c, rfl, hr, finish_of_open retrieved hc hr⟩
    | some r => exact Or.inl (by simp [finish, hc, hr])

theorem getElem?_set_eq_some {α : Type} {l : List α} {i j : Nat} {x y : α}
    (h : (l.set i x)[j]? = some y) : l[j]? = some y ∨ j = i ∧ y = x := by
  by_cases hj : i = j
  · subst hj
    rw [List.getElem?_set, if_pos rfl] at h
    split_ifs at h
    exact Or.inr ⟨rfl, (Option.some.inj h).symm⟩
  · exact Or.inl (by rwa [List.getElem?_set_ne hj] at h)

/-! ## A call is opened -/

theorem tasks_ask (fetcher : Fetcher) (s : Service) (n : Nat) (identifier : String) :
    (s.ask fetcher n identifier).tasks = (s.setPhase n (.retrieving s.calls.length)).tasks := by
  unfold ask
  split
  · rw [tasks_wake]
    rfl
  · rfl

theorem calls_ask (fetcher : Fetcher) (s : Service) (n : Nat) (identifier : String) :
    (s.ask fetcher n identifier).calls = s.calls ++ [⟨identifier, n, fetcher identifier⟩] := by
  unfold ask
  split
  · next retrieved h =>
    rw [calls_wake, h]
    rfl
  · next h =>
    rw [h]
    rfl

theorem get?_ask (fetcher : Fetcher) (s : Service) (n : Nat) (identifier key : String) :
    (s.ask fetcher n identifier).table.get? key =
      if identifier = key then some (.pending s.calls.length []) else s.table.get? key := by
  unfold ask
  split
  · rw [table_wake]
    exact Keyed.get?_put _ _ _ _
  · exact Keyed.get?_put _ _ _ _

theorem mem_queue_ask (fetcher : Fetcher) (s : Service) (n : Nat) (identifier : String)
    (m : Nat) : m ∈ (s.ask fetcher n identifier).queue ↔
      m ∈ s.queue ∨ m = n ∧ ∃ retrieved, fetcher identifier = some retrieved := by
  unfold ask
  split
  · next retrieved h =>
    rw [mem_queue_wake]
    simp [openCall, h]
  · next h => simp [openCall, h]

theorem queue_ask (fetcher : Fetcher) (s : Service) (n : Nat) (identifier : String) :
    (s.ask fetcher n identifier).queue = s.queue ∨
      (s.ask fetcher n identifier).queue = s.queue ++ [n] := by
  unfold ask
  split
  · unfold wake
    split
    · exact Or.inl rfl
    · exact Or.inr rfl
  · exact Or.inl rfl

theorem get?_join (s : Service) (n call : Nat) (identifier : String) (waiters : List Nat)
    (key : String) : (s.join n call identifier waiters).table.get? key =
      if identifier = key then some (.pending call (waiters ++ [n])) else s.table.get? key :=
  Keyed.get?_put _ _ _ _

/-! ## Answers to waiters -/

theorem task_answerWaiter (file : Option SharedSource) (s : Service) (n m : Nat) :
    (answerWaiter file s n).tasks[m]? =
      if n = m then (s.tasks[m]?).map (Task.answer file) else s.tasks[m]? := by
  unfold answerWaiter
  split
  · next call hp =>
    obtain ⟨job, ht⟩ := phase?_eq_some_iff.1 hp
    rw [tasks_wake, task_setPhase]
    by_cases h : n = m
    · subst h
      simp [ht, Task.answer, Phase.answer]
    · simp [h]
  · next hp =>
    by_cases h : n = m
    · subst h
      cases ht : s.tasks[n]? with
      | none => simp
      | some task =>
        obtain ⟨job, phase⟩ := task
        have hne : ∀ call, phase ≠ .waiting call := by
          rintro call rfl
          exact hp call (phase?_of_task ht)
        cases phase <;> simp_all [Task.answer, Phase.answer]
    · simp [h]

theorem mem_queue_answerWaiter (file : Option SharedSource) (s : Service) (n m : Nat) :
    m ∈ (answerWaiter file s n).queue ↔
      m ∈ s.queue ∨ m = n ∧ ∃ call, s.phase? m = some (.waiting call) := by
  unfold answerWaiter
  split
  · next call hp =>
    rw [mem_queue_wake, queue_setPhase]
    constructor
    · rintro (hm | rfl)
      · exact Or.inl hm
      · exact Or.inr ⟨rfl, call, hp⟩
    · rintro (hm | ⟨rfl, -⟩)
      · exact Or.inl hm
      · exact Or.inr rfl
  · next hp =>
    constructor
    · exact Or.inl
    · rintro (hm | ⟨rfl, call, hc⟩)
      · exact hm
      · exact absurd hc (hp call)

@[simp] theorem table_answerWaiter (file : Option SharedSource) (s : Service) (n : Nat) :
    (answerWaiter file s n).table = s.table := by
  unfold answerWaiter
  split <;> simp

@[simp] theorem calls_answerWaiter (file : Option SharedSource) (s : Service) (n : Nat) :
    (answerWaiter file s n).calls = s.calls := by
  unfold answerWaiter
  split <;> simp

theorem answerWaiters_cons (s : Service) (n : Nat) (waiters : List Nat)
    (file : Option SharedSource) :
    s.answerWaiters (n :: waiters) file = (answerWaiter file s n).answerWaiters waiters file := rfl

@[simp] theorem table_answerWaiters (s : Service) (waiters : List Nat)
    (file : Option SharedSource) : (s.answerWaiters waiters file).table = s.table := by
  induction waiters generalizing s with
  | nil => rfl
  | cons n waiters ih => rw [answerWaiters_cons, ih, table_answerWaiter]

@[simp] theorem calls_answerWaiters (s : Service) (waiters : List Nat)
    (file : Option SharedSource) : (s.answerWaiters waiters file).calls = s.calls := by
  induction waiters generalizing s with
  | nil => rfl
  | cons n waiters ih => rw [answerWaiters_cons, ih, calls_answerWaiter]

theorem task_answerWaiters (s : Service) (waiters : List Nat) (file : Option SharedSource)
    (m : Nat) : (s.answerWaiters waiters file).tasks[m]? =
      if m ∈ waiters then (s.tasks[m]?).map (Task.answer file) else s.tasks[m]? := by
  induction waiters generalizing s with
  | nil => rfl
  | cons n waiters ih =>
    rw [answerWaiters_cons, ih, task_answerWaiter]
    by_cases hn : n = m
    · subst hn
      by_cases hm : n ∈ waiters <;> simp [hm, Function.comp_def]
    · simp [hn, Ne.symm hn]

theorem mem_queue_answerWaiters (s : Service) (waiters : List Nat)
    (file : Option SharedSource) (m : Nat) :
    m ∈ (s.answerWaiters waiters file).queue ↔
      m ∈ s.queue ∨ m ∈ waiters ∧ ∃ call, s.phase? m = some (.waiting call) := by
  induction waiters generalizing s with
  | nil => simp [answerWaiters]
  | cons n waiters ih =>
    have hp (hn : m ≠ n) : (answerWaiter file s n).phase? m = s.phase? m := by
      unfold phase?
      rw [task_answerWaiter, if_neg (Ne.symm hn)]
    rw [answerWaiters_cons, ih, mem_queue_answerWaiter, List.mem_cons]
    by_cases hn : m = n
    · subst hn
      have hw (call : Nat) : (answerWaiter file s m).phase? m ≠ some (.waiting call) := by
        unfold phase?
        rw [task_answerWaiter, if_pos rfl]
        cases s.tasks[m]? with
        | none => simp
        | some task => cases hph : task.phase <;> simp [Task.answer, Phase.answer, hph]
      simp [hw]
    · simp [hn, hp hn]

/-! ## The end of a retrieval -/

/-- A task ends its retrieval, with a file or without, and the waiters are told. -/
structure Closes (s s' : Service) (n : Nat) (job : Job) (phase : Phase)
    (file : Option SharedSource) : Prop where
  self : s'.tasks[n]? = some ⟨job, phase⟩
  other : ∀ m, m ≠ n → s'.tasks[m]? =
    if m ∈ s.waiters job.identifier then (s.tasks[m]?).map (Task.answer file) else s.tasks[m]?
  table : ∀ key, s'.table.get? key =
    if job.identifier = key then file.map .completed else s.table.get? key
  calls : s'.calls = s.calls
  queue : ∀ m, m ∈ s'.queue ↔ m ∈ s.queue ∨
    m ∈ s.waiters job.identifier ∧ ∃ call, s.phase? m = some (.waiting call)

theorem Closes.task_of_not_waiting {file : Option SharedSource} {m : Nat} {job' : Job}
    {phase' : Phase} (hc : Closes s t n job phase file) (hm : m ≠ n)
    (h : s.tasks[m]? = some ⟨job', phase'⟩) (hw : ∀ call, phase' ≠ .waiting call) :
    t.tasks[m]? = some ⟨job', phase'⟩ := by
  have ha : phase'.answer file = phase' := by
    cases phase' with
    | waiting call => exact absurd rfl (hw call)
    | _ => rfl
  rw [hc.other m hm, h]
  split <;> simp [Task.answer, ha]

theorem Closes.task_of_not_mem {file : Option SharedSource} {m : Nat}
    (hc : Closes s t n job phase file) (hm : m ≠ n) (h : m ∉ s.waiters job.identifier) :
    t.tasks[m]? = s.tasks[m]? := by rw [hc.other m hm, if_neg h]

theorem Closes.task_of_waiting {file : Option SharedSource} {m call : Nat} {job' : Job}
    (hc : Closes s t n job phase file) (hm : m ≠ n) (h : m ∈ s.waiters job.identifier)
    (ht : s.tasks[m]? = some ⟨job', .waiting call⟩) :
    t.tasks[m]? = some ⟨job', .answered file⟩ := by
  rw [hc.other m hm, if_pos h, ht]
  rfl

/-- Who was not told is where it was, and does not wait for the retrieval that ended. -/
theorem Closes.task_eq_or {file : Option SharedSource} {m : Nat} {job' : Job} {phase' : Phase}
    (hc : Closes s t n job phase file) (hm : m ≠ n) (h : t.tasks[m]? = some ⟨job', phase'⟩) :
    (s.tasks[m]? = some ⟨job', phase'⟩ ∧
      ¬ (m ∈ s.waiters job.identifier ∧ ∃ call, phase' = .waiting call)) ∨
    m ∈ s.waiters job.identifier ∧ (∃ call, s.tasks[m]? = some ⟨job', .waiting call⟩) ∧
      phase' = .answered file := by
  by_cases hw : m ∈ s.waiters job.identifier
  · rw [hc.other m hm, if_pos hw] at h
    obtain ⟨⟨job'', phase''⟩, hs, ha⟩ := Option.map_eq_some_iff.1 h
    obtain ⟨rfl, rfl⟩ := Task.mk.inj ha
    cases phase'' with
    | waiting call => exact Or.inr ⟨hw, ⟨call, hs⟩, rfl⟩
    | _ => exact Or.inl ⟨hs, fun ⟨_, _, hp⟩ => by cases hp⟩
  · rw [hc.task_of_not_mem hm hw] at h
    exact Or.inl ⟨h, fun hw' => hw hw'.1⟩

theorem closes_answerWaiters {call : Nat} {file : Option SharedSource}
    (h : s.tasks[n]? = some ⟨job, .retrieving call⟩) (hphase : phase.answer file = phase)
    (hphase' : ∀ call, phase ≠ .waiting call)
    (htasks : t.tasks = (s.setPhase n phase).tasks) (hqueue : t.queue = s.queue)
    (hcalls : t.calls = s.calls)
    (htable : ∀ key, t.table.get? key =
      if job.identifier = key then file.map .completed else s.table.get? key) :
    Closes s (t.answerWaiters (s.waiters job.identifier) file) n job phase file where
  self := by
    rw [task_answerWaiters, htasks, task_setPhase_self h]
    simp [Task.answer, hphase]
  other m hm := by rw [task_answerWaiters, htasks, task_setPhase_of_ne s phase hm]
  table key := by rw [table_answerWaiters, htable]
  calls := by rw [calls_answerWaiters, hcalls]
  queue m := by
    have hp : (∃ call, t.phase? m = some (.waiting call)) ↔
        ∃ call, s.phase? m = some (.waiting call) := by
      unfold phase?
      rw [htasks]
      by_cases hm : m = n
      · subst hm
        simp [task_setPhase_self h, h, hphase']
      · rw [task_setPhase_of_ne s phase hm]
    rw [mem_queue_answerWaiters, hqueue, hp]

theorem closes_settle {call : Nat} (retrieved : Retrieved)
    (h : s.tasks[n]? = some ⟨job, .retrieving call⟩) :
    Closes s (s.settle n call job.identifier retrieved) n job
      (.completed (retrieved.outcome call job.identifier))
      (retrieved.outcome call job.identifier).file? := by
  unfold settle
  cases retrieved.outcome call job.identifier with
  | served file =>
    exact closes_answerWaiters h rfl (by simp) rfl rfl rfl fun key => Keyed.get?_put _ _ _ _
  | failed failure =>
    exact closes_answerWaiters h rfl (by simp) rfl rfl rfl fun key => Keyed.get?_erase _ _ _

theorem closes_cancel {call : Nat} (h : s.tasks[n]? = some ⟨job, .retrieving call⟩) :
    Closes s (s.cancel n) n job .cancelled none := by
  simp only [cancel, h]
  exact closes_answerWaiters h rfl (by simp) rfl rfl rfl fun key => Keyed.get?_erase _ _ _

/-- A task that ended stays as it is, one that retrieves ends its retrieval, and any other
only goes away. -/
theorem cancel_cases (s : Service) (n : Nat) :
    s.cancel n = s ∨
    (∃ job phase, s.tasks[n]? = some ⟨job, phase⟩ ∧ phase.isLive = true ∧
      (∀ call, phase ≠ .retrieving call) ∧ s.cancel n = s.setPhase n .cancelled) ∨
    ∃ job call, s.tasks[n]? = some ⟨job, .retrieving call⟩ ∧
      Closes s (s.cancel n) n job .cancelled none := by
  cases ht : s.tasks[n]? with
  | none => exact Or.inl (by simp only [cancel, ht])
  | some task =>
    obtain ⟨job, phase⟩ := task
    cases phase with
    | retrieving call => exact Or.inr (Or.inr ⟨job, call, rfl, closes_cancel ht⟩)
    | completed outcome => exact Or.inl (by simp only [cancel, ht])
    | cancelled => exact Or.inl (by simp only [cancel, ht])
    | _ => exact Or.inr (Or.inl ⟨job, _, rfl, rfl, by simp, by simp only [cancel, ht]⟩)

theorem calls_cancel (s : Service) (n : Nat) : (s.cancel n).calls = s.calls := by
  rcases cancel_cases s n with he | ⟨job, phase, -, -, -, he⟩ | ⟨job, call, -, hc⟩
  · rw [he]
  · rw [he, calls_setPhase]
  · exact hc.calls

end Service

end Excerpt
