import Excerpt.Service.Run

/-!
# Interleavings of the file service

A run lets tasks take turns in the order of the queue. Here any task may run next at any
moment, whether or not it is its turn, and events come between any two such steps. Every
run is such an interleaving, and so is every point within one of its steps. The main
statement says once what a task can do when it runs.
-/

namespace Excerpt

namespace Service

/-- Lets one task go on as far as it can. -/
def poll (fetcher : Fetcher) (s : Service) (n : Nat) : Service :=
  match s.tasks[n]? with
  | some task => resume fetcher { s with queue := s.queue.erase n } n task
  | none => { s with queue := s.queue.erase n }

inductive Action where
  | event (event : Event)
  | poll (task : Nat)
deriving DecidableEq, Repr

def act (fetcher : Fetcher) (s : Service) : Action → Service
  | .event event => s.apply event
  | .poll n => s.poll fetcher n

def interleave (fetcher : Fetcher) (actions : List Action) : Service :=
  actions.foldl (act fetcher) empty

@[simp] theorem interleave_nil (fetcher : Fetcher) : interleave fetcher [] = empty := rfl

theorem interleave_append (fetcher : Fetcher) (actions actions' : List Action) :
    interleave fetcher (actions ++ actions') =
      actions'.foldl (act fetcher) (interleave fetcher actions) := by
  simp [interleave]

theorem interleave_snoc (fetcher : Fetcher) (actions : List Action) (action : Action) :
    interleave fetcher (actions ++ [action]) = act fetcher (interleave fetcher actions) action := by
  simp [interleave]

/-- What holds on after every action holds on over any number of actions. -/
theorem actions_induction (fetcher : Fetcher) {p : Service → Prop}
    (hp : ∀ s action, p s → p (act fetcher s action)) (actions : List Action) {s : Service}
    (h : p s) : p (actions.foldl (act fetcher) s) := by
  induction actions generalizing s with
  | nil => exact h
  | cons action actions ih => exact ih (hp s action h)

/-! ## Runs are interleavings -/

theorem turn_of_queue_cons (fetcher : Fetcher) {s : Service} {n : Nat} {queue : List Nat}
    (h : s.queue = n :: queue) : turn fetcher s = s.poll fetcher n := by
  cases ht : s.tasks[n]? <;> simp [turn, poll, h, ht]

theorem turn_eq_self_or_poll (fetcher : Fetcher) (s : Service) :
    turn fetcher s = s ∨ ∃ n ∈ s.queue, turn fetcher s = s.poll fetcher n := by
  cases hq : s.queue with
  | nil => exact Or.inl (turn_of_queue_nil fetcher hq)
  | cons n queue => exact Or.inr ⟨n, List.mem_cons_self, turn_of_queue_cons fetcher hq⟩

theorem turns_add (fetcher : Fetcher) (j k : Nat) (s : Service) :
    turns fetcher (j + k) s = turns fetcher k (turns fetcher j s) := by
  induction j generalizing s with
  | zero => simp
  | succ j ih => rw [Nat.succ_add, turns_succ, turns_succ, ih]

theorem turns_succ' (fetcher : Fetcher) (k : Nat) (s : Service) :
    turns fetcher (k + 1) s = turn fetcher (turns fetcher k s) := by
  rw [turns_add]
  rfl

/-- From any point on, the turns of a step lead to its end. -/
theorem drain_turns (fetcher : Fetcher) (k : Nat) (s : Service) :
    ∃ j, drain fetcher s = turns fetcher j (turns fetcher k s) := by
  by_cases hk : k ≤ s.work
  · refine ⟨s.work - k, ?_⟩
    rw [← turns_add, Nat.add_sub_cancel' hk]
    rfl
  · refine ⟨0, ?_⟩
    obtain ⟨j, hj⟩ := Nat.exists_eq_add_of_lt (Nat.lt_of_not_le hk)
    have hd : turns fetcher (j + 1) (drain fetcher s) = drain fetcher s :=
      turns_of_queue_nil fetcher _ (queue_drain fetcher s)
    rw [turns_zero, hj, Nat.add_assoc, turns_add]
    exact hd.symm

/-- What holds on after any task runs holds on over any number of turns. -/
theorem turns_induction (fetcher : Fetcher) {p : Service → Prop}
    (hp : ∀ s n, p s → p (s.poll fetcher n)) (k : Nat) {s : Service} (h : p s) :
    p (turns fetcher k s) := by
  induction k with
  | zero => exact h
  | succ k ih =>
    rw [turns_succ']
    rcases turn_eq_self_or_poll fetcher (turns fetcher k s) with ht | ⟨n, _, ht⟩
    · rwa [ht]
    · rw [ht]
      exact hp _ n ih

theorem turns_eq_foldl (fetcher : Fetcher) (k : Nat) (s : Service) :
    ∃ actions : List Action, turns fetcher k s = actions.foldl (act fetcher) s := by
  induction k with
  | zero => exact ⟨[], rfl⟩
  | succ k ih =>
    obtain ⟨actions, h⟩ := ih
    rw [turns_succ']
    rcases turn_eq_self_or_poll fetcher (turns fetcher k s) with ht | ⟨n, _, ht⟩
    · exact ⟨actions, ht.trans h⟩
    · refine ⟨actions ++ [.poll n], ?_⟩
      rw [ht, List.foldl_append, ← h]
      rfl

theorem steps_eq_foldl (fetcher : Fetcher) (events : List Event) (s : Service) :
    ∃ actions : List Action, events.foldl (step fetcher) s = actions.foldl (act fetcher) s := by
  induction events generalizing s with
  | nil => exact ⟨[], rfl⟩
  | cons event events ih =>
    obtain ⟨polls, hp⟩ := turns_eq_foldl fetcher (s.apply event).work (s.apply event)
    obtain ⟨actions, h⟩ := ih (step fetcher s event)
    refine ⟨.event event :: (polls ++ actions), ?_⟩
    rw [List.foldl_cons, h, List.foldl_cons, List.foldl_append]
    exact congrArg (List.foldl (act fetcher) · actions) hp

/-- A view of states on which a turn is one turn or nothing lets draining through. -/
theorem view_drain (fetcher : Fetcher) (view : Service → Service) {p : Service → Prop}
    (hp : ∀ s n, p s → p (s.poll fetcher n))
    (hturn : ∀ s, p s → view (turn fetcher s) = view s ∨
      view (turn fetcher s) = turn fetcher (view s))
    (hqueue : ∀ s, s.queue = [] → (view s).queue = []) {s : Service} (h : p s) :
    view (drain fetcher s) = drain fetcher (view s) := by
  have hturns (k : Nat) : ∃ j, view (turns fetcher k s) = turns fetcher j (view s) := by
    induction k with
    | zero => exact ⟨0, rfl⟩
    | succ k ih =>
      obtain ⟨j, hj⟩ := ih
      rw [turns_succ']
      rcases hturn _ (turns_induction fetcher hp k h) with he | he
      · exact ⟨j, he.trans hj⟩
      · refine ⟨j + 1, ?_⟩
        rw [he, hj, turns_succ']
  obtain ⟨j, hj⟩ := hturns s.work
  change view (drain fetcher s) = _ at hj
  -- both are at rest, and turns lead from the one to the other
  have hq : (turns fetcher j (view s)).queue = [] := by
    rw [← hj]
    exact hqueue _ (queue_drain fetcher s)
  obtain ⟨i, hi⟩ := drain_turns fetcher j (view s)
  rw [hj, hi, turns_of_queue_nil fetcher i hq]

/-- Every run is an interleaving. -/
theorem run_eq_interleave (fetcher : Fetcher) (events : List Event) :
    ∃ actions, run fetcher events = interleave fetcher actions :=
  steps_eq_foldl fetcher events empty

/-- From every point within a step of a run, actions lead to the end of every later step. -/
theorem run_eq_foldl_turns (fetcher : Fetcher) (events events' : List Event) (event : Event)
    (k : Nat) : ∃ actions : List Action, run fetcher (events ++ event :: events') =
      actions.foldl (act fetcher) (turns fetcher k ((run fetcher events).apply event)) := by
  obtain ⟨j, hj⟩ := drain_turns fetcher k ((run fetcher events).apply event)
  obtain ⟨polls, hp⟩ := turns_eq_foldl fetcher j
    (turns fetcher k ((run fetcher events).apply event))
  obtain ⟨actions, h⟩ := steps_eq_foldl fetcher events' (step fetcher (run fetcher events) event)
  refine ⟨polls ++ actions, ?_⟩
  rw [List.foldl_append, ← hp, ← hj]
  exact Eq.trans (by simp [run]) h

/-! ## What a task does when it runs -/

/-- Whether a task in such a phase goes on when it runs. -/
def Ready (s : Service) : Phase → Prop
  | .started => True
  | .retrieving call => ∃ c retrieved, s.calls[call]? = some c ∧ c.retrieved = some retrieved
  | .answered _ => True
  | _ => False

/-- What a waiter gets, given the file that its retrieval came to. -/
def passedOn (identifier : String) : Option SharedSource → Outcome
  | some file => .served file
  | none => .failed (.abandoned identifier)

/-- A task that asks for an identifier that nobody retrieves or has retrieved. -/
def ask (fetcher : Fetcher) (s : Service) (n : Nat) (identifier : String) : Service :=
  match fetcher identifier with
  | some retrieved => (s.openCall n identifier (some retrieved)).wake n
  | none => s.openCall n identifier none

/-- The states to which a task can lead when it runs. -/
inductive Resumed (fetcher : Fetcher) (s : Service) (n : Nat) : Service → Prop
  | idle (h : ∀ task, s.tasks[n]? = some task → ¬ s.Ready task.phase) : Resumed fetcher s n s
  | hit {job : Job} {file : SharedSource} (ht : s.tasks[n]? = some ⟨job, .started⟩)
      (he : s.table.get? job.identifier = some (.completed file)) :
      Resumed fetcher s n (s.complete n (.served file))
  | join {job : Job} {call : Nat} {waiters : List Nat} (ht : s.tasks[n]? = some ⟨job, .started⟩)
      (he : s.table.get? job.identifier = some (.pending call waiters)) :
      Resumed fetcher s n (s.join n call job.identifier waiters)
  | ask {job : Job} (ht : s.tasks[n]? = some ⟨job, .started⟩)
      (he : s.table.get? job.identifier = none) :
      Resumed fetcher s n (s.ask fetcher n job.identifier)
  | settle {job : Job} {call : Nat} {c : Call} {retrieved : Retrieved}
      (ht : s.tasks[n]? = some ⟨job, .retrieving call⟩) (hc : s.calls[call]? = some c)
      (hr : c.retrieved = some retrieved) :
      Resumed fetcher s n (s.settle n call job.identifier retrieved)
  | take {job : Job} {file : Option SharedSource} (ht : s.tasks[n]? = some ⟨job, .answered file⟩) :
      Resumed fetcher s n (s.complete n (passedOn job.identifier file))

theorem resumed_resume (fetcher : Fetcher) {s : Service} {n : Nat} {task : Task}
    (h : s.tasks[n]? = some task) : Resumed fetcher s n (resume fetcher s n task) := by
  obtain ⟨job, phase⟩ := task
  have idle (hp : ¬ s.Ready phase) : Resumed fetcher s n s :=
    .idle fun task ht => by
      obtain rfl := Option.some.inj (h.symm.trans ht)
      exact hp
  cases phase with
  | started =>
    show Resumed fetcher s n (s.claim fetcher n job.identifier)
    unfold claim
    cases he : s.table.get? job.identifier with
    | none => exact .ask h he
    | some entry =>
      cases entry with
      | pending call waiters => exact .join h he
      | completed file => exact .hit h he
  | retrieving call =>
    simp only [resume]
    cases hc : s.calls[call]? with
    | none => exact idle (by simp [Ready, hc])
    | some c =>
      cases hr : c.retrieved with
      | none => simpa [hr] using idle (by simp [Ready, hc, hr])
      | some retrieved => simpa [hr, Task.identifier] using Resumed.settle h hc hr
  | answered file => cases file <;> exact .take h
  | waiting call => exact idle (by simp [Ready])
  | completed outcome => exact idle (by simp [Ready])
  | cancelled => exact idle (by simp [Ready])

theorem resumed_poll (fetcher : Fetcher) (s : Service) (n : Nat) :
    Resumed fetcher { s with queue := s.queue.erase n } n (s.poll fetcher n) := by
  unfold poll
  cases h : s.tasks[n]? with
  | none =>
    refine .idle fun task ht => ?_
    rw [show _ = none from h] at ht
    cases ht
  | some task => exact resumed_resume fetcher h

/-! ## The state to which a task leads -/

variable {s : Service} {n : Nat} {job : Job}

theorem poll_of_none (fetcher : Fetcher) (ht : s.tasks[n]? = some ⟨job, .started⟩)
    (he : s.table.get? job.identifier = none) : s.poll fetcher n =
      ({ s with queue := s.queue.erase n } : Service).ask fetcher n job.identifier := by
  simp only [poll, ht, resume, Task.identifier, claim, he]
  rfl

theorem poll_of_pending (fetcher : Fetcher) {call : Nat} {waiters : List Nat}
    (ht : s.tasks[n]? = some ⟨job, .started⟩)
    (he : s.table.get? job.identifier = some (.pending call waiters)) : s.poll fetcher n =
      ({ s with queue := s.queue.erase n } : Service).join n call job.identifier waiters := by
  simp only [poll, ht, resume, Task.identifier, claim, he]

theorem poll_of_completed (fetcher : Fetcher) {file : SharedSource}
    (ht : s.tasks[n]? = some ⟨job, .started⟩)
    (he : s.table.get? job.identifier = some (.completed file)) : s.poll fetcher n =
      ({ s with queue := s.queue.erase n } : Service).complete n (.served file) := by
  simp only [poll, ht, resume, Task.identifier, claim, he]

theorem poll_of_returned (fetcher : Fetcher) {call : Nat} {c : Call} {retrieved : Retrieved}
    (ht : s.tasks[n]? = some ⟨job, .retrieving call⟩) (hc : s.calls[call]? = some c)
    (hr : c.retrieved = some retrieved) : s.poll fetcher n =
      ({ s with queue := s.queue.erase n } : Service).settle n call job.identifier retrieved := by
  simp only [poll, ht, resume, hc, Option.bind_some, hr, Task.identifier]

theorem poll_of_answered (fetcher : Fetcher) {file : Option SharedSource}
    (ht : s.tasks[n]? = some ⟨job, .answered file⟩) : s.poll fetcher n =
      ({ s with queue := s.queue.erase n } : Service).complete n
        (passedOn job.identifier file) := by
  cases file <;> simp only [poll, ht, resume, Task.identifier, passedOn]

end Service

end Excerpt
