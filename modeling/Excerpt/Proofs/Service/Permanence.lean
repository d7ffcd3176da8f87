import Excerpt.Proofs.Service.Accounting
import Excerpt.Proofs.Service.SingleFlight

/-!
# A retrieved file stays

Once the file of an identifier is there, its entry never changes, no call is made for it
and whoever asks for it gets that very file. As long as it is not, and nobody retrieves
it, the next task that asks makes one call.
-/

namespace Excerpt

namespace Service

variable {fetcher : Fetcher} {s t : Service} {n m : Nat} {job : Job} {phase : Phase}
  {identifier : String} {file : SharedSource}

/-- The task of a job whose file is there has not run yet, or has got the file. -/
def Promised (s : Service) (n : Nat) (job : Job) (file : SharedSource) : Prop :=
  s.tasks[n]? = some ⟨job, .started⟩ ∨ s.tasks[n]? = some ⟨job, .completed (.served file)⟩

theorem Promised.poll (h : s.Promised n job file)
    (he : s.table.get? job.identifier = some (.completed file)) (fetcher : Fetcher) (m : Nat) :
    (s.poll fetcher m).Promised n job file := by
  rcases h with ht | ht
  · by_cases hm : n = m
    · subst hm
      rw [poll_of_completed fetcher ht he]
      exact Or.inr (task_setPhase_self ht _)
    · exact Or.inl ((resumed_poll fetcher s m).task_of_ne hm ht (by simp))
  · exact Or.inr (task_act_of_ended fetcher (.poll m) ht rfl)

theorem Promised.act (h : s.Promised n job file)
    (he : s.table.get? job.identifier = some (.completed file)) (fetcher : Fetcher)
    (action : Action) : (act fetcher s action).Promised n job file ∨
      (act fetcher s action).tasks[n]? = some ⟨job, .cancelled⟩ := by
  cases action with
  | poll m => exact Or.inl (h.poll he fetcher m)
  | event event =>
    rcases h with ht | ht
    · by_cases hev : event = .cancel n
      · subst hev
        exact Or.inr (task_cancel_self ht rfl)
      · exact Or.inl (Or.inl (task_apply_of_ne event ht (by simp) hev))
    · exact Or.inl (Or.inr (task_act_of_ended fetcher (.event event) ht rfl))

/-! ## Over several actions -/

theorem callCount_act_of_completed (fetcher : Fetcher) (action : Action)
    (he : s.table.get? identifier = some (.completed file)) :
    (act fetcher s action).callCount identifier = s.callCount identifier := by
  rcases callCount_act_eq_or fetcher s action identifier with hc | ⟨n, job, -, -, -, hn, -⟩
  · exact hc
  · cases he.symm.trans hn

/-- An entry with a file is the last one, and no call follows it. -/
theorem Consistent.permanent (h : Consistent s) (fetcher : Fetcher) (actions : List Action)
    (he : s.table.get? identifier = some (.completed file)) :
    (actions.foldl (Service.act fetcher) s).table.get? identifier = some (.completed file) ∧
    (actions.foldl (Service.act fetcher) s).callCount identifier = s.callCount identifier := by
  refine (actions_induction fetcher (p := fun t => Consistent t ∧
    t.table.get? identifier = some (.completed file) ∧
    t.callCount identifier = s.callCount identifier) (fun t action ht => ?_) actions
    ⟨h, he, rfl⟩).2
  obtain ⟨hc, he, hn⟩ := ht
  exact ⟨hc.act fetcher action, get?_act_of_completed hc fetcher action he,
    (callCount_act_of_completed fetcher action he).trans hn⟩

theorem Consistent.promised (h : Consistent s) (fetcher : Fetcher) (actions : List Action)
    (he : s.table.get? job.identifier = some (.completed file))
    (ht : s.tasks[n]? = some ⟨job, .started⟩) :
    (actions.foldl (Service.act fetcher) s).Promised n job file ∨
      (actions.foldl (Service.act fetcher) s).tasks[n]? = some ⟨job, .cancelled⟩ := by
  refine (actions_induction fetcher (p := fun t => Consistent t ∧
    t.table.get? job.identifier = some (.completed file) ∧
    (t.Promised n job file ∨ t.tasks[n]? = some ⟨job, .cancelled⟩))
    (fun t action ht => ?_) actions ⟨h, he, Or.inl (Or.inl ht)⟩).2.2
  obtain ⟨hc, he, hp⟩ := ht
  refine ⟨hc.act fetcher action, get?_act_of_completed hc fetcher action he, ?_⟩
  rcases hp with hp | hp
  · exact hp.act he fetcher action
  · exact Or.inr (task_act_of_ended fetcher action hp rfl)

/-! ## The step in which a task starts -/

/-- Whoever asks for a file that is there gets it in the same step. -/
theorem outcome?_step_start (fetcher : Fetcher) (events : List Event) {jobs : List Job} {i : Nat}
    (he : (run fetcher events).table.get? job.identifier = some (.completed file))
    (hi : jobs[i]? = some job) :
    (step fetcher (run fetcher events) (.start jobs)).outcome?
      ((run fetcher events).tasks.length + i) = some (.served file) := by
  let n := (run fetcher events).tasks.length + i
  have ht : ((run fetcher events).apply (.start jobs)).tasks[n]? = some ⟨job, .started⟩ := by
    rw [apply_start_eq, List.getElem?_append_right (Nat.le_add_right _ _)]
    simp [hi]
  have he' : ((run fetcher events).apply (.start jobs)).table.get? job.identifier =
      some (.completed file) := by rw [apply_start_eq, ← he]
  have hp : (step fetcher (run fetcher events) (.start jobs)).Promised n job file :=
    (turns_induction fetcher (p := fun t => Consistent t ∧
      t.table.get? job.identifier = some (.completed file) ∧ t.Promised n job file)
      (fun t m h => ⟨h.1.poll fetcher m, get?_act_of_completed h.1 fetcher (.poll m) h.2.1,
        h.2.2.poll h.2.1 fetcher m⟩) _
      ⟨(consistent_run fetcher events).apply _, he', Or.inl ht⟩).2.2
  rcases hp with hp | hp
  · exact absurd trivial
      ((awake_step fetcher events _).not_ready (queue_step fetcher _ _) hp)
  · simp [outcome?, phase?_of_task hp, n]

theorem task_of_setPhase_ne {phase₀ phase' : Phase} {job' : Job}
    (h : s.tasks[n]? = some ⟨job, phase₀⟩)
    (ht : (s.setPhase n phase).tasks[m]? = some ⟨job', phase'⟩) (hp : phase' ≠ phase) :
    s.tasks[m]? = some ⟨job', phase'⟩ := by
  rcases task_setPhase_eq_or h ht with ⟨-, hs⟩ | ⟨-, -, he⟩
  · exact hs
  · exact absurd he hp

/-- No task becomes one that has only started. -/
theorem Resumed.task_of_started (hr : Resumed fetcher s n t)
    (ht : t.tasks[m]? = some ⟨job, .started⟩) : s.tasks[m]? = some ⟨job, .started⟩ := by
  cases hr with
  | idle => exact ht
  | hit h => exact task_of_setPhase_ne h ht (by simp)
  | join h => exact task_of_setPhase_ne h ht (by simp)
  | ask h =>
    rw [tasks_ask] at ht
    exact task_of_setPhase_ne h ht (by simp)
  | settle h =>
    next retrieved _ _ =>
    have hc := closes_settle retrieved h
    by_cases hm : m = n
    · subst hm
      cases hc.self.symm.trans ht
    · rcases hc.task_eq_or hm ht with ⟨hs, -⟩ | ⟨-, -, hp⟩
      · exact hs
      · cases hp
  | take h => exact task_of_setPhase_ne h ht (by simp)

/-- With nobody left who has yet to ask, turns make no calls. -/
theorem calls_turns (fetcher : Fetcher) (k : Nat)
    (h : ∀ (m : Nat) (job : Job), s.tasks[m]? ≠ some ⟨job, .started⟩) :
    (turns fetcher k s).calls = s.calls := by
  refine (turns_induction fetcher (p := fun t =>
    (∀ (m : Nat) (job : Job), t.tasks[m]? ≠ some ⟨job, .started⟩) ∧ t.calls = s.calls)
    (fun t n ht => ?_) k ⟨h, rfl⟩).2
  obtain ⟨hn, hc⟩ := ht
  have hr := resumed_poll fetcher t n
  refine ⟨fun m job hm => hn m job (hr.task_of_started hm), ?_⟩
  rcases hr.calls_eq_or with he | ⟨job, ht, -⟩
  · rw [he, hc]
  · exact absurd ht (hn n job)

/-- Whoever asks for a file that nobody retrieves or has retrieved makes one call. -/
theorem calls_step_start (fetcher : Fetcher) (events : List Event)
    (he : (run fetcher events).table.get? job.identifier = none) :
    (step fetcher (run fetcher events) (.start [job])).calls = (run fetcher events).calls ++
      [⟨job.identifier, (run fetcher events).tasks.length, fetcher job.identifier⟩] := by
  generalize hs : run fetcher events = s at he ⊢
  have ha : Awake s := hs ▸ awake_run fetcher events
  have hq : s.queue = [] := hs ▸ queue_run fetcher events
  have ht : (s.start job).tasks[s.tasks.length]? = some ⟨job, .started⟩ := by simp [start]
  have hcalls := calls_poll_of_none fetcher ht he
  have hturn : turns fetcher 1 (s.start job) = (s.start job).poll fetcher s.tasks.length := by
    have hqueue : (s.start job).queue = [s.tasks.length] := by simp [start, hq]
    rw [turns_succ, turns_zero, turn_of_queue_cons fetcher hqueue]
  have hnone (m : Nat) (job' : Job) :
      ((s.start job).poll fetcher s.tasks.length).tasks[m]? ≠ some ⟨job', .started⟩ := by
    rw [poll_of_none fetcher ht he, tasks_ask]
    intro hm
    rcases task_setPhase_eq_or ht hm with ⟨hne, hm'⟩ | ⟨-, -, hp⟩
    · rcases getElem?_snoc_eq_some hm' with hs' | ⟨rfl, -⟩
      · exact ha.not_ready hq hs' trivial
      · exact hne rfl
    · cases hp
  obtain ⟨j, hj⟩ := drain_turns fetcher 1 (s.start job)
  change (drain fetcher (s.start job)).calls = _
  rw [hj, hturn, calls_turns fetcher j hnone, hcalls]
  rfl

/-! ## The account of a run -/

theorem Consistent.get?_eq_none (h : Consistent s)
    (hn : s.callCount identifier =
      s.fateCount identifier .erred + s.fateCount identifier .withdrawn) :
    s.table.get? identifier = none := by
  have hc := h.callCount_eq identifier
  cases he : s.table.get? identifier with
  | none => rfl
  | some entry =>
    rw [he, Option.isSome_some, if_pos rfl] at hc
    omega

/-- The calls for an identifier are those that failed, those that were withdrawn and the
one behind its entry. Calls that failed or were withdrawn are followed by one fresh call
when a task asks next; a call that succeeded is the last, and its file is what every later
task gets. -/
theorem retrieval_account (fetcher : Fetcher) (identifier : String) :
    (∀ actions, let s := interleave fetcher actions
      s.callCount identifier = s.fateCount identifier .erred + s.fateCount identifier .withdrawn +
        (if (s.table.get? identifier).isSome then 1 else 0) ∧
      s.fateCount identifier .succeeded = (if s.isCached identifier then 1 else 0) ∧
      (∀ action (k : Nat) (c : Call), s.calls[k]? = some c → s.fate c ≠ .underway →
        ∃ c', (act fetcher s action).calls[k]? = some c' ∧ c'.identifier = c.identifier ∧
          (act fetcher s action).fate c' = s.fate c) ∧
      (∀ (n : Nat) (job : Job),
        s.callCount identifier =
          s.fateCount identifier .erred + s.fateCount identifier .withdrawn →
        s.tasks[n]? = some ⟨job, .started⟩ → job.identifier = identifier →
        (act fetcher s (.poll n)).calls = s.calls ++ [⟨identifier, n, fetcher identifier⟩]) ∧
      (∀ action, (act fetcher s action).callCount identifier = s.callCount identifier ∨
        ∃ (n : Nat) (job : Job), action = .poll n ∧ s.tasks[n]? = some ⟨job, .started⟩ ∧
          job.identifier = identifier ∧ s.table.get? identifier = none ∧
          (act fetcher s action).callCount identifier = s.callCount identifier + 1) ∧
      ∀ file, s.table.get? identifier = some (.completed file) → ∀ actions',
        let t := interleave fetcher (actions ++ actions')
        t.table.get? identifier = some (.completed file) ∧ t.isCached identifier = true ∧
        t.callCount identifier = s.callCount identifier ∧
        ∀ (n : Nat) (job : Job), s.tasks[n]? = some ⟨job, .started⟩ →
          job.identifier = identifier →
          t.Promised n job file ∨ t.tasks[n]? = some ⟨job, .cancelled⟩) ∧
    (∀ events, let s := run fetcher events
      (s.callCount identifier =
          s.fateCount identifier .erred + s.fateCount identifier .withdrawn →
        ∀ job : Job, job.identifier = identifier →
          (step fetcher s (.start [job])).calls =
            s.calls ++ [⟨identifier, s.tasks.length, fetcher identifier⟩]) ∧
      ∀ file, s.table.get? identifier = some (.completed file) → ∀ events',
        let t := run fetcher (events ++ events')
        t.table.get? identifier = some (.completed file) ∧ t.isCached identifier = true ∧
        t.callCount identifier = s.callCount identifier ∧
        ∀ (jobs : List Job) (i : Nat) (job : Job), jobs[i]? = some job →
          job.identifier = identifier →
          (step fetcher t (.start jobs)).outcome? (t.tasks.length + i) = some (.served file)) := by
  constructor
  · intro actions s
    have h : Consistent s := consistent_interleave fetcher actions
    refine ⟨h.callCount_eq identifier, h.fateCount_succeeded identifier,
      fun action k c => fate_act fetcher action h, ?_,
      fun action => callCount_act_eq_or fetcher s action identifier, ?_⟩
    · rintro n job hn ht rfl
      exact calls_poll_of_none fetcher ht (h.get?_eq_none hn)
    · intro file he actions'
      rw [interleave_append]
      obtain ⟨he', hcount⟩ := h.permanent fetcher actions' he
      refine ⟨he', isCached_iff.2 ⟨file, he'⟩, hcount, ?_⟩
      rintro n job ht rfl
      exact h.promised fetcher actions' he ht
  · intro events s
    have h : Consistent s := consistent_run fetcher events
    constructor
    · rintro hn job rfl
      exact calls_step_start fetcher events (h.get?_eq_none hn)
    · intro file he events' t
      obtain ⟨actions, ha⟩ := steps_eq_foldl fetcher events' s
      have ht : t = actions.foldl (act fetcher) s := by
        rw [← ha]
        exact List.foldl_append
      obtain ⟨he', hcount⟩ := h.permanent fetcher actions he
      rw [← ht] at he' hcount
      refine ⟨he', isCached_iff.2 ⟨file, he'⟩, hcount, ?_⟩
      rintro jobs i job hi rfl
      exact outcome?_step_start fetcher _ he' hi

end Service

end Excerpt
