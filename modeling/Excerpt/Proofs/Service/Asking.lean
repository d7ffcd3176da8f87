import Excerpt.Proofs.Service.AtRest
import Excerpt.Proofs.Service.Permanence

/-!
# The jobs of a step ask first

The tasks that are started in a step stand in front of the queue, and turn by turn each of them
asks for its file before anything comes back. So a step makes one call for every identifier that
had no entry. The task that asked first makes it, and all the others wait for it.
-/

namespace Excerpt

namespace Service

variable {fetcher : Fetcher} {answer : String → Retrieved} {s t u : Service} {jobs : List Job}
  {i k n : Nat} {job : Job} {phase : Phase} {identifier : String} {identifiers : List String}

/-! ## New calls -/

/-- Since the first state one call was made for each of the identifiers that had no entry in it. -/
def CalledOnce (s t : Service) (identifiers : List String) : Prop :=
  ∃ fresh : List Call, t.calls = s.calls ++ fresh ∧ (fresh.map Call.identifier).Nodup ∧
    ∀ identifier, identifier ∈ fresh.map Call.identifier ↔
      s.table.get? identifier = none ∧ identifier ∈ identifiers

theorem calledOnce_nil (h : t.calls = s.calls) : CalledOnce s t [] :=
  ⟨[], by simp [h], List.nodup_nil, by simp⟩

theorem CalledOnce.congr (h : CalledOnce s t identifiers) (hcalls : u.calls = t.calls) :
    CalledOnce s u identifiers := by
  unfold CalledOnce
  rw [hcalls]
  exact h

theorem CalledOnce.skip (h : CalledOnce s t identifiers)
    (he : s.table.get? identifier = none → identifier ∈ identifiers)
    (hcalls : u.calls = t.calls) : CalledOnce s u (identifiers ++ [identifier]) := by
  obtain ⟨fresh, ht, hd, hmem⟩ := h
  refine ⟨fresh, hcalls.trans ht, hd, fun key => ?_⟩
  rw [hmem, List.mem_append, List.mem_singleton]
  refine and_congr_right fun hkey => ⟨Or.inl, ?_⟩
  rintro (h | rfl)
  · exact h
  · exact he hkey

theorem CalledOnce.snoc (h : CalledOnce s t identifiers) (he : s.table.get? identifier = none)
    (hnew : identifier ∉ identifiers) {retrieved : Option Retrieved}
    (hcalls : u.calls = t.calls ++ [⟨identifier, n, retrieved⟩]) :
    CalledOnce s u (identifiers ++ [identifier]) := by
  obtain ⟨fresh, ht, hd, hmem⟩ := h
  refine ⟨fresh ++ [⟨identifier, n, retrieved⟩], by rw [hcalls, ht, List.append_assoc], ?_,
    fun key => ?_⟩
  · have hnot : identifier ∉ fresh.map Call.identifier := fun h => hnew ((hmem identifier).1 h).2
    rw [List.map_append, List.nodup_append']
    exact ⟨hd, List.nodup_singleton _, by simpa using hnot⟩
  · rw [List.map_append, List.mem_append, hmem]
    simp only [List.map_cons, List.map_nil, List.mem_append, List.mem_singleton]
    constructor
    · rintro (⟨hkey, h⟩ | rfl)
      · exact ⟨hkey, Or.inl h⟩
      · exact ⟨he, Or.inr rfl⟩
    · rintro ⟨hkey, h | rfl⟩
      · exact Or.inl ⟨hkey, h⟩
      · exact Or.inr rfl

/-! ## One task after the other asks -/

/-- Of the jobs that were started in the first state, `k` have asked and the others have not. -/
structure Asking (s : Service) (jobs : List Job) (k : Nat) (t : Service) : Prop where
  started : ∀ (i : Nat) (job : Job), k ≤ i → jobs[i]? = some job →
    t.tasks[s.tasks.length + i]? = some ⟨job, .started⟩
  asked : ∀ (n : Nat) (job : Job), t.tasks[n]? = some ⟨job, .started⟩ →
    s.tasks.length + k ≤ n ∧ n < s.tasks.length + jobs.length
  free : ∀ identifier, t.table.get? identifier = none ↔
    s.table.get? identifier = none ∧ identifier ∉ (jobs.take k).map Job.identifier
  file : ∀ identifier file, t.table.get? identifier = some (.completed file) →
    s.table.get? identifier = some (.completed file)
  calls : CalledOnce s t ((jobs.take k).map Job.identifier)

theorem asking_start (hn : ∀ (n : Nat) (job : Job), s.tasks[n]? ≠ some ⟨job, .started⟩)
    (jobs : List Job) : Asking s jobs 0 (s.apply (.start jobs)) := by
  rw [apply_start_eq]
  refine ⟨fun i job _ hi => ?_, fun n job ht => ?_, by simp, fun _ _ => id, calledOnce_nil rfl⟩
  · rw [List.getElem?_append_right (Nat.le_add_right _ _)]
    simp [hi]
  · rcases task_append_started ht with hold | ⟨hle, hlt, -⟩
    · exact absurd hold (hn n job)
    · exact ⟨hle, hlt⟩

theorem map_identifier_take_succ (hj : jobs[k]? = some job) :
    (jobs.take (k + 1)).map Job.identifier =
      (jobs.take k).map Job.identifier ++ [job.identifier] := by
  simp [List.take_add_one, hj]

theorem Asking.advance (h : Asking s jobs k t) (hj : jobs[k]? = some job)
    (htasks : u.tasks = (t.setPhase (s.tasks.length + k) phase).tasks) (hp : phase ≠ .started)
    (hfree : ∀ key, u.table.get? key = none ↔ t.table.get? key = none ∧ key ≠ job.identifier)
    (hfile : ∀ key file, u.table.get? key = some (.completed file) →
      t.table.get? key = some (.completed file))
    (hcalls : CalledOnce s u ((jobs.take k).map Job.identifier ++ [job.identifier])) :
    Asking s jobs (k + 1) u where
  started i job' hi hji := by
    have hne : s.tasks.length + i ≠ s.tasks.length + k := by omega
    rw [htasks, task_setPhase_of_ne t phase hne]
    exact h.started i job' (by omega) hji
  asked n job' hn := by
    rw [htasks] at hn
    rcases task_setPhase_eq_or (h.started k job (Nat.le_refl k) hj) hn with
      ⟨hne, ht⟩ | ⟨-, -, he⟩
    · have := h.asked n job' ht
      omega
    · exact absurd he.symm hp
  free key := by
    rw [hfree, h.free, map_identifier_take_succ hj]
    simp [and_assoc]
  file key file hk := h.file key file (hfile key file hk)
  calls := by
    rw [map_identifier_take_succ hj]
    exact hcalls

/-- After the turn of a job that makes a call or waits, the entry of its identifier is pending. -/
theorem Asking.enter (h : Asking s jobs k t) (hj : jobs[k]? = some job)
    (htasks : u.tasks = (t.setPhase (s.tasks.length + k) phase).tasks) (hp : phase ≠ .started)
    {call : Nat} {waiters : List Nat} (htable : ∀ key, u.table.get? key =
      if job.identifier = key then some (.pending call waiters) else t.table.get? key)
    (hcalls : CalledOnce s u ((jobs.take k).map Job.identifier ++ [job.identifier])) :
    Asking s jobs (k + 1) u := by
  refine h.advance hj htasks hp (fun key => ?_) (fun key file hk => ?_) hcalls
  · rw [htable]
    split
    · next hid => simp [hid]
    · next hid => simp [Ne.symm hid]
  · rw [htable] at hk
    split at hk
    · cases hk
    · exact hk

/-- An identifier that has an entry while the jobs ask had it before, or was asked for. -/
theorem Asking.mem_of_entry (h : Asking s jobs k t) {entry : Entry}
    (he : t.table.get? identifier = some entry) (hs : s.table.get? identifier = none) :
    identifier ∈ (jobs.take k).map Job.identifier := by
  by_contra hmem
  have hnone := (h.free identifier).2 ⟨hs, hmem⟩
  cases he.symm.trans hnone

theorem Asking.resumed (h : Asking s jobs k t) (hj : jobs[k]? = some job)
    (hr : Resumed fetcher t (s.tasks.length + k) u) :
    Asking s jobs (k + 1) u ∧ ∃ woken, u.queue = t.queue ++ woken := by
  have hself := h.started k job (Nat.le_refl k) hj
  cases hr with
  | idle hn => exact absurd trivial (hn _ hself)
  | hit ht he =>
    obtain ⟨rfl, -⟩ := Task.mk.inj (Option.some.inj (hself.symm.trans ht))
    refine ⟨h.advance hj (tasks_complete t _ _) (by simp) (fun key => ?_) (fun _ _ => id)
      (h.calls.skip (h.mem_of_entry he) rfl), [], (List.append_nil _).symm⟩
    refine ⟨fun hk => ⟨hk, ?_⟩, And.left⟩
    rintro rfl
    cases he.symm.trans hk
  | join ht he =>
    obtain ⟨rfl, -⟩ := Task.mk.inj (Option.some.inj (hself.symm.trans ht))
    exact ⟨h.enter hj rfl (by simp) (get?_join _ _ _ _ _)
      (h.calls.skip (h.mem_of_entry he) rfl), [], (List.append_nil _).symm⟩
  | ask ht he =>
    obtain ⟨rfl, -⟩ := Task.mk.inj (Option.some.inj (hself.symm.trans ht))
    obtain ⟨hs, hnew⟩ := (h.free _).1 he
    refine ⟨h.enter hj (tasks_ask _ _ _ _) (by simp) (get?_ask _ _ _ _)
      (h.calls.snoc hs hnew (calls_ask _ _ _ _)), ?_⟩
    rcases queue_ask fetcher t (s.tasks.length + k) job.identifier with hq | hq
    · exact ⟨[], by rw [hq, List.append_nil]⟩
    · exact ⟨_, hq⟩
  | settle ht => cases hself.symm.trans ht
  | take ht => cases hself.symm.trans ht

/-- Those of the jobs that have yet to ask stand in front of the queue. -/
def InFront (s : Service) (jobs : List Job) (k : Nat) (t : Service) : Prop :=
  ∃ woken, t.queue = List.range' (s.tasks.length + k) (jobs.length - k) ++ woken

theorem InFront.queue_eq (h : InFront s jobs k t) (hk : k < jobs.length) :
    ∃ woken, t.queue = (s.tasks.length + k) ::
      (List.range' (s.tasks.length + (k + 1)) (jobs.length - (k + 1)) ++ woken) := by
  obtain ⟨woken, hq⟩ := h
  have hlength : jobs.length - k = jobs.length - (k + 1) + 1 := by omega
  exact ⟨woken, by rw [hq, hlength, List.range'_succ]; rfl⟩

theorem InFront.turn_eq_poll (h : InFront s jobs k t) (hk : k < jobs.length)
    (fetcher : Fetcher) : turn fetcher t = t.poll fetcher (s.tasks.length + k) := by
  obtain ⟨woken, hq⟩ := h.queue_eq hk
  exact turn_of_queue_cons fetcher hq

theorem Asking.turn (h : Asking s jobs k t) (hq : InFront s jobs k t) (hk : k < jobs.length)
    (fetcher : Fetcher) :
    Asking s jobs (k + 1) (turn fetcher t) ∧ InFront s jobs (k + 1) (turn fetcher t) := by
  obtain ⟨woken, hqueue⟩ := hq.queue_eq hk
  have hrest : Asking s jobs k { t with queue := t.queue.erase (s.tasks.length + k) } :=
    ⟨h.started, h.asked, h.free, h.file, h.calls⟩
  obtain ⟨hasking, woken', hw⟩ :=
    hrest.resumed (List.getElem?_eq_getElem hk) (resumed_poll fetcher t _)
  rw [hq.turn_eq_poll hk fetcher]
  refine ⟨hasking, woken ++ woken', ?_⟩
  rw [hw, hqueue, List.erase_cons_head, List.append_assoc]

/-- After as many turns of a step as there are jobs, all of them have asked. -/
theorem asking_turns (hq : s.queue = [])
    (hn : ∀ (n : Nat) (job : Job), s.tasks[n]? ≠ some ⟨job, .started⟩) (fetcher : Fetcher)
    (hk : k ≤ jobs.length) :
    Asking s jobs k (turns fetcher k (s.apply (.start jobs))) ∧
      InFront s jobs k (turns fetcher k (s.apply (.start jobs))) := by
  induction k with
  | zero => exact ⟨asking_start hn jobs, [], by simp [apply_start_eq, hq]⟩
  | succ k ih =>
    obtain ⟨h, hfront⟩ := ih (by omega)
    rw [turns_succ']
    exact h.turn hfront (by omega) fetcher

/-! ## What the step comes to -/

/-- A step makes one call for every identifier that its jobs ask for and that has no entry. -/
theorem calledOnce_step (hq : s.queue = [])
    (hn : ∀ (n : Nat) (job : Job), s.tasks[n]? ≠ some ⟨job, .started⟩) (fetcher : Fetcher)
    (jobs : List Job) :
    CalledOnce s (step fetcher s (.start jobs)) (jobs.map Job.identifier) := by
  obtain ⟨h, -⟩ := asking_turns hq hn fetcher (Nat.le_refl jobs.length)
  have hall (n : Nat) (job : Job) :
      (turns fetcher jobs.length (s.apply (.start jobs))).tasks[n]? ≠ some ⟨job, .started⟩ := by
    intro ht
    have := h.asked n job ht
    omega
  have hcalls := h.calls
  rw [List.take_length] at hcalls
  obtain ⟨j, hj⟩ := drain_turns fetcher jobs.length (s.apply (.start jobs))
  refine hcalls.congr ?_
  rw [step, hj, calls_turns fetcher j hall]

theorem AtRest.not_started (h : AtRest answer s) (n : Nat) (job : Job) :
    s.tasks[n]? ≠ some ⟨job, .started⟩ := fun ht => h.awake.not_ready h.queue ht trivial

/-- A task that is started in a step completes in it. -/
theorem AtRest.job_completed (h : AtRest answer s) (hi : jobs[i]? = some job) :
    ∃ outcome, (step (.instant answer) s (.start jobs)).tasks[s.tasks.length + i]? =
      some ⟨job, .completed outcome⟩ := by
  have ht := (asking_start h.not_started jobs).started i job (Nat.zero_le i) hi
  obtain ⟨actions, ha⟩ :=
    turns_eq_foldl (.instant answer) (s.apply (.start jobs)).work (s.apply (.start jobs))
  obtain ⟨phase, ht'⟩ := task_foldl (.instant answer) actions ht
  rw [← ha] at ht'
  obtain ⟨outcome, rfl⟩ := (h.next (.start jobs)).completed ht'
  exact ⟨outcome, ht'⟩

/-- The moment at which it is a job's turn to ask. -/
theorem AtRest.asking (h : AtRest answer s) (hi : jobs[i]? = some job) :
    let t := turns (.instant answer) i (s.apply (.start jobs))
    Asking s jobs i t ∧ t.tasks[s.tasks.length + i]? = some ⟨job, .started⟩ ∧
      turns (.instant answer) (i + 1) (s.apply (.start jobs)) =
        t.poll (.instant answer) (s.tasks.length + i) := by
  have hlt := (List.getElem?_eq_some_iff.1 hi).1
  obtain ⟨hasking, hfront⟩ :=
    asking_turns h.queue h.not_started (.instant answer) (Nat.le_of_lt hlt)
  refine ⟨hasking, hasking.started i job (Nat.le_refl i) hi, ?_⟩
  rw [turns_succ', hfront.turn_eq_poll hlt]

/-- At whatever moment of a step a task is inside a retrieval, that step brings what is answered
to it, and what it shares to everybody who waits for it. -/
theorem AtRest.outcome_of_retrieving (h : AtRest answer s) {call : Nat}
    (ht : (turns (.instant answer) k (s.apply (.start jobs))).tasks[n]? =
      some ⟨job, .retrieving call⟩) :
    (step (.instant answer) s (.start jobs)).outcome? n =
      some ((answer job.identifier).outcome call job.identifier) ∧
    ∀ (m : Nat) (job' : Job), (turns (.instant answer) k (s.apply (.start jobs))).tasks[m]? =
        some ⟨job', .waiting call⟩ →
      (step (.instant answer) s (.start jobs)).outcome? m =
        some (((answer job.identifier).outcome call job.identifier).shared job'.identifier) := by
  obtain ⟨hs, -, hf⟩ := h.during jobs k
  obtain ⟨retrieved, hc⟩ := hs.call_of_retrieving ht
  obtain ⟨j, hj⟩ := drain_turns (.instant answer) k (s.apply (.start jobs))
  have hres := hs.resolving_turns (.instant answer) ht hc (hf.call call _ hc) j
  rw [← hj] at hres
  exact hres.outcome (h.next (.start jobs)).awake (queue_step _ s _)

/-- Who asks first for an identifier without an entry gets what is answered. -/
theorem AtRest.outcome_first (h : AtRest answer s) (hi : jobs[i]? = some job)
    (he : s.table.get? job.identifier = none)
    (hnew : job.identifier ∉ (jobs.take i).map Job.identifier) :
    ∃ call, (step (.instant answer) s (.start jobs)).outcome? (s.tasks.length + i) =
      some ((answer job.identifier).outcome call job.identifier) := by
  obtain ⟨hasking, hself, hturn⟩ := h.asking hi
  have hpoll := poll_of_none (.instant answer) hself ((hasking.free _).2 ⟨he, hnew⟩)
  have ht : (turns (.instant answer) (i + 1) (s.apply (.start jobs))).tasks[s.tasks.length + i]? =
      some ⟨job, .retrieving (turns (.instant answer) i (s.apply (.start jobs))).calls.length⟩ := by
    rw [hturn, hpoll, tasks_ask]
    exact task_setPhase_self hself _
  exact ⟨_, (h.outcome_of_retrieving ht).1⟩

/-- Who asks for it after another one did waits and gets what the other one shares. -/
theorem AtRest.outcome_later (h : AtRest answer s) (hi : jobs[i]? = some job)
    (he : s.table.get? job.identifier = none)
    (hold : job.identifier ∈ (jobs.take i).map Job.identifier) :
    ∃ call, (step (.instant answer) s (.start jobs)).outcome? (s.tasks.length + i) =
      some (((answer job.identifier).outcome call job.identifier).shared job.identifier) := by
  obtain ⟨hasking, hself, hturn⟩ := h.asking hi
  obtain ⟨hs, -, -⟩ := h.during jobs (i + 1)
  cases hentry : (turns (.instant answer) i (s.apply (.start jobs))).table.get? job.identifier with
  | none => exact absurd hold ((hasking.free _).1 hentry).2
  | some entry =>
    cases entry with
    | completed file => cases he.symm.trans (hasking.file _ _ hentry)
    | pending call waiters =>
      have hpoll := poll_of_pending (.instant answer) hself hentry
      have ht : (turns (.instant answer) (i + 1) (s.apply (.start jobs))).tasks[
          s.tasks.length + i]? = some ⟨job, .waiting call⟩ := by
        rw [hturn, hpoll]
        exact task_setPhase_self hself _
      -- whoever made the call that it waits for is still inside it
      obtain ⟨waiters', he', -⟩ := hs.task _ _ _ ht
      obtain ⟨n, job', ht', hid⟩ := hs.retriever_of_pending he'
      have hout := (h.outcome_of_retrieving ht').2 _ job ht
      rw [hid] at hout
      exact ⟨call, hout⟩

end Service

end Excerpt
