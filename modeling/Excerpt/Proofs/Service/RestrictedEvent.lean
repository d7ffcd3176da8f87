import Excerpt.Proofs.Service.Completion
import Excerpt.Proofs.Service.RestrictedTurn

/-!
# An event on the part of an identifier

What is left of an event when everything that belongs to other identifiers is deleted does on the
part of an identifier what the event does on the whole. A batch keeps the jobs for the identifier.
The end of a call or a task for another identifier is deleted, and so is a batch of which nothing
is kept.
-/

namespace Excerpt

namespace Service

variable {fetcher : Fetcher} {s t : Service} {b : String} {n m k call : Nat} {job : Job}
  {phase : Phase} {c : Call} {retrieved : Retrieved}

/-- Every number in the queue and among those who completed is that of a task. -/
structure Grounded (s : Service) : Prop where
  consistent : Consistent s
  mem_completed : ∀ n, n ∈ s.completed ↔ s.Done n
  queued : ∀ n ∈ s.queue, ∃ job phase, s.tasks[n]? = some ⟨job, phase⟩

/-- Whoever is put in the queue when a task runs is a task. -/
theorem Resumed.mem_queue (hr : Resumed fetcher s n t) (hm : m ∈ t.queue) :
    m ∈ s.queue ∨ ∃ phase, s.phase? m = some phase := by
  cases hr with
  | ask ht =>
    refine ((mem_queue_ask _ _ _ _ _).1 hm).imp id fun ⟨hnew, _⟩ => ?_
    rw [hnew]
    exact ⟨_, phase?_of_task ht⟩
  | settle ht => exact (((closes_settle _ ht).queue m).1 hm).imp id fun ⟨_, _, hp⟩ => ⟨_, hp⟩
  | _ => exact Or.inl hm

theorem mem_queue_finish (hm : m ∈ (s.finish call retrieved).queue) :
    m ∈ s.queue ∨ ∃ phase, s.phase? m = some phase := by
  rcases finish_eq_self_or s call retrieved with he | ⟨c, -, -, he⟩
  · rw [he] at hm
    exact Or.inl hm
  · rw [he, mem_queue_wakeRetriever] at hm
    refine hm.imp id fun ⟨hnew, hp⟩ => ?_
    rw [hnew]
    exact ⟨_, hp⟩

theorem mem_queue_cancel (hm : m ∈ (s.cancel n).queue) :
    m ∈ s.queue ∨ ∃ phase, s.phase? m = some phase := by
  rcases cancel_cases s n with he | ⟨_, _, -, -, -, he⟩ | ⟨_, _, -, hc⟩
  · rw [he] at hm
    exact Or.inl hm
  · rw [he] at hm
    exact Or.inl hm
  · exact ((hc.queue m).1 hm).imp id fun ⟨_, _, hp⟩ => ⟨_, hp⟩

theorem mem_queue_start {jobs : List Job} (hm : m ∈ (s.apply (.start jobs)).queue) :
    m ∈ s.queue ∨ m < (s.apply (.start jobs)).tasks.length := by
  rw [apply_start_eq] at hm ⊢
  refine (List.mem_append.1 hm).imp id fun hnew => ?_
  rw [List.length_append, List.length_map]
  exact (List.mem_range'_1.1 hnew).2

theorem mem_queue_act (fetcher : Fetcher) (action : Action)
    (hn : n ∈ (act fetcher s action).queue) :
    n ∈ s.queue ∨ ∃ job phase, (act fetcher s action).tasks[n]? = some ⟨job, phase⟩ := by
  -- whoever was there is still there
  have hthere : (∃ phase, s.phase? n = some phase) →
      ∃ job phase, (act fetcher s action).tasks[n]? = some ⟨job, phase⟩ := by
    rintro ⟨phase, hp⟩
    obtain ⟨job, ht⟩ := phase?_eq_some_iff.1 hp
    obtain ⟨phase', ht'⟩ := task_act fetcher action ht
    exact ⟨job, phase', ht'⟩
  cases action with
  | event event =>
    cases event with
    | start jobs =>
      exact (mem_queue_start hn).imp id fun hlt => ⟨_, _, List.getElem?_eq_getElem hlt⟩
    | finish call retrieved => exact (mem_queue_finish hn).imp id hthere
    | cancel m => exact (mem_queue_cancel hn).imp id hthere
  | poll m => exact ((resumed_poll fetcher s m).mem_queue hn).imp List.mem_of_mem_erase hthere

theorem Grounded.act (h : Grounded s) (fetcher : Fetcher) (action : Action) :
    Grounded (act fetcher s action) where
  consistent := h.consistent.act fetcher action
  mem_completed := mem_completed_act fetcher action h.mem_completed
  queued n hn := by
    rcases mem_queue_act fetcher action hn with hold | hnew
    · obtain ⟨job, phase, ht⟩ := h.queued n hold
      obtain ⟨phase', ht'⟩ := task_act fetcher action ht
      exact ⟨job, phase', ht'⟩
    · exact hnew

theorem Grounded.lt_of_mem_queue (h : Grounded s) (hn : n ∈ s.queue) : n < s.tasks.length := by
  obtain ⟨job, phase, ht⟩ := h.queued n hn
  exact (List.getElem?_eq_some_iff.1 ht).1

theorem Grounded.lt_of_mem_completed (h : Grounded s) (hn : n ∈ s.completed) :
    n < s.tasks.length := by
  obtain ⟨job, outcome, ht⟩ := (h.mem_completed n).1 hn
  exact (List.getElem?_eq_some_iff.1 ht).1

theorem taskRank_start (job : Job) (hn : n ≤ s.tasks.length) :
    (s.start job).taskRank b n = s.taskRank b n := rank_append _ _ hn

theorem ranked_start (job : Job) {numbers : List Nat} (h : ∀ n ∈ numbers, n < s.tasks.length) :
    (s.start job).ranked b numbers = s.ranked b numbers := by
  have hfilter : numbers.filter ((s.start job).asksFor b) = numbers.filter (s.asksFor b) := by
    refine List.filter_congr fun n hn => ?_
    change ((s.tasks ++ [_])[n]?).any _ = _
    rw [List.getElem?_append_left (h n hn)]
    rfl
  rw [ranked, ranked, hfilter]
  refine List.map_congr_left fun n hn => ?_
  exact taskRank_start job (Nat.le_of_lt (h n (List.mem_of_mem_filter hn)))

theorem restrict_start_of_eq (h : Grounded s) (hjob : job.identifier = b) :
    (s.start job).restrict b = (s.restrict b).start job := by
  have hfor : Task.isFor b ⟨job, .started⟩ = true := Task.isFor_iff.2 hjob
  refine Service.ext ?_ ?_ ?_ ?_ (ranked_start job fun n hn => h.lt_of_mem_completed hn)
  · change ((s.tasks ++ [_]).filter _).map _ = _
    rw [List.filter_append, List.filter_cons_of_pos hfor, List.map_append]
    rfl
  · refine List.map_congr_left fun c hc => ?_
    obtain ⟨k, hk⟩ := List.getElem?_of_mem (List.mem_of_mem_filter hc)
    have hlt := lt_of_asksFor (h.consistent.maker_asksFor hk)
    rw [Call.renumber, Call.renumber, taskRank_start job (Nat.le_of_lt hlt)]
  · refine congrArg Option.toList (Option.map_congr fun entry he => ?_)
    have hlisted (n : Nat) (hn : n ∈ entry.listed) :
        (s.start job).taskRank b n = s.taskRank b n :=
      taskRank_start job (Nat.le_of_lt (lt_of_asksFor (h.consistent.listed_asksFor he hn)))
    rw [Entry.renumber_congr hlisted rfl]
    rfl
  · have hnew : (s.start job).asksFor b s.tasks.length = true :=
      asksFor_iff.2 ⟨job, .started, by simp [start], hjob⟩
    change (s.start job).ranked b (s.queue ++ [s.tasks.length]) = _
    rw [ranked_snoc_of_asksFor hnew, ranked_start job fun n hn => h.lt_of_mem_queue hn,
      taskRank_start job (Nat.le_refl _), taskRank_of_length_le b (Nat.le_refl _)]
    rfl

theorem restrict_start_of_ne (h : Grounded s) (hjob : job.identifier ≠ b) :
    (s.start job).restrict b = s.restrict b := by
  have hfor : Task.isFor b ⟨job, .started⟩ = false := by
    rw [Bool.eq_false_iff]
    exact fun hb => hjob (Task.isFor_iff.1 hb)
  have hrank : (s.start job).taskRank b = s.taskRank b :=
    funext fun n => rank_snoc_of_neg s.tasks n hfor
  refine Service.ext ?_ ?_ ?_ ?_ (ranked_start job fun n hn => h.lt_of_mem_completed hn)
  · change ((s.tasks ++ [_]).filter _).map _ = _
    rw [List.filter_append, List.filter_cons_of_neg (by simp [hfor]), List.filter_nil,
      List.append_nil]
    rfl
  · simp only [restrict, hrank]
    rfl
  · simp only [restrict, hrank]
    rfl
  · have hnew : (s.start job).asksFor b s.tasks.length = false := by
      simpa [asksFor, start] using hfor
    change (s.start job).ranked b (s.queue ++ [s.tasks.length]) = _
    rw [ranked_snoc_of_not hnew, ranked_start job fun n hn => h.lt_of_mem_queue hn]
    rfl

/-- Of a batch the jobs for the identifier are started. -/
theorem restrict_apply_start (h : Grounded s) (jobs : List Job) (b : String) :
    (s.apply (.start jobs)).restrict b =
      (s.restrict b).apply (.start (jobs.filter fun job => job.identifier = b)) := by
  change (jobs.foldl start s).restrict b = (jobs.filter _).foldl start (s.restrict b)
  induction jobs generalizing s with
  | nil => rfl
  | cons job jobs ih =>
    have hstart : Grounded (s.start job) := h.act .held (.event (.start [job]))
    rw [List.foldl_cons, ih hstart]
    by_cases hjob : job.identifier = b
    · rw [List.filter_cons_of_pos (by simpa using hjob), List.foldl_cons,
        restrict_start_of_eq h hjob]
    · rw [List.filter_cons_of_neg (by simpa using hjob), restrict_start_of_ne h hjob]

theorem phase?_restrict (h : s.asksFor b n = true) :
    (s.restrict b).phase? (s.taskRank b n) = (s.phase? n).map (Phase.renumber (s.callRank b)) := by
  obtain ⟨job, phase, ht, -⟩ := asksFor_iff.1 h
  rw [phase?_of_task ht, phase?_of_task (task_restrict h ht)]
  rfl

/-- The task of a call is inside its retrieval here and there, or is not. -/
theorem phase?_restrict_eq_iff (hs : Consistent s) (hc : s.calls[call]? = some c) :
    (s.restrict c.identifier).phase? (s.taskRank c.identifier c.task) =
        some (.retrieving (s.callRank c.identifier call)) ↔
      s.phase? c.task = some (.retrieving call) := by
  obtain ⟨job, phase, ht, hid, hp⟩ := hs.call call c hc
  rw [phase?_restrict (hs.maker_asksFor hc), phase?_of_task ht]
  rcases hp with rfl | rfl | ⟨retrieved, -, rfl⟩
  · simp [Phase.renumber]
  · simp [Phase.renumber]
  · simp [Phase.renumber]

theorem restrict_finish_of_eq (hs : Consistent s) (hc : s.calls[call]? = some c)
    (hid : c.identifier = b) (retrieved : Retrieved) : (s.finish call retrieved).restrict b =
      (s.restrict b).finish (s.callRank b call) retrieved := by
  subst hid
  have hn : (s.giveBack call retrieved).asksFor c.identifier c.task = true := hs.maker_asksFor hc
  have hback := restrict_giveBack_of_eq hc rfl retrieved
  simp only [finish, hc, call_restrict hc rfl, Call.renumber]
  split
  · rfl
  · change ((s.giveBack call retrieved).wakeRetriever call c.task).restrict _ =
      ((s.restrict _).giveBack _ retrieved).wakeRetriever _ _
    have hiff : ((s.restrict c.identifier).giveBack (s.callRank c.identifier call)
          retrieved).phase? (s.taskRank c.identifier c.task) =
          some (.retrieving (s.callRank c.identifier call)) ↔
        (s.giveBack call retrieved).phase? c.task = some (.retrieving call) :=
      phase?_restrict_eq_iff hs hc
    unfold wakeRetriever
    by_cases hp : (s.giveBack call retrieved).phase? c.task = some (.retrieving call)
    · rw [if_pos hp, if_pos (hiff.2 hp), restrict_wake_of_asksFor hn, hback]
      rfl
    · rw [if_neg hp, if_neg (mt hiff.1 hp), hback]

theorem restrict_finish_of_ne (hs : Consistent s) (hc : s.calls[call]? = some c)
    (hid : c.identifier ≠ b) (retrieved : Retrieved) :
    (s.finish call retrieved).restrict b = s.restrict b := by
  have hn : (s.giveBack call retrieved).asksFor b c.task = false :=
    not_asksFor_of_ne (hs.maker_asksFor hc) hid
  have hback := restrict_giveBack_of_ne hc hid retrieved
  simp only [finish, hc]
  split
  · rfl
  · change ((s.giveBack call retrieved).wakeRetriever call c.task).restrict b = _
    unfold wakeRetriever
    split
    · rw [restrict_wake_of_not hn, hback]
    · exact hback

/-- A call that was never made is not made there, either. -/
theorem restrict_finish_of_none (hc : s.calls[call]? = none) (retrieved : Retrieved) :
    (s.finish call retrieved).restrict b =
      (s.restrict b).finish (s.callRank b call) retrieved := by
  have hlength : s.callRank b call = (s.restrict b).calls.length :=
    callRank_of_length_le b (List.getElem?_eq_none_iff.1 hc)
  have hnone : (s.restrict b).calls[s.callRank b call]? = none :=
    List.getElem?_eq_none_iff.2 (Nat.le_of_eq hlength.symm)
  simp only [finish, hc, hnone]

theorem restrict_cancel_of_asksFor (hs : Consistent s) (h : s.asksFor b n = true) :
    (s.cancel n).restrict b = (s.restrict b).cancel (s.taskRank b n) := by
  obtain ⟨job, phase, ht, rfl⟩ := asksFor_iff.1 h
  have hset := restrict_setPhase_of_asksFor h .cancelled
  simp only [cancel, ht, task_restrict h ht]
  cases phase with
  | retrieving call =>
    have hn : (s.forget job.identifier).asksFor job.identifier n = true := h
    have htell := restrict_tell (b := job.identifier)
      (t := (s.forget job.identifier).setPhase n .cancelled) hs rfl rfl none
    rw [restrict_setPhase_of_asksFor hn, restrict_forget_self, ← waiters_restrict] at htell
    exact htell
  | completed outcome => rfl
  | cancelled => rfl
  | started => exact hset
  | waiting call => exact hset
  | answered file => exact hset

theorem restrict_cancel_of_ne (hs : Consistent s) (ht : s.tasks[n]? = some ⟨job, phase⟩)
    (hid : job.identifier ≠ b) : (s.cancel n).restrict b = s.restrict b := by
  have hn : s.asksFor b n = false := not_asksFor_of_ne (asksFor_of_task ht) hid
  have hset := restrict_setPhase_of_not hn .cancelled
  simp only [cancel, ht]
  cases phase with
  | retrieving call =>
    have hn' : (s.forget job.identifier).asksFor b n = false := hn
    have htell := restrict_tell_of_ne
      (t := (s.forget job.identifier).setPhase n .cancelled) hs hid rfl none
    rw [restrict_setPhase_of_not hn', restrict_forget_of_ne hid] at htell
    exact htell
  | completed outcome => rfl
  | cancelled => rfl
  | started => exact hset
  | waiting call => exact hset
  | answered file => exact hset

theorem restrict_cancel_of_none (ht : s.tasks[n]? = none) :
    (s.cancel n).restrict b = (s.restrict b).cancel (s.taskRank b n) := by
  have hlength : s.taskRank b n = (s.restrict b).tasks.length :=
    taskRank_of_length_le b (List.getElem?_eq_none_iff.1 ht)
  have hnone : (s.restrict b).tasks[s.taskRank b n]? = none :=
    List.getElem?_eq_none_iff.2 (Nat.le_of_eq hlength.symm)
  simp only [cancel, ht, hnone]

/-- What is left of an event when everything that belongs to other identifiers is deleted. -/
def eventFor (s : Service) (b : String) : Event → Option Event
  | .start jobs =>
    match jobs.filter fun job => job.identifier = b with
    | [] => none
    | jobs => some (.start jobs)
  | .finish call retrieved =>
    if (s.calls[call]?).all (Call.isFor b) then some (.finish (s.callRank b call) retrieved)
    else none
  | .cancel n =>
    if (s.tasks[n]?).all (Task.isFor b) then some (.cancel (s.taskRank b n)) else none

/-- On the part of an identifier an event does what is left of it. -/
theorem restrict_apply (h : Grounded s) (b : String) (event : Event) :
    (s.apply event).restrict b = (s.eventFor b event).elim (s.restrict b) (s.restrict b).apply := by
  cases event with
  | start jobs =>
    rw [restrict_apply_start h]
    simp only [eventFor]
    cases jobs.filter fun job => job.identifier = b <;> rfl
  | finish call retrieved =>
    change (s.finish call retrieved).restrict b = _
    simp only [eventFor]
    cases hc : s.calls[call]? with
    | none => exact restrict_finish_of_none hc retrieved
    | some c =>
      rw [Option.all_some]
      by_cases hid : c.identifier = b
      · rw [restrict_finish_of_eq h.consistent hc hid, if_pos (Call.isFor_iff.2 hid)]
        rfl
      · rw [restrict_finish_of_ne h.consistent hc hid, if_neg (mt Call.isFor_iff.1 hid)]
        rfl
  | cancel n =>
    change (s.cancel n).restrict b = _
    simp only [eventFor]
    cases ht : s.tasks[n]? with
    | none => exact restrict_cancel_of_none ht
    | some task =>
      rw [Option.all_some]
      by_cases hid : task.job.identifier = b
      · have hn : s.asksFor b n = true := asksFor_iff.2 ⟨_, _, ht, hid⟩
        rw [restrict_cancel_of_asksFor h.consistent hn, if_pos (Task.isFor_iff.2 hid)]
        rfl
      · rw [restrict_cancel_of_ne h.consistent ht hid, if_neg (mt Task.isFor_iff.1 hid)]
        rfl

end Service

end Excerpt
