import Excerpt.Proofs.Service.Completion
import Excerpt.Proofs.Service.Queueing
import Mathlib.Data.List.Induction
import Mathlib.Data.List.Sort

/-!
# First come, first served

A task that completes leaves no earlier one for the same identifier behind. So the tasks for one
identifier complete in the order in which they were started, whatever returned, failed or was
cancelled meanwhile: the task that retrieves comes before its waiters, these come in the order in
which they are listed, and whoever finds the file in the table comes after them all.
-/

namespace Excerpt

namespace Service

variable {fetcher : Fetcher} {s t : Service} {n m k call : Nat} {job job' : Job}
  {phase phase' : Phase} {file : Option SharedSource}

/-! ## Between two steps of a run -/

theorem Woken.congr {woken : List Nat} (h : s.Woken k woken) (htasks : t.tasks = s.tasks) :
    t.Woken k woken where
  lt := h.lt
  not_waiting m hm := by
    rw [isWaiting_congr (congrArg (·[m]?) htasks)]
    exact h.not_waiting m hm
  ascending := h.ascending.imp fun hab => by
    unfold ToldInOrder
    rw [htasks]
    exact hab

theorem InTurn.rest (h : InTurn s) (hq : s.queue = []) : s.Lined s.tasks.length := by
  obtain ⟨k, woken, hl, hqueue, -⟩ := h
  rw [hq] at hqueue
  have hrange : List.range' k (s.tasks.length - k) = [] :=
    (List.append_eq_nil_iff.1 hqueue.symm).1
  have hk : s.tasks.length - k = 0 := by simpa using hrange
  refine ⟨fun n job phase ht => ?_, hl.ranked, hl.listed⟩
  have hn := (List.getElem?_eq_some_iff.1 ht).1
  rw [hl.started_iff n job phase ht]
  omega

/-- When everybody has asked, the queue holds only tasks that were woken. -/
theorem Lined.inTurn (h : s.Lined s.tasks.length) (hw : s.Woken s.tasks.length s.queue) :
    InTurn s := ⟨s.tasks.length, s.queue, h, by simp, hw⟩

theorem Lined.inTurn_of_nil (h : s.Lined s.tasks.length) (hq : s.queue = []) : InTurn s := by
  refine h.inTurn ?_
  rw [hq]
  exact woken_nil s _

/-- Between two steps nobody stands in the way of a task that starts. -/
theorem Awake.mayPrecede_started (h : Awake s) (hq : s.queue = [])
    (ht : s.tasks[n]? = some ⟨job, phase⟩) : phase.MayPrecede .started := by
  have hn := h.not_ready hq ht
  cases phase with
  | answered file => exact absurd trivial hn
  | _ => trivial

theorem Lined.start (h : s.Lined s.tasks.length) (ha : Awake s) (hq : s.queue = [])
    (jobs : List Job) : InTurn (s.apply (.start jobs)) := by
  rw [apply_start_eq]
  refine ⟨s.tasks.length, [], ⟨fun n job phase ht => ?_, ?_, h.listed⟩, ?_, woken_nil _ _⟩
  · rcases task_append_started ht with ht' | ⟨hn, -, hp⟩
    · exact h.started_iff n job phase ht'
    · simp [hn, hp]
  · intro i j ji jj pi pj hij hi hj hid
    rcases task_append_started hj with hj' | ⟨-, -, rfl⟩
    · rcases task_append_started hi with hi' | ⟨hle, -⟩
      · exact h.ranked i j ji jj pi pj hij hi' hj' hid
      · have hlt := (List.getElem?_eq_some_iff.1 hj').1
        omega
    · rcases task_append_started hi with hi' | ⟨-, -, rfl⟩
      · exact ha.mayPrecede_started hq hi'
      · trivial
  · simp [hq]

/-- A call that returns keeps its task. -/
theorem Lined.setCall (h : s.Lined k) {c c' : Call} (hc : s.calls[call]? = some c)
    (htask : c'.task = c.task) : Lined { s with calls := s.calls.set call c' } k where
  started_iff := h.started_iff
  ranked := h.ranked
  listed := by
    intro key call' waiters d hk hd
    rcases getElem?_set_eq_some hd with hs | ⟨rfl, rfl⟩
    · exact h.listed key call' waiters d hk hs
    · rw [htask]
      exact h.listed key call' waiters c hk hc

theorem Lined.finish (h : s.Lined s.tasks.length) (hq : s.queue = []) (call : Nat)
    (retrieved : Retrieved) : InTurn (s.finish call retrieved) := by
  rcases finish_eq_self_or s call retrieved with he | ⟨c, hc, -, he⟩
  · rw [he]
    exact h.inTurn_of_nil hq
  · have hl : Lined { s with calls := s.calls.set call { c with retrieved := some retrieved } }
        s.tasks.length := h.setCall hc rfl
    rw [he]
    unfold wakeRetriever
    split
    · next hp =>
      obtain ⟨job, ht⟩ := phase?_eq_some_iff.1 hp
      have hn : c.task < s.tasks.length := (List.getElem?_eq_some_iff.1 ht).1
      have hwoken := (woken_nil s s.tasks.length).append_of_retrieving hn ht
      refine ⟨s.tasks.length, [c.task], hl.congr (tasks_wake _ _) (table_wake _ _)
        (calls_wake _ _), ?_, hwoken.congr (tasks_wake _ _)⟩
      simp [wake, hq]
    · exact hl.inTurn_of_nil hq

theorem Lined.cancel (h : s.Lined s.tasks.length) (hs : Consistent s) (hq : s.queue = [])
    (n : Nat) : InTurn (s.cancel n) := by
  rcases cancel_cases s n with he | ⟨job, phase, ht, hl, -, he⟩ | ⟨job, call, ht, hc⟩
  · rw [he]
    exact h.inTurn_of_nil hq
  · rw [he]
    refine Lined.inTurn_of_nil ⟨fun m job' phase' hm => ?_, ?_, h.listed⟩ hq
    · rw [length_setPhase]
      have hlt := (List.getElem?_eq_some_iff.1 hm).1
      rw [length_setPhase] at hlt
      rcases task_setPhase_eq_or ht hm with ⟨-, hs⟩ | ⟨-, -, rfl⟩
      · exact h.started_iff m job' phase' hs
      · simpa using hlt
    · exact h.ranked.setPhase ht (fun _ _ phase' _ _ _ => Phase.mayPrecede_cancelled phase')
        fun phase' _ => Phase.mayPrecede_of_not_live rfl phase'
  · refine h.close hs (Nat.le_refl _) (woken_nil s _) ht hc rfl ?_
    rw [queue_cancel hs ht (by simp [hq]), hq]

/-- An event that comes between two steps puts nobody in front of another. -/
theorem InTurn.apply (h : InTurn s) (hs : Consistent s) (ha : Awake s) (hq : s.queue = [])
    (event : Event) : InTurn (s.apply event) := by
  have hl := h.rest hq
  cases event with
  | start jobs => exact hl.start ha hq jobs
  | finish call retrieved => exact hl.finish hq call retrieved
  | cancel n => exact hl.cancel hs hq n

/-! ## The order of completion -/

/-- The tasks for one identifier completed in the order in which they were started. -/
def InOrder (s : Service) : Prop :=
  s.completed.Pairwise fun a b => ∀ (job job' : Job) (phase phase' : Phase),
    s.tasks[a]? = some ⟨job, phase⟩ → s.tasks[b]? = some ⟨job', phase'⟩ →
    job'.identifier = job.identifier → a < b

theorem task_of_mem_completed (fetcher : Fetcher) (action : Action)
    (hd : ∀ n, n ∈ s.completed ↔ s.Done n) (hm : m ∈ s.completed)
    (ht : (act fetcher s action).tasks[m]? = some ⟨job, phase⟩) :
    s.tasks[m]? = some ⟨job, phase⟩ := by
  obtain ⟨job', outcome, hs⟩ := (hd m).1 hm
  rw [task_act_of_ended fetcher action hs rfl] at ht
  rw [hs, ht]

/-- Whatever is done, those who completed before keep the order. -/
theorem InOrder.pairwise_act (h : InOrder s) (hd : ∀ n, n ∈ s.completed ↔ s.Done n)
    (fetcher : Fetcher) (action : Action) :
    s.completed.Pairwise fun a b => ∀ (job job' : Job) (phase phase' : Phase),
      (act fetcher s action).tasks[a]? = some ⟨job, phase⟩ →
      (act fetcher s action).tasks[b]? = some ⟨job', phase'⟩ →
      job'.identifier = job.identifier → a < b := by
  refine List.Pairwise.imp_of_mem ?_ h
  intro a b ha hb hab ja jb pa pb hta htb hid
  exact hab ja jb pa pb (task_of_mem_completed fetcher action hd ha hta)
    (task_of_mem_completed fetcher action hd hb htb) hid

theorem InOrder.act_of_eq (fetcher : Fetcher) (h : InOrder s)
    (hd : ∀ n, n ∈ s.completed ↔ s.Done n)
    (action : Action) (hc : (act fetcher s action).completed = s.completed) :
    InOrder (act fetcher s action) := by
  unfold InOrder
  rw [hc]
  exact h.pairwise_act hd fetcher action

/-- Who has completed was started before those who are still alive. -/
theorem Ranked.lt_of_done (h : Ranked s) (hd : s.Done n)
    (hn : s.tasks[n]? = some ⟨job, phase⟩) (hm : s.tasks[m]? = some ⟨job', phase'⟩)
    (hl : phase'.isLive = true) (hid : job'.identifier = job.identifier) : n < m := by
  obtain ⟨job'', outcome, hn'⟩ := hd
  obtain ⟨-, rfl⟩ := Task.mk.inj (Option.some.inj (hn'.symm.trans hn))
  rcases Nat.lt_trichotomy n m with hnm | rfl | hmn
  · exact hnm
  · obtain ⟨-, rfl⟩ := Task.mk.inj (Option.some.inj (hn.symm.trans hm))
    cases hl
  · have hle := h m n _ _ _ _ hmn hm hn hid.symm
    rw [hle.not_live] at hl
    cases hl

/-- Who completes leaves nobody behind that was started earlier. -/
theorem InOrder.poll (h : InOrder s) (hr : Ranked s) (hd : ∀ n, n ∈ s.completed ↔ s.Done n)
    (n : Nat) : InOrder (s.poll fetcher n) := by
  rcases (resumed_poll fetcher s n).completed_eq_or with ⟨hc, -⟩ | ⟨hc, -, job, phase, hn, hl⟩
  · exact h.act_of_eq fetcher hd (.poll n) hc
  · have hn : s.tasks[n]? = some ⟨job, phase⟩ := hn
    obtain ⟨phase', hn'⟩ := task_act fetcher (.poll n) hn
    unfold InOrder
    rw [hc, List.pairwise_append]
    refine ⟨h.pairwise_act hd fetcher (.poll n), List.pairwise_singleton _ _, ?_⟩
    intro a ha b hb ja jb pa pb hta htb hid
    obtain rfl := List.mem_singleton.1 hb
    obtain ⟨rfl, -⟩ := Task.mk.inj (Option.some.inj (hn'.symm.trans htb))
    have hsa := task_of_mem_completed fetcher (.poll b) hd ha hta
    exact hr.lt_of_done ((hd a).1 ha) hsa hn hl hid

/-- What holds at every moment of a run. -/
structure Fair (s : Service) : Prop where
  consistent : Consistent s
  awake : Awake s
  inTurn : InTurn s
  mem_completed : ∀ n, n ∈ s.completed ↔ s.Done n
  inOrder : InOrder s

theorem fair_empty : Fair empty where
  consistent := consistent_empty
  awake m job phase ht := by simp [empty] at ht
  inTurn := by
    refine ⟨0, [], ⟨fun n job phase ht => ?_, ?_, ?_⟩, rfl, woken_nil _ _⟩
    · simp [empty] at ht
    · intro i j job job' phase phase' hij hi
      simp [empty] at hi
    · intro key call waiters c hk
      simp [empty] at hk
  mem_completed n := by simp [empty, Done]
  inOrder := List.Pairwise.nil

theorem InTurn.ranked (h : InTurn s) : Ranked s := by
  obtain ⟨k, woken, hl, -, -⟩ := h
  exact hl.ranked

theorem InTurn.listed (h : InTurn s) : Listed s := by
  obtain ⟨k, woken, hl, -, -⟩ := h
  exact hl.listed

theorem Fair.turn (h : Fair s) (fetcher : Fetcher) : Fair (Service.turn fetcher s) := by
  have hturn : InTurn (Service.turn fetcher s) := h.inTurn.turn h.consistent h.awake
  rcases turn_eq_self_or_poll fetcher s with he | ⟨n, -, he⟩
  · rwa [he]
  · rw [he] at hturn ⊢
    exact ⟨h.consistent.poll fetcher n, h.awake.act h.consistent fetcher (.poll n), hturn,
      mem_completed_act fetcher (.poll n) h.mem_completed,
      h.inOrder.poll h.inTurn.ranked h.mem_completed n⟩

theorem Fair.turns (h : Fair s) (fetcher : Fetcher) (k : Nat) :
    Fair (Service.turns fetcher k s) := by
  induction k with
  | zero => exact h
  | succ k ih =>
    rw [turns_succ']
    exact ih.turn fetcher

theorem Fair.apply (h : Fair s) (hq : s.queue = []) (fetcher : Fetcher) (event : Event) :
    Fair (s.apply event) where
  consistent := h.consistent.apply event
  awake := h.awake.apply h.consistent event
  inTurn := h.inTurn.apply h.consistent h.awake hq event
  mem_completed := mem_completed_act fetcher (.event event) h.mem_completed
  inOrder := h.inOrder.act_of_eq fetcher h.mem_completed (.event event)
    (completed_apply s event)

theorem fair_run (fetcher : Fetcher) (events : List Event) : Fair (run fetcher events) := by
  induction events using List.reverseRecOn with
  | nil => exact fair_empty
  | append_singleton events event ih =>
    rw [run_append]
    exact (ih.apply (queue_run fetcher events) fetcher event).turns fetcher _

/-! ## Who was started first completes first -/

theorem InOrder.sublist (h : InOrder s) (hlt : n < m) (hn : n ∈ s.completed)
    (hm : m ∈ s.completed) (htn : s.tasks[n]? = some ⟨job, phase⟩)
    (htm : s.tasks[m]? = some ⟨job', phase'⟩) (hid : job'.identifier = job.identifier) :
    [n, m].Sublist s.completed := by
  obtain ⟨before, after, hb⟩ := List.append_of_mem hn
  rw [hb] at hm ⊢
  have hm' : m ∈ after := by
    rcases List.mem_append.1 hm with hm | hm
    · -- otherwise the later one would have completed first
      unfold InOrder at h
      rw [hb, List.pairwise_append] at h
      have hmn := h.2.2 m hm n List.mem_cons_self job' job phase' phase htm htn hid.symm
      omega
    · rcases List.mem_cons.1 hm with rfl | hm
      · exact absurd hlt (Nat.lt_irrefl m)
      · exact hm
  exact ((List.singleton_sublist.2 hm').cons_cons n).trans (List.sublist_append_right _ _)

/-- Tasks for one identifier complete in the order in which they are listed. -/
theorem InOrder.filter_completed (h : InOrder s) (hn : s.completed.Nodup) {listed : List Nat}
    {identifier : String} (hlisted : listed.Pairwise (· < ·))
    (hid : ∀ m ∈ listed, ∃ job phase, s.tasks[m]? = some ⟨job, phase⟩ ∧
      job.identifier = identifier) :
    s.completed.filter (· ∈ listed) = listed.filter (· ∈ s.completed) := by
  have hcompleted : (s.completed.filter (· ∈ listed)).Pairwise (· < ·) := by
    refine List.Pairwise.imp_of_mem ?_ (List.Pairwise.sublist List.filter_sublist h)
    intro a b ha hb hab
    obtain ⟨ja, pa, hta, hja⟩ := hid a (by simpa using List.of_mem_filter ha)
    obtain ⟨jb, pb, htb, hjb⟩ := hid b (by simpa using List.of_mem_filter hb)
    exact hab ja jb pa pb hta htb (hjb.trans hja.symm)
  have hperm : (s.completed.filter (· ∈ listed)).Perm (listed.filter (· ∈ s.completed)) := by
    rw [List.perm_ext_iff_of_nodup (hn.filter _) ((hlisted.imp Nat.ne_of_lt).filter _)]
    intro a
    simp [and_comm]
  refine hperm.eq_of_pairwise ?_ hcompleted (hlisted.filter _)
  intro a b _ _ hab hba
  exact absurd hab (Nat.lt_asymm hba)

/-- The task that retrieves and everybody who is listed as a waiter asked for the identifier. -/
theorem Consistent.asked_of_pending (hs : Consistent s) {identifier : String}
    {waiters : List Nat} (he : s.table.get? identifier = some (.pending call waiters)) :
    ∃ n job, s.tasks[n]? = some ⟨job, .retrieving call⟩ ∧ job.identifier = identifier ∧
      (∃ retrieved, s.calls[call]? = some ⟨identifier, n, retrieved⟩) ∧
      ∀ m ∈ n :: waiters, ∃ job phase, s.tasks[m]? = some ⟨job, phase⟩ ∧
        job.identifier = identifier := by
  obtain ⟨⟨n, job, retrieved, hc, ht⟩, -, hw⟩ := hs.entry _ _ he
  obtain ⟨retrieved', hc'⟩ := hs.call_of_retrieving ht
  have hid : job.identifier = identifier :=
    (Call.mk.inj (Option.some.inj (hc'.symm.trans hc))).1
  refine ⟨n, job, ht, hid, ⟨retrieved, hc⟩, fun m hm => ?_⟩
  rcases List.mem_cons.1 hm with rfl | hm
  · exact ⟨job, _, ht, hid⟩
  · obtain ⟨job', phase, ht', hid', -⟩ := hw m hm
    exact ⟨job', phase, ht', hid'⟩

/-- Those who are behind one retrieval complete in the order in which they are listed there. -/
theorem filter_completed_run (fetcher : Fetcher) (events events' : List Event) (event : Event)
    (k : Nat) {identifier : String} {waiters : List Nat}
    (he : (turns fetcher k ((run fetcher events).apply event)).table.get? identifier =
      some (.pending call waiters))
    (ht : (turns fetcher k ((run fetcher events).apply event)).tasks[n]? =
      some ⟨job, .retrieving call⟩) :
    (run fetcher (events ++ event :: events')).completed.filter (· ∈ n :: waiters) =
      (n :: waiters).filter (· ∈ (run fetcher (events ++ event :: events')).completed) := by
  have hmoment : Fair (turns fetcher k ((run fetcher events).apply event)) :=
    ((fair_run fetcher events).apply (queue_run fetcher events) fetcher event).turns fetcher k
  obtain ⟨n', job', ht', -, ⟨retrieved, hc⟩, hasked⟩ := hmoment.consistent.asked_of_pending he
  obtain ⟨retrieved', hc'⟩ := hmoment.consistent.call_of_retrieving ht
  have hn : n' = n := (Call.mk.inj (Option.some.inj (hc.symm.trans hc'))).2.1
  subst hn
  have hlater (m : Nat) (hm : m ∈ n' :: waiters) : ∃ job phase,
      (run fetcher (events ++ event :: events')).tasks[m]? = some ⟨job, phase⟩ ∧
        job.identifier = identifier := by
    obtain ⟨job'', phase, htm, hid⟩ := hasked m hm
    obtain ⟨actions, ha⟩ := run_eq_foldl_turns fetcher events events' event k
    obtain ⟨phase', htm'⟩ := task_foldl fetcher actions htm
    rw [ha]
    exact ⟨job'', phase', htm', hid⟩
  exact (fair_run fetcher _).inOrder.filter_completed (nodup_completed_run fetcher _)
    (hmoment.inTurn.listed _ _ _ _ he hc) hlater

/-- After every step of a run the tasks for one identifier that have completed did so in the
order in which they were started. Those whom one retrieval serves or fails complete in the order
in which it lists them, at whatever moment of whichever step that is: first the task that
retrieves and then the waiters as they came. -/
theorem completed_in_order (fetcher : Fetcher) (events : List Event) :
    let s := run fetcher events
    (∀ n, n ∈ s.completed ↔ ∃ job outcome, s.tasks[n]? = some ⟨job, .completed outcome⟩) ∧
    s.completed.Nodup ∧
    (∀ i j job job' outcome outcome', i < j → s.tasks[i]? = some ⟨job, .completed outcome⟩ →
      s.tasks[j]? = some ⟨job', .completed outcome'⟩ → job'.identifier = job.identifier →
      [i, j].Sublist s.completed) ∧
    ∀ event k identifier call waiters,
      let moment := turns fetcher k (s.apply event)
      moment.table.get? identifier = some (.pending call waiters) →
      ∃ n job, moment.tasks[n]? = some ⟨job, .retrieving call⟩ ∧ job.identifier = identifier ∧
        ∀ events', let t := run fetcher (events ++ event :: events')
          t.completed.filter (· ∈ n :: waiters) =
            (n :: waiters).filter (· ∈ t.completed) := by
  intro s
  have h : Fair s := fair_run fetcher events
  refine ⟨h.mem_completed, nodup_completed_run fetcher events, ?_, ?_⟩
  · intro i j job job' outcome outcome' hij hi hj hid
    have hi' : i ∈ s.completed := (h.mem_completed i).2 ⟨job, outcome, hi⟩
    have hj' : j ∈ s.completed := (h.mem_completed j).2 ⟨job', outcome', hj⟩
    exact h.inOrder.sublist hij hi' hj' hi hj hid
  · intro event k identifier call waiters moment he
    have hmoment : Consistent moment := (h.consistent.apply event).turns fetcher k
    obtain ⟨n, job, ht, hid, -⟩ := hmoment.asked_of_pending he
    refine ⟨n, job, ht, hid, fun events' => ?_⟩
    exact filter_completed_run fetcher events events' event k he ht

end Service

end Excerpt
