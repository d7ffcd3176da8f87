import Excerpt.Proofs.Service.Renumbering

/-!
# What one identifier sees of the service

The part of a service that concerns one identifier is made of the tasks that ask for it, its calls
and its table entry, all numbered anew. On that part every operation for the identifier does what
it does on the whole, and operations for other identifiers do nothing.
-/

namespace Excerpt

def Task.isFor (identifier : String) (task : Task) : Bool := task.identifier = identifier

@[simp] theorem Task.isFor_iff {identifier : String} {task : Task} :
    task.isFor identifier = true ↔ task.job.identifier = identifier := by
  unfold isFor
  rw [decide_eq_true_iff]
  rfl

def Call.isFor (identifier : String) (c : Call) : Bool := c.identifier = identifier

@[simp] theorem Call.isFor_iff {identifier : String} {c : Call} :
    c.isFor identifier = true ↔ c.identifier = identifier := by
  unfold isFor
  rw [decide_eq_true_iff]

attribute [ext] Service

namespace Service

/-- Whether there is such a task and it asks for the identifier. -/
def asksFor (s : Service) (identifier : String) (n : Nat) : Bool :=
  (s.tasks[n]?).any (Task.isFor identifier)

/-- The number of a task among those that ask for the identifier. -/
def taskRank (s : Service) (identifier : String) : Nat → Nat :=
  rank (Task.isFor identifier) s.tasks

/-- The number of a call among those for the identifier. -/
def callRank (s : Service) (identifier : String) : Nat → Nat :=
  rank (Call.isFor identifier) s.calls

/-- Those of the tasks that ask for the identifier, by their new numbers. -/
def ranked (s : Service) (identifier : String) (numbers : List Nat) : List Nat :=
  (numbers.filter (s.asksFor identifier)).map (s.taskRank identifier)

def restrict (s : Service) (identifier : String) : Service where
  tasks := (s.tasks.filter (Task.isFor identifier)).map (Task.renumber (s.callRank identifier))
  calls := (s.calls.filter (Call.isFor identifier)).map (Call.renumber (s.taskRank identifier))
  table := ((s.table.get? identifier).map fun entry =>
    (identifier, entry.renumber (s.taskRank identifier) (s.callRank identifier))).toList
  queue := s.ranked identifier s.queue
  completed := s.ranked identifier s.completed

variable {s t : Service} {b : String} {n m k call : Nat} {job : Job} {phase : Phase} {c : Call}

/-! ## What is found there -/

theorem asksFor_iff : s.asksFor b n = true ↔
    ∃ job phase, s.tasks[n]? = some ⟨job, phase⟩ ∧ job.identifier = b := by
  unfold asksFor
  cases s.tasks[n]? with
  | none => simp
  | some task =>
    rw [Option.any_some, Task.isFor_iff]
    constructor
    · intro h
      exact ⟨task.job, task.phase, rfl, h⟩
    · rintro ⟨job, phase, he, rfl⟩
      rw [Option.some.inj he]

theorem asksFor_of_task (ht : s.tasks[n]? = some ⟨job, phase⟩) :
    s.asksFor job.identifier n = true := asksFor_iff.2 ⟨job, phase, ht, rfl⟩

theorem identifier_of_asksFor (h : s.asksFor b n = true) (ht : s.tasks[n]? = some ⟨job, phase⟩) :
    job.identifier = b := by
  obtain ⟨job', phase', ht', hid⟩ := asksFor_iff.1 h
  rw [(Task.mk.inj (Option.some.inj (ht.symm.trans ht'))).1, hid]

theorem task_restrict (h : s.asksFor b n = true) (ht : s.tasks[n]? = some ⟨job, phase⟩) :
    (s.restrict b).tasks[s.taskRank b n]? = some ⟨job, phase.renumber (s.callRank b)⟩ := by
  have hrank := getElem?_filter_rank ht (Task.isFor_iff.2 (identifier_of_asksFor h ht))
  simp only [restrict, List.getElem?_map, taskRank, hrank]
  rfl

theorem call_restrict (hc : s.calls[k]? = some c) (hid : c.identifier = b) :
    (s.restrict b).calls[s.callRank b k]? = some (c.renumber (s.taskRank b)) := by
  have hrank := getElem?_filter_rank hc (Call.isFor_iff.2 hid)
  simp only [restrict, List.getElem?_map, callRank, hrank]
  rfl

theorem taskRank_inj (hm : s.asksFor b m = true) (hn : s.asksFor b n = true)
    (h : s.taskRank b m = s.taskRank b n) : m = n := by
  obtain ⟨job, phase, hm', hid⟩ := asksFor_iff.1 hm
  obtain ⟨job', phase', hn', hid'⟩ := asksFor_iff.1 hn
  exact rank_inj hm' (Task.isFor_iff.2 hid) hn' (Task.isFor_iff.2 hid') h

@[simp] theorem get?_restrict (s : Service) (b : String) : (s.restrict b).table.get? b =
    (s.table.get? b).map (Entry.renumber (s.taskRank b) (s.callRank b)) := by
  cases he : s.table.get? b with
  | none => simp [restrict, he]
  | some entry => simp [restrict, he, Keyed.get?_cons]

theorem mem_ranked_iff {numbers : List Nat} (hn : s.asksFor b n = true) :
    s.taskRank b n ∈ s.ranked b numbers ↔ n ∈ numbers := by
  unfold ranked
  rw [List.mem_map]
  constructor
  · rintro ⟨m, hm, he⟩
    obtain ⟨hmem, hfor⟩ := List.mem_filter.1 hm
    rwa [← taskRank_inj hfor hn he]
  · intro hmem
    exact ⟨n, List.mem_filter.2 ⟨hmem, hn⟩, rfl⟩

theorem ranked_snoc_of_asksFor (h : s.asksFor b n = true) (numbers : List Nat) :
    s.ranked b (numbers ++ [n]) = s.ranked b numbers ++ [s.taskRank b n] := by
  simp [ranked, List.filter_append, h]

theorem ranked_snoc_of_not (h : s.asksFor b n = false) (numbers : List Nat) :
    s.ranked b (numbers ++ [n]) = s.ranked b numbers := by
  simp [ranked, List.filter_append, h]

/-! ## Phases and the queue -/

theorem asksFor_setPhase (s : Service) (n : Nat) (phase : Phase) (b : String) (m : Nat) :
    (s.setPhase n phase).asksFor b m = s.asksFor b m := by
  unfold asksFor
  rw [task_setPhase]
  split
  · cases s.tasks[m]? <;> rfl
  · rfl

theorem taskRank_setPhase (s : Service) (n : Nat) (phase : Phase) (b : String) :
    (s.setPhase n phase).taskRank b = s.taskRank b := by
  funext m
  exact rank_modify (p := Task.isFor b) (fun task => { task with phase := phase }) (fun _ => rfl)
    _ n m

theorem ranked_setPhase (s : Service) (n : Nat) (phase : Phase) (b : String)
    (numbers : List Nat) : (s.setPhase n phase).ranked b numbers = s.ranked b numbers := by
  have hfor : (s.setPhase n phase).asksFor b = s.asksFor b :=
    funext (asksFor_setPhase s n phase b)
  rw [ranked, ranked, hfor, taskRank_setPhase]

/-- Nothing but the phases of the tasks for the identifier is seen of a change of phases. -/
theorem restrict_setPhase (s : Service) (n : Nat) (phase : Phase) (b : String) :
    (s.setPhase n phase).restrict b = { s.restrict b with
      tasks := ((s.tasks.modify n fun task => { task with phase := phase }).filter
        (Task.isFor b)).map (Task.renumber (s.callRank b)) } := by
  simp only [restrict, ranked_setPhase, taskRank_setPhase]
  rfl

theorem restrict_setPhase_of_asksFor (h : s.asksFor b n = true) (phase : Phase) :
    (s.setPhase n phase).restrict b =
      (s.restrict b).setPhase (s.taskRank b n) (phase.renumber (s.callRank b)) := by
  obtain ⟨job, phase₀, ht, rfl⟩ := asksFor_iff.1 h
  rw [restrict_setPhase, filter_modify_of_pos rfl ht (Task.isFor_iff.2 rfl),
    map_modify (Task.renumber (s.callRank job.identifier))
      fun task => { task with phase := phase.renumber (s.callRank job.identifier) }]
  · rfl
  · exact fun _ => rfl

theorem restrict_setPhase_of_not (h : s.asksFor b n = false) (phase : Phase) :
    (s.setPhase n phase).restrict b = s.restrict b := by
  rw [restrict_setPhase]
  cases ht : s.tasks[n]? with
  | none =>
    rw [List.modify_eq_self (List.getElem?_eq_none_iff.1 ht)]
    rfl
  | some task =>
    have hfor : Task.isFor b task = false := by simpa [asksFor, ht] using h
    rw [filter_modify_of_neg rfl ht hfor]
    rfl

theorem restrict_queue (s : Service) (b : String) (queue : List Nat) :
    ({ s with queue := queue } : Service).restrict b =
      { s.restrict b with queue := s.ranked b queue } := rfl

theorem restrict_completed (s : Service) (b : String) (completed : List Nat) :
    ({ s with completed := completed } : Service).restrict b =
      { s.restrict b with completed := s.ranked b completed } := rfl

theorem restrict_wake_of_asksFor (h : s.asksFor b n = true) :
    (s.wake n).restrict b = (s.restrict b).wake (s.taskRank b n) := by
  have hmem : s.taskRank b n ∈ (s.restrict b).queue ↔ n ∈ s.queue := mem_ranked_iff h
  unfold wake
  by_cases hn : n ∈ s.queue
  · rw [if_pos hn, if_pos (hmem.2 hn)]
  · rw [if_neg hn, if_neg (mt hmem.1 hn), restrict_queue, ranked_snoc_of_asksFor h]
    rfl

theorem restrict_wake_of_not (h : s.asksFor b n = false) :
    (s.wake n).restrict b = s.restrict b := by
  unfold wake
  split
  · rfl
  · rw [restrict_queue, ranked_snoc_of_not h]
    rfl

theorem restrict_complete_of_asksFor (h : s.asksFor b n = true) (outcome : Outcome) :
    (s.complete n outcome).restrict b =
      (s.restrict b).complete (s.taskRank b n) (outcome.renumber (s.callRank b)) := by
  unfold complete
  rw [restrict_completed, restrict_setPhase_of_asksFor h, ranked_setPhase,
    ranked_snoc_of_asksFor h]
  rfl

theorem restrict_complete_of_not (h : s.asksFor b n = false) (outcome : Outcome) :
    (s.complete n outcome).restrict b = s.restrict b := by
  unfold complete
  rw [restrict_completed, restrict_setPhase_of_not h, ranked_setPhase, ranked_snoc_of_not h]
  rfl

/-! ## Answers to waiters -/

theorem asksFor_congr (h : t.tasks = s.tasks) (b : String) : t.asksFor b = s.asksFor b := by
  funext m
  rw [asksFor, asksFor, h]

theorem taskRank_congr (h : t.tasks = s.tasks) (b : String) : t.taskRank b = s.taskRank b := by
  rw [taskRank, taskRank, h]

theorem callRank_congr (h : t.calls = s.calls) (b : String) : t.callRank b = s.callRank b := by
  rw [callRank, callRank, h]

theorem tasks_answerWaiter_eq_or (file : Option SharedSource) (s : Service) (n : Nat) :
    (answerWaiter file s n).tasks = s.tasks ∨
      (answerWaiter file s n).tasks = (s.setPhase n (.answered file)).tasks := by
  unfold answerWaiter
  split
  · exact Or.inr (tasks_wake _ n)
  · exact Or.inl rfl

theorem asksFor_answerWaiter (file : Option SharedSource) (s : Service) (n : Nat) (b : String) :
    (answerWaiter file s n).asksFor b = s.asksFor b := by
  rcases tasks_answerWaiter_eq_or file s n with h | h
  · exact asksFor_congr h b
  · rw [asksFor_congr h]
    exact funext (asksFor_setPhase s n _ b)

theorem taskRank_answerWaiter (file : Option SharedSource) (s : Service) (n : Nat) (b : String) :
    (answerWaiter file s n).taskRank b = s.taskRank b := by
  rcases tasks_answerWaiter_eq_or file s n with h | h
  · exact taskRank_congr h b
  · rw [taskRank_congr h, taskRank_setPhase]

theorem restrict_answerWaiter_of_asksFor (h : s.asksFor b n = true)
    (file : Option SharedSource) : (answerWaiter file s n).restrict b =
      answerWaiter (file.map (SharedSource.renumber (s.callRank b))) (s.restrict b)
        (s.taskRank b n) := by
  obtain ⟨job, phase, ht, -⟩ := asksFor_iff.1 h
  unfold answerWaiter
  rw [phase?_of_task ht, phase?_of_task (task_restrict h ht)]
  cases phase with
  | waiting call =>
    have hn : (s.setPhase n (.answered file)).asksFor b n = true := by
      rwa [asksFor_setPhase]
    simp only [Phase.renumber]
    rw [restrict_wake_of_asksFor hn, restrict_setPhase_of_asksFor h, taskRank_setPhase]
    rfl
  | _ => rfl

theorem restrict_answerWaiter_of_not (h : s.asksFor b n = false) (file : Option SharedSource) :
    (answerWaiter file s n).restrict b = s.restrict b := by
  unfold answerWaiter
  split
  · have hn : (s.setPhase n (.answered file)).asksFor b n = false := by
      rwa [asksFor_setPhase]
    rw [restrict_wake_of_not hn, restrict_setPhase_of_not h]
  · rfl

theorem restrict_answerWaiters_of_asksFor {waiters : List Nat}
    (h : ∀ m ∈ waiters, s.asksFor b m = true) (file : Option SharedSource) :
    (s.answerWaiters waiters file).restrict b =
      (s.restrict b).answerWaiters (waiters.map (s.taskRank b))
        (file.map (SharedSource.renumber (s.callRank b))) := by
  induction waiters generalizing s with
  | nil => rfl
  | cons n waiters ih =>
    have hn : s.asksFor b n = true := h n List.mem_cons_self
    have hwaiters (m : Nat) (hm : m ∈ waiters) : (answerWaiter file s n).asksFor b m = true := by
      rw [asksFor_answerWaiter]
      exact h m (List.mem_cons_of_mem n hm)
    rw [answerWaiters_cons, ih hwaiters, restrict_answerWaiter_of_asksFor hn,
      taskRank_answerWaiter, callRank_congr (calls_answerWaiter file s n), List.map_cons,
      answerWaiters_cons]

theorem restrict_answerWaiters_of_not {waiters : List Nat}
    (h : ∀ m ∈ waiters, s.asksFor b m = false) (file : Option SharedSource) :
    (s.answerWaiters waiters file).restrict b = s.restrict b := by
  induction waiters generalizing s with
  | nil => rfl
  | cons n waiters ih =>
    have hwaiters (m : Nat) (hm : m ∈ waiters) : (answerWaiter file s n).asksFor b m = false := by
      rw [asksFor_answerWaiter]
      exact h m (List.mem_cons_of_mem n hm)
    rw [answerWaiters_cons, ih hwaiters, restrict_answerWaiter_of_not (h n List.mem_cons_self)]

/-! ## The table -/

def enter (s : Service) (identifier : String) (entry : Entry) : Service :=
  { s with table := s.table.put identifier entry }

theorem restrict_enter_self (s : Service) (b : String) (entry : Entry) :
    (s.enter b entry).restrict b =
      (s.restrict b).enter b (entry.renumber (s.taskRank b) (s.callRank b)) := by
  have hput : (s.enter b entry).table.get? b = some entry := Keyed.get?_put_self _ _ _
  have htable : (s.restrict b).table.put b (entry.renumber (s.taskRank b) (s.callRank b)) =
      [(b, entry.renumber (s.taskRank b) (s.callRank b))] := by
    unfold restrict
    cases s.table.get? b with
    | none => rfl
    | some entry' => simp [Keyed.put]
  refine Service.ext rfl rfl ?_ rfl rfl
  change (((s.enter b entry).table.get? b).map _).toList = _
  rw [hput]
  exact htable.symm

theorem restrict_table_congr {table : Keyed Entry} (h : table.get? b = s.table.get? b) :
    ({ s with table := table } : Service).restrict b = s.restrict b := by
  rw [restrict, h]
  rfl

theorem restrict_enter_of_ne {identifier : String} (h : identifier ≠ b) (s : Service)
    (entry : Entry) : (s.enter identifier entry).restrict b = s.restrict b := by
  refine restrict_table_congr ?_
  rw [Keyed.get?_put, if_neg h]

theorem restrict_forget_self (s : Service) (b : String) :
    (s.forget b).restrict b = (s.restrict b).forget b := by
  have herase : (s.forget b).table.get? b = none := by
    rw [forget, Keyed.get?_erase, if_pos rfl]
  have htable : (s.restrict b).table.erase b = [] := by
    unfold restrict
    cases s.table.get? b with
    | none => rfl
    | some entry => simp [Keyed.erase]
  refine Service.ext rfl rfl ?_ rfl rfl
  change (((s.forget b).table.get? b).map _).toList = _
  rw [herase]
  exact htable.symm

theorem restrict_forget_of_ne {identifier : String} (h : identifier ≠ b) (s : Service) :
    (s.forget identifier).restrict b = s.restrict b := by
  refine restrict_table_congr ?_
  rw [Keyed.get?_erase, if_neg h]

/-! ## Calls -/

def addCall (s : Service) (c : Call) : Service := { s with calls := s.calls ++ [c] }

/-- A new call for the identifier is the last one there, too. -/
theorem restrict_addCall_of_eq (hc : c.identifier = b)
    (ht : ∀ task ∈ s.tasks, ∀ call, task.phase.call? = some call → call ≤ s.calls.length)
    (he : ∀ entry, s.table.get? b = some entry → entry.call ≤ s.calls.length) :
    (s.addCall c).restrict b = (s.restrict b).addCall (c.renumber (s.taskRank b)) := by
  have hrank {call : Nat} (h : call ≤ s.calls.length) :
      (s.addCall c).callRank b call = s.callRank b call := rank_append _ _ h
  refine Service.ext ?_ ?_ ?_ rfl rfl
  · refine List.map_congr_left fun task hm => ?_
    rw [Task.renumber, Task.renumber, Phase.renumber_congr]
    exact fun call hcall => hrank (ht task (List.mem_of_mem_filter hm) call hcall)
  · change ((s.calls ++ [c]).filter (Call.isFor b)).map _ = _
    have hfor : c.isFor b = true := Call.isFor_iff.2 hc
    rw [List.filter_append, List.map_append, List.filter_cons_of_pos hfor]
    rfl
  · refine congrArg Option.toList (Option.map_congr fun entry hm => ?_)
    rw [Entry.renumber_congr (fun _ _ => rfl) (hrank (he entry hm))]
    rfl

theorem restrict_addCall_of_ne (hc : c.identifier ≠ b) (s : Service) :
    (s.addCall c).restrict b = s.restrict b := by
  have hfor : c.isFor b = false := by simpa [Bool.eq_false_iff] using hc
  have hrank : (s.addCall c).callRank b = s.callRank b :=
    funext fun k => rank_snoc_of_neg s.calls k hfor
  have hcalls : (s.calls ++ [c]).filter (Call.isFor b) = s.calls.filter (Call.isFor b) := by
    simp [List.filter_append, hfor]
  refine Service.ext ?_ ?_ ?_ rfl rfl
  · simp only [restrict, hrank]
    rfl
  · change ((s.calls ++ [c]).filter (Call.isFor b)).map _ = _
    rw [hcalls]
    rfl
  · simp only [restrict, hrank]
    rfl

/-- A call that is not open is not changed by this. -/
def giveBack (s : Service) (call : Nat) (retrieved : Retrieved) : Service :=
  { s with calls := s.calls.modify call fun c => { c with retrieved := some retrieved } }

theorem callRank_giveBack (s : Service) (call : Nat) (retrieved : Retrieved) (b : String) :
    (s.giveBack call retrieved).callRank b = s.callRank b := by
  funext k
  exact rank_modify (p := Call.isFor b) (fun c => { c with retrieved := some retrieved })
    (fun _ => rfl) _ call k

theorem restrict_giveBack (s : Service) (call : Nat) (retrieved : Retrieved) (b : String) :
    (s.giveBack call retrieved).restrict b = { s.restrict b with
      calls := ((s.giveBack call retrieved).calls.filter (Call.isFor b)).map
        (Call.renumber (s.taskRank b)) } := by
  simp only [restrict, callRank_giveBack]
  rfl

theorem restrict_giveBack_of_eq (hc : s.calls[call]? = some c) (hid : c.identifier = b)
    (retrieved : Retrieved) : (s.giveBack call retrieved).restrict b =
      (s.restrict b).giveBack (s.callRank b call) retrieved := by
  refine (restrict_giveBack s call retrieved b).trans ?_
  refine Service.ext rfl ?_ rfl rfl rfl
  change ((s.calls.modify call _).filter (Call.isFor b)).map _ = _
  rw [filter_modify_of_pos rfl hc (Call.isFor_iff.2 hid), map_modify (Call.renumber (s.taskRank b))
    fun c => { c with retrieved := some retrieved }]
  · rfl
  · exact fun _ => rfl

theorem restrict_giveBack_of_ne (hc : s.calls[call]? = some c) (hid : c.identifier ≠ b)
    (retrieved : Retrieved) : (s.giveBack call retrieved).restrict b = s.restrict b := by
  have hfor : c.isFor b = false := by simpa [Bool.eq_false_iff] using hid
  refine (restrict_giveBack s call retrieved b).trans ?_
  refine Service.ext rfl ?_ rfl rfl rfl
  change ((s.calls.modify call _).filter (Call.isFor b)).map _ = _
  rw [filter_modify_of_neg rfl hc hfor]
  rfl

end Service

end Excerpt
