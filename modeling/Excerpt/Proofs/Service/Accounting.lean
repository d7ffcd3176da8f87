import Excerpt.Proofs.Service.Awake
import Excerpt.Proofs.Service.Resuming

/-!
# How often a file is retrieved

Each call for an identifier has come to an error, was withdrawn, is under way or has
succeeded. Of the last two there is one just while the table has an entry. So calls are
made again only after a failure, and once a file is there it stays, and everybody who asks
for it later gets it.
-/

namespace Excerpt

/-- What has become of a call. -/
inductive Fate where
  | underway
  | succeeded
  | erred
  /-- The task was cancelled before it took what the call returned. -/
  | withdrawn
deriving DecidableEq, Repr

/-- What becomes of a call whose task takes this. -/
def Retrieved.fate : Retrieved → Fate
  | .content _ => .succeeded
  | .missing => .erred
  | .unreadable _ => .erred

namespace Service

variable {s t : Service} {n k : Nat} {c : Call} {job : Job} {phase : Phase} {identifier : String}
  {file : SharedSource}

def fate (s : Service) (c : Call) : Fate :=
  match s.phase? c.task, c.retrieved with
  | some .cancelled, _ => .withdrawn
  | some (.completed _), some retrieved => retrieved.fate
  | _, _ => .underway

def callCount (s : Service) (identifier : String) : Nat :=
  s.calls.countP fun c => c.identifier == identifier

def fateCount (s : Service) (identifier : String) (fate : Fate) : Nat :=
  s.calls.countP fun c => c.identifier == identifier && s.fate c == fate

theorem callCount_eq_add (s : Service) (identifier : String) :
    s.callCount identifier = s.fateCount identifier .underway +
      s.fateCount identifier .succeeded + s.fateCount identifier .erred +
      s.fateCount identifier .withdrawn := by
  unfold callCount fateCount
  generalize s.fate = f
  induction s.calls with
  | nil => rfl
  | cons c calls ih =>
    simp only [List.countP_cons]
    cases f c <;> simp <;> omega

/-! ## Calls and entries -/

theorem fate_of_retrieving {call : Nat} (ht : s.tasks[c.task]? = some ⟨job, .retrieving call⟩) :
    s.fate c = .underway := by simp [fate, phase?_of_task ht]

theorem fate_of_cancelled (ht : s.tasks[c.task]? = some ⟨job, .cancelled⟩) :
    s.fate c = .withdrawn := by simp [fate, phase?_of_task ht]

theorem fate_of_completed {outcome : Outcome} {retrieved : Retrieved}
    (ht : s.tasks[c.task]? = some ⟨job, .completed outcome⟩) (hr : c.retrieved = some retrieved) :
    s.fate c = retrieved.fate := by simp [fate, phase?_of_task ht, hr]

/-- Where the entry of an identifier comes in for one of its calls. -/
theorem Consistent.fate_eq_or (h : Consistent s) (hc : s.calls[k]? = some c) :
    (s.fate c = .underway ∧
      ∃ waiters, s.table.get? c.identifier = some (.pending k waiters)) ∨
    (s.fate c = .succeeded ∧
      ∃ file, s.table.get? c.identifier = some (.completed file) ∧ file.call = k) ∨
    s.fate c = .erred ∨ s.fate c = .withdrawn := by
  obtain ⟨job, phase, ht, hid, rfl | rfl | ⟨retrieved, hr, rfl⟩⟩ := h.call k c hc
  · obtain ⟨waiters, -, he, -⟩ := h.task _ _ _ ht
    rw [hid] at he
    exact Or.inl ⟨fate_of_retrieving ht, waiters, he⟩
  · exact Or.inr (Or.inr (Or.inr (fate_of_cancelled ht)))
  · have hp := h.task _ _ _ ht
    have hf := fate_of_completed ht hr
    cases retrieved with
    | content text =>
      have he : s.table.get? job.identifier = _ := hp
      rw [hid] at he
      exact Or.inr (Or.inl ⟨hf, _, he, rfl⟩)
    | missing => exact Or.inr (Or.inr (Or.inl hf))
    | unreadable reason => exact Or.inr (Or.inr (Or.inl hf))

theorem Consistent.pending_of_underway (h : Consistent s) (hc : s.calls[k]? = some c)
    (hf : s.fate c = .underway) :
    ∃ waiters, s.table.get? c.identifier = some (.pending k waiters) := by
  rcases h.fate_eq_or hc with ⟨-, he⟩ | ⟨hf', -⟩ | hf' | hf'
  · exact he
  all_goals cases hf.symm.trans hf'

theorem Consistent.completed_of_succeeded (h : Consistent s) (hc : s.calls[k]? = some c)
    (hf : s.fate c = .succeeded) :
    ∃ file, s.table.get? c.identifier = some (.completed file) ∧ file.call = k := by
  rcases h.fate_eq_or hc with ⟨hf', -⟩ | ⟨-, he⟩ | hf' | hf'
  · cases hf.symm.trans hf'
  · exact he
  all_goals cases hf.symm.trans hf'

theorem Consistent.call_of_pending (h : Consistent s) {call : Nat} {waiters : List Nat}
    (he : s.table.get? identifier = some (.pending call waiters)) :
    ∃ c, s.calls[call]? = some c ∧ c.identifier = identifier ∧ s.fate c = .underway := by
  obtain ⟨⟨n, job, retrieved, hc, ht⟩, -, -⟩ := h.entry _ _ he
  exact ⟨_, hc, rfl, fate_of_retrieving ht⟩

theorem Consistent.call_of_completed (h : Consistent s)
    (he : s.table.get? identifier = some (.completed file)) :
    ∃ c, s.calls[file.call]? = some c ∧ c.identifier = identifier ∧ s.fate c = .succeeded := by
  obtain ⟨n, job, text, hc, -, ht⟩ := h.entry _ _ he
  have hf : s.fate ⟨identifier, n, some (.content text)⟩ = (Retrieved.content text).fate :=
    fate_of_completed ht rfl
  exact ⟨_, hc, rfl, hf⟩

/-! ## Counting -/

theorem countP_eq_one_of_unique {α : Type} {l : List α} {p : α → Bool} {i : Nat} {x : α}
    (hi : l[i]? = some x) (hx : p x = true)
    (hu : ∀ (j : Nat) (y : α), l[j]? = some y → p y = true → j = i) : l.countP p = 1 := by
  induction l generalizing i with
  | nil => simp at hi
  | cons a l ih =>
    rw [List.countP_cons]
    cases i with
    | zero =>
      obtain rfl : a = x := by simpa using hi
      have hl : l.countP p = 0 := by
        rw [List.countP_eq_zero]
        intro y hy hp
        obtain ⟨j, hj⟩ := List.mem_iff_getElem?.1 hy
        cases hu (j + 1) y hj hp
      rw [hl, if_pos hx]
    | succ i =>
      have ha : ¬ p a = true := fun ha => by cases hu 0 a rfl ha
      rw [if_neg ha]
      refine ih hi fun j y hj hp => ?_
      exact Nat.succ.inj (hu (j + 1) y hj hp)

theorem fateCount_eq_one {fate : Fate} (hc : s.calls[k]? = some c)
    (hid : c.identifier = identifier) (hf : s.fate c = fate)
    (hu : ∀ (k' : Nat) (c' : Call), s.calls[k']? = some c' → c'.identifier = identifier →
      s.fate c' = fate → k' = k) : s.fateCount identifier fate = 1 := by
  refine countP_eq_one_of_unique hc (by simp [hid, hf]) fun j y hj hp => ?_
  simp only [Bool.and_eq_true, beq_iff_eq] at hp
  exact hu j y hj hp.1 hp.2

theorem fateCount_eq_zero {fate : Fate}
    (h : ∀ (k : Nat) (c : Call), s.calls[k]? = some c → c.identifier = identifier →
      s.fate c ≠ fate) : s.fateCount identifier fate = 0 := by
  refine List.countP_eq_zero.2 fun c hc hp => ?_
  simp only [Bool.and_eq_true, beq_iff_eq] at hp
  obtain ⟨k, hk⟩ := List.mem_iff_getElem?.1 hc
  exact h k c hk hp.1 hp.2

theorem isCached_iff : s.isCached identifier = true ↔
    ∃ file, s.table.get? identifier = some (.completed file) := by
  unfold isCached
  cases s.table.get? identifier with
  | none => simp
  | some entry => cases entry <;> simp

theorem Consistent.fateCount_succeeded (h : Consistent s) (identifier : String) :
    s.fateCount identifier .succeeded = if s.isCached identifier then 1 else 0 := by
  by_cases hcached : s.isCached identifier = true
  · rw [if_pos hcached]
    obtain ⟨file, he⟩ := isCached_iff.1 hcached
    obtain ⟨c, hc, hid, hf⟩ := h.call_of_completed he
    refine fateCount_eq_one hc hid hf fun k' c' hc' hid' hf' => ?_
    obtain ⟨file', he', rfl⟩ := h.completed_of_succeeded hc' hf'
    rw [hid', he] at he'
    obtain rfl := Entry.completed.inj (Option.some.inj he')
    rfl
  · rw [if_neg hcached]
    refine fateCount_eq_zero fun k c hc hid hf => hcached ?_
    obtain ⟨file, he, -⟩ := h.completed_of_succeeded hc hf
    rw [hid] at he
    exact isCached_iff.2 ⟨file, he⟩

theorem Consistent.fateCount_underway_of_pending (h : Consistent s) {call : Nat}
    {waiters : List Nat} (he : s.table.get? identifier = some (.pending call waiters)) :
    s.fateCount identifier .underway = 1 := by
  obtain ⟨c, hc, hid, hf⟩ := h.call_of_pending he
  refine fateCount_eq_one hc hid hf fun k' c' hc' hid' hf' => ?_
  obtain ⟨waiters', he'⟩ := h.pending_of_underway hc' hf'
  rw [hid', he] at he'
  exact (Entry.pending.inj (Option.some.inj he')).1.symm

theorem Consistent.fateCount_underway_eq_zero (h : Consistent s)
    (hn : ∀ call waiters, s.table.get? identifier ≠ some (.pending call waiters)) :
    s.fateCount identifier .underway = 0 := by
  refine fateCount_eq_zero fun k c hc hid hf => ?_
  obtain ⟨waiters, he⟩ := h.pending_of_underway hc hf
  rw [hid] at he
  exact hn k waiters he

/-- The call behind an entry is under way or has succeeded. -/
theorem Consistent.fateCount_entry (h : Consistent s) (identifier : String) :
    s.fateCount identifier .underway + s.fateCount identifier .succeeded =
      if (s.table.get? identifier).isSome then 1 else 0 := by
  rw [h.fateCount_succeeded]
  cases he : s.table.get? identifier with
  | none =>
    have hz : s.fateCount identifier .underway = 0 :=
      h.fateCount_underway_eq_zero (by simp [he])
    simp [hz, isCached, he]
  | some entry =>
    cases entry with
    | pending call waiters =>
      have hone := h.fateCount_underway_of_pending he
      simp [hone, isCached, he]
    | completed file =>
      have hz : s.fateCount identifier .underway = 0 :=
        h.fateCount_underway_eq_zero (by simp [he])
      simp [hz, isCached, he]

/-- Each call for an identifier has failed, was withdrawn or stands behind its entry. -/
theorem Consistent.callCount_eq (h : Consistent s) (identifier : String) :
    s.callCount identifier = s.fateCount identifier .erred + s.fateCount identifier .withdrawn +
      if (s.table.get? identifier).isSome then 1 else 0 := by
  have hadd := callCount_eq_add s identifier
  have hentry := h.fateCount_entry identifier
  omega

/-- What has become of a call is final. -/
theorem fate_act (fetcher : Fetcher) (action : Action) (h : Consistent s)
    (hc : s.calls[k]? = some c) (hf : s.fate c ≠ .underway) :
    ∃ c', (act fetcher s action).calls[k]? = some c' ∧ c'.identifier = c.identifier ∧
      (act fetcher s action).fate c' = s.fate c := by
  obtain ⟨job, phase, ht, -, rfl | rfl | ⟨retrieved, hr, rfl⟩⟩ := h.call k c hc
  · exact absurd (fate_of_retrieving ht) hf
  · obtain ⟨retrieved, hc'⟩ := call_act_of_some fetcher action hc
    refine ⟨_, hc', rfl, ?_⟩
    rw [fate_of_cancelled ht]
    exact fate_of_cancelled (task_act_of_ended fetcher action ht rfl)
  · refine ⟨c, call_act_of_returned fetcher action hc hr, rfl, ?_⟩
    rw [fate_of_completed ht hr]
    exact fate_of_completed (task_act_of_ended fetcher action ht rfl) hr

/-! ## When a call is made -/

theorem callCount_congr (h : t.calls.map Call.identifier = s.calls.map Call.identifier) :
    t.callCount identifier = s.callCount identifier := by
  have he := congrArg (List.countP fun key => key == identifier) h
  rw [List.countP_map, List.countP_map] at he
  exact he

theorem identifiers_apply (s : Service) (event : Event) :
    (s.apply event).calls.map Call.identifier = s.calls.map Call.identifier := by
  cases event with
  | start jobs => rw [apply_start_eq]
  | finish call retrieved =>
    change ((s.finish call retrieved).calls).map _ = _
    rcases finish_eq_self_or s call retrieved with he | ⟨c, hc, -, he⟩
    · rw [he]
    · rw [he, calls_wakeRetriever]
      obtain ⟨hlt, rfl⟩ := List.getElem?_eq_some_iff.1 hc
      have hset := @List.set_getElem_self _ (s.calls.map Call.identifier) call (by simpa using hlt)
      simpa using hset
  | cancel n => exact congrArg _ (calls_cancel s n)

/-- A call is made only by a task that asks for an identifier without an entry. -/
theorem callCount_act_eq_or (fetcher : Fetcher) (s : Service) (action : Action)
    (identifier : String) :
    (act fetcher s action).callCount identifier = s.callCount identifier ∨
    ∃ (n : Nat) (job : Job), action = .poll n ∧ s.tasks[n]? = some ⟨job, .started⟩ ∧
      job.identifier = identifier ∧ s.table.get? identifier = none ∧
      (act fetcher s action).callCount identifier = s.callCount identifier + 1 := by
  cases action with
  | event event => exact Or.inl (callCount_congr (identifiers_apply s event))
  | poll n =>
    rcases (resumed_poll fetcher s n).calls_eq_or with hc | ⟨job, ht, he, hc⟩
    · exact Or.inl (callCount_congr (congrArg (List.map Call.identifier) hc))
    · have hcount : (act fetcher s (.poll n)).callCount identifier =
          s.callCount identifier + if job.identifier = identifier then 1 else 0 := by
        change (s.poll fetcher n).calls.countP _ = _
        rw [hc, List.countP_append]
        simp [callCount]
      by_cases hid : job.identifier = identifier
      · rw [if_pos hid] at hcount
        subst hid
        exact Or.inr ⟨n, job, rfl, ht, rfl, he, hcount⟩
      · rw [if_neg hid] at hcount
        exact Or.inl hcount

theorem calls_poll_of_none (fetcher : Fetcher) (ht : s.tasks[n]? = some ⟨job, .started⟩)
    (he : s.table.get? job.identifier = none) :
    (s.poll fetcher n).calls = s.calls ++ [⟨job.identifier, n, fetcher job.identifier⟩] := by
  rw [poll_of_none fetcher ht he]
  exact calls_ask _ _ _ _

end Service

end Excerpt
