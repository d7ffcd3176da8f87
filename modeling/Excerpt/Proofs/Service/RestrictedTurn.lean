import Excerpt.Proofs.Service.Resuming
import Excerpt.Proofs.Service.Restriction

/-!
# A task runs on the part of an identifier

Whatever a task for the identifier does when it runs, it does on the part of the identifier, too:
it gets the file, joins the waiters, makes a call, ends its retrieval or takes what it was told.
When a task for another identifier runs, the part stays as it is.
-/

namespace Excerpt

namespace Service

variable {fetcher : Fetcher} {s t : Service} {b : String} {n m k call : Nat} {job : Job}
  {phase : Phase} {c : Call}

/-! ## What is named is there -/

theorem Consistent.entry_call_lt (hs : Consistent s) {key : String} {entry : Entry}
    (he : s.table.get? key = some entry) : entry.call < s.calls.length := by
  cases entry with
  | pending call waiters =>
    obtain ⟨⟨n, job, retrieved, hc, -⟩, -, -⟩ := hs.entry _ _ he
    exact (List.getElem?_eq_some_iff.1 hc).1
  | completed file =>
    obtain ⟨n, job, text, hc, -, -⟩ := hs.entry _ _ he
    exact (List.getElem?_eq_some_iff.1 hc).1

/-- A phase names the call that the entry of the identifier names. -/
theorem Consistent.call_lt (hs : Consistent s) (ht : s.tasks[n]? = some ⟨job, phase⟩)
    (hc : phase.call? = some call) : call < s.calls.length := by
  have hp := hs.task _ _ _ ht
  cases phase with
  | retrieving call' =>
    obtain ⟨waiters, -, he, -⟩ := hp
    obtain rfl := Option.some.inj hc
    exact hs.entry_call_lt he
  | waiting call' =>
    obtain ⟨waiters, he, -⟩ := hp
    obtain rfl := Option.some.inj hc
    exact hs.entry_call_lt he
  | answered file =>
    cases file with
    | none => cases hc
    | some file =>
      obtain rfl := Option.some.inj hc
      exact hs.entry_call_lt hp
  | completed outcome =>
    cases outcome with
    | served file =>
      obtain rfl := Option.some.inj hc
      exact hs.entry_call_lt hp
    | failed failure => cases hc
  | started => cases hc
  | cancelled => cases hc

theorem Consistent.listed_asksFor (hs : Consistent s) {entry : Entry}
    (he : s.table.get? b = some entry) (hm : m ∈ entry.listed) : s.asksFor b m = true := by
  cases entry with
  | pending call waiters =>
    obtain ⟨-, -, hw⟩ := hs.entry _ _ he
    obtain ⟨job, phase, ht, hid, -⟩ := hw m hm
    exact asksFor_iff.2 ⟨job, phase, ht, hid⟩
  | completed file => cases hm

theorem Consistent.maker_asksFor (hs : Consistent s) (hc : s.calls[k]? = some c) :
    s.asksFor c.identifier c.task = true := by
  obtain ⟨job, phase, ht, hid, -⟩ := hs.call k c hc
  exact asksFor_iff.2 ⟨job, phase, ht, hid⟩

theorem Consistent.mem_waiters_asksFor (hs : Consistent s) {identifier : String}
    (hm : m ∈ s.waiters identifier) : s.asksFor identifier m = true := by
  unfold Service.waiters at hm
  split at hm
  · next call waiters he => exact hs.listed_asksFor he hm
  · cases hm

theorem lt_of_asksFor (h : s.asksFor b n = true) : n < s.tasks.length := by
  obtain ⟨job, phase, ht, -⟩ := asksFor_iff.1 h
  exact (List.getElem?_eq_some_iff.1 ht).1

/-- A task asks for one identifier. -/
theorem not_asksFor_of_ne {identifier : String} (h : s.asksFor identifier n = true)
    (hne : identifier ≠ b) : s.asksFor b n = false := by
  obtain ⟨job, phase, ht, rfl⟩ := asksFor_iff.1 h
  rw [Bool.eq_false_iff]
  exact fun hb => hne (identifier_of_asksFor hb ht)

theorem waiters_restrict (s : Service) (b : String) :
    (s.restrict b).waiters b = (s.waiters b).map (s.taskRank b) := by
  unfold Service.waiters
  rw [get?_restrict]
  cases s.table.get? b with
  | none => rfl
  | some entry => cases entry <;> rfl

/-! ## A task runs -/

theorem restrict_join (h : s.asksFor b n = true) (call : Nat) (waiters : List Nat) :
    (s.join n call b waiters).restrict b = (s.restrict b).join (s.taskRank b n)
      (s.callRank b call) b (waiters.map (s.taskRank b)) := by
  have hjoin : s.join n call b waiters =
      (s.setPhase n (.waiting call)).enter b (.pending call (waiters ++ [n])) := rfl
  rw [hjoin, restrict_enter_self, restrict_setPhase_of_asksFor h, taskRank_setPhase, Entry.renumber,
    List.map_append]
  rfl

theorem restrict_join_of_ne {identifier : String} (h : s.asksFor identifier n = true)
    (hne : identifier ≠ b) (call : Nat) (waiters : List Nat) :
    (s.join n call identifier waiters).restrict b = s.restrict b := by
  have hjoin : s.join n call identifier waiters =
      (s.setPhase n (.waiting call)).enter identifier (.pending call (waiters ++ [n])) := rfl
  rw [hjoin, restrict_enter_of_ne hne, restrict_setPhase_of_not (not_asksFor_of_ne h hne)]

/-- The number of no call is renumbered to that of no call, and so for tasks. -/
theorem callRank_of_length_le (b : String) (h : s.calls.length ≤ call) :
    s.callRank b call = (s.restrict b).calls.length := by
  rw [callRank, rank_of_length_le _ h]
  simp [restrict]

theorem taskRank_of_length_le (b : String) (h : s.tasks.length ≤ n) :
    s.taskRank b n = (s.restrict b).tasks.length := by
  rw [taskRank, rank_of_length_le _ h]
  simp [restrict]

theorem callRank_length (s : Service) (b : String) :
    s.callRank b s.calls.length = (s.restrict b).calls.length :=
  callRank_of_length_le b (Nat.le_refl _)

theorem restrict_openCall (hs : Consistent s) (h : s.asksFor b n = true)
    (retrieved : Option Retrieved) : (s.openCall n b retrieved).restrict b =
      (s.restrict b).openCall (s.taskRank b n) b retrieved := by
  let s' := (s.setPhase n (.retrieving s.calls.length)).enter b (.pending s.calls.length [])
  have hopen : s.openCall n b retrieved = s'.addCall ⟨b, n, retrieved⟩ := rfl
  have htasks : ∀ task ∈ s'.tasks, ∀ call, task.phase.call? = some call →
      call ≤ s'.calls.length := by
    intro task hm call hc
    obtain ⟨m, hm⟩ := List.getElem?_of_mem hm
    obtain ⟨job, phase, ht, -⟩ := asksFor_iff.1 h
    rcases task_setPhase_eq_or ht hm with ⟨-, ht'⟩ | ⟨-, -, hp⟩
    · exact Nat.le_of_lt (hs.call_lt ht' hc)
    · rw [hp] at hc
      exact Nat.le_of_eq (Option.some.inj hc).symm
  have hentry : ∀ entry, s'.table.get? b = some entry → entry.call ≤ s'.calls.length := by
    intro entry he
    have hput : s'.table.get? b = some (.pending s.calls.length []) := Keyed.get?_put_self _ _ _
    obtain rfl := Option.some.inj (hput.symm.trans he)
    exact Nat.le_refl _
  rw [hopen, restrict_addCall_of_eq rfl htasks hentry, restrict_enter_self,
    restrict_setPhase_of_asksFor h]
  have hrank : s'.taskRank b = s.taskRank b := taskRank_setPhase s n _ b
  have hlength : (s.setPhase n (.retrieving s.calls.length)).callRank b s.calls.length =
    (s.restrict b).calls.length := callRank_length s b
  rw [hrank, Entry.renumber, hlength, Phase.renumber, callRank_length]
  rfl

theorem restrict_openCall_of_ne {identifier : String} (h : s.asksFor identifier n = true)
    (hne : identifier ≠ b) (retrieved : Option Retrieved) :
    (s.openCall n identifier retrieved).restrict b = s.restrict b := by
  have hopen : s.openCall n identifier retrieved =
      ((s.setPhase n (.retrieving s.calls.length)).enter identifier
        (.pending s.calls.length [])).addCall ⟨identifier, n, retrieved⟩ := rfl
  rw [hopen, restrict_addCall_of_ne hne, restrict_enter_of_ne hne,
    restrict_setPhase_of_not (not_asksFor_of_ne h hne)]

theorem asksFor_openCall (s : Service) (n : Nat) (identifier : String)
    (retrieved : Option Retrieved) (b : String) :
    (s.openCall n identifier retrieved).asksFor b = s.asksFor b :=
  funext (asksFor_setPhase s n _ b)

theorem taskRank_openCall (s : Service) (n : Nat) (identifier : String)
    (retrieved : Option Retrieved) (b : String) :
    (s.openCall n identifier retrieved).taskRank b = s.taskRank b := taskRank_setPhase s n _ b

theorem restrict_ask (hs : Consistent s) (fetcher : Fetcher) (h : s.asksFor b n = true) :
    (s.ask fetcher n b).restrict b = (s.restrict b).ask fetcher (s.taskRank b n) b := by
  unfold ask
  cases fetcher b with
  | none => exact restrict_openCall hs h none
  | some retrieved =>
    have hn : (s.openCall n b (some retrieved)).asksFor b n = true := by
      rwa [asksFor_openCall]
    simp only
    rw [restrict_wake_of_asksFor hn, restrict_openCall hs h, taskRank_openCall]

theorem restrict_ask_of_ne (fetcher : Fetcher) {identifier : String}
    (h : s.asksFor identifier n = true) (hne : identifier ≠ b) :
    (s.ask fetcher n identifier).restrict b = s.restrict b := by
  unfold ask
  cases fetcher identifier with
  | none => exact restrict_openCall_of_ne h hne none
  | some retrieved =>
    have hn : (s.openCall n identifier (some retrieved)).asksFor b n = false := by
      rw [asksFor_openCall]
      exact not_asksFor_of_ne h hne
    simp only
    rw [restrict_wake_of_not hn, restrict_openCall_of_ne h hne]

/-- The waiters are told when the retrieval of a task ends. -/
theorem restrict_tell (hs : Consistent s) (htasks : t.tasks = (s.setPhase n phase).tasks)
    (hcalls : t.calls = s.calls) (file : Option SharedSource) :
    (t.answerWaiters (s.waiters b) file).restrict b = (t.restrict b).answerWaiters
      ((s.waiters b).map (s.taskRank b)) (file.map (SharedSource.renumber (s.callRank b))) := by
  have hrank : t.taskRank b = s.taskRank b := by rw [taskRank_congr htasks, taskRank_setPhase]
  rw [restrict_answerWaiters_of_asksFor, hrank, callRank_congr hcalls]
  intro m hm
  rw [asksFor_congr htasks, asksFor_setPhase]
  exact hs.mem_waiters_asksFor hm

theorem restrict_tell_of_ne {identifier : String} (hs : Consistent s) (hne : identifier ≠ b)
    (htasks : t.tasks = (s.setPhase n phase).tasks) (file : Option SharedSource) :
    (t.answerWaiters (s.waiters identifier) file).restrict b = t.restrict b := by
  refine restrict_answerWaiters_of_not (fun m hm => ?_) file
  rw [asksFor_congr htasks, asksFor_setPhase]
  exact not_asksFor_of_ne (hs.mem_waiters_asksFor hm) hne

theorem restrict_settle (hs : Consistent s) (h : s.asksFor b n = true) (call : Nat)
    (retrieved : Retrieved) : (s.settle n call b retrieved).restrict b =
      (s.restrict b).settle (s.taskRank b n) (s.callRank b call) b retrieved := by
  unfold settle
  rw [waiters_restrict, Retrieved.outcome_renumber]
  cases retrieved.outcome call b with
  | served file =>
    have hn : (s.enter b (.completed file)).asksFor b n = true := h
    have htell := restrict_tell (b := b) (t := (s.enter b (.completed file)).complete n
      (.served file)) hs rfl rfl (some file)
    rw [restrict_complete_of_asksFor hn, restrict_enter_self] at htell
    exact htell
  | failed failure =>
    have hn : (s.forget b).asksFor b n = true := h
    have htell := restrict_tell (b := b) (t := (s.forget b).complete n (.failed failure)) hs rfl rfl
      none
    rw [restrict_complete_of_asksFor hn, restrict_forget_self] at htell
    exact htell

theorem restrict_settle_of_ne {identifier : String} (hs : Consistent s)
    (h : s.asksFor identifier n = true) (hne : identifier ≠ b) (call : Nat)
    (retrieved : Retrieved) : (s.settle n call identifier retrieved).restrict b = s.restrict b := by
  have hn : s.asksFor b n = false := not_asksFor_of_ne h hne
  unfold settle
  cases retrieved.outcome call identifier with
  | served file =>
    have hn' : (s.enter identifier (.completed file)).asksFor b n = false := hn
    have htell := restrict_tell_of_ne (t := (s.enter identifier (.completed file)).complete n
      (.served file)) hs hne rfl (some file)
    rw [restrict_complete_of_not hn', restrict_enter_of_ne hne] at htell
    exact htell
  | failed failure =>
    have hn' : (s.forget identifier).asksFor b n = false := hn
    have htell := restrict_tell_of_ne (t := (s.forget identifier).complete n (.failed failure)) hs
      hne rfl none
    rw [restrict_complete_of_not hn', restrict_forget_of_ne hne] at htell
    exact htell

/-- What a task does when it runs leaves no choice. -/
theorem Resumed.eq_poll (hr : Resumed fetcher { s with queue := s.queue.erase n } n t) :
    t = s.poll fetcher n := by
  cases hr with
  | idle h =>
    cases ht : s.tasks[n]? with
    | none => simp only [poll, ht]
    | some task => exact ((resumed_poll fetcher s n).eq_self ht (h task ht)).symm
  | hit ht he => exact (poll_of_completed (s := s) fetcher ht he).symm
  | join ht he =>
    have ht : s.tasks[n]? = _ := ht
    have he : s.table.get? _ = _ := he
    simp only [poll, ht, resume, Task.identifier, claim, he]
  | ask ht he => exact (poll_of_none (s := s) fetcher ht he).symm
  | settle ht hc hr => exact (poll_of_returned (s := s) fetcher ht hc hr).symm
  | take ht => exact (poll_of_answered (s := s) fetcher ht).symm

theorem ready_restrict_iff (hs : Consistent s) (ht : s.tasks[n]? = some ⟨job, phase⟩) :
    (s.restrict job.identifier).Ready (phase.renumber (s.callRank job.identifier)) ↔
      s.Ready phase := by
  cases phase with
  | retrieving call =>
    obtain ⟨retrieved, hc⟩ := hs.call_of_retrieving ht
    have hc' := call_restrict hc rfl
    simp [Phase.renumber, Ready, hc, hc', Call.renumber]
  | started => exact Iff.rfl
  | waiting call => exact Iff.rfl
  | answered file => exact Iff.rfl
  | completed outcome => exact Iff.rfl
  | cancelled => exact Iff.rfl

/-- On the part of an identifier a task for it does what it does on the whole. -/
theorem Resumed.restrict (hr : Resumed fetcher s n t) (hs : Consistent s)
    (h : s.asksFor b n = true) :
    Resumed fetcher (s.restrict b) (s.taskRank b n) (t.restrict b) := by
  cases hr with
  | idle hn =>
    obtain ⟨job, phase, ht, rfl⟩ := asksFor_iff.1 h
    refine .idle fun task htask => ?_
    rw [task_restrict h ht] at htask
    obtain rfl := Option.some.inj htask
    rw [ready_restrict_iff hs ht]
    exact hn _ ht
  | hit ht he =>
    obtain rfl := identifier_of_asksFor h ht
    rw [restrict_complete_of_asksFor h]
    exact .hit (task_restrict h ht) (by rw [get?_restrict, he]; rfl)
  | join ht he =>
    obtain rfl := identifier_of_asksFor h ht
    rw [restrict_join h]
    exact .join (task_restrict h ht) (by rw [get?_restrict, he]; rfl)
  | ask ht he =>
    obtain rfl := identifier_of_asksFor h ht
    rw [restrict_ask hs fetcher h]
    exact .ask (task_restrict h ht) (by rw [get?_restrict, he]; rfl)
  | settle ht hc hr =>
    obtain rfl := identifier_of_asksFor h ht
    rw [restrict_settle hs h]
    obtain ⟨retrieved, hcall⟩ := hs.call_of_retrieving ht
    obtain rfl := Option.some.inj (hc.symm.trans hcall)
    exact .settle (task_restrict h ht) (call_restrict hc rfl) hr
  | take ht =>
    next job file =>
    obtain rfl := identifier_of_asksFor h ht
    rw [restrict_complete_of_asksFor h]
    have hpassed : (passedOn job.identifier file).renumber (s.callRank job.identifier) =
        passedOn job.identifier (file.map (SharedSource.renumber (s.callRank job.identifier))) := by
      cases file <;> rfl
    rw [hpassed]
    exact .take (task_restrict h ht)

theorem Resumed.restrict_of_ne (hr : Resumed fetcher s n t) (hs : Consistent s)
    (h : s.asksFor b n = false) : t.restrict b = s.restrict b := by
  have hne {job : Job} {phase : Phase} (ht : s.tasks[n]? = some ⟨job, phase⟩) :
      job.identifier ≠ b := by
    rintro rfl
    rw [asksFor_of_task ht] at h
    cases h
  cases hr with
  | idle => rfl
  | hit ht => exact restrict_complete_of_not h _
  | join ht => exact restrict_join_of_ne (asksFor_of_task ht) (hne ht) _ _
  | ask ht => exact restrict_ask_of_ne fetcher (asksFor_of_task ht) (hne ht)
  | settle ht => exact restrict_settle_of_ne hs (asksFor_of_task ht) (hne ht) _ _
  | take ht => exact restrict_complete_of_not h _

theorem erase_ranked_of_asksFor (h : s.asksFor b n = true) (numbers : List Nat) :
    s.ranked b (numbers.erase n) = (s.ranked b numbers).erase (s.taskRank b n) := by
  induction numbers with
  | nil => rfl
  | cons m numbers ih =>
    by_cases hm : m = n
    · subst hm
      simp [ranked, h]
    · rw [List.erase_cons_tail (by simpa using hm)]
      by_cases hfor : s.asksFor b m = true
      · have hrank : s.taskRank b m ≠ s.taskRank b n := fun he => hm (taskRank_inj hfor h he)
        have hcons (l : List Nat) : s.ranked b (m :: l) = s.taskRank b m :: s.ranked b l := by
          simp [ranked, hfor]
        rw [hcons, hcons, ih, List.erase_cons_tail (by simpa using hrank)]
      · have hcons (l : List Nat) : s.ranked b (m :: l) = s.ranked b l := by
          simp [ranked, hfor]
        rw [hcons, hcons, ih]

theorem erase_ranked_of_not (h : s.asksFor b n = false) (numbers : List Nat) :
    s.ranked b (numbers.erase n) = s.ranked b numbers := by
  have hn : n ∉ numbers.filter (s.asksFor b) := by simp [h]
  rw [ranked, ← List.erase_filter, List.erase_of_not_mem hn]
  rfl

/-- A task for the identifier runs there as it runs here. -/
theorem restrict_poll_of_asksFor (hs : Consistent s) (fetcher : Fetcher)
    (h : s.asksFor b n = true) :
    (s.poll fetcher n).restrict b = (s.restrict b).poll fetcher (s.taskRank b n) := by
  have hr := (resumed_poll fetcher s n).restrict (hs.congr rfl rfl rfl) h
  rw [restrict_queue, erase_ranked_of_asksFor h] at hr
  exact hr.eq_poll

/-- Of a task for another identifier nothing is seen. -/
theorem restrict_poll_of_not (hs : Consistent s) (fetcher : Fetcher)
    (h : s.asksFor b n = false) : (s.poll fetcher n).restrict b = s.restrict b := by
  rw [(resumed_poll fetcher s n).restrict_of_ne (hs.congr rfl rfl rfl) h, restrict_queue,
    erase_ranked_of_not h]
  rfl

end Service

end Excerpt
