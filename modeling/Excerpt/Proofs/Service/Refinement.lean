import Excerpt.Proofs.Service.Permanence
import Excerpt.Proofs.Service.Waiting
import Mathlib.Data.List.Induction

/-!
# What tasks return

A file reaches a task by its own retrieval, from whoever retrieved it meanwhile or from the
table. Whichever way it comes, the task returns what it would return alone, from the
content of the one retrieval that succeeded. A failure of reading is told only to the task
whose own call it was.
-/

namespace Excerpt

/-- What a task returns to whoever started it. -/
inductive Reply where
  | file (result : Except RetrievalFailure Source)
  | display (result : Except SampleFailure RenderedSample)

namespace Retrieved

/-- What a file is scanned to, once it is read. -/
def scan (identifier : String) : Retrieved → Except RetrievalFailure Source
  | content text => .ok (Source.ofContent text)
  | missing => .error (.notFound identifier)
  | unreadable reason => .error (.unreadable identifier reason)

theorem outcome_ne_abandoned (retrieved : Retrieved) (call : Nat)
    (identifier identifier' : String) :
    retrieved.outcome call identifier ≠ .failed (.abandoned identifier') := by
  cases retrieved <;> simp [outcome]

theorem fate_of_failed {retrieved : Retrieved} {call : Nat} {identifier : String}
    {failure : RetrievalFailure} (h : retrieved.outcome call identifier = .failed failure) :
    retrieved.fate = .erred := by
  cases retrieved with
  | content text => cases h
  | missing => rfl
  | unreadable reason => rfl

end Retrieved

namespace Job

def reply : Job → Outcome → Reply
  | get _, .served file => .file (.ok file.source)
  | get _, .failed failure => .file (.error failure)
  | render request defaults, outcome => .display (request.answer defaults outcome)

/-- What the job comes to when nobody else is there, from what its file was scanned to. -/
def alone : Job → Except RetrievalFailure Source → Reply
  | get _, result => .file result
  | render request defaults, .ok source => .display (request.render source defaults)
  | render request _, .error failure =>
    .display (.error ⟨.retrieval failure, request.file, request.selector⟩)

theorem reply_served (job : Job) (file : SharedSource) :
    job.reply (.served file) = job.alone (.ok file.source) := by cases job <;> rfl

theorem reply_failed (job : Job) (failure : RetrievalFailure) :
    job.reply (.failed failure) = job.alone (.error failure) := by cases job <;> rfl

theorem reply_outcome (job : Job) (call : Nat) (identifier : String) (retrieved : Retrieved) :
    job.reply (retrieved.outcome call identifier) = job.alone (retrieved.scan identifier) := by
  cases retrieved with
  | content text => exact reply_served job _
  | missing => exact reply_failed job _
  | unreadable reason => exact reply_failed job _

end Job

namespace Service

variable {s t : Service} {n k : Nat} {c : Call} {job : Job} {phase : Phase}

/-- A service with a single task returns what the job comes to alone. -/
theorem reply_run_alone (fetcher : Fetcher) (job : Job) {retrieved : Retrieved}
    (h : fetcher job.identifier = some retrieved) :
    ((run fetcher [.start [job]]).outcome? 0).map job.reply =
      some (job.alone (retrieved.scan job.identifier)) := by
  have ht : (empty.start job).tasks[0]? = some ⟨job, .started⟩ := rfl
  have hpoll := poll_of_none fetcher ht (by rfl)
  have hturn : turns fetcher 1 (empty.apply (.start [job])) =
      (empty.start job).poll fetcher 0 := rfl
  have htask : (turns fetcher 1 (empty.apply (.start [job]))).tasks[0]? =
      some ⟨job, .retrieving 0⟩ := by
    rw [hturn, hpoll, tasks_ask]
    rfl
  have hcall : (turns fetcher 1 (empty.apply (.start [job]))).calls[0]? =
      some ⟨job.identifier, 0, some retrieved⟩ := by
    rw [hturn, hpoll, calls_ask, h]
    rfl
  have ho := (outcome?_step_of_returned fetcher [] (.start [job]) 1 htask hcall rfl).1
  change ((step fetcher (run fetcher []) (.start [job])).outcome? 0).map job.reply = _
  rw [ho, Option.map_some, Job.reply_outcome]

/-! ## Where what a call returned came from -/

/-- The fetcher returned this for the call, at once or later. -/
def Returned (fetcher : Fetcher) (actions : List Action) (k : Nat) (identifier : String)
    (retrieved : Retrieved) : Prop :=
  fetcher identifier = some retrieved ∨ Action.event (.finish k retrieved) ∈ actions

theorem call_act_eq_or (fetcher : Fetcher) (s : Service) (action : Action)
    (hc : (act fetcher s action).calls[k]? = some c) :
    s.calls[k]? = some c ∨ c.retrieved = fetcher c.identifier ∨
      ∃ retrieved, action = .event (.finish k retrieved) ∧ c.retrieved = some retrieved := by
  cases action with
  | event event =>
    cases event with
    | start jobs =>
      change (s.apply (.start jobs)).calls[k]? = _ at hc
      rw [apply_start_eq] at hc
      exact Or.inl hc
    | finish call retrieved =>
      change (s.finish call retrieved).calls[k]? = _ at hc
      rcases finish_eq_self_or s call retrieved with he | ⟨d, -, -, he⟩
      · rw [he] at hc
        exact Or.inl hc
      · rw [he, calls_wakeRetriever] at hc
        rcases getElem?_set_eq_some hc with hs | ⟨rfl, rfl⟩
        · exact Or.inl hs
        · exact Or.inr (Or.inr ⟨retrieved, rfl, rfl⟩)
    | cancel n =>
      change (s.cancel n).calls[k]? = _ at hc
      rw [calls_cancel] at hc
      exact Or.inl hc
  | poll n =>
    change (s.poll fetcher n).calls[k]? = _ at hc
    rcases (resumed_poll fetcher s n).calls_eq_or with he | ⟨job, -, -, he⟩
    · rw [he] at hc
      exact Or.inl hc
    · rw [he] at hc
      rcases getElem?_snoc_eq_some hc with hs | ⟨-, rfl⟩
      · exact Or.inl hs
      · exact Or.inr (Or.inl rfl)

theorem returned_interleave (fetcher : Fetcher) (actions : List Action) {retrieved : Retrieved}
    (hc : (interleave fetcher actions).calls[k]? = some c)
    (hr : c.retrieved = some retrieved) : Returned fetcher actions k c.identifier retrieved := by
  induction actions using List.reverseRecOn generalizing c with
  | nil => simp [empty] at hc
  | append_singleton actions action ih =>
    rw [interleave_snoc] at hc
    rcases call_act_eq_or fetcher _ action hc with hs | hf | ⟨r, rfl, hf⟩
    · rcases ih hs hr with h | h
      · exact Or.inl h
      · exact Or.inr (List.mem_append_left _ h)
    · rw [hf] at hr
      exact Or.inl hr
    · obtain rfl := Option.some.inj (hf.symm.trans hr)
      exact Or.inr (by simp)

/-! ## What completed tasks return -/

/-- A file that was served is what the one successful retrieval returned. -/
theorem Consistent.served (h : Consistent s) {file : SharedSource}
    (ht : s.tasks[n]? = some ⟨job, .completed (.served file)⟩) :
    ∃ m text, s.calls[file.call]? = some ⟨job.identifier, m, some (.content text)⟩ ∧
      file.source = Source.ofContent text ∧
      ∀ (k : Nat) (c : Call), s.calls[k]? = some c → c.identifier = job.identifier →
        (s.fate c = .succeeded ↔ k = file.call) := by
  have he : s.table.get? job.identifier = some (.completed file) := h.task _ _ _ ht
  obtain ⟨m, job', text, hcall, hsource, -⟩ := h.entry _ _ he
  refine ⟨m, text, hcall, hsource, fun k c hc hid => ⟨fun hf => ?_, ?_⟩⟩
  · obtain ⟨file', he', rfl⟩ := h.completed_of_succeeded hc hf
    rw [hid, he] at he'
    obtain rfl := Entry.completed.inj (Option.some.inj he')
    rfl
  · rintro rfl
    obtain ⟨c', hc', -, hf⟩ := h.call_of_completed he
    obtain rfl := Option.some.inj (hc.symm.trans hc')
    exact hf

/-- A task that failed was told so by its own call, or made none and was given up. -/
theorem Consistent.failed (h : Consistent s) {failure : RetrievalFailure}
    (ht : s.tasks[n]? = some ⟨job, .completed (.failed failure)⟩) :
    (∃ (k : Nat) (retrieved : Retrieved),
      s.calls[k]? = some ⟨job.identifier, n, some retrieved⟩ ∧ retrieved.fate = .erred ∧
      retrieved.outcome k job.identifier = .failed failure) ∨
    failure = .abandoned job.identifier ∧
      ∀ (k : Nat) (c : Call), s.calls[k]? = some c → c.task ≠ n := by
  rcases h.task _ _ _ ht with rfl | ⟨k, retrieved, hc, ho⟩
  · refine Or.inr ⟨rfl, fun k c hc hn => ?_⟩
    obtain ⟨job', phase, ht', -, hp⟩ := h.call k c hc
    rw [hn, ht] at ht'
    obtain ⟨-, rfl⟩ := Task.mk.inj (Option.some.inj ht')
    rcases hp with hp | hp | ⟨retrieved, -, hp⟩
    · cases hp
    · cases hp
    · exact Retrieved.outcome_ne_abandoned _ _ _ _ (Phase.completed.inj hp).symm
  · exact Or.inl ⟨k, retrieved, hc, Retrieved.fate_of_failed ho, ho⟩

/-- In every interleaving a completed task returns what its job comes to alone: from the
content that the one successful retrieval of its file returned, from the failure that its
own call returned, or from the word that the retrieval it waited for was given up. -/
theorem reply_eq_alone (fetcher : Fetcher) (actions : List Action) (n : Nat) (job : Job)
    (outcome : Outcome)
    (h : (interleave fetcher actions).tasks[n]? = some ⟨job, .completed outcome⟩) :
    let s := interleave fetcher actions
    (∃ (k m : Nat) (text : String),
      s.calls[k]? = some ⟨job.identifier, m, some (.content text)⟩ ∧
      Returned fetcher actions k job.identifier (.content text) ∧
      (∀ (k' : Nat) (c : Call), s.calls[k']? = some c → c.identifier = job.identifier →
        (s.fate c = .succeeded ↔ k' = k)) ∧
      outcome = .served ⟨k, Source.ofContent text⟩ ∧
      job.reply outcome = job.alone (.ok (Source.ofContent text))) ∨
    (∃ (k : Nat) (retrieved : Retrieved),
      s.calls[k]? = some ⟨job.identifier, n, some retrieved⟩ ∧
      Returned fetcher actions k job.identifier retrieved ∧ retrieved.fate = .erred ∧
      outcome = retrieved.outcome k job.identifier ∧
      job.reply outcome = job.alone (retrieved.scan job.identifier)) ∨
    (∀ (k : Nat) (c : Call), s.calls[k]? = some c → c.task ≠ n) ∧
      outcome = .failed (.abandoned job.identifier) ∧
      job.reply outcome = job.alone (.error (.abandoned job.identifier)) := by
  intro s
  have hs : Consistent s := consistent_interleave fetcher actions
  cases outcome with
  | served file =>
    obtain ⟨m, text, hc, hsource, hone⟩ := hs.served h
    have hfile : file = ⟨file.call, Source.ofContent text⟩ := by rw [← hsource]
    refine Or.inl ⟨file.call, m, text, hc, returned_interleave fetcher actions hc rfl, hone,
      congrArg Outcome.served hfile, ?_⟩
    rw [Job.reply_served, hsource]
  | failed failure =>
    rcases hs.failed h with ⟨k, retrieved, hc, hf, ho⟩ | ⟨rfl, hnone⟩
    · refine Or.inr (Or.inl ⟨k, retrieved, hc, returned_interleave fetcher actions hc rfl, hf,
        ho.symm, ?_⟩)
      rw [← ho, Job.reply_outcome]
    · exact Or.inr (Or.inr ⟨hnone, rfl, Job.reply_failed job _⟩)

/-- Two tasks ask for one file, and the second gets what the first retrieved. -/
theorem reply_eq_alone_of_shared :
    let actions : List Action := [.event (.start [.get "a", .get "a"]), .poll 0, .poll 1,
      .event (.finish 0 (.content "x")), .poll 0, .poll 1]
    (interleave .held actions).tasks[1]? =
      some ⟨.get "a", .completed (.served ⟨0, Source.ofContent "x"⟩)⟩ ∧
    ∃ (k m : Nat) (text : String),
      (interleave .held actions).calls[k]? = some ⟨"a", m, some (.content text)⟩ ∧
      Outcome.served ⟨0, Source.ofContent "x"⟩ = .served ⟨k, Source.ofContent text⟩ := by
  intro actions
  have h : (interleave .held actions).tasks[1]? =
      some ⟨.get "a", .completed (.served ⟨0, Source.ofContent "x"⟩)⟩ := by rfl
  refine ⟨h, ?_⟩
  rcases reply_eq_alone .held actions 1 (.get "a") _ h with
    ⟨k, m, text, hc, -, -, ho, -⟩ | ⟨k, retrieved, -, -, hf, ho, -⟩ | ⟨-, ho, -⟩
  · exact ⟨k, m, text, hc, ho⟩
  · cases retrieved with
    | content text => cases hf
    | missing => cases ho
    | unreadable reason => cases ho
  · cases ho

end Service

end Excerpt
