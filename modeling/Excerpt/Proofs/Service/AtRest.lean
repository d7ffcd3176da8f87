import Excerpt.Proofs.Service.Faithful
import Mathlib.Data.List.Induction

/-!
# Between steps, when every call returns

When a fetcher answers every call, a step lets every task come to its outcome. So in between
nobody can be cancelled and nothing can be finished any more. The files that are there are those
that were called for and have content.
-/

namespace Excerpt

namespace Service

variable {answer : String → Retrieved} {s : Service} {n k call : Nat} {job : Job} {phase : Phase}
  {identifier : String}

structure AtRest (answer : String → Retrieved) (s : Service) : Prop where
  consistent : Consistent s
  awake : Awake s
  faithful : Faithful answer s
  queue : s.queue = []

theorem atRest_empty (answer : String → Retrieved) : AtRest answer empty where
  consistent := consistent_empty
  awake n job phase ht := by simp [empty] at ht
  faithful := faithful_empty answer
  queue := rfl

theorem AtRest.completed (h : AtRest answer s) (ht : s.tasks[n]? = some ⟨job, phase⟩) :
    ∃ outcome, phase = .completed outcome :=
  h.faithful.completed h.consistent h.awake h.queue ht

theorem AtRest.exists_outcome (h : AtRest answer s) (hn : n < s.tasks.length) :
    ∃ outcome, s.outcome? n = some outcome := by
  have ht : s.tasks[n]? = some ⟨s.tasks[n].job, s.tasks[n].phase⟩ := List.getElem?_eq_getElem hn
  obtain ⟨outcome, ho⟩ := h.completed ht
  rw [ho] at ht
  exact ⟨outcome, outcome?_of_task ht⟩

/-! ## Steps -/

theorem AtRest.finish_eq_self (h : AtRest answer s) (call : Nat) (retrieved : Retrieved) :
    s.finish call retrieved = s := by
  rcases finish_eq_self_or s call retrieved with he | ⟨c, hc, hopen, -⟩
  · exact he
  · rw [h.faithful.call call c hc] at hopen
    cases hopen

theorem AtRest.cancel_eq_self (h : AtRest answer s) (n : Nat) : s.cancel n = s := by
  cases ht : s.tasks[n]? with
  | none => simp only [cancel, ht]
  | some task =>
    obtain ⟨job, phase⟩ := task
    obtain ⟨outcome, rfl⟩ := h.completed ht
    simp only [cancel, ht]

theorem AtRest.step_eq_self (h : AtRest answer s) (fetcher : Fetcher) {event : Event}
    (he : s.apply event = s) : step fetcher s event = s := by
  rw [step, he]
  exact turns_of_queue_nil fetcher _ h.queue

theorem AtRest.step_finish (h : AtRest answer s) (fetcher : Fetcher) (call : Nat)
    (retrieved : Retrieved) : step fetcher s (.finish call retrieved) = s :=
  h.step_eq_self fetcher (h.finish_eq_self call retrieved)

theorem AtRest.step_cancel (h : AtRest answer s) (fetcher : Fetcher) (n : Nat) :
    step fetcher s (.cancel n) = s := h.step_eq_self fetcher (h.cancel_eq_self n)

/-- At every moment of a step the calls came back with what is answered. -/
theorem AtRest.during (h : AtRest answer s) (jobs : List Job) (k : Nat) :
    let t := turns (.instant answer) k (s.apply (.start jobs))
    Consistent t ∧ Awake t ∧ Faithful answer t :=
  turns_induction (.instant answer) (p := fun t => Consistent t ∧ Awake t ∧ Faithful answer t)
    (fun _ n ht => ⟨ht.1.poll _ n, ht.2.1.act ht.1 _ (.poll n), ht.2.2.poll ht.1 n⟩) k
    ⟨h.consistent.apply _, h.awake.apply h.consistent _, h.faithful.start jobs⟩

theorem AtRest.next (h : AtRest answer s) (event : Event) :
    AtRest answer (step (.instant answer) s event) := by
  cases event with
  | start jobs =>
    obtain ⟨hs, ha, hf⟩ := h.during jobs (s.apply (.start jobs)).work
    exact ⟨hs, ha, hf, queue_step _ s _⟩
  | finish call retrieved => rwa [h.step_finish]
  | cancel n => rwa [h.step_cancel]

theorem atRest_run (answer : String → Retrieved) (events : List Event) :
    AtRest answer (run (.instant answer) events) := by
  induction events using List.reverseRecOn with
  | nil => exact atRest_empty answer
  | append_singleton events event ih =>
    rw [run_append]
    exact ih.next event

/-! ## The files that are there -/

theorem AtRest.fate (h : AtRest answer s) {c : Call} (hc : s.calls[k]? = some c) :
    s.fate c = (answer c.identifier).fate := by
  obtain ⟨job, phase, ht, -⟩ := h.consistent.call k c hc
  obtain ⟨outcome, rfl⟩ := h.completed ht
  exact fate_of_completed ht (h.faithful.call k c hc)

theorem Faithful.fate_of_completed (h : Faithful answer s) (hs : Consistent s)
    {file : SharedSource} (he : s.table.get? identifier = some (.completed file)) :
    (answer identifier).fate = .succeeded := by
  obtain ⟨n, job, text, hc, -⟩ := hs.entry _ _ he
  have hanswer : Retrieved.content text = answer identifier :=
    Option.some.inj (h.call file.call _ hc)
  rw [← hanswer]
  rfl

theorem AtRest.get?_ne_pending (h : AtRest answer s) {waiters : List Nat} :
    s.table.get? identifier ≠ some (.pending call waiters) := by
  intro he
  obtain ⟨n, job, ht, -⟩ := h.consistent.retriever_of_pending he
  obtain ⟨outcome, ho⟩ := h.completed ht
  cases ho

theorem AtRest.get?_eq_none_iff (h : AtRest answer s) (identifier : String) :
    s.table.get? identifier = none ↔
      ¬ (identifier ∈ s.calls.map Call.identifier ∧ (answer identifier).fate = .succeeded) := by
  cases he : s.table.get? identifier with
  | none =>
    simp only [true_iff, not_and]
    intro hmem hf
    obtain ⟨c, hc, rfl⟩ := List.mem_map.1 hmem
    obtain ⟨k, hk⟩ := List.mem_iff_getElem?.1 hc
    have hfate := (h.fate hk).trans hf
    obtain ⟨file, he', -⟩ := h.consistent.completed_of_succeeded hk hfate
    cases he.symm.trans he'
  | some entry =>
    cases entry with
    | pending call waiters => exact absurd he h.get?_ne_pending
    | completed file =>
      obtain ⟨c, hc, hid, -⟩ := h.consistent.call_of_completed he
      have hmem : identifier ∈ s.calls.map Call.identifier :=
        List.mem_map.2 ⟨c, List.mem_of_getElem? hc, hid⟩
      exact iff_of_false (by simp)
        (not_not_intro ⟨hmem, h.faithful.fate_of_completed h.consistent he⟩)

end Service

end Excerpt
