import Excerpt.Proofs.Service.Asking
import Mathlib.Algebra.GroupWithZero.Nat
import Mathlib.Data.Finset.Card

/-!
# How many calls files from memory take

A file that is there is called for once, however often it is asked for. An identifier without a
file is called for in every step that asks for it, once in each. The task that asked first is told
that there is no such file, and the others of that step are told that it was given up.
-/

namespace Excerpt

/-- The identifiers that the jobs of an event ask for. -/
def Event.requested : Event → List String
  | .start jobs => jobs.map Job.identifier
  | .finish _ _ => []
  | .cancel _ => []

namespace Keyed

variable {files : Keyed String} {identifier : String}

def answer (files : Keyed String) (identifier : String) : Retrieved :=
  match files.get? identifier with
  | some text => .content text
  | none => .missing

/-- Which of the identifiers have a file. -/
def present (files : Keyed String) (identifiers : List String) : Finset String :=
  identifiers.toFinset.filter fun identifier => (files.get? identifier).isSome

def absent (files : Keyed String) (identifiers : List String) : Finset String :=
  identifiers.toFinset.filter fun identifier => (files.get? identifier).isNone

theorem fate_answer_iff :
    (files.answer identifier).fate = .succeeded ↔ (files.get? identifier).isSome = true := by
  unfold answer
  cases files.get? identifier <;> simp [Retrieved.fate]

theorem answer_of_none (h : files.get? identifier = none) :
    files.answer identifier = .missing := by simp [answer, h]

theorem ofFiles_eq_instant (files : Keyed String) :
    Fetcher.ofFiles files = .instant files.answer := by
  funext identifier
  unfold Fetcher.ofFiles Fetcher.instant answer
  cases files.get? identifier <;> rfl

/-- What is asked for and is not there yet is new and has a file, or has none. -/
theorem card_add_present (files : Keyed String) {asked requested : List String}
    {fresh : Finset String} (h : ∀ identifier, identifier ∈ fresh ↔
      ¬ (identifier ∈ asked ∧ (files.get? identifier).isSome = true) ∧ identifier ∈ requested) :
    (files.present asked).card + fresh.card =
      (files.present (asked ++ requested)).card + (files.absent requested).card := by
  have hleft : Disjoint (files.present asked) fresh := by
    rw [Finset.disjoint_left]
    intro identifier hp hf
    rw [present, Finset.mem_filter, List.mem_toFinset] at hp
    exact ((h identifier).1 hf).1 hp
  have hright : Disjoint (files.present (asked ++ requested)) (files.absent requested) := by
    rw [Finset.disjoint_left]
    intro identifier hp ha
    rw [present, Finset.mem_filter] at hp
    rw [absent, Finset.mem_filter, Option.isNone_iff_eq_none] at ha
    simp [ha.2] at hp
  rw [← Finset.card_union_of_disjoint hleft, ← Finset.card_union_of_disjoint hright]
  congr 1
  ext identifier
  cases hget : files.get? identifier <;>
    simp [present, absent, h, hget, or_and_left, em]

end Keyed

namespace Service

variable {answer : String → Retrieved} {s : Service} {jobs : List Job} {i n : Nat} {job : Job}
  {identifier : String}

/-! ## Calls -/

theorem AtRest.calledOnce (h : AtRest answer s) (event : Event) :
    CalledOnce s (step (.instant answer) s event) event.requested := by
  cases event with
  | start jobs => exact calledOnce_step h.queue h.not_started _ jobs
  | finish call retrieved =>
    rw [h.step_finish]
    exact calledOnce_nil rfl
  | cancel n =>
    rw [h.step_cancel]
    exact calledOnce_nil rfl

/-- Calls were made for what was asked for. -/
theorem mem_calls_run_iff (answer : String → Retrieved) (events : List Event)
    (identifier : String) :
    identifier ∈ (run (.instant answer) events).calls.map Call.identifier ↔
      identifier ∈ events.flatMap Event.requested := by
  induction events using List.reverseRecOn with
  | nil => simp [empty]
  | append_singleton events event ih =>
    have h := atRest_run answer events
    obtain ⟨fresh, hcalls, -, hmem⟩ := h.calledOnce event
    rw [run_append, hcalls, List.map_append, List.mem_append, hmem, h.get?_eq_none_iff, ih,
      List.flatMap_append, List.mem_append]
    -- what has a file already was asked for before
    by_cases hold : identifier ∈ events.flatMap Event.requested <;> simp [hold]

theorem length_calls_run (files : Keyed String) (events : List Event) :
    (run (.instant files.answer) events).calls.length =
      (files.present (events.flatMap Event.requested)).card +
        (events.map fun event => (files.absent event.requested).card).sum := by
  induction events using List.reverseRecOn with
  | nil => simp [empty, Keyed.present]
  | append_singleton events event ih =>
    have h := atRest_run files.answer events
    obtain ⟨fresh, hcalls, hd, hmem⟩ := h.calledOnce event
    have hfresh : fresh.length = (fresh.map Call.identifier).toFinset.card := by
      rw [List.toFinset_card_of_nodup hd, List.length_map]
    have hmembers (identifier : String) :
        identifier ∈ (fresh.map Call.identifier).toFinset ↔
          ¬ (identifier ∈ events.flatMap Event.requested ∧
            (files.get? identifier).isSome = true) ∧ identifier ∈ event.requested := by
      rw [List.mem_toFinset, hmem, h.get?_eq_none_iff, mem_calls_run_iff, Keyed.fate_answer_iff]
    have hcard := files.card_add_present hmembers
    have hrequested : (events ++ [event]).flatMap Event.requested =
        events.flatMap Event.requested ++ event.requested := by simp
    rw [run_append, hcalls, List.length_append, ih, hfresh, hrequested, List.map_append,
      List.sum_append, List.map_singleton, List.sum_singleton]
    omega

/-! ## Identifiers without a file -/

/-- Of the tasks of a step for an identifier without a file, the first is told that there is none
and the others that the retrieval was given up. -/
theorem AtRest.outcome_absent {files : Keyed String} (h : AtRest files.answer s)
    (hi : jobs[i]? = some job) (hn : files.get? job.identifier = none) :
    (step (.instant files.answer) s (.start jobs)).outcome? (s.tasks.length + i) =
      some (.failed (if job.identifier ∈ (jobs.take i).map Job.identifier
        then .abandoned job.identifier else .notFound job.identifier)) := by
  have he : s.table.get? job.identifier = none := by
    rw [h.get?_eq_none_iff, Keyed.fate_answer_iff, hn]
    simp
  split
  · next hold =>
    obtain ⟨call, ho⟩ := h.outcome_later hi he hold
    rw [ho, Keyed.answer_of_none hn]
    rfl
  · next hnew =>
    obtain ⟨call, ho⟩ := h.outcome_first hi he hnew
    rw [ho, Keyed.answer_of_none hn]
    rfl

/-! ## The count -/

/-- In every run over files from memory a task completes in the step that starts it, so that
cancelling comes too late for everybody. There is one call for each file that was asked for and,
step by step, one for each identifier without a file. Of the tasks that ask for such an identifier
in a step the first is told that there is no file, and the others that it was given up. -/
theorem calls_from_memory (files : Keyed String) (events : List Event) :
    let s := run (.ofFiles files) events
    (∀ (jobs : List Job) (i : Nat) (job : Job), jobs[i]? = some job →
      ∃ outcome, (step (.ofFiles files) s (.start jobs)).tasks[s.tasks.length + i]? =
        some ⟨job, .completed outcome⟩) ∧
    (∀ n, n < s.tasks.length → ∃ outcome, s.outcome? n = some outcome) ∧
    (∀ n, step (.ofFiles files) s (.cancel n) = s) ∧
    s.calls.length = (files.present (events.flatMap Event.requested)).card +
      (events.map fun event => (files.absent event.requested).card).sum ∧
    ∀ (jobs : List Job) (i : Nat) (job : Job), jobs[i]? = some job →
      files.get? job.identifier = none →
      (step (.ofFiles files) s (.start jobs)).outcome? (s.tasks.length + i) =
        some (.failed (if job.identifier ∈ (jobs.take i).map Job.identifier
          then .abandoned job.identifier else .notFound job.identifier)) := by
  rw [Keyed.ofFiles_eq_instant]
  intro s
  have h : AtRest files.answer s := atRest_run files.answer events
  exact ⟨fun jobs i job hi => h.job_completed hi, fun n hn => h.exists_outcome hn,
    fun n => h.step_cancel _ n, length_calls_run files events,
    fun jobs i job hi hn => h.outcome_absent hi hn⟩

/-- Of two identifiers one has a file, and both are asked for in two steps and once more. -/
theorem calls_from_memory_of_retried :
    let files : Keyed String := [("a", "x")]
    let events : List Event :=
      [.start [.get "a", .get "b", .get "b"], .cancel 1, .start [.get "b", .get "a"]]
    let s := run (.ofFiles files) events
    let t := step (.ofFiles files) s (.start [.get "b", .get "a", .get "b"])
    (∃ outcome, s.outcome? 4 = some outcome) ∧ s.calls.length = 3 ∧
      (∃ outcome, t.tasks[6]? = some ⟨.get "a", .completed outcome⟩) ∧
      t.outcome? 5 = some (.failed (.notFound "b")) ∧
      t.outcome? 7 = some (.failed (.abandoned "b")) := by
  intro files events s t
  obtain ⟨hstart, hdone, -, hcalls, habsent⟩ := calls_from_memory files events
  have hlength : s.tasks.length = 5 := by decide
  rw [hlength] at hdone hstart habsent
  exact ⟨hdone 4 (by decide), hcalls.trans (by decide),
    hstart [.get "b", .get "a", .get "b"] 1 (.get "a") rfl,
    habsent [.get "b", .get "a", .get "b"] 0 (.get "b") rfl rfl,
    habsent [.get "b", .get "a", .get "b"] 2 (.get "b") rfl rfl⟩

end Service

end Excerpt
