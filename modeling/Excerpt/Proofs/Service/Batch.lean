import Excerpt.Proofs.Service.Asking
import Excerpt.Proofs.Service.Refinement

/-!
# Jobs started at once

When every call returns at once and nobody is cancelled, a batch of jobs runs to its end. A task
gets what its job comes to alone, except that the failure of a retrieval reaches those who waited
for it as the word that it was given up.
-/

namespace Excerpt

namespace Service

variable {answer : String → Retrieved} {s : Service} {n : Nat} {job : Job}

/-- An outcome is that of the job alone, or the word that the retrieval was given up. -/
theorem Faithful.reply (hf : Faithful answer s) (hs : Consistent s) {outcome : Outcome}
    (ht : s.tasks[n]? = some ⟨job, .completed outcome⟩) :
    job.reply outcome = job.alone ((answer job.identifier).scan job.identifier) ∨
      (answer job.identifier).fate = .erred ∧ outcome = .failed (.abandoned job.identifier) := by
  cases outcome with
  | served file =>
    obtain ⟨m, text, hc, hsource, -⟩ := hs.served ht
    have hanswer : answer job.identifier = .content text :=
      (Option.some.inj (hf.call _ _ hc)).symm
    refine Or.inl ?_
    rw [Job.reply_served, hsource, hanswer]
    rfl
  | failed failure =>
    rcases hs.failed ht with ⟨k, retrieved, hc, -, ho⟩ | ⟨rfl, -⟩
    · have hanswer : retrieved = answer job.identifier := Option.some.inj (hf.call _ _ hc)
      refine Or.inl ?_
      rw [← ho, Job.reply_outcome, hanswer]
    · exact Or.inr ⟨hf.task n job _ ht, rfl⟩

/-- Of a batch every task completes, and what it returns is what its job comes to alone, or that
the retrieval was given up, when there is no file. -/
theorem reply_batch (answer : String → Retrieved) (jobs : List Job) (hjob : jobs[n]? = some job) :
    ∃ outcome, (run (fun identifier => some (answer identifier)) [.start jobs]).outcome? n =
        some outcome ∧
      (job.reply outcome = job.alone ((answer job.identifier).scan job.identifier) ∨
        (answer job.identifier).fate = .erred ∧
          outcome = .failed (.abandoned job.identifier)) := by
  obtain ⟨outcome, ht⟩ := (atRest_empty answer).job_completed hjob
  have h : AtRest answer (step (.instant answer) empty (.start jobs)) :=
    (atRest_empty answer).next _
  have hn : empty.tasks.length + n = n := Nat.zero_add n
  rw [hn] at ht
  exact ⟨outcome, outcome?_of_task ht, h.faithful.reply h.consistent ht⟩

end Service

end Excerpt
