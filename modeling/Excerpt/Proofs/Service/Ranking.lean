import Excerpt.Proofs.Service.Closing

/-!
# Ranks

Of the tasks for one identifier those that were started earlier have come further: one that waits
is never behind one that has only started, and one that has its outcome has nobody in front of
it. A task that moves on keeps its rank, and so does everybody when a retrieval ends.
-/

namespace Excerpt

namespace Phase

/-- Whether a task may be in the first phase while one for the same identifier that was started
later is in the second. -/
def MayPrecede : Phase → Phase → Prop
  | .completed _, _ => True
  | .cancelled, _ => True
  | _, .cancelled => True
  | .started, .started => True
  | .retrieving _, .waiting _ => True
  | .retrieving _, .started => True
  | .waiting _, .waiting _ => True
  | .waiting _, .started => True
  | .answered _, .answered _ => True
  | _, _ => False

theorem mayPrecede_of_not_live {phase : Phase} (h : phase.isLive = false) (phase' : Phase) :
    phase.MayPrecede phase' := by
  cases phase with
  | completed outcome => trivial
  | cancelled => trivial
  | _ => cases h

theorem mayPrecede_cancelled (phase : Phase) : phase.MayPrecede .cancelled := by
  cases phase <;> trivial

/-- Who is ahead of a task that has completed is no longer alive. -/
theorem MayPrecede.not_live {phase : Phase} {outcome : Outcome}
    (h : phase.MayPrecede (.completed outcome)) : phase.isLive = false := by
  cases phase with
  | completed outcome => rfl
  | cancelled => rfl
  | _ => cases h

theorem MayPrecede.not_live_of_retrieving {phase : Phase} {call : Nat}
    (h : phase.MayPrecede (.retrieving call)) : phase.isLive = false := by
  cases phase with
  | completed outcome => rfl
  | cancelled => rfl
  | _ => cases h

/-- Who is ahead of a waiter retrieves, waits or is no longer alive. -/
theorem MayPrecede.not_live_of_waiting {phase : Phase} {call : Nat}
    (h : phase.MayPrecede (.waiting call)) (hr : ∀ call, phase ≠ .retrieving call)
    (hw : ∀ call, phase ≠ .waiting call) : phase.isLive = false := by
  cases phase with
  | completed outcome => rfl
  | cancelled => rfl
  | retrieving call => exact absurd rfl (hr call)
  | waiting call => exact absurd rfl (hw call)
  | _ => cases h

theorem MayPrecede.of_waiting {phase : Phase} {call : Nat}
    (h : (Phase.waiting call).MayPrecede phase) :
    phase = .cancelled ∨ phase = .started ∨ ∃ call, phase = .waiting call := by
  cases phase with
  | cancelled => exact Or.inl rfl
  | started => exact Or.inr (Or.inl rfl)
  | waiting call => exact Or.inr (Or.inr ⟨call, rfl⟩)
  | _ => cases h

end Phase

namespace Service

variable {s t : Service} {n m call : Nat} {job job' : Job} {phase phase₀ : Phase}
  {file : Option SharedSource}

/-- Of two tasks for the same identifier the one that was started first is the further one. -/
def Ranked (s : Service) : Prop :=
  ∀ (i j : Nat) (job job' : Job) (phase phase' : Phase), i < j →
    s.tasks[i]? = some ⟨job, phase⟩ → s.tasks[j]? = some ⟨job', phase'⟩ →
    job'.identifier = job.identifier → phase.MayPrecede phase'

theorem Ranked.congr (h : Ranked s) (htasks : t.tasks = s.tasks) : Ranked t := by
  unfold Ranked
  rw [htasks]
  exact h

/-- A task may move on if every earlier one may precede it there, and if no later one has to stay
behind the place that it leaves. -/
theorem Ranked.setPhase (h : Ranked s) (ht : s.tasks[n]? = some ⟨job, phase₀⟩)
    (hearlier : ∀ (i : Nat) (job' : Job) (phase' : Phase), i < n →
      s.tasks[i]? = some ⟨job', phase'⟩ → job'.identifier = job.identifier →
      phase'.MayPrecede phase)
    (hlater : ∀ phase', phase₀.MayPrecede phase' → phase.MayPrecede phase') :
    Ranked (s.setPhase n phase) := by
  intro i j ji jj pi pj hij hi hj hid
  rcases task_setPhase_eq_or ht hi with ⟨-, hi'⟩ | ⟨rfl, rfl, rfl⟩
  · rcases task_setPhase_eq_or ht hj with ⟨-, hj'⟩ | ⟨rfl, rfl, rfl⟩
    · exact h i j ji jj pi pj hij hi' hj' hid
    · exact hearlier i ji pi hij hi' hid.symm
  · rcases task_setPhase_eq_or ht hj with ⟨-, hj'⟩ | ⟨rfl, -, -⟩
    · exact hlater pj (h i j ji jj phase₀ pj hij ht hj' hid)
    · exact absurd hij (Nat.lt_irrefl _)

theorem Consistent.mem_waiters_of_waiting (hs : Consistent s)
    (hm : s.tasks[m]? = some ⟨job', .waiting call⟩) (hid : job'.identifier = job.identifier) :
    m ∈ s.waiters job.identifier := by
  obtain ⟨waiters, he, hmem⟩ := hs.task _ _ _ hm
  rw [hid] at he
  rwa [waiters_of_pending he]

/-- The waiters of a retrieval are told together, when no other task for its identifier is alive
except that which ends it. -/
theorem Ranked.close (h : Ranked s) (hs : Consistent s)
    (ht : s.tasks[n]? = some ⟨job, .retrieving call⟩) (hc : Closes s t n job phase file)
    (hp : phase.isLive = false)
    (hstarted : ∀ (m : Nat) (job' : Job), s.tasks[m]? ≠ some ⟨job', .started⟩) : Ranked t := by
  intro i j ji jj pi pj hij hi hj hid
  by_cases hin : i = n
  · subst hin
    obtain ⟨rfl, rfl⟩ := Task.mk.inj (Option.some.inj (hc.self.symm.trans hi))
    exact Phase.mayPrecede_of_not_live hp pj
  by_cases hjn : j = n
  · subst hjn
    obtain ⟨rfl, rfl⟩ := Task.mk.inj (Option.some.inj (hc.self.symm.trans hj))
    rcases hc.task_eq_or hin hi with ⟨hi', -⟩ | ⟨-, ⟨call', hi'⟩, -⟩
    · exact Phase.mayPrecede_of_not_live
        (h i _ _ _ _ _ hij hi' ht hid).not_live_of_retrieving _
    · cases h i _ _ _ _ _ hij hi' ht hid
  rcases hc.task_eq_or hin hi with ⟨hi', hni⟩ | ⟨hmi, ⟨call', hi'⟩, rfl⟩
  · rcases hc.task_eq_or hjn hj with ⟨hj', -⟩ | ⟨hmj, ⟨call', hj'⟩, rfl⟩
    · exact h i j ji jj pi pj hij hi' hj' hid
    · -- the later one is told, and the earlier one is over: it would be told, too
      have hijob : ji.identifier = job.identifier :=
        hid.symm.trans (hs.identifier_of_mem_waiters hmj hj')
      have hover : pi.isLive = false := by
        refine (h i j _ _ _ _ hij hi' hj' hid).not_live_of_waiting ?_ ?_
        · rintro call' rfl
          exact hin (hs.retriever_unique ht hi' hijob)
        · rintro call' rfl
          exact hni ⟨hs.mem_waiters_of_waiting hi' hijob, call', rfl⟩
      exact Phase.mayPrecede_of_not_live hover _
  · rcases hc.task_eq_or hjn hj with ⟨hj', hnj⟩ | ⟨-, -, rfl⟩
    · have hjjob : jj.identifier = job.identifier :=
        hid.trans (hs.identifier_of_mem_waiters hmi hi')
      rcases (h i j _ _ _ _ hij hi' hj' hid).of_waiting with rfl | rfl | ⟨call'', rfl⟩
      · trivial
      · exact absurd hj' (hstarted j jj)
      · exact absurd ⟨hs.mem_waiters_of_waiting hj' hjjob, call'', rfl⟩ hnj
    · trivial

end Service

end Excerpt
