import Excerpt.Proofs.Service.Awake
import Excerpt.Proofs.Service.Bystander

/-!
# Cancelling a bystander

A run in which a bystander is cancelled and the run without that event are compared by what is left
of both without that task. At the event nothing is seen of the difference, and from there on the
same events lead through the same states. So every other task, every call and every table entry is
the same at every point after it.
-/

namespace Excerpt

namespace Service

variable {fetcher : Fetcher} {s t : Service} {n : Nat}

/-! ## Interleavings and runs -/

theorem without_act (h : s.Bystander n) (fetcher : Fetcher) (action : Action) :
    (act fetcher s action).without n = act fetcher (s.without n) action := by
  cases action with
  | event event => exact without_apply h event
  | poll m =>
    change (s.poll fetcher m).without n = (s.without n).poll fetcher m
    by_cases hm : m = n
    · subst hm
      rw [h.without_poll_self, poll_without_self h]
    · exact without_poll fetcher s hm

theorem without_foldl_act (h : s.Bystander n) (fetcher : Fetcher) (actions : List Action) :
    (actions.foldl (act fetcher) s).without n = actions.foldl (act fetcher) (s.without n) := by
  induction actions generalizing s with
  | nil => rfl
  | cons action actions ih =>
    rw [List.foldl_cons, ih (h.act fetcher action), without_act h, List.foldl_cons]

theorem without_turn (h : s.Bystander n) (fetcher : Fetcher) :
    (turn fetcher s).without n = s.without n ∨
      (turn fetcher s).without n = turn fetcher (s.without n) := by
  cases hq : s.queue with
  | nil =>
    rw [turn_of_queue_nil fetcher hq]
    exact Or.inl rfl
  | cons m queue =>
    rw [turn_of_queue_cons fetcher hq]
    by_cases hm : m = n
    · subst hm
      exact Or.inl (h.without_poll_self fetcher)
    · have hfront : (s.without n).queue = m :: queue.filter (· ≠ n) := by
        simp [without, hq, hm]
      rw [turn_of_queue_cons fetcher hfront]
      exact Or.inr (without_poll fetcher s hm)

theorem without_drain (h : s.Bystander n) (fetcher : Fetcher) :
    (drain fetcher s).without n = drain fetcher (s.without n) := by
  refine view_drain fetcher (fun s => s.without n) (p := fun s => s.Bystander n)
    (fun s m hs => hs.poll fetcher m) (fun s hs => without_turn hs fetcher) ?_ h
  intro s hq
  simp [without, hq]

theorem without_step (h : s.Bystander n) (fetcher : Fetcher) (event : Event) :
    (step fetcher s event).without n = step fetcher (s.without n) event := by
  rw [step, without_drain (h.apply event), without_apply h, step]

theorem Bystander.step (h : s.Bystander n) (fetcher : Fetcher) (event : Event) :
    (step fetcher s event).Bystander n :=
  turns_induction fetcher (p := fun s => s.Bystander n) (fun _ m hs => hs.poll fetcher m) _
    (h.apply event)

theorem without_foldl_step (h : s.Bystander n) (fetcher : Fetcher) (events : List Event) :
    (events.foldl (Service.step fetcher) s).without n =
      events.foldl (Service.step fetcher) (s.without n) := by
  induction events generalizing s with
  | nil => rfl
  | cons event events ih =>
    rw [List.foldl_cons, ih (h.step fetcher event), without_step h, List.foldl_cons]

/-- At rest, cancelling a bystander leads nowhere else. -/
theorem Bystander.without_step_cancel (h : s.Bystander n) (hq : s.queue = [])
    (fetcher : Fetcher) : (Service.step fetcher s (.cancel n)).without n = s.without n := by
  have hrest : (s.without n).queue = [] := by simp [Service.without, hq]
  rw [Service.step, without_drain (h.apply (.cancel n))]
  change drain fetcher ((s.cancel n).without n) = _
  rw [h.without_cancel_self]
  exact turns_of_queue_nil fetcher _ hrest

/-! ## What the others see of it -/

/-- Two services differ in one task and in nothing that another task or a caller sees. -/
structure SameBut (n : Nat) (s t : Service) : Prop where
  count : s.tasks.length = t.tasks.length
  task : ∀ m, m ≠ n → s.tasks[m]? = t.tasks[m]?
  outcome : ∀ m, m ≠ n → s.outcome? m = t.outcome? m
  completed : s.completed.filter (· ≠ n) = t.completed.filter (· ≠ n)
  calls : s.calls = t.calls
  table : s.table = t.table
  cached : ∀ identifier, s.isCached identifier = t.isCached identifier

theorem sameBut_of_without_eq (h : s.without n = t.without n) : SameBut n s t := by
  have htask (m : Nat) (hm : m ≠ n) : s.tasks[m]? = t.tasks[m]? := by
    rw [← task_without s hm, h, task_without t hm]
  have hcompleted : (s.without n).completed = (t.without n).completed := by rw [h]
  have hcalls : (s.without n).calls = (t.without n).calls := by rw [h]
  have htable : s.table = t.table := by
    change (s.without n).table = (t.without n).table
    rw [h]
  refine ⟨?_, htask, fun m hm => ?_, hcompleted, hcalls, htable, fun identifier => ?_⟩
  · have hlength := congrArg (fun u => u.tasks.length) h
    simpa [without, setPhase] using hlength
  · rw [outcome?, outcome?, phase?, phase?, htask m hm]
  · rw [isCached, isCached, htable]

/-- Cancelling a task that waits for the retrieval of another task, or has ended, changes nothing
for any other: whatever comes later, every other task gets the same, in the same order, for the
same calls, and the same files are kept. That is so of a run after each of its later steps, and of
an interleaving after each of its later actions. -/
theorem cancel_bystander (fetcher : Fetcher) (n : Nat) :
    (∀ events later, (run fetcher events).Bystander n →
      SameBut n (run fetcher (events ++ .cancel n :: later)) (run fetcher (events ++ later))) ∧
    ∀ actions later, (interleave fetcher actions).Bystander n →
      SameBut n (interleave fetcher (actions ++ .event (.cancel n) :: later))
        (interleave fetcher (actions ++ later)) := by
  constructor
  · intro events later h
    refine sameBut_of_without_eq ?_
    have hq : (run fetcher events).queue = [] := queue_run fetcher events
    have hcancel : (Service.step fetcher (run fetcher events) (.cancel n)).Bystander n :=
      h.step fetcher (.cancel n)
    rw [run, List.foldl_append, List.foldl_cons, run, List.foldl_append]
    change (later.foldl _ (Service.step fetcher (run fetcher events) (.cancel n))).without n =
      (later.foldl _ (run fetcher events)).without n
    rw [without_foldl_step hcancel, without_foldl_step h, h.without_step_cancel hq]
  · intro actions later h
    refine sameBut_of_without_eq ?_
    have hcancel : ((interleave fetcher actions).cancel n).Bystander n := h.cancel n
    rw [interleave_append, List.foldl_cons, interleave_append]
    change (later.foldl _ ((interleave fetcher actions).cancel n)).without n = _
    rw [without_foldl_act hcancel, without_foldl_act h, h.without_cancel_self]

/-- The second of three tasks is cancelled while it waits, before the file comes, or after it was
told and before it took the file. -/
theorem cancel_bystander_of_shared :
    let start : Event := .start [.get "a", .get "a", .get "a"]
    let finish : Event := .finish 0 (.content "x")
    let gone := run .held ([start] ++ .cancel 1 :: [finish])
    let actions : List Action :=
      [.event start, .poll 0, .poll 1, .poll 2, .event finish, .poll 0]
    (run .held [start]).Bystander 1 ∧ (interleave .held actions).Bystander 1 ∧
      SameBut 1 gone (run .held ([start] ++ [finish])) ∧ gone.completed = [0, 2] ∧
      SameBut 1 (interleave .held (actions ++ .event (.cancel 1) :: [.poll 2]))
        (interleave .held (actions ++ [.poll 2])) := by
  intro start finish gone actions
  have hrun : (run .held [start]).Bystander 1 := ⟨.get "a", .waiting 0, by decide, rfl⟩
  have hinterleave : (interleave .held actions).Bystander 1 :=
    ⟨.get "a", .answered (some ⟨0, Source.ofContent "x"⟩), by decide, rfl⟩
  obtain ⟨hevents, hactions⟩ := cancel_bystander .held 1
  exact ⟨hrun, hinterleave, hevents [start] [finish] hrun, by decide,
    hactions actions [.poll 2] hinterleave⟩

end Service

end Excerpt
