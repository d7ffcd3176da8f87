import Excerpt.Proofs.Service.Refinement
import Excerpt.Proofs.Service.RestrictedEvent

/-!
# Identifiers do not interfere

All identifiers share one table, one queue and one numbering of calls, and yet none of them sees
anything of the others. A run from which everything is deleted that belongs to other identifiers
leads to the part of the identifier, and so does an interleaving: each action on the whole is on
the part either the same action or nothing.
-/

namespace Excerpt

theorem Job.reply_renumber (job : Job) (g : Nat → Nat) (outcome : Outcome) :
    job.reply (outcome.renumber g) = job.reply outcome := by
  cases outcome with
  | served file => cases job <;> rfl
  | failed failure => rfl

namespace Service

variable {fetcher : Fetcher} {s t : Service} {b : String}

/-! ## Interleavings -/

def actionFor (s : Service) (b : String) : Action → Option Action
  | .event event => (s.eventFor b event).map .event
  | .poll n => if s.asksFor b n then some (.poll (s.taskRank b n)) else none

theorem restrict_act (h : Grounded s) (fetcher : Fetcher) (b : String) (action : Action) :
    (act fetcher s action).restrict b =
      (s.actionFor b action).elim (s.restrict b) (act fetcher (s.restrict b)) := by
  cases action with
  | event event =>
    refine (restrict_apply h b event).trans ?_
    simp only [actionFor]
    cases s.eventFor b event <;> rfl
  | poll n =>
    change (s.poll fetcher n).restrict b = _
    simp only [actionFor]
    by_cases hn : s.asksFor b n = true
    · rw [restrict_poll_of_asksFor h.consistent fetcher hn, if_pos hn]
      rfl
    · rw [restrict_poll_of_not h.consistent fetcher (Bool.eq_false_iff.2 hn), if_neg hn]
      rfl

/-- What is left of actions that are taken one after the other from a state on. -/
def actionsFor (fetcher : Fetcher) (b : String) (s : Service) : List Action → List Action
  | [] => []
  | action :: actions =>
    (s.actionFor b action).toList ++ actionsFor fetcher b (act fetcher s action) actions

theorem actionsFor_snoc (fetcher : Fetcher) (b : String) (s : Service) (actions : List Action)
    (action : Action) : actionsFor fetcher b s (actions ++ [action]) =
      actionsFor fetcher b s actions ++
        ((actions.foldl (act fetcher) s).actionFor b action).toList := by
  induction actions generalizing s with
  | nil => simp [actionsFor]
  | cons first actions ih => simp [actionsFor, ih]

theorem restrict_foldl_act (h : Grounded s) (fetcher : Fetcher) (b : String)
    (actions : List Action) : (actions.foldl (act fetcher) s).restrict b =
      (actionsFor fetcher b s actions).foldl (act fetcher) (s.restrict b) := by
  induction actions generalizing s with
  | nil => rfl
  | cons action actions ih =>
    rw [List.foldl_cons, ih (h.act fetcher action), restrict_act h, actionsFor, List.foldl_append]
    cases s.actionFor b action <;> rfl

theorem grounded_empty : Grounded empty where
  consistent := consistent_empty
  mem_completed n := by simp [empty, Done]
  queued n hn := by simp [empty] at hn

/-! ## Runs -/

theorem Grounded.turns (h : Grounded s) (fetcher : Fetcher) (k : Nat) :
    Grounded (Service.turns fetcher k s) :=
  turns_induction fetcher (fun _ n hs => hs.act fetcher (.poll n)) k h

/-- A turn is the turn of a task for the identifier, or nothing is seen of it. -/
theorem restrict_turn (h : Grounded s) (fetcher : Fetcher) (b : String) :
    (turn fetcher s).restrict b = s.restrict b ∨
      (turn fetcher s).restrict b = turn fetcher (s.restrict b) := by
  cases hq : s.queue with
  | nil =>
    rw [turn_of_queue_nil fetcher hq]
    exact Or.inl rfl
  | cons n queue =>
    rw [turn_of_queue_cons fetcher hq]
    by_cases hn : s.asksFor b n = true
    · have hfront : (s.restrict b).queue = s.taskRank b n :: s.ranked b queue := by
        simp [restrict, hq, ranked, hn]
      rw [turn_of_queue_cons fetcher hfront]
      exact Or.inr (restrict_poll_of_asksFor h.consistent fetcher hn)
    · exact Or.inl (restrict_poll_of_not h.consistent fetcher (Bool.eq_false_iff.2 hn))

theorem restrict_drain (h : Grounded s) (fetcher : Fetcher) (b : String) :
    (drain fetcher s).restrict b = drain fetcher (s.restrict b) := by
  refine view_drain fetcher (fun s => s.restrict b) (p := Grounded)
    (fun s n hs => hs.act fetcher (.poll n)) (fun s hs => restrict_turn hs fetcher b) ?_ h
  intro s hq
  simp [restrict, ranked, hq]

theorem restrict_step (h : Grounded s) (hq : s.queue = []) (fetcher : Fetcher) (b : String)
    (event : Event) : (step fetcher s event).restrict b =
      (s.eventFor b event).elim (s.restrict b) (step fetcher (s.restrict b)) := by
  have hevent : Grounded (s.apply event) := h.act fetcher (.event event)
  rw [step, restrict_drain hevent, restrict_apply h]
  cases s.eventFor b event with
  | none =>
    have hq' : (s.restrict b).queue = [] := by simp [restrict, ranked, hq]
    exact turns_of_queue_nil fetcher _ hq'
  | some event' => rfl

/-- What is left of the events of a run from a state on. -/
def eventsFor (fetcher : Fetcher) (b : String) (s : Service) : List Event → List Event
  | [] => []
  | event :: events =>
    (s.eventFor b event).toList ++ eventsFor fetcher b (step fetcher s event) events

theorem eventsFor_snoc (fetcher : Fetcher) (b : String) (s : Service) (events : List Event)
    (event : Event) : eventsFor fetcher b s (events ++ [event]) = eventsFor fetcher b s events ++
      ((events.foldl (step fetcher) s).eventFor b event).toList := by
  induction events generalizing s with
  | nil => simp [eventsFor]
  | cons first events ih => simp [eventsFor, ih]

theorem restrict_foldl_step (h : Grounded s) (hq : s.queue = []) (fetcher : Fetcher)
    (b : String) (events : List Event) : (events.foldl (step fetcher) s).restrict b =
      (eventsFor fetcher b s events).foldl (step fetcher) (s.restrict b) := by
  induction events generalizing s with
  | nil => rfl
  | cons event events ih =>
    have hstep : Grounded (step fetcher s event) :=
      Grounded.turns (h.act fetcher (.event event)) fetcher _
    rw [List.foldl_cons, ih hstep (queue_step fetcher s event), restrict_step h hq, eventsFor,
      List.foldl_append]
    cases s.eventFor b event <;> rfl

/-- A run of what belongs to an identifier leads to the part of the identifier. -/
theorem run_eventsFor (fetcher : Fetcher) (b : String) (events : List Event) :
    run fetcher (eventsFor fetcher b empty events) = (run fetcher events).restrict b :=
  (restrict_foldl_step grounded_empty rfl fetcher b events).symm

theorem interleave_actionsFor (fetcher : Fetcher) (b : String) (actions : List Action) :
    interleave fetcher (actionsFor fetcher b empty actions) =
      (interleave fetcher actions).restrict b :=
  (restrict_foldl_act grounded_empty fetcher b actions).symm

/-! ## What an identifier sees -/

/-- One service is to an identifier what another one is, but for the numbers, and has nothing
else. -/
structure SameFor (b : String) (s t : Service) : Prop where
  only : ∀ task ∈ t.tasks, task.identifier = b
  count : t.tasks.length = s.tasks.countP (Task.isFor b)
  ascending : ∀ m n, s.asksFor b m = true → m < n → s.taskRank b m < s.taskRank b n
  task : ∀ n job phase, s.tasks[n]? = some ⟨job, phase⟩ → job.identifier = b →
    t.tasks[s.taskRank b n]? = some ⟨job, phase.renumber (s.callRank b)⟩
  reply : ∀ n job phase, s.tasks[n]? = some ⟨job, phase⟩ → job.identifier = b →
    (t.outcome? (s.taskRank b n)).map job.reply = (s.outcome? n).map job.reply
  completed : t.completed = (s.completed.filter (s.asksFor b)).map (s.taskRank b)
  callCount : t.callCount b = s.callCount b
  call : ∀ k c, s.calls[k]? = some c → c.identifier = b →
    t.calls[s.callRank b k]? = some (c.renumber (s.taskRank b))
  entry : t.table.get? b = (s.table.get? b).map (Entry.renumber (s.taskRank b) (s.callRank b))

theorem sameFor_restrict (s : Service) (b : String) : SameFor b s (s.restrict b) where
  only task h := by
    obtain ⟨task', hm, rfl⟩ := List.mem_map.1 h
    have hfor : Task.isFor b task' = true := (List.mem_filter.1 hm).2
    exact Task.isFor_iff.1 hfor
  count := by simp [restrict, List.countP_eq_length_filter]
  ascending m n hm hlt := by
    obtain ⟨job, phase, ht, hid⟩ := asksFor_iff.1 hm
    exact rank_lt_rank hlt ht (Task.isFor_iff.2 hid)
  task n job phase ht hid := task_restrict (asksFor_iff.2 ⟨job, phase, ht, hid⟩) ht
  reply n job phase ht hid := by
    have hn : s.asksFor b n = true := asksFor_iff.2 ⟨job, phase, ht, hid⟩
    unfold outcome?
    rw [phase?_restrict hn, phase?_of_task ht, Option.map_some]
    cases phase with
    | completed outcome => exact congrArg some (Job.reply_renumber job _ outcome)
    | _ => rfl
  completed := rfl
  callCount := by
    have hfor : (fun c : Call => c.identifier == b) = Call.isFor b := by
      funext c
      rw [Call.isFor, beq_eq_decide]
    have hsame : Call.isFor b ∘ Call.renumber (s.taskRank b) = Call.isFor b := rfl
    unfold Service.callCount
    rw [hfor, restrict, List.countP_map, hsame, List.countP_filter]
    simp
  call k c hc hid := call_restrict hc hid
  entry := get?_restrict s b

/-- Deleting from a run or from an interleaving everything that belongs to other identifiers, and
numbering what is left anew, leaves to an identifier what it had, whenever that is done: after
every step and every action. -/
theorem noninterference (fetcher : Fetcher) (b : String) :
    (∀ events,
      let kept := eventsFor fetcher b empty events
      SameFor b (run fetcher events) (run fetcher kept) ∧
      ∀ event, eventsFor fetcher b empty (events ++ [event]) =
        kept ++ ((run fetcher events).eventFor b event).toList) ∧
    ∀ actions,
      let kept := actionsFor fetcher b empty actions
      SameFor b (interleave fetcher actions) (interleave fetcher kept) ∧
      ∀ action, actionsFor fetcher b empty (actions ++ [action]) =
        kept ++ ((interleave fetcher actions).actionFor b action).toList := by
  constructor
  · intro events kept
    refine ⟨?_, eventsFor_snoc fetcher b empty events⟩
    rw [run_eventsFor]
    exact sameFor_restrict _ b
  · intro actions kept
    refine ⟨?_, actionsFor_snoc fetcher b empty actions⟩
    rw [interleave_actionsFor]
    exact sameFor_restrict _ b

/-- The call for the other file is deleted, and the task becomes the first one. -/
example : eventsFor .held "b" empty [.start [.get "a", .get "b"], .finish 0 .missing, .cancel 1] =
    [.start [.get "b"], .cancel 0] := by decide

end Service

end Excerpt
