import Excerpt.Service.Basic

/-!
# Turns of the file service

A turn takes the task at the front of the queue as far as it can go. Every turn lowers the
work left, which is the length of the queue and the number of tasks that started or wait.
So as many turns as there is work empty the queue.
-/

namespace Excerpt

namespace Phase

/-- A task in such a phase has a turn ahead for which it is not in the queue yet. -/
def hasTurnAhead : Phase → Bool
  | started => true
  | waiting _ => true
  | _ => false

end Phase

namespace Service

/-- Gives the outcome of a retrieval to one waiter. A waiter that was cancelled is passed over. -/
def answerWaiter (file : Option SharedSource) (s : Service) (n : Nat) : Service :=
  match s.phase? n with
  | some (.waiting _) => (s.setPhase n (.answered file)).wake n
  | _ => s

def answerWaiters (s : Service) (waiters : List Nat) (file : Option SharedSource) : Service :=
  waiters.foldl (answerWaiter file) s

/-- The tasks that wait for the open retrieval of an identifier. -/
def waiters (s : Service) (identifier : String) : List Nat :=
  match s.table.get? identifier with
  | some (.pending _ waiters) => waiters
  | _ => []

def keep (s : Service) (identifier : String) (file : SharedSource) : Service :=
  { s with table := s.table.put identifier (.completed file) }

def forget (s : Service) (identifier : String) : Service :=
  { s with table := s.table.erase identifier }

/-- Joins the waiters of an open call. -/
def join (s : Service) (n call : Nat) (identifier : String) (waiters : List Nat) : Service :=
  let s' := s.setPhase n (.waiting call)
  { s' with table := s.table.put identifier (.pending call (waiters ++ [n])) }

def openCall (s : Service) (n : Nat) (identifier : String) (retrieved : Option Retrieved) :
    Service :=
  let s' := s.setPhase n (.retrieving s.calls.length)
  { s' with
    table := s.table.put identifier (.pending s.calls.length [])
    calls := s.calls ++ [⟨identifier, n, retrieved⟩] }

/-- The first turn of a task: the file is there, or its retrieval is open, or this task
opens it. -/
def claim (fetcher : Fetcher) (s : Service) (n : Nat) (identifier : String) : Service :=
  match s.table.get? identifier with
  | some (.completed file) => s.complete n (.served file)
  | some (.pending call waiters) => s.join n call identifier waiters
  | none =>
    match fetcher identifier with
    | some retrieved => (s.openCall n identifier (some retrieved)).wake n
    | none => s.openCall n identifier none

/-- The end of a retrieval. The file stays in the table; a failure is forgotten. -/
def settle (s : Service) (n call : Nat) (identifier : String) (retrieved : Retrieved) : Service :=
  let waiters := s.waiters identifier
  match retrieved.outcome call identifier with
  | .served file =>
    ((s.keep identifier file).complete n (.served file)).answerWaiters waiters (some file)
  | .failed failure =>
    ((s.forget identifier).complete n (.failed failure)).answerWaiters waiters none

def resume (fetcher : Fetcher) (s : Service) (n : Nat) (task : Task) : Service :=
  match task.phase with
  | .started => s.claim fetcher n task.identifier
  | .retrieving call =>
    match (s.calls[call]?).bind Call.retrieved with
    | some retrieved => s.settle n call task.identifier retrieved
    | none => s
  | .answered (some file) => s.complete n (.served file)
  | .answered none => s.complete n (.failed (.abandoned task.identifier))
  | .waiting _ => s
  | .completed _ => s
  | .cancelled => s

def turn (fetcher : Fetcher) (s : Service) : Service :=
  match s.queue with
  | [] => s
  | n :: queue =>
    match s.tasks[n]? with
    | some task => resume fetcher { s with queue := queue } n task
    | none => { s with queue := queue }

def turns (fetcher : Fetcher) : Nat → Service → Service
  | 0, s => s
  | k + 1, s => turns fetcher k (turn fetcher s)

/-- The number of tasks that have a turn ahead without being in the queue for it. -/
def ahead (s : Service) : Nat := s.tasks.countP fun task => task.phase.hasTurnAhead

def work (s : Service) : Nat := s.queue.length + s.ahead

/-- Takes turns until nobody is left in the queue. -/
def drain (fetcher : Fetcher) (s : Service) : Service := turns fetcher s.work s

@[simp] theorem turns_zero (fetcher : Fetcher) (s : Service) : turns fetcher 0 s = s := rfl

theorem turns_succ (fetcher : Fetcher) (k : Nat) (s : Service) :
    turns fetcher (k + 1) s = turns fetcher k (turn fetcher s) := rfl

theorem turn_of_queue_nil (fetcher : Fetcher) {s : Service} (h : s.queue = []) :
    turn fetcher s = s := by simp [turn, h]

/-! ## Every turn lowers the work left -/

@[simp] theorem queue_setPhase (s : Service) (n : Nat) (phase : Phase) :
    (s.setPhase n phase).queue = s.queue := rfl

@[simp] theorem queue_complete (s : Service) (n : Nat) (outcome : Outcome) :
    (s.complete n outcome).queue = s.queue := rfl

@[simp] theorem tasks_complete (s : Service) (n : Nat) (outcome : Outcome) :
    (s.complete n outcome).tasks = (s.setPhase n (.completed outcome)).tasks := rfl

theorem ahead_wake (s : Service) (n : Nat) : (s.wake n).ahead = s.ahead := by
  by_cases h : n ∈ s.queue <;> simp [wake, h, ahead]

theorem length_queue_wake_le (s : Service) (n : Nat) :
    (s.wake n).queue.length ≤ s.queue.length + 1 := by
  by_cases h : n ∈ s.queue <;> simp [wake, h]

theorem countP_modify_phase (tasks : List Task) {n : Nat} {task : Task} (phase : Phase)
    (h : tasks[n]? = some task) :
    (tasks.modify n fun t => { t with phase := phase }).countP (fun t => t.phase.hasTurnAhead) +
        (if task.phase.hasTurnAhead then 1 else 0) =
      tasks.countP (fun t => t.phase.hasTurnAhead) + if phase.hasTurnAhead then 1 else 0 := by
  induction tasks generalizing n with
  | nil => simp at h
  | cons t tasks ih =>
    cases n with
    | zero =>
      simp only [List.getElem?_cons_zero, Option.some.injEq] at h
      subst h
      simp only [List.modify_zero_cons, List.countP_cons]
      omega
    | succ n =>
      have := ih (n := n) (by simpa using h)
      simp only [List.modify_succ_cons, List.countP_cons]
      omega

theorem ahead_setPhase (s : Service) {n : Nat} {task : Task} (phase : Phase)
    (h : s.tasks[n]? = some task) :
    (s.setPhase n phase).ahead + (if task.phase.hasTurnAhead then 1 else 0) =
      s.ahead + if phase.hasTurnAhead then 1 else 0 :=
  countP_modify_phase s.tasks phase h

theorem ahead_setPhase_le (s : Service) (n : Nat) (phase : Phase)
    (h : phase.hasTurnAhead = false) : (s.setPhase n phase).ahead ≤ s.ahead := by
  cases hn : s.tasks[n]? with
  | none =>
    have hlen : s.tasks.length ≤ n := by simpa using hn
    simp [ahead, setPhase, List.modify_eq_self hlen]
  | some task =>
    have := ahead_setPhase s phase hn
    simp only [h, Bool.false_eq_true, if_false] at this
    omega

theorem work_answerWaiter_le (file : Option SharedSource) (s : Service) (n : Nat) :
    (answerWaiter file s n).work ≤ s.work := by
  unfold answerWaiter
  split
  case h_1 call hp =>
    obtain ⟨task, ht, hphase⟩ := Option.map_eq_some_iff.1 hp
    have hset := ahead_setPhase s (.answered file) ht
    have hq := length_queue_wake_le (s.setPhase n (.answered file)) n
    simp only [hphase, Phase.hasTurnAhead, if_true, Bool.false_eq_true, if_false,
      queue_setPhase] at hset hq
    simp only [work, ahead_wake]
    omega
  case h_2 => exact Nat.le_refl _

theorem work_answerWaiters_le (file : Option SharedSource) (waiters : List Nat) (s : Service) :
    (s.answerWaiters waiters file).work ≤ s.work := by
  induction waiters generalizing s with
  | nil => exact Nat.le_refl _
  | cons n waiters ih => exact Nat.le_trans (ih (answerWaiter file s n)) (work_answerWaiter_le file s n)

theorem work_complete_le (s : Service) (n : Nat) (outcome : Outcome) :
    (s.complete n outcome).work ≤ s.work := by
  have := ahead_setPhase_le s n (.completed outcome) rfl
  have : (s.complete n outcome).ahead = (s.setPhase n (.completed outcome)).ahead := rfl
  simp only [work, queue_complete]
  omega

theorem work_settle_le (s : Service) (n call : Nat) (identifier : String)
    (retrieved : Retrieved) : (s.settle n call identifier retrieved).work ≤ s.work := by
  unfold settle
  cases retrieved.outcome call identifier with
  | served file => exact Nat.le_trans (work_answerWaiters_le _ _ _) (work_complete_le _ _ _)
  | failed failure => exact Nat.le_trans (work_answerWaiters_le _ _ _) (work_complete_le _ _ _)

theorem work_join_le (s : Service) {n : Nat} {task : Task} (call : Nat) (identifier : String)
    (waiters : List Nat) (h : s.tasks[n]? = some task) (hphase : task.phase = .started) :
    (s.join n call identifier waiters).work ≤ s.work := by
  have hset := ahead_setPhase s (.waiting call) h
  have ha : (s.join n call identifier waiters).ahead = (s.setPhase n (.waiting call)).ahead := rfl
  have hq : (s.join n call identifier waiters).queue = s.queue := rfl
  simp only [hphase, Phase.hasTurnAhead, if_true] at hset
  simp only [work, ha, hq]
  omega

theorem work_openCall_lt (s : Service) {n : Nat} {task : Task} (identifier : String)
    (retrieved : Option Retrieved) (h : s.tasks[n]? = some task) (hphase : task.phase = .started) :
    (s.openCall n identifier retrieved).work < s.work := by
  have hset := ahead_setPhase s (.retrieving s.calls.length) h
  have ha : (s.openCall n identifier retrieved).ahead =
      (s.setPhase n (.retrieving s.calls.length)).ahead := rfl
  have hq : (s.openCall n identifier retrieved).queue = s.queue := rfl
  simp only [hphase, Phase.hasTurnAhead, if_true, Bool.false_eq_true, if_false] at hset
  simp only [work, ha, hq]
  omega

theorem work_wake_le (s : Service) (n : Nat) : (s.wake n).work ≤ s.work + 1 := by
  have := length_queue_wake_le s n
  simp only [work, ahead_wake]
  omega

theorem work_claim_le (fetcher : Fetcher) (s : Service) {n : Nat} {task : Task}
    (identifier : String) (h : s.tasks[n]? = some task) (hphase : task.phase = .started) :
    (s.claim fetcher n identifier).work ≤ s.work := by
  unfold claim
  split
  · exact work_complete_le _ _ _
  · exact work_join_le s _ identifier _ h hphase
  · split
    · next retrieved _ =>
      have := work_openCall_lt s identifier (some retrieved) h hphase
      have := work_wake_le (s.openCall n identifier (some retrieved)) n
      omega
    · exact Nat.le_of_lt (work_openCall_lt s identifier none h hphase)

theorem work_resume_le (fetcher : Fetcher) (s : Service) {n : Nat} {task : Task}
    (h : s.tasks[n]? = some task) : (resume fetcher s n task).work ≤ s.work := by
  unfold resume
  split
  case h_1 hphase => exact work_claim_le fetcher s _ h hphase
  case h_2 =>
    split
    · exact work_settle_le _ _ _ _ _
    · exact Nat.le_refl _
  case h_3 => exact work_complete_le _ _ _
  case h_4 => exact work_complete_le _ _ _
  all_goals exact Nat.le_refl _

theorem work_turn_lt (fetcher : Fetcher) {s : Service} (h : s.queue ≠ []) :
    (turn fetcher s).work < s.work := by
  cases hq : s.queue with
  | nil => exact absurd hq h
  | cons n queue =>
    have hw : ({ s with queue := queue } : Service).work < s.work := by
      simp only [work, ahead, hq, List.length_cons]
      omega
    cases ht : s.tasks[n]? with
    | none => simpa only [turn, hq, ht] using hw
    | some task =>
      simp only [turn, hq, ht]
      exact Nat.lt_of_le_of_lt (work_resume_le fetcher _ ht) hw

theorem turns_of_queue_nil (fetcher : Fetcher) (k : Nat) {s : Service} (h : s.queue = []) :
    turns fetcher k s = s := by
  induction k with
  | zero => rfl
  | succ k ih => rw [turns_succ, turn_of_queue_nil fetcher h, ih]

theorem queue_turns (fetcher : Fetcher) (k : Nat) (s : Service) (h : s.work ≤ k) :
    (turns fetcher k s).queue = [] := by
  induction k generalizing s with
  | zero =>
    have : s.queue.length = 0 := by simp only [work] at h; omega
    simpa using this
  | succ k ih =>
    by_cases hq : s.queue = []
    · rw [turns_of_queue_nil fetcher _ hq, hq]
    · have := work_turn_lt fetcher hq
      exact ih _ (by omega)

@[simp] theorem queue_drain (fetcher : Fetcher) (s : Service) : (drain fetcher s).queue = [] :=
  queue_turns fetcher s.work s (Nat.le_refl _)

end Service

end Excerpt
