import Excerpt.Proofs.Service.Awake
import Excerpt.Proofs.Service.Ranking
import Mathlib.Data.List.Nodup

/-!
# Who stands in the queue

While tasks take turns, those that have only started stand at the front of the queue, in the order
in which they came. So they ask in that order, and the waiters of a call are listed and told in
it. Behind them stand the tasks that have asked: those whose call has returned, and those that
were told what their retrieval came to, who keep the order in which they were listed.
-/

namespace Excerpt

namespace Service

variable {fetcher : Fetcher} {s t : Service} {n m k call : Nat} {job job' : Job}
  {phase phase₀ : Phase} {file : Option SharedSource} {woken queue : List Nat}

/-! ## Telling the waiters -/

def isWaiting (s : Service) (n : Nat) : Bool :=
  match s.phase? n with
  | some (.waiting _) => true
  | _ => false

theorem isWaiting_iff : s.isWaiting n = true ↔ ∃ call, s.phase? n = some (.waiting call) := by
  unfold isWaiting
  cases s.phase? n with
  | none => simp
  | some phase => cases phase <;> simp

theorem isWaiting_eq_false_iff :
    s.isWaiting n = false ↔ ∀ call, s.phase? n ≠ some (.waiting call) := by
  rw [Bool.eq_false_iff, ne_eq, isWaiting_iff, not_exists]

theorem isWaiting_congr (h : t.tasks[n]? = s.tasks[n]?) : t.isWaiting n = s.isWaiting n := by
  unfold isWaiting phase?
  rw [h]

theorem queue_answerWaiter (file : Option SharedSource)
    (hq : s.isWaiting n = true → n ∉ s.queue) :
    (answerWaiter file s n).queue = s.queue ++ [n].filter s.isWaiting := by
  unfold answerWaiter
  cases hw : s.isWaiting n with
  | true =>
    obtain ⟨call, hp⟩ := isWaiting_iff.1 hw
    simp [hp, wake, hq hw, hw]
  | false =>
    split
    · next call hp => exact absurd hp (isWaiting_eq_false_iff.1 hw call)
    · simp [hw]

/-- Those who still wait are put at the end of the queue in the order in which they are listed. -/
theorem queue_answerWaiters {waiters : List Nat} (hd : waiters.Nodup)
    (hq : ∀ m ∈ waiters, s.isWaiting m = true → m ∉ s.queue) (file : Option SharedSource) :
    (s.answerWaiters waiters file).queue = s.queue ++ waiters.filter s.isWaiting := by
  induction waiters generalizing s with
  | nil => simp [answerWaiters]
  | cons n waiters ih =>
    obtain ⟨hn, hd⟩ := List.nodup_cons.1 hd
    have hsame (m : Nat) (hm : m ∈ waiters) : (answerWaiter file s n).tasks[m]? = s.tasks[m]? := by
      rw [task_answerWaiter, if_neg]
      rintro rfl
      exact hn hm
    have hfilter : waiters.filter (answerWaiter file s n).isWaiting = waiters.filter s.isWaiting :=
      List.filter_congr fun m hm => isWaiting_congr (hsame m hm)
    have hhead := queue_answerWaiter file (hq n List.mem_cons_self)
    rw [answerWaiters_cons, ih hd, hfilter, hhead, List.append_assoc, ← List.filter_append]
    · rfl
    · intro m hm hw
      rw [isWaiting_congr (hsame m hm)] at hw
      have hne : m ≠ n := by
        rintro rfl
        exact hn hm
      rw [hhead, List.mem_append, not_or]
      exact ⟨hq m (List.mem_cons_of_mem n hm) hw, fun h => by simp [hne] at h⟩

/-- Of two tasks that were told what a retrieval of their identifier came to, the first is the
earlier one. -/
def ToldInOrder (s : Service) (a b : Nat) : Prop :=
  ∀ (job job' : Job) (file file' : Option SharedSource),
    s.tasks[a]? = some ⟨job, .answered file⟩ → s.tasks[b]? = some ⟨job', .answered file'⟩ →
    job'.identifier = job.identifier → a < b

/-- The tasks in the queue that have asked. -/
structure Woken (s : Service) (k : Nat) (woken : List Nat) : Prop where
  lt : ∀ n ∈ woken, n < k
  not_waiting : ∀ n ∈ woken, s.isWaiting n = false
  ascending : woken.Pairwise s.ToldInOrder

theorem woken_nil (s : Service) (k : Nat) : s.Woken k [] := ⟨by simp, by simp, List.Pairwise.nil⟩

theorem Woken.tail (h : s.Woken k (n :: woken)) : s.Woken k woken :=
  ⟨fun m hm => h.lt m (List.mem_cons_of_mem n hm),
    fun m hm => h.not_waiting m (List.mem_cons_of_mem n hm), (List.pairwise_cons.1 h.ascending).2⟩

theorem Woken.setPhase (h : s.Woken k woken) (ht : s.tasks[n]? = some ⟨job, phase₀⟩)
    (ha : ∀ file, phase ≠ .answered file) (hw : n ∈ woken → ∀ call, phase ≠ .waiting call)
    (htasks : t.tasks = (s.setPhase n phase).tasks) : t.Woken k woken where
  lt := h.lt
  not_waiting m hm := by
    by_cases hmn : m = n
    · subst hmn
      have hself : t.tasks[m]? = some ⟨job, phase⟩ := by
        rw [htasks]
        exact task_setPhase_self ht phase
      rw [isWaiting_eq_false_iff, phase?_of_task hself]
      intro call hp
      exact hw hm call (Option.some.inj hp)
    · have hsame : t.tasks[m]? = s.tasks[m]? := by
        rw [htasks]
        exact task_setPhase_of_ne s phase hmn
      rw [isWaiting_congr hsame]
      exact h.not_waiting m hm
  ascending := by
    refine h.ascending.imp ?_
    intro a b hab ja jb fa fb hta htb hid
    rw [htasks] at hta htb
    rcases task_setPhase_eq_or ht hta with ⟨-, hsa⟩ | ⟨-, -, he⟩
    · rcases task_setPhase_eq_or ht htb with ⟨-, hsb⟩ | ⟨-, -, he⟩
      · exact hab ja jb fa fb hsa hsb hid
      · exact absurd he.symm (ha fb)
    · exact absurd he.symm (ha fa)

theorem Closes.ne_of_live (hc : Closes s t n job phase file) (hp : phase.isLive = false)
    {phase' : Phase} (ht : t.tasks[m]? = some ⟨job', phase'⟩) (hl : phase'.isLive = true) :
    m ≠ n := by
  rintro rfl
  obtain ⟨-, rfl⟩ := Task.mk.inj (Option.some.inj (hc.self.symm.trans ht))
  rw [hp] at hl
  cases hl

/-- Who did not wait and has been told was told before. -/
theorem Closes.task_of_answered (hc : Closes s t n job phase file) (hp : phase.isLive = false)
    (hm : s.isWaiting m = false) {file' : Option SharedSource}
    (ht : t.tasks[m]? = some ⟨job', .answered file'⟩) :
    s.tasks[m]? = some ⟨job', .answered file'⟩ := by
  rcases hc.task_eq_or (hc.ne_of_live hp ht rfl) ht with ⟨hm', -⟩ | ⟨-, ⟨call', hm'⟩, -⟩
  · exact hm'
  · exact absurd (phase?_of_task hm') (isWaiting_eq_false_iff.1 hm call')

/-- While a retrieval has waiters, those told of one before it were started earlier. -/
theorem Ranked.lt_of_answered (h : Ranked s) (hn : s.tasks[n]? = some ⟨job, .answered file⟩)
    (hm : s.tasks[m]? = some ⟨job', .waiting call⟩) (hid : job'.identifier = job.identifier) :
    n < m := by
  rcases Nat.lt_trichotomy n m with hnm | rfl | hmn
  · exact hnm
  · cases hn.symm.trans hm
  · cases h m n _ _ _ _ hmn hm hn hid.symm

/-- Those who are told stand in the queue behind those who were told before, of whom nobody asked
for the same identifier. -/
theorem Woken.close (h : s.Woken k woken) (hranked : Ranked s) (hc : Closes s t n job phase file)
    (hp : phase.isLive = false) (hsorted : (s.waiters job.identifier).Pairwise (· < ·))
    (hlt : ∀ m ∈ s.waiters job.identifier, m < k) :
    t.Woken k (woken ++ (s.waiters job.identifier).filter s.isWaiting) := by
  have htold {m : Nat} {job' : Job} {file' : Option SharedSource} (hm : m ∈ woken)
      (ht : t.tasks[m]? = some ⟨job', .answered file'⟩) :
      s.tasks[m]? = some ⟨job', .answered file'⟩ :=
    hc.task_of_answered hp (h.not_waiting m hm) ht
  refine ⟨fun m hm => ?_, fun m hm => ?_, List.pairwise_append.2 ⟨?_, ?_, ?_⟩⟩
  · rcases List.mem_append.1 hm with hm | hm
    · exact h.lt m hm
    · exact hlt m (List.mem_of_mem_filter hm)
  · rw [isWaiting_eq_false_iff]
    intro call' hpm
    obtain ⟨job', ht⟩ := phase?_eq_some_iff.1 hpm
    rcases hc.task_eq_or (hc.ne_of_live hp ht rfl) ht with ⟨hs', hno⟩ | ⟨-, -, he⟩
    · rcases List.mem_append.1 hm with hm | hm
      · exact isWaiting_eq_false_iff.1 (h.not_waiting m hm) call' (phase?_of_task hs')
      · exact hno ⟨List.mem_of_mem_filter hm, call', rfl⟩
    · cases he
  · refine List.Pairwise.imp_of_mem ?_ h.ascending
    intro a b ha hb hab ja jb fa fb hta htb hid
    exact hab ja jb fa fb (htold ha hta) (htold hb htb) hid
  · refine (hsorted.sublist List.filter_sublist).imp ?_
    intro a b hab ja jb fa fb hta htb hid
    exact hab
  · intro a ha b hb ja jb fa fb hta htb hid
    obtain ⟨call', hpb⟩ := isWaiting_iff.1 (List.mem_filter.1 hb).2
    obtain ⟨jb', hsb⟩ := phase?_eq_some_iff.1 hpb
    have hbn := hc.ne_of_live hp htb rfl
    have hb' := hc.task_of_waiting hbn (List.mem_of_mem_filter hb) hsb
    obtain ⟨rfl, -⟩ := Task.mk.inj (Option.some.inj (hb'.symm.trans htb))
    exact hranked.lt_of_answered (htold ha hta) hsb hid

/-! ## While tasks take turns -/

/-- Whoever made a call was started before its waiters, who are listed as they were started. -/
def Listed (s : Service) : Prop :=
  ∀ (key : String) (call : Nat) (waiters : List Nat) (c : Call),
    s.table.get? key = some (.pending call waiters) → s.calls[call]? = some c →
    (c.task :: waiters).Pairwise (· < ·)

/-- The tasks from `k` on have yet to ask. -/
structure Lined (s : Service) (k : Nat) : Prop where
  started_iff : ∀ (n : Nat) (job : Job) (phase : Phase), s.tasks[n]? = some ⟨job, phase⟩ →
    (phase = .started ↔ k ≤ n)
  ranked : s.Ranked
  listed : s.Listed

/-- The tasks that have yet to ask stand in front of those that have. -/
def InTurn (s : Service) : Prop :=
  ∃ k woken, s.Lined k ∧ s.queue = List.range' k (s.tasks.length - k) ++ woken ∧ s.Woken k woken

theorem Lined.congr (h : s.Lined k) (htasks : t.tasks = s.tasks) (htable : t.table = s.table)
    (hcalls : t.calls = s.calls) : t.Lined k where
  started_iff := by
    rw [htasks]
    exact h.started_iff
  ranked := h.ranked.congr htasks
  listed := by
    unfold Listed
    rw [htable, hcalls]
    exact h.listed

theorem Lined.lt_of_not_started (h : s.Lined k) (ht : s.tasks[n]? = some ⟨job, phase⟩)
    (hp : phase ≠ .started) : n < k :=
  Nat.lt_of_not_le fun hk => hp ((h.started_iff n job phase ht).2 hk)

theorem Lined.not_started (h : s.Lined k) (hk : s.tasks.length ≤ k) (m : Nat) (job : Job) :
    s.tasks[m]? ≠ some ⟨job, .started⟩ := by
  intro ht
  have hle := (h.started_iff m job .started ht).1 rfl
  have hlt := (List.getElem?_eq_some_iff.1 ht).1
  omega

/-- A pending entry lists nobody who has yet to ask. -/
theorem Lined.lt_of_pending (h : s.Lined k) (hs : Consistent s) {key : String}
    {waiters : List Nat} {c : Call} (he : s.table.get? key = some (.pending call waiters))
    (hc : s.calls[call]? = some c) (hm : m ∈ c.task :: waiters) : m < k := by
  obtain ⟨⟨n, job, retrieved, hc', ht⟩, -, hw⟩ := hs.entry _ _ he
  rcases List.mem_cons.1 hm with rfl | hm
  · obtain rfl := Option.some.inj (hc'.symm.trans hc)
    exact h.lt_of_not_started ht (by simp)
  · obtain ⟨job', phase, ht', -, hp⟩ := hw m hm
    refine h.lt_of_not_started ht' ?_
    rcases hp with rfl | rfl <;> simp

/-! ### A task asks -/

/-- When a task asks, every earlier one for its identifier is over or behind a pending entry. -/
theorem Lined.earlier (h : s.Lined k) (hs : Consistent s)
    (ht : s.tasks[k]? = some ⟨job, .started⟩) (hm : m < k)
    (htm : s.tasks[m]? = some ⟨job', phase⟩) (hid : job'.identifier = job.identifier) :
    phase.isLive = false ∨ ∃ call waiters,
      s.table.get? job.identifier = some (.pending call waiters) ∧
        (phase = .retrieving call ∨ phase = .waiting call) := by
  have hle := h.ranked m k _ _ _ _ hm htm ht hid.symm
  have hp := hs.task _ _ _ htm
  cases phase with
  | completed outcome => exact Or.inl rfl
  | cancelled => exact Or.inl rfl
  | retrieving call =>
    obtain ⟨waiters, -, he, -⟩ := hp
    rw [hid] at he
    exact Or.inr ⟨call, waiters, he, Or.inl rfl⟩
  | waiting call =>
    obtain ⟨waiters, he, -⟩ := hp
    rw [hid] at he
    exact Or.inr ⟨call, waiters, he, Or.inr rfl⟩
  | started =>
    have hk := (h.started_iff m _ _ htm).1 rfl
    omega
  | answered file => cases hle

theorem Lined.earlier_over (h : s.Lined k) (hs : Consistent s)
    (ht : s.tasks[k]? = some ⟨job, .started⟩)
    (he : ∀ call waiters, s.table.get? job.identifier ≠ some (.pending call waiters)) (hm : m < k)
    (htm : s.tasks[m]? = some ⟨job', phase⟩) (hid : job'.identifier = job.identifier) :
    phase.isLive = false := by
  rcases h.earlier hs ht hm htm hid with hl | ⟨call, waiters, he', -⟩
  · exact hl
  · exact absurd he' (he call waiters)

theorem mayPrecede_of_started (hs : phase = .retrieving call ∨ phase = .waiting call)
    {phase' : Phase} (h : Phase.started.MayPrecede phase') : phase.MayPrecede phase' := by
  rcases hs with rfl | rfl <;> cases phase' <;> trivial

theorem length_setPhase (s : Service) (n : Nat) (phase : Phase) :
    (s.setPhase n phase).tasks.length = s.tasks.length := List.length_modify _ _ _

/-- The task whose turn it is to ask moves on. -/
theorem Lined.advance (h : s.Lined k) (ht : s.tasks[k]? = some ⟨job, .started⟩)
    (htasks : t.tasks = (s.setPhase k phase).tasks) (hp : phase ≠ .started)
    (hearlier : ∀ (i : Nat) (job' : Job) (phase' : Phase), i < k →
      s.tasks[i]? = some ⟨job', phase'⟩ → job'.identifier = job.identifier →
      phase'.MayPrecede phase)
    (hlater : ∀ phase', Phase.started.MayPrecede phase' → phase.MayPrecede phase')
    (hlisted : t.Listed) (hw : t.Woken (k + 1) woken)
    (hq : t.queue = List.range' (k + 1) (s.tasks.length - (k + 1)) ++ woken) : InTurn t := by
  refine ⟨k + 1, woken, ⟨fun m job' phase' hm => ?_, ?_, hlisted⟩, ?_, hw⟩
  · rw [htasks] at hm
    rcases task_setPhase_eq_or ht hm with ⟨hne, hs⟩ | ⟨rfl, -, rfl⟩
    · rw [h.started_iff m job' phase' hs]
      omega
    · simp [hp]
  · exact (h.ranked.setPhase ht hearlier hlater).congr htasks
  · rw [htasks, length_setPhase]
    exact hq

theorem Woken.not_mem (hw : s.Woken k woken) : k ∉ woken :=
  fun hk => absurd (hw.lt k hk) (Nat.lt_irrefl k)

theorem Woken.advance (hw : s.Woken k woken) (ht : s.tasks[k]? = some ⟨job, phase₀⟩)
    (htasks : t.tasks = (s.setPhase k phase).tasks) (ha : ∀ file, phase ≠ .answered file) :
    t.Woken (k + 1) woken := by
  have h := hw.setPhase ht ha (fun hk => absurd hk hw.not_mem) htasks
  exact ⟨fun m hm => Nat.lt_succ_of_lt (h.lt m hm), h.not_waiting, h.ascending⟩

theorem Listed.of_get? (h : s.Listed) (hcalls : t.calls = s.calls)
    (htable : ∀ key call waiters, t.table.get? key = some (.pending call waiters) →
      s.table.get? key = some (.pending call waiters)) : t.Listed := by
  intro key call waiters c hk hc
  rw [hcalls] at hc
  exact h key call waiters c (htable key call waiters hk) hc

theorem Lined.hit (h : s.Lined k) (hs : Consistent s) (hw : s.Woken k woken)
    (hq : s.queue = List.range' (k + 1) (s.tasks.length - (k + 1)) ++ woken)
    (ht : s.tasks[k]? = some ⟨job, .started⟩) {file : SharedSource}
    (he : s.table.get? job.identifier = some (.completed file)) :
    InTurn (s.complete k (.served file)) := by
  have htasks := tasks_complete s k (.served file)
  refine h.advance ht htasks (by simp) ?_ ?_ (h.listed.of_get? rfl fun _ _ _ => id)
    (hw.advance ht htasks (by simp)) hq
  · intro i job' phase' hi hti hid
    exact Phase.mayPrecede_of_not_live (h.earlier_over hs ht (by simp [he]) hi hti hid) _
  · exact fun phase' _ => trivial

theorem Listed.join (h : s.Listed) {waiters : List Nat} {identifier : String}
    (he : s.table.get? identifier = some (.pending call waiters))
    (hlt : ∀ (c : Call), s.calls[call]? = some c → ∀ m ∈ c.task :: waiters, m < n) :
    (s.join n call identifier waiters).Listed := by
  intro key call' waiters' c hk hc
  rw [get?_join] at hk
  split at hk
  · obtain ⟨rfl, rfl⟩ := Entry.pending.inj (Option.some.inj hk)
    rw [← List.cons_append, List.pairwise_append]
    refine ⟨h identifier call waiters c he hc, List.pairwise_singleton _ _, ?_⟩
    intro a ha b hb
    rw [List.mem_singleton.1 hb]
    exact hlt c hc a ha
  · exact h key call' waiters' c hk hc

theorem Lined.join (h : s.Lined k) (hs : Consistent s) (hw : s.Woken k woken)
    (hq : s.queue = List.range' (k + 1) (s.tasks.length - (k + 1)) ++ woken)
    (ht : s.tasks[k]? = some ⟨job, .started⟩) {waiters : List Nat}
    (he : s.table.get? job.identifier = some (.pending call waiters)) :
    InTurn (s.join k call job.identifier waiters) := by
  have htasks : (s.join k call job.identifier waiters).tasks =
      (s.setPhase k (.waiting call)).tasks := rfl
  refine h.advance ht htasks (by simp) ?_ (fun _ => mayPrecede_of_started (.inr rfl)) ?_
    (hw.advance ht htasks (by simp)) hq
  · intro i job' phase' hi hti hid
    rcases h.earlier hs ht hi hti hid with hl | ⟨call', waiters', -, rfl | rfl⟩
    · exact Phase.mayPrecede_of_not_live hl _
    · trivial
    · trivial
  · exact h.listed.join he fun c hc m hm => h.lt_of_pending hs he hc hm

theorem Listed.ask (h : s.Listed) (hs : Consistent s) (fetcher : Fetcher) (n : Nat)
    (identifier : String) : (s.ask fetcher n identifier).Listed := by
  intro key call' waiters' c hk hc
  rw [get?_ask] at hk
  split at hk
  · obtain ⟨rfl, rfl⟩ := Entry.pending.inj (Option.some.inj hk)
    exact List.pairwise_singleton _ _
  · -- the calls behind the other entries were made before
    obtain ⟨⟨n', job', retrieved, hc', -⟩, -, -⟩ := hs.entry _ _ hk
    rw [calls_ask, getElem?_snoc_of_eq_some _ hc'] at hc
    exact h key call' waiters' c hk (hc'.trans hc)

theorem Woken.append_of_retrieving (hw : s.Woken k woken) (hn : n < k)
    (ht : s.tasks[n]? = some ⟨job, .retrieving call⟩) : s.Woken k (woken ++ [n]) := by
  refine ⟨fun m hm => ?_, fun m hm => ?_, List.pairwise_append.2
    ⟨hw.ascending, List.pairwise_singleton _ _, ?_⟩⟩
  · rcases List.mem_append.1 hm with hm | hm
    · exact hw.lt m hm
    · rwa [List.mem_singleton.1 hm]
  · rcases List.mem_append.1 hm with hm | hm
    · exact hw.not_waiting m hm
    · rw [List.mem_singleton.1 hm, isWaiting_eq_false_iff, phase?_of_task ht]
      simp
  · intro a ha b hb ja jb fa fb hta htb hid
    rw [List.mem_singleton.1 hb, ht] at htb
    cases htb

theorem Lined.ask (h : s.Lined k) (hs : Consistent s) (hw : s.Woken k woken)
    (hq : s.queue = List.range' (k + 1) (s.tasks.length - (k + 1)) ++ woken)
    (ht : s.tasks[k]? = some ⟨job, .started⟩) (he : s.table.get? job.identifier = none) :
    InTurn (s.ask fetcher k job.identifier) := by
  have htasks := tasks_ask fetcher s k job.identifier
  have hself : (s.ask fetcher k job.identifier).tasks[k]? =
      some ⟨job, .retrieving s.calls.length⟩ := by
    rw [htasks]
    exact task_setPhase_self ht _
  have hwoken : (s.ask fetcher k job.identifier).Woken (k + 1) woken :=
    hw.advance ht htasks (by simp)
  have hearlier (i : Nat) (job' : Job) (phase' : Phase) (hi : i < k)
      (hti : s.tasks[i]? = some ⟨job', phase'⟩) (hid : job'.identifier = job.identifier) :
      phase'.MayPrecede (.retrieving s.calls.length) :=
    Phase.mayPrecede_of_not_live (h.earlier_over hs ht (by simp [he]) hi hti hid) _
  have hlisted := h.listed.ask hs fetcher k job.identifier
  rcases queue_ask fetcher s k job.identifier with hqueue | hqueue
  · exact h.advance ht htasks (by simp) hearlier (fun _ => mayPrecede_of_started (.inl rfl))
      hlisted hwoken (hqueue.trans hq)
  · refine h.advance ht htasks (by simp) hearlier (fun _ => mayPrecede_of_started (.inl rfl))
      hlisted (hwoken.append_of_retrieving (Nat.lt_succ_self k) hself) ?_
    rw [hqueue, hq, List.append_assoc]

/-- The task whose turn it is to ask gets its file, joins the waiters or makes a call. -/
theorem Lined.claim (h : s.Lined k) (hs : Consistent s) (hw : s.Woken k woken)
    (hq : s.queue = List.range' (k + 1) (s.tasks.length - (k + 1)) ++ woken)
    (ht : s.tasks[k]? = some ⟨job, .started⟩) (hr : Resumed fetcher s k t) : InTurn t := by
  cases hr with
  | idle hn => exact absurd trivial (hn _ ht)
  | hit ht' he => exact h.hit hs hw hq ht' he
  | join ht' he => exact h.join hs hw hq ht' he
  | ask ht' he => exact h.ask hs hw hq ht' he
  | settle ht' => cases ht.symm.trans ht'
  | take ht' => cases ht.symm.trans ht'

/-! ### A task goes on -/

theorem Closes.listed (hc : Closes s t n job phase file) (h : s.Listed) : t.Listed := by
  refine h.of_get? hc.calls fun key call' waiters hk => ?_
  rw [hc.table] at hk
  split at hk
  · cases file <;> cases hk
  · exact hk

theorem Closes.length_tasks (hc : Closes s t n job phase file)
    (hn : n < s.tasks.length) : t.tasks.length = s.tasks.length := by
  have hnone (m : Nat) : t.tasks[m]? = none ↔ s.tasks[m]? = none := by
    by_cases hm : m = n
    · subst hm
      simp [hc.self, hn]
    · rw [hc.other m hm]
      split <;> simp
  refine Nat.le_antisymm ?_ ?_
  · rw [← List.getElem?_eq_none_iff, hnone]
    exact List.getElem?_eq_none_iff.2 (Nat.le_refl _)
  · rw [← List.getElem?_eq_none_iff, ← hnone]
    exact List.getElem?_eq_none_iff.2 (Nat.le_refl _)

/-- When nobody has yet to ask, the waiters of a retrieval that ends come last. -/
theorem Lined.close (h : s.Lined k) (hs : Consistent s) (hk : s.tasks.length ≤ k)
    (hw : s.Woken k woken) (ht : s.tasks[n]? = some ⟨job, .retrieving call⟩)
    (hc : Closes s t n job phase file) (hp : phase.isLive = false)
    (hq : t.queue = woken ++ (s.waiters job.identifier).filter s.isWaiting) : InTurn t := by
  have hn := (List.getElem?_eq_some_iff.1 ht).1
  have hlength : t.tasks.length - k = 0 := by
    rw [hc.length_tasks hn]
    omega
  obtain ⟨waiters, retrieved, he, hcall⟩ := hs.task _ _ _ ht
  have hsorted : (s.waiters job.identifier).Pairwise (· < ·) := by
    rw [waiters_of_pending he]
    exact (List.pairwise_cons.1 (h.listed _ _ _ _ he hcall)).2
  have hlt : ∀ m ∈ s.waiters job.identifier, m < k := by
    rw [waiters_of_pending he]
    exact fun m hm => h.lt_of_pending hs he hcall (List.mem_cons_of_mem _ hm)
  refine ⟨k, _, ⟨fun m job' phase' hm => ?_, ?_, hc.listed h.listed⟩, ?_,
    hw.close h.ranked hc hp hsorted hlt⟩
  · have hm' : m < k := by
      have := (List.getElem?_eq_some_iff.1 hm).1
      rw [hc.length_tasks hn] at this
      omega
    have hne : phase' ≠ .started := by
      rintro rfl
      rcases hc.task_eq_or (hc.ne_of_live hp hm rfl) hm with ⟨hs', -⟩ | ⟨-, -, he⟩
      · exact h.not_started hk m job' hs'
      · cases he
    simp [hne, Nat.not_le.2 hm']
  · exact h.ranked.close hs ht hc hp (h.not_started hk)
  · rw [hlength]
    exact hq

theorem nodup_waiters (hs : Consistent s) (identifier : String) :
    (s.waiters identifier).Nodup := by
  unfold Service.waiters
  split
  · next call waiters he => exact (hs.entry _ _ he).2.1
  · exact List.nodup_nil

theorem queue_tell (hs : Consistent s) (ht : s.tasks[n]? = some ⟨job, .retrieving call⟩)
    (hp : phase.isLive = false) (htasks : t.tasks = (s.setPhase n phase).tasks)
    (hqueue : t.queue = s.queue) (hq : ∀ m ∈ s.queue, s.isWaiting m = false)
    (file : Option SharedSource) : (t.answerWaiters (s.waiters job.identifier) file).queue =
      s.queue ++ (s.waiters job.identifier).filter s.isWaiting := by
  have hsame (m : Nat) : t.isWaiting m = s.isWaiting m := by
    by_cases hm : m = n
    · subst hm
      have hself : t.tasks[m]? = some ⟨job, phase⟩ := by
        rw [htasks]
        exact task_setPhase_self ht phase
      have hold : s.isWaiting m = false := by
        simp [isWaiting_eq_false_iff, phase?_of_task ht]
      rw [hold, isWaiting_eq_false_iff, phase?_of_task hself]
      rintro call' he
      rw [Option.some.inj he] at hp
      cases hp
    · refine isWaiting_congr ?_
      rw [htasks]
      exact task_setPhase_of_ne s phase hm
  have hwaiting : t.isWaiting = s.isWaiting := funext hsame
  rw [queue_answerWaiters (nodup_waiters hs _), hqueue, hwaiting]
  intro m _ hw
  rw [hsame] at hw
  rw [hqueue]
  exact fun hm => by simp [hq m hm] at hw

theorem queue_settle (hs : Consistent s) (ht : s.tasks[n]? = some ⟨job, .retrieving call⟩)
    (hq : ∀ m ∈ s.queue, s.isWaiting m = false) (retrieved : Retrieved) :
    (s.settle n call job.identifier retrieved).queue =
      s.queue ++ (s.waiters job.identifier).filter s.isWaiting := by
  unfold settle
  cases retrieved.outcome call job.identifier with
  | served file =>
    have htasks : ((s.keep job.identifier file).complete n (.served file)).tasks =
        (s.setPhase n (.completed (.served file))).tasks := rfl
    exact queue_tell hs ht rfl htasks rfl hq (some file)
  | failed failure =>
    have htasks : ((s.forget job.identifier).complete n (.failed failure)).tasks =
        (s.setPhase n (.completed (.failed failure))).tasks := rfl
    exact queue_tell hs ht rfl htasks rfl hq none

theorem queue_cancel (hs : Consistent s) (ht : s.tasks[n]? = some ⟨job, .retrieving call⟩)
    (hq : ∀ m ∈ s.queue, s.isWaiting m = false) : (s.cancel n).queue =
      s.queue ++ (s.waiters job.identifier).filter s.isWaiting := by
  have htasks : ((s.forget job.identifier).setPhase n .cancelled).tasks =
      (s.setPhase n .cancelled).tasks := rfl
  simp only [cancel, ht]
  exact queue_tell hs ht rfl htasks rfl hq none

theorem Lined.take (h : s.Lined k) (ha : AwakeBut s n) (hk : s.tasks.length ≤ k)
    (hq : s.queue = woken) (hw : s.Woken k (n :: woken))
    (ht : s.tasks[n]? = some ⟨job, .answered file⟩) (outcome : Outcome) :
    InTurn (s.complete n outcome) := by
  have htasks := tasks_complete s n outcome
  have hlt : n < k := hw.lt n List.mem_cons_self
  refine ⟨k, woken, ⟨fun m job' phase' hm => ?_, ?_, h.listed.of_get? rfl fun _ _ _ => id⟩, ?_,
    hw.tail.setPhase ht (by simp) (by simp) htasks⟩
  · rw [htasks] at hm
    rcases task_setPhase_eq_or ht hm with ⟨-, hs⟩ | ⟨rfl, -, rfl⟩
    · exact h.started_iff m job' phase' hs
    · simpa using hlt
  · refine (h.ranked.setPhase ht ?_ fun phase' _ => Phase.mayPrecede_of_not_live rfl phase').congr
      htasks
    intro i job' phase' hi hti hid
    have hle := h.ranked i n _ _ _ _ hi hti ht hid.symm
    cases phase' with
    | answered file' =>
      -- an earlier one that was told, too, would stand in the queue in front of this one
      have hmem : i ∈ woken := by
        rw [← hq]
        exact ha i job' _ (Nat.ne_of_lt hi) hti trivial
      have hbefore := (List.pairwise_cons.1 hw.ascending).1 i hmem job job' file file' ht hti hid
      exact absurd hi (Nat.lt_asymm hbefore)
    | completed outcome => trivial
    | cancelled => trivial
    | started => cases hle
    | retrieving call => cases hle
    | waiting call => cases hle
  · rw [htasks, length_setPhase, Nat.sub_eq_zero_of_le hk]
    exact hq

/-- When nobody has yet to ask, the task at the front of the queue goes on. -/
theorem Lined.goOn (h : s.Lined k) (hs : Consistent s) (ha : AwakeBut s n)
    (hk : s.tasks.length ≤ k) (hq : s.queue = woken) (hw : s.Woken k (n :: woken))
    (hr : Resumed fetcher s n t) : InTurn t := by
  have hquiet : ∀ m ∈ s.queue, s.isWaiting m = false := by
    rw [hq]
    exact hw.tail.not_waiting
  cases hr with
  | idle =>
    refine ⟨k, woken, h, ?_, hw.tail⟩
    rw [Nat.sub_eq_zero_of_le hk]
    exact hq
  | hit ht => exact absurd ht (h.not_started hk n _)
  | join ht => exact absurd ht (h.not_started hk n _)
  | ask ht => exact absurd ht (h.not_started hk n _)
  | settle ht =>
    refine h.close hs hk hw.tail ht (closes_settle _ ht) rfl ?_
    rw [queue_settle hs ht hquiet, hq]
  | take ht => exact h.take ha hk hq hw ht _

theorem InTurn.turn (h : InTurn s) (hs : Consistent s) (ha : Awake s) :
    InTurn (turn fetcher s) := by
  obtain ⟨k, woken, hl, hq, hw⟩ := h
  cases hqueue : s.queue with
  | nil =>
    rw [turn_of_queue_nil fetcher hqueue]
    exact ⟨k, woken, hl, hq, hw⟩
  | cons n queue =>
    have hr := resumed_poll fetcher s n
    rw [← turn_of_queue_cons fetcher hqueue] at hr
    have herase : s.queue.erase n = queue := by rw [hqueue, List.erase_cons_head]
    have hl' : Lined { s with queue := s.queue.erase n } k := hl.congr rfl rfl rfl
    have hs' : Consistent { s with queue := s.queue.erase n } := hs.congr rfl rfl rfl
    rw [hqueue] at hq
    by_cases hk : k < s.tasks.length
    · have hlength : s.tasks.length - k = s.tasks.length - (k + 1) + 1 := by omega
      rw [hlength, List.range'_succ, List.cons_append] at hq
      obtain ⟨rfl, rfl⟩ := List.cons.inj hq
      have ht : s.tasks[n]? = some s.tasks[n] := List.getElem?_eq_getElem hk
      have hstarted : s.tasks[n].phase = .started :=
        (hl.started_iff n s.tasks[n].job _ ht).2 (Nat.le_refl n)
      have ht' : s.tasks[n]? = some ⟨s.tasks[n].job, .started⟩ := by rw [ht, ← hstarted]
      exact hl'.claim hs' ⟨hw.lt, hw.not_waiting, hw.ascending⟩ herase ht' hr
    · have hk' : s.tasks.length ≤ k := Nat.le_of_not_lt hk
      rw [Nat.sub_eq_zero_of_le hk', List.range'_zero, List.nil_append] at hq
      subst hq
      exact hl'.goOn hs' (ha.erase n) hk' herase ⟨hw.lt, hw.not_waiting, hw.ascending⟩ hr

end Service

end Excerpt
