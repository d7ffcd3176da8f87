import Excerpt.Proofs.Service.Frame

/-!
# Consistent states of the file service

The table, the calls and the phases of the tasks tell one story. A pending entry names the
call that opened it, whose task is still retrieving, and lists each live waiter once. A
completed entry holds what the content of its call comes to, and nobody was ever served
anything else. Every action keeps this.
-/

namespace Excerpt

namespace Phase

/-- How a task can move on without its retrieval coming to an end. -/
def Advances (phase phase' : Phase) : Prop :=
  phase' = phase ∨ phase = .started ∨ (∃ file, phase = .answered file) ∨
    ∃ call, phase = .waiting call ∧ phase' = .cancelled

theorem advances_cancelled {phase : Phase} (hl : phase.isLive = true)
    (hr : ∀ call, phase ≠ .retrieving call) : phase.Advances .cancelled := by
  cases phase with
  | started => exact Or.inr (Or.inl rfl)
  | retrieving call => exact absurd rfl (hr call)
  | waiting call => exact Or.inr (Or.inr (Or.inr ⟨call, rfl, rfl⟩))
  | answered file => exact Or.inr (Or.inr (Or.inl ⟨file, rfl⟩))
  | completed outcome => cases hl
  | cancelled => cases hl

end Phase

namespace Service

variable {s t : Service} {n : Nat} {job : Job} {phase : Phase}

/-- What the table and the calls say of a task in such a phase. -/
def Placed (s : Service) (n : Nat) (job : Job) : Phase → Prop
  | .retrieving call => ∃ waiters retrieved,
      s.table.get? job.identifier = some (.pending call waiters) ∧
      s.calls[call]? = some ⟨job.identifier, n, retrieved⟩
  | .waiting call => ∃ waiters,
      s.table.get? job.identifier = some (.pending call waiters) ∧ n ∈ waiters
  | .answered (some file) => s.table.get? job.identifier = some (.completed file)
  | .completed (.served file) => s.table.get? job.identifier = some (.completed file)
  | .completed (.failed failure) => failure = .abandoned job.identifier ∨
      ∃ (call : Nat) (retrieved : Retrieved),
        s.calls[call]? = some ⟨job.identifier, n, some retrieved⟩ ∧
        retrieved.outcome call job.identifier = .failed failure
  | _ => True

/-- What the tasks and the calls say of a table entry. -/
def Backed (s : Service) (identifier : String) : Entry → Prop
  | .pending call waiters =>
    (∃ n job retrieved, s.calls[call]? = some ⟨identifier, n, retrieved⟩ ∧
      s.tasks[n]? = some ⟨job, .retrieving call⟩) ∧
    waiters.Nodup ∧
    ∀ m ∈ waiters, ∃ job phase, s.tasks[m]? = some ⟨job, phase⟩ ∧
      job.identifier = identifier ∧ (phase = .waiting call ∨ phase = .cancelled)
  | .completed file => ∃ n job text,
      s.calls[file.call]? = some ⟨identifier, n, some (.content text)⟩ ∧
      file.source = Source.ofContent text ∧
      s.tasks[n]? = some ⟨job, .completed (.served file)⟩

/-- What the tasks say of a call. -/
def Made (s : Service) (k : Nat) (c : Call) : Prop :=
  ∃ job phase, s.tasks[c.task]? = some ⟨job, phase⟩ ∧ job.identifier = c.identifier ∧
    (phase = .retrieving k ∨ phase = .cancelled ∨ ∃ retrieved, c.retrieved = some retrieved ∧
      phase = .completed (retrieved.outcome k c.identifier))

structure Consistent (s : Service) : Prop where
  task : ∀ n job phase, s.tasks[n]? = some ⟨job, phase⟩ → s.Placed n job phase
  entry : ∀ identifier entry, s.table.get? identifier = some entry → s.Backed identifier entry
  call : ∀ k c, s.calls[k]? = some c → s.Made k c

theorem consistent_empty : Consistent empty where
  task n job phase h := by simp [empty] at h
  entry identifier entry h := by simp [empty] at h
  call k c h := by simp [empty] at h

/-! ## Steps that end no retrieval -/

/-- No retrieval came to an end between the two states. -/
structure Keeps (s t : Service) : Prop where
  task : ∀ (n : Nat) (job : Job) (phase : Phase), s.tasks[n]? = some ⟨job, phase⟩ →
    ∃ phase', t.tasks[n]? = some ⟨job, phase'⟩ ∧ phase.Advances phase'
  completed : ∀ key file, s.table.get? key = some (.completed file) →
    t.table.get? key = some (.completed file)
  pending : ∀ key call waiters, s.table.get? key = some (.pending call waiters) →
    ∃ waiters', t.table.get? key = some (.pending call waiters') ∧ waiters <+: waiters'
  call : ∀ (k : Nat) (c : Call), s.calls[k]? = some c →
    ∃ retrieved, t.calls[k]? = some ⟨c.identifier, c.task, retrieved⟩ ∧
      ∀ r, c.retrieved = some r → retrieved = some r

theorem Placed.keep (hk : Keeps s t) (h : s.Placed n job phase) : t.Placed n job phase := by
  cases phase with
  | retrieving call =>
    obtain ⟨waiters, retrieved, he, hc⟩ := h
    obtain ⟨waiters', he', -⟩ := hk.pending _ _ _ he
    obtain ⟨retrieved', hc', -⟩ := hk.call _ _ hc
    exact ⟨waiters', retrieved', he', hc'⟩
  | waiting call =>
    obtain ⟨waiters, he, hn⟩ := h
    obtain ⟨waiters', he', hw⟩ := hk.pending _ _ _ he
    exact ⟨waiters', he', hw.subset hn⟩
  | answered file =>
    cases file with
    | none => trivial
    | some file => exact hk.completed _ _ h
  | completed outcome =>
    cases outcome with
    | served file => exact hk.completed _ _ h
    | failed failure =>
      rcases h with h | ⟨call, retrieved, hc, ho⟩
      · exact Or.inl h
      · obtain ⟨retrieved', hc', hr⟩ := hk.call _ _ hc
        obtain rfl := hr retrieved rfl
        exact Or.inr ⟨call, retrieved, hc', ho⟩
  | started => trivial
  | cancelled => trivial

theorem Keeps.task_of_ne (hk : Keeps s t) (h : s.tasks[n]? = some ⟨job, phase⟩)
    (hs : phase ≠ .started) (ha : ∀ file, phase ≠ .answered file) :
    t.tasks[n]? = some ⟨job, phase⟩ ∨
      (∃ call, phase = .waiting call) ∧ t.tasks[n]? = some ⟨job, .cancelled⟩ := by
  obtain ⟨phase', ht, hp⟩ := hk.task n job phase h
  rcases hp with rfl | hp | ⟨file, hp⟩ | ⟨call, hp, rfl⟩
  · exact Or.inl ht
  · exact absurd hp hs
  · exact absurd hp (ha file)
  · exact Or.inr ⟨⟨call, hp⟩, ht⟩

theorem Backed.keep (hk : Keeps s t) {identifier : String} {entry : Entry}
    (h : s.Backed identifier entry) : t.Backed identifier entry := by
  cases entry with
  | pending call waiters =>
    obtain ⟨⟨n, job, retrieved, hc, ht⟩, hd, hw⟩ := h
    obtain ⟨retrieved', hc', -⟩ := hk.call _ _ hc
    refine ⟨⟨n, job, retrieved', hc', ?_⟩, hd, fun m hm => ?_⟩
    · rcases hk.task_of_ne ht (by simp) (by simp) with ht' | ⟨⟨call, h⟩, -⟩
      · exact ht'
      · cases h
    · obtain ⟨job, phase, ht, hid, hp⟩ := hw m hm
      rcases hk.task_of_ne ht (by rcases hp with rfl | rfl <;> simp)
        (by rcases hp with rfl | rfl <;> simp) with ht' | ⟨-, ht'⟩
      · exact ⟨job, phase, ht', hid, hp⟩
      · exact ⟨job, .cancelled, ht', hid, Or.inr rfl⟩
  | completed file =>
    obtain ⟨n, job, text, hc, hf, ht⟩ := h
    obtain ⟨retrieved', hc', hr⟩ := hk.call _ _ hc
    obtain rfl := hr _ rfl
    refine ⟨n, job, text, hc', hf, ?_⟩
    rcases hk.task_of_ne ht (by simp) (by simp) with ht' | ⟨⟨call, h⟩, -⟩
    · exact ht'
    · cases h

theorem Made.keep (hk : Keeps s t) {k : Nat} {c : Call} (h : s.Made k c) : t.Made k c := by
  obtain ⟨job, phase, ht, hid, hp⟩ := h
  have hphase : phase ≠ .started ∧ (∀ file, phase ≠ .answered file) ∧
      ∀ call, phase ≠ .waiting call := by
    rcases hp with rfl | rfl | ⟨retrieved, -, rfl⟩ <;> simp
  rcases hk.task_of_ne ht hphase.1 hphase.2.1 with ht' | ⟨⟨call, h⟩, -⟩
  · exact ⟨job, phase, ht', hid, hp⟩
  · exact absurd h (hphase.2.2 call)

theorem Keeps.of_eq (htasks : t.tasks = s.tasks) (htable : t.table = s.table)
    (hcalls : t.calls = s.calls) : Keeps s t where
  task n job phase h := ⟨phase, by rw [htasks, h], Or.inl rfl⟩
  completed key file h := by rw [htable, h]
  pending key call waiters h := ⟨waiters, by rw [htable, h], List.prefix_rfl⟩
  call k c h := ⟨c.retrieved, by rw [hcalls, h], fun _ hr => hr⟩

theorem Keeps.congr {t' : Service} (hk : Keeps s t) (htasks : t'.tasks = t.tasks)
    (htable : t'.table = t.table) (hcalls : t'.calls = t.calls) : Keeps s t' where
  task n job phase h := by rw [htasks]; exact hk.task n job phase h
  completed key file h := by rw [htable]; exact hk.completed key file h
  pending key call waiters h := by rw [htable]; exact hk.pending key call waiters h
  call k c h := by rw [hcalls]; exact hk.call k c h

/-- Only what is new needs to be looked at. -/
theorem Consistent.keep (h : Consistent s) (hk : Keeps s t)
    (task : ∀ n job phase, t.tasks[n]? = some ⟨job, phase⟩ →
      s.tasks[n]? = some ⟨job, phase⟩ ∨ t.Placed n job phase)
    (entry : ∀ identifier entry, t.table.get? identifier = some entry →
      s.table.get? identifier = some entry ∨ t.Backed identifier entry)
    (call : ∀ k c, t.calls[k]? = some c → s.calls[k]? = some c ∨ t.Made k c) :
    Consistent t where
  task n job phase ht := by
    rcases task n job phase ht with hs | hp
    · exact (h.task n job phase hs).keep hk
    · exact hp
  entry identifier e he := by
    rcases entry identifier e he with hs | hb
    · exact (h.entry identifier e hs).keep hk
    · exact hb
  call k c hc := by
    rcases call k c hc with hs | hm
    · exact (h.call k c hs).keep hk
    · exact hm

theorem Consistent.congr (h : Consistent s) (htasks : t.tasks = s.tasks)
    (htable : t.table = s.table) (hcalls : t.calls = s.calls) : Consistent t :=
  h.keep (.of_eq htasks htable hcalls)
    (fun n job phase ht => Or.inl (by rw [← htasks, ht]))
    (fun identifier entry he => Or.inl (by rw [← htable, he]))
    (fun k c hc => Or.inl (by rw [← hcalls, hc]))

end Service

end Excerpt
