import Excerpt.Proofs.Service.Closing

/-!
# New numbers for tasks and calls

When some tasks and calls are taken out of a service, those that are left move up. The new number
of an element of a list is its rank: how many elements before it are kept. Whatever names a task
or a call by its number is given the new one.
-/

namespace Excerpt

/-! ## Ranks -/

section Rank

variable {α β : Type} {p : α → Bool} {l : List α} {m n : Nat} {x y : α}

def rank (p : α → Bool) (l : List α) (n : Nat) : Nat := (l.take n).countP p

theorem rank_of_length_le (p : α → Bool) (h : l.length ≤ n) :
    rank p l n = (l.filter p).length := by
  rw [rank, List.take_of_length_le h, List.countP_eq_length_filter]

theorem rank_append (p : α → Bool) (l' : List α) (h : n ≤ l.length) :
    rank p (l ++ l') n = rank p l n := by
  rw [rank, rank, List.take_append_of_le_length h]

theorem rank_snoc_of_neg (l : List α) (n : Nat) (h : p x = false) :
    rank p (l ++ [x]) n = rank p l n := by
  rcases Nat.lt_or_ge l.length n with hn | hn
  · have hlen : (l ++ [x]).length ≤ n := by
      rw [List.length_append]
      exact hn
    rw [rank_of_length_le p hlen, rank_of_length_le p (Nat.le_of_lt hn), List.filter_append]
    simp [h]
  · exact rank_append p [x] hn

theorem rank_append_length (before after : List α) :
    rank p (before ++ after) before.length = (before.filter p).length := by
  rw [rank_append p _ (Nat.le_refl _), rank_of_length_le p (Nat.le_refl _)]

theorem exists_append_of_getElem? (h : l[n]? = some x) :
    ∃ before after, l = before ++ x :: after ∧ before.length = n := by
  obtain ⟨hn, hx⟩ := List.getElem?_eq_some_iff.1 h
  refine ⟨l.take n, l.drop (n + 1), ?_, ?_⟩
  · rw [← hx, List.getElem_cons_drop, List.take_append_drop]
  · exact List.length_take_of_le (Nat.le_of_lt hn)

/-- An element that is kept is found under its rank. -/
theorem getElem?_filter_rank (h : l[n]? = some x) (hp : p x = true) :
    (l.filter p)[rank p l n]? = some x := by
  obtain ⟨before, after, rfl, rfl⟩ := exists_append_of_getElem? h
  rw [rank_append_length, List.filter_append, List.filter_cons_of_pos hp]
  simp

theorem rank_lt_rank (hmn : m < n) (h : l[m]? = some x) (hp : p x = true) :
    rank p l m < rank p l n := by
  obtain ⟨before, after, rfl, rfl⟩ := exists_append_of_getElem? h
  obtain ⟨k, rfl⟩ := Nat.exists_eq_add_of_lt hmn
  rw [Nat.add_assoc, rank, rank, List.take_length_add_append, List.take_succ_cons,
    List.take_left', List.countP_append, List.countP_cons_of_pos hp]
  · omega
  · rfl

theorem rank_inj (hm : l[m]? = some x) (hx : p x = true) (hn : l[n]? = some y) (hy : p y = true)
    (h : rank p l m = rank p l n) : m = n := by
  rcases Nat.lt_trichotomy m n with hlt | he | hlt
  · have := rank_lt_rank hlt hm hx
    omega
  · exact he
  · have := rank_lt_rank hlt hn hy
    omega

theorem modify_append_length (before after : List α) (x : α) (f : α → α) :
    (before ++ x :: after).modify before.length f = before ++ f x :: after := by
  induction before with
  | nil => simp
  | cons y before ih => simpa using ih

/-- An element that is kept is changed under its rank. -/
theorem filter_modify_of_pos {f : α → α} (hf : p (f x) = p x) (h : l[n]? = some x)
    (hp : p x = true) : (l.modify n f).filter p = (l.filter p).modify (rank p l n) f := by
  obtain ⟨before, after, rfl, rfl⟩ := exists_append_of_getElem? h
  rw [modify_append_length, rank_append_length, List.filter_append, List.filter_append,
    List.filter_cons_of_pos hp, List.filter_cons_of_pos (hf.trans hp), modify_append_length]

theorem filter_modify_of_neg {f : α → α} (hf : p (f x) = p x) (h : l[n]? = some x)
    (hp : p x = false) : (l.modify n f).filter p = l.filter p := by
  obtain ⟨before, after, rfl, rfl⟩ := exists_append_of_getElem? h
  have hx : ¬ p x = true := by simp [hp]
  have hfx : ¬ p (f x) = true := by simp [hf, hp]
  rw [modify_append_length, List.filter_append, List.filter_append,
    List.filter_cons_of_neg hx, List.filter_cons_of_neg hfx]

theorem rank_modify (f : α → α) (hf : ∀ x, p (f x) = p x) (l : List α) (m n : Nat) :
    rank p (l.modify m f) n = rank p l n := by
  have hmap (l : List α) (n : Nat) : rank p l n = ((l.map p).take n).countP id := by
    rw [rank, ← List.map_take, List.countP_map]
    rfl
  have hsame : (l.modify m f).map p = l.map p := by
    induction l generalizing m with
    | nil => simp
    | cons x l ih => cases m <;> simp [hf, ih]
  rw [hmap, hmap, hsame]

theorem map_modify {f : α → α} (g : α → β) (f' : β → β) {l : List α} {n : Nat}
    (hg : ∀ x, g (f x) = f' (g x)) : (l.modify n f).map g = (l.map g).modify n f' := by
  induction l generalizing n with
  | nil => simp
  | cons x l ih => cases n <;> simp [hg, ih]

end Rank

/-! ## What names a task or a call -/

section Renumber

variable {f f' g g' : Nat → Nat}

def SharedSource.renumber (g : Nat → Nat) (file : SharedSource) : SharedSource :=
  { file with call := g file.call }

def Outcome.renumber (g : Nat → Nat) : Outcome → Outcome
  | .served file => .served (file.renumber g)
  | .failed failure => .failed failure

def Phase.renumber (g : Nat → Nat) : Phase → Phase
  | .retrieving call => .retrieving (g call)
  | .waiting call => .waiting (g call)
  | .answered file => .answered (file.map (SharedSource.renumber g))
  | .completed outcome => .completed (outcome.renumber g)
  | phase => phase

def Task.renumber (g : Nat → Nat) (task : Task) : Task :=
  ⟨task.job, task.phase.renumber g⟩

def Call.renumber (f : Nat → Nat) (c : Call) : Call := { c with task := f c.task }

def Entry.renumber (f g : Nat → Nat) : Entry → Entry
  | .pending call waiters => .pending (g call) (waiters.map f)
  | .completed file => .completed (file.renumber g)

/-- The call that a phase names. -/
def Phase.call? : Phase → Option Nat
  | .retrieving call => some call
  | .waiting call => some call
  | .answered (some file) => some file.call
  | .completed (.served file) => some file.call
  | _ => none

def Entry.call : Entry → Nat
  | .pending call _ => call
  | .completed file => file.call

def Entry.listed : Entry → List Nat
  | .pending _ waiters => waiters
  | .completed _ => []

theorem Phase.renumber_congr {phase : Phase}
    (h : ∀ call, phase.call? = some call → g' call = g call) :
    phase.renumber g' = phase.renumber g := by
  cases phase with
  | retrieving call => exact congrArg Phase.retrieving (h call rfl)
  | waiting call => exact congrArg Phase.waiting (h call rfl)
  | answered file =>
    cases file with
    | none => rfl
    | some file => simp [renumber, SharedSource.renumber, h file.call rfl]
  | completed outcome =>
    cases outcome with
    | served file => simp [renumber, Outcome.renumber, SharedSource.renumber, h file.call rfl]
    | failed failure => rfl
  | started => rfl
  | cancelled => rfl

theorem Entry.renumber_congr {entry : Entry} (hf : ∀ n ∈ entry.listed, f' n = f n)
    (hg : g' entry.call = g entry.call) : entry.renumber f' g' = entry.renumber f g := by
  cases entry with
  | pending call waiters =>
    have hw : waiters.map f' = waiters.map f := List.map_congr_left hf
    have hc : g' call = g call := hg
    simp [renumber, hw, hc]
  | completed file =>
    have hc : g' file.call = g file.call := hg
    simp [renumber, SharedSource.renumber, hc]

theorem Retrieved.outcome_renumber (retrieved : Retrieved) (call : Nat) (identifier : String) :
    retrieved.outcome (g call) identifier = (retrieved.outcome call identifier).renumber g := by
  cases retrieved <;> rfl

end Renumber

end Excerpt
