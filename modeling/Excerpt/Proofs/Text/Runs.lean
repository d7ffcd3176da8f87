import Excerpt.Proofs.Text.Word

/-!
# Runs between separators

A run is a part of a text that holds no separator and is as long as it can be. Cutting a text at
its separators and dropping what is empty leaves its runs, in order, however many separators stand
together. A word that no separator can be part of stands alone in a text just if it stands alone in
one of the runs.
-/

namespace Excerpt.Text

variable {p q : Char → Bool} {a b t run w : List Char} {c : Char}

/-- The parts of a text between its separators, without those that are empty. -/
def runs (isSeparator : Char → Bool) (t : List Char) : List (List Char) :=
  (t.splitOnP isSeparator).filter fun run => !run.isEmpty

/-- A part of a text that holds no separator, with a separator or an end of the text on either
side. -/
def MaximalRun (isSeparator : Char → Bool) (t run : List Char) : Prop :=
  run ≠ [] ∧ (∀ c ∈ run, isSeparator c = false) ∧
    ∃ before after, t = before ++ (run ++ after) ∧
      (∀ c ∈ before.getLast?, isSeparator c = true) ∧ ∀ c ∈ after.head?, isSeparator c = true

/-! ## Cutting at a separator -/

theorem runs_append_cons (hc : p c = true) (a b : List Char) :
    runs p (a ++ c :: b) = runs p a ++ runs p b := by
  rw [runs, List.splitOnP_append_cons a b hc, List.filter_append]
  rfl

theorem runs_of_forall (h : ∀ c ∈ t, p c = false) : runs p t = if t = [] then [] else [t] := by
  rw [runs, List.splitOnP_eq_singleton h]
  cases t <;> rfl

@[simp] theorem runs_nil : runs p [] = [] := runs_of_forall (by simp)

/-- A text is free of separators, or else it has a first one. -/
theorem separator_induction {P : List Char → Prop}
    (free : ∀ t, (∀ c ∈ t, p c = false) → P t)
    (cut : ∀ a c b, (∀ d ∈ a, p d = false) → p c = true → P b → P (a ++ c :: b))
    (t : List Char) : P t := by
  induction h : t.length using Nat.strongRecOn generalizing t with
  | ind n ih =>
    by_cases hfree : ∀ c ∈ t, p c = false
    · exact free t hfree
    obtain ⟨c, hc, hsep⟩ : ∃ c ∈ t, p c = true := by simpa using hfree
    obtain ⟨c, hfind⟩ := Option.isSome_iff_exists.1 (List.find?_isSome.2 ⟨c, hc, hsep⟩)
    obtain ⟨hsep, a, b, rfl, ha⟩ := List.find?_eq_some_iff_append.1 hfind
    refine cut a c b (by simpa using ha) hsep (ih b.length ?_ b rfl)
    simp only [← h, List.length_append, List.length_cons]
    omega

theorem runs_separators_append (hb : ∀ c ∈ b, p c = true) (t : List Char) :
    runs p (b ++ t) = runs p t := by
  induction b with
  | nil => rfl
  | cons c b ih =>
    have hcut := runs_append_cons (hb c List.mem_cons_self) [] (b ++ t)
    rw [runs_nil, List.nil_append, List.nil_append] at hcut
    rw [List.cons_append, hcut, ih fun d hd => hb d (List.mem_cons_of_mem c hd)]

theorem runs_append_separators (hb : ∀ c ∈ b, p c = true) (t : List Char) :
    runs p (t ++ b) = runs p t := by
  cases b with
  | nil => rw [List.append_nil]
  | cons c b =>
    have hrest := runs_separators_append (fun d hd => hb d (List.mem_cons_of_mem c hd)) []
    rw [List.append_nil, runs_nil] at hrest
    rw [runs_append_cons (hb c List.mem_cons_self), hrest, List.append_nil]

theorem splitOnP_congr (h : ∀ c ∈ t, p c = q c) : t.splitOnP p = t.splitOnP q := by
  induction t with
  | nil => rfl
  | cons c t ih =>
    rw [List.splitOnP_cons_eq_if_modifyHead, List.splitOnP_cons_eq_if_modifyHead,
      h c List.mem_cons_self, ih fun d hd => h d (List.mem_cons_of_mem c hd)]

/-- Of two kinds of separators, the text may be cut at one kind first and then at the other. -/
theorem runs_or (p q : Char → Bool) (t : List Char) :
    runs (fun c => p c || q c) t = (runs p t).flatMap (runs q) := by
  induction t using separator_induction (p := p) with
  | free t hfree =>
    have hcongr : runs (fun c => p c || q c) t = runs q t := by
      unfold runs
      rw [splitOnP_congr fun c hc => by rw [hfree c hc, Bool.false_or]]
    rw [hcongr, runs_of_forall hfree]
    by_cases ht : t = [] <;> simp [ht]
  | cut a c b ha hc ih =>
    have hcongr : runs (fun c => p c || q c) a = runs q a := by
      unfold runs
      rw [splitOnP_congr fun c hc => by rw [ha c hc, Bool.false_or]]
    rw [runs_append_cons (by simp [hc]), runs_append_cons hc, List.flatMap_append, ih, hcongr,
      runs_of_forall ha]
    by_cases ht : a = [] <;> simp [ht]

/-! ## Runs are maximal -/

theorem MaximalRun.cons_behind (hc : p c = true) (h : MaximalRun p b run) (a : List Char) :
    MaximalRun p (a ++ c :: b) run := by
  obtain ⟨hne, hfree, before, after, rfl, hbefore, hafter⟩ := h
  refine ⟨hne, hfree, a ++ c :: before, after, by simp, ?_, hafter⟩
  cases before with
  | nil => simpa using hc
  | cons d before => simpa [List.getLast?_append, List.getLast?_cons_cons] using hbefore

theorem mem_runs_iff : run ∈ runs p t ↔ MaximalRun p t run := by
  constructor
  · intro h
    induction t using separator_induction (p := p) with
    | free t hfree =>
      rw [runs_of_forall hfree] at h
      by_cases ht : t = []
      · simp [ht] at h
      obtain rfl : run = t := by simpa [ht] using h
      exact ⟨ht, hfree, [], [], by simp, by simp, by simp⟩
    | cut a c b ha hc ih =>
      rw [runs_append_cons hc, List.mem_append, runs_of_forall ha] at h
      rcases h with h | h
      · by_cases hempty : a = []
        · simp [hempty] at h
        obtain rfl : run = a := by simpa [hempty] using h
        exact ⟨hempty, ha, [], c :: b, by simp, by simp, by simpa using hc⟩
      · exact (ih h).cons_behind hc a
  · rintro ⟨hne, hfree, before, after, rfl, hbefore, hafter⟩
    have hrun : runs p run = [run] := by rw [runs_of_forall hfree, if_neg hne]
    have hfront : run ∈ runs p (run ++ after) := by
      cases after with
      | nil => simp [hrun]
      | cons c after => simp [runs_append_cons (hafter c rfl), hrun]
    rcases List.eq_nil_or_concat before with rfl | ⟨before, c, rfl⟩
    · exact hfront
    · have hc : p c = true := hbefore c (by simp)
      rw [List.concat_eq_append, List.append_assoc, List.singleton_append, runs_append_cons hc]
      exact List.mem_append_right _ hfront

/-- What stands in joined parts is the separator or from one of the parts. -/
theorem eq_or_mem_of_mem_intercalate {d : Char} {parts : List (List Char)}
    (h : d ∈ [c].intercalate parts) : d = c ∨ ∃ part ∈ parts, d ∈ part := by
  induction parts with
  | nil => cases h
  | cons part parts ih =>
    cases parts with
    | nil => exact .inr ⟨part, List.mem_cons_self, by simpa using h⟩
    | cons next parts =>
      rw [List.intercalate_cons_cons, List.append_assoc, List.singleton_append, List.mem_append,
        List.mem_cons] at h
      rcases h with h | rfl | h
      · exact .inr ⟨part, List.mem_cons_self, h⟩
      · exact .inl rfl
      · exact (ih h).imp_right fun ⟨other, hother, hd⟩ =>
          ⟨other, List.mem_cons_of_mem part hother, hd⟩

/-- Runs that are joined by a separator are the runs of what they are joined to. -/
theorem runs_intercalate (hc : p c = true) {parts : List (List Char)}
    (h : ∀ part ∈ parts, part ≠ [] ∧ ∀ d ∈ part, p d = false) :
    runs p ([c].intercalate parts) = parts := by
  induction parts with
  | nil => rfl
  | cons part parts ih =>
    obtain ⟨hne, hfree⟩ := h part List.mem_cons_self
    have hpart : runs p part = [part] := by rw [runs_of_forall hfree, if_neg hne]
    have hparts := ih fun other hother => h other (List.mem_cons_of_mem part hother)
    cases parts with
    | nil => simpa using hpart
    | cons next parts =>
      rw [List.intercalate_cons_cons, List.append_assoc, List.singleton_append,
        runs_append_cons hc, hpart, hparts, List.singleton_append]

/-! ## Words between separators -/

theorem startsWithWordChar_append_cons (hc : isWordChar c = false) (a b : List Char) :
    startsWithWordChar (a ++ c :: b) = startsWithWordChar a := by
  cases a with
  | nil => exact hc
  | cons d a => rfl

theorem wordAtFront_append_cons (hc : isWordChar c = false) (hw : c ∉ w) (a b : List Char) :
    wordAtFront w (a ++ c :: b) = wordAtFront w a := by
  rw [Bool.eq_iff_iff, wordAtFront_iff, wordAtFront_iff]
  constructor
  · rintro ⟨after, heq, hafter⟩
    rcases List.append_eq_append_iff.1 heq with ⟨rest, rfl, hrest⟩ | ⟨rest, rfl, rfl⟩
    · cases rest with
      | nil => exact ⟨[], by simp, rfl⟩
      | cons d rest =>
        obtain ⟨rfl, -⟩ := List.cons.inj hrest
        simp at hw
    · exact ⟨rest, rfl, by rwa [startsWithWordChar_append_cons hc] at hafter⟩
  · rintro ⟨after, rfl, hafter⟩
    exact ⟨after ++ c :: b, by simp, by rwa [startsWithWordChar_append_cons hc]⟩

theorem standsAlone_append_cons (hc : isWordChar c = false) (hw : c ∉ w) (hne : w ≠ [])
    (inWord : Bool) (a b : List Char) :
    standsAlone w inWord (a ++ c :: b) = (standsAlone w inWord a || standsAlone w false b) := by
  have hempty : wordAtFront w [] = false := by
    rw [Bool.eq_false_iff, Ne, wordAtFront_iff]
    rintro ⟨after, heq, -⟩
    simp [hne] at heq
  induction a generalizing inWord with
  | nil =>
    have hfront := wordAtFront_append_cons hc hw [] b
    rw [List.nil_append, hempty] at hfront
    simp [standsAlone, hfront, hc]
  | cons d a ih =>
    have hfront := wordAtFront_append_cons hc hw (d :: a) b
    rw [List.cons_append] at hfront
    simp [standsAlone, hfront, ih, Bool.or_assoc]

theorem containsWord_eq_any_runs (hp : ∀ c, p c = true → isWordChar c = false)
    (hw : ∀ c ∈ w, p c = false) (hne : w ≠ []) (t : List Char) :
    containsWord w t = (runs p t).any (containsWord w) := by
  have hsingle (t : List Char) (ht : ∀ c ∈ t, p c = false) :
      (runs p t).any (containsWord w) = containsWord w t := by
    rw [runs_of_forall ht]
    by_cases hempty : t = []
    · simp [hempty, containsWord, standsAlone]
    · simp [hempty]
  induction t using separator_induction (p := p) with
  | free t hfree => exact (hsingle t hfree).symm
  | cut a c b ha hc ih =>
    have hcw : c ∉ w := fun hmem => by simp [hw c hmem] at hc
    rw [runs_append_cons hc, List.any_append, ← ih, hsingle a ha]
    exact standsAlone_append_cons (hp c hc) hcw hne false a b

end Excerpt.Text
