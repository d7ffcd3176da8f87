import Excerpt.Text.Word

/-!
# Where a word stands alone

A word boundary is a place in a text of whose two neighbours just one is a word character; the
ends of the text count as having none. The search for a standalone word finds it exactly where
it occurs between two boundaries. The word itself has to begin and end with word characters,
since otherwise its own ends would say where the boundaries are.
-/

namespace Excerpt.Text

def endsWithWordChar (t : List Char) : Bool := t.getLast?.any isWordChar

/-- Whether a word boundary lies between two adjacent parts of a text. -/
def Boundary (before after : List Char) : Prop :=
  endsWithWordChar before ≠ startsWithWordChar after

/-- A word at some place of a text, with a boundary on either side. -/
def WordOccurs (w t : List Char) : Prop :=
  ∃ before after, t = before ++ (w ++ after) ∧ Boundary before (w ++ after) ∧
    Boundary (before ++ w) after

/-- Whether a word character stands just before the place that a part of a text leads to, when
`inWord` says the same of the place where that part begins. -/
def precededBy (inWord : Bool) (before : List Char) : Bool :=
  (before.getLast?.map isWordChar).getD inWord

theorem precededBy_cons (inWord : Bool) (c : Char) (t : List Char) :
    precededBy inWord (c :: t) = precededBy (isWordChar c) t := by
  unfold precededBy
  rw [List.getLast?_cons]
  cases t.getLast? <;> rfl

theorem precededBy_false (t : List Char) : precededBy false t = endsWithWordChar t := by
  unfold precededBy endsWithWordChar
  cases t.getLast? <;> rfl

theorem startsWithWordChar_append {w : List Char} (h : startsWithWordChar w = true)
    (t : List Char) : startsWithWordChar (w ++ t) = true := by
  cases w with
  | nil => cases h
  | cons c w => exact h

theorem endsWithWordChar_append {w : List Char} (h : endsWithWordChar w = true)
    (t : List Char) : endsWithWordChar (t ++ w) = true := by
  unfold endsWithWordChar at h ⊢
  cases hw : w.getLast? with
  | none => simp [hw] at h
  | some c =>
    rw [List.getLast?_append, hw]
    simpa [hw] using h

theorem wordAtFront_iff (w t : List Char) : wordAtFront w t = true ↔
    ∃ after, t = w ++ after ∧ startsWithWordChar after = false := by
  unfold wordAtFront
  constructor
  · intro h
    split at h
    · rename_i rest hrest
      exact ⟨rest, after?_eq_some_iff.1 hrest, by simpa using h⟩
    · cases h
  · rintro ⟨after, rfl, hafter⟩
    rw [after?_append]
    simp [hafter]

theorem standsAlone_iff {w : List Char} (hw : w ≠ []) (inWord : Bool) (t : List Char) :
    standsAlone w inWord t = true ↔
      ∃ before after, t = before ++ (w ++ after) ∧ precededBy inWord before = false ∧
        startsWithWordChar after = false := by
  induction t generalizing inWord with
  | nil =>
    refine ⟨fun h => (by cases h), ?_⟩
    rintro ⟨before, after, heq, -⟩
    simp [hw] at heq
  | cons c t ih =>
    simp only [standsAlone, Bool.or_eq_true, Bool.and_eq_true, Bool.not_eq_true', ih,
      wordAtFront_iff]
    constructor
    · rintro (⟨hin, after, heq, hafter⟩ | ⟨before, after, rfl, hbefore, hafter⟩)
      · exact ⟨[], after, heq, hin, hafter⟩
      · refine ⟨c :: before, after, rfl, ?_, hafter⟩
        rw [precededBy_cons, hbefore]
    · rintro ⟨before, after, heq, hbefore, hafter⟩
      cases before with
      | nil => exact Or.inl ⟨hbefore, after, heq, hafter⟩
      | cons b before =>
        obtain ⟨rfl, rfl⟩ := List.cons.inj heq
        rw [precededBy_cons] at hbefore
        exact Or.inr ⟨before, after, rfl, hbefore, hafter⟩

/-- The search finds a word just where it stands between two boundaries. -/
theorem containsWord_iff {w : List Char} (hfirst : startsWithWordChar w = true)
    (hlast : endsWithWordChar w = true) (t : List Char) :
    containsWord w t = true ↔ WordOccurs w t := by
  have hw : w ≠ [] := by
    rintro rfl
    cases hfirst
  rw [containsWord, standsAlone_iff hw]
  unfold WordOccurs Boundary
  simp [precededBy_false, startsWithWordChar_append hfirst, endsWithWordChar_append hlast]

end Excerpt.Text
