/-!
# Literals at the front of a text

Every recogniser of this library reads from the front of a text and hands on what is
left. The smallest one reads a fixed literal. It succeeds exactly when the text is the
literal followed by the rest.
-/

namespace Excerpt.Text

/-- What follows the literal `w` at the front of a text. -/
def after? : List Char → List Char → Option (List Char)
  | [], t => some t
  | _ :: _, [] => none
  | a :: w, c :: t => if a = c then after? w t else none

@[simp] theorem after?_nil (t : List Char) : after? [] t = some t := by cases t <;> rfl

theorem after?_append (w t : List Char) : after? w (w ++ t) = some t := by
  induction w with
  | nil => simp
  | cons a w ih => simp [after?, ih]

theorem eq_append_of_after? {w t r : List Char} (h : after? w t = some r) : t = w ++ r := by
  induction w generalizing t with
  | nil => simpa using h
  | cons a w ih =>
    cases t with
    | nil => simp [after?] at h
    | cons c t =>
      by_cases hc : a = c
      · simp only [after?, if_pos hc] at h
        simp [hc, ih h]
      · simp [after?, hc] at h

theorem after?_eq_some_iff {w t r : List Char} : after? w t = some r ↔ t = w ++ r :=
  ⟨eq_append_of_after?, fun h => h ▸ after?_append w r⟩

end Excerpt.Text
