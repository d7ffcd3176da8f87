import Excerpt.Text.Lines

/-!
# Reading lines back

A text without line feeds that a line feed follows is the first line of what it begins, less
the carriage return at its end. So a list of texts, each written with a line feed after it, is
read back as it was, as long as none of them holds a line feed or ends in a carriage return.
-/

namespace Excerpt.Text

/-- The text of a line as it stands in a file whose lines end in line feeds alone. -/
structure LineText where
  chars : List Char
  no_feed : '\n' ∉ chars
  no_return : chars.getLast? ≠ some '\r'

/-- Every text with a line feed after it. -/
def terminated (texts : List LineText) : List Char := texts.flatMap fun t => t.chars ++ ['\n']

theorem withoutReturn_eq_self {t : List Char} (h : t.getLast? ≠ some '\r') :
    withoutReturn t = t := if_neg h

theorem lines_append_feed {t : List Char} (h : '\n' ∉ t) (rest : List Char) :
    lines (t ++ '\n' :: rest) = withoutReturn t :: lines rest := by
  have hsplit : (t ++ '\n' :: rest).splitOn '\n' = t :: rest.splitOn '\n' :=
    List.splitOn_append_cons_self_of_not_mem h rest
  have hne : rest.splitOn '\n' ≠ [] := List.splitOn_ne_nil _ _
  simp only [lines, hsplit, List.dropLast_cons_of_ne_nil hne, List.getLast?_cons, List.map_cons,
    List.cons_append]
  cases hlast : (rest.splitOn '\n').getLast? with
  | none => exact absurd (List.getLast?_eq_none_iff.1 hlast) hne
  | some part => simp

theorem lines_terminated (texts : List LineText) :
    lines (terminated texts) = texts.map LineText.chars := by
  induction texts with
  | nil => rfl
  | cons t texts ih =>
    have hcons : terminated (t :: texts) = t.chars ++ '\n' :: terminated texts := by
      simp [terminated]
    rw [hcons, lines_append_feed t.no_feed, withoutReturn_eq_self t.no_return, ih, List.map_cons]

end Excerpt.Text
