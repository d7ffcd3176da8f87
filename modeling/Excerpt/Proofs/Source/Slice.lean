import Excerpt.Source
import Mathlib.Data.List.Basic

/-!
# Slices of a file

A slice is cut at two offsets. The end of a range may lie past every offset, so the sum that gives
it is brought down, first to the largest offset and then to the end of the file. In a file whose end
is an offset itself, the two are in order and within the file, and the lines between them are those
that the range has when its end is computed without a bound.
-/

namespace Excerpt.Source

variable {source : Source} {start length : Nat}

theorem sliceBounds_fst_le_snd (h : source.lineCount ≤ Offset.limit) (start length : Nat) :
    (source.sliceBounds start length).1 ≤ (source.sliceBounds start length).2 := by
  simp only [sliceBounds, Offset.add, Offset.clamp]
  omega

theorem sliceBounds_snd_le (source : Source) (start length : Nat) :
    (source.sliceBounds start length).2 ≤ source.lineCount := Nat.min_le_right _ _

/-- Bringing the end of a slice down to the largest offset takes no line away, when that offset is
past the end of the range or past the end of the file. -/
theorem slice_eq_take (h : min source.lineCount (start + length) ≤ Offset.limit) :
    source.slice start length = (source.lines.drop start).take length := by
  change source.lines.extract (min start source.lineCount) (min _ source.lineCount) = _
  rw [List.extract_eq_take_drop]
  rcases Nat.le_total start source.lineCount with hin | hout
  -- both take as many lines as there are left behind `start`, or fewer and then the same number
  · rw [Nat.min_eq_left hin, List.take_eq_take_iff, List.length_drop]
    simp only [Offset.add, Offset.clamp, lineCount] at h hin ⊢
    omega
  · rw [Nat.min_eq_right hout, lineCount, List.drop_length, List.drop_eq_nil_of_le hout,
      List.take_nil, List.take_nil]

theorem take_drop_eq_filterMap (lines : List Line) (start length : Nat) :
    (lines.drop start).take length = (List.range' start length).filterMap (lines[·]?) := by
  -- the range loses its first offset and keeps its end
  induction length generalizing start with
  | zero => rw [List.take_zero, List.range'_zero, List.filterMap_nil]
  | succ length ih =>
    rw [List.range'_succ, List.filterMap_cons, ← ih]
    rcases Nat.lt_or_ge start lines.length with hin | hout
    · rw [List.getElem?_eq_getElem hin, List.drop_eq_getElem_cons hin, List.take_succ_cons]
    · rw [List.getElem?_eq_none hout, List.drop_eq_nil_of_le hout,
        List.drop_eq_nil_of_le (Nat.le_succ_of_le hout), List.take_nil, List.take_nil]

/-- A slice holds the lines at the offsets of its range, as far as there are any. -/
theorem slice_eq_filterMap (h : source.lineCount ≤ Offset.limit) (start length : Nat) :
    source.slice start length = (List.range' start length).filterMap (source.lines[·]?) := by
  rw [slice_eq_take (Nat.le_trans (Nat.min_le_left _ _) h), take_drop_eq_filterMap]

end Excerpt.Source
