import Excerpt.Proofs.Source.Slice

/-!
# Numbered lines

The lines of a source are numbered from one, in their order and without a gap. So a line can be
found by its number as well as by its place: leaving out the first lines, or keeping only these,
selects by the numbers that the lines carry.
-/

namespace Excerpt

variable {start : Nat} {line : Line} {lines : List Line}

/-- The numbers go on from `start`, which is the number of the line before the first. -/
def NumberedFrom : Nat → List Line → Prop
  | _, [] => True
  | start, line :: lines => line.number = start + 1 ∧ NumberedFrom (start + 1) lines

theorem NumberedFrom.lt_number (h : NumberedFrom start lines) (hl : line ∈ lines) :
    start < line.number := by
  induction lines generalizing start with
  | nil => cases hl
  | cons first lines ih =>
    obtain ⟨hfirst, hrest⟩ := h
    rcases List.mem_cons.1 hl with rfl | hl
    · omega
    · have hlt := ih hrest hl
      omega

theorem NumberedFrom.number_le (h : NumberedFrom start lines) (hl : line ∈ lines) :
    line.number ≤ start + lines.length := by
  induction lines generalizing start with
  | nil => cases hl
  | cons first lines ih =>
    obtain ⟨hfirst, hrest⟩ := h
    rw [List.length_cons]
    rcases List.mem_cons.1 hl with rfl | hl
    · omega
    · have hle := ih hrest hl
      omega

theorem NumberedFrom.map_number (h : NumberedFrom start lines) :
    lines.map Line.number = List.range' (start + 1) lines.length := by
  induction lines generalizing start with
  | nil => rfl
  | cons first lines ih =>
    obtain ⟨hfirst, hrest⟩ := h
    rw [List.map_cons, ih hrest, hfirst, List.length_cons, List.range'_succ]

theorem NumberedFrom.drop (h : NumberedFrom start lines) (k : Nat) :
    NumberedFrom (start + k) (lines.drop k) := by
  induction k generalizing start lines with
  | zero => exact h
  | succ k ih =>
    cases lines with
    | nil => trivial
    | cons first lines =>
      have hrest := ih h.2
      rwa [Nat.add_right_comm, Nat.add_assoc] at hrest

theorem NumberedFrom.drop_eq_filter (h : NumberedFrom start lines) (k : Nat) :
    lines.drop k = lines.filter fun line => start + k < line.number := by
  induction k generalizing start lines with
  | zero =>
    refine (List.filter_eq_self.2 fun line hl => ?_).symm
    exact decide_eq_true (h.lt_number hl)
  | succ k ih =>
    cases lines with
    | nil => rfl
    | cons first lines =>
      obtain ⟨hfirst, hrest⟩ := h
      have hout : ¬ start + (k + 1) < first.number := by omega
      have hstart : start + (k + 1) = start + 1 + k := by omega
      rw [List.drop_succ_cons, ih hrest, List.filter_cons, if_neg (by simpa using hout), hstart]

theorem NumberedFrom.take_eq_filter (h : NumberedFrom start lines) (k : Nat) :
    lines.take k = lines.filter fun line => line.number ≤ start + k := by
  induction k generalizing start lines with
  | zero =>
    refine (List.filter_eq_nil_iff.2 fun line hl => ?_).symm
    have hlt := h.lt_number hl
    simpa using hlt
  | succ k ih =>
    cases lines with
    | nil => rfl
    | cons first lines =>
      obtain ⟨hfirst, hrest⟩ := h
      have hin : first.number ≤ start + (k + 1) := by omega
      have hstart : start + (k + 1) = start + 1 + k := by omega
      rw [List.take_succ_cons, ih hrest, List.filter_cons, if_pos (by simpa using hin), hstart]

namespace Source

/-- The lines of a file from the given offset on, numbered as they are there. -/
def numberedAt (start : Nat) (lines : List (List Char × Option Delimiter)) : List Line :=
  (lines.zipIdx start).map fun ((text, d), offset) =>
    ⟨offset + 1, String.ofList text, LineKind.ofDelimiter d⟩

theorem numberedAt_cons (start : Nat) (text : List Char) (d : Option Delimiter)
    (lines : List (List Char × Option Delimiter)) :
    numberedAt start ((text, d) :: lines) =
      ⟨start + 1, String.ofList text, LineKind.ofDelimiter d⟩ :: numberedAt (start + 1) lines := rfl

theorem lines_ofContent (content : String) :
    (ofContent content).lines = numberedAt 0 (classified content) := rfl

theorem numberedFrom_numberedAt (start : Nat) (lines : List (List Char × Option Delimiter)) :
    NumberedFrom start (numberedAt start lines) := by
  induction lines generalizing start with
  | nil => trivial
  | cons line lines ih => exact ⟨rfl, ih (start + 1)⟩

theorem numberedFrom_lines (content : String) : NumberedFrom 0 (ofContent content).lines :=
  numberedFrom_numberedAt 0 (classified content)

/-- A slice holds the lines with the numbers that it is made for, as far as these exist. -/
theorem slice_eq_filter {content : String} {start length : Nat}
    (hlimit : min (ofContent content).lineCount (start + length) ≤ Offset.limit) :
    (ofContent content).slice start length = (ofContent content).lines.filter fun line =>
      start < line.number ∧ line.number ≤ start + length := by
  have h := numberedFrom_lines content
  have hdrop := h.drop_eq_filter start
  have htake := (h.drop start).take_eq_filter length
  rw [slice_eq_take hlimit, htake, hdrop, List.filter_filter]
  refine List.filter_congr fun line hl => ?_
  simp [Bool.and_comm]

end Source

end Excerpt
