import Excerpt.Proofs.Region.Recording
import Excerpt.Proofs.Source.Layout

/-!
# Files put together

Behind a line feed a file begins anew: what is put there is read as it would be read alone, only
with greater numbers. Nothing of it changes the regions found before. Regions left open before it
lie under all that it opens itself, so that an end reaches them only when it would find nothing
to close alone. So a region that is not left open is the same in the second file as it is alone.
-/

namespace Excerpt

namespace Text

theorem lines_flatMap_append (terminated : List TerminatedLine) (rest : List Char) :
    lines (terminated.flatMap TerminatedLine.chars ++ rest) =
      terminated.map TerminatedLine.text ++ lines rest := by
  induction terminated with
  | nil => rfl
  | cons line terminated ih =>
    rw [List.flatMap_cons, List.append_assoc, line.lines_chars_append, ih, List.map_cons,
      List.cons_append]

/-- A text that ends a line has nothing behind its last terminator. -/
theorem exists_flatMap_chars_eq {t : List Char} (h : t = [] ∨ t.getLast? = some '\n') :
    ∃ terminated : List TerminatedLine, terminated.flatMap TerminatedLine.chars = t := by
  obtain ⟨⟨terminated, last⟩, hchars⟩ := Layout.exists_chars_eq_append t List.not_mem_nil
  rw [List.nil_append] at hchars
  cases last with
  | none => exact ⟨terminated, by simpa [Layout.chars] using hchars⟩
  | some line =>
    have ht : t = terminated.flatMap TerminatedLine.chars ++ line.text := hchars.symm
    rcases h with h | h
    · rw [h] at ht
      exact absurd (List.append_eq_nil_iff.1 ht.symm).2 line.ne_nil
    · rw [ht, List.getLast?_append_of_ne_nil _ line.ne_nil] at h
      exact absurd (List.mem_of_getLast? h) line.no_feed

theorem lines_append {t : List Char} (h : t = [] ∨ t.getLast? = some '\n') (rest : List Char) :
    lines (t ++ rest) = lines t ++ lines rest := by
  obtain ⟨terminated, rfl⟩ := exists_flatMap_chars_eq h
  have hfront := lines_flatMap_append terminated []
  rw [List.append_nil, lines_nil, List.append_nil] at hfront
  rw [lines_flatMap_append, hfront]

end Text

/-- A line as it is numbered behind `count` others. -/
def Line.shift (count : Nat) (line : Line) : Line := { line with number := line.number + count }

/-! ## Regions left open -/

section

variable {name : String} {upper lower : List String} {start : Nat}
  {lines : List (List Char × Option Delimiter)}

/-- A delimiter may close regions at the bottom of the stack but opens none there. -/
theorem exists_apply_append_eq (d : Delimiter) (upper lower : List String) :
    ∃ lower', lower'.Sublist lower ∧ d.apply (upper ++ lower) = d.apply upper ++ lower' := by
  cases d with
  | start name => exact ⟨lower, List.Sublist.refl lower, rfl⟩
  | endNamed name =>
    by_cases hn : name ∈ upper
    · exact ⟨lower, List.Sublist.refl lower, List.erase_append_left lower hn⟩
    · refine ⟨lower.erase name, List.erase_sublist, ?_⟩
      simp only [Delimiter.apply_endNamed]
      rw [List.erase_append_right lower hn, List.erase_of_not_mem hn]
  | endLast =>
    cases upper with
    | nil => exact ⟨lower.tail, List.tail_sublist lower, rfl⟩
    | cons top upper => exact ⟨lower, List.Sublist.refl lower, rfl⟩

/-- A region that is not among those left open does not see them. The induction is over the lines
with any regions opened since, and any of the others still open under these. -/
theorem covered_append_of_not_mem (h : name ∉ lower) (upper : List String) (start : Nat)
    (lines : List (List Char × Option Delimiter)) :
    covered name (upper ++ lower) start lines = covered name upper start lines := by
  induction lines generalizing upper lower start with
  | nil => rfl
  | cons line lines ih =>
    obtain ⟨text, _ | d⟩ := line
    · have hmem : name ∈ upper ++ lower ↔ name ∈ upper := by simp [h]
      simp only [covered, hmem, ih h]
    · obtain ⟨lower', hsub, happly⟩ := exists_apply_append_eq d upper lower
      have h' : name ∉ lower' := fun hn => h (hsub.subset hn)
      rw [covered, covered, happly, ih h']

theorem covered_add (name : String) (opened : List String) (start count : Nat)
    (lines : List (List Char × Option Delimiter)) :
    (covered name opened (start + count) lines).map Source.contentLine =
      (covered name opened start lines).map fun line => (Source.contentLine line).shift count := by
  induction lines generalizing opened start with
  | nil => rfl
  | cons line lines ih =>
    have hnext := fun opened => ih opened (start + 1)
    simp only [Nat.add_right_comm start 1 count] at hnext
    obtain ⟨text, _ | d⟩ := line
    · have hline : Source.contentLine (text, start + count) =
          (Source.contentLine (text, start)).shift count := by
        simp [Source.contentLine, Line.shift, Line.content, Nat.add_right_comm]
      by_cases hn : name ∈ opened <;> simp [covered, hn, hline, hnext]
    · exact hnext (d.apply opened)

end

/-! ## One file behind another -/

namespace Source

variable {a : String}

theorem numberedAt_append (start : Nat) (lines rest : List (List Char × Option Delimiter)) :
    numberedAt start (lines ++ rest) =
      numberedAt start lines ++ numberedAt (start + lines.length) rest := by
  rw [numberedAt, List.zipIdx_append, List.map_append]
  rfl

theorem numberedAt_add (start count : Nat) (lines : List (List Char × Option Delimiter)) :
    numberedAt (start + count) lines = (numberedAt start lines).map (Line.shift count) := by
  induction lines generalizing start with
  | nil => rfl
  | cons line lines ih =>
    obtain ⟨text, d⟩ := line
    rw [numberedAt_cons, numberedAt_cons, List.map_cons, ← ih, Nat.add_right_comm]
    rfl

theorem classified_append (h : a = "" ∨ a.toList.getLast? = some '\n') (b : String) :
    classified (a ++ b) = classified a ++ classified b := by
  have ha : a.toList = [] ∨ a.toList.getLast? = some '\n' := by simpa using h
  rw [classified, String.toList_append, Text.lines_append ha, List.map_append]
  rfl

theorem opened_logged (content : String) :
    (logged (classified content)).opened = openedAfter [] (classified content) :=
  RegionLog.opened_run {} 0 (classified content)

theorem number_le_of_mem_region {content name : String} {line : Line}
    (h : line ∈ (ofContent content).region name) : line.number ≤ (ofContent content).lineCount := by
  obtain ⟨offset, -, hline⟩ := List.mem_filterMap.1 h
  have hle := (numberedFrom_lines content).number_le (List.mem_of_getElem? hline)
  rwa [Nat.zero_add] at hle

/-- The lines of a region in the second file, for the regions that the first leaves open. -/
theorem region_append (h : a = "" ∨ a.toList.getLast? = some '\n') (b name : String) :
    (ofContent (a ++ b)).region name = (ofContent a).region name ++
      ((covered name (openedAfter [] (classified a)) 0 (classified b)).map contentLine).map
        (Line.shift (ofContent a).lineCount) := by
  rw [region_ofContent, region_ofContent, coveredLines, classified_append h, covered_append,
    List.map_append, ← lineCount_ofContent, covered_add, List.map_map]
  rfl

/-- Text put behind the end of a line adds its lines with greater numbers and changes no region
found before. Of a region that is not left open before it, it adds what it holds of it alone. -/
theorem ofContent_append (a b : String) (h : a = "" ∨ a.toList.getLast? = some '\n') :
    let whole := ofContent (a ++ b)
    let front := ofContent a
    let back := ofContent b
    whole.lines = front.lines ++ back.lines.map (Line.shift front.lineCount) ∧
    (∀ name, (whole.region name).filter (fun line => line.number ≤ front.lineCount) =
      front.region name) ∧
    ∀ name, name ∉ (logged (classified a)).opened →
      whole.region name =
        front.region name ++ (back.region name).map (Line.shift front.lineCount) := by
  intro whole front back
  refine ⟨?_, fun name => ?_, fun name hname => ?_⟩
  · have hcount : 0 + (classified a).length = 0 + front.lineCount := by rw [lineCount_ofContent]
    rw [lines_ofContent, classified_append h, numberedAt_append, hcount, numberedAt_add]
    rfl
  · rw [region_append h, List.filter_append, List.filter_eq_self.2, List.filter_eq_nil_iff.2,
      List.append_nil]
    · intro line hl hle
      obtain ⟨line', hl', rfl⟩ := List.mem_map.1 hl
      obtain ⟨entry, -, rfl⟩ := List.mem_map.1 hl'
      have hle : entry.2 + 1 + front.lineCount ≤ front.lineCount := of_decide_eq_true hle
      omega
    · intro line hl
      exact decide_eq_true (number_le_of_mem_region hl)
  · rw [opened_logged] at hname
    rw [region_append h, ← List.nil_append (openedAfter [] (classified a)),
      covered_append_of_not_mem hname, ← coveredLines, ← region_ofContent]

/-- A region inside another one that the first file leaves open, and the second one closes. -/
theorem ofContent_append_of_open :
    let a := "sample(c)\nsample(a)\nx\nend-sample\n"
    let b := "sample(a)\ny\nend-sample\nend-sample\nz"
    a.toList.getLast? = some '\n' ∧ (logged (classified a)).opened = ["c"] ∧
      (ofContent (a ++ b)).region "a" = [.content 3 "x", .content 6 "y"] ∧
      (((ofContent (a ++ b)).region "c").filter fun line => line.number ≤ 4) =
        [.content 3 "x"] := by
  intro a b
  have ha : a.toList.getLast? = some '\n' := by decide
  have hopened : (logged (classified a)).opened = ["c"] := by decide
  have hcount : (ofContent a).lineCount = 4 := by decide
  obtain ⟨-, hkept, hadded⟩ := ofContent_append a b (Or.inr ha)
  have hregion := hadded "a" (by simp [hopened])
  have hfront : (ofContent a).region "a" = [.content 3 "x"] := by decide
  have hback : (ofContent b).region "a" = [.content 2 "y"] := by decide
  rw [hfront, hback, hcount] at hregion
  have hleft := hkept "c"
  have hfront' : (ofContent a).region "c" = [.content 3 "x"] := by decide
  rw [hfront', hcount] at hleft
  exact ⟨ha, hopened, hregion, hleft⟩

end Source

end Excerpt
