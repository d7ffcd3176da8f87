import Excerpt.Options
import Excerpt.Proofs.Numbering.RoundTrip
import Excerpt.Proofs.Rendering.Offsets
import Excerpt.Proofs.Sample.Selection
import Excerpt.Proofs.Text.Decimal

/-!
# The column of numbers

The numbers of a display stand under one another, each to the right end of a field. The field has
the width of the largest number that could stand there, and no number that does is larger. A line
that is counted shows how many lines are displayed before it, and one that keeps its number shows
its place in the file, wherever the selector puts it. No line has number zero, unless the counting
itself is told to start there.
-/

namespace Excerpt

open Text (IsDecimal)

/-- A line of a display with a number to the right end of a field of the given width. -/
def RenderedLine.Shows (width : Nat) (line : RenderedLine) (n : Nat) : Prop :=
  ∃ text, line.number = some text ∧ text.length = width ∧
    ∃ count t, text.toList = List.replicate count ' ' ++ t ∧ IsDecimal t n

/-- Whether `n` is the number due to the line at `position` of a display that stands at `offset` in
its file. -/
def Numbering.Due (position offset n : Nat) : Numbering → Prop
  | off => False
  | sequential first => n = min (first + position) (UInt64.size - 1)
  | original => n = offset + 1

variable {n width : Nat}

theorem toList_numberText (width n : Nat) :
    (numberText width n).toList = Text.padLeft width (Text.decimal n) := String.toList_ofList

theorem shows_of_number {line : RenderedLine} (hw : Text.digitCount n ≤ width)
    (h : line.number = some (numberText width n)) : line.Shows width n := by
  refine ⟨_, h, ?_, _, _, toList_numberText width n, Text.isDecimal_decimal n⟩
  rw [← String.length_toList, toList_numberText, Text.length_padLeft hw]

/-- In a field of its own width a number stands without spaces. -/
theorem toList_numberText_digitCount (n : Nat) :
    (numberText (Text.digitCount n) n).toList = Text.decimal n := by
  rw [toList_numberText]
  exact Text.padLeft_of_le (Nat.le_refl _)

/-! ## What may be shown -/

namespace Numbering

variable {numbering : Numbering} {position offset original count fileLineCount first : Nat}

theorem exists_due (h : numbering ≠ off) (position offset : Nat) :
    ∃ n, numbering.value? position (offset + 1) = some n ∧ numbering.Due position offset n := by
  cases numbering with
  | off => exact absurd rfl h
  | sequential first => exact ⟨Offset.add first position, rfl, rfl⟩
  | original => exact ⟨offset + 1, rfl, rfl⟩

theorem Due.ne_zero (h : numbering.Due position offset n)
    (hfirst : ∀ first, numbering = sequential first → 0 < first) : n ≠ 0 := by
  cases numbering with
  | off => exact h.elim
  | sequential first =>
    have hpos := hfirst first rfl
    have hn : n = min (first + position) (UInt64.size - 1) := h
    have hsize : 0 < UInt64.size - 1 := by decide
    omega
  | original =>
    have hn : n = offset + 1 := h
    omega

theorem value?_le_largest (hp : position < count) (ho : original ≤ fileLineCount)
    (h : numbering.value? position original = some n) :
    n ≤ numbering.largest count fileLineCount := by
  cases numbering with
  | off => cases h
  | sequential first =>
    obtain rfl := Option.some.inj h
    simp only [largest, Offset.add, Offset.clamp]
    omega
  | original =>
    obtain rfl := Option.some.inj h
    exact ho

theorem pos_of_default {d : DefaultNumbering} (h : d.numbering = sequential first) :
    0 < first := by
  cases d with
  | off => cases h
  | sequential => exact sequential.inj h ▸ Nat.one_pos
  | original => cases h

end Numbering

theorem pos_of_numbering_resolve {defaults : Defaults} {attributes : Attributes} {first : Nat}
    (h : (RenderOptions.resolve defaults attributes).numbering = .sequential first) :
    0 < first := by
  simp only [RenderOptions.resolve] at h
  split at h
  · exact Numbering.pos_of_ofText h
  · exact Numbering.pos_of_default h

/-! ## Numbers of a display -/

namespace Sample

variable {sample : Sample} {options : RenderOptions} {i j : Nat}

/-- The width that all numbers of a display have. -/
def numberWidth (sample : Sample) (options : RenderOptions) : Nat :=
  options.numbering.width (sample.keptOffsets options).length sample.fileLineCount

theorem exists_line_of_mem_ofSelector {content : String} {selector : Option String} {line : Line}
    (h : line ∈ (ofSelector (Source.ofContent content) selector).lines) :
    ∃ k : Nat, (Source.ofContent content).lines[k]? = some line ∧ line.number = k + 1 := by
  obtain ⟨k, hk⟩ := List.mem_iff_getElem?.1 (mem_lines_of_mem_ofSelector h)
  refine ⟨k, hk, ?_⟩
  rw [Source.getElem?_lines] at hk
  obtain ⟨entry, -, rfl⟩ := Option.map_eq_some_iff.1 hk
  rfl

/-- A line that survives is numbered as its places in the display and in the file say. -/
theorem number_render (content : String) (selector : Option String)
    (hn : options.numbering ≠ .off) :
    let sample := ofSelector (Source.ofContent content) selector
    (sample.keptOffsets options)[j]? = some i → ∃ k line shown n,
      sample.lines[i]? = some line ∧ (Source.ofContent content).lines[k]? = some line ∧
      (sample.render options)[j]? = some shown ∧ options.numbering.Due j k n ∧
      n ≤ options.numbering.largest (sample.keptOffsets options).length sample.fileLineCount ∧
      shown.number = some (numberText (sample.numberWidth options) n) := by
  intro sample h
  obtain ⟨line, hline, -, hshown⟩ := getElem?_render h
  obtain ⟨k, hk, hnumber⟩ := exists_line_of_mem_ofSelector (List.mem_of_getElem? hline)
  obtain ⟨n, hvalue, hdue⟩ := Numbering.exists_due hn j k
  rw [← hnumber] at hvalue
  have hj := (List.getElem?_eq_some_iff.1 h).1
  have hle : line.number ≤ (Source.ofContent content).lineCount := by
    rw [hnumber]
    exact (List.getElem?_eq_some_iff.1 hk).1
  refine ⟨k, line, _, n, hline, hk, hshown, hdue,
    Numbering.value?_le_largest hj hle hvalue, ?_⟩
  rw [number_renderLine, hvalue]
  rfl

/-- All numbers of a display have one width, at the right end of which they stand. A line that is
counted shows its place in the display from the first number on, as far as numbers go, and the last
one has no spaces before it. A line with its own number shows its place in the file, in a field that
fits the number of lines there. Where defaults and attributes decide, zero is never shown. -/
theorem render_numbers (content : String) (selector : Option String) (options : RenderOptions)
    (h : options.numbering ≠ .off) :
    let source := Source.ofContent content
    let sample := ofSelector source selector
    let kept := sample.keptOffsets options
    let shown := sample.render options
    shown.length = kept.length ∧
    ∃ width,
      (∀ j i : Nat, kept[j]? = some i → ∃ k line rendered n,
        sample.lines[i]? = some line ∧ source.lines[k]? = some line ∧
        shown[j]? = some rendered ∧ rendered.Shows width n ∧ options.numbering.Due j k n ∧
        ∀ defaults attributes, options = RenderOptions.resolve defaults attributes → n ≠ 0) ∧
      (∀ first last, options.numbering = .sequential first → shown.getLast? = some last →
        ∃ text n, last.number = some text ∧ IsDecimal text.toList n) ∧
      (options.numbering = .original → ∃ t, IsDecimal t source.lineCount ∧ t.length = width) := by
  intro source sample kept shown
  refine ⟨length_render sample options, sample.numberWidth options, fun j i hi => ?_,
    fun first last hs hlast => ?_, fun horiginal => ?_⟩
  · obtain ⟨k, line, rendered, n, hline, hk, hrendered, hdue, hle, hnumber⟩ :=
      number_render content selector h hi
    refine ⟨k, line, rendered, n, hline, hk, hrendered,
      shows_of_number (Text.digitCount_le_digitCount hle) hnumber, hdue, ?_⟩
    rintro defaults attributes rfl
    exact hdue.ne_zero fun first => pos_of_numbering_resolve
  · rw [List.getLast?_eq_getElem?, length_render] at hlast
    have hj : kept.length - 1 < kept.length := by
      have hlt := (List.getElem?_eq_some_iff.1 hlast).1
      rwa [length_render] at hlt
    obtain ⟨k, line, rendered, n, -, -, hrendered, hdue, -, hnumber⟩ :=
      number_render content selector h (List.getElem?_eq_getElem hj)
    obtain rfl := Option.some.inj (hlast.symm.trans hrendered)
    -- the last of the lines that are counted has the largest number, which the width is made for
    have hlargest : options.numbering.largest kept.length sample.fileLineCount = n := by
      rw [hs] at hdue ⊢
      exact hdue.symm
    refine ⟨_, n, hnumber, ?_⟩
    rw [numberWidth, Numbering.width, hlargest, toList_numberText_digitCount]
    exact Text.isDecimal_decimal n
  · refine ⟨_, Text.isDecimal_decimal _, ?_⟩
    rw [numberWidth, horiginal]
    rfl

/-- Lines counted from nine with one of them skipped, and lines counted past the last number. -/
theorem render_numbers_of_counted :
    let sample := ofSelector (Source.ofContent "a\nb\nc\n") (some "3,1-2")
    let options := RenderOptions.resolve { skip := "2" } { numbering := some " +9 " }
    let late : RenderOptions := { numbering := .sequential 18446744073709551614 }
    options.numbering ≠ .off ∧ late.numbering ≠ .off ∧
      (sample.render options).map RenderedLine.number = [some " 9", some "10"] ∧
      (∃ width rendered, (sample.render options)[1]? = some rendered ∧ rendered.Shows width 10) ∧
      ∃ width rendered, (sample.render late)[2]? = some rendered ∧
        rendered.Shows width 18446744073709551615 := by
  intro sample options late
  have hcounted : options.numbering ≠ .off := by decide
  have hlate : late.numbering ≠ .off := by decide
  obtain ⟨-, width, hlines, -⟩ := render_numbers "a\nb\nc\n" (some "3,1-2") options hcounted
  obtain ⟨-, width', hlines', -⟩ := render_numbers "a\nb\nc\n" (some "3,1-2") late hlate
  obtain ⟨k, -, rendered, n, -, -, hrendered, hshows, hdue, -⟩ := hlines 1 2 (by decide)
  obtain ⟨k', -, rendered', n', -, -, hrendered', hshows', hdue', -⟩ := hlines' 2 2 (by decide)
  have hnumbering : options.numbering = .sequential 9 := by decide
  rw [hnumbering] at hdue
  obtain rfl : n = 10 := hdue.trans (by decide)
  obtain rfl : n' = 18446744073709551615 := hdue'.trans (by decide)
  exact ⟨hcounted, hlate, by decide, ⟨width, rendered, hrendered, hshows⟩,
    width', rendered', hrendered', hshows'⟩

end Sample

end Excerpt
