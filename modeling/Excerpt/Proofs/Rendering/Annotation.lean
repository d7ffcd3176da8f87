import Excerpt.OutputFormat
import Excerpt.Proofs.Rendering.Independence
import Excerpt.Proofs.Sample.Selection
import Excerpt.Proofs.Source.Layout
import Excerpt.Proofs.Text.Decimal

/-!
# Reading displays back

No line of a file holds a line feed, and neither does what is displayed of it. So the lines of a
text output are found again between its line feeds. In the annotated form each of them begins with
the gutter, and a number ends at the first colon behind it, since it has none itself. Whatever the
text of a line looks like, its flag, its number and its text are read back from there.
-/

namespace Excerpt

/-! ## Texts without line feeds -/

theorem subset_dropChars (count : Nat) (text : String) :
    (dropChars count text).toList ⊆ text.toList := by
  rw [dropChars, String.toList_ofList]
  exact List.drop_subset count text.toList

theorem subset_of_stripMarkTag? {text stripped : String} (h : stripMarkTag? text = some stripped) :
    stripped.toList ⊆ text.toList := by
  obtain ⟨t, ht, rfl⟩ := Option.map_eq_some_iff.1 h
  rw [String.toList_ofList]
  exact (MarkTag.sublist_of_strip? ht).subset

/-- A display shows nothing that is not in the file. -/
theorem subset_displayText (indentation : Nat) (line : Line) :
    (displayText indentation line).toList ⊆ line.text.toList := by
  have hdrop := subset_dropChars indentation line.text
  simp only [displayText]
  cases h : stripMarkTag? (dropChars indentation line.text) with
  | none => exact hdrop
  | some stripped => exact List.Subset.trans (subset_of_stripMarkTag? h) hdrop

theorem mem_numberText {width number : Nat} {c : Char}
    (h : c ∈ (numberText width number).toList) : c = ' ' ∨ c.isDigit = true := by
  rw [numberText, String.toList_ofList, Text.padLeft] at h
  rcases List.mem_append.1 h with h | h
  · exact Or.inl (List.eq_of_mem_replicate h)
  · exact Or.inr (Text.isDigit_of_mem_decimal h)

/-! ## Lines that can be read back -/

/-- A line of a display in which all lines are numbered, or none. -/
structure RenderedLine.Readable (numbered : Bool) (line : RenderedLine) : Prop where
  no_feed : '\n' ∉ line.text.toList
  isSome_number : line.number.isSome = numbered
  mem_number : ∀ number, line.number = some number →
    ∀ c ∈ number.toList, c = ' ' ∨ c.isDigit = true

def RenderOptions.isNumbered (options : RenderOptions) : Bool := options.numbering ≠ .off

theorem Numbering.isSome_value? (numbering : Numbering) (position original : Nat) :
    (numbering.value? position original).isSome = decide (numbering ≠ .off) := by
  cases numbering <;> rfl

theorem readable_renderLine (options : RenderOptions) (indentation width position offset : Nat)
    {line : Line} (h : '\n' ∉ line.text.toList) :
    (renderLine options indentation width position line offset).Readable options.isNumbered := by
  have hnumber : (renderLine options indentation width position line offset).number =
      (options.numbering.value? position line.number).map (numberText width) :=
    Sample.number_renderLine options indentation width
  refine ⟨?_, ?_, fun number hsome c hc => ?_⟩
  · rw [Sample.text_renderLine]
    exact fun hfeed => h (subset_displayText indentation line hfeed)
  · rw [hnumber, Option.isSome_map]
    exact Numbering.isSome_value? _ _ _
  · rw [hnumber] at hsome
    obtain ⟨value, -, rfl⟩ := Option.map_eq_some_iff.1 hsome
    exact mem_numberText hc

theorem Sample.readable_render {sample : Sample} (options : RenderOptions)
    (h : ∀ line ∈ sample.lines, '\n' ∉ line.text.toList) {shown : RenderedLine}
    (hshown : shown ∈ sample.render options) : shown.Readable options.isNumbered := by
  obtain ⟨⟨⟨line, offset⟩, position⟩, hentry, rfl⟩ := List.mem_map.1 hshown
  have hkept : (line, offset) ∈ sample.survivors options := List.fst_mem_of_mem_zipIdx hentry
  have hline := List.mem_of_getElem? (getElem?_of_mem_survivors hkept)
  exact readable_renderLine options _ _ position offset (h line hline)

/-! ## Reading a line -/

namespace RenderedLine

/-- A line read from the annotated form, in which either all lines have numbers or none. -/
def ofAnnotated (numbered : Bool) (t : List Char) : RenderedLine :=
  let marked := t.head? = some '>'
  let rest := t.drop 2
  if numbered then
    ⟨some (String.ofList (rest.takeWhile (· ≠ ':'))), marked,
      String.ofList ((rest.dropWhile (· ≠ ':')).drop 2)⟩
  else ⟨none, marked, String.ofList rest⟩

variable {numbered : Bool} {line : RenderedLine}

theorem Readable.ne_colon (h : line.Readable numbered) {number : String}
    (hnumber : line.number = some number) {c : Char} (hc : c ∈ number.toList) : c ≠ ':' := by
  rintro rfl
  rcases h.mem_number number hnumber _ hc with he | he
  · cases he
  · cases he

theorem head?_annotated (line : RenderedLine) :
    line.annotated.toList.head? = some '>' ↔ line.marked = true := by
  obtain ⟨number, marked, text⟩ := line
  cases number <;> cases marked <;> simp [annotated, gutter]

theorem drop_annotated (line : RenderedLine) : line.annotated.toList.drop 2 =
    (line.number.elim [] fun number => number.toList ++ [':', ' ']) ++ line.text.toList := by
  obtain ⟨number, marked, text⟩ := line
  cases number <;> cases marked <;> simp [annotated, gutter]

theorem Readable.ofAnnotated (h : line.Readable numbered) :
    ofAnnotated numbered line.annotated.toList = line := by
  have hrest := line.drop_annotated
  obtain ⟨number, marked, text⟩ := line
  cases number with
  | none =>
    obtain rfl : false = numbered := h.isSome_number
    simp [RenderedLine.ofAnnotated, head?_annotated, hrest]
  | some number =>
    obtain rfl : true = numbered := h.isSome_number
    have hcolon (c : Char) (hc : c ∈ number.toList) : (!decide (c = ':')) = true := by
      simpa using h.ne_colon rfl hc
    simp [RenderedLine.ofAnnotated, head?_annotated, hrest,
      List.takeWhile_append_of_pos hcolon, List.dropWhile_append_of_pos hcolon]

theorem Readable.no_feed_annotated (h : line.Readable numbered) :
    '\n' ∉ line.annotated.toList := by
  obtain ⟨number, marked, text⟩ := line
  have htext := h.no_feed
  cases number with
  | none => cases marked <;> simpa [annotated, gutter] using htext
  | some number =>
    have hnumber : '\n' ∉ number.toList := by
      intro hc
      rcases h.mem_number number rfl _ hc with he | he
      · cases he
      · cases he
    cases marked <;> simp [annotated, gutter, hnumber] <;> exact htext

theorem annotated_ne_nil (line : RenderedLine) : line.annotated.toList ≠ [] := by
  obtain ⟨number, marked, text⟩ := line
  cases number <;> cases marked <;> simp [annotated, gutter]

end RenderedLine

/-! ## Reading whole displays -/

theorem splitOn_joinLines {texts : List String} (h : ∀ t ∈ texts, '\n' ∉ t.toList)
    (hne : texts ≠ []) : (Text.joinLines texts).toList.splitOn '\n' = texts.map String.toList := by
  have hlines : ∀ t ∈ texts.map String.toList, '\n' ∉ t := by
    intro t ht
    obtain ⟨text, htext, rfl⟩ := List.mem_map.1 ht
    exact h text htext
  rw [Text.joinLines, String.toList_intercalate]
  exact List.splitOn_intercalate '\n' hlines (mt List.map_eq_nil_iff.1 hne)

/-- The lines of an annotated text. None of them is empty there, so an empty text has none. -/
def linesOfAnnotated (numbered : Bool) (text : String) : List RenderedLine :=
  if text.toList = [] then []
  else (text.toList.splitOn '\n').map (RenderedLine.ofAnnotated numbered)

theorem linesOfAnnotated_annotated {numbered : Bool} {sample : RenderedSample}
    (h : ∀ line ∈ sample.lines, line.Readable numbered) :
    linesOfAnnotated numbered sample.annotated = sample.lines := by
  by_cases hlines : sample.lines = []
  · simp [linesOfAnnotated, RenderedSample.annotated, hlines, Text.joinLines]
  have hfeeds : ∀ t ∈ sample.lines.map RenderedLine.annotated, '\n' ∉ t.toList := by
    intro t ht
    obtain ⟨line, hline, rfl⟩ := List.mem_map.1 ht
    exact (h line hline).no_feed_annotated
  have hsplit : sample.annotated.toList.splitOn '\n' =
      (sample.lines.map RenderedLine.annotated).map String.toList :=
    splitOn_joinLines hfeeds (mt List.map_eq_nil_iff.1 hlines)
  have hne : sample.annotated.toList ≠ [] := by
    intro hnil
    obtain ⟨line, lines, hcons⟩ := List.exists_cons_of_ne_nil hlines
    rw [hnil, List.splitOn_nil, hcons] at hsplit
    exact line.annotated_ne_nil (List.cons.inj hsplit).1.symm
  rw [linesOfAnnotated, if_neg hne, hsplit, List.map_map, List.map_map]
  refine (List.map_congr_left fun line hline => ?_).trans (List.map_id _)
  exact (h line hline).ofAnnotated

/-- The display of what a selector takes from a file. -/
def displayOf (content : String) (selector : Option String) (options : RenderOptions) :
    List RenderedLine := (Sample.ofSelector (Source.ofContent content) selector).render options

theorem readable_displayOf {content : String} {selector : Option String} {options : RenderOptions}
    {shown : RenderedLine} (h : shown ∈ displayOf content selector options) :
    shown.Readable options.isNumbered :=
  Sample.readable_render options
    (fun _ hline => Source.no_feed_of_mem_lines (mem_lines_of_mem_ofSelector hline)) h

theorem linesOfAnnotated_displayOf (content : String) (selector : Option String)
    (options : RenderOptions) (contentType : Option String) :
    linesOfAnnotated options.isNumbered
      (RenderedSample.annotated ⟨displayOf content selector options, contentType⟩) =
        displayOf content selector options :=
  linesOfAnnotated_annotated fun _ hshown => readable_displayOf hshown

/-- The texts of a display are what stands between the line feeds of its text output. From the
annotated output of a display its lines are read back, once it is known whether they are numbered,
so that two displays with the same annotated output, both numbered or neither, are the same. -/
theorem display_reads_back :
    (∀ content selector options,
      let shown := displayOf content selector options
      (∀ line ∈ shown, '\n' ∉ line.text.toList) ∧
      (shown ≠ [] →
        (joinRendered shown).toList.splitOn '\n' = shown.map fun line => line.text.toList) ∧
      ∀ contentType, linesOfAnnotated options.isNumbered
        (RenderedSample.write ⟨shown, contentType⟩ .annotated) = shown) ∧
    ∀ content content' selector selector' options options' contentType contentType',
      let shown := displayOf content selector options
      let shown' := displayOf content' selector' options'
      options.isNumbered = options'.isNumbered →
      RenderedSample.write ⟨shown, contentType⟩ .annotated =
        RenderedSample.write ⟨shown', contentType'⟩ .annotated →
      shown = shown' := by
  constructor
  · intro content selector options shown
    have hfeeds : ∀ line ∈ shown, '\n' ∉ line.text.toList :=
      fun line hline => (readable_displayOf hline).no_feed
    refine ⟨hfeeds, fun hne => ?_, linesOfAnnotated_displayOf content selector options⟩
    have htexts : ∀ t ∈ shown.map RenderedLine.text, '\n' ∉ t.toList := by
      intro t ht
      obtain ⟨line, hline, rfl⟩ := List.mem_map.1 ht
      exact hfeeds line hline
    rw [joinRendered, splitOn_joinLines htexts (mt List.map_eq_nil_iff.1 hne), List.map_map]
    rfl
  · intro content content' selector selector' options options' contentType contentType' shown
      shown' hnumbered hsame
    calc shown = linesOfAnnotated options.isNumbered
          (RenderedSample.annotated ⟨shown, contentType⟩) :=
            (linesOfAnnotated_displayOf content selector options contentType).symm
      _ = linesOfAnnotated options'.isNumbered
          (RenderedSample.annotated ⟨shown', contentType'⟩) :=
            congrArg₂ linesOfAnnotated hnumbered hsame
      _ = shown' := linesOfAnnotated_displayOf content' selector' options' contentType'

/-- Texts that look like a gutter with a number, displayed with such a gutter in two ways. -/
theorem display_reads_back_of_gutters :
    let options : RenderOptions := { numbering := .original, marked := .ofList [1] }
    let options' : RenderOptions := { numbering := .sequential 1, marked := .ofList [1] }
    let shown := displayOf "> 1: a\r\n: 2\n" none options
    let shown' := displayOf "> 1: a\n: 2\nb" (some "1-2") options'
    shown ≠ [] ∧
      (joinRendered shown).toList.splitOn '\n' = shown.map (fun line => line.text.toList) ∧
      options.isNumbered = options'.isNumbered ∧
      RenderedSample.write ⟨shown, none⟩ .annotated = "  1: > 1: a\n> 2: : 2" ∧
      shown = shown' := by
  intro options options' shown shown'
  have hshown : shown ≠ [] := by decide
  have hwritten : RenderedSample.write ⟨shown, none⟩ .annotated = "  1: > 1: a\n> 2: : 2" := by
    decide
  have hwritten' : RenderedSample.write ⟨shown', some "x"⟩ .annotated =
      "  1: > 1: a\n> 2: : 2" := by decide
  obtain ⟨htext, hannotated⟩ := display_reads_back
  obtain ⟨-, hsplit, -⟩ := htext "> 1: a\r\n: 2\n" none options
  exact ⟨hshown, hsplit hshown, rfl, hwritten,
    hannotated _ _ _ _ options options' none (some "x") rfl (hwritten.trans hwritten'.symm)⟩

end Excerpt
