import Excerpt.Proofs.Rendering.Offsets

/-!
# Each option decides its own part of a display

Which lines are displayed hangs on what is dropped and on nothing else. Of those lines, the texts
hang on the removal of indentation, the numbers on the numbering and the flags on the offsets
marked. Of a set of offsets only its members count, and of them only those within the sample.
-/

namespace Excerpt

/-- The text displayed for a line, without its first characters and without a mark tag. -/
def displayText (indentation : Nat) (line : Line) : String :=
  let text := dropChars indentation line.text
  (stripMarkTag? text).getD text

/-- Removing indentation makes no tag appear or disappear. -/
theorem isSome_stripMarkTag?_dropChars (options : RenderOptions) {lines : List Line} {line : Line}
    (hl : line ∈ lines) :
    (stripMarkTag? (dropChars (options.indentation lines) line.text)).isSome =
      (stripMarkTag? line.text).isSome := by
  have hraw : (stripMarkTag? line.text).isSome = true ↔ MarkTag.Occurs line.text.toList := by
    rw [← MarkTag.isSome_strip?_iff, stripMarkTag?, Option.isSome_map]
  exact Bool.eq_iff_iff.2 ((isSome_stripMarkTag?_iff options hl).trans hraw.symm)

namespace Sample

variable {sample : Sample} {options options' : RenderOptions}

/-- Two options drop the same lines of a sample. -/
structure SameDropped (sample : Sample) (options options' : RenderOptions) : Prop where
  delimiters : options.skipDelimiters = options'.skipDelimiters
  skip : ∀ i < sample.lines.length, options.skip.contains i = options'.skip.contains i

theorem SameDropped.survivors_eq (h : sample.SameDropped options options') :
    sample.survivors options = sample.survivors options' := by
  refine List.filter_congr fun entry hentry => ?_
  obtain ⟨line, i⟩ := entry
  have hi : i < sample.lines.length := List.snd_lt_of_mem_zipIdx hentry
  simp only [RenderOptions.keeps, h.delimiters, h.skip i hi]

/-! ## The three columns of a display -/

theorem map_text_render (sample : Sample) (options : RenderOptions) :
    let kept := (sample.survivors options).map Prod.fst
    (sample.render options).map RenderedLine.text =
      kept.map (displayText (options.indentation kept)) := by
  intro kept
  have hkept : kept = ((sample.survivors options).zipIdx.map Prod.fst).map Prod.fst := by
    rw [List.zipIdx_map_fst]
  rw [render, List.map_map, hkept, List.map_map, List.map_map, ← hkept]
  exact List.map_congr_left fun entry _ => text_renderLine options _ _

theorem map_number_render (sample : Sample) (options : RenderOptions) :
    let kept := sample.survivors options
    let width := options.numbering.width kept.length sample.fileLineCount
    (sample.render options).map RenderedLine.number =
      kept.zipIdx.map fun ((line, _), position) =>
        (options.numbering.value? position line.number).map (numberText width) := by
  intro kept width
  rw [render, List.map_map]
  exact List.map_congr_left fun entry _ => number_renderLine options _ _

theorem map_marked_render (sample : Sample) (options : RenderOptions) :
    (sample.render options).map RenderedLine.marked =
      (sample.survivors options).map fun (line, offset) =>
        (stripMarkTag? line.text).isSome || options.marked.contains offset := by
  have hkept : sample.survivors options = (sample.survivors options).zipIdx.map Prod.fst := by
    rw [List.zipIdx_map_fst]
  conv_rhs => rw [hkept]
  rw [render, List.map_map, List.map_map]
  refine List.map_congr_left fun entry hentry => ?_
  have hline : entry.1.1 ∈ (sample.survivors options).map Prod.fst :=
    List.mem_map_of_mem (List.fst_mem_of_mem_zipIdx hentry)
  have htag := isSome_stripMarkTag?_dropChars options hline
  change (renderLine options _ _ entry.2 entry.1.1 entry.1.2).marked =
    ((stripMarkTag? entry.1.1.text).isSome || options.marked.contains entry.1.2)
  rw [← htag]
  cases h : stripMarkTag? (dropChars (options.indentation
    ((sample.survivors options).map Prod.fst)) entry.1.1.text) <;> simp [renderLine, h]

theorem lt_length_of_mem_survivors {entry : Line × Nat} (h : entry ∈ sample.survivors options) :
    entry.2 < sample.lines.length :=
  (List.getElem?_eq_some_iff.1 (getElem?_of_mem_survivors h)).1

/-! ## Two displays of one sample -/

namespace SameDropped

theorem texts_eq (h : sample.SameDropped options options')
    (hi : options.removeIndentation = options'.removeIndentation) :
    (sample.render options).map RenderedLine.text =
      (sample.render options').map RenderedLine.text := by
  have hindent : options.indentation = options'.indentation := by
    funext lines
    simp only [RenderOptions.indentation, hi]
  simp only [map_text_render, h.survivors_eq, hindent]

theorem numbers_eq (h : sample.SameDropped options options')
    (hn : options.numbering = options'.numbering) :
    (sample.render options).map RenderedLine.number =
      (sample.render options').map RenderedLine.number := by
  simp only [map_number_render, h.survivors_eq, hn]

theorem flags_eq (h : sample.SameDropped options options')
    (hm : ∀ i < sample.lines.length, options.marked.contains i = options'.marked.contains i) :
    (sample.render options).map RenderedLine.marked =
      (sample.render options').map RenderedLine.marked := by
  rw [map_marked_render, map_marked_render, h.survivors_eq]
  refine List.map_congr_left fun entry hentry => ?_
  simp only [hm entry.2 (lt_length_of_mem_survivors hentry)]

end SameDropped

end Sample

/-- A display is known by its three columns. -/
theorem RenderedLine.ext_columns {lines lines' : List RenderedLine}
    (hn : lines.map number = lines'.map number) (hm : lines.map marked = lines'.map marked)
    (ht : lines.map text = lines'.map text) : lines = lines' := by
  induction lines generalizing lines' with
  | nil => simpa using ht.symm
  | cons line lines ih =>
    cases lines' with
    | nil => simp at ht
    | cons line' lines' =>
      obtain ⟨number, marked, text⟩ := line
      obtain ⟨number', marked', text'⟩ := line'
      simp only [List.map_cons, List.cons.injEq] at hn hm ht
      obtain ⟨rfl, hn⟩ := hn
      obtain ⟨rfl, hm⟩ := hm
      obtain ⟨rfl, ht⟩ := ht
      rw [ih hn hm ht]

namespace Sample

/-- Two options that drop the same lines display equally many. Their texts agree if both or neither
remove indentation, their numbers if they number alike, and their flags if they mark the same
offsets, whatever else differs. Whether a line carries a tag is the same with its indentation and
without, and all that is ever asked of a set of offsets is its members. -/
theorem render_independent (sample : Sample) (options options' : RenderOptions)
    (h : sample.SameDropped options options') :
    let shown := sample.render options
    let shown' := sample.render options'
    let kept := sample.linesAt (sample.keptOffsets options)
    let sameMarked := ∀ i < sample.lines.length,
      options.marked.contains i = options'.marked.contains i
    shown.length = shown'.length ∧
    (options.removeIndentation = options'.removeIndentation →
      shown.map RenderedLine.text = shown'.map RenderedLine.text) ∧
    (options.numbering = options'.numbering →
      shown.map RenderedLine.number = shown'.map RenderedLine.number) ∧
    (sameMarked → shown.map RenderedLine.marked = shown'.map RenderedLine.marked) ∧
    (∀ line ∈ kept, (stripMarkTag? (dropChars (options.indentation kept) line.text)).isSome =
      (stripMarkTag? line.text).isSome) ∧
    (options.removeIndentation = options'.removeIndentation →
      options.numbering = options'.numbering → sameMarked → shown = shown') := by
  intro shown shown' kept sameMarked
  have hlength : shown.length = shown'.length := by
    simp only [shown, shown', length_render, ← length_survivors, h.survivors_eq]
  refine ⟨hlength, h.texts_eq, h.numbers_eq, h.flags_eq, ?_, ?_⟩
  · intro line hline
    exact isSome_stripMarkTag?_dropChars options hline
  · intro hi hn hm
    exact RenderedLine.ext_columns (h.numbers_eq hn) (h.flags_eq hm) (h.texts_eq hi)

/-- A tag behind indentation, and sets of offsets written as one range and as several. -/
theorem render_independent_of_ranges :
    let sample := ofSelector (Source.ofContent "  a #mark-sample\n    b\n#sample(x)\n  c\n  d") none
    let options : RenderOptions :=
      { removeIndentation := true, numbering := .original, marked := .ofSelector "2-4",
        skipDelimiters := true, skip := .ofSelector "5" }
    let rewritten : RenderOptions :=
      { options with marked := .ofSelector "4,2-3", skip := .ofSelector "5,5,9" }
    let other : RenderOptions :=
      { rewritten with removeIndentation := false, numbering := .sequential 7 }
    sample.SameDropped options rewritten ∧ sample.SameDropped options other ∧
      sample.render options = sample.render rewritten ∧
      (sample.render options).length = (sample.render other).length ∧
      (sample.render options).map RenderedLine.marked =
        (sample.render other).map RenderedLine.marked := by
  intro sample options rewritten other
  have hskip : ∀ i < sample.lines.length,
      options.skip.contains i = rewritten.skip.contains i := by decide
  have hmarked : ∀ i < sample.lines.length,
      options.marked.contains i = rewritten.marked.contains i := by decide
  have hrewritten : sample.SameDropped options rewritten := ⟨rfl, hskip⟩
  have hother : sample.SameDropped options other := ⟨rfl, hskip⟩
  obtain ⟨-, -, -, -, -, hsame⟩ := render_independent sample options rewritten hrewritten
  obtain ⟨hlength, -, -, hflags, -⟩ := render_independent sample options other hother
  exact ⟨hrewritten, hother, hsame rfl rfl hmarked, hlength, hflags hmarked⟩

end Sample

end Excerpt
