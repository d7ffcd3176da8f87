import Excerpt.Proofs.Rendering.Indentation

/-!
# Offsets in a display

The offsets to skip and to mark count the lines of the sample, those included that are not
displayed. The lines displayed are those at the offsets kept, in their order, and the flag of
each depends on its own text and offset alone. So what else is dropped has no say in it.
-/

namespace Excerpt

namespace Sample

def keepsAt (sample : Sample) (options : RenderOptions) (offset : Nat) : Bool :=
  !options.skip.contains offset &&
    !(options.skipDelimiters && (sample.lines[offset]?).any Line.isDelimiter)

/-- The offsets of the lines to display, in ascending order. -/
def keptOffsets (sample : Sample) (options : RenderOptions) : List Nat :=
  (List.range sample.lines.length).filter (sample.keepsAt options)

def linesAt (sample : Sample) (offsets : List Nat) : List Line :=
  offsets.filterMap fun offset => sample.lines[offset]?

section

variable {sample : Sample} {options : RenderOptions} {line : Line} {lines : List Line}
  {shown : RenderedLine} {i j : Nat}

/-! ## The lines that survive -/

theorem keeps_eq_keepsAt (h : sample.lines[i]? = some line) :
    options.keeps line i = sample.keepsAt options i := by
  simp [RenderOptions.keeps, keepsAt, h, Bool.and_comm]

theorem map_snd_survivors (sample : Sample) (options : RenderOptions) :
    (sample.survivors options).map Prod.snd = sample.keptOffsets options := by
  have hkeeps : sample.survivors options =
      sample.lines.zipIdx.filter (sample.keepsAt options ∘ Prod.snd) :=
    List.filter_congr fun entry hentry => keeps_eq_keepsAt (List.mem_zipIdx_iff_getElem?.1 hentry)
  rw [hkeeps, ← List.filter_map, List.zipIdx_map_snd, ← List.range_eq_range', keptOffsets]

theorem getElem?_of_mem_survivors {entry : Line × Nat} (h : entry ∈ sample.survivors options) :
    sample.lines[entry.2]? = some entry.1 :=
  List.mem_zipIdx_iff_getElem?.1 (List.mem_filter.1 h).1

theorem map_fst_survivors (sample : Sample) (options : RenderOptions) :
    (sample.survivors options).map Prod.fst = sample.linesAt (sample.keptOffsets options) := by
  rw [← map_snd_survivors, linesAt, List.filterMap_map]
  exact (List.filterMap_eq_map_iff_forall_eq_some.2 fun entry => getElem?_of_mem_survivors).symm

theorem length_survivors (sample : Sample) (options : RenderOptions) :
    (sample.survivors options).length = (sample.keptOffsets options).length := by
  rw [← map_snd_survivors, List.length_map]

theorem getElem?_survivors (h : (sample.keptOffsets options)[j]? = some i) :
    ∃ line, sample.lines[i]? = some line ∧ (sample.survivors options)[j]? = some (line, i) := by
  rw [← map_snd_survivors, List.getElem?_map, Option.map_eq_some_iff] at h
  obtain ⟨⟨line, i⟩, hentry, rfl⟩ := h
  exact ⟨line, getElem?_of_mem_survivors (List.mem_of_getElem? hentry), hentry⟩

/-! ## The lines of a display -/

theorem text_renderLine (options : RenderOptions) (indentation width : Nat) :
    (renderLine options indentation width j line i).text =
      (stripMarkTag? (dropChars indentation line.text)).getD (dropChars indentation line.text) := by
  cases h : stripMarkTag? (dropChars indentation line.text) <;> simp [renderLine, h]

theorem number_renderLine (options : RenderOptions) (indentation width : Nat) :
    (renderLine options indentation width j line i).number =
      (options.numbering.value? j line.number).map (numberText width) := by
  cases h : stripMarkTag? (dropChars indentation line.text) <;> simp [renderLine, h]

theorem marked_renderLine (options : RenderOptions) (hl : line ∈ lines) (width : Nat) :
    (renderLine options (options.indentation lines) width j line i).marked = true ↔
      MarkTag.Occurs line.text.toList ∨ options.marked.contains i = true := by
  rw [← isSome_stripMarkTag?_iff options hl]
  cases h : stripMarkTag? (dropChars (options.indentation lines) line.text) <;>
    simp [renderLine, h]

theorem length_render (sample : Sample) (options : RenderOptions) :
    (sample.render options).length = (sample.keptOffsets options).length := by
  simp [render, length_survivors]

theorem getElem?_render (h : (sample.keptOffsets options)[j]? = some i) :
    ∃ line, sample.lines[i]? = some line ∧ line ∈ sample.linesAt (sample.keptOffsets options) ∧
      (sample.render options)[j]? = some (renderLine options
        (options.indentation (sample.linesAt (sample.keptOffsets options)))
        (options.numbering.width (sample.keptOffsets options).length sample.fileLineCount)
        j line i) := by
  obtain ⟨line, hline, hentry⟩ := getElem?_survivors h
  have hmem : line ∈ (sample.survivors options).map Prod.fst :=
    List.mem_map_of_mem (List.mem_of_getElem? hentry)
  rw [map_fst_survivors] at hmem
  refine ⟨line, hline, hmem, ?_⟩
  simp [render, hentry, map_fst_survivors, length_survivors]

/-- The line displayed for the one at a kept offset is marked for a tag in its own text, or for
its own offset. -/
theorem marked_render_iff (h : (sample.keptOffsets options)[j]? = some i)
    (hline : sample.lines[i]? = some line) (hshown : (sample.render options)[j]? = some shown) :
    shown.marked = true ↔
      MarkTag.Occurs line.text.toList ∨ options.marked.contains i = true := by
  obtain ⟨line', hline', hmem, hshown'⟩ := getElem?_render h
  obtain rfl := Option.some.inj (hline.symm.trans hline')
  obtain rfl := Option.some.inj (hshown.symm.trans hshown')
  exact marked_renderLine options hmem _

end

/-- A display has one line for each kept offset, made from the line there and marked by its text
or that offset. Options that keep other lines leave every mark of a line that both keep. -/
theorem render_keptOffsets (sample : Sample) (options : RenderOptions) :
    let kept := sample.keptOffsets options
    let indentation := options.indentation (sample.linesAt kept)
    let width := options.numbering.width kept.length sample.fileLineCount
    (sample.render options).length = kept.length ∧
    (∀ j i : Nat, kept[j]? = some i → ∃ line shown,
      sample.lines[i]? = some line ∧ (sample.render options)[j]? = some shown ∧
      shown.number = (options.numbering.value? j line.number).map (numberText width) ∧
      shown.text = (stripMarkTag? (dropChars indentation line.text)).getD
        (dropChars indentation line.text) ∧
      (shown.marked = true ↔
        MarkTag.Occurs line.text.toList ∨ options.marked.contains i = true)) ∧
    (∀ (skip : OffsetSet) (skipDelimiters : Bool) (j j' i : Nat),
      let other := { options with skip := skip, skipDelimiters := skipDelimiters }
      kept[j]? = some i → (sample.keptOffsets other)[j']? = some i →
      ∃ shown shown', (sample.render options)[j]? = some shown ∧
        (sample.render other)[j']? = some shown' ∧ shown.marked = shown'.marked) ∧
    (sample.render options = [] ↔ kept = []) := by
  intro kept indentation width
  refine ⟨length_render sample options, fun j i h => ?_, fun skip skipDelimiters j j' i => ?_, ?_⟩
  · obtain ⟨line, hline, -, hshown⟩ := getElem?_render h
    exact ⟨line, _, hline, hshown, number_renderLine options indentation width,
      text_renderLine options indentation width, marked_render_iff h hline hshown⟩
  · intro other h h'
    obtain ⟨line, hline, -, hshown⟩ := getElem?_render h
    obtain ⟨line', hline', -, hshown'⟩ := getElem?_render h'
    obtain rfl := Option.some.inj (hline.symm.trans hline')
    have hflag := marked_render_iff h hline hshown
    have hflag' := marked_render_iff h' hline hshown'
    exact ⟨_, _, hshown, hshown', Bool.eq_iff_iff.2 (hflag.trans hflag'.symm)⟩
  · rw [← List.length_eq_zero_iff, length_render, List.length_eq_zero_iff]

/-- A tag on one line and the offset of another, with a delimiter and an offset dropped between. -/
theorem render_keptOffsets_of_tagged :
    let content := "#sample(a)\n  b #mark-sample\n c\n#end-sample\nd"
    let sample := ofSelector (Source.ofContent content) none
    let options : RenderOptions :=
      { removeIndentation := true, marked := .ofList [3, 4], skipDelimiters := true,
        skip := .ofList [2] }
    let other := { options with skip := .empty, skipDelimiters := false }
    (sample.keptOffsets options)[0]? = some 1 ∧ (sample.keptOffsets other)[1]? = some 1 ∧
      (sample.keptOffsets options)[1]? = some 4 ∧ (sample.render options).length = 2 ∧
      (∃ line shown, sample.lines[4]? = some line ∧ (sample.render options)[1]? = some shown ∧
        (shown.marked = true ↔
          MarkTag.Occurs line.text.toList ∨ options.marked.contains 4 = true)) ∧
      ∃ shown shown', (sample.render options)[0]? = some shown ∧
        (sample.render other)[1]? = some shown' ∧ shown.marked = shown'.marked := by
  intro content sample options other
  have hkept : sample.keptOffsets options = [1, 4] := by decide
  have hother : sample.keptOffsets other = [0, 1, 2, 3, 4] := by decide
  obtain ⟨hlength, hlines, hagree, -⟩ := render_keptOffsets sample options
  obtain ⟨line, shown, hline, hshown, -, -, hmarked⟩ := hlines 1 4 (by rw [hkept]; rfl)
  refine ⟨by rw [hkept]; rfl, by rw [hother]; rfl, by rw [hkept]; rfl, by rw [hlength, hkept]; rfl,
    ⟨line, shown, hline, hshown, hmarked⟩, ?_⟩
  exact hagree .empty false 0 1 1 (by rw [hkept]; rfl) (by rw [hother]; rfl)

end Sample

end Excerpt
