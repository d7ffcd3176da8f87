import Excerpt.Proofs.Rendering.Independence

/-!
# How much indentation is removed

Indentation is made of spaces and tabs, while a line may be blank by other characters, and a blank
line may be shorter than what the others are indented by. What is removed is as much as all lines
share that are more than blanks, and no more: one of these begins with its text afterwards. It is
known from the lines displayed alone, and nothing is left of it to be removed again.
-/

namespace Excerpt

/-- A line without its first `k` characters, or without any if it has fewer. -/
def Line.dedent (k : Nat) (line : Line) : Line := { line with text := dropChars k line.text }

/-- Whether some lines are indented by `k` together. The lines that are more than blanks begin with
as many spaces and tabs, and one of them with no more. If there are none, nothing is indented. -/
structure SharedIndentation (lines : List Line) (k : Nat) : Prop where
  spaces : ∀ line ∈ lines, line.isBlank = false → ∃ front,
    line.text.toList = front ++ (line.dedent k).text.toList ∧ front.length = k ∧
      ∀ c ∈ front, Text.isSpace c = true
  blanks : ∀ line ∈ lines, line.isBlank = true → ∃ front,
    line.text.toList = front ++ (line.dedent k).text.toList ∧
      front.length = min k line.text.length
  flush : (∃ line ∈ lines, line.isBlank = false) → ∃ line ∈ lines, line.isBlank = false ∧
    ∃ c rest, (line.dedent k).text.toList = c :: rest ∧ Text.isSpace c = false
  zero : (∀ line ∈ lines, line.isBlank = true) → k = 0

variable {line : Line} {lines : List Line} {k k' : Nat}

theorem toList_text_dedent (k : Nat) (line : Line) :
    (line.dedent k).text.toList = line.text.toList.drop k := by
  simp [Line.dedent, dropChars]

theorem take_append_dedent (k : Nat) (line : Line) :
    line.text.toList.take k ++ (line.dedent k).text.toList = line.text.toList := by
  rw [toList_text_dedent, List.take_append_drop]

/-! ## The shortest indentation -/

/-- Behind the indentation of a line that is more than blanks its text begins. -/
theorem exists_drop_indentation_eq (h : line.isBlank = false) :
    ∃ c rest, line.text.toList.drop line.indentation = c :: rest ∧ Text.isSpace c = false := by
  have hdrop : line.text.toList.drop line.indentation =
      line.text.toList.dropWhile Text.isSpace := by
    conv_lhs => rw [← List.takeWhile_append_dropWhile (p := Text.isSpace) (l := line.text.toList)]
    exact List.drop_left
  rw [hdrop]
  have hhead := List.head?_dropWhile_not Text.isSpace line.text.toList
  cases hrest : line.text.toList.dropWhile Text.isSpace with
  | nil =>
    have hblank : line.isBlank = true := List.all_eq_true.2 fun c hc =>
      Text.isBlank_of_isSpace (List.dropWhile_eq_nil_iff.1 hrest c hc)
    rw [h] at hblank
    cases hblank
  | cons c rest =>
    rw [hrest] at hhead
    exact ⟨c, rest, rfl, hhead⟩

theorem exists_indentation_eq (h : ∃ line ∈ lines, line.isBlank = false) :
    ∃ line ∈ lines, line.isBlank = false ∧ line.indentation = commonIndentation lines := by
  obtain ⟨line, hl, hb⟩ := h
  have hmem := indentation_mem hl hb
  unfold commonIndentation
  cases hm : ((lines.filter fun line => !line.isBlank).map Line.indentation).min? with
  | none =>
    rw [List.min?_eq_none_iff.1 hm] at hmem
    cases hmem
  | some m =>
    obtain ⟨least, hleast, rfl⟩ := List.mem_map.1 (List.min?_eq_some_iff.1 hm).1
    obtain ⟨hl', hb'⟩ := List.mem_filter.1 hleast
    exact ⟨least, hl', by simpa using hb', rfl⟩

theorem commonIndentation_of_blank (h : ∀ line ∈ lines, line.isBlank = true) :
    commonIndentation lines = 0 := by
  have hnone : lines.filter (fun line => !line.isBlank) = [] :=
    List.filter_eq_nil_iff.2 fun line hl => by simp [h line hl]
  simp [commonIndentation, hnone]

theorem sharedIndentation (lines : List Line) :
    SharedIndentation lines (commonIndentation lines) := by
  refine ⟨fun line hl hb => ?_, fun line hl hb => ?_, fun h => ?_, commonIndentation_of_blank⟩
  · have hle := commonIndentation_le hl hb
    have hlength : line.indentation ≤ line.text.toList.length :=
      (List.takeWhile_prefix Text.isSpace).length_le
    exact ⟨_, (take_append_dedent _ line).symm, List.length_take_of_le (hle.trans hlength),
      fun c hc => isSpace_of_mem_take hle hc⟩
  · refine ⟨_, (take_append_dedent _ line).symm, ?_⟩
    rw [List.length_take, String.length_toList]
  · obtain ⟨line, hl, hb, he⟩ := exists_indentation_eq h
    refine ⟨line, hl, hb, ?_⟩
    rw [toList_text_dedent, ← he]
    exact exists_drop_indentation_eq hb

/-! ## No other indentation -/

namespace SharedIndentation

/-- No line can begin with its text behind `k` characters and with more spaces than these. -/
theorem le (h : SharedIndentation lines k) (h' : SharedIndentation lines k')
    (hl : ∃ line ∈ lines, line.isBlank = false) : k' ≤ k := by
  obtain ⟨line, hl, hb, c, rest, hrest, hc⟩ := h.flush hl
  obtain ⟨front, htext, hlength, hspaces⟩ := h'.spaces line hl hb
  by_contra hlt
  have hat : line.text.toList[k]? = some c := by
    rw [toList_text_dedent] at hrest
    have hhead := congrArg List.head? hrest
    rwa [List.head?_drop] at hhead
  rw [htext, List.getElem?_append_left (by omega)] at hat
  have hspace := hspaces c (List.mem_of_getElem? hat)
  rw [hc] at hspace
  cases hspace

theorem unique (h : SharedIndentation lines k) (h' : SharedIndentation lines k') : k' = k := by
  by_cases hl : ∃ line ∈ lines, line.isBlank = false
  · exact Nat.le_antisymm (h.le h' hl) (h'.le h hl)
  · have hblank : ∀ line ∈ lines, line.isBlank = true := by simpa using hl
    rw [h.zero hblank, h'.zero hblank]

theorem isBlank_dedent (h : SharedIndentation lines k) (hl : line ∈ lines) :
    (line.dedent k).isBlank = line.isBlank := by
  cases hb : line.isBlank with
  | true =>
    refine List.all_eq_true.2 fun c hc => ?_
    rw [toList_text_dedent] at hc
    exact List.all_eq_true.1 hb c (List.mem_of_mem_drop hc)
  | false =>
    obtain ⟨front, htext, -, hspaces⟩ := h.spaces line hl hb
    have hfront : Text.allBlank front = true :=
      List.all_eq_true.2 fun c hc => Text.isBlank_of_isSpace (hspaces c hc)
    have hall : line.isBlank = (Text.allBlank front && (line.dedent k).isBlank) := by
      rw [Line.isBlank, htext]
      exact List.all_append
    rw [hfront, Bool.true_and] at hall
    exact hall.symm.trans hb

theorem commonIndentation_dedent (h : SharedIndentation lines k) :
    commonIndentation (lines.map (Line.dedent k)) = 0 := by
  by_cases hl : ∃ line ∈ lines, line.isBlank = false
  · obtain ⟨line, hl, hb, c, rest, hrest, hc⟩ := h.flush hl
    have hnone : (line.dedent k).indentation = 0 := by simp [Line.indentation, hrest, hc]
    have hle := commonIndentation_le (List.mem_map_of_mem hl) ((h.isBlank_dedent hl).trans hb)
    rw [hnone] at hle
    exact Nat.eq_zero_of_le_zero hle
  · refine commonIndentation_of_blank fun line hline => ?_
    obtain ⟨line, hmem, rfl⟩ := List.mem_map.1 hline
    rw [h.isBlank_dedent hmem]
    simpa using fun hb => hl ⟨line, hmem, hb⟩

end SharedIndentation

namespace Sample

/-- What is displayed of the lines that survive, when indentation is removed. -/
theorem map_text_render_of_remove (sample : Sample) {options : RenderOptions}
    (h : options.removeIndentation = true) :
    let kept := sample.linesAt (sample.keptOffsets options)
    (sample.render options).map RenderedLine.text =
      kept.map (displayText (commonIndentation kept)) := by
  have htexts := map_text_render sample options
  rw [map_fst_survivors] at htexts
  simpa [RenderOptions.indentation, h] using htexts

/-- The lines displayed lose the indentation that they share, before anything else is done to their
texts. That is one number, which hangs on no line that is not displayed, and taking as much away
once leaves nothing to be taken again. -/
theorem render_dedented (sample : Sample) (options : RenderOptions)
    (h : options.removeIndentation = true) :
    let kept := sample.linesAt (sample.keptOffsets options)
    ∃ k, SharedIndentation kept k ∧ (∀ k', SharedIndentation kept k' → k' = k) ∧
      (sample.render options).map RenderedLine.text = kept.map (displayText k) ∧
      (∀ (other : Sample) (options' : RenderOptions), options'.removeIndentation = true →
        other.linesAt (other.keptOffsets options') = kept →
        (other.render options').map RenderedLine.text =
          (sample.render options).map RenderedLine.text) ∧
      options.indentation (kept.map (Line.dedent k)) = 0 := by
  intro kept
  have hshared := sharedIndentation kept
  refine ⟨commonIndentation kept, hshared, fun k' => hshared.unique,
    map_text_render_of_remove sample h, fun other options' h' hkept => ?_, ?_⟩
  · rw [map_text_render_of_remove other h', map_text_render_of_remove sample h, hkept]
  · rw [RenderOptions.indentation, if_pos h, hshared.commonIndentation_dedent]

/-- A tag behind the indentation, blank lines with one space and with another blank, and a line with
no indentation, which is skipped. -/
theorem render_dedented_of_blanks :
    let content := "\t   a //mark-sample\n \n\u00a0\nskipped\n\t  \tb"
    let sample := ofSelector (Source.ofContent content) none
    let options : RenderOptions := { removeIndentation := true, skip := .ofList [3] }
    let kept := sample.linesAt (sample.keptOffsets options)
    options.removeIndentation = true ∧ kept.map Line.number = [1, 2, 3, 5] ∧
      SharedIndentation kept 4 ∧
      (sample.render options).map RenderedLine.text = kept.map (displayText 4) ∧
      (sample.render options).map RenderedLine.text = ["a", "", "", "b"] ∧
      options.indentation (kept.map (Line.dedent 4)) = 0 := by
  intro content sample options kept
  have hnumbers : kept.map Line.number = [1, 2, 3, 5] := by decide
  obtain ⟨k, hshared, hunique, htexts, -, hagain⟩ := render_dedented sample options rfl
  have hfour : commonIndentation kept = 4 := by decide
  obtain rfl : 4 = k := hunique 4 (hfour ▸ sharedIndentation kept)
  exact ⟨rfl, hnumbers, hshared, htexts, by decide, hagain⟩

end Sample

end Excerpt
