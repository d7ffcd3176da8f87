import Excerpt.Proofs.Rendering.Independence
import Excerpt.Proofs.Rendering.LeftmostTag
import Mathlib.Data.List.Forall2

/-!
# Tags that are displayed

One tag is removed from a line, and a line may carry several. After the removal a tag is left in
three ways: another one stands behind, a line comment now ends the line, or the two parts of the
text join to a tag that neither of them was. In no other way is a tag displayed, and a line that
displays one is marked.
-/

namespace Excerpt

namespace MarkTag

open Text

variable {c : Char} {t pre tag post before after front : List Char} {k : Nat}

/-- How the text of the given parts still carries a tag, when the first one stood between them. -/
inductive Remains : List Char → List Char → Prop
  | another {before after : List Char} (h : Occurs after) : Remains before after
  | uncovered {front opening b : List Char} (ho : opening ∈ lineOpenings) (hb : allBlank b = true) :
      Remains (front ++ (opening ++ (b ++ word))) []
  | joined {front left right back : List Char} (hleft : left ≠ []) (hright : right ≠ [])
      (h : IsTag (left ++ right) back) : Remains (front ++ left) (right ++ back)

/-- A text carries a tag even when its first one is removed. -/
def KeepsTag (t : List Char) : Prop :=
  ∃ pre tag post, CutAtFirst t pre tag post ∧ Remains (trimRight pre) (behind post)

theorem Occurs.append (h : Occurs t) (front : List Char) : Occurs (front ++ t) := by
  obtain ⟨before, tagged, rfl, hleads⟩ := h
  exact ⟨front ++ before, tagged, by simp, hleads⟩

theorem Remains.occurs (h : Remains before after) : Occurs (before ++ after) := by
  cases h with
  | another h => exact h.append before
  | uncovered ho hb =>
    have htag : IsTag _ [] := .line ho hb allBlank_nil
    rw [List.append_assoc]
    exact Occurs.append ⟨[], _, rfl, htag.leads⟩ _
  | joined hleft hright h =>
    have hleads := h.leads
    rw [List.append_assoc] at hleads ⊢
    exact Occurs.append ⟨[], _, rfl, hleads⟩ _

/-! ## Where a tag is left -/

/-- Only a line comment is kept from being a tag by what follows it. -/
theorem IsTag.line_or_block (h : IsTag tag post) :
    (∃ opening b, opening ∈ lineOpenings ∧ allBlank b = true ∧ tag = opening ++ (b ++ word) ∧
      allBlank post = true) ∨ ∀ after, IsTag tag after := by
  cases h with
  | line ho hb hpost => exact .inl ⟨_, _, ho, hb, rfl, hpost⟩
  | block he hb hb' => exact .inr (.block he hb hb')

theorem IsTag.ne_nil (h : IsTag tag post) : tag ≠ [] := by
  have hword : word ≠ [] := by decide
  cases h <;> simp [hword]

theorem behind_eq_nil (h : allBlank (behind post) = true) : behind post = [] := by
  unfold behind at h ⊢
  split at h
  · rename_i hpost
    exact if_pos hpost
  · contradiction

/-- A block comment is a tag whatever follows, so none stands before the first tag. -/
theorem CutAtFirst.no_block {tag' right : List Char} (h : CutAtFirst t pre tag post)
    (hpre : trimRight pre = front ++ (tag' ++ right)) : ¬ ∀ after, IsTag tag' after := by
  intro htag'
  obtain ⟨b, -, hb⟩ := exists_blanks_behind pre
  have hcut : CutAt t front tag' (right ++ (b ++ (tag ++ post))) :=
    ⟨by rw [h.parts, hb, hpre]; simp, htag' _⟩
  have hlength := h.first _ _ _ hcut
  have hpos : 0 < tag'.length := List.length_pos_iff.2 (htag' []).ne_nil
  rw [hb, hpre] at hlength
  simp only [List.length_append] at hlength
  omega

/-- A tag that ends before the place of the removed one is a line comment at the end. -/
theorem CutAtFirst.remains_of_left {tag' right : List Char} (h : CutAtFirst t pre tag post)
    (hpre : trimRight pre = front ++ (tag' ++ right)) (htag' : IsTag tag' (right ++ behind post)) :
    Remains (trimRight pre) (behind post) := by
  rcases htag'.line_or_block with ⟨opening, b, ho, hb, rfl, hblank⟩ | hblock
  · obtain ⟨hright, hbehind⟩ : allBlank right = true ∧ allBlank (behind post) = true := by
      simpa [allBlank_append] using hblank
    rw [← List.append_assoc] at hpre
    obtain rfl := eq_nil_of_trimRight_eq_append hright hpre
    rw [hpre, List.append_nil, behind_eq_nil hbehind]
    exact .uncovered ho hb
  · exact absurd hblock (h.no_block hpre)

/-- The tag lies in the second part, in the first one or in both. -/
theorem CutAtFirst.occurs_iff (h : CutAtFirst t pre tag post) :
    Occurs (trimRight pre ++ behind post) ↔ Remains (trimRight pre) (behind post) := by
  refine ⟨fun ⟨front, tagged, hparts, hleads⟩ => ?_, Remains.occurs⟩
  obtain ⟨tag', post', rfl, htag'⟩ := leads_iff.1 hleads
  rcases List.append_eq_append_iff.1 hparts with ⟨a, -, hbehind⟩ | ⟨left, hpre, hrest⟩
  · exact .another ⟨a, _, hbehind, hleads⟩
  rcases List.append_eq_append_iff.1 hrest with ⟨right, rfl, rfl⟩ | ⟨right, rfl, hbehind⟩
  · exact h.remains_of_left hpre htag'
  by_cases hleft : left = []
  · subst hleft
    exact .another ⟨[], _, hbehind, htag'.leads⟩
  by_cases hright : right = []
  · subst hright
    have hpre' : trimRight pre = front ++ (left ++ []) := by rw [hpre, List.append_nil]
    refine h.remains_of_left hpre' ?_
    rw [hbehind]
    simpa using htag'
  · rw [hpre, hbehind]
    exact .joined hleft hright htag'

theorem isSome_strip?_of_strip? {r : List Char} (h : strip? t = some r) :
    (strip? r).isSome = true ↔ KeepsTag t := by
  obtain ⟨pre, tag, post, hcut⟩ := exists_cutAtFirst (isSome_strip?_iff.1 (by rw [h]; rfl))
  obtain rfl := Option.some.inj (h.symm.trans hcut.strip?_eq)
  rw [isSome_strip?_iff, hcut.occurs_iff]
  constructor
  · exact fun hremains => ⟨pre, tag, post, hcut, hremains⟩
  · rintro ⟨pre', tag', post', hcut', hremains⟩
    obtain ⟨rfl, -, rfl⟩ := hcut.unique hcut'
    exact hremains

/-! ## Blanks at the front -/

theorem CutAtFirst.cons_blank (hc : isBlank c = true) (h : CutAtFirst t pre tag post) :
    CutAtFirst (c :: t) (c :: pre) tag post := by
  refine ⟨⟨by rw [h.parts, List.cons_append], h.isTag⟩, ?_⟩
  rintro (_ | ⟨d, pre'⟩) tag' post' ⟨hparts, htag'⟩
  · have hleads : Leads (c :: t) := by
      rw [hparts]
      exact htag'.leads
    exact absurd hleads (not_leads_cons hc t)
  · have hlength := h.first pre' tag' post' ⟨(List.cons.inj hparts).2, htag'⟩
    simpa using hlength

theorem keepsTag_cons_blank (c : Char) (t : List Char) (hc : isBlank c = true) :
    KeepsTag (c :: t) ↔ KeepsTag t := by
  have hleft {pre tag post : List Char} (h : CutAtFirst t pre tag post) :
      Remains (trimRight (c :: pre)) (behind post) ↔ Remains (trimRight pre) (behind post) := by
    rw [← (h.cons_blank hc).occurs_iff, ← h.occurs_iff, trimRight_cons]
    cases hpre : allBlank (c :: pre) with
    | true =>
      have hblank : allBlank pre = true := by simpa [hc] using hpre
      rw [trimRight_eq_nil_iff.2 hblank]
      rfl
    | false => exact occurs_cons_blank c _ hc
  constructor
  · rintro ⟨pre, tag, post, hcut, hremains⟩
    have hoccurs : Occurs (c :: t) := occurs_iff_exists_cutAt.2 ⟨pre, tag, post, hcut.toCutAt⟩
    obtain ⟨pre', tag', post', hcut'⟩ := exists_cutAtFirst ((occurs_cons_blank c t hc).1 hoccurs)
    obtain ⟨rfl, rfl, rfl⟩ := hcut.unique (hcut'.cons_blank hc)
    exact ⟨pre', tag, post, hcut', (hleft hcut').1 hremains⟩
  · rintro ⟨pre, tag, post, hcut, hremains⟩
    exact ⟨c :: pre, tag, post, hcut.cons_blank hc, (hleft hcut).2 hremains⟩

theorem keepsTag_drop_iff (h : ∀ c ∈ t.take k, isBlank c = true) :
    KeepsTag (t.drop k) ↔ KeepsTag t := drop_blanks_iff keepsTag_cons_blank h

end MarkTag

/-! ## Displays -/

theorem isSome_stripMarkTag?_of_strip {text stripped : String}
    (h : stripMarkTag? text = some stripped) :
    (stripMarkTag? stripped).isSome = true ↔ MarkTag.KeepsTag text.toList := by
  obtain ⟨r, hr, rfl⟩ := Option.map_eq_some_iff.1 h
  rw [← MarkTag.isSome_strip?_of_strip? hr, stripMarkTag?, Option.isSome_map, String.toList_ofList]

theorem isSome_stripMarkTag?_displayText (options : RenderOptions) {lines : List Line}
    {line : Line} (hl : line ∈ lines) :
    (stripMarkTag? (displayText (options.indentation lines) line)).isSome = true ↔
      MarkTag.KeepsTag line.text.toList := by
  have hblank := fun c hc => isBlank_of_mem_take (c := c) options hl hc
  rw [← MarkTag.keepsTag_drop_iff hblank]
  cases h : stripMarkTag? (dropChars (options.indentation lines) line.text) with
  | some stripped =>
    have hkeeps := isSome_stripMarkTag?_of_strip h
    rw [dropChars, String.toList_ofList] at hkeeps
    rw [displayText, h, Option.getD_some, hkeeps]
  | none =>
    rw [displayText, h, Option.getD_none, h]
    refine iff_of_false Bool.false_ne_true ?_
    rintro ⟨pre, tag, post, hcut, -⟩
    have hoccurs := MarkTag.occurs_iff_exists_cutAt.2 ⟨pre, tag, post, hcut.toCutAt⟩
    rw [MarkTag.occurs_drop_iff hblank, ← isSome_stripMarkTag?_iff options hl, h] at hoccurs
    cases hoccurs

namespace Sample

/-- A line displays a tag only if one was removed from it. -/
theorem marked_renderLine_of_tag (options : RenderOptions) (indentation width j i : Nat)
    (line : Line)
    (h : (stripMarkTag? (renderLine options indentation width j line i).text).isSome = true) :
    (renderLine options indentation width j line i).marked = true := by
  rw [text_renderLine] at h
  cases hstrip : stripMarkTag? (dropChars indentation line.text) with
  | some stripped => simp [renderLine, hstrip]
  | none =>
    rw [hstrip, Option.getD_none, hstrip] at h
    cases h

/-- Every line kept is displayed at its place. -/
theorem forall₂_render (sample : Sample) (options : RenderOptions) {R : Line → RenderedLine → Prop}
    (h : let kept := sample.linesAt (sample.keptOffsets options)
      ∀ line ∈ kept, ∀ width j i,
        R line (renderLine options (options.indentation kept) width j line i)) :
    List.Forall₂ R (sample.linesAt (sample.keptOffsets options)) (sample.render options) := by
  rw [← map_fst_survivors] at h ⊢
  have hkept : (sample.survivors options).map Prod.fst =
      (sample.survivors options).zipIdx.map fun entry => entry.1.1 := by
    conv_lhs => rw [← List.zipIdx_map_fst 0 (sample.survivors options)]
    rw [List.map_map]
    rfl
  rw [render]
  conv => arg 2; rw [hkept]
  rw [List.forall₂_map_left_iff, List.forall₂_map_right_iff]
  refine List.forall₂_same.2 fun entry hentry => h _ ?_ _ _ _
  exact List.mem_map_of_mem (List.fst_mem_of_mem_zipIdx hentry)

end Sample

/-- Another tag stands behind the first one, whether the text is stripped by itself or displayed as
a line of a file. -/
theorem tag_displayed :
    let text := "a /* mark-sample */ /* mark-sample */ b"
    stripMarkTag? text = some "a /* mark-sample */ b" ∧
      stripMarkTag? "a /* mark-sample */ b" = some "a b" ∧
      ((Sample.ofSelector (Source.ofContent text) none).render {}).map RenderedLine.text =
        ["a /* mark-sample */ b"] := by
  decide

/-- A text that a tag was removed from carries a tag just when it keeps one, and so does the text
that is displayed for a line. A line that displays a tag is marked. -/
theorem displayed_tag_iff (text : String) (sample : Sample) (options : RenderOptions) :
    (∀ stripped, stripMarkTag? text = some stripped →
      ((stripMarkTag? stripped).isSome = true ↔ MarkTag.KeepsTag text.toList)) ∧
    List.Forall₂ (fun line shown =>
        ((stripMarkTag? shown.text).isSome = true ↔ MarkTag.KeepsTag line.text.toList) ∧
        ((stripMarkTag? shown.text).isSome = true → shown.marked = true))
      (sample.linesAt (sample.keptOffsets options)) (sample.render options) := by
  refine ⟨fun stripped => isSome_stripMarkTag?_of_strip, ?_⟩
  refine sample.forall₂_render options fun line hl width j i => ⟨?_, ?_⟩
  · rw [Sample.text_renderLine]
    exact isSome_stripMarkTag?_displayText options hl
  · exact Sample.marked_renderLine_of_tag options _ _ _ _ _

/-- Another tag behind the first one, a line comment that comes to end its line, two parts that
join, and a tag with no other. -/
theorem displayed_tag_iff_of_remaining :
    let another := "a /* mark-sample */ /* mark-sample */ b"
    let uncovered := "a //mark-sample <!-- mark-sample --> "
    let joined := "/* mark-/* mark-sample */sample */"
    let single := "/ a # mark-sample"
    (stripMarkTag? another = some "a /* mark-sample */ b" ∧ MarkTag.KeepsTag another.toList) ∧
    (stripMarkTag? uncovered = some "a //mark-sample" ∧ MarkTag.KeepsTag uncovered.toList) ∧
    (stripMarkTag? joined = some "/* mark-sample */" ∧ MarkTag.KeepsTag joined.toList) ∧
    stripMarkTag? single = some "/ a" ∧ ¬ MarkTag.KeepsTag single.toList := by
  intro another uncovered joined single
  have hstrip (text stripped : String) (h : stripMarkTag? text = some stripped) :
      (stripMarkTag? stripped).isSome = true ↔ MarkTag.KeepsTag text.toList :=
    (displayed_tag_iff text (Sample.ofSelector (Source.ofContent text) none) {}).1 stripped h
  have hanother : stripMarkTag? another = some "a /* mark-sample */ b" := by decide
  have huncovered : stripMarkTag? uncovered = some "a //mark-sample" := by decide
  have hjoined : stripMarkTag? joined = some "/* mark-sample */" := by decide
  have hsingle : stripMarkTag? single = some "/ a" := by decide
  have hbare : stripMarkTag? "/ a" = none := by decide
  refine ⟨⟨hanother, (hstrip _ _ hanother).1 (by decide)⟩,
    ⟨huncovered, (hstrip _ _ huncovered).1 (by decide)⟩,
    ⟨hjoined, (hstrip _ _ hjoined).1 (by decide)⟩, hsingle, fun hkeeps => ?_⟩
  have htag := (hstrip _ _ hsingle).2 hkeeps
  rw [hbare] at htag
  cases htag

end Excerpt
