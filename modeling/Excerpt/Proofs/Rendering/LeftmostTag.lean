import Excerpt.Proofs.Rendering.MarkTags

/-!
# The leftmost tag and what is left without it

A text with a tag is cut into what stands before the tag, the tag and what stands behind it. Among
all these cuts there is one at the tag that begins first. The search removes this tag, the blanks
before it and, where nothing else follows, those behind it. All other characters stay as they are.
-/

namespace Excerpt

namespace MarkTag

open Text

variable {t u o w b b' rest pre tag post : List Char}

/-- A comment that is a tag where the given text follows it. -/
inductive IsTag : List Char → List Char → Prop
  | line {opening b post : List Char} (ho : opening ∈ lineOpenings) (hb : allBlank b = true)
      (hpost : allBlank post = true) : IsTag (opening ++ (b ++ word)) post
  | block {opening closing b b' : List Char} (he : (opening, closing) ∈ blockEnds)
      (hb : allBlank b = true) (hb' : allBlank b' = true) (post : List Char) :
      IsTag (opening ++ (b ++ (word ++ (b' ++ closing)))) post

/-- A text is cut before and behind one of its tags. -/
structure CutAt (t pre tag post : List Char) : Prop where
  parts : t = pre ++ (tag ++ post)
  isTag : IsTag tag post

/-- The tag of the cut is the one that begins first. -/
structure CutAtFirst (t pre tag post : List Char) : Prop extends CutAt t pre tag post where
  first : ∀ pre' tag' post', CutAt t pre' tag' post' → pre.length ≤ pre'.length

/-- What stays of a text behind a tag. -/
def behind (post : List Char) : List Char := if allBlank post then [] else post

theorem behind_of_blank (h : allBlank post = true) : behind post = [] := if_pos h

/-! ## Cuts at the front -/

theorem leads_iff : Leads t ↔ ∃ tag post, t = tag ++ post ∧ IsTag tag post := by
  constructor
  · rintro (⟨ho, before, after, hb, hafter, rfl⟩ | ⟨he, ⟨before, after, hb, hb', rfl⟩, rest⟩)
    · exact ⟨_, after, by simp, .line ho hb hafter⟩
    · exact ⟨_, rest, by simp, .block he hb hb' rest⟩
  · rintro ⟨tag, post, rfl, h⟩
    cases h with
    | line ho hb hpost =>
      simp only [List.append_assoc]
      exact .line ho ⟨_, _, hb, hpost, rfl⟩
    | block he hb hb' =>
      have hinside := Leads.block he ⟨_, _, hb, hb', rfl⟩ post
      simpa only [List.append_assoc] using hinside

theorem IsTag.leads (h : IsTag tag post) : Leads (tag ++ post) := leads_iff.2 ⟨tag, post, rfl, h⟩

theorem occurs_iff_exists_cutAt : Occurs t ↔ ∃ pre tag post, CutAt t pre tag post := by
  constructor
  · rintro ⟨pre, tagged, rfl, h⟩
    obtain ⟨tag, post, rfl, htag⟩ := leads_iff.1 h
    exact ⟨pre, tag, post, rfl, htag⟩
  · rintro ⟨pre, tag, post, rfl, htag⟩
    exact ⟨pre, tag ++ post, rfl, htag.leads⟩

theorem lineTag?_append (hb : allBlank b = true) (hpost : allBlank post = true) :
    lineTag? o (o ++ (b ++ (word ++ post))) = some (behind post) := by
  have hword : afterWord? o (o ++ (b ++ (word ++ post))) = some post :=
    afterWord?_eq_some_iff.2 ⟨b, hb, rfl⟩
  rw [lineTag?, hword, Option.bind_some, if_pos hpost, behind_of_blank hpost]

theorem blockTag?_append (hw : ∀ u, trimLeft (w ++ u) = w ++ u) (hb : allBlank b = true)
    (hb' : allBlank b' = true) (post : List Char) :
    blockTag? o w (o ++ (b ++ (word ++ (b' ++ (w ++ post))))) = some (behind post) := by
  have hword : afterWord? o (o ++ (b ++ (word ++ (b' ++ (w ++ post))))) =
      some (b' ++ (w ++ post)) := afterWord?_eq_some_iff.2 ⟨b, hb, rfl⟩
  have hclosed : after? w (trimLeft (b' ++ (w ++ post))) = some post :=
    (after?_trimLeft_eq_some_iff hw).2 ⟨b', hb', rfl⟩
  rw [blockTag?, hword, Option.bind_some, hclosed, Option.map_some, behind]

/-- No opening is the front of another, so that the dialects tried before the one of the tag do not
read it. -/
theorem atFront?_append (h : IsTag tag post) : atFront? (tag ++ post) = some (behind post) := by
  have hhash (u : List Char) : lineTag? ['/', '/'] (['#'] ++ u) = none := rfl
  have hstar (u : List Char) : lineTag? ['/', '/'] (['/', '*'] ++ u) = none ∧
      lineTag? ['#'] (['/', '*'] ++ u) = none := ⟨rfl, rfl⟩
  have hangle (u : List Char) : lineTag? ['/', '/'] (['<', '!', '-', '-'] ++ u) = none ∧
      lineTag? ['#'] (['<', '!', '-', '-'] ++ u) = none ∧
      blockTag? ['/', '*'] ['*', '/'] (['<', '!', '-', '-'] ++ u) = none := ⟨rfl, rfl, rfl⟩
  unfold atFront?
  cases h with
  | line ho hb hpost =>
    simp only [List.append_assoc]
    rcases List.mem_pair.1 ho with rfl | rfl
    · rw [lineTag?_append hb hpost, Option.some_or]
    · rw [hhash, lineTag?_append hb hpost, Option.none_or, Option.some_or]
  | block he hb hb' post =>
    simp only [List.append_assoc]
    rcases List.mem_pair.1 he with he | he <;> obtain ⟨rfl, rfl⟩ := Prod.mk.inj he
    · rw [(hstar _).1, (hstar _).2, blockTag?_append (fun _ => rfl) hb hb', Option.none_or,
        Option.none_or, Option.some_or]
    · rw [(hangle _).1, (hangle _).2.1, (hangle _).2.2, blockTag?_append (fun _ => rfl) hb hb',
        Option.none_or, Option.none_or, Option.none_or]

/-! ## The cut at the tag that begins first -/

theorem exists_cutAtFirst (h : Occurs t) : ∃ pre tag post, CutAtFirst t pre tag post := by
  induction t with
  | nil => exact absurd h not_occurs_nil
  | cons c t ih =>
    by_cases hleads : Leads (c :: t)
    · obtain ⟨tag, post, hparts, htag⟩ := leads_iff.1 hleads
      exact ⟨[], tag, post, ⟨hparts, htag⟩, fun _ _ _ _ => Nat.zero_le _⟩
    · obtain ⟨pre, tag, post, ⟨hparts, htag⟩, hfirst⟩ :=
        ih ((occurs_cons_iff.1 h).resolve_left hleads)
      refine ⟨c :: pre, tag, post, ⟨by rw [hparts, List.cons_append], htag⟩, ?_⟩
      rintro (_ | ⟨d, pre'⟩) tag' post' ⟨hparts', htag'⟩
      · rw [hparts'] at hleads
        exact absurd htag'.leads hleads
      · have hlength := hfirst pre' tag' post' ⟨(List.cons.inj hparts').2, htag'⟩
        simpa using hlength

/-- The induction is over what stands before the tag. Blanks just before it are passed over with
the tag, which is looked for behind them. -/
theorem strip?_append (hu : atFront? u = some rest)
    (hpre : ∀ front back, pre = front ++ back → back ≠ [] → ¬ Leads (back ++ u)) :
    strip? (pre ++ u) = some (trimRight pre ++ rest) := by
  have hleads : Leads u := isSome_atFront?_iff.1 (by rw [hu]; rfl)
  induction pre with
  | nil =>
    cases u with
    | nil => exact absurd hleads not_leads_nil
    | cons c u =>
      rw [List.nil_append, strip?_cons, hleads.trimLeft_eq, hu, Option.some_or]
      rfl
  | cons c pre ih =>
    rw [List.cons_append, strip?_cons, trimRight_cons, ← List.cons_append]
    cases hblank : allBlank (c :: pre) with
    | true =>
      rw [trimLeft_append_blanks hblank, hleads.trimLeft_eq, hu, Option.some_or]
      rfl
    | false =>
      obtain ⟨b, -, hsplit⟩ := exists_blanks (c :: pre)
      have hne : trimLeft (c :: pre) ≠ [] := by
        rw [Ne, trimLeft_eq_nil_iff, hblank]
        exact Bool.false_ne_true
      have hnone : atFront? (trimLeft (c :: pre) ++ u) = none := by
        rw [← Option.not_isSome_iff_eq_none, isSome_atFront?_iff]
        exact hpre b _ hsplit hne
      have hrest := ih fun front back hparts => hpre (c :: front) back (by rw [hparts]; rfl)
      rw [trimLeft_append hblank, hnone, Option.none_or, hrest]
      rfl

theorem CutAtFirst.strip?_eq (h : CutAtFirst t pre tag post) :
    strip? t = some (trimRight pre ++ behind post) := by
  obtain ⟨⟨rfl, htag⟩, hfirst⟩ := h
  refine strip?_append (atFront?_append htag) fun front back hparts hne hleads => ?_
  obtain ⟨tag', post', htagged, htag'⟩ := leads_iff.1 hleads
  have hlength := hfirst front tag' post' ⟨by rw [hparts, List.append_assoc, htagged], htag'⟩
  have hpos : 0 < back.length := List.length_pos_iff.2 hne
  rw [hparts, List.length_append] at hlength
  omega

/-- Where a tag begins can be tried place by place. -/
theorem CutAt.cutAtFirst (h : CutAt t pre tag post)
    (hnone : ∀ k < pre.length, atFront? (t.drop k) = none) : CutAtFirst t pre tag post := by
  refine ⟨h, fun pre' tag' post' h' => ?_⟩
  by_contra hlt
  have hleads : (atFront? (t.drop pre'.length)).isSome = true := by
    rw [h'.parts, List.drop_left]
    exact isSome_atFront?_iff.2 h'.isTag.leads
  rw [hnone _ (by omega)] at hleads
  cases hleads

/-! ## No other cut there -/

def openings : List (List Char) := lineOpenings ++ blockEnds.map Prod.fst

theorem opening_unique {o o' u u' : List Char} (ho : o ∈ openings) (ho' : o' ∈ openings)
    (h : o ++ u = o' ++ u') : o = o' := by
  have hfront : ∀ o ∈ openings, ∀ o' ∈ openings, o <+: o' → o = o' := by decide
  rcases List.prefix_or_prefix_of_prefix ⟨u, h⟩ ⟨u', rfl⟩ with hoo | hoo
  · exact hfront o ho o' ho' hoo
  · exact (hfront o' ho' o ho hoo).symm

theorem rest_unique {r r' : List Char} (hw : ∀ u, trimLeft (w ++ u) = w ++ u)
    (hb : allBlank b = true) (hb' : allBlank b' = true)
    (h : b ++ (w ++ r) = b' ++ (w ++ r')) : r = r' := by
  have hr : after? w (trimLeft (b ++ (w ++ r))) = some r :=
    (after?_trimLeft_eq_some_iff hw).2 ⟨b, hb, rfl⟩
  have hr' : after? w (trimLeft (b ++ (w ++ r))) = some r' :=
    (after?_trimLeft_eq_some_iff hw).2 ⟨b', hb', h⟩
  exact Option.some.inj (hr.symm.trans hr')

theorem post_unique {tag' post' : List Char} (h : IsTag tag post) (h' : IsTag tag' post')
    (heq : tag ++ post = tag' ++ post') : post = post' := by
  have hline : ∀ o ∈ lineOpenings, o ∈ openings := by decide
  have hblock : ∀ e ∈ blockEnds, e.1 ∈ openings := by decide
  have hkinds : ∀ o ∈ lineOpenings, ∀ e ∈ blockEnds, o ≠ e.1 := by decide
  have hends : ∀ e ∈ blockEnds, ∀ e' ∈ blockEnds, e.1 = e'.1 → e.2 = e'.2 := by decide
  have hclosing : ∀ e ∈ blockEnds, ∀ u, trimLeft (e.2 ++ u) = e.2 ++ u := by
    intro e he u
    rcases List.mem_pair.1 he with rfl | rfl <;> rfl
  cases h with
  | line ho hb hpost =>
    cases h' with
    | line ho' hb' hpost' =>
      simp only [List.append_assoc] at heq
      obtain rfl := opening_unique (hline _ ho) (hline _ ho') heq
      exact rest_unique trimLeft_word hb hb' (List.append_cancel_left heq)
    | block he' =>
      simp only [List.append_assoc] at heq
      exact absurd (opening_unique (hline _ ho) (hblock _ he') heq) (hkinds _ ho _ he')
  | block he hb hafter =>
    cases h' with
    | line ho' =>
      simp only [List.append_assoc] at heq
      exact absurd (opening_unique (hblock _ he) (hline _ ho') heq).symm (hkinds _ ho' _ he)
    | block he' hb' hafter' =>
      simp only [List.append_assoc] at heq
      obtain rfl := opening_unique (hblock _ he) (hblock _ he') heq
      obtain rfl := hends _ he _ he' rfl
      have hword := rest_unique trimLeft_word hb hb' (List.append_cancel_left heq)
      exact rest_unique (hclosing _ he) hafter hafter' hword

theorem CutAtFirst.unique {pre' tag' post' : List Char} (h : CutAtFirst t pre tag post)
    (h' : CutAtFirst t pre' tag' post') : pre = pre' ∧ tag = tag' ∧ post = post' := by
  have hlength : pre.length = pre'.length :=
    Nat.le_antisymm (h.first pre' tag' post' h'.toCutAt) (h'.first pre tag post h.toCutAt)
  obtain ⟨hpre, hrest⟩ := List.append_inj (h.parts.symm.trans h'.parts) hlength
  obtain rfl := post_unique h.isTag h'.isTag hrest
  exact ⟨hpre, List.append_cancel_right hrest, rfl⟩

/-- A text has a tag removed just when it can be cut at one. Then there is a single cut at the tag
that begins first, and what is left is the text before it less the blanks at its end, with the
text behind it, unless only blanks are left there. -/
theorem leftmost_removed (text : String) :
    ((stripMarkTag? text).isSome = true ↔ ∃ pre tag post, CutAt text.toList pre tag post) ∧
    ((∃ pre tag post, CutAt text.toList pre tag post) →
      ∃! cut : List Char × List Char × List Char,
        CutAtFirst text.toList cut.1 cut.2.1 cut.2.2) ∧
    ∀ pre tag post, CutAtFirst text.toList pre tag post → stripMarkTag? text =
      some (String.ofList (trimRight pre ++ if allBlank post then [] else post)) := by
  refine ⟨?_, fun h => ?_, fun pre tag post h => ?_⟩
  · rw [stripMarkTag?, Option.isSome_map, isSome_strip?_iff, occurs_iff_exists_cutAt]
  · obtain ⟨pre, tag, post, hcut⟩ := exists_cutAtFirst (occurs_iff_exists_cutAt.2 h)
    refine ⟨(pre, tag, post), hcut, fun cut hcut' => ?_⟩
    obtain ⟨hpre, htag, hpost⟩ := hcut'.unique hcut
    exact Prod.ext hpre (Prod.ext htag hpost)
  · rw [stripMarkTag?, h.strip?_eq, Option.map_some, behind]

/-- A lone opening and a line comment that does not end the line stand before the first tag. -/
theorem leftmost_removed_of_many :
    let text := "/* // a\t<!-- mark-sample -->  b # mark-sample "
    let pre := "/* // a\t".toList
    let tag := "<!-- mark-sample -->".toList
    let post := "  b # mark-sample ".toList
    CutAtFirst text.toList pre tag post ∧ (stripMarkTag? text).isSome = true ∧
      stripMarkTag? text = some "/* // a  b # mark-sample " := by
  intro text pre tag post
  have htag : IsTag tag post :=
    @IsTag.block ['<', '!', '-', '-'] ['-', '-', '>'] [' '] [' '] (by decide) rfl rfl post
  have hcut : CutAt text.toList pre tag post := ⟨by decide, htag⟩
  have hfirst : CutAtFirst text.toList pre tag post := hcut.cutAtFirst (by decide)
  obtain ⟨hsome, -, hleft⟩ := leftmost_removed text
  refine ⟨hfirst, hsome.2 ⟨pre, tag, post, hcut⟩, (hleft pre tag post hfirst).trans ?_⟩
  decide

end MarkTag

end Excerpt
