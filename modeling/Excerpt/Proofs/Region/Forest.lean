import Excerpt.Proofs.Region.Recording
import Excerpt.Proofs.Text.Lines

/-!
# Well-nested files

A file in which every region is closed within the region that it was opened in is a forest of
content lines and regions. Scanning it finds that forest again: the lines of a region are the
leaves below the nodes with its name. Whether a region is closed by name or not makes no
difference, since the region that is to be closed is always the one opened last.
-/

namespace Excerpt

open Text (LineText)

/-- The text of a line that is classified in a given way. -/
structure TextOf (d : Option Delimiter) extends LineText where
  classified : Delimiter.ofText? chars = d

/-- The text of a line that ends a region, with its name or without. -/
structure ClosingText (name : String) extends LineText where
  classified : Delimiter.ofText? chars = some (.endNamed name) ∨
    Delimiter.ofText? chars = some .endLast

/-- A forest is empty, or else begins with a leaf or with a region, which holds a forest. -/
inductive Forest where
  | nil
  | leaf (text : TextOf none) (rest : Forest)
  | region (name : String) (opening : TextOf (some (.start name))) (inside : Forest)
      (closing : ClosingText name) (rest : Forest)

/-- A content line of a forest, with its offset and the names of the regions around it. -/
structure Leaf where
  text : List Char
  offset : Nat
  ancestors : List String

def Leaf.line (leaf : Leaf) : Line := .content (leaf.offset + 1) (String.ofList leaf.text)

namespace Forest

/-- The lines of a forest in the order in which they are written. -/
def texts : Forest → List LineText
  | nil => []
  | leaf text rest => text.toLineText :: rest.texts
  | region _ opening inside closing rest =>
    opening.toLineText :: (inside.texts ++ closing.toLineText :: rest.texts)

def content (f : Forest) : String := String.ofList (Text.terminated f.texts)

/-- The leaves in order, from the names around the forest and the offset of its first line. -/
def leaves (ancestors : List String) : Nat → Forest → List Leaf
  | _, nil => []
  | start, leaf text rest => ⟨text.chars, start, ancestors⟩ :: leaves ancestors (start + 1) rest
  | start, region name _ inside _ rest => leaves (name :: ancestors) (start + 1) inside ++
      leaves ancestors (start + 1 + inside.texts.length + 1) rest

/-- The leaves with an ancestor of the given name. -/
def leavesUnder (name : String) (f : Forest) : List Leaf :=
  (f.leaves [] 0).filter fun leaf => name ∈ leaf.ancestors

def classified (f : Forest) : List (List Char × Option Delimiter) :=
  f.texts.map fun t => (t.chars, Delimiter.ofText? t.chars)

theorem classified_content (f : Forest) : Source.classified f.content = f.classified := by
  simp [Source.classified, content, classified, Text.lines_terminated]

theorem classified_leaf (text : TextOf none) (rest : Forest) :
    (leaf text rest).classified = (text.chars, none) :: rest.classified := by
  simp [classified, texts, text.classified]

theorem classified_region (name : String) (opening : TextOf (some (.start name)))
    (inside : Forest) (closing : ClosingText name) (rest : Forest) :
    (region name opening inside closing rest).classified =
      (opening.chars, some (.start name)) :: (inside.classified ++
        (closing.chars, Delimiter.ofText? closing.chars) :: rest.classified) := by
  simp [classified, texts, opening.classified]

theorem length_classified (f : Forest) : f.classified.length = f.texts.length :=
  List.length_map _

/-- Either way of closing takes the innermost region off. -/
theorem apply_closing {name : String} (closing : ClosingText name) (opened : List String) :
    ∃ d, Delimiter.ofText? closing.chars = some d ∧ d.apply (name :: opened) = opened := by
  rcases closing.classified with h | h
  · exact ⟨_, h, by simp⟩
  · exact ⟨_, h, rfl⟩

theorem openedAfter_classified (f : Forest) (opened : List String) :
    openedAfter opened f.classified = opened := by
  induction f generalizing opened with
  | nil => rfl
  | leaf text rest ih =>
    rw [classified_leaf]
    exact ih opened
  | region name opening inside closing rest ihInside ihRest =>
    obtain ⟨d, hd, happly⟩ := apply_closing closing opened
    rw [classified_region, hd]
    change openedAfter (name :: opened) _ = opened
    rw [openedAfter_append, ihInside]
    change openedAfter (d.apply (name :: opened)) _ = opened
    rw [happly, ihRest]

/-- The induction is over the forest with any regions open around it. They are the same again
after each of its trees, so that the ancestors of a leaf are the regions open at its line. -/
theorem covered_classified (f : Forest) (name : String) (opened : List String) (start : Nat) :
    covered name opened start f.classified =
      ((f.leaves opened start).filter fun leaf => name ∈ leaf.ancestors).map
        fun leaf => (leaf.text, leaf.offset) := by
  induction f generalizing opened start with
  | nil => rfl
  | leaf text rest ih =>
    rw [classified_leaf, leaves, covered, ih]
    by_cases hn : name ∈ opened <;> simp [hn]
  | region n opening inside closing rest ihInside ihRest =>
    obtain ⟨d, hd, happly⟩ := apply_closing closing opened
    rw [classified_region, hd, leaves, List.filter_append, List.map_append]
    change covered name (n :: opened) (start + 1) _ = _
    rw [covered_append, ihInside, openedAfter_classified, length_classified]
    change _ ++ covered name (d.apply (n :: opened)) (start + 1 + inside.texts.length + 1) _ = _
    rw [happly, ihRest]

/-! ## Other ends -/

/-- Two forests with the same lines in the same places, but for the ends of their regions. -/
inductive SameButEnds : Forest → Forest → Prop
  | nil : SameButEnds nil nil
  | leaf (text : TextOf none) {rest rest' : Forest} :
      SameButEnds rest rest' → SameButEnds (leaf text rest) (leaf text rest')
  | region (name : String) (opening : TextOf (some (.start name)))
      (closing closing' : ClosingText name) {inside inside' rest rest' : Forest} :
      SameButEnds inside inside' → SameButEnds rest rest' →
      SameButEnds (region name opening inside closing rest)
        (region name opening inside' closing' rest')

theorem SameButEnds.length_texts {f g : Forest} (h : SameButEnds f g) :
    f.texts.length = g.texts.length := by
  induction h with
  | nil => rfl
  | leaf text _ ih => simp [texts, ih]
  | region name opening closing closing' _ _ ihInside ihRest => simp [texts, ihInside, ihRest]

theorem SameButEnds.leaves {f g : Forest} (h : SameButEnds f g) (ancestors : List String)
    (start : Nat) : f.leaves ancestors start = g.leaves ancestors start := by
  induction h generalizing ancestors start with
  | nil => rfl
  | leaf text _ ih => rw [Forest.leaves, Forest.leaves, ih]
  | region name opening closing closing' hInside _ ihInside ihRest =>
    rw [Forest.leaves, Forest.leaves, ihInside, hInside.length_texts, ihRest]

theorem region_content (f : Forest) (name : String) :
    (Source.ofContent f.content).region name = (f.leavesUnder name).map Leaf.line := by
  rw [Source.region_ofContent, Source.coveredLines, classified_content, covered_classified,
    List.map_map]
  rfl

/-- A well-nested file is scanned to its forest: a region holds the leaves below the nodes with
its name, whichever way these are closed, and at the end of the file no region is open. -/
theorem scan_content (f : Forest) :
    (∀ name, (Source.ofContent f.content).region name = (f.leavesUnder name).map Leaf.line) ∧
    (Source.logged (Source.classified f.content)).opened = [] ∧
    ∀ g, SameButEnds f g → ∀ name,
      (Source.ofContent g.content).region name = (Source.ofContent f.content).region name := by
  refine ⟨f.region_content, ?_, fun g h name => ?_⟩
  · have hopened := RegionLog.opened_run {} 0 f.classified
    rw [f.openedAfter_classified] at hopened
    rw [classified_content]
    exact hopened
  · rw [region_content, region_content, leavesUnder, leavesUnder, h.leaves]

/-- A region within one of the same name, the inner one closed by name or the outer one. -/
theorem scan_content_of_nested :
    let opening : TextOf (some (.start "a")) :=
      ⟨⟨"// sample(a)".toList, by decide, by decide⟩, by decide⟩
    let named : ClosingText "a" := ⟨⟨"// end-sample(a)".toList, by decide, by decide⟩, by decide⟩
    let last : ClosingText "a" := ⟨⟨"// end-sample".toList, by decide, by decide⟩, by decide⟩
    let text : TextOf none := ⟨⟨"x".toList, by decide, by decide⟩, by decide⟩
    let f := region "a" opening (region "a" opening (leaf text nil) named nil) last nil
    let g := region "a" opening (region "a" opening (leaf text nil) last nil) named nil
    SameButEnds f g ∧ (Source.ofContent f.content).region "a" = [.content 3 "x"] ∧
      (Source.ofContent g.content).region "a" = [.content 3 "x"] := by
  intro opening named last text f g
  have hfg : SameButEnds f g :=
    .region "a" opening last named (.region "a" opening named last (.leaf text .nil) .nil) .nil
  obtain ⟨hregion, -, hsame⟩ := scan_content f
  have hleaves : (f.leavesUnder "a").map Leaf.line = [.content 3 "x"] := by decide
  have hf := (hregion "a").trans hleaves
  exact ⟨hfg, hf, (hsame g hfg "a").trans hf⟩

end Forest

end Excerpt
