import Excerpt.Proofs.Source.Numbered
import Excerpt.Proofs.Text.Lines

/-!
# Layouts of a file

A file is a sequence of texts, each followed by a line feed with or without a carriage return
before it, and perhaps one more text at the end that nothing follows. Every file has such a layout.
Reading the file gives just these texts, so that it does not matter which terminators they have.
-/

namespace Excerpt

inductive Terminator where
  | feed
  | returnFeed
deriving DecidableEq, Repr

namespace Terminator

def chars : Terminator → List Char
  | feed => ['\n']
  | returnFeed => ['\r', '\n']

end Terminator

/-- A text that ends in a carriage return is not followed by a line feed alone, to which that
carriage return would belong. -/
structure TerminatedLine where
  text : List Char
  terminator : Terminator
  no_feed : '\n' ∉ text
  no_return : terminator = .feed → text.getLast? ≠ some '\r'

structure UnterminatedLine where
  text : List Char
  no_feed : '\n' ∉ text
  ne_nil : text ≠ []

structure Layout where
  terminated : List TerminatedLine
  last : Option UnterminatedLine

namespace TerminatedLine

def chars (line : TerminatedLine) : List Char := line.text ++ line.terminator.chars

/-- What stands before a line feed, with its terminator. -/
theorem exists_chars_eq {t : List Char} (h : '\n' ∉ t) :
    ∃ line : TerminatedLine, line.chars = t ++ ['\n'] := by
  by_cases hlast : t.getLast? = some '\r'
  · obtain ⟨text, rfl⟩ := List.getLast?_eq_some_iff.1 hlast
    have hfeed : '\n' ∉ text := fun hmem => h (List.mem_append_left _ hmem)
    exact ⟨⟨text, .returnFeed, hfeed, nofun⟩, by simp [chars, Terminator.chars]⟩
  · exact ⟨⟨t, .feed, h, fun _ => hlast⟩, rfl⟩

theorem lines_chars_append (line : TerminatedLine) (rest : List Char) :
    Text.lines (line.chars ++ rest) = line.text :: Text.lines rest := by
  obtain ⟨text, terminator, hfeed, hreturn⟩ := line
  cases terminator with
  | feed =>
    have hchars : (⟨text, .feed, hfeed, hreturn⟩ : TerminatedLine).chars ++ rest =
        text ++ '\n' :: rest := by simp [chars, Terminator.chars]
    rw [hchars, Text.lines_append_feed hfeed, Text.withoutReturn_eq_self (hreturn rfl)]
  | returnFeed =>
    have hchars : (⟨text, .returnFeed, hfeed, hreturn⟩ : TerminatedLine).chars ++ rest =
        (text ++ ['\r']) ++ '\n' :: rest := by simp [chars, Terminator.chars]
    have hfeed' : '\n' ∉ text ++ ['\r'] := by simp [hfeed]
    rw [hchars, Text.lines_append_feed hfeed']
    simp [Text.withoutReturn]

end TerminatedLine

namespace Layout

def chars (layout : Layout) : List Char :=
  layout.terminated.flatMap TerminatedLine.chars ++ (layout.last.map UnterminatedLine.text).getD []

def content (layout : Layout) : String := String.ofList layout.chars

def texts (layout : Layout) : List (List Char) :=
  layout.terminated.map TerminatedLine.text ++ (layout.last.map UnterminatedLine.text).toList

theorem chars_cons (line : TerminatedLine) (terminated : List TerminatedLine)
    (last : Option UnterminatedLine) :
    chars ⟨line :: terminated, last⟩ = line.chars ++ chars ⟨terminated, last⟩ := by
  simp [chars]

theorem texts_cons (line : TerminatedLine) (terminated : List TerminatedLine)
    (last : Option UnterminatedLine) :
    texts ⟨line :: terminated, last⟩ = line.text :: texts ⟨terminated, last⟩ := rfl

theorem no_feed_of_mem_texts {layout : Layout} {t : List Char} (h : t ∈ layout.texts) :
    '\n' ∉ t := by
  rcases List.mem_append.1 h with h | h
  · obtain ⟨line, -, rfl⟩ := List.mem_map.1 h
    exact line.no_feed
  · obtain ⟨line, -, rfl⟩ := Option.map_eq_some_iff.1 (Option.mem_toList.1 h)
    exact line.no_feed

/-- The last line is there only if it is not empty, so that no line follows the last
terminator. -/
theorem lines_chars_of_last (last : Option UnterminatedLine) :
    Text.lines (chars ⟨[], last⟩) = texts ⟨[], last⟩ := by
  cases last with
  | none => rfl
  | some line =>
    obtain ⟨text, hfeed, hne⟩ := line
    obtain ⟨c, t, rfl⟩ := List.exists_cons_of_ne_nil hne
    have hsplit : (c :: t).splitOn '\n' = [c :: t] := List.splitOn_eq_singleton hfeed
    simp [chars, texts, Text.lines, hsplit, Text.lastLine]

theorem lines_chars (layout : Layout) : Text.lines layout.chars = layout.texts := by
  obtain ⟨terminated, last⟩ := layout
  induction terminated with
  | nil => exact lines_chars_of_last last
  | cons line terminated ih => rw [chars_cons, line.lines_chars_append, ih, texts_cons]

/-- The induction is over a text, with what stands before it on its first line. -/
theorem exists_chars_eq_append (t : List Char) {front : List Char} (h : '\n' ∉ front) :
    ∃ layout : Layout, layout.chars = front ++ t := by
  induction t generalizing front with
  | nil =>
    cases front with
    | nil => exact ⟨⟨[], none⟩, rfl⟩
    | cons c front => exact ⟨⟨[], some ⟨c :: front, h, by simp⟩⟩, by simp [chars]⟩
  | cons c t ih =>
    by_cases hc : c = '\n'
    · subst hc
      obtain ⟨line, hline⟩ := TerminatedLine.exists_chars_eq h
      obtain ⟨⟨terminated, last⟩, hrest⟩ := ih List.not_mem_nil
      refine ⟨⟨line :: terminated, last⟩, ?_⟩
      rw [chars_cons, hline, hrest]
      simp
    · have hfront : '\n' ∉ front ++ [c] := by simp [h, Ne.symm hc]
      obtain ⟨layout, hlayout⟩ := ih hfront
      exact ⟨layout, by rw [hlayout, List.append_assoc]; rfl⟩

theorem exists_content_eq (content : String) : ∃ layout : Layout, layout.content = content := by
  obtain ⟨layout, hlayout⟩ := exists_chars_eq_append content.toList List.not_mem_nil
  exact ⟨layout, by rw [Layout.content, hlayout, List.nil_append, String.ofList_toList]⟩

theorem classified_content (layout : Layout) : Source.classified layout.content =
    layout.texts.map fun t => (t, Delimiter.ofText? t) := by
  rw [Source.classified, content, String.toList_ofList, lines_chars]

end Layout

namespace Source

/-- What does not hang on the number of a line is known before lines are numbered. -/
theorem map_numbered {α : Type} (f : Line → α) (g : List Char × Option Delimiter → α)
    (h : ∀ text d number, f ⟨number, String.ofList text, LineKind.ofDelimiter d⟩ = g (text, d))
    (lines : List (List Char × Option Delimiter)) : (numbered lines).map f = lines.map g := by
  calc (numbered lines).map f = (lines.zipIdx.map Prod.fst).map g := by
        rw [numbered, List.map_map, List.map_map]
        exact List.map_congr_left fun entry _ => h _ _ _
    _ = lines.map g := by rw [List.zipIdx_map_fst]

theorem map_text_lines (content : String) : (ofContent content).lines.map Line.text =
    (classified content).map fun line => String.ofList line.1 :=
  map_numbered _ _ (fun _ _ _ => rfl) _

theorem map_number_lines (content : String) : (ofContent content).lines.map Line.number =
    List.range' 1 (ofContent content).lines.length := (numberedFrom_lines content).map_number

theorem map_kind_lines (content : String) : (ofContent content).lines.map Line.kind =
    (classified content).map fun line => LineKind.ofDelimiter line.2 :=
  map_numbered _ _ (fun _ _ _ => rfl) _

end Source

theorem Layout.map_text_lines (layout : Layout) :
    (Source.ofContent layout.content).lines.map Line.text = layout.texts.map String.ofList := by
  rw [Source.map_text_lines, layout.classified_content, List.map_map]
  rfl

theorem Source.no_feed_of_mem_lines {content : String} {line : Line}
    (h : line ∈ (ofContent content).lines) : '\n' ∉ line.text.toList := by
  obtain ⟨layout, rfl⟩ := Layout.exists_content_eq content
  have htext : line.text ∈ layout.texts.map String.ofList := by
    rw [← layout.map_text_lines]
    exact List.mem_map_of_mem h
  obtain ⟨t, ht, he⟩ := List.mem_map.1 htext
  rw [← he, String.toList_ofList]
  exact Layout.no_feed_of_mem_texts ht

/-- A file is read as the texts that it was laid out from, in their order, numbered from one and
each classified by itself. Every file has a layout, and two layouts are read as the same lines and
regions just when they have the same texts, whatever their terminators. -/
theorem Layout.ofContent_content :
    (∀ layout : Layout,
      (Source.ofContent layout.content).lines.map Line.text = layout.texts.map String.ofList ∧
      (Source.ofContent layout.content).lines.map Line.number =
        List.range' 1 layout.texts.length ∧
      (Source.ofContent layout.content).lines.map Line.kind =
        (layout.texts.map fun t => LineKind.ofDelimiter (Delimiter.ofText? t)) ∧
      ∀ other : Layout, Source.ofContent other.content = Source.ofContent layout.content ↔
        other.texts = layout.texts) ∧
    ∀ content, ∃ layout : Layout, layout.content = content := by
  refine ⟨fun layout => ⟨layout.map_text_lines, ?_, ?_, fun other => ⟨fun h => ?_, fun h => ?_⟩⟩,
    exists_content_eq⟩
  · have hlength := congrArg List.length layout.map_text_lines
    rw [List.length_map, List.length_map] at hlength
    rw [Source.map_number_lines, hlength]
  · rw [Source.map_kind_lines, layout.classified_content, List.map_map]
    rfl
  · have hmap : other.texts.map String.ofList = layout.texts.map String.ofList := by
      rw [← other.map_text_lines, ← layout.map_text_lines, h]
    exact (List.map_inj_right fun _ _ => String.ofList_inj.1).1 hmap
  · simp only [Source.ofContent, classified_content, h]

/-- Only the carriage return just before a line feed belongs to the terminator. -/
example : (Source.ofContent "a\r\r\n\r\n\rb\r").lines.map Line.text = ["a\r", "", "\rb\r"] := by
  decide

end Excerpt
