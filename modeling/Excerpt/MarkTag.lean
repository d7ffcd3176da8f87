import Excerpt.Text.Blank
import Excerpt.Text.Literal

/-!
# Mark tags

A line asks to be highlighted by a comment that holds only `mark-sample`. A line comment
has to end the line, while a block comment may stand anywhere. The first tag is removed,
together with the blanks before it and, where nothing else follows, those after it.
-/

namespace Excerpt.MarkTag

open Text

def word : List Char := "mark-sample".toList

/-- What follows an opening, blanks and the word. -/
def afterWord? (opening t : List Char) : Option (List Char) :=
  (after? opening t).bind fun rest => after? word (trimLeft rest)

/-- A tag up to the end of the line. -/
def lineTag? (opening t : List Char) : Option (List Char) :=
  (afterWord? opening t).bind fun rest => if allBlank rest then some [] else none

/-- A tag between an opening and a closing; blanks that end the line belong to it. -/
def blockTag? (opening closing t : List Char) : Option (List Char) :=
  (afterWord? opening t).bind fun rest =>
    (after? closing (trimLeft rest)).map fun rest => if allBlank rest then [] else rest

/-- What is left behind a tag at the front. -/
def atFront? (t : List Char) : Option (List Char) :=
  (lineTag? ['/', '/'] t).or <|
    (lineTag? ['#'] t).or <|
      (blockTag? ['/', '*'] ['*', '/'] t).or <|
        blockTag? ['<', '!', '-', '-'] ['-', '-', '>'] t

/-- The text without its first tag, if it has one. -/
def strip? : List Char → Option (List Char)
  | [] => none
  | c :: t =>
    match atFront? (trimLeft (c :: t)) with
    | some rest => some rest
    | none => (strip? t).map (c :: ·)

@[simp] theorem strip?_nil : strip? [] = none := rfl

end Excerpt.MarkTag

namespace Excerpt

def stripMarkTag? (text : String) : Option String :=
  (MarkTag.strip? text.toList).map String.ofList

end Excerpt
