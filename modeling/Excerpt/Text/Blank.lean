/-!
# Blank characters

A blank is a character with the Unicode property White_Space. Trimming removes the
blanks at the two ends of a text and keeps everything between them. A text is blank
when it holds nothing else.
-/

namespace Excerpt.Text

def isBlank (c : Char) : Bool :=
  let n := c.toNat
  (9 ≤ n && n ≤ 13) || n == 0x20 || n == 0x85 || n == 0xA0 || n == 0x1680 ||
    (0x2000 ≤ n && n ≤ 0x200A) || n == 0x2028 || n == 0x2029 || n == 0x202F ||
    n == 0x205F || n == 0x3000

def allBlank (t : List Char) : Bool := t.all isBlank

def trimLeft (t : List Char) : List Char := t.dropWhile isBlank

def trimRight (t : List Char) : List Char := (t.reverse.dropWhile isBlank).reverse

def trim (t : List Char) : List Char := trimRight (trimLeft t)

@[simp] theorem allBlank_nil : allBlank [] = true := rfl

@[simp] theorem allBlank_cons (c : Char) (t : List Char) :
    allBlank (c :: t) = (isBlank c && allBlank t) := rfl

@[simp] theorem trimLeft_nil : trimLeft [] = [] := rfl

theorem trimLeft_cons (c : Char) (t : List Char) :
    trimLeft (c :: t) = if isBlank c then trimLeft t else c :: t := by
  cases h : isBlank c <;> simp [trimLeft, h]

@[simp] theorem trimRight_nil : trimRight [] = [] := rfl

@[simp] theorem trim_nil : trim [] = [] := rfl

end Excerpt.Text
