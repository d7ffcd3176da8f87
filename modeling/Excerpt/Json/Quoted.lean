/-!
# Quoted texts

Between its quotes a text is written as it is, apart from quotes, backslashes and control
characters. Those have an escape of two characters where the format knows one, and
otherwise their code point in four hexadecimal digits.
-/

namespace Excerpt.Json

/-- The letter of a two-character escape. -/
def shortEscape? (c : Char) : Option Char :=
  if c = '"' then some '"'
  else if c = '\\' then some '\\'
  else if c.toNat = 8 then some 'b'
  else if c.toNat = 9 then some 't'
  else if c.toNat = 10 then some 'n'
  else if c.toNat = 12 then some 'f'
  else if c.toNat = 13 then some 'r'
  else none

def hexDigit (n : Nat) : Char := Nat.digitChar (n % 16)

/-- One character between the quotes. -/
def escape (c : Char) : List Char :=
  match shortEscape? c with
  | some letter => ['\\', letter]
  | none =>
    if c.toNat < 0x20 then ['\\', 'u', '0', '0', hexDigit (c.toNat / 16), hexDigit c.toNat]
    else [c]

def quoted (t : List Char) : List Char := '"' :: t.flatMap escape ++ ['"']

@[simp] theorem quoted_nil : quoted [] = ['"', '"'] := rfl

end Excerpt.Json
