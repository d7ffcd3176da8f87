import Excerpt.Json.Basic
import Excerpt.Json.Quoted
import Excerpt.Text.Decimal

/-!
# Writing JSON

Every item of an array and every member of an object stands on a line of its own, two
spaces further in than the bracket that opened it. An empty array or object stays on one
line. A number is written in plain positional form.
-/

namespace Excerpt.Json

def newline (depth : Nat) : List Char := '\n' :: List.replicate (2 * depth) ' '

/-- The digits of a number with the point, if any, in its place. -/
def positional (digits places : Nat) : List Char :=
  if places = 0 then Text.decimal digits
  else
    let t := Text.decimal digits
    let padded := List.replicate (places + 1 - t.length) '0' ++ t
    padded.take (padded.length - places) ++ '.' :: padded.drop (padded.length - places)

def numberText : Int → Nat → List Char
  | .ofNat n, places => positional n places
  | .negSucc n, places => '-' :: positional (n + 1) places

mutual

/-- A value that is written `depth` levels inside the whole. -/
def pretty (depth : Nat) : Json → List Char
  | null => "null".toList
  | bool true => "true".toList
  | bool false => "false".toList
  | number digits places => numberText digits places
  | string text => quoted text.toList
  | array [] => ['[', ']']
  | array (item :: items) =>
    '[' :: newline (depth + 1) ++ pretty (depth + 1) item ++ prettyItems (depth + 1) items ++
      newline depth ++ [']']
  | object [] => ['\x7b', '\x7d']
  | object (m :: members) =>
    '\x7b' :: newline (depth + 1) ++ prettyMember (depth + 1) m ++
      prettyMembers (depth + 1) members ++ newline depth ++ ['\x7d']

def prettyItems (depth : Nat) : List Json → List Char
  | [] => []
  | item :: items => ',' :: newline depth ++ pretty depth item ++ prettyItems depth items

def prettyMember (depth : Nat) : String × Json → List Char
  | (name, value) => quoted name.toList ++ ':' :: ' ' :: pretty depth value

def prettyMembers (depth : Nat) : List (String × Json) → List Char
  | [] => []
  | m :: members => ',' :: newline depth ++ prettyMember depth m ++ prettyMembers depth members

end

def text (value : Json) : String := String.ofList (pretty 0 value)

end Excerpt.Json
