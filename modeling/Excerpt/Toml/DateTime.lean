import Excerpt.Text.Literal
import Excerpt.Toml.Number
import Excerpt.Toml.Text

/-!
# Dates and times

A point in time is a date, a time of day, or both, and only both together may name a zone.
Every part has a fixed count of digits but for the fraction of a second, of which nine digits
count. The written form has a capital T between the two and no zero at the end of a fraction.
-/

namespace Excerpt.Toml

structure Date where
  year : Nat
  month : Nat
  day : Nat
deriving DecidableEq, Repr

/-- The second may be 60. -/
structure Time where
  hour : Nat
  minute : Nat
  second : Nat
  nanosecond : Nat
deriving DecidableEq, Repr

inductive Zone where
  | utc
  /-- The minutes that a clock is ahead of universal time, fewer than those of a day. -/
  | ahead (minutes : Int)
deriving DecidableEq, Repr

inductive DateTime where
  | date (date : Date)
  | time (time : Time)
  | moment (date : Date) (time : Time) (zone : Option Zone)
deriving DecidableEq, Repr

/-- A number of exactly `count` digits. -/
def digits (count : Nat) : Reader Nat := fun t =>
  if (t.take count).length = count then
    (Text.number? (t.take count)).map fun n => (n, t.drop count)
  else none

def pairAfter (separator : Char) : Reader Nat := fun t =>
  (Text.after? [separator] t).bind (digits 2)

def isLeap (year : Nat) : Bool := year % 4 == 0 && (year % 100 != 0 || year % 400 == 0)

def daysIn (year month : Nat) : Nat :=
  if month = 2 then if isLeap year then 29 else 28
  else if month ∈ [4, 6, 9, 11] then 30
  else 31

namespace Date

def isValid (date : Date) : Bool :=
  1 ≤ date.month && date.month ≤ 12 && 1 ≤ date.day && date.day ≤ daysIn date.year date.month

def read : Reader Date := fun t => do
  let (year, t) ← digits 4 t
  let (month, t) ← pairAfter '-' t
  let (day, t) ← pairAfter '-' t
  let date : Date := ⟨year, month, day⟩
  if date.isValid then some (date, t) else none

end Date

namespace Time

def isValid (time : Time) : Bool := time.hour ≤ 23 && time.minute ≤ 59 && time.second ≤ 60

/-- The fraction of a second in nanoseconds. Digits beyond the ninth do not matter. -/
def fraction : Reader Nat
  | '.' :: t => do
    let fraction ← Text.number? (t.takeWhile Char.isDigit)
    let count := (t.takeWhile Char.isDigit).length
    return (fraction * Nat.pow 10 9 / Nat.pow 10 count, t.dropWhile Char.isDigit)
  | t => some (0, t)

def read : Reader Time := fun t => do
  let (hour, t) ← digits 2 t
  let (minute, t) ← pairAfter ':' t
  let (second, t) ← pairAfter ':' t
  let (nanosecond, t) ← fraction t
  let time : Time := ⟨hour, minute, second, nanosecond⟩
  if time.isValid then some (time, t) else none

end Time

namespace Zone

/-- Hours and minutes after the sign, within the bounds of a time of day. -/
def distance : Reader Nat := fun t => do
  let (hours, t) ← digits 2 t
  let (minutes, t) ← pairAfter ':' t
  if hours ≤ 23 ∧ minutes ≤ 59 then some (hours * 60 + minutes, t) else none

def ofText? : List Char → Option (Option Zone)
  | [] => some none
  | ['Z'] => some (some .utc)
  | ['z'] => some (some .utc)
  | '+' :: t => do
    let (total, []) ← distance t | none
    return some (.ahead total)
  | '-' :: t => do
    let (total, []) ← distance t | none
    return some (.ahead (-total))
  | _ => none

end Zone

namespace DateTime

def isBetween (c : Char) : Bool := c == 'T' || c == 't' || c == ' '

def afterDate? (day : Date) : List Char → Option DateTime
  | [] => some (.date day)
  | c :: t => do
    guard (isBetween c)
    let (clock, t) ← Time.read t
    return .moment day clock (← Zone.ofText? t)

/-- A time of day shows by its first colon. -/
def ofText? (t : List Char) : Option DateTime :=
  if t[2]? = some ':' then do
    let (clock, []) ← Time.read t | none
    return .time clock
  else do
    let (day, t) ← Date.read t
    afterDate? day t

end DateTime

def Date.text (date : Date) : List Char :=
  padded 4 date.year ++ '-' :: padded 2 date.month ++ '-' :: padded 2 date.day

def Time.fractionText (time : Time) : List Char :=
  if time.nanosecond = 0 then []
  else '.' :: withoutLastZeros (padded 9 time.nanosecond)

def Time.text (time : Time) : List Char :=
  padded 2 time.hour ++ ':' :: padded 2 time.minute ++ ':' :: padded 2 time.second ++
    time.fractionText

def Zone.text : Zone → List Char
  | utc => ['Z']
  | ahead minutes =>
    (if minutes < 0 then '-' else '+') ::
      padded 2 (minutes.natAbs / 60) ++ ':' :: padded 2 (minutes.natAbs % 60)

def DateTime.text : DateTime → List Char
  | date d => d.text
  | time t => t.text
  | moment d t zone => d.text ++ 'T' :: t.text ++ (zone.map Zone.text).getD []

end Excerpt.Toml
