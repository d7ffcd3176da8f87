import Excerpt.Selector

/-!
# Sets of offsets

A set of offsets is kept as the spans that were put into it, so that a selector may name
huge ranges. Spans may overlap and repeat, but none is empty. Two sets with the same
members are used alike.
-/

namespace Excerpt

/-- The offsets from `first` up to, but not including, `stop`. -/
structure Span where
  first : Nat
  stop : Nat
  first_lt_stop : first < stop
deriving DecidableEq, Repr

namespace Span

def contains (span : Span) (offset : Nat) : Bool := span.first ≤ offset && offset < span.stop

def toList (span : Span) : List Nat := List.range' span.first (span.stop - span.first)

theorem contains_first (span : Span) : span.contains span.first = true := by
  simp [contains, span.first_lt_stop]

end Span

structure OffsetSet where
  spans : List Span := []
deriving DecidableEq, Repr

namespace OffsetSet

def empty : OffsetSet := {}

/-- Puts in the offsets from `first` up to `stop`, of which there may be none. -/
def insertRange (set : OffsetSet) (first stop : Nat) : OffsetSet :=
  if h : first < stop then ⟨set.spans ++ [⟨first, stop, h⟩]⟩ else set

def contains (set : OffsetSet) (offset : Nat) : Bool := set.spans.any (·.contains offset)

def isEmpty (set : OffsetSet) : Bool := set.spans.isEmpty

/-- Keeps an ascending list ascending and free of repetition. -/
def insertAscending (offset : Nat) : List Nat → List Nat
  | [] => [offset]
  | a :: offsets =>
    if offset < a then offset :: a :: offsets
    else if offset = a then a :: offsets
    else a :: insertAscending offset offsets

/-- The members in ascending order. -/
def toList (set : OffsetSet) : List Nat :=
  (set.spans.flatMap Span.toList).foldr insertAscending []

def ofList (offsets : List Nat) : OffsetSet :=
  offsets.foldl (fun set offset => set.insertRange offset (Offset.add offset 1)) empty

/-- The offsets of the lines that the numbers and ranges of a selector name. -/
def ofSelector (selector : String) : OffsetSet :=
  ((selectorItems selector).filterMap Item.bounds?).foldl
    (fun set bounds => set.insertRange bounds.1 bounds.2) empty

@[simp] theorem contains_empty (offset : Nat) : empty.contains offset = false := rfl

theorem contains_insertRange (set : OffsetSet) (first stop offset : Nat) :
    (set.insertRange first stop).contains offset =
      (set.contains offset || (first ≤ offset && offset < stop)) := by
  by_cases h : first < stop
  · simp [insertRange, h, contains, Span.contains]
  · have hn : (decide (first ≤ offset) && decide (offset < stop)) = false := by
      simp only [Bool.and_eq_false_iff, decide_eq_false_iff_not]
      omega
    simp [insertRange, h, hn]

end OffsetSet

end Excerpt
