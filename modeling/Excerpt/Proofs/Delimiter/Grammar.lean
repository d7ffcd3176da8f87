import Excerpt.Delimiter
import Mathlib.Data.List.Permutation
import Mathlib.Data.List.TakeWhile

/-!
# The grammar of delimiter lines

A delimiter stands behind all leading characters of its line, as many as there are. What it is
hangs on the words there: a start or a named end holds a name between parentheses, and the word of
an end without a readable name is an end of the region opened last. A start never reads as an end,
so that of the three patterns only the two ends have to be tried in their order.
-/

namespace Excerpt

namespace Delimiter

variable {t word lead rest : List Char} {n n' : String}

/-- A name that can be read between parentheses. -/
structure IsName (n : String) : Prop where
  ne_nil : n.toList ≠ []
  chars : ∀ c ∈ n.toList, c ≠ ')' ∧ c ≠ '\r' ∧ c ≠ '\n'

/-- A text begins with a word, a name and a closing parenthesis. -/
def Names (word t : List Char) (n : String) : Prop :=
  IsName n ∧ ∃ rest, t = word ++ (n.toList ++ ')' :: rest)

/-- A text is cut behind the longest run of leading characters at its front. -/
structure LeadAt (t lead rest : List Char) : Prop where
  parts : t = lead ++ rest
  leading : ∀ c ∈ lead, isLead c = true
  longest : ∀ lead' rest', t = lead' ++ rest' → (∀ c ∈ lead', isLead c = true) →
    lead'.length ≤ lead.length

/-! ## Leading characters -/

theorem leadAt_takeWhile (t : List Char) : LeadAt t (t.takeWhile isLead) (t.dropWhile isLead) := by
  refine ⟨List.takeWhile_append_dropWhile.symm, fun c => List.mem_takeWhile_imp, ?_⟩
  rintro lead' rest' rfl hlead'
  rw [List.takeWhile_append_of_pos hlead', List.length_append]
  exact Nat.le_add_right _ _

theorem LeadAt.unique {lead' rest' : List Char} (h : LeadAt t lead rest)
    (h' : LeadAt t lead' rest') : lead = lead' ∧ rest = rest' := by
  have hlength : lead.length = lead'.length := Nat.le_antisymm
    (h'.longest lead rest h.parts h.leading) (h.longest lead' rest' h'.parts h'.leading)
  exact List.append_inj (h.parts.symm.trans h'.parts) hlength

theorem LeadAt.ofText?_eq (h : LeadAt t lead rest) : ofText? t = atFront? rest := by
  rw [ofText?, ((leadAt_takeWhile t).unique h).2]

theorem ofText?_append (hlead : ∀ c ∈ lead, isLead c = true) (t : List Char) :
    ofText? (lead ++ t) = ofText? t := by
  rw [ofText?, List.dropWhile_append_of_pos hlead, ofText?]

/-! ## Names -/

theorem isNameChar_iff {c : Char} : isNameChar c = true ↔ c ≠ ')' ∧ c ≠ '\r' ∧ c ≠ '\n' := by
  simp [isNameChar, and_assoc]

theorem nameAtFront?_append (h : IsName n) (rest : List Char) :
    nameAtFront? (n.toList ++ ')' :: rest) = some n := by
  have hchars : ∀ c ∈ n.toList, isNameChar c = true := fun c hc => isNameChar_iff.2 (h.chars c hc)
  have hparen : isNameChar ')' = false := by decide
  have htake : (n.toList ++ ')' :: rest).takeWhile isNameChar = n.toList := by
    rw [List.takeWhile_append_of_pos hchars, List.takeWhile_cons]
    simp [hparen]
  have hdrop : (n.toList ++ ')' :: rest).dropWhile isNameChar = ')' :: rest := by
    rw [List.dropWhile_append_of_pos hchars, List.dropWhile_cons]
    simp [hparen]
  obtain ⟨c, chars, hcons⟩ := List.exists_cons_of_ne_nil h.ne_nil
  have htake' := htake.trans hcons
  simp only [nameAtFront?, htake', hdrop]
  rw [← hcons, String.ofList_toList]

theorem nameAtFront?_eq_some_iff :
    nameAtFront? t = some n ↔ IsName n ∧ ∃ rest, t = n.toList ++ ')' :: rest := by
  refine ⟨fun h => ?_, fun ⟨hn, rest, ht⟩ => ht ▸ nameAtFront?_append hn rest⟩
  have happend := List.takeWhile_append_dropWhile (p := isNameChar) (l := t)
  unfold nameAtFront? at h
  dsimp only at h
  split at h
  · cases h
  · rename_i rest hdrop hne
    obtain rfl := Option.some.inj h
    rw [hdrop] at happend
    refine ⟨⟨?_, ?_⟩, rest, ?_⟩
    · rw [String.toList_ofList]
      exact hne
    · intro c hc
      rw [String.toList_ofList] at hc
      exact isNameChar_iff.1 (List.mem_takeWhile_imp hc)
    · rw [String.toList_ofList, happend]
  · cases h

theorem nameAfter?_eq_some_iff : nameAfter? word t = some n ↔ Names word t n := by
  simp only [nameAfter?, Option.bind_eq_some_iff, Text.after?_eq_some_iff,
    nameAtFront?_eq_some_iff]
  constructor
  · rintro ⟨_, rfl, hn, rest, rfl⟩
    exact ⟨hn, rest, rfl⟩
  · rintro ⟨hn, rest, rfl⟩
    exact ⟨_, rfl, hn, rest, rfl⟩

theorem nameAfter?_eq_none_iff : nameAfter? word t = none ↔ ∀ n, ¬ Names word t n := by
  rw [Option.eq_none_iff_forall_ne_some]
  exact forall_congr' fun n => not_congr nameAfter?_eq_some_iff

theorem Names.unique (h : Names word t n) (h' : Names word t n') : n = n' :=
  Option.some.inj ((nameAfter?_eq_some_iff.2 h).symm.trans (nameAfter?_eq_some_iff.2 h'))

/-! ## What stands behind the leading characters -/

theorem Names.startsWith_end (h : Names endNamedWord t n) : endWord <+: t := by
  obtain ⟨-, rest, rfl⟩ := h
  have hword : endNamedWord = endWord ++ ['('] := by decide
  exact ⟨'(' :: (n.toList ++ ')' :: rest), by rw [hword, List.append_assoc]; rfl⟩

/-- The two words differ in their first letter. -/
theorem Names.not_end (h : Names startWord t n) : ¬ endWord <+: t := by
  rintro ⟨rest', hend⟩
  obtain ⟨-, rest, rfl⟩ := h
  have hhead : some 'e' = some 's' := congrArg List.head? hend
  exact absurd hhead (by decide)

theorem isSome_after?_iff : (Text.after? word t).isSome = true ↔ word <+: t := by
  rw [Option.isSome_iff_exists]
  exact exists_congr fun rest => Text.after?_eq_some_iff.trans eq_comm

theorem atFront?_eq_start_iff : atFront? t = some (.start n) ↔ Names startWord t n := by
  rw [← nameAfter?_eq_some_iff, atFront?]
  cases nameAfter? startWord t with
  | some name => simp
  | none => cases nameAfter? endNamedWord t <;> simp

theorem atFront?_eq_endNamed_iff : atFront? t = some (.endNamed n) ↔ Names endNamedWord t n := by
  rw [← nameAfter?_eq_some_iff, atFront?]
  cases hstart : nameAfter? startWord t with
  | some name =>
    have hnot := (nameAfter?_eq_some_iff.1 hstart).not_end
    simpa using fun hend => hnot (nameAfter?_eq_some_iff.1 hend).startsWith_end
  | none => cases nameAfter? endNamedWord t <;> simp

theorem atFront?_eq_endLast_iff :
    atFront? t = some .endLast ↔ endWord <+: t ∧ ∀ n, ¬ Names endNamedWord t n := by
  rw [← nameAfter?_eq_none_iff, ← isSome_after?_iff, atFront?]
  cases hstart : nameAfter? startWord t with
  | some name =>
    have hnot := (nameAfter?_eq_some_iff.1 hstart).not_end
    rw [← isSome_after?_iff] at hnot
    simpa using fun hend => absurd hend hnot
  | none =>
    cases nameAfter? endNamedWord t with
    | some name => simp
    | none => simp [Option.isSome_iff_exists]

theorem atFront?_eq_none_iff :
    atFront? t = none ↔ (∀ n, ¬ Names startWord t n) ∧ ¬ endWord <+: t := by
  rw [← nameAfter?_eq_none_iff, ← isSome_after?_iff, atFront?]
  cases hstart : nameAfter? startWord t with
  | some name => simp
  | none =>
    cases hend : nameAfter? endNamedWord t with
    | some name =>
      have hword := isSome_after?_iff.2 (nameAfter?_eq_some_iff.1 hend).startsWith_end
      simp [hword]
    | none => simp

/-! ## The order of the patterns -/

/-- What a delimiter line is tried for. -/
inductive Pattern where
  | start
  | endNamed
  | endLast
deriving DecidableEq

def Pattern.all : List Pattern := [start, endNamed, endLast]

/-- The delimiter that one pattern alone finds in a text. -/
def Pattern.read? (pattern : Pattern) (t : List Char) : Option Delimiter :=
  let rest := t.dropWhile isLead
  match pattern with
  | start => (nameAfter? startWord rest).map Delimiter.start
  | endNamed => (nameAfter? endNamedWord rest).map Delimiter.endNamed
  | endLast => (Text.after? endWord rest).map fun _ => Delimiter.endLast

/-- The delimiter of the first pattern that finds one. -/
def firstOf? (order : List Pattern) (t : List Char) : Option Delimiter :=
  order.findSome? fun pattern => pattern.read? t

theorem firstOf?_nil (t : List Char) : firstOf? [] t = none := rfl

theorem firstOf?_cons (pattern : Pattern) (order : List Pattern) (t : List Char) :
    firstOf? (pattern :: order) t = (pattern.read? t).or (firstOf? order t) := by
  rw [firstOf?, List.findSome?_cons]
  cases pattern.read? t <;> rfl

theorem firstOf?_all (t : List Char) : firstOf? Pattern.all t = ofText? t := by
  rw [Pattern.all, firstOf?_cons, firstOf?_cons, firstOf?_cons, ofText?, atFront?]
  simp only [Pattern.read?]
  cases nameAfter? startWord (t.dropWhile isLead) with
  | some name => rfl
  | none => cases nameAfter? endNamedWord (t.dropWhile isLead) <;> simp [firstOf?]

/-- The pattern of a start and any other one can be tried in either order. -/
theorem Pattern.start_or_comm (pattern : Pattern) (hp : pattern ≠ start) (t : List Char) :
    (start.read? t).or (pattern.read? t) = (pattern.read? t).or (start.read? t) := by
  cases hname : nameAfter? startWord (t.dropWhile isLead) with
  | none => simp [read?, hname]
  | some name =>
    have hnot := (nameAfter?_eq_some_iff.1 hname).not_end
    have hnone : pattern.read? t = none := by
      cases pattern with
      | start => exact absurd rfl hp
      | endNamed =>
        have hend := nameAfter?_eq_none_iff.2 fun n hn => hnot hn.startsWith_end
        rw [read?, hend, Option.map_none]
      | endLast => simpa [read?, ← isSome_after?_iff] using hnot
    rw [hnone, Option.or_none, Option.none_or]

theorem firstOf?_eq_ofText? {order : List Pattern} (hperm : order.Perm Pattern.all)
    (hends : [Pattern.endNamed, Pattern.endLast].Sublist order) (t : List Char) :
    firstOf? order t = ofText? t := by
  have horders : ∀ order ∈ Pattern.all.permutations',
      [Pattern.endNamed, Pattern.endLast].Sublist order → order = [.start, .endNamed, .endLast] ∨
        order = [.endNamed, .start, .endLast] ∨ order = [.endNamed, .endLast, .start] := by decide
  have hnamed := Pattern.start_or_comm .endNamed (by decide) t
  have hlast := Pattern.start_or_comm .endLast (by decide) t
  rw [← firstOf?_all, Pattern.all]
  rcases horders order (List.mem_permutations'.2 hperm) hends with rfl | rfl | rfl <;>
    simp only [firstOf?_cons, firstOf?_nil, Option.or_none]
  · rw [← Option.or_assoc, ← hnamed, Option.or_assoc]
  · rw [← hlast, ← Option.or_assoc, ← hnamed, Option.or_assoc]

/-- An end with a name is also an end without one. -/
theorem firstOf?_ne_ofText? {order : List Pattern} (hperm : order.Perm Pattern.all)
    (hends : ¬ [Pattern.endNamed, Pattern.endLast].Sublist order) :
    ∃ t, firstOf? order t ≠ ofText? t := by
  have horders : ∀ order ∈ Pattern.all.permutations',
      ¬ [Pattern.endNamed, Pattern.endLast].Sublist order →
        firstOf? order "end-sample(a)".toList ≠ ofText? "end-sample(a)".toList := by decide
  exact ⟨_, horders order (List.mem_permutations'.2 hperm) hends⟩

theorem ofText?_start_of_name (hlead : ∀ c ∈ lead, isLead c = true) (hn : IsName n)
    (rest : List Char) :
    ofText? (lead ++ (startWord ++ (n.toList ++ ')' :: rest))) = some (.start n) := by
  rw [ofText?_append hlead]
  exact atFront?_eq_start_iff.2 ⟨hn, rest, rfl⟩

theorem ofText?_endNamed_of_name (hlead : ∀ c ∈ lead, isLead c = true) (hn : IsName n)
    (rest : List Char) :
    ofText? (lead ++ (endNamedWord ++ (n.toList ++ ')' :: rest))) = some (.endNamed n) := by
  rw [ofText?_append hlead]
  exact atFront?_eq_endNamed_iff.2 ⟨hn, rest, rfl⟩

/-- A text is classified by what stands behind the longest run of leading characters: a start and
an end with a name hold the one name that can be read there, any other text that begins with the
word of an end is an end without a name, and there is no other delimiter. The patterns can be tried
in just those orders in which the end with a name comes before the end without one. -/
theorem classified_iff :
    (∀ t, ∃! cut : List Char × List Char, LeadAt t cut.1 cut.2) ∧
    (∀ t lead rest, LeadAt t lead rest →
      (∀ n, ofText? t = some (.start n) ↔ Names startWord rest n) ∧
      (∀ n, ofText? t = some (.endNamed n) ↔ Names endNamedWord rest n) ∧
      (ofText? t = some .endLast ↔ endWord <+: rest ∧ ∀ n, ¬ Names endNamedWord rest n) ∧
      (ofText? t = none ↔ (∀ n, ¬ Names startWord rest n) ∧ ¬ endWord <+: rest)) ∧
    (∀ word t n n', Names word t n → Names word t n' → n = n') ∧
    (∀ t n, Names startWord t n → ¬ endWord <+: t) ∧
    (∀ order : List Pattern, order.Perm Pattern.all →
      ((∀ t, firstOf? order t = ofText? t) ↔
        [Pattern.endNamed, Pattern.endLast].Sublist order)) ∧
    ∀ lead n rest, (∀ c ∈ lead, isLead c = true) → IsName n →
      ofText? (lead ++ (startWord ++ (n.toList ++ ')' :: rest))) = some (.start n) ∧
      ofText? (lead ++ (endNamedWord ++ (n.toList ++ ')' :: rest))) = some (.endNamed n) := by
  refine ⟨fun t => ?_, fun t lead rest h => ?_, fun word t n n' => Names.unique,
    fun t n => Names.not_end, fun order hperm => ⟨fun h => ?_, firstOf?_eq_ofText? hperm⟩,
    fun lead n rest hlead hn =>
      ⟨ofText?_start_of_name hlead hn rest, ofText?_endNamed_of_name hlead hn rest⟩⟩
  · refine ⟨(t.takeWhile isLead, t.dropWhile isLead), leadAt_takeWhile t, fun cut hcut => ?_⟩
    obtain ⟨hlead, hrest⟩ := hcut.unique (leadAt_takeWhile t)
    exact Prod.ext hlead hrest
  · rw [h.ofText?_eq]
    exact ⟨fun n => atFront?_eq_start_iff, fun n => atFront?_eq_endNamed_iff,
      atFront?_eq_endLast_iff, atFront?_eq_none_iff⟩
  · by_contra hends
    obtain ⟨t, ht⟩ := firstOf?_ne_ofText? hperm hends
    exact ht (h t)

/-- A name that holds a carriage return, which makes the line an end without a name, and one with
blanks around it. -/
theorem classified_iff_of_malformed :
    let lead := " /*\u3000##".toList
    let rest := "end-sample(a\r)".toList
    let order : List Pattern := [.endNamed, .endLast, .start]
    LeadAt (lead ++ rest) lead rest ∧ ofText? (lead ++ rest) = some .endLast ∧
      (∀ n, ¬ Names endNamedWord rest n) ∧ (∀ c ∈ lead, isLead c = true) ∧ IsName " b " ∧
      ofText? (lead ++ (startWord ++ (" b ".toList ++ ')' :: rest))) = some (.start " b ") ∧
      Names startWord (startWord ++ (" b ".toList ++ ')' :: rest)) " b " ∧
      ¬ endWord <+: startWord ++ (" b ".toList ++ ')' :: rest) ∧ order.Perm Pattern.all ∧
      ∀ t, firstOf? order t = ofText? t := by
  intro lead rest order
  have hlead : ∀ c ∈ lead, isLead c = true := List.all_eq_true.1 (by decide)
  have hname : IsName " b " := ⟨by decide, by simp⟩
  have htake : (lead ++ rest).takeWhile isLead = lead := by decide
  have hdrop : (lead ++ rest).dropWhile isLead = rest := by decide
  have hcut : LeadAt (lead ++ rest) lead rest := by
    have h := leadAt_takeWhile (lead ++ rest)
    rwa [htake, hdrop] at h
  have hperm : order.Perm Pattern.all := by decide
  have hnames : Names startWord (startWord ++ (" b ".toList ++ ')' :: rest)) " b " :=
    ⟨hname, rest, rfl⟩
  obtain ⟨-, hiff, -, hexclusive, horders, hwritten⟩ := classified_iff
  obtain ⟨-, -, hlast, -⟩ := hiff _ lead rest hcut
  have hend : ofText? (lead ++ rest) = some .endLast := by decide
  exact ⟨hcut, hend, (hlast.1 hend).2, hlead, hname, (hwritten lead " b " rest hlead hname).1,
    hnames, hexclusive _ _ hnames, hperm, (horders order hperm).2 (by decide)⟩

end Delimiter

end Excerpt
