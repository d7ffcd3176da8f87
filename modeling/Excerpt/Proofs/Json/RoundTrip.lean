import Excerpt.Proofs.Json.Scalars

/-!
# Reading values back

A written value begins with a character of its own, and behind each of its items stands a comma
or the line break before the closing bracket. So every item is read back where it stands, and with
them the list. The induction over a value goes through the items and members in it.
-/

namespace Excerpt.Json

/-- Induction over a value. Of the members of an object only the values count. -/
@[elab_as_elim]
theorem memberwise {motive : Json → Prop} (null : motive .null) (bool : ∀ b, motive (.bool b))
    (number : ∀ digits places, motive (.number digits places))
    (string : ∀ text, motive (.string text))
    (array : ∀ items, (∀ item ∈ items, motive item) → motive (.array items))
    (object : ∀ members, (∀ m ∈ members, motive m.2) → motive (.object members)) :
    ∀ value, motive value
  | .null => null
  | .bool b => bool b
  | .number digits places => number digits places
  | .string text => string text
  | .array items =>
    array items fun item _ => memberwise null bool number string array object item
  | .object members =>
    object members fun m _ => memberwise null bool number string array object m.2
termination_by value => sizeOf value
decreasing_by
  · have := List.sizeOf_lt_of_mem ‹_›
    simp only [Json.array.sizeOf_spec]
    omega
  · have := List.sizeOf_lt_of_mem ‹_›
    obtain ⟨name, v⟩ := m
    simp only [Json.object.sizeOf_spec, Prod.mk.sizeOf_spec] at this ⊢
    omega

/-! ## What stands between brackets -/

/-- An item that is not the first, on a line `depth` levels inside the whole. -/
def nextLine (depth : Nat) (t : List Char) : List Char := ',' :: newline depth ++ t

/-- Items between brackets that stand `depth` levels inside the whole. -/
def listing {α : Type} (depth : Nat) (written : α → List Char) : List α → List Char
  | [] => []
  | x :: xs =>
    newline (depth + 1) ++ written x ++
      xs.flatMap (fun y => nextLine (depth + 1) (written y)) ++ newline depth

theorem prettyItems_eq (depth : Nat) (items : List Json) :
    prettyItems depth items = items.flatMap fun item => nextLine depth (pretty depth item) := by
  induction items with
  | nil => rfl
  | cons item items ih => simp [prettyItems, nextLine, ih]

theorem prettyMembers_eq (depth : Nat) (members : List (String × Json)) :
    prettyMembers depth members =
      members.flatMap fun m => nextLine depth (prettyMember depth m) := by
  induction members with
  | nil => rfl
  | cons m members ih => simp [prettyMembers, nextLine, ih]

theorem pretty_array (depth : Nat) (items : List Json) :
    pretty depth (.array items) = '[' :: (listing depth (pretty (depth + 1)) items ++ [']']) := by
  cases items with
  | nil => rfl
  | cons item items => simp [pretty, listing, prettyItems_eq]

theorem pretty_object (depth : Nat) (members : List (String × Json)) :
    pretty depth (.object members) =
      '\x7b' :: (listing depth (prettyMember (depth + 1)) members ++ ['\x7d']) := by
  cases members with
  | nil => rfl
  | cons m members => simp [pretty, listing, prettyMembers_eq]

theorem length_le_listing {α : Type} {written : α → List Char} {xs : List α} {x : α} (h : x ∈ xs)
    (depth : Nat) : (written x).length ≤ (listing depth written xs).length := by
  obtain ⟨y, ys, rfl⟩ := List.exists_cons_of_ne_nil (List.ne_nil_of_mem h)
  rcases List.mem_cons.1 h with rfl | h
  · simp only [listing, List.length_append]
    omega
  · have hline : nextLine (depth + 1) (written x) ∈
        ys.map fun y => nextLine (depth + 1) (written y) := List.mem_map_of_mem h
    have hlength := (List.sublist_flatten_of_mem hline).length_le
    rw [nextLine, List.length_append, ← List.flatMap_def] at hlength
    simp only [listing, List.length_append]
    omega

namespace Reader

/-- A text with an item in front, which neither spacing nor the bracket begins. -/
def Opens (bracket : Char) (t : List Char) : Prop :=
  ∃ c ∈ t.head?, isSpacing c = false ∧ c ≠ bracket

theorem Opens.append {bracket : Char} {t : List Char} (h : Opens bracket t) (rest : List Char) :
    Opens bracket (t ++ rest) := by
  obtain ⟨c, hc, hspacing, hbracket⟩ := h
  exact ⟨c, by simp [Option.mem_def.1 hc], hspacing, hbracket⟩

theorem Opens.skipSpacing_eq {bracket : Char} {t : List Char} (h : Opens bracket t) :
    skipSpacing t = t := by
  obtain ⟨c, hc, hspacing, -⟩ := h
  obtain ⟨d, rfl⟩ := List.head?_eq_some_iff.1 hc
  exact List.dropWhile_cons_of_neg (by simp [hspacing])

theorem Opens.after? {bracket : Char} {t : List Char} (h : Opens bracket t) :
    Text.after? [bracket] t = none := by
  obtain ⟨c, hc, -, hbracket⟩ := h
  obtain ⟨d, rfl⟩ := List.head?_eq_some_iff.1 hc
  simp [Text.after?, hbracket.symm]

theorem Opens.length_pos {bracket : Char} {t : List Char} (h : Opens bracket t) : 0 < t.length := by
  obtain ⟨c, hc, -⟩ := h
  obtain ⟨d, rfl⟩ := List.head?_eq_some_iff.1 hc
  exact Nat.succ_pos _

theorem skipSpacing_newline (depth : Nat) (t : List Char) :
    skipSpacing (newline depth ++ t) = skipSpacing t := by
  have hspaces : ∀ c ∈ newline depth, isSpacing c = true := by
    intro c hc
    rcases List.mem_cons.1 hc with rfl | hc
    · rfl
    · rw [List.eq_of_mem_replicate hc]
      rfl
  exact List.dropWhile_append_of_pos hspaces

theorem endsNumber_newline (depth : Nat) (t : List Char) : EndsNumber (newline depth ++ t) := by
  rintro c ⟨⟩
  decide

theorem endsNumber_comma (t : List Char) : EndsNumber (',' :: t) := by
  rintro c ⟨⟩
  decide

theorem skipSpacing_cons {c : Char} (h : isSpacing c = false) (t : List Char) :
    skipSpacing (c :: t) = c :: t := List.dropWhile_cons_of_neg (by simp [h])

section Lists

variable {α : Type} {item : Reader α} {written : α → List Char} {bracket : Char} {xs : List α}

theorem closing?_self (hbracket : isSpacing bracket = false) (t : List Char) :
    closing? bracket (bracket :: t) = some t := by
  rw [closing?, skipSpacing_cons hbracket, after?_self]

theorem closing?_newline (depth : Nat) (t : List Char) :
    closing? bracket (newline depth ++ t) = closing? bracket t := by
  rw [closing?, skipSpacing_newline, closing?]

theorem closing?_comma (hcomma : bracket ≠ ',') (t : List Char) :
    closing? bracket (',' :: t) = none := by
  rw [closing?, skipSpacing_cons rfl]
  simp [Text.after?, hcomma]

theorem afterComma_nextLine {x : α} {t rest : List Char} (depth : Nat)
    (hspacing : skipSpacing (t ++ rest) = t ++ rest)
    (hitem : item (t ++ rest) = some (x, rest)) :
    afterComma item (nextLine depth t ++ rest) = some (x, rest) := by
  have hline : nextLine depth t ++ rest = ',' :: (newline depth ++ (t ++ rest)) := by
    simp [nextLine]
  rw [hline, afterComma, skipSpacing_cons rfl, after?_self]
  simp [skipSpacing_newline, hspacing, hitem]

theorem listed_listing (hbracket : isSpacing bracket = false) (hcomma : bracket ≠ ',')
    (hitem : ∀ x ∈ xs, ∀ t, EndsNumber t → item (written x ++ t) = some (x, t))
    (hopens : ∀ x ∈ xs, Opens bracket (written x)) (depth : Nat) (t : List Char) :
    listed bracket item (listing depth written xs ++ bracket :: t) = some (xs, t) := by
  cases xs with
  | nil => simp [listed, listing, closing?_self hbracket]
  | cons x xs =>
    let rest := xs.flatMap (fun y => nextLine (depth + 1) (written y)) ++
      (newline depth ++ bracket :: t)
    have hends : EndsNumber rest :=
      follows_flatMap (fun y _ t => endsNumber_comma _) (endsNumber_newline depth _)
    have hfirst : Opens bracket (written x ++ rest) := (hopens x List.mem_cons_self).append rest
    have hopen : closing? bracket (newline (depth + 1) ++ (written x ++ rest)) = none := by
      rw [closing?_newline, closing?, hfirst.skipSpacing_eq, hfirst.after?]
    have hclose : closing? bracket (newline depth ++ bracket :: t) = some t := by
      rw [closing?_newline, closing?_self hbracket]
    have hread : item (written x ++ rest) = some (x, rest) := hitem x List.mem_cons_self rest hends
    have hothers : upTo (closing? bracket) (afterComma item) rest.length rest = some (xs, t) := by
      refine upTo_flatMap EndsNumber (fun y hy t ht => ?_) (fun y _ t => closing?_comma hcomma _)
        (fun y _ t => endsNumber_comma _) (fun y _ => List.cons_ne_nil _ _)
        hclose (endsNumber_newline depth _) (List.cons_ne_nil _ _) (Nat.le_refl _)
      have hy := List.mem_cons_of_mem x hy
      exact afterComma_nextLine _ ((hopens y hy).append t).skipSpacing_eq (hitem y hy t ht)
    have hlisting : listing depth written (x :: xs) ++ bracket :: t =
        newline (depth + 1) ++ (written x ++ rest) := by
      simp [listing, rest]
    rw [hlisting, listed, hopen]
    simp [skipSpacing_newline, hfirst.skipSpacing_eq, hread, hothers]

end Lists

/-! ## Values -/

def BeginsNumber (c : Char) : Prop := c = '-' ∨ c.isDigit = true

theorem BeginsNumber.ne {c k : Char} (h : BeginsNumber c) (hsign : k ≠ '-')
    (hdigit : k.isDigit = false) : c ≠ k := by
  rintro rfl
  rcases h with h | h
  · exact hsign h
  · exact Bool.false_ne_true (hdigit.symm.trans h)

theorem exists_numberText_eq_cons (n : Int) (places : Nat) :
    ∃ c d, numberText n places = c :: d ∧ BeginsNumber c := by
  cases n with
  | ofNat n =>
    obtain ⟨c, d, hd, hc⟩ := exists_positional_eq_cons n places
    exact ⟨c, d, hd, Or.inr hc⟩
  | negSucc n => exact ⟨'-', _, rfl, Or.inl rfl⟩

theorem opens_pretty (depth : Nat) (v : Json) : Opens ']' (pretty depth v) := by
  cases v with
  | null => exact ⟨'n', rfl, rfl, by decide⟩
  | bool b => cases b <;> exact ⟨_, rfl, rfl, by decide⟩
  | number n places =>
    obtain ⟨c, d, hd, hc⟩ := exists_numberText_eq_cons n places
    refine ⟨c, by rw [pretty, hd]; rfl, ?_, hc.ne (by decide) rfl⟩
    have hspace : c ≠ ' ' := hc.ne (by decide) rfl
    have htab : c ≠ '\t' := hc.ne (by decide) rfl
    have hfeed : c ≠ '\n' := hc.ne (by decide) rfl
    have hreturn : c ≠ '\r' := hc.ne (by decide) rfl
    simp [isSpacing, hspace, htab, hfeed, hreturn]
  | string s => exact ⟨'"', rfl, rfl, by decide⟩
  | array items =>
    rw [pretty_array]
    exact ⟨'[', rfl, rfl, by decide⟩
  | object members =>
    rw [pretty_object]
    exact ⟨'\x7b', rfl, rfl, by decide⟩

theorem opens_prettyMember (depth : Nat) (m : String × Json) :
    Opens '\x7d' (prettyMember depth m) := by
  obtain ⟨name, v⟩ := m
  exact ⟨'"', rfl, rfl, by decide⟩

theorem keyword_of_ne {c k : Char} (h : c ≠ k) (word : List Char) (v : Json) (t : List Char) :
    keyword (String.ofList (k :: word)) v (c :: t) = none := by
  simp [keyword, Text.after?, h.symm]

/-- What begins as a number is no keyword, and neither a text nor a list. -/
theorem value_of_beginsNumber {c : Char} (h : BeginsNumber c) (depth : Nat) (t : List Char) :
    value (depth + 1) (c :: t) = number (c :: t) := by
  have hnull : keyword "null" .null (c :: t) = none :=
    keyword_of_ne (h.ne (by decide) rfl) ['u', 'l', 'l'] _ t
  have htrue : keyword "true" (.bool true) (c :: t) = none :=
    keyword_of_ne (h.ne (by decide) rfl) ['r', 'u', 'e'] _ t
  have hfalse : keyword "false" (.bool false) (c :: t) = none :=
    keyword_of_ne (h.ne (by decide) rfl) ['a', 'l', 's', 'e'] _ t
  have hquote : c ≠ '"' := h.ne (by decide) rfl
  have hsquare : c ≠ '[' := h.ne (by decide) rfl
  have hcurly : c ≠ '\x7b' := h.ne (by decide) rfl
  simp [value, hquote, hsquare, hcurly, atom, hnull, htrue, hfalse]

theorem length_le_prettyMember (depth : Nat) (m : String × Json) :
    (pretty depth m.2).length ≤ (prettyMember depth m).length := by
  obtain ⟨name, v⟩ := m
  simp only [prettyMember, List.length_append, List.length_cons]
  omega

theorem member_prettyMember {read : Reader Json} {depth : Nat} {m : String × Json} {t : List Char}
    (h : read (pretty depth m.2 ++ t) = some (m.2, t)) :
    member read (prettyMember depth m ++ t) = some (m, t) := by
  obtain ⟨name, v⟩ := m
  have hmember : prettyMember depth (name, v) ++ t =
      '"' :: (name.toList.flatMap escape ++ '"' :: ':' :: ' ' :: (pretty depth v ++ t)) := by
    simp [prettyMember, quoted]
  have hspace : skipSpacing (' ' :: (pretty depth v ++ t)) = pretty depth v ++ t :=
    ((opens_pretty depth v).append t).skipSpacing_eq
  rw [hmember, member]
  simp [after?_self, text_quoted, skipSpacing_cons (c := ':') rfl, hspace, h]

/-- The fuel for what stands between two brackets is enough for each item there. -/
theorem exists_fuel_of_mem {α : Type} {opening bracket : Char} {written : α → List Char}
    {xs : List α} {x : α} (hx : x ∈ xs) (hopens : Opens bracket (written x)) {depth fuel : Nat}
    (hfuel : (opening :: (listing depth written xs ++ [bracket])).length ≤ fuel + 1) :
    ∃ k, fuel = k + 1 ∧ (written x).length ≤ k + 1 := by
  have hpos := hopens.length_pos
  have hlength : (written x).length ≤ (listing depth written xs).length :=
    length_le_listing hx depth
  rw [List.length_cons, List.length_append] at hfuel
  exact ⟨fuel - 1, by omega, by omega⟩

/-- A written value is read back with as much fuel as it has characters. The induction is over the
value: what stands between two brackets is shorter than the whole. -/
theorem value_pretty (v : Json) {fuel depth : Nat} {t : List Char}
    (hfuel : (pretty depth v).length ≤ fuel + 1) (ht : EndsNumber t) :
    value (fuel + 1) (pretty depth v ++ t) = some (v, t) := by
  induction v using memberwise generalizing fuel depth t with
  | null => rfl
  | bool b => cases b <;> rfl
  | number n places =>
    obtain ⟨c, d, hd, hc⟩ := exists_numberText_eq_cons n places
    have hread := number_numberText n places ht
    rw [pretty]
    rw [hd, List.cons_append] at hread ⊢
    rw [value_of_beginsNumber hc, hread]
  | string s =>
    have hstring : pretty depth (.string s) ++ t =
        '"' :: (s.toList.flatMap escape ++ '"' :: t) := by simp [pretty, quoted]
    rw [hstring, value, text_quoted]
    rfl
  | array items ih =>
    rw [pretty_array] at hfuel ⊢
    have hlisted : listed ']' (value fuel)
        (listing depth (pretty (depth + 1)) items ++ ']' :: t) = some (items, t) := by
      refine listed_listing rfl (by decide) (fun item hitem t ht => ?_)
        (fun item _ => opens_pretty _ item) depth t
      obtain ⟨k, rfl, hk⟩ := exists_fuel_of_mem hitem (opens_pretty _ item) hfuel
      exact ih item hitem hk ht
    have hwhole : '[' :: (listing depth (pretty (depth + 1)) items ++ [']']) ++ t =
        '[' :: (listing depth (pretty (depth + 1)) items ++ ']' :: t) := by simp
    rw [hwhole, value, hlisted]
    rfl
  | object members ih =>
    rw [pretty_object] at hfuel ⊢
    have hlisted : listed '\x7d' (member (value fuel))
        (listing depth (prettyMember (depth + 1)) members ++ '\x7d' :: t) = some (members, t) := by
      refine listed_listing rfl (by decide) (fun m hm t ht => ?_)
        (fun m _ => opens_prettyMember _ m) depth t
      obtain ⟨k, rfl, hk⟩ := exists_fuel_of_mem hm (opens_prettyMember _ m) hfuel
      exact member_prettyMember (ih m hm (Nat.le_trans (length_le_prettyMember _ m) hk) ht)
    have hwhole : '\x7b' :: (listing depth (prettyMember (depth + 1)) members ++ ['\x7d']) ++ t =
        '\x7b' :: (listing depth (prettyMember (depth + 1)) members ++ '\x7d' :: t) := by simp
    rw [hwhole, value, hlisted]
    rfl

end Reader

/-- Whatever is written is read back as what it was. -/
theorem read_text (v : Json) : read v.text = some v := by
  have hopens := Reader.opens_pretty 0 v
  obtain ⟨fuel, hfuel⟩ := Nat.exists_eq_add_one_of_ne_zero (Nat.ne_of_gt hopens.length_pos)
  have hvalue : Reader.value (pretty 0 v).length (pretty 0 v) = some (v, []) := by
    rw [hfuel]
    simpa using Reader.value_pretty v (Nat.le_of_eq hfuel) Reader.endsNumber_nil
  have hend : Reader.skipSpacing [] = [] := rfl
  simp [read, text, hopens.skipSpacing_eq, hvalue, hend]

/-- Spacing and escapes may be chosen freely, and a number by its power of ten. -/
example : read "\r\n[ 1.50e1,\"\\ud83d\\ude00\\/\" , \x7b\"a\" :[\t]\x7d]" =
    some (.array [.number 150 1, .string "😀/", .object [("a", .array [])]]) := by rfl

end Excerpt.Json
