import Excerpt.CommandLine.Arguments
import Mathlib.Data.List.Nodup

/-!
# Arguments for an invocation

An invocation can be written as arguments: the options with their values after equals signs, two
hyphens on their own and the slugs. A lawful reader reads what it has read before from them again,
whatever slugs are put in the place of its own. The program has a lawful reader. It chooses each
option once and with a value that it accepts, and reads every such invocation as it is written.
-/

namespace Excerpt.CommandLine

namespace Invocation

def option (choice : Choice) (value : String) : String := "--" ++ choice.name ++ "=" ++ value

def arguments (invocation : Invocation) : List String :=
  invocation.chosen.map (fun chosen => option chosen.1 chosen.2) ++ "--" :: invocation.slugs

end Invocation

/-- Whatever is read names a slug, and its options are read again with any other slugs. -/
structure ArgumentReader.Lawful (read : ArgumentReader) : Prop where
  exists_slug {arguments : List String} {invocation : Invocation}
    (h : read arguments = .ok invocation) : invocation.slugs ≠ []
  read_arguments {arguments slugs : List String} {invocation : Invocation}
    (h : read arguments = .ok invocation) (hslugs : slugs ≠ []) :
    read (Invocation.arguments ⟨invocation.chosen, slugs⟩) = .ok ⟨invocation.chosen, slugs⟩

namespace Invocation

/-- Each option is chosen once, with a value that it accepts. -/
structure Admissible (invocation : Invocation) : Prop where
  once : (invocation.chosen.map Prod.fst).Nodup
  accepted : ∀ choice value, (choice, value) ∈ invocation.chosen → choice.accepts value = true

variable {invocation invocation' : Invocation} {choice : Choice} {value : String}

theorem value?_eq_none_iff :
    invocation.value? choice = none ↔ choice ∉ invocation.chosen.map Prod.fst := by
  rw [value?, List.lookup_eq_none_iff, List.mem_map, not_exists]
  constructor
  · rintro h p ⟨hp, rfl⟩
    simpa using h p hp
  · intro h p hp
    have hne : p.1 ≠ choice := fun he => h p ⟨hp, he⟩
    simpa using Ne.symm hne

theorem choose_eq_ok_iff : invocation.choose choice value = .ok invocation' ↔
    invocation.value? choice = none ∧ choice.accepts value = true ∧
      invocation' = { invocation with chosen := invocation.chosen ++ [(choice, value)] } := by
  unfold choose
  split
  · next h =>
    rw [Bool.and_eq_true, Option.isNone_iff_eq_none] at h
    simp [h.1, h.2, eq_comm]
  · next h =>
    rw [Bool.and_eq_true, Option.isNone_iff_eq_none] at h
    constructor
    · intro he
      cases he
    · rintro ⟨hv, ha, -⟩
      exact absurd ⟨hv, ha⟩ h

theorem Admissible.choose (h : invocation.Admissible)
    (he : invocation.choose choice value = .ok invocation') : invocation'.Admissible := by
  obtain ⟨hv, ha, rfl⟩ := choose_eq_ok_iff.1 he
  refine ⟨?_, fun c v hm => ?_⟩
  · rw [List.map_append, List.nodup_append_comm]
    exact List.nodup_cons.2 ⟨value?_eq_none_iff.1 hv, h.once⟩
  · rcases List.mem_append.1 hm with hm | hm
    · exact h.accepted c v hm
    · obtain ⟨rfl, rfl⟩ := Prod.mk.inj (List.mem_singleton.1 hm)
      exact ha

theorem Admissible.of_chosen_eq (h : invocation.Admissible)
    (he : invocation'.chosen = invocation.chosen) : invocation'.Admissible := by
  constructor
  · rw [he]
    exact h.once
  · rw [he]
    exact h.accepted

end Invocation

namespace Reading

variable {reading reading' : Reading} {argument : String}

theorem admissible_choose {choice : Choice} {value : String}
    (h : reading.invocation.Admissible) (he : reading.choose choice value = .ok reading') :
    reading'.invocation.Admissible := by
  unfold choose at he
  cases hc : reading.invocation.choose choice value with
  | error halt =>
    rw [hc] at he
    cases he
  | ok invocation =>
    rw [hc] at he
    obtain rfl := Except.ok.inj he
    exact h.choose hc

theorem admissible_long {t : List Char} (h : reading.invocation.Admissible)
    (he : reading.long t = .ok reading') : reading'.invocation.Admissible := by
  simp only [long] at he
  split at he
  · obtain rfl := Except.ok.inj he
    exact h
  · exact admissible_choose h he
  · cases he
  · cases he

theorem admissible_short {letter : Char} {rest : List Char} (h : reading.invocation.Admissible)
    (he : reading.short letter rest = .ok reading') : reading'.invocation.Admissible := by
  unfold short at he
  split at he
  · cases he
  · obtain rfl := Except.ok.inj he
    exact h
  · exact admissible_choose h he
  · exact admissible_choose h he

theorem admissible_step (h : reading.invocation.Admissible)
    (he : reading.step argument = .ok reading') : reading'.invocation.Admissible := by
  unfold step at he
  split at he
  · obtain rfl := Except.ok.inj he
    exact h.of_chosen_eq rfl
  · cases he
  · exact admissible_choose h he
  · obtain rfl := Except.ok.inj he
    exact h
  · exact admissible_long h he
  · exact admissible_short h he
  · obtain rfl := Except.ok.inj he
    exact h.of_chosen_eq rfl

theorem admissible_foldlM (arguments : List String) (h : reading.invocation.Admissible)
    (he : arguments.foldlM step reading = .ok reading') : reading'.invocation.Admissible := by
  induction arguments generalizing reading with
  | nil =>
    obtain rfl := Except.ok.inj he
    exact h
  | cons argument arguments ih =>
    rw [List.foldlM_cons] at he
    cases hs : reading.step argument with
    | error halt =>
      rw [hs] at he
      cases he
    | ok next =>
      rw [hs] at he
      exact ih (admissible_step h hs) he

end Reading

namespace Invocation

variable {invocation : Invocation}

/-- Whatever is read from arguments is admissible and names a slug. -/
theorem admissible_of_ofArguments {arguments : List String}
    (h : ofArguments arguments = .ok invocation) :
    invocation.Admissible ∧ invocation.slugs ≠ [] := by
  unfold ofArguments at h
  cases hr : arguments.foldlM Reading.step {} with
  | error halt =>
    rw [hr] at h
    cases h
  | ok reading =>
    have hempty : Admissible {} := ⟨List.nodup_nil, by simp⟩
    have hadmissible := Reading.admissible_foldlM arguments hempty hr
    rw [hr] at h
    change reading.finish = .ok invocation at h
    unfold Reading.finish at h
    split at h
    · cases h
    · split at h
      · cases h
      · next hslugs =>
        obtain rfl := Except.ok.inj h
        exact ⟨hadmissible, by simpa using hslugs⟩

theorem step_option {choice : Choice} {value : String} (hv : invocation.value? choice = none)
    (ha : choice.accepts value = true) :
    Reading.step ⟨.anything, invocation⟩ (option choice value) =
      .ok ⟨.anything, { invocation with chosen := invocation.chosen ++ [(choice, value)] }⟩ := by
  have hname : ∀ c ∈ choice.name.toList, (c != '=') = true := by
    cases choice <;> simp [Choice.name]
  have hlist : (option choice value).toList =
      '-' :: '-' :: (choice.name.toList ++ '=' :: value.toList) := by
    simp [option]
  have htake : (choice.name.toList ++ '=' :: value.toList).takeWhile (· != '=') =
      choice.name.toList := by
    rw [List.takeWhile_append_of_pos hname, List.takeWhile_cons_of_neg (by simp), List.append_nil]
  have hdrop : (choice.name.toList ++ '=' :: value.toList).dropWhile (· != '=') =
      '=' :: value.toList := by
    rw [List.dropWhile_append_of_pos hname, List.dropWhile_cons_of_neg (by simp)]
  have hchoose := choose_eq_ok_iff.2 ⟨hv, ha, rfl⟩
  have hlong : Reading.long ⟨.anything, invocation⟩ (choice.name.toList ++ '=' :: value.toList) =
      .ok ⟨.anything, { invocation with chosen := invocation.chosen ++ [(choice, value)] }⟩ := by
    simp only [Reading.long, htake, hdrop, String.ofList_toList, Choice.ofName?_name]
    rw [Reading.choose, hchoose]
    rfl
  unfold Reading.step
  rw [hlist, ← hlong]
  cases choice <;> rfl

theorem foldlM_slugs (slugs : List String) (invocation : Invocation) :
    slugs.foldlM Reading.step ⟨.slugs, invocation⟩ =
      .ok ⟨.slugs, { invocation with slugs := invocation.slugs ++ slugs }⟩ := by
  induction slugs generalizing invocation with
  | nil => simp [pure, Except.pure]
  | cons slug slugs ih =>
    rw [List.foldlM_cons]
    change slugs.foldlM Reading.step ⟨.slugs, invocation.addSlug slug⟩ = _
    rw [ih]
    simp [addSlug]

theorem foldlM_options (invocation : Invocation) (chosen : List (Choice × String))
    (rest : List String)
    (h : Admissible { invocation with chosen := invocation.chosen ++ chosen }) :
    (chosen.map (fun chosen => option chosen.1 chosen.2) ++ rest).foldlM Reading.step
        ⟨.anything, invocation⟩ =
      rest.foldlM Reading.step
        ⟨.anything, { invocation with chosen := invocation.chosen ++ chosen }⟩ := by
  induction chosen generalizing invocation with
  | nil => simp
  | cons first chosen ih =>
    obtain ⟨choice, value⟩ := first
    have ha : choice.accepts value = true := h.accepted choice value (by simp)
    have hv : invocation.value? choice = none := by
      rw [value?_eq_none_iff]
      intro hm
      have honce := h.once
      rw [List.map_append, List.nodup_append] at honce
      exact honce.2.2 choice hm choice (by simp) rfl
    have hassoc : invocation.chosen ++ [(choice, value)] ++ chosen =
        invocation.chosen ++ (choice, value) :: chosen := by simp
    rw [List.map_cons, List.cons_append, List.foldlM_cons, step_option hv ha]
    change (_ ++ rest).foldlM Reading.step _ = _
    rw [ih { invocation with chosen := invocation.chosen ++ [(choice, value)] }]
    · simp only [hassoc]
    · simpa only [hassoc] using h

/-- An admissible invocation is read from the arguments that it is written as. -/
theorem ofArguments_arguments (h : invocation.Admissible) (hs : invocation.slugs ≠ []) :
    ofArguments invocation.arguments = .ok invocation := by
  have hread : invocation.arguments.foldlM Reading.step {} = .ok ⟨.slugs, invocation⟩ := by
    rw [arguments]
    refine (foldlM_options {} invocation.chosen _ (h.of_chosen_eq rfl)).trans ?_
    exact foldlM_slugs invocation.slugs { chosen := invocation.chosen }
  have hslugs : ¬ invocation.slugs.isEmpty = true := by simpa using hs
  have hfinish : Reading.finish ⟨.slugs, invocation⟩ = .ok invocation := by
    simp only [Reading.finish, if_neg hslugs]
  rw [ofArguments, hread]
  exact hfinish

theorem lawful_ofArguments : ArgumentReader.Lawful ofArguments where
  exists_slug h := (admissible_of_ofArguments h).2
  read_arguments h hslugs :=
    ofArguments_arguments ((admissible_of_ofArguments h).1.of_chosen_eq rfl) hslugs

end Invocation

end Excerpt.CommandLine
