import Excerpt.Proofs.Setting.Distinct
import Excerpt.Toml.Table

/-!
# Documents define no key twice

Every table of a document comes from the definitions of its paths. Each step on the way puts
values under keys or moves an entry behind its neighbours, which repeats no key. So no value has a
table with a key twice, by induction on the depth of its brackets and braces. Reading points in
time out of tables keeps the keys of every table that stays one.
-/

namespace Excerpt.Toml

variable {d d' : Document} {setting new : Setting} {path : List String}

/-! ## Building the document -/

theorem distinct_inLast {change : Setting → Setting}
    (hchange : ∀ s : Setting, s.Distinct → (change s).Distinct) (hsetting : setting.Distinct) :
    (inLast change setting).Distinct := by
  cases hsetting with
  | @list items h =>
    refine .list fun item hitem => ?_
    rcases List.mem_append.1 hitem with hitem | hitem
    · exact h item (List.dropLast_subset items hitem)
    · rw [List.mem_singleton.1 hitem]
      refine hchange _ ?_
      cases hlast : items.getLast? with
      | none => simpa [List.getLastD_eq_getLast?, hlast] using Setting.distinct_empty
      | some last =>
        simpa [List.getLastD_eq_getLast?, hlast] using h last (List.mem_of_getLast? hlast)
  | nothing => exact hchange _ .nothing
  | scalar value => exact hchange _ (.scalar value)
  | table hkeys h => exact hchange _ (.table hkeys h)

theorem distinct_changedAt {change : Keyed Setting → Keyed Setting}
    (hchange : ∀ s : Setting, s.Distinct → (Setting.table (change s.entries)).Distinct)
    (hsetting : setting.Distinct) (path : List String) :
    (changedAt change path setting).Distinct := by
  induction path generalizing setting with
  | nil => exact hchange setting hsetting
  | cons key path ih =>
    exact hsetting.put (distinct_inLast (fun s hs => ih hs) (hsetting.getD_get? key))

theorem distinct_movedLast (key : String) (hsetting : setting.Distinct) :
    (Setting.table (movedLast key setting.entries)).Distinct := by
  have hperm : (movedLast key setting.entries).Perm setting.entries := by
    have hsplit := List.filter_append_perm (fun entry : String × Setting => entry.1 != key)
      setting.entries
    simpa [movedLast, Keyed.erase, bne] using hsplit
  refine .table ((hperm.map Prod.fst).nodup_iff.2 hsetting.nodup_keys) fun e he => ?_
  exact hsetting.of_mem e (hperm.mem_iff.1 he)

theorem distinct_withItem (key : String) (hsetting : setting.Distinct) :
    (Setting.table (withItem key setting.entries)).Distinct := by
  refine hsetting.put (.list fun item hitem => ?_)
  rcases List.mem_append.1 hitem with hitem | hitem
  · cases hget : setting.entries.get? key with
    | none => simp [hget, Setting.items] at hitem
    | some old =>
      rw [hget, Option.getD_some] at hitem
      cases hsetting.of_get? hget with
      | list h => exact h item hitem
      | _ => cases hitem
  · exact List.mem_singleton.1 hitem ▸ Setting.distinct_empty

namespace Document

theorem root_walk {made : Definition} {allows : Bool → Definition → Bool} {above : List String}
    (h : d.walk made allows above path = some d') : d'.root = d.root := by
  induction path generalizing d above with
  | nil => rw [← Option.some.inj h]
  | cons key path ih =>
    cases path with
    | nil => rw [← Option.some.inj h]
    | cons next path =>
      unfold walk at h
      dsimp only at h
      split at h
      · exact (ih h).trans rfl
      · split at h
        · exact ih h
        · cases h

theorem distinct_edit {change : String → Keyed Setting → Keyed Setting}
    (hchange : ∀ (key : String) (s : Setting), s.Distinct →
      (Setting.table (change key s.entries)).Distinct)
    (hroot : d.root.Distinct) (path : List String) : (d.edit path change).root.Distinct :=
  distinct_changedAt (hchange _) hroot path.dropLast

theorem distinct_openTable (hroot : d.root.Distinct) (h : d.openTable path = some d') :
    d'.root.Distinct := by
  obtain ⟨passed, hpassed, h⟩ := Option.bind_eq_some_iff.1 h
  have hpassed : passed.root.Distinct := root_walk hpassed ▸ hroot
  split at h
  · obtain rfl := Option.some.inj h
    exact distinct_edit (fun key s hs => hs.put Setting.distinct_empty) hpassed path
  · obtain rfl := Option.some.inj h
    exact distinct_edit (fun key s => distinct_movedLast key) hpassed path
  · cases h

theorem distinct_openItem (hroot : d.root.Distinct) (h : d.openItem path = some d') :
    d'.root.Distinct := by
  obtain ⟨passed, hpassed, h⟩ := Option.bind_eq_some_iff.1 h
  have hpassed : passed.root.Distinct := root_walk hpassed ▸ hroot
  obtain ⟨-, -, h⟩ := Option.bind_eq_some_iff.1 h
  obtain rfl := Option.some.inj h
  exact distinct_edit (fun key s => distinct_withItem key) hpassed path

theorem distinct_assign (hnew : new.Distinct) (hroot : d.root.Distinct)
    (h : d.assign path new = some d') : d'.root.Distinct := by
  obtain ⟨dotted, hdotted, h⟩ := Option.bind_eq_some_iff.1 h
  have hdotted : dotted.root.Distinct := root_walk hdotted ▸ hroot
  dsimp only at h
  split at h
  · obtain rfl := Option.some.inj h
    exact distinct_edit (fun key s hs => hs.put hnew) hdotted _
  · cases h

end Document

/-- Whatever value a statement assigns has no table with a key twice. -/
def Statement.Distinct : Statement → Prop
  | .assign _ value => value.Distinct
  | _ => True

namespace Document

theorem distinct_step {s : Statement} (hs : s.Distinct) (hroot : d.root.Distinct)
    (h : d.step s = some d') : d'.root.Distinct := by
  cases s with
  | header path => exact distinct_openTable hroot h
  | itemHeader path => exact distinct_openItem hroot h
  | assign path value => exact distinct_assign hs hroot h

theorem distinct_foldlM_step {statements : List Statement} (hs : ∀ s ∈ statements, s.Distinct)
    (hroot : d.root.Distinct) (h : statements.foldlM step d = some d') : d'.root.Distinct := by
  induction statements generalizing d with
  | nil => exact Option.some.inj h ▸ hroot
  | cons s statements ih =>
    rw [List.foldlM_cons] at h
    obtain ⟨next, hnext, h⟩ := Option.bind_eq_some_iff.1 h
    exact ih (fun s' hs' => hs s' (List.mem_cons_of_mem s hs'))
      (distinct_step (hs s List.mem_cons_self) hroot hnext) h

theorem distinct_ofStatements? {statements : List Statement} (hs : ∀ s ∈ statements, s.Distinct)
    (h : ofStatements? statements = some d) : d.root.Distinct :=
  distinct_foldlM_step hs Setting.distinct_empty h

end Document

/-! ## Reading values -/

/-- Whatever is read has a property. -/
def Reads {α : Type} (read : Reader α) (p : α → Prop) : Prop :=
  ∀ t a rest, read t = some (a, rest) → p a

theorem distinct_of_ofWord? {t : List Char} (h : ofWord? t = some setting) : setting.Distinct := by
  unfold ofWord? at h
  split at h
  · exact Option.some.inj h ▸ .scalar _
  split at h
  · exact Option.some.inj h ▸ .scalar _
  split at h
  · refine Option.some.inj h ▸ .table (by simp [Keyed.keys]) fun e he => ?_
    rw [List.mem_singleton.1 he]
    exact .scalar _
  · rw [Option.orElse_eq_orElse, Option.orElse_eq_or] at h
    rcases Option.or_eq_some_iff.1 h with h | ⟨-, h⟩
    · obtain ⟨n, -, rfl⟩ := Option.map_eq_some_iff.1 h
      exact .scalar _
    · obtain ⟨text, -, rfl⟩ := Option.map_eq_some_iff.1 h
      exact .scalar _

theorem reads_scalar : Reads scalar Setting.Distinct := by
  intro t setting rest h
  unfold scalar at h
  split at h
  · obtain ⟨⟨text, t'⟩, -, h⟩ := Option.map_eq_some_iff.1 h
    obtain ⟨rfl, -⟩ := Prod.mk.inj h
    exact .scalar _
  · obtain ⟨⟨w, t'⟩, -, h⟩ := Option.bind_eq_some_iff.1 h
    obtain ⟨s, hs, h⟩ := Option.bind_eq_some_iff.1 h
    obtain ⟨rfl, -⟩ := Prod.mk.inj (Option.some.inj h)
    exact distinct_of_ofWord? hs

theorem reads_assignment {value : Reader Setting} (hvalue : Reads value Setting.Distinct) :
    Reads (assignment value) Statement.Distinct := by
  intro t statement rest h
  obtain ⟨⟨path, t'⟩, -, h⟩ := Option.bind_eq_some_iff.1 h
  dsimp only at h
  split at h
  · obtain ⟨⟨s, t''⟩, hs, h⟩ := Option.map_eq_some_iff.1 h
    obtain ⟨rfl, -⟩ := Prod.mk.inj h
    exact hvalue _ _ _ hs
  · cases h

theorem reads_listItems {value : Reader Setting} (hvalue : Reads value Setting.Distinct)
    (fuel : Nat) : Reads (listItems value fuel) fun items => ∀ s ∈ items, s.Distinct := by
  induction fuel with
  | zero => exact fun t items rest h => nomatch h
  | succ fuel ih =>
    intro t items rest h
    rw [listItems] at h
    split at h
    · obtain ⟨rfl, -⟩ := Prod.mk.inj (Option.some.inj h)
      exact nofun
    · obtain ⟨⟨first, t'⟩, hfirst, h⟩ := Option.bind_eq_some_iff.1 h
      dsimp only at h
      split at h
      · obtain ⟨⟨others, t''⟩, hothers, h⟩ := Option.bind_eq_some_iff.1 h
        obtain ⟨rfl, -⟩ := Prod.mk.inj (Option.some.inj h)
        exact List.forall_mem_cons.2 ⟨hvalue _ _ _ hfirst, ih _ _ _ hothers⟩
      · obtain ⟨rfl, -⟩ := Prod.mk.inj (Option.some.inj h)
        exact List.forall_mem_singleton.2 (hvalue _ _ _ hfirst)
      · cases h

theorem reads_assignments {value : Reader Setting} (hvalue : Reads value Setting.Distinct)
    (fuel : Nat) : Reads (assignments value fuel) fun statements =>
      ∀ s ∈ statements, s.Distinct := by
  induction fuel with
  | zero => exact fun t statements rest h => nomatch h
  | succ fuel ih =>
    intro t statements rest h
    obtain ⟨⟨first, t'⟩, hfirst, h⟩ := Option.bind_eq_some_iff.1 h
    have hfirst := reads_assignment hvalue _ _ _ hfirst
    dsimp only at h
    split at h
    · obtain ⟨⟨others, t''⟩, hothers, h⟩ := Option.bind_eq_some_iff.1 h
      obtain ⟨rfl, -⟩ := Prod.mk.inj (Option.some.inj h)
      exact List.forall_mem_cons.2 ⟨hfirst, ih _ _ _ hothers⟩
    · obtain ⟨rfl, -⟩ := Prod.mk.inj (Option.some.inj h)
      exact List.forall_mem_singleton.2 hfirst
    · cases h

theorem reads_tableBody {value : Reader Setting} (hvalue : Reads value Setting.Distinct) :
    Reads (tableBody value) fun statements => ∀ s ∈ statements, s.Distinct := by
  intro t statements rest h
  unfold tableBody at h
  split at h
  · obtain ⟨rfl, -⟩ := Prod.mk.inj (Option.some.inj h)
    exact nofun
  · exact reads_assignments hvalue _ _ _ _ h

theorem reads_value (depth : Nat) : Reads (value depth) Setting.Distinct := by
  induction depth with
  | zero => exact reads_scalar
  | succ depth ih =>
    intro t setting rest h
    unfold value at h
    split at h
    · rename_i hdepth
      obtain rfl := Nat.succ.inj hdepth
      obtain ⟨⟨statements, t'⟩, hstatements, h⟩ := Option.bind_eq_some_iff.1 h
      obtain ⟨document, hdocument, h⟩ := Option.bind_eq_some_iff.1 h
      obtain ⟨rfl, -⟩ := Prod.mk.inj (Option.some.inj h)
      exact Document.distinct_ofStatements? (reads_tableBody ih _ _ _ hstatements) hdocument
    · rename_i hdepth
      obtain rfl := Nat.succ.inj hdepth
      obtain ⟨⟨items, t'⟩, hitems, h⟩ := Option.map_eq_some_iff.1 h
      obtain ⟨rfl, -⟩ := Prod.mk.inj h
      exact .list (reads_listItems ih _ _ _ _ hitems)
    · exact reads_scalar _ _ _ h

theorem reads_header : Reads header Statement.Distinct := by
  intro t statement rest h
  unfold header at h
  split at h
  all_goals
    obtain ⟨⟨path, t'⟩, -, h⟩ := Option.bind_eq_some_iff.1 h
    split at h
    · obtain ⟨rfl, -⟩ := Prod.mk.inj (Option.some.inj h)
      trivial
    · cases h

theorem reads_line : Reads line fun statement => ∀ s ∈ statement, s.Distinct := by
  intro t statement rest h
  unfold line at h
  split at h
  · obtain ⟨⟨s, t'⟩, hs, h⟩ := Option.map_eq_some_iff.1 h
    obtain ⟨rfl, -⟩ := Prod.mk.inj h
    exact fun s' hs' => Option.some.inj hs' ▸ reads_header _ _ _ hs
  · split at h
    · obtain ⟨rfl, -⟩ := Prod.mk.inj (Option.some.inj h)
      exact nofun
    · obtain ⟨⟨s, t'⟩, hs, h⟩ := Option.map_eq_some_iff.1 h
      obtain ⟨rfl, -⟩ := Prod.mk.inj h
      exact fun s' hs' =>
        Option.some.inj hs' ▸ reads_assignment (reads_value deepestValue) _ _ _ hs

theorem distinct_of_statements? {fuel : Nat} {t : List Char} {statements : List Statement}
    (h : statements? fuel t = some statements) : ∀ s ∈ statements, s.Distinct := by
  induction fuel generalizing t statements with
  | zero =>
    cases t with
    | nil =>
      obtain rfl := Option.some.inj h
      exact nofun
    | cons c t => cases h
  | succ fuel ih =>
    cases t with
    | nil =>
      obtain rfl := Option.some.inj h
      exact nofun
    | cons c t =>
      obtain ⟨⟨first, t'⟩, hfirst, h⟩ := Option.bind_eq_some_iff.1 h
      obtain ⟨t'', -, h⟩ := Option.bind_eq_some_iff.1 h
      obtain ⟨others, hothers, h⟩ := Option.bind_eq_some_iff.1 h
      obtain rfl := Option.some.inj h
      intro s hs
      rcases List.mem_append.1 hs with hs | hs
      · exact reads_line _ _ _ hfirst s (Option.mem_toList.1 hs)
      · exact ih hothers s hs

/-! ## Points in time -/

theorem distinct_of_dateTime? {result : Setting} (h : dateTime? setting = some result) :
    result.Distinct := by
  unfold dateTime? at h
  split at h
  · obtain ⟨time, -, rfl⟩ := Option.map_eq_some_iff.1 h
    exact .scalar _
  · cases h

theorem keys_of_datedEntries? {entries result : Keyed Setting}
    (h : datedEntries? entries = some result) : result.keys = entries.keys ∧
      ∀ e ∈ result, ∃ e' ∈ entries, dated? e'.2 = some e.2 := by
  induction entries generalizing result with
  | nil =>
    rw [datedEntries?] at h
    obtain rfl := Option.some.inj h
    exact ⟨rfl, nofun⟩
  | cons e entries ih =>
    obtain ⟨key, value⟩ := e
    rw [datedEntries?] at h
    obtain ⟨first, hfirst, h⟩ := Option.bind_eq_some_iff.1 h
    obtain ⟨rest, hrest, h⟩ := Option.bind_eq_some_iff.1 h
    obtain rfl := Option.some.inj h
    obtain ⟨hkeys, hmem⟩ := ih hrest
    refine ⟨congrArg (key :: ·) hkeys, fun e he => ?_⟩
    rcases List.mem_cons.1 he with rfl | he
    · exact ⟨_, List.mem_cons_self, hfirst⟩
    · obtain ⟨e', he', hdated⟩ := hmem e he
      exact ⟨e', List.mem_cons_of_mem _ he', hdated⟩

theorem mem_of_datedItems? {items result : List Setting} (h : datedItems? items = some result) :
    ∀ item ∈ result, ∃ item' ∈ items, dated? item' = some item := by
  induction items generalizing result with
  | nil =>
    rw [datedItems?] at h
    obtain rfl := Option.some.inj h
    exact nofun
  | cons item items ih =>
    rw [datedItems?] at h
    obtain ⟨first, hfirst, h⟩ := Option.bind_eq_some_iff.1 h
    obtain ⟨rest, hrest, h⟩ := Option.bind_eq_some_iff.1 h
    obtain rfl := Option.some.inj h
    intro other hother
    rcases List.mem_cons.1 hother with rfl | hother
    · exact ⟨item, List.mem_cons_self, hfirst⟩
    · obtain ⟨item', hitem', hdated⟩ := ih hrest other hother
      exact ⟨item', List.mem_cons_of_mem item hitem', hdated⟩

theorem distinct_of_dated? (hsetting : setting.Distinct) :
    ∀ result, dated? setting = some result → result.Distinct := by
  induction hsetting with
  | nothing =>
    intro result h
    simp only [dated?, Option.some.injEq] at h
    exact h ▸ .nothing
  | scalar value =>
    intro result h
    simp only [dated?, Option.some.injEq] at h
    exact h ▸ .scalar value
  | list _ ih =>
    intro result h
    rw [dated?] at h
    obtain ⟨dated, hdated, rfl⟩ := Option.map_eq_some_iff.1 h
    refine .list fun item hitem => ?_
    obtain ⟨item', hitem', hvalue⟩ := mem_of_datedItems? hdated item hitem
    exact ih item' hitem' _ hvalue
  | @table entries hkeys _ ih =>
    intro result h
    cases entries with
    | nil =>
      simp only [dated?, Option.some.injEq] at h
      exact h ▸ Setting.distinct_empty
    | cons e entries =>
      obtain ⟨key, value⟩ := e
      rw [dated?] at h
      split at h
      · exact distinct_of_dateTime? h
      · have hentries : ∃ dated, datedEntries? ((key, value) :: entries) = some dated ∧
            result = .table dated := by
          obtain ⟨first, hfirst, h⟩ := Option.bind_eq_some_iff.1 h
          obtain ⟨rest, hrest, h⟩ := Option.bind_eq_some_iff.1 h
          refine ⟨(key, first) :: rest, ?_, (Option.some.inj h).symm⟩
          rw [datedEntries?, hfirst, hrest]
          rfl
        obtain ⟨dated, hdated, rfl⟩ := hentries
        obtain ⟨hsame, hmem⟩ := keys_of_datedEntries? hdated
        refine .table (hsame ▸ hkeys) fun e he => ?_
        obtain ⟨e', he', hvalue⟩ := hmem e he
        exact ih e' he' _ hvalue

/-- A document defines no key of a table twice. -/
theorem distinct_of_table? {text : String} {entries : Keyed Setting}
    (h : table? text = some entries) : (Setting.table entries).Distinct := by
  obtain ⟨statements, hstatements, h⟩ := Option.bind_eq_some_iff.1 h
  obtain ⟨document, hdocument, h⟩ := Option.bind_eq_some_iff.1 h
  obtain ⟨root, hroot, h⟩ := Option.bind_eq_some_iff.1 h
  have hdistinct : root.Distinct := distinct_of_dated?
    (Document.distinct_ofStatements? (distinct_of_statements? hstatements) hdocument) _ hroot
  split at h
  · exact Option.some.inj h ▸ hdistinct
  · cases h

end Excerpt.Toml
