import Excerpt.Proofs.Setting.Distinct
import Excerpt.Setting.Path
import Excerpt.Setting.Reading

/-!
# Known settings

There are five settings in two tables. Where entries name no other key and have values that the
settings take, merging them into a tree changes just the settings that they name, whatever else is
in the tables. A tree with a value for each setting is a configuration.
-/

namespace Excerpt

inductive SettingKey where
  | proxyUrl
  | removeIndentation
  | numbering
  | skip
  | format
deriving DecidableEq, Repr

namespace SettingKey

def table : SettingKey → String
  | format => "output"
  | _ => "sampler"

def name : SettingKey → String
  | proxyUrl => "proxy_url"
  | removeIndentation => "remove_indentation"
  | numbering => "line_numbers"
  | skip => "skip"
  | format => "format"

def dotted (key : SettingKey) : String := key.table ++ "." ++ key.name

/-- What a configuration holds for the setting. -/
def Kind : SettingKey → Type
  | proxyUrl => String
  | removeIndentation => Bool
  | numbering => DefaultNumbering
  | skip => String
  | format => OutputFormat

/-- What a scalar stands for as the value of the setting, if the setting takes it. -/
def read? : (key : SettingKey) → Scalar → Option key.Kind
  | proxyUrl, value => some value.asText
  | removeIndentation, value => value.flag?
  | numbering, value => value.numbering?
  | skip, value => some value.asText
  | format, value => Setting.format? (.scalar value)

def Takes (key : SettingKey) (value : Scalar) : Prop := (key.read? value).isSome = true

instance (key : SettingKey) (value : Scalar) : Decidable (key.Takes value) :=
  inferInstanceAs (Decidable (_ = true))

/-- The value that a configuration has for the setting. -/
def of (configuration : Configuration) : (key : SettingKey) → key.Kind
  | proxyUrl => configuration.defaults.proxyUrl
  | removeIndentation => configuration.defaults.removeIndentation
  | numbering => configuration.defaults.numbering
  | skip => configuration.defaults.skip
  | format => configuration.format

def builtIn : SettingKey → Scalar
  | proxyUrl => .text ""
  | removeIndentation => .flag false
  | numbering => .text "off"
  | skip => .text ""
  | format => .text "annotated"

end SettingKey

variable {key : SettingKey} {value : Scalar} {entries old : Keyed Setting} {setting : Setting}
  {values : SettingKey → Scalar}

namespace Setting

/-- The scalar that stands under the key of a setting in its table. -/
def value? (setting : Setting) (key : SettingKey) : Option Scalar :=
  match setting.find? [key.table, key.name] with
  | some (scalar value) => some value
  | _ => none

theorem exists_table_of_value? (h : setting.value? key = some value) : ∃ group : Keyed Setting,
    setting.get? key.table = some (.table group) ∧ group.get? key.name = some (.scalar value) := by
  unfold value? at h
  split at h
  · rename_i v hfind
    obtain rfl := Option.some.inj h
    obtain ⟨inner, hinner, hfind⟩ := Option.bind_eq_some_iff.1 hfind
    obtain ⟨s, hs, hfind⟩ := Option.bind_eq_some_iff.1 hfind
    rw [find?_nil, Option.some.injEq] at hfind
    subst hfind
    cases inner with
    | table group => exact ⟨group, hinner, hs⟩
    | _ => cases hs
  · cases h

/-- A setting with a value for every key is a configuration. -/
theorem exists_configuration?_eq (hvalues : ∀ key, setting.value? key = some (values key))
    (htakes : ∀ key : SettingKey, key.Takes (values key)) :
    ∃ configuration, setting.configuration? = some configuration ∧
      ∀ key : SettingKey, key.read? (values key) = some (key.of configuration) := by
  obtain ⟨sampler, hsampler, hproxy⟩ := exists_table_of_value? (hvalues .proxyUrl)
  obtain ⟨_, hsampler', hindent⟩ := exists_table_of_value? (hvalues .removeIndentation)
  obtain ⟨_, hsampler'', hnumbering⟩ := exists_table_of_value? (hvalues .numbering)
  obtain ⟨_, hsampler''', hskip⟩ := exists_table_of_value? (hvalues .skip)
  obtain ⟨output, houtput, hformat⟩ := exists_table_of_value? (hvalues .format)
  obtain rfl := Setting.table.inj (Option.some.inj (hsampler.symm.trans hsampler'))
  obtain rfl := Setting.table.inj (Option.some.inj (hsampler.symm.trans hsampler''))
  obtain rfl := Setting.table.inj (Option.some.inj (hsampler.symm.trans hsampler'''))
  obtain ⟨yes, hyes⟩ := Option.isSome_iff_exists.1 (htakes .removeIndentation)
  obtain ⟨numbers, hnumbers⟩ := Option.isSome_iff_exists.1 (htakes .numbering)
  obtain ⟨format, hread⟩ := Option.isSome_iff_exists.1 (htakes .format)
  have hdefaults : defaults? (.table sampler) = some ⟨(values .proxyUrl).asText, yes, numbers,
      (values .skip).asText⟩ := by
    simp only [SettingKey.name] at hproxy hindent hnumbering hskip
    simp only [SettingKey.read?] at hyes hnumbers
    simp only [defaults?, defaultsOf?, hproxy, hindent, hnumbering, hskip, field?,
      Function.comp_apply, hyes, hnumbers]
    rfl
  have hfound : outputFormat? (.table output) = some format := by
    simp only [SettingKey.name] at hformat
    simp only [outputFormat?, hformat, Option.bind_some]
    exact hread
  have hconfiguration : setting.configuration? = some ⟨⟨(values .proxyUrl).asText, yes, numbers,
      (values .skip).asText⟩, format⟩ := by
    simp only [SettingKey.table] at hsampler houtput
    simp only [configuration?, hsampler, houtput, Option.bind_eq_bind, Option.bind_some, hdefaults,
      hfound]
    rfl
  refine ⟨_, hconfiguration, fun key => ?_⟩
  cases key with
  | proxyUrl => rfl
  | removeIndentation => exact hyes
  | numbering => exact hnumbers
  | skip => rfl
  | format => exact hread

end Setting

/-! ## Merging known settings -/

/-- A setting that is known under a name in a table, with a value that it takes. -/
def KnownSetting (table name : String) (setting : Setting) : Prop :=
  ∃ (key : SettingKey) (value : Scalar), key.table = table ∧ key.name = name ∧
    setting = .scalar value ∧ key.Takes value

/-- One of the two tables, with nothing but known settings in it. -/
def KnownTable (table : String) (setting : Setting) : Prop :=
  (∃ key : SettingKey, key.table = table) ∧ ∃ group : Keyed Setting, setting = .table group ∧
    ∀ e ∈ group, KnownSetting table e.1 e.2

/-- Entries of the two tables alone. -/
def Known (entries : Keyed Setting) : Prop := ∀ e ∈ entries, KnownTable e.1 e.2

theorem KnownTable.distinct {table : String} (h : KnownTable table setting)
    (hkeys : setting.entries.keys.Nodup) : setting.Distinct := by
  obtain ⟨-, group, rfl, hsettings⟩ := h
  refine .table hkeys fun e he => ?_
  obtain ⟨-, value, -, -, hvalue, -⟩ := hsettings e he
  exact hvalue ▸ .scalar value

namespace SettingKey

theorem lowerKey_table (key : SettingKey) : lowerKey key.table = key.table := by
  cases key <;> decide

theorem lowerKey_name (key : SettingKey) : lowerKey key.name = key.name := by
  cases key <;> decide

theorem ofKey_table (key : SettingKey) : Setting.Path.ofKey key.table = ⟨key.table, []⟩ := by
  cases key <;> decide

theorem ofText?_dotted (key : SettingKey) :
    Setting.Path.ofText? key.dotted = some ⟨key.table, [.key key.name]⟩ := by
  cases key <;> decide

theorem dotted_injective {key key' : SettingKey} (h : key.dotted = key'.dotted) : key = key' := by
  revert h
  cases key <;> cases key' <;> decide

theorem eq_of_table_of_name {key key' : SettingKey} (ht : key.table = key'.table)
    (hn : key.name = key'.name) : key = key' :=
  dotted_injective (by rw [dotted, dotted, ht, hn])

end SettingKey

theorem lowerKey_of_knownSettings {table : String} {group : Keyed Setting}
    (h : ∀ e ∈ group, KnownSetting table e.1 e.2) : ∀ k ∈ group.keys, lowerKey k = k := by
  intro k hk
  obtain ⟨e, he, rfl⟩ := List.mem_map.1 hk
  obtain ⟨key, -, -, hname, -⟩ := h e he
  exact hname ▸ key.lowerKey_name

theorem Known.lowerKey (h : Known entries) : ∀ k ∈ entries.keys, lowerKey k = k := by
  intro k hk
  obtain ⟨e, he, rfl⟩ := List.mem_map.1 hk
  obtain ⟨⟨key, hkey⟩, -⟩ := h e he
  exact hkey ▸ key.lowerKey_table

namespace Setting

/-- Merging keeps what holds of all entries, if merging one value does. -/
theorem exists_mergeEntries_eq {P : String → Setting → Prop}
    (hmerge : ∀ e ∈ entries, ∀ o : Option Setting, (∀ s ∈ o, P e.1 s) →
      lowerKey e.1 = e.1 ∧ P e.1 (merge e.2 o))
    (hold : ∀ e ∈ old, P e.1 e.2) :
    ∃ merged : Keyed Setting, mergeEntries entries (.table old) = .table merged ∧
      ∀ e ∈ merged, P e.1 e.2 := by
  induction entries generalizing old with
  | nil => exact ⟨old, mergeEntries_nil _, hold⟩
  | cons e entries ih =>
    have hget : ∀ s ∈ (table old).get? e.1, P e.1 s := fun s hs => hold _ (Keyed.mem_of_get? hs)
    obtain ⟨hlower, hvalue⟩ := hmerge e List.mem_cons_self _ hget
    have hput : ∀ e' ∈ old.put e.1 (merge e.2 ((table old).get? e.1)), P e'.1 e'.2 := by
      intro e' he'
      rcases Keyed.mem_put he' with rfl | he'
      · exact hvalue
      · exact hold e' he'
    have hupdate : (table old).update e.1 (merge e.2) =
        .table (old.put e.1 (merge e.2 ((table old).get? e.1))) := by
      rw [update, hlower]
      rfl
    rw [mergeEntries_cons, hupdate]
    exact ih (fun e' he' => hmerge e' (List.mem_cons_of_mem e he')) hput

theorem known_mergeEntries (hentries : Known entries) (hold : Known old) :
    ∃ merged : Keyed Setting, mergeEntries entries (.table old) = .table merged ∧ Known merged := by
  refine exists_mergeEntries_eq (P := KnownTable) (fun e he o ho => ?_) hold
  obtain ⟨⟨key, hkey⟩, group, hgroup, hsettings⟩ := hentries e he
  refine ⟨hkey ▸ key.lowerKey_table, ⟨key, hkey⟩, ?_⟩
  obtain ⟨there, hthere, hknown⟩ : ∃ there : Keyed Setting, o.getD empty = .table there ∧
      ∀ e' ∈ there, KnownSetting e.1 e'.1 e'.2 := by
    cases o with
    | none => exact ⟨[], rfl, nofun⟩
    | some s =>
      obtain ⟨-, there, rfl, hknown⟩ := ho s rfl
      exact ⟨there, rfl, hknown⟩
  rw [hgroup, merge, hthere]
  refine exists_mergeEntries_eq (P := KnownSetting e.1) (fun e' he' o' _ => ?_) hknown
  obtain ⟨key', value, htable, hname, hvalue, htakes⟩ := hsettings e' he'
  refine ⟨hname ▸ key'.lowerKey_name, key', value, htable, hname, ?_, htakes⟩
  rw [hvalue, merge_scalar]

theorem find?_pair (setting : Setting) (table name : String) :
    setting.find? [table, name] = (setting.get? table).bind (·.get? name) := by
  rw [find?]
  congr 1
  funext inner
  rw [find?]
  simp

theorem get?_getD {name : String} {d : Setting} (h : d.get? name = none) (o : Option Setting) :
    (o.getD d).get? name = o.bind (·.get? name) := by
  cases o with
  | none => exact h
  | some s => rfl

/-- A known setting comes out of a merge with the value that comes in, or else keeps its own. -/
theorem value?_mergeEntries (hentries : Known entries) (hdistinct : (table entries).Distinct)
    (setting : Setting) (key : SettingKey) : (mergeEntries entries setting).value? key =
      ((table entries).value? key).or (setting.value? key) := by
  have hkeys : (Keyed.keys entries).Nodup := hdistinct.nodup_keys
  have hself : (table entries).get? key.table = Keyed.get? entries key.table := rfl
  rw [value?, value?, value?, find?_pair, find?_pair, find?_pair,
    get?_mergeEntries hkeys hentries.lowerKey, hself]
  cases htable : Keyed.get? entries key.table with
  | none => rfl
  | some s =>
    have hmem := Keyed.mem_of_get? htable
    obtain ⟨-, group, hgroup, hsettings⟩ := hentries _ hmem
    obtain rfl : s = .table group := hgroup
    have hdistinct' : (table group).Distinct := hdistinct.of_mem _ hmem
    have hgroupKeys : (Keyed.keys group).Nodup := hdistinct'.nodup_keys
    have hgroupSelf : (table group).get? key.name = Keyed.get? group key.name := rfl
    simp only [Option.map_some, Option.some_or, Option.bind_some, merge,
      get?_mergeEntries hgroupKeys (lowerKey_of_knownSettings hsettings), hgroupSelf,
      get?_getD (d := empty) rfl]
    cases hname : Keyed.get? group key.name with
    | none => rfl
    | some s' =>
      obtain ⟨-, value, -, -, hvalue, -⟩ := hsettings _ (Keyed.mem_of_get? hname)
      obtain rfl : s' = .scalar value := hvalue
      simp

theorem takes_of_value? (hentries : Known entries) (h : (table entries).value? key = some value) :
    key.Takes value := by
  obtain ⟨group, htable, hname⟩ := exists_table_of_value? h
  obtain ⟨-, group', hgroup, hsettings⟩ := hentries _ (Keyed.mem_of_get? htable)
  obtain rfl := Setting.table.inj hgroup
  obtain ⟨key', value', htable', hname', hvalue, htakes⟩ := hsettings _ (Keyed.mem_of_get? hname)
  obtain rfl := SettingKey.eq_of_table_of_name htable' hname'
  obtain rfl := Setting.scalar.inj hvalue
  exact htakes

theorem layer_ofEntries (h : Known entries) (setting : Setting) :
    setting.layer (.ofEntries entries) = mergeEntries entries setting := by
  induction entries generalizing setting with
  | nil => simp [Layer.ofEntries]
  | cons e entries ih =>
    obtain ⟨⟨key, hkey⟩, -⟩ := h e List.mem_cons_self
    have hlayer : Layer.ofEntries (e :: entries) = (⟨e.1, []⟩, e.2) :: Layer.ofEntries entries := by
      rw [← hkey, ← key.ofKey_table, hkey]
      rfl
    rw [hlayer, layer_cons, mergeEntries_cons, ih fun e' he' => h e' (List.mem_cons_of_mem e he')]
    rfl

theorem value?_assign_dotted (setting : Setting) (value : Scalar) (key key' : SettingKey) :
    (setting.assign (.scalar value) ⟨key.table, [.key key.name]⟩).value? key' =
      if key = key' then some value else setting.value? key' := by
  rw [value?, value?, find?_pair, find?_pair, assign, assignAt, get?_update, key.lowerKey_table]
  by_cases htable : key.table = key'.table
  · rw [if_pos htable, Option.bind_some, assignAt, get?_update, key.lowerKey_name]
    by_cases hname : key.name = key'.name
    · rw [if_pos hname, if_pos (SettingKey.eq_of_table_of_name htable hname), merge_scalar]
    · have hne : key ≠ key' := fun heq => hname (congrArg SettingKey.name heq)
      rw [if_neg hname, if_neg hne, get?_getD (d := nothing) rfl]
  · have hne : key ≠ key' := fun heq => htable (congrArg SettingKey.table heq)
    rw [if_neg htable, if_neg hne]

/-- A setting of the two tables alone that has the given values. -/
structure Settled (setting : Setting) (values : SettingKey → Option Scalar) : Prop where
  known : ∃ entries : Keyed Setting, setting = .table entries ∧ Known entries
  distinct : setting.Distinct
  value? : ∀ key, setting.value? key = values key

theorem settled_empty : Settled empty fun _ => none :=
  ⟨⟨[], rfl, nofun⟩, distinct_empty, fun _ => rfl⟩

namespace Settled

variable {values : SettingKey → Option Scalar}

theorem congr {values' : SettingKey → Option Scalar} (h : Settled setting values)
    (heq : ∀ key, values key = values' key) : Settled setting values' :=
  ⟨h.known, h.distinct, fun key => (h.value? key).trans (heq key)⟩

theorem merge (h : Settled setting values) (hentries : Known entries)
    (hdistinct : (table entries).Distinct) :
    Settled (mergeEntries entries setting)
      fun key => ((table entries).value? key).or (values key) := by
  obtain ⟨old, rfl, hold⟩ := h.known
  obtain ⟨merged, hmerged, hknown⟩ := known_mergeEntries hentries hold
  have hmerge : mergeEntries entries (.table old) =
      Setting.merge (.table entries) (some (.table old)) := by
    rw [Setting.merge]
    rfl
  refine ⟨⟨merged, hmerged, hknown⟩, ?_, fun key => ?_⟩
  · rw [hmerge]
    exact hdistinct.merge _ fun s hs => Option.some.inj hs ▸ h.distinct
  · rw [value?_mergeEntries hentries hdistinct, h.value?]

theorem layer_ofEntries (h : Settled setting values) (hentries : Known entries)
    (hdistinct : (table entries).Distinct) :
    Settled (setting.layer (.ofEntries entries))
      fun key => ((table entries).value? key).or (values key) := by
  rw [Setting.layer_ofEntries hentries]
  exact h.merge hentries hdistinct

/-- What is read for paths once more comes to the same. -/
theorem again (h : Settled setting values) :
    Settled (empty.layer (.ofEntries setting.entries)) values := by
  obtain ⟨entries, rfl, hentries⟩ := h.known
  refine (settled_empty.layer_ofEntries hentries h.distinct).congr fun key => ?_
  rw [Option.or_none, h.value?]

theorem takes (h : Settled setting values) (hvalue : values key = some value) :
    key.Takes value := by
  obtain ⟨entries, rfl, hentries⟩ := h.known
  exact takes_of_value? hentries ((h.value? key).trans hvalue)

end Settled

end Setting

end Excerpt
