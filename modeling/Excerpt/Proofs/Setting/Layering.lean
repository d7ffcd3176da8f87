import Excerpt.Proofs.Setting.Known
import Excerpt.Proofs.Toml.Distinct
import Excerpt.Setting.Loading

/-!
# Layers of settings

Files and overrides set the values of settings. Where the files that are there are well formed and
name known settings alone, a configuration is loaded unless a required file is missing. Each setting
then has the value of its last override, else that of the last file that sets it, else the built-in
one, whatever the rest of its table is.
-/

namespace Excerpt

/-- No table that is read has a key twice. -/
structure TableReader.Lawful (read : TableReader) : Prop where
  distinct {text : String} {entries : Keyed Setting} (h : read text = some entries) :
    (Setting.table entries).Distinct

variable {key : SettingKey} {value : Scalar} {entries : Keyed Setting} {setting : Setting}
  {read : TableReader} {directory : Directory} {source : SettingSource}
  {sources : List SettingSource} {layer : Setting.Layer}

/-! ## Sources -/

namespace SettingSource

/-- One of the paths that the source may be found under leads to a file. -/
def Present (directory : Directory) (source : SettingSource) : Prop :=
  ∃ path ∈ source.paths, ∃ bytes, directory path = .file bytes

/-- The entries of a file, if there is one and its text is well formed. -/
def entries? (read : TableReader) (directory : Directory) :
    SettingSource → Option (Keyed Setting)
  | required path => (directory.settingsText? path).bind read
  | optional path => (directory.settingsText? path).bind read
  | override _ _ => none

/-- The value that a file sets. -/
def fileValue? (read : TableReader) (directory : Directory) (key : SettingKey)
    (source : SettingSource) : Option Scalar :=
  (source.entries? read directory).bind fun entries => (Setting.table entries).value? key

/-- The value that an override sets. -/
def overrideValue? (key : SettingKey) : SettingSource → Option Scalar
  | override k value => if k = key.dotted then some value else none
  | _ => none

/-- The files that are there set known settings alone, to values that these take. -/
def WellTyped (read : TableReader) (directory : Directory) (source : SettingSource) : Prop :=
  (source.Present directory →
    ∃ entries, source.entries? read directory = some entries ∧ Known entries) ∧
    ∀ k value, source = .override k value → ∃ key : SettingKey, k = key.dotted ∧ key.Takes value

end SettingSource

namespace Configuration

/-- The value of a setting: that of its last override, else that of the last file that sets it, else
the built-in one. -/
def settledValue (read : TableReader) (directory : Directory) (sources : List SettingSource)
    (key : SettingKey) : Scalar :=
  ((sources.reverse.findSome? (SettingSource.overrideValue? key)).or
    (sources.reverse.findSome? (SettingSource.fileValue? read directory key))).getD key.builtIn

end Configuration

theorem Directory.exists_file_of_settingsText? {path text : String}
    (h : directory.settingsText? path = some text) :
    ∃ p ∈ path :: (withExtension? path).toList, ∃ bytes, directory p = .file bytes := by
  have hfile (p : String) (bytes : ByteArray) (hp : directory.bytes? p = some bytes) :
      directory p = .file bytes := by
    rw [bytes?] at hp
    split at hp
    · rename_i found hfound
      exact Option.some.inj hp ▸ hfound
    · cases hp
  obtain ⟨bytes, hbytes, -⟩ := Option.bind_eq_some_iff.1 h
  cases hpath : directory.bytes? path with
  | some bytes => exact ⟨path, List.mem_cons_self, bytes, hfile path bytes hpath⟩
  | none =>
    rw [hpath] at hbytes
    obtain ⟨p, hp, hbytes⟩ := Option.bind_eq_some_iff.1 hbytes
    exact ⟨p, List.mem_cons_of_mem path (by simp [hp]), bytes, hfile p bytes hbytes⟩

namespace SettingSource

/-- What a file comes to. An override and a file that is not there come to nothing. -/
def contribution (read : TableReader) (directory : Directory) (source : SettingSource) :
    Keyed Setting :=
  (source.entries? read directory).getD []

theorem present_of_entries? (h : source.entries? read directory = some entries) :
    source.Present directory := by
  cases source with
  | override k value => cases h
  | _ =>
    obtain ⟨text, htext, -⟩ := Option.bind_eq_some_iff.1 h
    exact Directory.exists_file_of_settingsText? htext

theorem known_contribution (h : source.WellTyped read directory) :
    Known (source.contribution read directory) := by
  rw [contribution]
  cases hentries : source.entries? read directory with
  | none => exact nofun
  | some entries =>
    obtain ⟨entries', hentries', hknown⟩ := h.1 (present_of_entries? hentries)
    obtain rfl := Option.some.inj (hentries.symm.trans hentries')
    exact hknown

theorem distinct_contribution (hlawful : read.Lawful) (directory : Directory)
    (source : SettingSource) : (Setting.table (source.contribution read directory)).Distinct := by
  have htext (text : Option String) : (Setting.table ((text.bind read).getD [])).Distinct := by
    cases htable : text.bind read with
    | none => exact Setting.distinct_empty
    | some entries =>
      obtain ⟨text, -, htable⟩ := Option.bind_eq_some_iff.1 htable
      exact hlawful.distinct htable
  cases source with
  | override k value => exact Setting.distinct_empty
  | _ => exact htext _

theorem value?_contribution (read : TableReader) (directory : Directory)
    (source : SettingSource) (key : SettingKey) :
    (Setting.table (source.contribution read directory)).value? key =
      source.fileValue? read directory key := by
  rw [contribution, fileValue?]
  cases source.entries? read directory <;> rfl

theorem sourceLayer_of_absent {path : String} (h : ¬ (required path).Present directory) :
    Configuration.sourceLayer read directory (required path) = .error (.missingFile path) := by
  cases htext : directory.settingsText? path with
  | none => simp only [Configuration.sourceLayer, htext]
  | some text => exact absurd (Directory.exists_file_of_settingsText? htext) h

theorem fileLayer_eq {path text : String} (htext : directory.settingsText? path = some text)
    (hentries : source.entries? read directory = (directory.settingsText? path).bind read)
    (hknown : ∃ entries, source.entries? read directory = some entries) :
    Configuration.fileLayer read path text =
      .ok (Setting.Layer.ofEntries (source.contribution read directory)) := by
  obtain ⟨entries, hsome⟩ := hknown
  rw [contribution, hsome, Configuration.fileLayer]
  rw [hentries, htext, Option.bind_some] at hsome
  rw [hsome]
  rfl

/-- A file that is there, or need not be, comes to its entries. -/
theorem sourceLayer_file (h : source.WellTyped read directory) (hfile : source.isOverride = false)
    (hpresent : ∀ path, source = .required path → source.Present directory) :
    Configuration.sourceLayer read directory source =
      .ok (Setting.Layer.ofEntries (source.contribution read directory)) := by
  cases source with
  | required path =>
    obtain ⟨entries, hentries, -⟩ := h.1 (hpresent path rfl)
    obtain ⟨text, htext, -⟩ := Option.bind_eq_some_iff.1 hentries
    simp only [Configuration.sourceLayer, htext]
    exact fileLayer_eq htext rfl ⟨entries, hentries⟩
  | optional path =>
    rw [Configuration.sourceLayer]
    cases htext : directory.settingsText? path with
    | none => simp [contribution, entries?, htext, Setting.Layer.ofEntries]
    | some text =>
      obtain ⟨entries, hentries, -⟩ := h.1 (Directory.exists_file_of_settingsText? htext)
      exact fileLayer_eq htext rfl ⟨entries, hentries⟩
  | override k value => cases hfile

end SettingSource

namespace Configuration

/-! ## The last that has a value -/

theorem findSome?_reverse_cons {α β : Type} (f : α → Option β) (a : α) (l : List α) :
    (a :: l).reverse.findSome? f = (l.reverse.findSome? f).or (f a) := by
  rw [List.reverse_cons, List.findSome?_append, List.findSome?_singleton]

theorem findSome?_reverse_filter {α β : Type} {f : α → Option β} {p : α → Bool}
    (h : ∀ a, p a = false → f a = none) (l : List α) :
    (l.filter p).reverse.findSome? f = l.reverse.findSome? f := by
  induction l with
  | nil => rfl
  | cons a l ih =>
    rw [List.filter_cons, findSome?_reverse_cons]
    cases hp : p a with
    | true => rw [if_pos rfl, findSome?_reverse_cons, ih]
    | false => rw [if_neg Bool.false_ne_true, ih, h a hp, Option.or_none]

theorem findSome?_reverse_insert {α β : Type} {f : α → Option β} {a : α} (h : f a = none)
    (before after : List α) :
    (before ++ a :: after).reverse.findSome? f = (before ++ after).reverse.findSome? f := by
  simp [List.findSome?_append, h]

/-! ## Layers -/

theorem layersOf_cons (read : TableReader) (directory : Directory) (source : SettingSource)
    (sources : List SettingSource) : layersOf read directory (source :: sources) =
      (sourceLayer read directory source).bind fun layer =>
        (layersOf read directory sources).map (layer ++ ·) := by
  simp only [layersOf, List.mapM_cons]
  cases sourceLayer read directory source with
  | error failure => rfl
  | ok layer =>
    cases hrest : sources.mapM (sourceLayer read directory) with
    | error failure => rfl
    | ok layers => rfl

theorem exists_sourceLayer_of_layersOf (h : layersOf read directory sources = .ok layer) :
    ∀ source ∈ sources, ∃ l, sourceLayer read directory source = .ok l := by
  induction sources generalizing layer with
  | nil => exact nofun
  | cons source sources ih =>
    rw [layersOf_cons] at h
    cases hsource : sourceLayer read directory source with
    | error failure =>
      rw [hsource] at h
      cases h
    | ok l =>
      cases hrest : layersOf read directory sources with
      | error failure =>
        rw [hsource, hrest] at h
        cases h
      | ok layers =>
        intro other hother
        rcases List.mem_cons.1 hother with rfl | hother
        · exact ⟨l, hsource⟩
        · exact ih hrest other hother

theorem layersOf_files (htyped : ∀ source ∈ sources, source.WellTyped read directory)
    (hfiles : ∀ source ∈ sources, source.isOverride = false)
    (hpresent : ∀ path, .required path ∈ sources →
      (SettingSource.required path).Present directory) :
    layersOf read directory sources = .ok (sources.flatMap fun source =>
      Setting.Layer.ofEntries (source.contribution read directory)) := by
  induction sources with
  | nil => rfl
  | cons source sources ih =>
    have hthere (path : String) (heq : source = .required path) : source.Present directory :=
      heq ▸ hpresent path (heq ▸ List.mem_cons_self)
    have hsource := SettingSource.sourceLayer_file (htyped source List.mem_cons_self)
      (hfiles source List.mem_cons_self) hthere
    have hrest := ih (fun other hother => htyped other (List.mem_cons_of_mem source hother))
      (fun other hother => hfiles other (List.mem_cons_of_mem source hother))
      fun path hpath => hpresent path (List.mem_cons_of_mem source hpath)
    rw [layersOf_cons, hsource, hrest, List.flatMap_cons]
    rfl

/-- The files set what the last of them sets and leave the rest. -/
theorem settled_files (hlawful : read.Lawful) {values : SettingKey → Option Scalar}
    (h : Setting.Settled setting values)
    (htyped : ∀ source ∈ sources, source.WellTyped read directory) :
    Setting.Settled (setting.layer (sources.flatMap fun source =>
        Setting.Layer.ofEntries (source.contribution read directory)))
      fun key => (sources.reverse.findSome? (SettingSource.fileValue? read directory key)).or
        (values key) := by
  induction sources generalizing setting values with
  | nil => exact h
  | cons source sources ih =>
    rw [List.flatMap_cons, Setting.layer_append]
    have hsource := h.layer_ofEntries
      (SettingSource.known_contribution (htyped source List.mem_cons_self))
      (SettingSource.distinct_contribution hlawful directory source)
    refine (ih hsource fun other hother => htyped other (List.mem_cons_of_mem source hother)).congr
      fun key => ?_
    rw [findSome?_reverse_cons, SettingSource.value?_contribution, Option.or_assoc]

theorem settled_builtIn :
    Setting.Settled (Setting.empty.layer builtIn) fun key => some key.builtIn := by
  have hsampler : KnownTable "sampler" builtInSampler := by
    refine ⟨⟨.skip, rfl⟩, _, rfl, fun e he => ?_⟩
    simp only [List.mem_cons, List.not_mem_nil, or_false] at he
    rcases he with rfl | rfl | rfl | rfl
    · exact ⟨.proxyUrl, _, rfl, rfl, rfl, rfl⟩
    · exact ⟨.removeIndentation, _, rfl, rfl, rfl, rfl⟩
    · exact ⟨.numbering, _, rfl, rfl, rfl, by decide⟩
    · exact ⟨.skip, _, rfl, rfl, rfl, rfl⟩
  have houtput : KnownTable "output" builtInOutput := by
    refine ⟨⟨.format, rfl⟩, _, rfl, fun e he => ?_⟩
    obtain rfl := List.mem_singleton.1 he
    exact ⟨.format, _, rfl, rfl, rfl, by decide⟩
  have hknown : Known [("sampler", builtInSampler), ("output", builtInOutput)] := by
    intro e he
    simp only [List.mem_cons, List.not_mem_nil, or_false] at he
    rcases he with rfl | rfl
    · exact hsampler
    · exact houtput
  have hdistinct : (Setting.table
      [("sampler", builtInSampler), ("output", builtInOutput)]).Distinct := by
    refine .table (by decide) fun e he => (hknown e he).distinct ?_
    simp only [List.mem_cons, List.not_mem_nil, or_false] at he
    rcases he with rfl | rfl <;> decide
  have hlayer : builtIn = Setting.Layer.ofEntries
      [("sampler", builtInSampler), ("output", builtInOutput)] := by rfl
  rw [hlayer]
  refine (Setting.settled_empty.layer_ofEntries hknown hdistinct).congr fun key => ?_
  cases key <;> rfl

theorem settled_base (hlawful : read.Lawful)
    (htyped : ∀ source ∈ sources, source.WellTyped read directory) :
    Setting.Settled (base (sources.flatMap fun source =>
        Setting.Layer.ofEntries (source.contribution read directory)))
      fun key => some ((sources.reverse.findSome?
        (SettingSource.fileValue? read directory key)).getD key.builtIn) := by
  rw [base, Setting.layer_append]
  refine (settled_files hlawful settled_builtIn htyped).again.congr fun key => ?_
  cases sources.reverse.findSome? (SettingSource.fileValue? read directory key) <;> rfl

/-- Overrides set what the last of them sets, whatever was there. -/
theorem exists_layersOf_overrides (read : TableReader) (directory : Directory)
    (hoverrides : ∀ source ∈ sources, ∃ (key : SettingKey) (value : Scalar),
      source = .override key.dotted value) :
    ∃ layer, layersOf read directory sources = .ok layer ∧
      ∀ (setting : Setting) (key : SettingKey),
      (setting.layer layer).value? key =
        (sources.reverse.findSome? (SettingSource.overrideValue? key)).or (setting.value? key) := by
  induction sources with
  | nil => exact ⟨[], rfl, fun setting key => rfl⟩
  | cons source sources ih =>
    obtain ⟨key, value, rfl⟩ := hoverrides source List.mem_cons_self
    obtain ⟨layer, hlayer, hvalues⟩ := ih fun other hother =>
      hoverrides other (List.mem_cons_of_mem _ hother)
    refine ⟨(⟨key.table, [.key key.name]⟩, .scalar value) :: layer, ?_, fun setting key' => ?_⟩
    · rw [layersOf_cons, hlayer, sourceLayer, key.ofText?_dotted]
      rfl
    · rw [Setting.layer_cons, hvalues, Setting.value?_assign_dotted, findSome?_reverse_cons,
        Option.or_assoc, SettingSource.overrideValue?]
      congr 1
      by_cases hkey : key = key'
      · rw [if_pos hkey, if_pos (congrArg SettingKey.dotted hkey)]
        rfl
      · have hne : key.dotted ≠ key'.dotted := fun heq => hkey (SettingKey.dotted_injective heq)
        rw [if_neg hkey, if_neg hne, Option.none_or]

theorem takes_of_override (htyped : ∀ source ∈ sources, source.WellTyped read directory)
    (h : sources.reverse.findSome? (SettingSource.overrideValue? key) = some value) :
    key.Takes value := by
  obtain ⟨source, hsource, hvalue⟩ := List.exists_of_findSome?_eq_some h
  cases source with
  | override k v =>
    obtain ⟨key', hkey', htakes⟩ := (htyped _ (List.mem_reverse.1 hsource)).2 k v rfl
    rw [SettingSource.overrideValue?] at hvalue
    split at hvalue
    · rename_i hk
      obtain rfl := SettingKey.dotted_injective (hk.symm.trans hkey')
      exact Option.some.inj hvalue ▸ htakes
    · cases hvalue
  | _ => cases hvalue

theorem overrideValue?_of_file (h : source.isOverride = false) :
    source.overrideValue? key = none := by
  cases source with
  | override k value => cases h
  | _ => rfl

theorem fileValue?_of_override (h : (!source.isOverride) = false) :
    source.fileValue? read directory key = none := by
  cases source with
  | override k value => rfl
  | _ => cases h

theorem load_eq {files overrides : Setting.Layer}
    (hfiles : layersOf read directory (sources.filter (!·.isOverride)) = .ok files)
    (hoverrides : layersOf read directory (sources.filter (·.isOverride)) = .ok overrides) :
    load read directory sources =
      match ((base files).layer overrides).configuration? with
      | some configuration => .ok configuration
      | none => .error .illTyped := by
  rw [load, hfiles, hoverrides]
  rfl

/-- Where nothing that is required is missing, a configuration is loaded, with the value of every
setting. -/
theorem exists_load_eq (hlawful : read.Lawful)
    (htyped : ∀ source ∈ sources, source.WellTyped read directory)
    (hpresent : ∀ path, .required path ∈ sources →
      (SettingSource.required path).Present directory) :
    ∃ configuration, load read directory sources = .ok configuration ∧ ∀ key : SettingKey,
      key.read? (settledValue read directory sources key) = some (key.of configuration) := by
  have htypedFiles : ∀ source ∈ sources.filter (!·.isOverride), source.WellTyped read directory :=
    fun source hsource => htyped source (List.mem_filter.1 hsource).1
  have hfiles := layersOf_files htypedFiles
    (fun source hsource => by simpa using (List.mem_filter.1 hsource).2)
    fun path hpath => hpresent path (List.mem_filter.1 hpath).1
  have hbase := settled_base hlawful htypedFiles
  have hoverrides : ∀ source ∈ sources.filter (·.isOverride), ∃ (key : SettingKey) (value : Scalar),
      source = .override key.dotted value := by
    intro source hsource
    obtain ⟨hmem, hover⟩ := List.mem_filter.1 hsource
    cases source with
    | override k value =>
      obtain ⟨key, rfl, -⟩ := (htyped _ hmem).2 k value rfl
      exact ⟨key, value, rfl⟩
    | _ => cases hover
  obtain ⟨layer, hlayer, hvalues⟩ := exists_layersOf_overrides read directory hoverrides
  have hvalue (key : SettingKey) : ((base ((sources.filter (!·.isOverride)).flatMap fun source =>
      Setting.Layer.ofEntries (source.contribution read directory))).layer layer).value? key =
        some (settledValue read directory sources key) := by
    rw [hvalues, hbase.value?, findSome?_reverse_filter fun source => overrideValue?_of_file,
      findSome?_reverse_filter fun source => fileValue?_of_override, settledValue]
    cases sources.reverse.findSome? (SettingSource.overrideValue? key) <;> rfl
  have htakes (key : SettingKey) : key.Takes (settledValue read directory sources key) := by
    rw [settledValue]
    cases hover : sources.reverse.findSome? (SettingSource.overrideValue? key) with
    | some value => exact takes_of_override htyped hover
    | none =>
      refine hbase.takes ?_
      rw [findSome?_reverse_filter fun source => fileValue?_of_override]
      rfl
  obtain ⟨configuration, hconfiguration, hread⟩ := Setting.exists_configuration?_eq hvalue htakes
  refine ⟨configuration, ?_, hread⟩
  rw [load_eq hfiles hlayer, hconfiguration]

theorem present_of_load {configuration : Configuration}
    (h : load read directory sources = .ok configuration) {path : String}
    (hpath : .required path ∈ sources) : (SettingSource.required path).Present directory := by
  by_cases hpresent : (SettingSource.required path).Present directory
  · exact hpresent
  cases hfiles : layersOf read directory (sources.filter (!·.isOverride)) with
  | error failure =>
    rw [load, hfiles] at h
    cases h
  | ok files =>
    obtain ⟨layer, hlayer⟩ := exists_sourceLayer_of_layersOf hfiles (.required path)
      (List.mem_filter.2 ⟨hpath, rfl⟩)
    rw [SettingSource.sourceLayer_of_absent hpresent] at hlayer
    cases hlayer

theorem layersOf_insert {before after : List SettingSource}
    (h : sourceLayer read directory source = .ok []) :
    layersOf read directory (before ++ source :: after) =
      layersOf read directory (before ++ after) := by
  induction before with
  | nil =>
    rw [List.nil_append, layersOf_cons, h, List.nil_append]
    cases layersOf read directory after <;> rfl
  | cons other before ih =>
    rw [List.cons_append, List.cons_append, layersOf_cons, layersOf_cons, ih]

theorem load_insert_absent {before after : List SettingSource} {path : String}
    (h : ¬ (SettingSource.optional path).Present directory) :
    load read directory (before ++ .optional path :: after) =
      load read directory (before ++ after) := by
  have hlayer : sourceLayer read directory (.optional path) = .ok [] := by
    cases htext : directory.settingsText? path with
    | none => simp only [sourceLayer, htext]
    | some text => exact absurd (Directory.exists_file_of_settingsText? htext) h
  have hoverrides : (before ++ .optional path :: after).filter (·.isOverride) =
      (before ++ after).filter (·.isOverride) := by
    simp [SettingSource.isOverride]
  have hfiles : (before ++ .optional path :: after).filter (!·.isOverride) =
      before.filter (!·.isOverride) ++ .optional path :: after.filter (!·.isOverride) := by
    simp [SettingSource.isOverride]
  rw [load, load, hoverrides, hfiles, layersOf_insert hlayer, ← List.filter_append]

theorem settledValue_insert {before after : List SettingSource} (hfile : source.isOverride = false)
    (h : source.fileValue? read directory key = none) :
    settledValue read directory (before ++ source :: after) key =
      settledValue read directory (before ++ after) key := by
  rw [settledValue, settledValue, findSome?_reverse_insert (overrideValue?_of_file hfile),
    findSome?_reverse_insert h]

/-- Whatever reads tables without repeated keys, files of the two tables with known settings, and
overrides of such settings, are loaded just if every required file is there. Each setting then has
the value of its last override, else that of the last file that sets it, else the built-in one. So
it makes no difference where overrides stand among the files or whether an optional file is asked
for that is not there, and a file leaves what it does not set as it was. -/
theorem settings_layered (read : TableReader) (hlawful : read.Lawful) (directory : Directory)
    (sources : List SettingSource)
    (htyped : ∀ source ∈ sources, source.WellTyped read directory) :
    ((∃ configuration, load read directory sources = .ok configuration) ↔
      ∀ path, .required path ∈ sources → (SettingSource.required path).Present directory) ∧
    (∀ configuration, load read directory sources = .ok configuration → ∀ key : SettingKey,
      key.read? (settledValue read directory sources key) = some (key.of configuration)) ∧
    (∀ sources' : List SettingSource,
      sources'.filter (·.isOverride) = sources.filter (·.isOverride) →
      sources'.filter (!·.isOverride) = sources.filter (!·.isOverride) →
        load read directory sources' = load read directory sources) ∧
    (∀ before path after, sources = before ++ after →
      ¬ (SettingSource.optional path).Present directory →
        load read directory (before ++ .optional path :: after) = load read directory sources) ∧
    ∀ before source after configuration, sources = before ++ source :: after →
      source.isOverride = false → load read directory sources = .ok configuration →
        ∃ without, load read directory (before ++ after) = .ok without ∧ ∀ key : SettingKey,
          source.fileValue? read directory key = none → key.of configuration = key.of without := by
  have hread {configuration : Configuration}
      (hload : load read directory sources = .ok configuration) : ∀ key : SettingKey,
        key.read? (settledValue read directory sources key) = some (key.of configuration) := by
    obtain ⟨configuration', hload', hread⟩ :=
      exists_load_eq hlawful htyped fun path => present_of_load hload
    obtain rfl := Except.ok.inj (hload'.symm.trans hload)
    exact hread
  refine ⟨⟨?_, fun hpresent => ?_⟩, fun configuration => hread,
    fun sources' hoverrides hfiles => ?_, fun before path after hsources habsent => ?_,
    fun before source after configuration hsources hfile hload => ?_⟩
  · rintro ⟨configuration, hload⟩ path
    exact present_of_load hload
  · obtain ⟨configuration, hload, -⟩ := exists_load_eq hlawful htyped hpresent
    exact ⟨configuration, hload⟩
  · rw [load, load, hoverrides, hfiles]
  · rw [hsources]
    exact load_insert_absent habsent
  · have hmem : ∀ other ∈ before ++ after, other ∈ sources := by
      intro other hother
      rw [hsources, List.mem_append, List.mem_cons]
      exact (List.mem_append.1 hother).imp_right .inr
    obtain ⟨without, hwithout, hread'⟩ := exists_load_eq hlawful
      (fun other hother => htyped other (hmem other hother))
      fun path hpath => present_of_load hload (hmem _ hpath)
    refine ⟨without, hwithout, fun key hkey => Option.some.inj ?_⟩
    rw [← hread hload, ← hread', hsources, settledValue_insert hfile hkey]

/-- A required file with a text over two lines, which is found under its longer name, and an
override, in either order, and an optional file that is not there. -/
theorem settings_layered_of_fallback :
    let text := "[sampler]\nproxy_url = \"p/\"\nskip = \"\"\"\n3\"\"\"\n"
    let directory : Directory := fun path =>
      if path = "host.toml" then .file text.toUTF8 else .missing
    let skip : SettingSource := .override "sampler.skip" (.text "1")
    let host : SettingSource := .required "host"
    let gone : SettingSource := .optional "gone"
    (∀ source ∈ [skip, host], source.WellTyped Toml.table? directory) ∧ host.Present directory ∧
      ¬ gone.Present directory ∧
      ∃ configuration, load Toml.table? directory [skip, host] = .ok configuration ∧
        configuration = ⟨⟨"p/", false, .off, "1"⟩, .annotated⟩ ∧
        load Toml.table? directory [host, skip] = .ok configuration ∧
        load Toml.table? directory [skip, gone, host] = .ok configuration := by
  intro text directory skip host gone
  let group : Keyed Setting :=
    [("sampler", .table [("proxy_url", .scalar (.text "p/")), ("skip", .scalar (.text "3"))])]
  have hhost : host.Present directory := ⟨"host.toml", by decide, text.toUTF8, if_pos rfl⟩
  have hgone : ¬ gone.Present directory := by
    rintro ⟨path, hpath, bytes, hfile⟩
    have hne : path ≠ "host.toml" := by
      rintro rfl
      exact absurd hpath (by decide)
    simp [directory, hne] at hfile
  have htext : directory.settingsText? "host" = some text := by
    have hbytes : directory.bytes? "host" = none := by simp [Directory.bytes?, directory]
    have hextended : directory.bytes? "host.toml" = some text.toUTF8 := by
      simp [Directory.bytes?, directory]
    have hextension : Directory.withExtension? "host" = some "host.toml" := by decide
    have hread : String.fromUTF8? text.toUTF8 = some text := dif_pos text.isValidUTF8
    rw [Directory.settingsText?, hbytes, hextension, Option.bind_some, hextended]
    exact hread
  have htable : Toml.table? text = some group := by
    simp only [text, group]
    rfl
  have hentries : host.entries? Toml.table? directory = some group := by
    rw [SettingSource.entries?, htext, Option.bind_some, htable]
  have hknown : Known group := by
    intro e he
    obtain rfl := List.mem_singleton.1 he
    refine ⟨⟨.skip, rfl⟩, _, rfl, fun e he => ?_⟩
    simp only [List.mem_cons, List.not_mem_nil, or_false] at he
    rcases he with rfl | rfl
    · exact ⟨.proxyUrl, _, rfl, rfl, rfl, rfl⟩
    · exact ⟨.skip, _, rfl, rfl, rfl, rfl⟩
  have htyped : ∀ source ∈ [skip, host], source.WellTyped Toml.table? directory := by
    intro source hsource
    simp only [List.mem_cons, List.not_mem_nil, or_false] at hsource
    rcases hsource with rfl | rfl
    · refine ⟨?_, fun k value heq => ?_⟩
      · rintro ⟨path, hpath, -⟩
        cases hpath
      · obtain ⟨rfl, rfl⟩ := SettingSource.override.inj heq
        exact ⟨.skip, rfl, rfl⟩
    · exact ⟨fun _ => ⟨group, hentries, hknown⟩, nofun⟩
  have hrequired : ∀ path, .required path ∈ [skip, host] →
      (SettingSource.required path).Present directory := by
    intro path hpath
    obtain rfl : path = "host" := by simpa [skip, host] using hpath
    exact hhost
  have hsettled (key : SettingKey) : settledValue Toml.table? directory [skip, host] key =
      ((skip.overrideValue? key).or ((Setting.table group).value? key)).getD key.builtIn := by
    have hfile : host.fileValue? Toml.table? directory key = (Setting.table group).value? key := by
      rw [SettingSource.fileValue?, hentries, Option.bind_some]
    have hover : host.overrideValue? key = none := rfl
    have hnone : skip.fileValue? Toml.table? directory key = none := rfl
    rw [settledValue, findSome?_reverse_cons, findSome?_reverse_cons, findSome?_reverse_cons,
      findSome?_reverse_cons, hfile, hover, hnone]
    simp
  obtain ⟨hloads, hvalues, horder, habsent, -⟩ :=
    settings_layered Toml.table? ⟨Toml.distinct_of_table?⟩ directory [skip, host] htyped
  obtain ⟨configuration, hload⟩ := hloads.2 hrequired
  have hread (key : SettingKey) := hsettled key ▸ hvalues configuration hload key
  refine ⟨htyped, hhost, hgone, configuration, hload, ?_, ?_, ?_⟩
  · have hproxy : "p/" = configuration.defaults.proxyUrl := Option.some.inj (hread .proxyUrl)
    have hindent : false = configuration.defaults.removeIndentation :=
      Option.some.inj (hread .removeIndentation)
    have hnumbering : .off = configuration.defaults.numbering := Option.some.inj (hread .numbering)
    have hskip : "1" = configuration.defaults.skip := Option.some.inj (hread .skip)
    have hformat : .annotated = configuration.format := Option.some.inj (hread .format)
    rw [hproxy, hindent, hnumbering, hskip, hformat]
  · exact (horder [host, skip] rfl rfl).trans hload
  · exact (habsent [skip] "gone" [host] rfl hgone).trans hload

end Configuration

end Excerpt
