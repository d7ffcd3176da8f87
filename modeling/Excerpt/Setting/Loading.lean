import Excerpt.Directory
import Excerpt.Setting.Path
import Excerpt.Setting.Reading

/-!
# Loading a configuration

The built-in settings come first, then files in the order given, and single overrides last
wherever they stand. A file that is required must be there. An optional file may be missing
or hold no text, but what text it holds must be well formed. What tables such texts are is up to
a reader.
-/

namespace Excerpt

inductive SettingSource where
  | required (path : String)
  | optional (path : String)
  | override (key : String) (value : Scalar)
deriving DecidableEq, Repr

namespace SettingSource

def isOverride : SettingSource → Bool
  | override _ _ => true
  | _ => false

end SettingSource

inductive ConfigurationFailure where
  | missingFile (path : String)
  | malformedFile (path : String)
  | malformedKey (key : String)
  | illTyped
deriving DecidableEq, Repr

namespace ConfigurationFailure

def message : ConfigurationFailure → String
  | missingFile path => "settings file not found: " ++ path
  | malformedFile path => "malformed settings file: " ++ path
  | malformedKey key => "malformed settings key: " ++ key
  | illTyped => "a setting has a value that it cannot take"

end ConfigurationFailure

namespace Directory

/-- The path with the extension of settings files added to its last name. -/
def withExtension? (path : String) : Option String :=
  match (names path).reverse.dropWhile fun name => name == "" || name == "." with
  | [] => none
  | ".." :: _ => none
  | name :: above => some (String.intercalate "/" (((name ++ ".toml") :: above).reverse))

/-- The text of a settings file, whose extension may be left out. -/
def settingsText? (directory : Directory) (path : String) : Option String :=
  let bytes := directory.bytes? path <|> (withExtension? path).bind directory.bytes?
  bytes.bind String.fromUTF8?

end Directory

namespace SettingSource

/-- The paths that a source may be found under. -/
def paths : SettingSource → List String
  | required path => path :: (Directory.withExtension? path).toList
  | optional path => path :: (Directory.withExtension? path).toList
  | override _ _ => []

end SettingSource

/-- Reads the text of a settings file as a table, if the text is well formed. -/
abbrev TableReader := String → Option (Keyed Setting)

namespace Configuration

def builtInSampler : Setting :=
  .table [("proxy_url", .scalar (.text "")), ("remove_indentation", .scalar (.flag false)),
    ("line_numbers", .scalar (.text "off")), ("skip", .scalar (.text ""))]

def builtInOutput : Setting := .table [("format", .scalar (.text "annotated"))]

/-- Every setting there is, with the value that it has unless something else is said. -/
def builtIn : Setting.Layer := [(⟨"sampler", []⟩, builtInSampler), (⟨"output", []⟩, builtInOutput)]

def fileLayer (read : TableReader) (path text : String) :
    Except ConfigurationFailure Setting.Layer :=
  match read text with
  | some entries => .ok (Setting.Layer.ofEntries entries)
  | none => .error (.malformedFile path)

def sourceLayer (read : TableReader) (directory : Directory) :
    SettingSource → Except ConfigurationFailure Setting.Layer
  | .required path =>
    match directory.settingsText? path with
    | some text => fileLayer read path text
    | none => .error (.missingFile path)
  | .optional path =>
    match directory.settingsText? path with
    | some text => fileLayer read path text
    | none => .ok []
  | .override key value =>
    match Setting.Path.ofText? key with
    | some path => .ok [(path, .scalar value)]
    | none => .error (.malformedKey key)

def layersOf (read : TableReader) (directory : Directory) (sources : List SettingSource) :
    Except ConfigurationFailure Setting.Layer :=
  return (← sources.mapM (sourceLayer read directory)).flatten

/-- What files say together with the built-in settings. A key may turn into a path in lower
case, so that the keys of the whole are read for paths once more. -/
def base (files : Setting.Layer) : Setting :=
  Setting.empty.layer (.ofEntries (Setting.empty.layer (builtIn ++ files)).entries)

def load (read : TableReader) (directory : Directory) (sources : List SettingSource) :
    Except ConfigurationFailure Configuration := do
  let files ← layersOf read directory (sources.filter (!·.isOverride))
  let overrides ← layersOf read directory (sources.filter (·.isOverride))
  match ((base files).layer overrides).configuration? with
  | some configuration => return configuration
  | none => throw .illTyped

end Configuration

end Excerpt
