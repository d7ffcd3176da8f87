import Excerpt.OutputFormat
import Excerpt.Options
import Excerpt.Setting.Basic

/-!
# Reading settings

Most settings are of one type and are lenient about how a value of that type is written.
The line numbering takes a flag or an exact name, and the output format a name in any case.
Settings that belong together are a table, or a list in a fixed order, and what nobody asks
for is ignored.
-/

namespace Excerpt

def lowerText (text : String) : String := String.ofList (text.toList.map Char.toLower)

namespace Scalar

def flagText (yes : Bool) : String := if yes then "true" else "false"

/-- Flags and numbers stand for their texts. -/
def asText : Scalar → String
  | text t => t
  | flag yes => flagText yes
  | integer n => toString n
  | float t => t

def yesWords : List String := ["1", "true", "on", "yes"]

def noWords : List String := ["0", "false", "off", "no"]

/-- Any number but zero is a yes. -/
def flag? : Scalar → Option Bool
  | flag yes => some yes
  | integer n => some (n != 0)
  | float t => some (t != "0" && t != "-0")
  | text t =>
    if lowerText t ∈ yesWords then some true
    else if lowerText t ∈ noWords then some false
    else none

def numbering? : Scalar → Option DefaultNumbering
  | flag yes => some (DefaultNumbering.ofBool yes)
  | text t => DefaultNumbering.ofName? t
  | integer _ => none
  | float _ => none

end Scalar

/-- What a host is configured with. -/
structure Configuration where
  defaults : Defaults
  format : OutputFormat
deriving DecidableEq, Repr

namespace Setting

/-- A field that is not set takes its default, and its value is a scalar. -/
def field? (read : Scalar → Option α) (default : α) : Option Setting → Option α
  | none => some default
  | some (scalar value) => read value
  | some _ => none

def defaultsOf? (proxyUrl removeIndentation numbering skip : Option Setting) :
    Option Defaults := do
  return { proxyUrl := ← field? (some ∘ Scalar.asText) "" proxyUrl
           removeIndentation := ← field? Scalar.flag? false removeIndentation
           numbering := ← field? Scalar.numbering? .off numbering
           skip := ← field? (some ∘ Scalar.asText) "" skip }

def defaults? : Setting → Option Defaults
  | table entries =>
    let entries : Keyed Setting := entries
    defaultsOf? (entries.get? "proxy_url") (entries.get? "remove_indentation")
      (entries.get? "line_numbers") (entries.get? "skip")
  | list items => defaultsOf? items[0]? items[1]? items[2]? items[3]?
  | _ => none

/-- A format is named by a text or by the only key of a table. -/
def format? : Setting → Option OutputFormat
  | scalar (.text name) => OutputFormat.ofName? (lowerText name)
  | table [(name, _)] => OutputFormat.ofName? (lowerText name)
  | _ => none

/-- The format is the only setting of the output. -/
def outputFormat? : Setting → Option OutputFormat
  | table entries => (Keyed.get? entries "format").bind format?
  | list items => items[0]?.bind format?
  | _ => none

def configuration? (setting : Setting) : Option Configuration := do
  let defaults ← defaults? (← setting.get? "sampler")
  return ⟨defaults, ← outputFormat? (← setting.get? "output")⟩

end Setting

end Excerpt
