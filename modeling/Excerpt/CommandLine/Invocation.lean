import Excerpt.OutputFormat
import Excerpt.Setting.Loading

/-!
# Invocations

An invocation names slugs and has a value for some of the options. What arguments say it is up to
a reader, which may also come to a text to print instead, or find that they are not well formed.
-/

namespace Excerpt.CommandLine

inductive Choice where
  | mark
  | skip
  | indent
  | lineNumbers
  | format
  | proxyUrl
  | config
deriving DecidableEq, Repr

namespace Choice

def all : List Choice := [mark, skip, indent, lineNumbers, format, proxyUrl, config]

def name : Choice → String
  | mark => "mark"
  | skip => "skip"
  | indent => "indent"
  | lineNumbers => "line-numbers"
  | format => "format"
  | proxyUrl => "proxy-url"
  | config => "config"

def letter? : Choice → Option Char
  | mark => some 'm'
  | skip => some 's'
  | indent => none
  | lineNumbers => some 'n'
  | format => some 'f'
  | proxyUrl => none
  | config => some 'c'

def ofName? (name : String) : Option Choice := all.find? (·.name == name)

def ofLetter? (letter : Char) : Option Choice := all.find? (·.letter? == some letter)

/-- Two options have a fixed list of values. -/
def accepts (value : String) : Choice → Bool
  | indent => [IndentMode.remove, .keep].any (·.name == value)
  | format => (OutputFormat.ofName? value).isSome
  | _ => true

theorem ofName?_name (choice : Choice) : ofName? choice.name = some choice := by
  cases choice <;> rfl

end Choice

/-- Why the arguments say nothing about samples. -/
inductive Halt where
  | usage
  /-- They ask for a text about the program. -/
  | printed (text : String)
deriving DecidableEq, Repr

structure Invocation where
  chosen : List (Choice × String) := []
  slugs : List String := []
deriving DecidableEq, Repr

namespace Invocation

def value? (invocation : Invocation) (choice : Choice) : Option String :=
  invocation.chosen.lookup choice

def attributes (invocation : Invocation) : Attributes where
  mark := invocation.value? .mark
  indent := (invocation.value? .indent).bind IndentMode.ofText?
  skip := invocation.value? .skip
  numbering := invocation.value? .lineNumbers

/-- The settings file of the directory and that of the options, and then what they override. -/
def sources (invocation : Invocation) : List SettingSource :=
  let override (choice : Choice) (key : String) : List SettingSource :=
    ((invocation.value? choice).map fun value => .override key (.text value)).toList
  .optional "sampler.toml" :: ((invocation.value? .config).map SettingSource.required).toList ++
    override .proxyUrl "sampler.proxy_url" ++ override .format "output.format"

end Invocation

/-- Reads arguments as an invocation, unless they are something else. -/
abbrev ArgumentReader := List String → Except Halt Invocation

end Excerpt.CommandLine
