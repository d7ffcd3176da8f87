import Excerpt.CommandLine.Report
import Excerpt.Toml.Table

/-!
# Reading arguments

Arguments are read from left to right, and the first thing wrong with them ends the reading, as
does the first question about the program. Options and slugs mix freely. Every option takes one
value and is given at most once. After two hyphens on their own, every argument is a slug.
-/

namespace Excerpt.CommandLine

def versionText : String := "sampler 0.1.0\n"

def usage : String :=
  "Usage: sampler [--mark TEXT] [--skip TEXT] [--indent remove|keep] [--line-numbers MODE] " ++
    "[--format annotated|plain|json] [--proxy-url TEXT] [--config FILE] SLUG..."

namespace Halt

/-- The two questions about the program end the reading with an answer. -/
def ofName (name : String) : Halt :=
  if name = "version" then printed versionText
  else if name = "help" then printed (CommandLine.usage ++ "\n")
  else usage

def ofLetter (letter : Char) : Halt :=
  if letter = 'V' then ofName "version"
  else if letter = 'h' then ofName "help"
  else usage

end Halt

namespace Invocation

def choose (invocation : Invocation) (choice : Choice) (value : String) :
    Except Halt Invocation :=
  if (invocation.value? choice).isNone && choice.accepts value then
    .ok { invocation with chosen := invocation.chosen ++ [(choice, value)] }
  else .error .usage

def addSlug (invocation : Invocation) (slug : String) : Invocation :=
  { invocation with slugs := invocation.slugs ++ [slug] }

end Invocation

/-- What the next argument may be. -/
inductive Expecting where
  | anything
  | valueOf (choice : Choice)
  | slugs
deriving DecidableEq, Repr

structure Reading where
  expecting : Expecting := .anything
  invocation : Invocation := {}
deriving DecidableEq, Repr

namespace Reading

def choose (reading : Reading) (choice : Choice) (value : String) : Except Halt Reading :=
  (reading.invocation.choose choice value).map fun invocation => ⟨.anything, invocation⟩

/-- An option by name, with its value after an equals sign or in the next argument. -/
def long (reading : Reading) (t : List Char) : Except Halt Reading :=
  let name := String.ofList (t.takeWhile (· != '='))
  match t.dropWhile (· != '='), Choice.ofName? name with
  | [], some choice => .ok { reading with expecting := .valueOf choice }
  | _ :: value, some choice => reading.choose choice (String.ofList value)
  | [], none => .error (.ofName name)
  | _, none => .error .usage

/-- An option by letter, with its value in the rest of the argument or in the next one. -/
def short (reading : Reading) (letter : Char) (rest : List Char) : Except Halt Reading :=
  match Choice.ofLetter? letter, rest with
  | none, _ => .error (.ofLetter letter)
  | some choice, [] => .ok { reading with expecting := .valueOf choice }
  | some choice, '=' :: value => reading.choose choice (String.ofList value)
  | some choice, value => reading.choose choice (String.ofList value)

/-- A single hyphen is no option. -/
def step (reading : Reading) (argument : String) : Except Halt Reading :=
  match reading.expecting, argument.toList with
  | .slugs, _ => .ok { reading with invocation := reading.invocation.addSlug argument }
  | .valueOf _, '-' :: _ :: _ => .error .usage
  | .valueOf choice, _ => reading.choose choice argument
  | .anything, ['-', '-'] => .ok { reading with expecting := .slugs }
  | .anything, '-' :: '-' :: t => reading.long t
  | .anything, '-' :: letter :: rest => reading.short letter rest
  | .anything, _ => .ok { reading with invocation := reading.invocation.addSlug argument }

/-- An option must have got its value, and there must be a slug. -/
def finish (reading : Reading) : Except Halt Invocation :=
  match reading.expecting with
  | .valueOf _ => .error .usage
  | _ => if reading.invocation.slugs.isEmpty then .error .usage else .ok reading.invocation

end Reading

def Invocation.ofArguments (arguments : List String) : Except Halt Invocation := do
  (← arguments.foldlM Reading.step {}).finish

/-- The program takes settings files for TOML documents. -/
def Readers.program : Readers := ⟨Invocation.ofArguments, Toml.table?⟩

end Excerpt.CommandLine
