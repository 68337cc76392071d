import AliasCheck.Command
import AliasCheck.Pattern.Grammar
import AliasCheck.Text.Parts

/-!
# Arguments of commands

Arguments are read in two steps. The first one only tells options from values. It can fail, but the
options in front of the failure are still taken up in the second step, and what is wrong with them
is what the user hears about.
-/

namespace AliasCheck

/-- What can be wrong with arguments; asking for help is among it. -/
inductive UsageError where
  | helpRequested
  /-- There are no arguments. -/
  | noCommand
  | unknownCommand (name : String)
  | unknownArgument (text : String)
  /-- An option excludes another one or itself. -/
  | conflict
  | missingArgument
  /-- An option lacks its value. -/
  | missingValue
  /-- An option has a value that it cannot take. -/
  | unexpectedValue
  /-- A value is not a name and a setting. -/
  | notAPair (value : String)
  /-- The setting in a value is not a pattern. -/
  | notAPattern (value : String)
  deriving DecidableEq, Repr

/-- The text of an error. -/
def UsageError.message : UsageError → String
  | helpRequested => "help was asked for"
  | noCommand => "expected a command"
  | unknownCommand name => s!"there is no command `{name}`"
  | unknownArgument text => s!"unexpected argument `{text}`"
  | conflict => "an option cannot be given twice or together with another one"
  | missingArgument => "a required argument is missing"
  | missingValue => "an option needs a value"
  | unexpectedValue => "a flag cannot have a value"
  | notAPair value => s!"expected NAME=VALUE, got `{value}`"
  | notAPattern value => s!"expected NAME=PATTERN, got `{value}`"

namespace Arguments

/-- What an argument is about. -/
inductive Key where
  | help | file | out | source | registry | typeName | pattern | sort | unchecked | linewise
  | input | verbose
  deriving DecidableEq, Repr

/-- How many values an option takes. -/
inductive Arity where
  | none | one | many
  deriving DecidableEq, Repr

/-- How many values go with a key. -/
def Key.arity : Key → Arity
  | help | linewise | verbose => .none
  | input => .many
  | file | out | source | registry | typeName | pattern | sort | unchecked => .one

/-- The options of a command. -/
structure Options where
  long : List (List Char × Key)
  short : List (Char × Key)
  /-- The command takes a value that stands without an option. -/
  takesFile : Bool

/-- The options for writing out types. -/
def typesOptions : Options where
  long := [("help".toList, .help), ("out".toList, .out)]
  short := [('h', .help), ('o', .out)]
  takesFile := true

/-- The options for checking documents. -/
def checkOptions : Options where
  long := [("help".toList, .help), ("source".toList, .source), ("registry".toList, .registry),
    ("type".toList, .typeName), ("pattern".toList, .pattern), ("type-of".toList, .sort),
    ("any".toList, .unchecked), ("ndjson".toList, .linewise), ("input".toList, .input),
    ("verbose".toList, .verbose)]
  short := [('h', .help), ('i', .input), ('v', .verbose)]
  takesFile := false

/-! ## Telling options from values -/

/-- A key with its values. -/
structure Occurrence where
  key : Key
  values : List String
  deriving DecidableEq, Repr

/-- What was read of the arguments. -/
structure Reading where
  /-- What is complete, the last first. -/
  done : List Occurrence
  /-- What was begun last and may still get values. -/
  pending : Option Occurrence
  /-- The next value belongs to what is pending. -/
  hungry : Bool
  /-- There was a value without an option. -/
  hasFile : Bool
  /-- Two dashes have made everything behind them a value. -/
  onlyValues : Bool

namespace Reading

/-- Nothing has been read. -/
def start : Reading := ⟨[], none, false, false, false⟩

/-- Nothing can be added to what is pending. -/
def settle (r : Reading) : Reading :=
  { r with done := r.pending.toList ++ r.done, pending := none, hungry := false }

/-- An option that is complete. -/
def add (r : Reading) (o : Occurrence) : Reading :=
  { r.settle with done := o :: r.settle.done }

/-- An option whose values are still to come. -/
def await (r : Reading) (key : Key) : Reading :=
  { r.settle with pending := some ⟨key, []⟩, hungry := true }

/-- A value for the option that is pending. -/
def feed (r : Reading) (o : Occurrence) (value : String) : Reading :=
  { r with pending := some { o with values := o.values ++ [value] }, hungry := o.key.arity = .many }

/-- A value without an option, if the command takes one. -/
def takeFile (r : Reading) (options : Options) (value : String) : Except UsageError Reading :=
  if options.takesFile && !r.hasFile then
    .ok { r.settle with pending := some ⟨.file, [value]⟩, hasFile := true }
  else .error (.unknownArgument value)

/-- An option by its name, with the value behind an equals sign. -/
def takeLong (r : Reading) (options : Options) (text : List Char) : Except UsageError Reading :=
  let (name, value) := cutAt '=' text
  match options.long.lookup name with
  | none => .error (.unknownArgument (String.ofList ('-' :: '-' :: name)))
  | some key =>
    match key.arity, value with
    | .none, none => .ok (r.add ⟨key, []⟩)
    | .none, some _ => .error .unexpectedValue
    | _, some value => .ok (r.add ⟨key, [String.ofList value]⟩)
    | _, none => .ok (r.await key)

/-- Options by their letters. What follows the letter of an option with a value is that value, with
or without an equals sign. The reading up to an unknown letter is kept. -/
def takeShort (r : Reading) (options : Options) : List Char → Reading × Option UsageError
  | [] => (r, none)
  | c :: cs =>
    match options.short.lookup c with
    | none => (r, some (.unknownArgument (String.ofList ['-', c])))
    | some key =>
      match key.arity, cs with
      | .none, _ => takeShort (r.add ⟨key, []⟩) options cs
      | _, [] => (r.await key, none)
      | _, '=' :: value => (r.add ⟨key, [String.ofList value]⟩, none)
      | _, value => (r.add ⟨key, [String.ofList value]⟩, none)

/-- One more argument. The reading in front of a failure is kept. -/
def take (r : Reading) (options : Options) (argument : String) : Reading × Option UsageError :=
  let keep (result : Except UsageError Reading) : Reading × Option UsageError :=
    match result with
    | .ok r => (r, none)
    | .error e => (r, some e)
  if r.onlyValues then keep (r.takeFile options argument)
  else match argument.toList, r.hungry, r.pending with
    | ['-', '-'], _, _ => ({ r with onlyValues := true }, none)
    | '-' :: '-' :: text, _, _ => keep (r.takeLong options text)
    | '-' :: c :: cs, _, _ => r.takeShort options (c :: cs)
    | _, true, some o => (r.feed o argument, none)
    | _, _, _ => keep (r.takeFile options argument)

/-- All arguments. What is pending at a failure is not complete, so nobody looks at it. -/
def takeAll (options : Options) (r : Reading) : List String → List Occurrence × Option UsageError
  | [] => (r.settle.done.reverse, none)
  | argument :: rest =>
    match r.take options argument with
    | (r, none) => takeAll options r rest
    | (r, some e) => (r.done.reverse, some e)

end Reading

/-! ## Taking up options -/

/-- What the options of a command amount to. -/
structure Settings where
  file : Option String
  out : Option String
  source : Option String
  registry : Option String
  typeName : Option String
  patterns : List (String × Pattern)
  sorts : List (String × String)
  unchecked : List String
  linewise : Bool
  inputs : List String
  verbose : Bool

/-- What holds without options. -/
def Settings.start : Settings := ⟨none, none, none, none, none, [], [], [], false, [], false⟩

/-- A name and a setting with an equals sign between them. -/
def pair (value : String) : Except UsageError (String × String) :=
  match cutAt '=' value.toList with
  | (c :: cs, some setting) => .ok (String.ofList (c :: cs), String.ofList setting)
  | _ => .error (.notAPair value)

/-- A name and a pattern with an equals sign between them. -/
def namedPattern (value : String) : Except UsageError (String × Pattern) := do
  let (name, setting) ← pair value
  match Pattern.parse? setting with
  | some p => return (name, p)
  | none => .error (.notAPattern value)

/-- The value of an option that is given only once. -/
def once (old : Option String) (value : String) : Except UsageError (Option String) :=
  if old.isSome then .error .conflict else .ok (some value)

/-- The value of an option that is given only once and holds a path. -/
def oncePath (old : Option String) (value : String) : Except UsageError (Option String) :=
  if old.isSome then .error .conflict
  else if value.isEmpty then .error .missingValue
  else .ok (some value)

/-- A flag that is given only once. -/
def onceFlag (old : Bool) : Except UsageError Bool := if old then .error .conflict else .ok true

/-- Takes up an option. -/
def Settings.add (s : Settings) : Occurrence → Except UsageError Settings
  | ⟨.help, _⟩ => .error .helpRequested
  | ⟨.linewise, _⟩ => do return { s with linewise := ← onceFlag s.linewise }
  | ⟨.verbose, _⟩ => do return { s with verbose := ← onceFlag s.verbose }
  | ⟨_, []⟩ => .error .missingValue
  | ⟨.file, value :: _⟩ => do return { s with file := ← oncePath s.file value }
  | ⟨.out, value :: _⟩ => do return { s with out := ← oncePath s.out value }
  | ⟨.source, value :: _⟩ => do return { s with source := ← oncePath s.source value }
  | ⟨.registry, value :: _⟩ => do return { s with registry := ← oncePath s.registry value }
  | ⟨.typeName, value :: _⟩ => do return { s with typeName := ← once s.typeName value }
  | ⟨.pattern, value :: _⟩ => do return { s with patterns := s.patterns ++ [← namedPattern value] }
  | ⟨.sort, value :: _⟩ => do return { s with sorts := s.sorts ++ [← pair value] }
  | ⟨.unchecked, value :: _⟩ => .ok { s with unchecked := s.unchecked ++ [value] }
  | ⟨.input, values⟩ => .ok { s with inputs := s.inputs ++ values }

/-- The settings that arguments amount to. -/
def settings (options : Options) (arguments : List String) : Except UsageError Settings := do
  let (occurrences, failure) := Reading.takeAll options .start arguments
  let s ← occurrences.foldlM Settings.add .start
  match failure with
  | some e => .error e
  | none => .ok s

/-- The command to write out types that settings describe. -/
def Settings.types (s : Settings) : Except UsageError Command :=
  match s.file with
  | some source => .ok (.types source s.out)
  | none => .error .missingArgument

/-- The command to check documents that settings describe. -/
def Settings.check (s : Settings) : Except UsageError Command :=
  let command (origin : Origin) (typeName : String) : Except UsageError Command :=
    if s.inputs.isEmpty then .error .missingArgument
    else .ok (.check {
      origin, typeName, patterns := s.patterns, sorts := s.sorts, unchecked := s.unchecked
      linewise := s.linewise, inputs := s.inputs, verbose := s.verbose })
  match s.source, s.registry, s.typeName with
  | some _, some _, _ => .error .conflict
  | some path, none, some name => command (.source path) name
  | none, some path, some name => command (.registry path) name
  | _, _, _ => .error .missingArgument

end Arguments

namespace Command

/-- The names of commands. -/
def names : List String := ["types", "check", "help"]

/-- What is to be said to arguments that do not begin with the name of a command. -/
def withoutName : List String → UsageError
  | [] | ["--"] => .noCommand
  | "--" :: argument :: _ =>
    if names.contains argument then .unknownArgument argument else .unknownCommand argument
  | argument :: _ =>
    match argument.toList with
    | '-' :: '-' :: text =>
      match cutAt '=' text with
      | (name, value) =>
        if name ≠ "help".toList then .unknownArgument argument
        else if value.isSome then .unexpectedValue
        else .helpRequested
    | '-' :: c :: _ => if c = 'h' then .helpRequested else .unknownArgument argument
    | _ => .unknownCommand argument

/-- What is to be said to a request for help on commands. -/
def help : List String → UsageError
  | [] => .helpRequested
  | name :: rest =>
    if ! names.contains name then .unknownCommand name
    else match rest with
      | [] => .helpRequested
      | other :: _ => .unknownCommand other

/-- The command that arguments ask for. -/
def ofArguments : List String → Except UsageError Command
  | "types" :: rest => do (← Arguments.settings Arguments.typesOptions rest).types
  | "check" :: rest => do (← Arguments.settings Arguments.checkOptions rest).check
  | "help" :: rest => .error (help rest)
  | arguments => .error (withoutName arguments)

end Command

end AliasCheck
