import AliasCheck.Command
import AliasCheck.Command.Documents
import AliasCheck.Text.Paint

/-!
# Carrying out commands

A command is carried out on files and leaves a report: whether all is well, what is to be printed,
and the files as they are afterwards. It does its work step by step: it looks at files, prints, and
changes files. What it has printed and changed by the time it fails is not taken back.
-/

namespace AliasCheck

/-- What a command leaves. -/
structure Report where
  /-- Nothing was found to be wrong, or why the command was not carried out. -/
  result : Except RunError Bool
  stdout : String
  stderr : String
  files : Files

/-- What a command has printed so far, and the files as they are by now. -/
structure Session where
  stdout : String
  stderr : String
  files : Files

/-- A part of the work of a command. It may fail; the session goes on from where it stopped. -/
abbrev Work (α : Type) := EStateM RunError Session α

namespace Work

/-- Prints to standard output. -/
def print (text : String) : Work Unit := modify fun s => { s with stdout := s.stdout ++ text }

/-- Prints to standard error. -/
def note (text : String) : Work Unit := modify fun s => { s with stderr := s.stderr ++ text }

/-- Finds something out about the files. -/
def look {α : Type} (f : Files → Except RunError α) : Work α := do ofExcept (f (← get).files)

/-- Makes the directories above the end of a path. -/
def makeParents (path : String) : Work Unit := do
  let (files, failure) := (← get).files.addParents path
  modify fun s => { s with files }
  match failure with
  | some error => throw (.noDirectory error)
  | none => return

/-- Writes a text to a file. If that fails, the files stay as they are. -/
def writeFile (path text : String) : Work Unit := do
  let files ← look fun files => (files.write path text).mapError (RunError.unwritable path)
  modify fun s => { s with files }

/-- The report on work that is done on files. -/
def report (files : Files) (work : Work Bool) : Report :=
  match work.run ⟨"", "", files⟩ with
  | .ok valid s => ⟨.ok valid, s.stdout, s.stderr, s.files⟩
  | .error error s => ⟨.error error, s.stdout, s.stderr, s.files⟩

end Work

namespace Registry

/-- The registry that a source in a file declares. -/
def ofSourceFile (files : Files) (path : String) : Except RunError Registry := do
  let source ← (files.read path).mapError (RunError.unreadable path)
  (ofSource source).mapError RunError.badSource

/-- The registry that is stored in a file. -/
def ofRegistryFile (files : Files) (path : String) : Except RunError Registry := do
  let text ← (files.read path).mapError (RunError.unreadable path)
  (parse text.toList).mapError (RunError.badRegistry text.toList)

/-- The registry that the types for a check come from. -/
def ofOrigin (files : Files) : Origin → Except RunError Registry
  | .source path => ofSourceFile files path
  | .registry path => ofRegistryFile files path

end Registry

/-! ## Checks -/

namespace CheckOptions

/-- The checks that options ask for. Of two for a name the later one counts, and what comes last are
the names for which every value will do. -/
def checks (options : CheckOptions) : Table Check :=
  let matching := options.patterns.foldl
    (fun t entry => Table.insert entry.1 (Check.ofPattern entry.2) t) []
  let sorted := options.sorts.foldl
    (fun t entry => Table.insert entry.1 (Check.ofType entry.2) t) matching
  options.unchecked.foldl (fun t name => Table.insert name Check.any t) sorted

/-- The validator for the type that options name. -/
def validator (options : CheckOptions) (files : Files) : Except RunError Validator := do
  let registry ← Registry.ofOrigin files options.origin
  match Table.get? options.typeName registry with
  | none => .error (.unknownType options.typeName (Table.names registry))
  | some schema => (Validator.compile options.checks schema).mapError RunError.badSchema

/-- The documents with their errors. -/
def findings (options : CheckOptions) (files : Files) :
    Except RunError (List (Document × List KeyedError)) := do
  let validator ← options.validator files
  let documents ← Document.load files options.linewise options.inputs
  return documents.map fun document => (document, validator.validate document.value)

end CheckOptions

/-- What is printed about a document. -/
def findingText (painted verbose : Bool) (label : String) : List KeyedError → String
  | [] => if verbose then Paint.green.apply painted "ok" ++ " " ++ label ++ "\n" else ""
  | errors => String.join (errors.map fun e =>
      Paint.bold.apply painted label ++ ": " ++ Paint.red.apply painted e.display ++ "\n")

/-- How many of the documents have errors. -/
def invalidCount (findings : List (Document × List KeyedError)) : Nat :=
  findings.countP fun finding => ! finding.2.isEmpty

namespace Command

/-- Checks documents. Everything that the check needs is got together before anything is printed. -/
def checkDocuments (painted : Bool) (files : Files) (options : CheckOptions) : Report :=
  Work.report files do
    let findings ← Work.look options.findings
    findings.forM fun (document, errors) =>
      Work.print (findingText painted options.verbose document.label errors)
    Work.note s!"{invalidCount findings} of {findings.length} documents invalid\n"
    return invalidCount findings = 0

/-- Writes a text to a file, below directories that are made if they are missing. -/
def store (path text : String) : Work Unit := do
  Work.makeParents path
  Work.writeFile path text

/-- Writes out the types of a source. -/
def writeTypes (files : Files) (source : String) (out : Option String) : Report :=
  Work.report files do
    let registry ← Work.look fun files => Registry.ofSourceFile files source
    match out with
    | some path => store path (Registry.toJson registry).pretty
    | none => Work.print ((Registry.toJson registry).pretty ++ "\n")
    return true

/-- Carries out a command. -/
def run (painted : Bool) (files : Files) : Command → Report
  | .types source out => writeTypes files source out
  | .check options => checkDocuments painted files options

end Command

end AliasCheck
