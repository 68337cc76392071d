import AliasCheck.Main
import AliasCheck.Proofs.AliasDiscovery
import AliasCheck.Proofs.BrokenText
import AliasCheck.Proofs.BuiltinFields
import AliasCheck.Proofs.Comments
import AliasCheck.Proofs.CompiledRegistries
import AliasCheck.Proofs.Concatenation
import AliasCheck.Proofs.DisplayedSchemas
import AliasCheck.Proofs.Drafts
import AliasCheck.Proofs.ErrorPlaces
import AliasCheck.Proofs.FailedCommands
import AliasCheck.Proofs.GivenChecks
import AliasCheck.Proofs.HiddenDeclarations
import AliasCheck.Proofs.Influence
import AliasCheck.Proofs.InsertedSigns
import AliasCheck.Proofs.JoinedInputs
import AliasCheck.Proofs.Layout
import AliasCheck.Proofs.LegibleTerms
import AliasCheck.Proofs.Leniency
import AliasCheck.Proofs.Lexemes
import AliasCheck.Proofs.LineDocuments
import AliasCheck.Proofs.Linewise
import AliasCheck.Proofs.LongestMatch
import AliasCheck.Proofs.LongestTerms
import AliasCheck.Proofs.NestedTerms
import AliasCheck.Proofs.OverwrittenBytes
import AliasCheck.Proofs.Places
import AliasCheck.Proofs.PlainDates
import AliasCheck.Proofs.PrintedTerms
import AliasCheck.Proofs.Printing
import AliasCheck.Proofs.Progress
import AliasCheck.Proofs.Readers
import AliasCheck.Proofs.Reading
import AliasCheck.Proofs.Redefinitions
import AliasCheck.Proofs.RegistryDocuments
import AliasCheck.Proofs.RegistryRoundTrip
import AliasCheck.Proofs.RelaxedProperties
import AliasCheck.Proofs.ReplacedRecords
import AliasCheck.Proofs.Scanning
import AliasCheck.Proofs.Shift
import AliasCheck.Proofs.ShiftedPrograms
import AliasCheck.Proofs.Slashes
import AliasCheck.Proofs.StoredRegistries
import AliasCheck.Proofs.StringSpellings
import AliasCheck.Proofs.TermShapes
import AliasCheck.Proofs.Tiles
import AliasCheck.Proofs.TrailingText
import AliasCheck.Schema.Display
