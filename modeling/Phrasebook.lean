import Phrasebook.Catalog.Assembly
import Phrasebook.Catalog.Fault
import Phrasebook.Catalog.Generator
import Phrasebook.Catalog.Walk
import Phrasebook.CommandLine
import Phrasebook.Decimal.Double
import Phrasebook.Decimal.Shortest
import Phrasebook.Entries
import Phrasebook.Glob.Basic
import Phrasebook.Glob.Pattern
import Phrasebook.Json.Document
import Phrasebook.Json.Fault
import Phrasebook.Json.Numeral
import Phrasebook.Json.Reader
import Phrasebook.Json.Skip
import Phrasebook.Json.Text
import Phrasebook.Json.Value
import Phrasebook.Language.Basic
import Phrasebook.Language.Order
import Phrasebook.Main
import Phrasebook.Module.Language
import Phrasebook.Module.Shared
import Phrasebook.Module.Statement
import Phrasebook.Path
import Phrasebook.Payload.Basic
import Phrasebook.Payload.Document
import Phrasebook.Payload.File
import Phrasebook.Proofs.Catalog.Assembly
import Phrasebook.Proofs.Catalog.Compile
import Phrasebook.Proofs.Catalog.Constants
import Phrasebook.Proofs.Catalog.Effects
import Phrasebook.Proofs.Catalog.Files
import Phrasebook.Proofs.Catalog.Interfaces
import Phrasebook.Proofs.Catalog.Job
import Phrasebook.Proofs.Catalog.References
import Phrasebook.Proofs.Language.Order
import Phrasebook.Proofs.Module.Layout
import Phrasebook.Proofs.Section.Key
import Phrasebook.Proofs.Settings.Shortcode
import Phrasebook.Proofs.Storage.Parent
import Phrasebook.Proofs.Storage.Path
import Phrasebook.Proofs.Storage.Reading
import Phrasebook.Proofs.Syntax.Interface
import Phrasebook.Proofs.Syntax.Payload
import Phrasebook.Proofs.Syntax.Rows
import Phrasebook.Proofs.Syntax.Shape
import Phrasebook.Proofs.Text.LineCode
import Phrasebook.Proofs.Text.Quoted
import Phrasebook.Section.Identity
import Phrasebook.Section.Word
import Phrasebook.Settings.Basic
import Phrasebook.Settings.Document
import Phrasebook.Settings.Lookup
import Phrasebook.Settings.Project
import Phrasebook.Source
import Phrasebook.Storage.Disk
import Phrasebook.Storage.Memory
import Phrasebook.Storage.Script
import Phrasebook.Syntax.Body
import Phrasebook.Syntax.Template
import Phrasebook.Syntax.Tree
import Phrasebook.Text.Blank
import Phrasebook.Text.Display
import Phrasebook.Text.Identifier
import Phrasebook.Text.Invisible
import Phrasebook.Text.Order
import Phrasebook.Text.Placeholder
import Phrasebook.Text.Quoted
import Phrasebook.Text.Terminal
import Phrasebook.Proofs.Catalog.Shapes
import Phrasebook.Proofs.Storage.Replacement
import Phrasebook.Proofs.Storage.Agreement
import Phrasebook.Proofs.Catalog.Output
import Phrasebook.Proofs.Catalog.Idempotence
import Phrasebook.Proofs.Catalog.Clashes
import Phrasebook.Proofs.Catalog.Failure
import Phrasebook.Proofs.Catalog.Walk
import Phrasebook.Proofs.Catalog.Survival
import Phrasebook.Proofs.Catalog.Locality
import Phrasebook.Proofs.Language.Permutation
import Phrasebook.Proofs.Catalog.Permutation
import Phrasebook.Proofs.Section.Name
import Phrasebook.Proofs.Text.Nesting
import Phrasebook.Proofs.Syntax.Nesting
import Phrasebook.Proofs.Module.Nesting
import Phrasebook.Proofs.Catalog.Nesting
import Phrasebook.Proofs.Catalog.Attempts
import Phrasebook.Proofs.Settings.History
import Phrasebook.Proofs.Section.Segment
import Phrasebook.Proofs.Storage.Folder
import Phrasebook.Proofs.Catalog.Tree
import Phrasebook.Proofs.Storage.Shown
import Phrasebook.Proofs.Text.Order
import Phrasebook.Proofs.Section.Spelling
import Phrasebook.Proofs.Language.Least
import Phrasebook.Proofs.FirstFault
import Phrasebook.Proofs.Language.Verdict
import Phrasebook.Proofs.Syntax.Templates
import Phrasebook.Proofs.Catalog.Sequence
import Phrasebook.Proofs.Catalog.Admission
import Phrasebook.Proofs.Catalog.Faults
import Phrasebook.Proofs.Section.Glue
import Phrasebook.Proofs.Catalog.Collisions
import Phrasebook.Proofs.Syntax.Value
import Phrasebook.Proofs.Text.Parts
import Phrasebook.Proofs.Syntax.Mirror
import Phrasebook.Proofs.Syntax.Scope
import Phrasebook.Proofs.Catalog.Reserved
import Phrasebook.Proofs.Payload.Places
import Phrasebook.Proofs.Syntax.Contract
import Phrasebook.Proofs.Payload.Faults
import Phrasebook.Proofs.Json.Spelling
import Phrasebook.Proofs.Json.Reading
import Phrasebook.Proofs.Payload.Writing
import Phrasebook.Proofs.Payload.RoundTrip
import Phrasebook.Proofs.Text.Placeholder
import Phrasebook.Proofs.Text.Calls
import Phrasebook.Proofs.Syntax.Calls
import Phrasebook.Proofs.Module.Helper
import Phrasebook.Proofs.Catalog.Helper
import Phrasebook.Proofs.Catalog.Taken
import Phrasebook.Proofs.Catalog.Duplicates
import Phrasebook.Proofs.Json.Skipping
import Phrasebook.Proofs.Settings.Record
import Phrasebook.Proofs.Settings.Overlay
import Phrasebook.Proofs.Section.Hump
import Phrasebook.Proofs.Text.Literal
import Phrasebook.Proofs.Payload.History
import Phrasebook.Proofs.Syntax.Block
