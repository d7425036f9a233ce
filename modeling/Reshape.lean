import Reshape.CommandLine
import Reshape.CommandLine.Arguments
import Reshape.Document
import Reshape.Entry
import Reshape.Journal
import Reshape.Json.Decoder
import Reshape.Json.Depth
import Reshape.Json.Fault
import Reshape.Json.Layout
import Reshape.Json.NumberToken
import Reshape.Json.Pieces
import Reshape.Json.Printer
import Reshape.Json.Quote
import Reshape.Keyed
import Reshape.Main
import Reshape.Mapping
import Reshape.Mapping.Check
import Reshape.Number.Double
import Reshape.Number.Numeral
import Reshape.Number.Shortest
import Reshape.Path.Read
import Reshape.Path.Segment
import Reshape.Path.Write
import Reshape.Profile
import Reshape.Proofs.Document
import Reshape.Proofs.Json.Cells
import Reshape.Proofs.Json.Containers
import Reshape.Proofs.Json.Legible
import Reshape.Proofs.Json.Numbers
import Reshape.Proofs.Json.Pieces
import Reshape.Proofs.Json.RoundTrip
import Reshape.Proofs.Json.Start
import Reshape.Proofs.Json.Strings
import Reshape.Proofs.Keyed
import Reshape.Proofs.Mapping.Alone
import Reshape.Proofs.Mapping.Batch
import Reshape.Proofs.Mapping.Calls
import Reshape.Proofs.Mapping.Completion
import Reshape.Proofs.Mapping.Correspondence
import Reshape.Proofs.Mapping.Foretold
import Reshape.Proofs.Mapping.Identity
import Reshape.Proofs.Mapping.Keys
import Reshape.Proofs.Mapping.Nested
import Reshape.Proofs.Mapping.Reorder
import Reshape.Proofs.Mapping.Retention
import Reshape.Proofs.Mapping.Run
import Reshape.Proofs.Mapping.Sight
import Reshape.Proofs.Mapping.Silence
import Reshape.Proofs.Mapping.Told
import Reshape.Proofs.Number.Numeral
import Reshape.Proofs.Number.Rounding
import Reshape.Proofs.Number.Shortest
import Reshape.Proofs.Path.Blocked
import Reshape.Proofs.Path.Compose
import Reshape.Proofs.Path.Fields
import Reshape.Proofs.Path.Flow
import Reshape.Proofs.Path.Forms
import Reshape.Proofs.Path.Frame
import Reshape.Proofs.Path.Grammar
import Reshape.Proofs.Path.Independent
import Reshape.Proofs.Path.Leaves
import Reshape.Proofs.Path.Mirror
import Reshape.Proofs.Path.Position
import Reshape.Proofs.Path.Repeat
import Reshape.Proofs.Path.Spelling
import Reshape.Proofs.Path.Split
import Reshape.Proofs.Path.Write
import Reshape.Proofs.Profile
import Reshape.Proofs.Session.Accounting
import Reshape.Proofs.Session.Files
import Reshape.Proofs.Session.Outcome
import Reshape.Proofs.Session.Texts
import Reshape.Proofs.Storage.Directories
import Reshape.Proofs.Storage.FileTree
import Reshape.Proofs.Storage.ReadBack
import Reshape.Proofs.Storage.Remains
import Reshape.Proofs.Store.Copying
import Reshape.Proofs.Store.Coupling
import Reshape.Proofs.Store.Joining
import Reshape.Proofs.Store.Planting
import Reshape.Proofs.Store.Reading
import Reshape.Proofs.Store.Seeds
import Reshape.Proofs.Store.Shown
import Reshape.Proofs.Store.Tree
import Reshape.Proofs.Store.Writing
import Reshape.Proofs.Text
import Reshape.Proofs.Text.Blank
import Reshape.Proofs.Text.Upper
import Reshape.Proofs.Transform.Country
import Reshape.Proofs.Transform.Pure
import Reshape.Proofs.Transform.Registry
import Reshape.Proofs.Traverse
import Reshape.Proofs.Value.Alike
import Reshape.Proofs.Value.Display
import Reshape.Session
import Reshape.Storage.FileTree
import Reshape.Storage.PathName
import Reshape.Storage.Workspace
import Reshape.Store
import Reshape.Store.Paths
import Reshape.Text.Integer
import Reshape.Text.Quoted
import Reshape.Text.Symbol
import Reshape.Text.Upper
import Reshape.Text.Utf8
import Reshape.Transform.Country
import Reshape.Transform.Registry
import Reshape.Transform.Territory
import Reshape.Value
import Reshape.Value.Display
import Reshape.Verdict
