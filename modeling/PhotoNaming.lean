import PhotoNaming.Binary64.Basic
import PhotoNaming.Binary64.Decimal
import PhotoNaming.Binary64.Shortest
import PhotoNaming.Catalog.Basic
import PhotoNaming.Catalog.Descriptor
import PhotoNaming.Catalog.Standard
import PhotoNaming.CommandLine.Arguments
import PhotoNaming.CommandLine.Options
import PhotoNaming.Configuration.Basic
import PhotoNaming.Configuration.Loading
import PhotoNaming.Configuration.Use
import PhotoNaming.Duration.Basic
import PhotoNaming.FileName
import PhotoNaming.FileTree.Basic
import PhotoNaming.FileTree.Change
import PhotoNaming.Journal
import PhotoNaming.Main
import PhotoNaming.Path
import PhotoNaming.Pattern.Basic
import PhotoNaming.Pattern.Compiled
import PhotoNaming.Plan.Basic
import PhotoNaming.Plan.Transfer
import PhotoNaming.Proofs.Binary64.Held
import PhotoNaming.Proofs.Binary64.RoundTrip
import PhotoNaming.Proofs.Binary64.Rounding
import PhotoNaming.Proofs.Catalog.Lookup
import PhotoNaming.Proofs.Catalog.Parsing
import PhotoNaming.Proofs.Catalog.Report
import PhotoNaming.Proofs.Catalog.Standard
import PhotoNaming.Proofs.Duration.Adding
import PhotoNaming.Proofs.Duration.Counting
import PhotoNaming.Proofs.Duration.Reading
import PhotoNaming.Proofs.Duration.Splitting
import PhotoNaming.Proofs.FileName.Ending
import PhotoNaming.Proofs.FileName.Shape
import PhotoNaming.Proofs.FileTree.Below
import PhotoNaming.Proofs.FileTree.Depth
import PhotoNaming.Proofs.FileTree.Effect
import PhotoNaming.Proofs.FileTree.Following
import PhotoNaming.Proofs.FileTree.Lookup
import PhotoNaming.Proofs.FileTree.Making
import PhotoNaming.Proofs.FileTree.Reach
import PhotoNaming.Proofs.FileTree.Retracing
import PhotoNaming.Proofs.FileTree.Sparing
import PhotoNaming.Proofs.FileTree.Walk
import PhotoNaming.Proofs.Outcome
import PhotoNaming.Proofs.Path.Above
import PhotoNaming.Proofs.Path.Components
import PhotoNaming.Proofs.Path.Directory
import PhotoNaming.Proofs.Path.Extension
import PhotoNaming.Proofs.Path.Normal
import PhotoNaming.Proofs.Pattern.Composition
import PhotoNaming.Proofs.Pattern.Normal
import PhotoNaming.Proofs.Plan.Directories
import PhotoNaming.Proofs.Plan.Levels
import PhotoNaming.Proofs.Plan.Listing
import PhotoNaming.Proofs.Plan.Names
import PhotoNaming.Proofs.Plan.Numbering
import PhotoNaming.Proofs.Plan.Ranks
import PhotoNaming.Proofs.Plan.Targets
import PhotoNaming.Proofs.Record.Building
import PhotoNaming.Proofs.Record.Choice
import PhotoNaming.Proofs.Record.ColourFilter
import PhotoNaming.Proofs.Record.Completing
import PhotoNaming.Proofs.Record.FNumber
import PhotoNaming.Proofs.Record.Offering
import PhotoNaming.Proofs.Record.Reordering
import PhotoNaming.Proofs.Record.Scanning
import PhotoNaming.Proofs.Record.Single
import PhotoNaming.Proofs.Record.Stating
import PhotoNaming.Proofs.Record.Supplying
import PhotoNaming.Proofs.Repeats
import PhotoNaming.Proofs.Session.Preparing
import PhotoNaming.Proofs.Session.Preview
import PhotoNaming.Proofs.Source.Photos
import PhotoNaming.Proofs.Source.Scanned
import PhotoNaming.Proofs.Source.TopLevel
import PhotoNaming.Proofs.Source.Walking
import PhotoNaming.Proofs.Tag.Grouping
import PhotoNaming.Proofs.Tag.Partition
import PhotoNaming.Proofs.Tag.Reporting
import PhotoNaming.Proofs.Tally.Counting
import PhotoNaming.Proofs.Tally.Merging
import PhotoNaming.Proofs.Tally.Ranking
import PhotoNaming.Proofs.Tally.Ties
import PhotoNaming.Proofs.Text.Decoding
import PhotoNaming.Proofs.Text.Numeral
import PhotoNaming.Proofs.Text.Separators
import PhotoNaming.Proofs.Text.Sorted
import PhotoNaming.Proofs.Timestamp.Composition
import PhotoNaming.Proofs.Timestamp.RoundTrip
import PhotoNaming.Proofs.Transfer.Candidates
import PhotoNaming.Proofs.Transfer.Copying
import PhotoNaming.Proofs.Transfer.Direct
import PhotoNaming.Proofs.Transfer.Extensions
import PhotoNaming.Proofs.Transfer.Moving
import PhotoNaming.Proofs.Transfer.Preparing
import PhotoNaming.Proofs.Transfer.Receiving
import PhotoNaming.Proofs.Transfer.SamePlace
import PhotoNaming.Proofs.Transfer.Sparing
import PhotoNaming.Proofs.Transfer.Steps
import PhotoNaming.Proofs.Value.ComparisonSort
import PhotoNaming.Proofs.Value.Order
import PhotoNaming.Proofs.Value.Sorting
import PhotoNaming.Record.Basic
import PhotoNaming.Record.Building
import PhotoNaming.Record.Facts
import PhotoNaming.Record.Stat
import PhotoNaming.Session.Basic
import PhotoNaming.Session.Program
import PhotoNaming.Session.Run
import PhotoNaming.Setting.Basic
import PhotoNaming.Setting.Fault
import PhotoNaming.Source.Collection
import PhotoNaming.Source.Scan
import PhotoNaming.Tag.Basic
import PhotoNaming.Tag.Description
import PhotoNaming.Tally
import PhotoNaming.Text.Basic
import PhotoNaming.Text.Blank
import PhotoNaming.Text.CodeRange
import PhotoNaming.Text.DecimalDigit
import PhotoNaming.Text.Lowercase
import PhotoNaming.Text.Printable
import PhotoNaming.Text.Quoted
import PhotoNaming.Timestamp.Basic
import PhotoNaming.Timestamp.Format
import PhotoNaming.Timestamp.LetterPattern
import PhotoNaming.Timestamp.Moment
import PhotoNaming.Timestamp.PercentPattern
import PhotoNaming.Value.Basic
import PhotoNaming.Value.Fault
import PhotoNaming.Value.Payload
import PhotoNaming.Value.Reading
import PhotoNaming.Word
import PhotoNaming.Yaml.Document
import PhotoNaming.Yaml.Plain
import PhotoNaming.Yaml.Scalar
import PhotoNaming.Yaml.Token
