import Harvest.CommandLine.Command
import Harvest.CommandLine.Help
import Harvest.Config.File
import Harvest.Config.Settings
import Harvest.Crawl.Archive
import Harvest.Crawl.Cache
import Harvest.Crawl.Event
import Harvest.Crawl.Linking
import Harvest.Crawl.Pass
import Harvest.Crawl.Remote
import Harvest.Crawl.Report
import Harvest.Crawl.Run
import Harvest.Crawl.Step
import Harvest.Crawl.Storing
import Harvest.Date
import Harvest.Distinct
import Harvest.Files.Access
import Harvest.Files.Path
import Harvest.Files.Tree
import Harvest.Http.Address
import Harvest.Http.Exchange
import Harvest.Http.Github
import Harvest.Http.TitleSearch
import Harvest.Json.Decode
import Harvest.Json.Number
import Harvest.Json.Parser
import Harvest.Json.Printer
import Harvest.Json.Token
import Harvest.Json.Value
import Harvest.Json.Written
import Harvest.Log.Filter
import Harvest.Main
import Harvest.Media
import Harvest.Number.Binary
import Harvest.Number.Shortest
import Harvest.Packed.BitReader
import Harvest.Packed.Dictionary
import Harvest.Packed.Unpack
import Harvest.Pattern.Basic
import Harvest.Pattern.Search
import Harvest.Program
import Harvest.Proofs.Crawl.Accounting
import Harvest.Proofs.Crawl.Alike
import Harvest.Proofs.Crawl.Backfill
import Harvest.Proofs.Crawl.Budget
import Harvest.Proofs.Crawl.Burst
import Harvest.Proofs.Crawl.Commit
import Harvest.Proofs.Crawl.Completion
import Harvest.Proofs.Crawl.Counts
import Harvest.Proofs.Crawl.Course
import Harvest.Proofs.Crawl.Coverage
import Harvest.Proofs.Crawl.Exits
import Harvest.Proofs.Crawl.File
import Harvest.Proofs.Crawl.Forward
import Harvest.Proofs.Crawl.Growth
import Harvest.Proofs.Crawl.History
import Harvest.Proofs.Crawl.Idle
import Harvest.Proofs.Crawl.Incremental
import Harvest.Proofs.Crawl.Ingestion
import Harvest.Proofs.Crawl.Links
import Harvest.Proofs.Crawl.Outage
import Harvest.Proofs.Crawl.Reingestion
import Harvest.Proofs.Crawl.Repetition
import Harvest.Proofs.Crawl.Resolutions
import Harvest.Proofs.Crawl.Resume
import Harvest.Proofs.Crawl.Retry
import Harvest.Proofs.Crawl.Runs
import Harvest.Proofs.Crawl.Stopping
import Harvest.Proofs.Crawl.Streams
import Harvest.Proofs.Crawl.Within
import Harvest.Proofs.Crawl.Working
import Harvest.Proofs.Crawl.World
import Harvest.Proofs.Packed.Bits
import Harvest.Proofs.Packed.Faults
import Harvest.Proofs.Packed.Fork
import Harvest.Proofs.Packed.Guards
import Harvest.Proofs.Packed.Position
import Harvest.Proofs.Packed.Stream
import Harvest.Proofs.Packed.Truncation
import Harvest.Proofs.Packed.Unpack
import Harvest.Proofs.Packed.Words
import Harvest.Proofs.Pattern.Groups
import Harvest.Proofs.Release.Boundaries
import Harvest.Proofs.Release.Cuts
import Harvest.Proofs.Release.Kinds
import Harvest.Proofs.Release.LetterCase
import Harvest.Proofs.Release.Metadata
import Harvest.Proofs.Release.QualityTags
import Harvest.Proofs.Release.Separators
import Harvest.Proofs.Release.YearNumber
import Harvest.Proofs.Search.Loose
import Harvest.Proofs.Search.Narrowing
import Harvest.Proofs.Search.Ranking
import Harvest.Proofs.Snapshot.Frames
import Harvest.Proofs.Snapshot.Sizes
import Harvest.Proofs.Store.Batches
import Harvest.Proofs.Store.Offers
import Harvest.Proofs.Store.Registers
import Harvest.Proofs.Store.Rows
import Harvest.Proofs.Title.Articles
import Harvest.Proofs.Title.Match
import Harvest.Proofs.Title.Similarity
import Harvest.Release.Keywords
import Harvest.Release.Labels
import Harvest.Release.Parse
import Harvest.Release.Parsed
import Harvest.Release.Tokens
import Harvest.RunLock
import Harvest.Search.Result
import Harvest.Snapshot.Entry
import Harvest.Snapshot.Fragment
import Harvest.Store.Cursor
import Harvest.Store.Database
import Harvest.Store.Error
import Harvest.Store.Media
import Harvest.Store.Schema
import Harvest.Store.Streams
import Harvest.Stream.Record
import Harvest.Text.Category
import Harvest.Text.LowerCase
import Harvest.Text.Printable
import Harvest.Text.Substring
import Harvest.Text.Units
import Harvest.Title.Match
import Harvest.Title.Similarity
import Harvest.Toml.Document
import Harvest.Toml.Printer
import Harvest.Toml.Scalar
import Harvest.Toml.Text
