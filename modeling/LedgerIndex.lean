import LedgerIndex.Block.Creator
import LedgerIndex.Block.Encoded
import LedgerIndex.Block.Fixture
import LedgerIndex.Block.Header
import LedgerIndex.Block.Kind
import LedgerIndex.Block.Record
import LedgerIndex.Bytes
import LedgerIndex.CommandLine.Command
import LedgerIndex.CommandLine.Options
import LedgerIndex.CommandLine.Overrides
import LedgerIndex.CommandLine.Value
import LedgerIndex.Config.Basic
import LedgerIndex.Config.Period
import LedgerIndex.Config.Profile
import LedgerIndex.Config.Rendered
import LedgerIndex.Dashboard.Placeholders
import LedgerIndex.Dashboard.Provision
import LedgerIndex.Dashboard.Template
import LedgerIndex.Decimal.Basic
import LedgerIndex.Decimal.Shortest
import LedgerIndex.Der
import LedgerIndex.Digest.Sha256
import LedgerIndex.Entries
import LedgerIndex.Event.Basic
import LedgerIndex.Event.Document
import LedgerIndex.Event.Linking
import LedgerIndex.Event.OfBlock
import LedgerIndex.Files.Path
import LedgerIndex.Files.Tree
import LedgerIndex.Http.Exchange
import LedgerIndex.Ingest.Daemon
import LedgerIndex.Ingest.Engine
import LedgerIndex.Ingest.Error
import LedgerIndex.Ingest.Follower
import LedgerIndex.Ingest.Ingestor
import LedgerIndex.Ingest.Launch
import LedgerIndex.Ingest.Notices
import LedgerIndex.Ingest.Program
import LedgerIndex.Ingest.Site
import LedgerIndex.Json.Basic
import LedgerIndex.Json.Double
import LedgerIndex.Json.Member
import LedgerIndex.Json.Printer
import LedgerIndex.Json.Reader
import LedgerIndex.Json.Record
import LedgerIndex.Json.Rendered
import LedgerIndex.Ledger.Basic
import LedgerIndex.Ledger.Gateway
import LedgerIndex.Ledger.Growth
import LedgerIndex.Ledger.Memory
import LedgerIndex.Main
import LedgerIndex.Proofs.Block.Canonical
import LedgerIndex.Proofs.Block.Creator
import LedgerIndex.Proofs.Block.Dependence
import LedgerIndex.Proofs.Block.Encoded
import LedgerIndex.Proofs.Block.Fixture
import LedgerIndex.Proofs.Block.MessageTypes
import LedgerIndex.Proofs.Block.Padding
import LedgerIndex.Proofs.Block.RoundTrip
import LedgerIndex.Proofs.Block.UndeclaredFields
import LedgerIndex.Proofs.Config.Period
import LedgerIndex.Proofs.Dashboard.Template
import LedgerIndex.Proofs.Decimal.Digits
import LedgerIndex.Proofs.Der
import LedgerIndex.Proofs.Event.DocumentId
import LedgerIndex.Proofs.Event.Flattening
import LedgerIndex.Proofs.Event.OfBlock
import LedgerIndex.Proofs.Event.Place
import LedgerIndex.Proofs.Ingest.Agreement
import LedgerIndex.Proofs.Ingest.Announcements
import LedgerIndex.Proofs.Ingest.Bench
import LedgerIndex.Proofs.Ingest.BlockDocuments
import LedgerIndex.Proofs.Ingest.Checkpoints
import LedgerIndex.Proofs.Ingest.Company
import LedgerIndex.Proofs.Ingest.Delivery
import LedgerIndex.Proofs.Ingest.Deployment
import LedgerIndex.Proofs.Ingest.Discipline
import LedgerIndex.Proofs.Ingest.ExactlyOnce
import LedgerIndex.Proofs.Ingest.Exchanges
import LedgerIndex.Proofs.Ingest.HashChain
import LedgerIndex.Proofs.Ingest.Independence
import LedgerIndex.Proofs.Ingest.Interchange
import LedgerIndex.Proofs.Ingest.Narration
import LedgerIndex.Proofs.Ingest.Numbers
import LedgerIndex.Proofs.Ingest.Outcome
import LedgerIndex.Proofs.Ingest.Outpost
import LedgerIndex.Proofs.Ingest.Protocol
import LedgerIndex.Proofs.Ingest.Publications
import LedgerIndex.Proofs.Ingest.Questions
import LedgerIndex.Proofs.Ingest.Reachable
import LedgerIndex.Proofs.Ingest.Recording
import LedgerIndex.Proofs.Ingest.Recovery
import LedgerIndex.Proofs.Ingest.Resumption
import LedgerIndex.Proofs.Ingest.Rounds
import LedgerIndex.Proofs.Ingest.Safety
import LedgerIndex.Proofs.Ingest.Steps
import LedgerIndex.Proofs.Ingest.Supervision
import LedgerIndex.Proofs.Ingest.Surroundings
import LedgerIndex.Proofs.Ingest.TableDeployment
import LedgerIndex.Proofs.Ingest.Trace
import LedgerIndex.Proofs.Ingest.Unbroken
import LedgerIndex.Proofs.Ingest.Verdict
import LedgerIndex.Proofs.Ingest.Watched
import LedgerIndex.Proofs.Ingest.Workers
import LedgerIndex.Proofs.Ingest.WriteOrder
import LedgerIndex.Proofs.Json.Fields
import LedgerIndex.Proofs.Json.Grammar
import LedgerIndex.Proofs.Json.Leaves
import LedgerIndex.Proofs.Json.Members
import LedgerIndex.Proofs.Json.Rendered
import LedgerIndex.Proofs.Json.Values
import LedgerIndex.Proofs.Json.Written
import LedgerIndex.Proofs.Ledger.Gateway
import LedgerIndex.Proofs.Ledger.Growing
import LedgerIndex.Proofs.Ledger.Requests
import LedgerIndex.Proofs.Retry
import LedgerIndex.Proofs.Store.Accepted
import LedgerIndex.Proofs.Store.CheckpointDocuments
import LedgerIndex.Proofs.Store.Mirror
import LedgerIndex.Proofs.Store.Peers
import LedgerIndex.Proofs.Store.Recall
import LedgerIndex.Proofs.Store.Replies
import LedgerIndex.Proofs.Store.Upsert
import LedgerIndex.Proofs.Store.View
import LedgerIndex.Proofs.Text.Hex
import LedgerIndex.Proofs.Text.Lossy
import LedgerIndex.Proofs.Text.Occurrences
import LedgerIndex.Proofs.Text.Search
import LedgerIndex.Proofs.Text.Trim
import LedgerIndex.Proofs.Text.Utf8
import LedgerIndex.Proofs.Url.Names
import LedgerIndex.Proofs.Url.Paths
import LedgerIndex.Proofs.Url.Segments
import LedgerIndex.Proofs.Wire.Bounds
import LedgerIndex.Proofs.Wire.Fields
import LedgerIndex.Proofs.Wire.Grammar
import LedgerIndex.Proofs.Wire.Lists
import LedgerIndex.Proofs.Wire.Messages
import LedgerIndex.Retry
import LedgerIndex.Sections
import LedgerIndex.Service
import LedgerIndex.Store.Basic
import LedgerIndex.Store.Memory
import LedgerIndex.Store.Search
import LedgerIndex.Store.Table
import LedgerIndex.Text.Base64
import LedgerIndex.Text.CaseTable
import LedgerIndex.Text.Lowercase
import LedgerIndex.Text.Search
import LedgerIndex.Text.Trim
import LedgerIndex.Text.Utf8
import LedgerIndex.Time.Instant
import LedgerIndex.Time.Span
import LedgerIndex.Tls.Certificate
import LedgerIndex.Tls.Pem
import LedgerIndex.Url.Basic
import LedgerIndex.Url.Extend
import LedgerIndex.Url.Host
import LedgerIndex.Url.Parser
import LedgerIndex.Url.Percent
import LedgerIndex.Url.Punycode
import LedgerIndex.Wire.Field
import LedgerIndex.Wire.Message
import LedgerIndex.Wire.Varint
import LedgerIndex.Yaml.Cursor
import LedgerIndex.Yaml.Document
import LedgerIndex.Yaml.Layout
import LedgerIndex.Yaml.Node
import LedgerIndex.Yaml.Record
import LedgerIndex.Yaml.Resolved
import LedgerIndex.Yaml.Scalar.Block
import LedgerIndex.Yaml.Scalar.Gap
import LedgerIndex.Yaml.Scalar.Plain
import LedgerIndex.Yaml.Scalar.Quoted
import LedgerIndex.Yaml.Tag
import LedgerIndex.Yaml.Token
