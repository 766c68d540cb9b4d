import SourceDocs.Pattern
import SourceDocs.Path
import SourceDocs.Language
import SourceDocs.SortedMap
import SourceDocs.Elements
import SourceDocs.Language.Detection
import SourceDocs.Json.Decode
import SourceDocs.Classifier
import SourceDocs.Time.Reader
import SourceDocs.Metadata
import SourceDocs.DirectoryTree
import SourceDocs.Records
import SourceDocs.Corpus
import SourceDocs.Context
import SourceDocs.Report
import SourceDocs.Progress
import SourceDocs.Script
import SourceDocs.Synthesis.Clock
import SourceDocs.ChatService
import SourceDocs.Scan
import SourceDocs.MemoryHost
import SourceDocs.Toml.Reader
import SourceDocs.Config
import SourceDocs.Source
import SourceDocs.Text.Percent
import SourceDocs.Digest.Hmac
import SourceDocs.Xml.Record
import SourceDocs.ObjectStore.Bucket
import SourceDocs.Command.Document
import SourceDocs.Program
import SourceDocs.Main
import SourceDocs.Proofs.Synthesis.Output
import SourceDocs.Proofs.Synthesis.Cancellation
import SourceDocs.Proofs.Synthesis.Barrier
import SourceDocs.Proofs.Synthesis.Prompts
import SourceDocs.Proofs.Synthesis.Sequential
import SourceDocs.Proofs.Synthesis.Schedule
import SourceDocs.Proofs.Synthesis.Clocked
import SourceDocs.Proofs.Synthesis.Accounting
import SourceDocs.Proofs.Synthesis.Concurrency
import SourceDocs.Proofs.Chunk
import SourceDocs.Proofs.SortedMap
import SourceDocs.Proofs.Path
import SourceDocs.Proofs.DirectoryTree
import SourceDocs.Proofs.Text.ByteOrder
import SourceDocs.Proofs.Corpus.Grouping
import SourceDocs.Proofs.Corpus.Chunks
import SourceDocs.Proofs.Scan.Walk
import SourceDocs.Proofs.Scan.Partition
import SourceDocs.Proofs.Scan.Structure
import SourceDocs.Proofs.ObjectStore.Context
import SourceDocs.Proofs.Scan.Agreement
import SourceDocs.Proofs.ObjectStore.Ingest
import SourceDocs.Proofs.Json.RoundTrip
import SourceDocs.Proofs.Json.Decode
import SourceDocs.Proofs.Corpus.Snapshot
import SourceDocs.Proofs.DirectoryTree.Text
import SourceDocs.Proofs.Metadata
import SourceDocs.Proofs.Files.System
import SourceDocs.Proofs.Synthesis.Prompted
import SourceDocs.Proofs.Command.Document
import SourceDocs.Proofs.Json.Codec
import SourceDocs.Proofs.Records
import SourceDocs.Proofs.Corpus.Elements
import SourceDocs.Proofs.Report
import SourceDocs.Proofs.Synthesis.Smooth
import SourceDocs.Proofs.Command.DryRun
import SourceDocs.Proofs.Scan.Links
import SourceDocs.Proofs.DirectoryTree.Paths
import SourceDocs.Proofs.Chunk.Cursors
import SourceDocs.Proofs.Retry
import SourceDocs.Proofs.Retry.Cancellation
import SourceDocs.Proofs.Time.Duration
import SourceDocs.Proofs.Retry.Backoff
import SourceDocs.Proofs.Corpus.Partition
import SourceDocs.Proofs.Pattern
import SourceDocs.Proofs.Elements.Comments
import SourceDocs.Proofs.Elements.Names
import SourceDocs.Proofs.Text.Percent
import SourceDocs.Proofs.ObjectStore.Requests
import SourceDocs.Proofs.Xml.Document
import SourceDocs.Proofs.ObjectStore.Pages
import SourceDocs.Proofs.ObjectStore.Completeness
import SourceDocs.Proofs.Progress
import SourceDocs.Proofs.Path.Components
import SourceDocs.Proofs.ObjectStore.Keys
import SourceDocs.Proofs.Synthesis.Progress
