import EventMerge.Binary.Codec
import EventMerge.Buffers
import EventMerge.Bytes
import EventMerge.Checksum.Blake3
import EventMerge.Checksum.Crc32
import EventMerge.Checksum.XxHash64
import EventMerge.Collection
import EventMerge.Command.Basic
import EventMerge.Command.Directory
import EventMerge.Command.Execute
import EventMerge.Command.Report
import EventMerge.CommandLine.Invocation
import EventMerge.CommandLine.Level
import EventMerge.CommandLine.Option
import EventMerge.Error
import EventMerge.Event.Basic
import EventMerge.Event.Cache
import EventMerge.Event.Handle
import EventMerge.Event.Supply
import EventMerge.Generate.Basic
import EventMerge.Identity
import EventMerge.IdentityTable
import EventMerge.Inspect.Report
import EventMerge.Inspect.Selection
import EventMerge.Json.Literal
import EventMerge.Json.Numeral
import EventMerge.Json.Parser
import EventMerge.Json.Payload
import EventMerge.Json.Record
import EventMerge.Json.Tree
import EventMerge.Main
import EventMerge.NameMap
import EventMerge.Number.Binary
import EventMerge.Number.Layout
import EventMerge.Number.Literal
import EventMerge.Number.Shortest
import EventMerge.Pack.Event
import EventMerge.Pack.Reader
import EventMerge.Pack.Record
import EventMerge.Pack.Varint
import EventMerge.Pack.Writer
import EventMerge.Parameters
import EventMerge.Policy
import EventMerge.Proofs.Binary.Codec
import EventMerge.Proofs.Collection.Marks
import EventMerge.Proofs.Event.Counting
import EventMerge.Proofs.Event.Decoding
import EventMerge.Proofs.Event.Following
import EventMerge.Proofs.Event.Freshness
import EventMerge.Proofs.Event.Isolation
import EventMerge.Proofs.Event.Kinds
import EventMerge.Proofs.Event.Processing
import EventMerge.Proofs.Event.Reading
import EventMerge.Proofs.Event.Requests
import EventMerge.Proofs.Event.Resolving
import EventMerge.Proofs.Event.Settling
import EventMerge.Proofs.Event.Tracing
import EventMerge.Proofs.Event.Writing
import EventMerge.Proofs.Generate.Drafting
import EventMerge.Proofs.Generate.Storing
import EventMerge.Proofs.IdentityTable.Inserting
import EventMerge.Proofs.IdentityTable.Rejecting
import EventMerge.Proofs.Inspect.Expansion
import EventMerge.Proofs.Inspect.Grammar
import EventMerge.Proofs.Json.Leaves
import EventMerge.Proofs.Json.Payload
import EventMerge.Proofs.Json.Printing
import EventMerge.Proofs.Names
import EventMerge.Proofs.Pack.Access
import EventMerge.Proofs.Pack.Calls
import EventMerge.Proofs.Pack.Finality
import EventMerge.Proofs.Pack.Framing
import EventMerge.Proofs.Pack.Indexing
import EventMerge.Proofs.Pack.Numbering
import EventMerge.Proofs.Pack.Opening
import EventMerge.Proofs.Pack.Records
import EventMerge.Proofs.Pack.Varint
import EventMerge.Proofs.Run.Alone
import EventMerge.Proofs.Run.Counting
import EventMerge.Proofs.Run.Ending
import EventMerge.Proofs.Run.Finishing
import EventMerge.Proofs.Run.Holding
import EventMerge.Proofs.Run.Registering
import EventMerge.Proofs.Run.Repacking
import EventMerge.Proofs.Run.Restoring
import EventMerge.Proofs.Run.Selecting
import EventMerge.Proofs.Run.Sequence
import EventMerge.Proofs.Run.Sinks
import EventMerge.Proofs.Run.Strategies
import EventMerge.Proofs.Run.Succeeding
import EventMerge.Proofs.Run.Workers
import EventMerge.Proofs.Run.Writing
import EventMerge.Proofs.Store.Alignment
import EventMerge.Proofs.Store.Faults
import EventMerge.Proofs.Store.Freezing
import EventMerge.Proofs.Store.Lookups
import EventMerge.Proofs.Store.Numbering
import EventMerge.Proofs.Store.Pulling
import EventMerge.Proofs.Store.Registering
import EventMerge.Proofs.Store.Rereading
import EventMerge.Proofs.Store.Reusing
import EventMerge.Proofs.Store.Sources
import EventMerge.Proofs.Table.Columns
import EventMerge.Proofs.Table.Document
import EventMerge.Proofs.Table.Recording
import EventMerge.Proofs.Table.Serving
import EventMerge.Proofs.Text.Blank
import EventMerge.Proofs.Text.Decimal
import EventMerge.Random.ChaCha
import EventMerge.Run.Basic
import EventMerge.Run.Config
import EventMerge.Run.Pool
import EventMerge.Run.Process
import EventMerge.Run.Writer
import EventMerge.Store.Basic
import EventMerge.Store.Config
import EventMerge.Store.ConfigFile
import EventMerge.Store.Feed
import EventMerge.Table.Document
import EventMerge.Table.Reader
import EventMerge.Table.Row
import EventMerge.Table.Writer
import EventMerge.Text.Ascii
import EventMerge.Text.Blank
import EventMerge.Text.Decimal
import EventMerge.Text.Printable
import EventMerge.Text.Quoted
import EventMerge.Text.Utf8
import EventMerge.Toml.Parser
import EventMerge.Toml.Quoted
import EventMerge.Toml.Record
import EventMerge.Toml.Scalar
import EventMerge.Toml.Table
import EventMerge.Total
import EventMerge.Zstd.Bits
import EventMerge.Zstd.Compressor
import EventMerge.Zstd.Frame
import EventMerge.Zstd.Fse
import EventMerge.Zstd.Huffman
import EventMerge.Zstd.Literals
import EventMerge.Zstd.Sequences
