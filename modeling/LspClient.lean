import LspClient.Text.Blank
import LspClient.Text.CharRanges
import LspClient.Text.Nonspacing
import LspClient.Text.Unassigned
import LspClient.Text.Escaped
import LspClient.Text.Numeral
import LspClient.Text.Utf8
import LspClient.Number.Binary64
import LspClient.Number.Decimal
import LspClient.Json.Members
import LspClient.Json.Value
import LspClient.Json.DecodeError
import LspClient.Json.Quoted
import LspClient.Json.Token
import LspClient.Json.Decode
import LspClient.Json.Encode
import LspClient.Json.Event
import LspClient.Json.Standard
import LspClient.Yaml.Place
import LspClient.Yaml.Scalar
import LspClient.Yaml.Token
import LspClient.Yaml.Property
import LspClient.Yaml.Layout
import LspClient.Yaml.Node
import LspClient.Yaml.Document
import LspClient.Yaml.Spelling
import LspClient.Yaml.Reading
import LspClient.Wire.Frame
import LspClient.Wire.Header
import LspClient.Wire.FrameBuffer
import LspClient.Message.RequestId
import LspClient.Message.Envelope
import LspClient.Message.Incoming
import LspClient.Files.Path
import LspClient.Files.Basic
import LspClient.Settings.ClientCapabilities
import LspClient.Settings.Basic
import LspClient.Settings.Document
import LspClient.Handshake.Parameters
import LspClient.Handshake.ServerInfo
import LspClient.Transport.Error
import LspClient.Transport.Server
import LspClient.Session.Basic
import LspClient.Session.Peer
import LspClient.Client.Basic
import LspClient.Client.Operation
import LspClient.Client.Overview
import LspClient.Client.Wait
import LspClient.Child.Script
import LspClient.Child.Shell
import LspClient.Child.Run
import LspClient.Child.Job
import LspClient.Probe.CommandLine
import LspClient.Probe.Report
import LspClient.Probe.Attachment
import LspClient.Probe.Program
import LspClient.Main
import LspClient.Proofs.Text.Ascii
import LspClient.Proofs.Number.Nearest
import LspClient.Proofs.Number.Shortest
import LspClient.Proofs.Number.DecimalText
import LspClient.Proofs.Json.Quoted
import LspClient.Proofs.Json.Tokens
import LspClient.Proofs.Json.Words
import LspClient.Proofs.Json.RoundTrip
import LspClient.Proofs.Wire.HeaderBlock
import LspClient.Proofs.Wire.Reassembly
import LspClient.Proofs.Session.Event
import LspClient.Proofs.Session.Moves
import LspClient.Proofs.Client.Links
import LspClient.Proofs.Client.Outcomes
import LspClient.Proofs.Client.History
import LspClient.Proofs.Session.Ledger
import LspClient.Proofs.Session.Correlation
import LspClient.Proofs.Session.Handshake
import LspClient.Proofs.Wire.Chunking
import LspClient.Proofs.Wire.Recovery
import LspClient.Proofs.Message.Envelope
import LspClient.Proofs.Session.Hearing
import LspClient.Proofs.Json.Grammar
import LspClient.Proofs.Client.Upshot
import LspClient.Proofs.Client.Custody
import LspClient.Proofs.Session.WireOrder
import LspClient.Proofs.Client.WireOrder
import LspClient.Proofs.Session.Renumbering
import LspClient.Proofs.Client.Alone
import LspClient.Proofs.Client.ReadOrder
import LspClient.Proofs.Client.Isolation
import LspClient.Proofs.Client.Deliveries
import LspClient.Proofs.Client.Endings
import LspClient.Proofs.Client.Completions
import LspClient.Proofs.Session.Passages
import LspClient.Proofs.Client.Passages
import LspClient.Proofs.Client.Readiness
import LspClient.Proofs.Client.Records
import LspClient.Proofs.Session.Exchanges
import LspClient.Proofs.Client.Exchanges
import LspClient.Proofs.Session.Requests
import LspClient.Proofs.Client.Requests
import LspClient.Proofs.Client.Refusals
import LspClient.Proofs.Json.DistinctKeys
import LspClient.Proofs.Json.Nesting
import LspClient.Proofs.Message.DistinctKeys
import LspClient.Proofs.Client.Readback
import LspClient.Proofs.Session.Opening
import LspClient.Proofs.Client.OutputEnd
import LspClient.Proofs.Client.Introductions
import LspClient.Proofs.Client.Connecting
import LspClient.Proofs.Client.Acknowledgements
import LspClient.Proofs.Wire.Bounds
import LspClient.Proofs.Wire.HeaderLimit
import LspClient.Proofs.Wire.Overrun
import LspClient.Proofs.Wire.Segments
import LspClient.Proofs.Message.Building
import LspClient.Proofs.Number.Rounding
import LspClient.Proofs.Json.StrictGrammar
import LspClient.Proofs.Json.StrictText
import LspClient.Proofs.Text.Utf8
import LspClient.Proofs.Text.Trim
import LspClient.Proofs.Json.Literals
import LspClient.Proofs.Json.Lexemes
import LspClient.Proofs.Json.FirstProblem
import LspClient.Proofs.Json.Numerals
import LspClient.Proofs.Wire.HeaderLines
import LspClient.Proofs.Json.OrderedMap
import LspClient.Proofs.Session.Queues
import LspClient.Proofs.Client.Queues
import LspClient.Proofs.Client.Idle
import LspClient.Proofs.Number.OneFloat
import LspClient.Proofs.Json.Telling
import LspClient.Proofs.Json.Reports
import LspClient.Proofs.Json.StandardScalars
import LspClient.Proofs.Json.StandardReader
import LspClient.Proofs.Json.TwoReaders
import LspClient.Proofs.Client.Stranded
import LspClient.Proofs.Client.Waiting
import LspClient.Proofs.Text.Slices
import LspClient.Proofs.Json.Scan
import LspClient.Proofs.Json.Coverage
