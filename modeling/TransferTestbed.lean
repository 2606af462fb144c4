import TransferTestbed.Library.Transition
import TransferTestbed.Library.Binary64
import TransferTestbed.Library.Rounding
import TransferTestbed.Library.Binary64Order
import TransferTestbed.Library.Decimal
import TransferTestbed.Library.Dict
import TransferTestbed.Library.Grouping
import TransferTestbed.Library.Json
import TransferTestbed.Library.Csv
import TransferTestbed.Library.CsvAppend
import TransferTestbed.Library.Sha256
import TransferTestbed.Library.FileSystem
import TransferTestbed.Library.Framing
import TransferTestbed.Library.Queues
import TransferTestbed.Library.Tally
import TransferTestbed.Library.Lines
import TransferTestbed.Library.Numeral
import TransferTestbed.Library.Literal
import TransferTestbed.Library.JsonStream
import TransferTestbed.Library.JsonDocument
import TransferTestbed.Library.JsonRoundTrip
import TransferTestbed.Library.Timestamp
import TransferTestbed.Library.Fallible
import TransferTestbed.Library.Simulation
import TransferTestbed.Library.Messages
import TransferTestbed.Library.Uri
import TransferTestbed.Library.Statistics
import TransferTestbed.Common.Integrity
import TransferTestbed.Common.Streaming
import TransferTestbed.Common.ResourceMonitor
import TransferTestbed.Common.Runs
import TransferTestbed.Common.ManifestFiles
import TransferTestbed.Common.RunFiles
import TransferTestbed.Output.WriteCsv
import TransferTestbed.Output.ExistingFiles
import TransferTestbed.Output.PcapRows
import TransferTestbed.Output.ConcurrentAppends
import TransferTestbed.Protocols.BenchmarkManager
import TransferTestbed.Protocols.RunProtocol
import TransferTestbed.Protocols.RunCoverage
import TransferTestbed.Protocols.UploadClients
import TransferTestbed.Protocols.Invocations
import TransferTestbed.Protocols.Processes
import TransferTestbed.Protocols.Agreement
import TransferTestbed.Protocols.Orphans
import TransferTestbed.Protocols.RunRecords
import TransferTestbed.Protocols.RunHistory
import TransferTestbed.Protocols.RunCreation
import TransferTestbed.Protocols.Runner
import TransferTestbed.Transfer.Chunking
import TransferTestbed.Transfer.Disk
import TransferTestbed.Transfer.Receiver
import TransferTestbed.Transfer.Reassembly
import TransferTestbed.Transfer.MqttHistory
import TransferTestbed.Transfer.Verdict
import TransferTestbed.Transfer.AmqpQueues
import TransferTestbed.Transfer.AtLeastOnce
import TransferTestbed.Transfer.Senders
import TransferTestbed.Transfer.Completion
import TransferTestbed.Grpc.Upload
import TransferTestbed.Grpc.Concurrent
import TransferTestbed.Grpc.Sequential
import TransferTestbed.Grpc.Resources
import TransferTestbed.Grpc.Client
import TransferTestbed.Grpc.Sender
import TransferTestbed.Transfer.Goodput
import TransferTestbed.Transfer.MetadataAck
import TransferTestbed.Lwm2m.Server
import TransferTestbed.Coap.Server
import TransferTestbed.Lwm2m.Filenames
import TransferTestbed.Lwm2m.Exchange
import TransferTestbed.Coap.Exchange
import TransferTestbed.Http.Server
import TransferTestbed.Http.Exchange
import TransferTestbed.Pcap.Capture
import TransferTestbed.Pcap.Tshark
import TransferTestbed.Pcap.Output
import TransferTestbed.Pcap.Analyzer
import TransferTestbed.Pcap.Retransmissions
import TransferTestbed.Pcap.Dissection
import TransferTestbed.Pcap.ConRepeats
import TransferTestbed.Pcap.Consistency
import TransferTestbed.Charts.ErrorBands
import TransferTestbed.Charts.Labels
import TransferTestbed.Charts.Cells
import TransferTestbed.Charts.Collect
import TransferTestbed.Charts.FileSizes
import TransferTestbed.Charts.Selection
import TransferTestbed.Charts.Series
import TransferTestbed.Charts.MqttCharts
import TransferTestbed.Charts.Overview
import TransferTestbed.Charts.Plot
import TransferTestbed.Charts.Dashboard
import TransferTestbed.Transfer.MqttSession
