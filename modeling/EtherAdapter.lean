import EtherAdapter.Runs.Basic
import EtherAdapter.Slicing.Basic
import EtherAdapter.Slicing.Planted
import EtherAdapter.Slicing.Compared
import EtherAdapter.Grouping.Basic
import EtherAdapter.Memory.Basic
import EtherAdapter.Tracing.Basic
import EtherAdapter.Tuples.Basic
import EtherAdapter.Rounding.Basic
import EtherAdapter.Upserts.Basic
import EtherAdapter.Model.Device
import EtherAdapter.Model.Decode
import EtherAdapter.Model.Stream
import EtherAdapter.Model.Feed
import EtherAdapter.Model.Modbus
import EtherAdapter.Model.Reads
import EtherAdapter.Model.Poller
import EtherAdapter.Model.Parser
import EtherAdapter.Model.Ingest
import EtherAdapter.Model.Adapter
import EtherAdapter.Model.Config
import EtherAdapter.Model.Indexes
import EtherAdapter.Model.Writer
import EtherAdapter.Model.Numbers
import EtherAdapter.Model.Sql
import EtherAdapter.Model.Json
import EtherAdapter.Model.Http
import EtherAdapter.Model.Connection
import EtherAdapter.Model.Logging
import EtherAdapter.Model.Buffer
import EtherAdapter.Model.Csv
import EtherAdapter.Model.EventLoop
import EtherAdapter.Model.Timers
import EtherAdapter.Model.Channels
import EtherAdapter.Model.ModbusSim
import EtherAdapter.Model.LogFile
import EtherAdapter.Model.Server
import EtherAdapter.Model.Settings
import EtherAdapter.Model.DeviceSim
import EtherAdapter.Codec.Chunking
import EtherAdapter.Codec.Wire
import EtherAdapter.Codec.RoundTrip
import EtherAdapter.Codec.DeviceSim
import EtherAdapter.Codec.Alien
import EtherAdapter.Codec.Mbap
import EtherAdapter.Codec.ShortReplies
import EtherAdapter.Codec.PlainResponses
import EtherAdapter.Codec.Budget
import EtherAdapter.Codec.Integers
import EtherAdapter.Codec.Backlog
import EtherAdapter.Codec.Bounds
import EtherAdapter.Codec.Records
import EtherAdapter.Config.Extents
import EtherAdapter.Codec.BitFields
import EtherAdapter.Config.Groups
import EtherAdapter.Config.Matching
import EtherAdapter.Config.Naming
import EtherAdapter.Writer.Integers
import EtherAdapter.Writer.Staging
import EtherAdapter.Http.Json
import EtherAdapter.Http.Once
import EtherAdapter.Http.Keys
import EtherAdapter.Http.Buffering
import EtherAdapter.Http.Segmentation
import EtherAdapter.Http.Objects
import EtherAdapter.Http.Malformed
import EtherAdapter.Writer.Sql
import EtherAdapter.Writer.Doubles
import EtherAdapter.Writer.Literals
import EtherAdapter.Http.Stored
import EtherAdapter.Config.Reimport
import EtherAdapter.Config.ImportTexts
import EtherAdapter.Config.CsvLines
import EtherAdapter.Config.Settings
import EtherAdapter.Pipeline.Accounting
import EtherAdapter.Pipeline.Flush
import EtherAdapter.Pipeline.Shutdown
import EtherAdapter.Pipeline.Isolation
import EtherAdapter.Pipeline.Gate
import EtherAdapter.Pipeline.Logging
import EtherAdapter.Pipeline.EndToEnd
import EtherAdapter.Pipeline.LogFiles
import EtherAdapter.Net.Callbacks
import EtherAdapter.Net.Delivery
import EtherAdapter.Net.Polling
import EtherAdapter.Net.ByteQueue
import EtherAdapter.Net.Wakeups
import EtherAdapter.Net.Timers
import EtherAdapter.Net.TimerRuns
import EtherAdapter.Net.Channels
import EtherAdapter.Net.ClosedLoop
import EtherAdapter.Net.Server
