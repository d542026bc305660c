import Rexec.Lib.Machine
import Rexec.Lib.Json
import Rexec.Lib.JsonRoundTrip
import Rexec.Lib.JsonNesting
import Rexec.Lib.Lines
import Rexec.Lib.Reorder
import Rexec.Lib.BufWriter
import Rexec.Text
import Rexec.Protocol
import Rexec.Wire
import Rexec.TranscriptFile
import Rexec.AppendFaults
import Rexec.TranscriptQueue
import Rexec.Attach
import Rexec.PtyBuffer
import Rexec.FilterGrammar
import Rexec.EscapeSequences
import Rexec.Connection
import Rexec.FilterText
import Rexec.Stages
import Rexec.Authorisation
import Rexec.Host
import Rexec.Signals
import Rexec.Spawn
import Rexec.Report
import Rexec.Outcome
import Rexec.Journal
import Rexec.Durability
import Rexec.Session
import Rexec.SessionLaw
import Rexec.Framing
import Rexec.FramingLaw
import Rexec.Console
import Rexec.Pool
import Rexec.PoolFrame
import Rexec.PoolCalls
import Rexec.PoolAnswers
import Rexec.CommandOnce
import Rexec.Takeover
import Rexec.Follow
import Rexec.Lib.ShellWords
import Rexec.Quoting
import Rexec.Rendering
import Rexec.Lib.Environ
import Rexec.Environment
import Rexec.PoolBound
import Rexec.Drain
import Rexec.Lib.Paths
import Rexec.UserPath
import Rexec.Lib.UnitFiles
import Rexec.Service
import Rexec.ErrnoPipe
import Rexec.RunClient
import Rexec.RunClientLaw
import Rexec.PoolHost
import Rexec.PoolHostLaw
import Rexec.AttachFeed
import Rexec.Link
import Rexec.AttachClient
import Rexec.AttachClientLaw
import Rexec.RunReport
import Rexec.RunReportLaw
import Rexec.RunStatements
