import Uperf.Accepts
import Uperf.Asymmetric
import Uperf.Bswap
import Uperf.CString
import Uperf.Command
import Uperf.Doubles
import Uperf.Duplex.Agreement
import Uperf.Duplex.Calls
import Uperf.Duplex.Counting
import Uperf.Duplex.Dialogue
import Uperf.Duplex.Fleet
import Uperf.Duplex.Loops
import Uperf.Duplex.Opposites
import Uperf.Duplex.Pair
import Uperf.Duplex.Plays
import Uperf.Duplex.Received
import Uperf.Duplex.Script
import Uperf.Duplex.System
import Uperf.Duplex.Totals
import Uperf.Flowops
import Uperf.Goodbye.LogText
import Uperf.Goodbye.Receive
import Uperf.Goodbye.SafeRead
import Uperf.Handshake.Bitswap
import Uperf.Handshake.Complete
import Uperf.Handshake.EnsureRw
import Uperf.Handshake.Headers
import Uperf.Handshake.Layout
import Uperf.Handshake.MasterPorts
import Uperf.Handshake.Messages
import Uperf.Handshake.Outcome
import Uperf.Handshake.Phase2
import Uperf.Handshake.Ports
import Uperf.Handshake.Projection
import Uperf.Handshake.Success
import Uperf.Handshake.Transfer
import Uperf.Handshake.Verdict
import Uperf.Lib.Arrays
import Uperf.Lib.ByteStream
import Uperf.Lib.Bytes
import Uperf.Lib.Codec
import Uperf.Lib.Decimal
import Uperf.Lib.Dual
import Uperf.Lib.Emission
import Uperf.Lib.Exec
import Uperf.Lib.Fallible
import Uperf.Lib.LinkedList
import Uperf.Lib.Phases
import Uperf.Lib.Rounding
import Uperf.Lib.Sections
import Uperf.Lib.Tables
import Uperf.Lib.Transition
import Uperf.Logging
import Uperf.Master.Control
import Uperf.Master.SendCommand
import Uperf.Netstat.Listing
import Uperf.Netstat.Snap
import Uperf.Opposite
import Uperf.Parse.Accepted
import Uperf.Parse.Attachable
import Uperf.Parse.Attaching
import Uperf.Parse.Attributes
import Uperf.Parse.Counts
import Uperf.Parse.Endings
import Uperf.Parse.ErrorTable
import Uperf.Parse.Errors
import Uperf.Parse.Folding
import Uperf.Parse.Identifiers
import Uperf.Parse.LastByte
import Uperf.Parse.Legible
import Uperf.Parse.Lexemes
import Uperf.Parse.Numbers
import Uperf.Parse.OptionTable
import Uperf.Parse.Options
import Uperf.Parse.OptionsFit
import Uperf.Parse.Pieces
import Uperf.Parse.Profile
import Uperf.Parse.Reading
import Uperf.Parse.RoundTrip
import Uperf.Parse.Runnable
import Uperf.Parse.Sizes
import Uperf.Parse.Spelling
import Uperf.Parse.Starts
import Uperf.Parse.Swallowing
import Uperf.Parse.Symbols
import Uperf.Parse.Tags
import Uperf.Parse.Tokens
import Uperf.Parse.Total
import Uperf.Parse.Units
import Uperf.Parse.Values
import Uperf.Parse.Variables
import Uperf.Parse.Whitespace
import Uperf.Parse.Worklist
import Uperf.Protocol.SctpWrite
import Uperf.Protocol.Timeout
import Uperf.Protocol.Udp
import Uperf.Protocol.UdpUsers
import Uperf.Rate.Count
import Uperf.Rate.Limiter
import Uperf.Report.Averages
import Uperf.Report.Capacity
import Uperf.Report.Details
import Uperf.Report.Extrema
import Uperf.Run.BarrierTable
import Uperf.Run.Barriers
import Uperf.Run.Callouts
import Uperf.Run.Commands
import Uperf.Run.Durations
import Uperf.Run.Execute
import Uperf.Run.Lockstep
import Uperf.Run.Serviced
import Uperf.Run.Signalling
import Uperf.Run.System
import Uperf.Strand.Accounting
import Uperf.Strand.Buffer
import Uperf.Strand.Cache
import Uperf.Strand.Connections
import Uperf.Strand.Disconnect
import Uperf.Strand.Execute
import Uperf.Strand.Iterations
import Uperf.Strand.Library
import Uperf.Strand.Listening
import Uperf.Strand.Pool
import Uperf.Strand.Sendfile
import Uperf.Strand.Stale
import Uperf.Strand.Stats
import Uperf.Workorder
