import SoftPlc.Math.Run
import SoftPlc.Math.Cursor
import SoftPlc.Ipc.RingCalls
import SoftPlc.Ipc.Spsc
import SoftPlc.Ipc.Duplex
import SoftPlc.Adapters.Proxy
import SoftPlc.Cyclic.System
import SoftPlc.Cyclic.Numbering
import SoftPlc.Cyclic.Pairing
import SoftPlc.Cyclic.Doorbell
import SoftPlc.Cyclic.Discard
import SoftPlc.Adapters.FailsafeRule
import SoftPlc.Adapters.Loopback
import SoftPlc.Adapters.Answers
import SoftPlc.Adapters.Contract
import SoftPlc.Adapters.Edge
import SoftPlc.Opener.Backend
import SoftPlc.Opener.Service
import SoftPlc.Math.Parse
import SoftPlc.Math.Program
import SoftPlc.Math.Slices
import SoftPlc.Scanner.Config
import SoftPlc.Scanner.Backend
import SoftPlc.Scanner.Health
import SoftPlc.Scanner.Layout
import SoftPlc.Scanner.Station
import SoftPlc.Posix.Kernel
import SoftPlc.Ipc.Shm
import SoftPlc.Ipc.Handover
import SoftPlc.Adapters.Incarnation
import SoftPlc.Core.Runtime
import SoftPlc.Core.ScanContract
import SoftPlc.App.Status
import SoftPlc.Math.Arrivals
import SoftPlc.Scanner.Sequence
import SoftPlc.Core.Timers
import SoftPlc.Scanner.Params
import SoftPlc.Core.Blocks
import SoftPlc.App.Demo
import SoftPlc.Core.RunLoop
import SoftPlc.Core.ScanTime
import SoftPlc.Core.Pacing
import SoftPlc.Core.Stopping
import SoftPlc.Cyclic.Flood
import SoftPlc.Config.Lexer
import SoftPlc.Config.Parser
import SoftPlc.Config.RoundTrip
import SoftPlc.Config.Comments
import SoftPlc.Config.Lookup
import SoftPlc.Config.Order
import SoftPlc.Core.Pulse
import SoftPlc.Core.ImageMemory
import SoftPlc.App.LiveLink
import SoftPlc.App.PartCount
import SoftPlc.Ipc.Inert
import SoftPlc.Config.Numbers
import SoftPlc.Math.Reader
import SoftPlc.Scanner.Rows
import SoftPlc.Scanner.Reader
import SoftPlc.Math.Fair
import SoftPlc.Adapters.Departure
import SoftPlc.App.Supervisor
import SoftPlc.App.SupervisorEnd
import SoftPlc.Cyclic.Commands
import SoftPlc.Math.Mutex
import SoftPlc.Math.Relay
import SoftPlc.Opener.Handoff
import SoftPlc.Cyclic.Inputs
import SoftPlc.Cyclic.FieldPath
import SoftPlc.App.Main
