import SocketIOStress.Lib.Run
import SocketIOStress.Lib.Marks
import SocketIOStress.Lib.Waits
import SocketIOStress.Lib.Regex
import SocketIOStress.Lib.Utf8
import SocketIOStress.Lib.Octets
import SocketIOStress.Lib.Feed
import SocketIOStress.Json.ReaderTotal
import SocketIOStress.ActionSequence
import SocketIOStress.Format
import SocketIOStress.Json.Writer
import SocketIOStress.Handler
import SocketIOStress.Player
import SocketIOStress.Session
import SocketIOStress.Replay
import SocketIOStress.Messages
import SocketIOStress.Frames
import SocketIOStress.Heartbeat
import SocketIOStress.FailedParse
import SocketIOStress.Playable
import SocketIOStress.Connection
import SocketIOStress.Shutdown
import SocketIOStress.Uri
import SocketIOStress.Client
import SocketIOStress.Address
import SocketIOStress.Validator
import SocketIOStress.Hybi.Header
import SocketIOStress.Hybi.Layout
import SocketIOStress.Hybi.Message
import SocketIOStress.Hybi.Processor
import SocketIOStress.Hybi.Stream
import SocketIOStress.Hybi.Assembly
import SocketIOStress.Hybi.Reading
import SocketIOStress.Hybi.Writer
import SocketIOStress.Hybi.RoundTrip
import SocketIOStress.Hybi.Memory
import SocketIOStress.Hybi.Guard
import SocketIOStress.Outstanding
import SocketIOStress.ByteConnection
import SocketIOStress.Dispatch
