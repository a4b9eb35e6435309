import RgspCast.Lib.Transition
import RgspCast.Lib.ExceptState
import RgspCast.Lib.Bracket
import RgspCast.Lib.Checked
import RgspCast.Lib.Stores
import RgspCast.Lib.NalFraming
import RgspCast.Lib.Delta
import RgspCast.Lib.Waiters
import RgspCast.Lib.Registry
import RgspCast.Lib.Broadcast
import RgspCast.Lib.Utf8
import RgspCast.Lib.Reads
import RgspCast.Lib.Framed
import RgspCast.Lib.Brackets
import RgspCast.Lib.Layout
import RgspCast.Lib.Aes128Gcm
import RgspCast.Lib.Aes128Ecb
import RgspCast.Lib.Sha256
import RgspCast.Ipc.StreamCodec
import RgspCast.Host.Daemon
import RgspCast.Host.Pidfile
import RgspCast.Host.Processes
import RgspCast.Host.Input
import RgspCast.Host.InputDecode
import RgspCast.Host.InputForward
import RgspCast.Host.InputEvents
import RgspCast.Host.Control
import RgspCast.Host.WaitUntilResolved
import RgspCast.Moonshine.Clients
import RgspCast.Moonshine.SessionManager
import RgspCast.Moonshine.Unpair
import RgspCast.Moonshine.Pairing
import RgspCast.Moonshine.PairingClient
import RgspCast.Moonshine.PairedState
import RgspCast.Moonshine.Packetizer
import RgspCast.Moonshine.Shards
import RgspCast.Moonshine.Reassembly
import RgspCast.Moonshine.PacketizerRun
import RgspCast.Moonshine.VideoSend
import RgspCast.Lib.Permits
import RgspCast.Moonshine.StartGates
import RgspCast.Moonshine.ControlMessages
import RgspCast.Moonshine.ControlLoop
import RgspCast.Host.SubmitPin
import RgspCast.Host.VideoControl
import RgspCast.Host.Routing
import RgspCast.Host.Asoundrc
import RgspCast.Host.Shutdown
import RgspCast.Ui.Service
import RgspCast.Ui.Restart
import RgspCast.Ui.ServiceStop
import RgspCast.Pak.Hooks
import RgspCast.Host.SessionPump
import RgspCast.Host.AudioPeriods
import RgspCast.Cedar.Bitstream
import RgspCast.Cedar.AvccRecord
import RgspCast.Cedar.Drain
import RgspCast.Cedar.Geometry
import RgspCast.Cedar.Convert
import RgspCast.Cedar.Nv12
import RgspCast.Cedar.Capture
import RgspCast.Cedar.Calls
import RgspCast.Cedar.Session
import RgspCast.Cedar.InputBuffer
import RgspCast.Cedar.ReadBounds
import RgspCast.Cedar.Surface
import RgspCast.Cedar.Keyframes
import RgspCast.Cedar.Lifecycle
import RgspCast.Cedar.Pacing
import RgspCast.Lib.Pacer
import RgspCast.Cedar.FramePacing
import RgspCast.Lib.RateClock
import RgspCast.Host.VideoStream
import RgspCast.Host.IdrBudget
import RgspCast.Host.RtpClock
import RgspCast.Host.FrameNumbers
import RgspCast.Ui.Rpc
import RgspCast.Ui.Screens
import RgspCast.Ui.Home
import RgspCast.Ui.MainLoop
