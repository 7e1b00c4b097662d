import Adler.Lib.Run
import Adler.Lib.Memory
import Adler.Lib.Soup
import Adler.Lib.Tokens
import Adler.Lib.Feed
import Adler.Lib.Decimal
import Adler.Lib.Words
import Adler.Lib.Rounding
import Adler.Lib.Lowest
import Adler.Lib.Cycle
import Adler.Lib.Handle
import Adler.Lib.Extents
import Adler.Lib.Ends
import Adler.Lib.Recent
import Adler.Lib.Bits
import Adler.Lib.Keyed
import Adler.Lib.Crc
import Adler.Deluge.Message
import Adler.Deluge.Node
import Adler.Deluge.Rx
import Adler.Deluge.Tx
import Adler.Deluge.Object
import Adler.Deluge.Refinement
import Adler.Deluge.Flash
import Adler.Deluge.Boot
import Adler.Deluge.Effects
import Adler.Deluge.Frame
import Adler.Deluge.Timers
import Adler.Deluge.Profile
import Adler.Deluge.Commit
import Adler.Deluge.PageTable
import Adler.Deluge.Assembly
import Adler.Deluge.Serve
import Adler.Deluge.Network
import Adler.Deluge.Posted
import Adler.Deluge.Image
import Adler.Deluge.Announce
import Adler.Deluge.Requests
import Adler.Deluge.Lifecycle
import Adler.Deluge.Awake
import Adler.Deluge.Offers
import Adler.Deluge.Payload
import Adler.Deluge.Answer
import Adler.Deluge.Stored
import Adler.Deluge.Resize
import Adler.Deluge.Completion
import Adler.Deluge.Retry
import Adler.Deluge.PageCount
import Adler.Deluge.Pace
import Adler.Deluge.RateLimit
import Adler.Deluge.RxTimer
import Adler.Deluge.Suppress
import Adler.Deluge.Crc
import Adler.Deluge.Noise
import Adler.Deluge.Progress
import Adler.Loader.Cfs
import Adler.Loader.Elf
import Adler.Loader.Frame
import Adler.Loader.Served
import Adler.Loader.Place
import Adler.Loader.Safe
import Adler.Loader.Overrun
import Adler.Mission.Gateway
import Adler.Mission.Reports
import Adler.Mission.Onboard
import Adler.Mission.Handshake
import Adler.Mission.StartFly
import Adler.Mission.Waypoints
import Adler.Flight.Arrival
import Adler.Serial.Frame
import Adler.Serial.Decode
import Adler.Serial.RoundTrip
import Adler.Serial.Resync
import Adler.Serial.Line
import Adler.Serial.Delivery
import Adler.Serial.Corrupt
import Adler.Flood.Node
import Adler.Flood.Network
import Adler.Flood.Log
import Adler.Gather.Message
import Adler.Sensor.Tsl2561
import Adler.Coffee.Flash
import Adler.Coffee.Sectors
import Adler.Coffee.Layout
import Adler.Coffee.Collect
import Adler.Coffee.Files
import Adler.Coffee.Reserve
import Adler.Coffee.Log
import Adler.Coffee.Read
import Adler.Coffee.Holds
import Adler.Coffee.Merge
import Adler.Coffee.Write
import Adler.Coffee.Store
import Adler.Kernel.List
import Adler.Kernel.Events
import Adler.Kernel.Etimer
import Adler.Kernel.Wakeup
import Adler.Kernel.Ctimer
import Adler.Kernel.Memb
import Adler.Net.Frame802154
import Adler.Net.Packetbuf
import Adler.Net.Framer
import Adler.Net.Contikimac
import Adler.Net.Bitopt
import Adler.Net.Chameleon
import Adler.Net.Rime
import Adler.Net.Csma
