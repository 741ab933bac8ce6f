import Libccll.Cipher.Capacity
import Libccll.Cipher.Content
import Libccll.Cipher.Freshness
import Libccll.Cipher.Reading
import Libccll.Cipher.RsaSessions
import Libccll.Comm.Chronology
import Libccll.Comm.HexDump
import Libccll.Comm.Ipv4
import Libccll.Comm.Mac
import Libccll.Comm.Sizes
import Libccll.Comm.Trim
import Libccll.Config.Document
import Libccll.Event.Dispatch
import Libccll.Event.Lives
import Libccll.Event.Subscription
import Libccll.Event.Whole
import Libccll.Log.Modes
import Libccll.Main.Order
import Libccll.Pool.Ahead
import Libccll.Pool.Deadlock
import Libccll.Pool.Freed
import Libccll.Pool.Identifiers
import Libccll.Queue.Popping
import Libccll.Sys.Makers
import Libccll.Sys.Sh
import Libccll.Sys.Status
import Libccll.Timers.Periods
import Libccll.Timers.Startup
import Libccll.Timers.Waiting
