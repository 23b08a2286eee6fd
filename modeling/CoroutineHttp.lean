import CoroutineHttp.Library.Runs
import CoroutineHttp.Library.Search
import CoroutineHttp.Library.Fifo
import CoroutineHttp.Core.Placement
import CoroutineHttp.Core.Post
import CoroutineHttp.Core.Rendezvous
import CoroutineHttp.Core.Readiness
import CoroutineHttp.Core.RoundRobin
import CoroutineHttp.Core.Timers
import CoroutineHttp.Core.Deadlines
import CoroutineHttp.Core.Spinning
import CoroutineHttp.Core.Destructor
import CoroutineHttp.Core.Dispatch
import CoroutineHttp.Net.Connection
import CoroutineHttp.Net.Reader
import CoroutineHttp.Net.Packets
import CoroutineHttp.Net.ReadAhead
import CoroutineHttp.Net.Writing
import CoroutineHttp.Net.Ownership
import CoroutineHttp.Http.RoundTrip
import CoroutineHttp.Http.Framing
import CoroutineHttp.Http.Target
import CoroutineHttp.Http.Delimiting
import CoroutineHttp.Http.Reading
import CoroutineHttp.Http.Persistence
import CoroutineHttp.Http.OneResponse
import CoroutineHttp.Http.Truncation
import CoroutineHttp.Http.Canonical
import CoroutineHttp.Http.Routing
import CoroutineHttp.Ws.Frames
import CoroutineHttp.Ws.Grammar
import CoroutineHttp.Ws.StaticFiles
import CoroutineHttp.Ws.Upgrade
import CoroutineHttp.Ws.Fragments
import CoroutineHttp.Ws.Output
import CoroutineHttp.Ws.Sessions
import CoroutineHttp.Ws.Descriptors
import CoroutineHttp.Ws.Broadcasts
import CoroutineHttp.Ws.Messages
import CoroutineHttp.Ws.Announcements
import CoroutineHttp.Ws.Schedulers
