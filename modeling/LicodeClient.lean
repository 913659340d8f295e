import LicodeClient.Lib.Run
import LicodeClient.Lib.Program
import LicodeClient.Lib.Table
import LicodeClient.Lib.Scan
import LicodeClient.Lib.Positions
import LicodeClient.Lib.Multimap
import LicodeClient.Lib.Decode
import LicodeClient.Lib.Least
import LicodeClient.Lib.Simulation
import LicodeClient.Lib.Progress
import LicodeClient.Lib.Family
import LicodeClient.Lifecycle
import LicodeClient.Requests
import LicodeClient.Exceptions
import LicodeClient.Events
import LicodeClient.Roster
import LicodeClient.Ownership
import LicodeClient.Mirror
import LicodeClient.Isolation
import LicodeClient.Dispatch
import LicodeClient.Announcements
import LicodeClient.Reannouncing
import LicodeClient.RequestTexts
import LicodeClient.KeepAlive
import LicodeClient.Lifetime
import LicodeClient.Endpoint
import LicodeClient.Peer
import LicodeClient.Application.Answers
import LicodeClient.Application.Start
import LicodeClient.Nuve.Transfer
import LicodeClient.Nuve.Signing
import LicodeClient.Session.Writes
import LicodeClient.Session.Failure
import LicodeClient.Session.Greeting
import LicodeClient.Session.Release
import LicodeClient.Scheduler.Timing
import LicodeClient.Scheduler.Drain
import LicodeClient.Worker.Pace
import LicodeClient.Worker.Cancel
import LicodeClient.Worker.Thread
import LicodeClient.Scheduler.Serving
import LicodeClient.ThreadPool
import LicodeClient.Url.Separation
import LicodeClient.Url.Accessors
import LicodeClient.Url.Canonical
import LicodeClient.Url.Store
