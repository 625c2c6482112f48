import Httpd.ConnectionHeader
import Httpd.Pipelining
import Httpd.Disconnects
import Httpd.SignalQueue
import Httpd.AccessLog
import Httpd.LogFile
import Httpd.HeadLines
import Httpd.RangeRequests
import Httpd.ListingLinks
import Httpd.DecoderMemory
import Httpd.OutsideProbes
import Httpd.ParserMemory
import Httpd.KeepAlive
import Httpd.RepeatedRanges
import Httpd.PathChecks
import Httpd.SendLoop
import Httpd.ListingReader
import Httpd.ListingOutcome
import Httpd.ThreadPool
import Httpd.Visits
import Httpd.Startup
import Httpd.LogWriters
import Httpd.ServerShutdown
import Httpd.SiteBrowsing
import Httpd.Downloads
import Httpd.ServerLog
import Httpd.ConnectionReuse
import Httpd.ClientResources
import Httpd.ServerPool
