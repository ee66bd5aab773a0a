import CommonLib.Library.Execution
import CommonLib.Library.Chain
import CommonLib.Library.Circular
import CommonLib.Library.Fetch
import CommonLib.Library.ByteOrder
import CommonLib.Library.Conversion
import CommonLib.Library.Aggregate
import CommonLib.Library.Bisect
import CommonLib.Library.Framing
import CommonLib.Hlib.Cache
import CommonLib.Proj.EWiFiClient
import CommonLib.Proj.Refinement
import CommonLib.Proj.Lifecycle
import CommonLib.Proj.Chunking
import CommonLib.Proj.Reuse
import CommonLib.Proj.Client
import CommonLib.Proj.FrameAgreement
import CommonLib.Hlib.SendSpare
import CommonLib.Proj.FrameQueue
import CommonLib.Hlib.SessionManager
import CommonLib.Library.Minimum
import CommonLib.Library.Partition
import CommonLib.Hlib.Epoll
import CommonLib.Hlib.Conservation
import CommonLib.Hlib.SendQueue
import CommonLib.Hlib.SendOrder
import CommonLib.Library.BalancedTree
import CommonLib.Hlib.HashString
import CommonLib.Hlib.HashTable
import CommonLib.Hlib.HashFree
import CommonLib.Hlib.HashMemory
import CommonLib.Hlib.HashExchange
import CommonLib.Hlib.HashRebalance
import CommonLib.Hlib.HashForest
import CommonLib.Hlib.HashAdd
import CommonLib.Hlib.HashRemove
import CommonLib.Hlib.HashMap
import CommonLib.Hlib.HashCount
import CommonLib.Hlib.XCirBuffer
import CommonLib.Hlib.VCirBuffer
import CommonLib.Hlib.DataRec
import CommonLib.Hlib.DataRings
import CommonLib.Hlib.DataWrites
import CommonLib.Hlib.DataMinimum
import CommonLib.Hlib.DataQuery
import CommonLib.Hlib.DataDisk
import CommonLib.Network.Crb3Param
import CommonLib.Network.Crb3Packet
import CommonLib.Network.Crb3Response
import CommonLib.Network.Crb3Send
import CommonLib.Network.Crb3Search
import CommonLib.Network.Crb3NodeTable
import CommonLib.Network.Crb3Connect
import CommonLib.Network.Crb3ConnectRun
import CommonLib.Network.Crb3Dio
import CommonLib.Network.CrlMap
import CommonLib.Network.Crb3Length
import CommonLib.Network.CrlHeader
import CommonLib.Network.Crb3Request
import CommonLib.Network.Crb3Mask
import CommonLib.Network.Crb3Async
import CommonLib.Network.CrlOwnership
import CommonLib.Network.Crb3Pending
import CommonLib.Net.TimerServe
import CommonLib.Net.TimerRefresh
import CommonLib.Net.CrossCancel
import CommonLib.Net.TaskOrder
import CommonLib.Library.Probing
import CommonLib.Udp.Hashmap
import CommonLib.Udp.HashmapGrowth
import CommonLib.Udp.Upgrade
import CommonLib.Net.Channel
import CommonLib.Net.UdpPeer
import CommonLib.Net.UdpReceive
import CommonLib.Net.Buffer
import CommonLib.Net.PeerUserdata
import CommonLib.Net.TimeWheel
import CommonLib.Net.TimeWheelRange
import CommonLib.Net.TimeWheelFires
import CommonLib.Hlib.Srswc
import CommonLib.Hlib.SCache
import CommonLib.Hlib.SendAlive
import CommonLib.Proj.ClientBody
import CommonLib.Proj.CloseDispatch
import CommonLib.Proj.Channels
import CommonLib.Proj.CommandReads
import CommonLib.Hlib.PasUtils
import CommonLib.Hlib.Password
import CommonLib.Hlib.UrlCode
import CommonLib.Hlib.Base64
import CommonLib.Library.Separator
import CommonLib.Hlib.StringList
import CommonLib.Udp.Vector
import CommonLib.Library.Calendar
import CommonLib.Hlib.DateUtils
import CommonLib.Hlib.DateWeek
import CommonLib.Hlib.PasText
import CommonLib.Hlib.DateNames
import CommonLib.Hlib.DateTimes
import CommonLib.Hlib.GmtDate
import CommonLib.Library.Tracking
import CommonLib.Library.LongestSuffix
import CommonLib.Hlib.StringLines
import CommonLib.Hlib.StringValues
import CommonLib.Hlib.LogMin
import CommonLib.Hlib.Utf8
import CommonLib.Hlib.CodePage
import CommonLib.Hlib.CodePageRoundTrip
import CommonLib.Proj.ServerList
import CommonLib.Proj.Redirect
import CommonLib.Library.Layout
import CommonLib.Proj.RuntimeConf
import CommonLib.Hlib.ListBuf
import CommonLib.Library.Region
import CommonLib.Mempool.Allocate
import CommonLib.Mempool.TAllocate
import CommonLib.Library.Interleaving
import CommonLib.Sync.Rwlock
import CommonLib.Sync.ReadWriteLock
import CommonLib.Queue.MpmcBoundedQueue
import CommonLib.Queue.MpscQueue
import CommonLib.Udp.ThPool
import CommonLib.Library.Agenda
import CommonLib.Timer.TimerWheel
import CommonLib.Timer.RangeDelta
import CommonLib.Timer.TimerWheelRun
import CommonLib.Timer.TimerWheelAdvance
import CommonLib.Timer.TicksToNextEvent
import CommonLib.Library.RedBlack
import CommonLib.Udp.RbTree
import CommonLib.Udp.RbMemory
import CommonLib.Udp.RbInsert
import CommonLib.Udp.RbInsertLoop
import CommonLib.Udp.RbErase
import CommonLib.Udp.RbEraseLoop
import CommonLib.Udp.RbSet
import CommonLib.Udp.RbRun
import CommonLib.Udp.RbDelete
import CommonLib.Udp.RbTraverse
