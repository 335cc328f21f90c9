import Ctools.Library.Machine
import Ctools.Library.Memory
import Ctools.Library.Ring
import Ctools.Library.Fifo
import Ctools.Program.Queue
import Ctools.Program.Bitmap
import Ctools.Interface.QueueSpec
import Ctools.Analysis.QueueFifo
import Ctools.Analysis.QueueView
import Ctools.Analysis.QueueBulk
import Ctools.Analysis.QueueWrap
import Ctools.Analysis.BitmapSearch
import Ctools.Program.Logbuffer
import Ctools.Analysis.LogbufferNewest
import Ctools.Analysis.LogbufferBounds
import Ctools.Library.BitSerialCrc
import Ctools.Program.Crc
import Ctools.Interface.CrcSpec
import Ctools.Analysis.CrcTable
import Ctools.Program.Event
import Ctools.Analysis.EventMoves
import Ctools.Analysis.EventFlags
import Ctools.Analysis.EventBits
import Ctools.Analysis.EventWait
import Ctools.Analysis.EventTimedwait
import Ctools.Library.Heap
import Ctools.Library.Arena
import Ctools.Program.Pool
import Ctools.Analysis.PoolCursor
import Ctools.Analysis.PoolDirectory
import Ctools.Analysis.PoolArena
import Ctools.Analysis.PoolOverflow
import Ctools.Analysis.PoolElements
import Ctools.Analysis.PoolOutOfMemory
import Ctools.Library.History
import Ctools.Analysis.PoolFootprint
import Ctools.Library.Table
import Ctools.Program.Activity
import Ctools.Interface.ActivitySpec
import Ctools.Analysis.ActivityMoves
import Ctools.Analysis.ActivityTurns
import Ctools.Analysis.ActivityJoin
import Ctools.Analysis.ActivityLife
import Ctools.Analysis.ActivityFifo
import Ctools.Analysis.ActivityControl
import Ctools.Analysis.ActivityOwners
import Ctools.Analysis.ActivityCycle
import Ctools.Program.ActivityManager
import Ctools.Analysis.ActivityManagerFini
import Ctools.Library.CrcErrors
import Ctools.Analysis.CrcDetection
import Ctools.Analysis.CrcFrame
import Ctools.Library.Descriptors
import Ctools.Program.Sktcpserver
import Ctools.Interface.SktcpserverSpec
import Ctools.Analysis.SktcpserverMoves
import Ctools.Analysis.SktcpserverDescriptors
import Ctools.Analysis.SktcpserverCallbacks
import Ctools.Program.Sktcpclient
import Ctools.Analysis.SktcpclientSockets
import Ctools.Analysis.SktcpclientConnect
import Ctools.Library.CircularList
import Ctools.Program.Registry
import Ctools.Interface.RegistrySpec
import Ctools.Analysis.RegistryLookup
import Ctools.Analysis.RegistryList
import Ctools.Analysis.RegistryFailure
import Ctools.Interface.TimedEvent
import Ctools.Analysis.EventDeadline
import Ctools.Library.Loop
import Ctools.Library.HexDigits
import Ctools.Program.AppUtils
import Ctools.Interface.BcdSpec
import Ctools.Analysis.BcdLoop
import Ctools.Analysis.BcdRoundTrip
import Ctools.Analysis.BcdPairs
import Ctools.Library.Occurrences
import Ctools.Program.SplitString
import Ctools.Analysis.SplitJoin
import Ctools.Library.BitReversal
import Ctools.Program.AppType
import Ctools.Analysis.BitReverse
import Ctools.Analysis.BitsField
import Ctools.Analysis.SktcpserverSend
import Ctools.Program.SktcpserverStore
import Ctools.Analysis.SktcpserverRecords
import Ctools.Library.Interrupts
import Ctools.Program.IoProbe
import Ctools.Analysis.IoProbeLevel
import Ctools.Analysis.EventMutex
import Ctools.Library.ByteOrder
import Ctools.Analysis.ByteCodec
import Ctools.Analysis.BitMasks
import Ctools.Analysis.BitmapSet
import Ctools.Analysis.GrahamPtBlocked
import Ctools.Analysis.LinuxListRuns
import Ctools.Analysis.Md5Rounds
import Ctools.Analysis.Md5Stream
import Ctools.Analysis.ProtothreadResume
import Ctools.Analysis.ProtothreadSemaphore
import Ctools.Analysis.SpeckCipher
import Ctools.Analysis.B64Codec
import Ctools.Analysis.PooledDelivery
