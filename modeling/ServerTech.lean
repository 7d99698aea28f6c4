import ServerTech.Iocp.ReceiveSpace
import ServerTech.Iocp.SendLock
import ServerTech.Iocp.SendPacket
import ServerTech.Iocp.WriteMutex
import ServerTech.Iocp.Teardown
import ServerTech.Kcp.Chunking
import ServerTech.Kcp.TcpSocket
import ServerTech.Kcp.Server
import ServerTech.Kcp.Connection
import ServerTech.Kcp.Completion
import ServerTech.Atm.Authentication
import ServerTech.Atm.Conservation
import ServerTech.Atm.Sessions
import ServerTech.Atm.Messaging
import ServerTech.ByteBuffer.RoundTrip
import ServerTech.ByteBuffer.Bounds
import ServerTech.DarkEden.AtMostOnce
import ServerTech.Brain.DeMorgan
import ServerTech.Brain.Ordered
import ServerTech.Brain.Memory
import ServerTech.Brain.Running
import ServerTech.SkyNet.Channel
import ServerTech.SkyNet.Interest
import ServerTech.DarkEden.Url
import ServerTech.DarkEden.Tokens
import ServerTech.DarkEden.PackedTime
import ServerTech.DarkEden.Weeks
import ServerTech.Iocp.ThreadPool
import ServerTech.DarkEden.ReplaceAll
import ServerTech.DarkEden.Shutdown
import ServerTech.SkyNet.Xtime
import ServerTech.DarkEden.ResetTime
import ServerTech.DarkEden.TimeCode
import ServerTech.DarkEden.RandList
import ServerTech.DarkEden.IdCreator
import ServerTech.DarkEden.ForceDirectory
import ServerTech.DarkEden.TimePeriod
import ServerTech.DarkEden.Duration
import ServerTech.DarkEden.StringUtf8
import ServerTech.DarkEden.CidrBan
import ServerTech.ByteBuffer.PackGuid
import ServerTech.ByteBuffer.Containers
import ServerTech.Kcp.Termination
import ServerTech.BipBuffer.Space
import ServerTech.Atm.Pin
import ServerTech.Iocp.CloseAll
import ServerTech.ConcInAction.ParallelAccumulate
import ServerTech.ConcInAction.QuickSort
import ServerTech.Day14.Connection
import ServerTech.Brain.Repeater
import ServerTech.Brain.Resume
import ServerTech.Brain.Ownership
import ServerTech.Atm.Chain
import ServerTech.DarkEden.Flushing
import ServerTech.DarkEden.LogLine
import ServerTech.Foundation.Serial
import ServerTech.Kcp.ControlBlock
import ServerTech.Kcp.Queues
import ServerTech.Kcp.Input
import ServerTech.Kcp.Flush
import ServerTech.Kcp.Wire
import ServerTech.Kcp.Windows
import ServerTech.Kcp.Frame
import ServerTech.Kcp.Clock
import ServerTech.Kcp.Units
import ServerTech.Foundation.Fragmenting
import ServerTech.Foundation.Reassembly
import ServerTech.Kcp.Session
import ServerTech.Kcp.Coherence
import ServerTech.Kcp.Delivery
import ServerTech.Kcp.Draining
import ServerTech.Foundation.Chain
import ServerTech.ConcInAction.LockFreeStack
import ServerTech.ConcInAction.HazardPointers
import ServerTech.ConcInAction.StackHistory
import ServerTech.Foundation.StackSpace
import ServerTech.CoroutineSets.Schedule
import ServerTech.CoroutineSets.Slots
import ServerTech.CoroutineSets.Switching
import ServerTech.CoroutineSets.PrivateStacks
import ServerTech.CoroutineSets.Scheduling
import ServerTech.Kcp.Emission
import ServerTech.Kcp.Hearing
import ServerTech.Kcp.Progress
