import StarCraftIocp.Proof.BackPointers
import StarCraftIocp.Proof.Counts
import StarCraftIocp.Proof.Dispatch
import StarCraftIocp.Proof.RecvLoop
import StarCraftIocp.Proof.PacketIds
import StarCraftIocp.Proof.Reassembly
import StarCraftIocp.Proof.Replies
import StarCraftIocp.Proof.RoomIdentity
import StarCraftIocp.Proof.SendPath
import StarCraftIocp.Proof.NoCrash
import StarCraftIocp.Proof.JoinRace
import StarCraftIocp.Proof.Logins
import StarCraftIocp.Proof.ObjectTable
import StarCraftIocp.Proof.JobQueue
import StarCraftIocp.Proof.GridIndex
import StarCraftIocp.Proof.Broadphase
import StarCraftIocp.Proof.MapRoundTrip
import StarCraftIocp.Proof.Markers
import StarCraftIocp.Proof.TileExport
import StarCraftIocp.Proof.ClientMap
import StarCraftIocp.Proof.PathRuns
import StarCraftIocp.Proof.AStar
import StarCraftIocp.Proof.MapHash
import StarCraftIocp.Proof.MapSafety
import StarCraftIocp.Proof.ClientStream
import StarCraftIocp.Proof.MemoryPool
import StarCraftIocp.Proof.SessionRuns
import StarCraftIocp.Proof.LockExclusion
import StarCraftIocp.Proof.CycleReport
import StarCraftIocp.Proof.Bounds
import StarCraftIocp.Proof.SendBuffers
import StarCraftIocp.Proof.RoomReplica
import StarCraftIocp.Proof.GameStart
import StarCraftIocp.Proof.MoveOrder
import StarCraftIocp.Proof.GuardPages
import StarCraftIocp.Proof.PackedString
import StarCraftIocp.Proof.Mining
import StarCraftIocp.Proof.BufferCursor
import StarCraftIocp.Proof.RecvRoom
import StarCraftIocp.Proof.MapCollisions
import StarCraftIocp.Proof.RoomLeaving
import StarCraftIocp.Client.PacketReader
import StarCraftIocp.Client.PacketWriter
import StarCraftIocp.GameServer.SocketServer
import StarCraftIocp.Proof.ClientPackets
import StarCraftIocp.Proof.RoomOrigin
import StarCraftIocp.Proof.ServerPackets
import StarCraftIocp.Proof.SocketServer
import StarCraftIocp.Proof.SentMessages
import StarCraftIocp.Proof.ServerStream
import StarCraftIocp.Lib.Mailbox
import StarCraftIocp.Client.LobbyClient
import StarCraftIocp.Proof.Lobby
import StarCraftIocp.Lib.FrameChannel
import StarCraftIocp.Proof.LobbyNet
import StarCraftIocp.Proof.Listener
import StarCraftIocp.Proof.Meddling
