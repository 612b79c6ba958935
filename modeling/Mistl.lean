import Mistl.AuthzAccess
import Mistl.EscrowBlocks
import Mistl.EscrowClosure
import Mistl.EscrowMigration
import Mistl.EscrowPortable
import Mistl.EscrowRestart
import Mistl.EscrowStop
import Mistl.FolderOrder
import Mistl.FolderTable
import Mistl.MeshIndex
import Mistl.MeshWire
import Mistl.NostrAnswers
import Mistl.SnapshotExact
import Mistl.TunnelAuthorize
import Mistl.TunnelClosed
import Mistl.TunnelGrace
import Mistl.TunnelOwner
import Mistl.TunnelStream
import Mistl.AiCatalog
import Mistl.AiTurns
import Mistl.ApiCharge
import Mistl.ApiHeads
import Mistl.ApiFraming
import Mistl.BotRuns
import Mistl.ChatRelay
import Mistl.DmFlush
import Mistl.DmReceipts
import Mistl.FolderClock
import Mistl.IdentityStore
import Mistl.NostrSubmit
import Mistl.NostrUpstream
import Mistl.PairingOnce
import Mistl.PeerAuth
import Mistl.TunnelGraphRooms
import Mistl.EscrowRetry
import Mistl.MeshPlace
import Mistl.DmEviction
import Mistl.FolderAccess
import Mistl.FolderFlight
import Mistl.FolderJail
import Mistl.FolderPlaces
import Mistl.NostrLeader
import Mistl.NostrTables
import Mistl.TunnelProposals
import Mistl.TunnelRuleStore
import Mistl.AiModels
import Mistl.TunnelIdle
import Mistl.AiAssembly
import Mistl.AiRewrite
import Mistl.AiSse
import Mistl.NostrInterest
import Mistl.EscrowLog
import Mistl.ReplayWindows
import Mistl.SchedulerDow
import Mistl.SchedulerLocal
import Mistl.StreamSplitter
