import OsLabs.Proofs.Bakery
import OsLabs.Proofs.Fortune
import OsLabs.Proofs.Ftw
import OsLabs.Proofs.Monitor
import OsLabs.Proofs.Pc
import OsLabs.Proofs.PcCursors
import OsLabs.Proofs.Prodcons
import OsLabs.Proofs.SeatsBooking
import OsLabs.Proofs.SeatsRelease
import OsLabs.Proofs.Wr
import OsLabs.Spec.Keyboard
import OsLabs.Proofs.Keyboard
import OsLabs.Proofs.Shift
import OsLabs.Proofs.Myvfs
import OsLabs.Proofs.Replies
import OsLabs.Proofs.BakeryTickets
import OsLabs.Proofs.BakeryBounds
import OsLabs.Proofs.WrProgress
import OsLabs.Proofs.SeatsSnapshot
import OsLabs.Proofs.Overtaking
import OsLabs.Proofs.SeatClient
import OsLabs.Proofs.ProdconsCollect
import OsLabs.Spec.ProdconsClient
import OsLabs.Proofs.ProdconsDelivery
import OsLabs.Proofs.ProdconsCrossing
import OsLabs.Proofs.ProdconsBounds
import OsLabs.Spec.BakeryClient
import OsLabs.Proofs.BakeryAbandon
import OsLabs.Proofs.RpcCalls
import OsLabs.Sanity.Fortune
import OsLabs.Proofs.FortuneBounds
import OsLabs.Proofs.FortuneFaults
import OsLabs.Proofs.Workqueue
import OsLabs.Proofs.Keylogger
import OsLabs.Proofs.ClientLog
import OsLabs.Proofs.SelectServer
import OsLabs.Proofs.SelectReplies
import OsLabs.Proofs.Pagemap
import OsLabs.Proofs.Stat
import OsLabs.Proofs.PagemapReader
import OsLabs.Proofs.Bio
import OsLabs.Proofs.PidShow
import OsLabs.Proofs.FtwNames
import OsLabs.Proofs.Letters
import OsLabs.Proofs.MonitorLetters
import OsLabs.Proofs.MonitorProgress
import OsLabs.Proofs.PcHalt
import OsLabs.Proofs.ProdconsHalt
import OsLabs.Proofs.SeatsShutout
import OsLabs.Proofs.WrOverlaps
import OsLabs.Proofs.WrLines
import OsLabs.Proofs.BakeryRpc
import OsLabs.Proofs.Daemon
import OsLabs.Proofs.BakeryBypass
import OsLabs.Proofs.BioThreads
import OsLabs.Proofs.KeyboardSerial
import OsLabs.Proofs.KeyboardCalls
import OsLabs.Proofs.ProcEntries
import OsLabs.Proofs.MemDump
import OsLabs.Proofs.Pipes
import OsLabs.Proofs.SeatsSerial
import OsLabs.Proofs.SeatsSelect
import OsLabs.Proofs.SeatAccept
