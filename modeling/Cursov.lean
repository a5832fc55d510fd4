import Cursov.Broadcast
import Cursov.ChatRoom
import Cursov.ChatService
import Cursov.ClientLifecycle
import Cursov.ClientList
import Cursov.ClientProgram
import Cursov.CommandLoop
import Cursov.Monitor
import Cursov.PacketBounds
import Cursov.PacketLog
import Cursov.PortNumber
import Cursov.PrintedFields
import Cursov.ServerLifecycle
import Cursov.ServerProgram
import Cursov.SwitchDelivery
import Cursov.SwitchLife
import Cursov.SwitchPath
import Cursov.SwitchProgram
import Cursov.SwitchStartup
import Cursov.TablePrint
import Cursov.UdpChat
import Cursov.UdpPeers
