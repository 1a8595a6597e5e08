import VirtualForce.RingSpsc
import VirtualForce.Overlay
import VirtualForce.Binary64
import VirtualForce.Circle
import VirtualForce.Checked
import VirtualForce.BundlePlan
import VirtualForce.BundleSpsc
import VirtualForce.ForceInterface
import VirtualForce.ServiceCall
import VirtualForce.SetPara
import VirtualForce.Heartbeat
import VirtualForce.NetworkClient
import VirtualForce.Controller
import VirtualForce.NetRing
import VirtualForce.MainLoop
import VirtualForce.ReadFraming
import VirtualForce.ReadRounds
import VirtualForce.ReadEnds
import VirtualForce.ForceInput
import VirtualForce.Disconnect
import VirtualForce.Mailbox
import VirtualForce.VirtualMailbox
import VirtualForce.Widget
import VirtualForce.WidgetReads
import VirtualForce.RingCapacity
import VirtualForce.BundleTransfer
import VirtualForce.BundleRoom
import VirtualForce.BundleBounds
import VirtualForce.BundleItems
import VirtualForce.Pipeline
import VirtualForce.Mailboxes
import VirtualForce.Instruct
import VirtualForce.Display
import VirtualForce.ChildPid
import VirtualForce.DisplayChild
import VirtualForce.ServiceLink
import VirtualForce.BundleFeed
import VirtualForce.ShakeHand
import VirtualForce.MmapComm
import VirtualForce.DisplayLives
import VirtualForce.Connections
import VirtualForce.Buttons
import VirtualForce.Monitor
import VirtualForce.Overrun
import VirtualForce.Mutex
import VirtualForce.Clients
import VirtualForce.ThreadWaits
import VirtualForce.Delivery
import VirtualForce.Showing
