import Gigaboot.Lib.ByteMem
import Gigaboot.Lib.Transition
import Gigaboot.Netboot.Message
import Gigaboot.Netboot.Device
import Gigaboot.Netboot.Retransmission
import Gigaboot.Netboot.Prefix
import Gigaboot.Netboot.Session
import Gigaboot.Netboot.Transfer
import Gigaboot.Netboot.Isolation
import Gigaboot.Inet6.Address
import Gigaboot.Inet6.Checksum
import Gigaboot.Netifc.Buffers
import Gigaboot.Inet6.Send
import Gigaboot.Inet6.Receive
import Gigaboot.Inet6.RoundTrip
import Gigaboot.Inet6.Accept
import Gigaboot.Netboot.Node
import Gigaboot.Netboot.Trailing
import Gigaboot.Osboot.BootKernel
import Gigaboot.Osboot.EfiMain
import Gigaboot.Lib.FreeList
import Gigaboot.Netifc.Pool
import Gigaboot.Netboot.Poll
import Gigaboot.Netboot.Replies
import Gigaboot.Lib.Insertion
import Gigaboot.Netboot.Stray
import Gigaboot.Lib.Ranges
import Gigaboot.Osboot.E820
import Gigaboot.Osboot.KernelSize
import Gigaboot.Netboot.Duplicates
import Gigaboot.Netboot.Files
import Gigaboot.Inet6.InternetChecksum
import Gigaboot.Inet6.Icmp6
import Gigaboot.Inet6.Icmp6Reply
import Gigaboot.Osboot.NodeMain
import Gigaboot.Osboot.AcpiRoot
import Gigaboot.Osboot.ZeroPage
import Gigaboot.Lib.CString
import Gigaboot.Netboot.FileNames
import Gigaboot.Lib.Ledger
import Gigaboot.Osboot.PageAccounting
import Gigaboot.Inet6.Ip6toa
import Gigaboot.Netifc.Open
import Gigaboot.Osboot.LoadFile
import Gigaboot.Console.Printf
import Gigaboot.Lib.Digits
import Gigaboot.Printf.Convert
import Gigaboot.Printf.Engine
import Gigaboot.Printf.Meaning
import Gigaboot.Printf.Numbers
import Gigaboot.Printf.Buffer
import Gigaboot.Printf.Screen
import Gigaboot.Inet6.AddressText
import Gigaboot.Netboot.ConsoleLog
import Gigaboot.Netboot.Completion
import Gigaboot.Netboot.History
import Gigaboot.Osboot.WholeBoot
import Gigaboot.Lib.Ticker
import Gigaboot.Netboot.Beacons
import Gigaboot.Netboot.OverFrames
import Gigaboot.Netboot.Wire
import Gigaboot.Osboot.Listing
