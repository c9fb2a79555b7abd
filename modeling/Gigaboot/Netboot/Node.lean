import Gigaboot.Inet6.Receive
import Gigaboot.Netboot.Device

/-!
# The device on the network

`udp6_recv` of `netboot.c` as the receiver of datagrams of the IPv6 stack.
-/

namespace Gigaboot.Netboot

open ByteMem Inet6 Netifc

/-- `udp6_recv` with the ack it sends. -/
def netbootRecv : Handler Device := fun w c =>
  let r := udp6Recv w.app c.data c.len c.dport
  match r.ack with
  | none => some { w with app := r.dev }
  | some ack =>
    { w with app := r.dev }.sent
      (udp6Send w.stack w.nic (ofList ack.bytes) nbmsgSize c.saddr c.sport nbServerPort)

theorem netbootRecv_congr (w : World Device) {c c' : Call} (hlen : c'.len = c.len)
    (hdport : c'.dport = c.dport) (hsaddr : c'.saddr = c.saddr) (hsport : c'.sport = c.sport)
    (hdata : ∀ i < c.len, c.data i = c'.data i) : netbootRecv w c = netbootRecv w c' := by
  obtain ⟨hdev, hack⟩ := udp6Recv_congr w.app c.len c.dport hdata
  simp only [netbootRecv, hlen, hdport, hsaddr, hsport, hdev, hack]

end Gigaboot.Netboot
