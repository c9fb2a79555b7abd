import Gigaboot.Lib.ByteMem

/-!
# Addresses

The addresses of the IPv6 stack of `inet6.c` and its static variables.
-/

namespace Gigaboot.Inet6

open ByteMem

abbrev MacAddr := Vector UInt8 6
abbrev Ip6Addr := Vector UInt8 16

def ip6LlAllNodes : Ip6Addr := #v[0xFF, 0x02, 0, 0, 0, 0, 0, 0, 0, 0, 0, 0, 0, 0, 0, 1]

/-- Bit 2 (U/L) of the mac is inverted. -/
def ll6addrFromMac (mac : MacAddr) : Ip6Addr :=
  #v[0xFE, 0x80, 0, 0, 0, 0, 0, 0, mac[0] ^^^ 2, mac[1], mac[2], 0xFF, 0xFE, mac[3], mac[4],
    mac[5]]

def snmaddrFromMac (mac : MacAddr) : Ip6Addr :=
  #v[0xFF, 0x02, 0, 0, 0, 0, 0, 0, 0, 0, 0, 0x01, 0xFF, mac[3], mac[4], mac[5]]

def multicastFromIp6 (ip : Ip6Addr) : MacAddr := #v[0x33, 0x33, ip[12], ip[13], ip[14], ip[15]]

/-- The static variables of `inet6.c`: the configuration, and the cache for the last
source addresses seen. -/
structure Stack where
  llMacAddr : MacAddr
  llIp6Addr : Ip6Addr
  snmMacAddr : MacAddr
  snmIp6Addr : Ip6Addr
  rxMacAddr : MacAddr
  rxIp6Addr : Ip6Addr
  deriving DecidableEq, Repr

def ip6Init (st : Stack) (mac : MacAddr) : Stack :=
  { st with
    llMacAddr := mac
    llIp6Addr := ll6addrFromMac mac
    snmIp6Addr := snmaddrFromMac mac
    snmMacAddr := multicastFromIp6 (snmaddrFromMac mac) }

/-- `resolve_ip6`; `none` is -1. -/
def resolveIp6 (st : Stack) (ip : Ip6Addr) : Option MacAddr :=
  if ip[0] = 0xFF then some (multicastFromIp6 ip)
  else if ip = st.rxIp6Addr then some st.rxMacAddr
  else none

theorem resolveIp6_rx {st : Stack} {ip : Ip6Addr} (h : ip = st.rxIp6Addr) :
    ∃ mac, resolveIp6 st ip = some mac := by
  unfold resolveIp6
  by_cases hm : ip[0] = 0xFF
  · exact ⟨_, if_pos hm⟩
  · exact ⟨st.rxMacAddr, by rw [if_neg hm, if_pos h]⟩

end Gigaboot.Inet6
