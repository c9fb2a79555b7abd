import Gigaboot.Inet6.Checksum
import Gigaboot.Netifc.Buffers

/-!
# Sending

`ip6_setup`, `udp6_send` and `icmp6_send` of `inet6.c`, store by store into the transmit
buffer at `p`.  The Ethernet header is preceded by two bytes of padding.

* `ip6Setup_eq`: the stores of the headers are one write of 54 bytes;
* `udp6Send_eq`, `icmp6Send_eq`: the frame in the buffer when it is given to `eth_send`;
* `udp6Send_cases`, `icmp6Send_cases`: everything a send can do.
-/

namespace Gigaboot.Inet6

open ByteMem Netifc

def ethHdrLen : Nat := 14
def ethMtu : Nat := 1514
def ip6HdrLen : Nat := 40
def udpHdrLen : Nat := 8
def hdrUdp : UInt8 := 17
def hdrIcmp6 : UInt8 := 58
def udp6MaxPayload : Nat := ethMtu - ethHdrLen - ip6HdrLen - udpHdrLen
def icmp6MaxPayload : Nat := ethMtu - ethHdrLen - ip6HdrLen

/-- `ip6_setup` on the packet at `p`; `none` is -1. -/
def ip6Setup (st : Stack) (heap : Mem) (p : Nat) (daddr : Ip6Addr) (length : Nat)
    (type : UInt8) : Option Mem :=
  match resolveIp6 st daddr with
  | none => none
  | some dmac =>
    let heap := write heap (p + 2) dmac.toList
    let heap := write heap (p + 8) st.llMacAddr.toList
    let heap := write heap (p + 14) [0x86]
    let heap := write heap (p + 15) [0xDD]
    let heap := write heap (p + 16) (bytes32 0x60)
    let heap := write heap (p + 20) (bytes16 (swap16 (UInt16.ofNat length)))
    let heap := write heap (p + 22) [type]
    let heap := write heap (p + 23) [255]
    let heap := write heap (p + 24) st.llIp6Addr.toList
    some (write heap (p + 40) daddr.toList)

def udp6Send (st : Stack) (nic : Nic) (data : Mem) (dlen : Nat) (daddr : Ip6Addr)
    (dport sport : UInt16) : Option (Nic × Int) :=
  let length := dlen + udpHdrLen
  match ethGetBuffer nic (ethMtu + 2) with
  | (nic, none) => some (nic, -1)
  | (nic, some p) =>
    if dlen > udp6MaxPayload then (ethPutBuffer nic p).map fun nic => (nic, -1)
    else
      match ip6Setup st nic.heap p daddr length hdrUdp with
      | none => (ethPutBuffer nic p).map fun nic => (nic, -1)
      | some heap =>
        let heap := write heap (p + 56) (bytes16 (swap16 sport))
        let heap := write heap (p + 58) (bytes16 (swap16 dport))
        let heap := write heap (p + 60) (bytes16 (swap16 (UInt16.ofNat length)))
        let heap := write heap (p + 62) (bytes16 0)
        let heap := write heap (p + 64) (read data 0 dlen)
        let heap := write heap (p + 62)
          (bytes16 (ip6Checksum heap (p + 16) hdrUdp.toUInt16 length))
        ethSend (nic.withHeap heap) (p + 2) (ethHdrLen + ip6HdrLen + length)

def icmp6Send (st : Stack) (nic : Nic) (data : Mem) (length : Nat) (daddr : Ip6Addr) :
    Option (Nic × Int) :=
  match ethGetBuffer nic (ethMtu + 2) with
  | (nic, none) => some (nic, -1)
  | (nic, some p) =>
    if length > icmp6MaxPayload then (ethPutBuffer nic p).map fun nic => (nic, -1)
    else
      match ip6Setup st nic.heap p daddr length hdrIcmp6 with
      | none => (ethPutBuffer nic p).map fun nic => (nic, -1)
      | some heap =>
        let heap := write heap (p + 56) (read data 0 length)
        let heap := write heap (p + 58)
          (bytes16 (ip6Checksum heap (p + 16) hdrIcmp6.toUInt16 length))
        ethSend (nic.withHeap heap) (p + 2) (ethHdrLen + ip6HdrLen + length)

/-! ## The frames -/

/-- The Ethernet and IPv6 headers. -/
def header (st : Stack) (dmac : MacAddr) (daddr : Ip6Addr) (length : Nat) (type : UInt8) :
    List UInt8 :=
  dmac.toList ++ st.llMacAddr.toList ++ [0x86] ++ [0xDD] ++ bytes32 0x60 ++
    bytes16 (swap16 (UInt16.ofNat length)) ++ [type] ++ [255] ++ st.llIp6Addr.toList ++
    daddr.toList

@[simp] theorem header_length (st : Stack) (dmac : MacAddr) (daddr : Ip6Addr) (length : Nat)
    (type : UInt8) : (header st dmac daddr length type).length = 54 := by
  simp [header]

/-- The fields of a buffer that starts with the headers. -/
structure HeaderFields (st : Stack) (dmac : MacAddr) (daddr : Ip6Addr) (length : Nat)
    (type : UInt8) (buf : Mem) : Prop where
  dmac : arrayAt buf 0 6 = dmac
  smac : arrayAt buf 6 6 = st.llMacAddr
  type₀ : buf 12 = 0x86
  type₁ : buf 13 = 0xDD
  version : ld32 buf 14 = 0x60
  length : ld16 buf 18 = swap16 (UInt16.ofNat length)
  next : buf 20 = type
  hop : buf 21 = 255
  src : arrayAt buf 22 16 = st.llIp6Addr
  dst : arrayAt buf 38 16 = daddr

theorem headerFields {st : Stack} {dmac : MacAddr} {daddr : Ip6Addr} {length : Nat} {type : UInt8}
    {buf : Mem} (h : read buf 0 54 = header st dmac daddr length type) :
    HeaderFields st dmac daddr length type buf := by
  unfold header at h
  -- take the fields off the end one by one
  obtain ⟨h, hdst⟩ := read_eq_append h
  obtain ⟨h, hsrc⟩ := read_eq_append h
  obtain ⟨h, hhop⟩ := read_eq_append h
  obtain ⟨h, hnext⟩ := read_eq_append h
  obtain ⟨h, hlength⟩ := read_eq_append h
  obtain ⟨h, hversion⟩ := read_eq_append h
  obtain ⟨h, htype₁⟩ := read_eq_append h
  obtain ⟨h, htype₀⟩ := read_eq_append h
  obtain ⟨hdmac, hsmac⟩ := read_eq_append h
  simp only [List.length_append, Vector.length_toList, bytes16_length, bytes32_length,
    List.length_cons, List.length_nil, Nat.zero_add, Nat.reduceAdd, read_one,
    List.cons.injEq, and_true] at *
  exact ⟨arrayAt_of_read hdmac, arrayAt_of_read hsmac, htype₀, htype₁, ld32_of_read hversion,
    ld16_of_read hlength, hnext, hhop, arrayAt_of_read hsrc, arrayAt_of_read hdst⟩

theorem ip6Setup_eq {st : Stack} {daddr : Ip6Addr} {dmac : MacAddr}
    (h : resolveIp6 st daddr = some dmac) (heap : Mem) (p length : Nat) (type : UInt8) :
    ip6Setup st heap p daddr length type =
      some (write heap (p + 2) (header st dmac daddr length type)) := by
  unfold ip6Setup header
  simp only [h]
  repeat rw [write_append _ _ _ _ _ (by simp)]
  simp only [List.append_assoc]

def udpPorts (sport dport : UInt16) (length : Nat) : List UInt8 :=
  bytes16 (swap16 sport) ++ bytes16 (swap16 dport) ++ bytes16 (swap16 (UInt16.ofNat length))

def udpFrame (st : Stack) (dmac : MacAddr) (daddr : Ip6Addr) (sport dport : UInt16)
    (payload : List UInt8) (c : UInt16) : List UInt8 :=
  header st dmac daddr (payload.length + 8) hdrUdp ++
    udpPorts sport dport (payload.length + 8) ++ bytes16 c ++ payload

@[simp] theorem udpFrame_length (st : Stack) (dmac : MacAddr) (daddr : Ip6Addr)
    (sport dport : UInt16) (payload : List UInt8) (c : UInt16) :
    (udpFrame st dmac daddr sport dport payload c).length = 62 + payload.length := by
  simp only [udpFrame, udpPorts, List.length_append, header_length, bytes16_length]

theorem read_udpFrame_header {st : Stack} {dmac : MacAddr} {daddr : Ip6Addr} {sport dport : UInt16}
    {payload : List UInt8} {c : UInt16} {buf : Mem} {n : Nat}
    (h : read buf 0 n = udpFrame st dmac daddr sport dport payload c) :
    read buf 0 54 = header st dmac daddr (payload.length + 8) hdrUdp := by
  rw [udpFrame, List.append_assoc, List.append_assoc] at h
  have hheader := (read_eq_append h).1
  rwa [header_length] at hheader

/-- What `udp6_send` puts into a buffer and sends. -/
theorem udp6Send_eq {st : Stack} {nic nic₁ : Nic} {p dlen : Nat} {daddr : Ip6Addr}
    {dmac : MacAddr} (data : Mem) (dport sport : UInt16)
    (hget : ethGetBuffer nic (ethMtu + 2) = (nic₁, some p)) (hlen : dlen ≤ 1452)
    (hres : resolveIp6 st daddr = some dmac) :
    let frame := udpFrame st dmac daddr sport dport (read data 0 dlen)
    let sum := ip6Checksum (write nic₁.heap (p + 2) (frame 0)) (p + 16) hdrUdp.toUInt16 (dlen + 8)
    udp6Send st nic data dlen daddr dport sport =
      ethSend (nic₁.withHeap (write nic₁.heap (p + 2) (frame sum))) (p + 2) (62 + dlen) := by
  have hmax : ¬ dlen > udp6MaxPayload := by
    have : udp6MaxPayload = 1452 := rfl
    omega
  have hsend : ethHdrLen + ip6HdrLen + (dlen + udpHdrLen) = 62 + dlen := by
    unfold ethHdrLen ip6HdrLen udpHdrLen
    omega
  -- the stores follow each other, up to the checksum
  have hstores : ∀ heap : Mem,
      write (write (write (write (write (write heap (p + 2)
        (header st dmac daddr (dlen + udpHdrLen) hdrUdp)) (p + 56) (bytes16 (swap16 sport)))
        (p + 58) (bytes16 (swap16 dport)))
        (p + 60) (bytes16 (swap16 (UInt16.ofNat (dlen + udpHdrLen)))))
        (p + 62) (bytes16 0)) (p + 64) (read data 0 dlen) =
      write heap (p + 2) (udpFrame st dmac daddr sport dport (read data 0 dlen) 0) := by
    intro heap
    repeat rw [write_append _ _ _ _ _ (by simp)]
    simp only [udpFrame, udpPorts, udpHdrLen, List.append_assoc, read_length]
  unfold udp6Send
  simp only [hget, if_neg hmax, ip6Setup_eq hres, hsend, hstores]
  rw [udpFrame, write_middle _ _ _ _ _ _ _ (by simp [udpPorts]) (by rfl)]
  rfl

/-- What `icmp6_send` puts into a buffer and sends.  The checksum is stored at its place
even if the message is shorter. -/
theorem icmp6Send_eq {st : Stack} {nic nic₁ : Nic} {p length : Nat} {daddr : Ip6Addr}
    {dmac : MacAddr} (data : Mem)
    (hget : ethGetBuffer nic (ethMtu + 2) = (nic₁, some p)) (hlen : length ≤ 1460)
    (hres : resolveIp6 st daddr = some dmac) :
    let heap := write nic₁.heap (p + 2)
      (header st dmac daddr length hdrIcmp6 ++ read data 0 length)
    let sum := ip6Checksum heap (p + 16) hdrIcmp6.toUInt16 length
    icmp6Send st nic data length daddr =
      ethSend (nic₁.withHeap (write heap (p + 58) (bytes16 sum))) (p + 2) (54 + length) := by
  have hmax : ¬ length > icmp6MaxPayload := by
    have : icmp6MaxPayload = 1460 := rfl
    omega
  have hsend : ethHdrLen + ip6HdrLen + length = 54 + length := rfl
  have hstores : ∀ heap : Mem,
      write (write heap (p + 2) (header st dmac daddr length hdrIcmp6)) (p + 56)
        (read data 0 length) =
      write heap (p + 2) (header st dmac daddr length hdrIcmp6 ++ read data 0 length) :=
    fun heap => write_append _ _ _ _ _ (by simp)
  unfold icmp6Send
  simp only [hget, if_neg hmax, ip6Setup_eq hres, hsend, hstores]

/-! ## The ways in which a send ends -/

/-- The buffer is put back unused. -/
def putBack (nic : Nic) : Option (Nic × Int) :=
  (ethPutBuffer nic.pop (nic.ethBuffers + dataOff)).map fun nic => (nic, -1)

theorem udp6Send_cases (st : Stack) (nic : Nic) (data : Mem) (dlen : Nat) (daddr : Ip6Addr)
    (dport sport : UInt16) :
    (nic.ethBuffers = 0 ∧ udp6Send st nic data dlen daddr dport sport = some (nic, -1)) ∨
    (nic.ethBuffers ≠ 0 ∧ udp6Send st nic data dlen daddr dport sport = putBack nic) ∨
    ∃ dmac c, nic.ethBuffers ≠ 0 ∧ dlen ≤ 1452 ∧ resolveIp6 st daddr = some dmac ∧
      udp6Send st nic data dlen daddr dport sport =
        ethSend (nic.pop.withHeap (write nic.pop.heap (nic.ethBuffers + dataOff + 2)
          (udpFrame st dmac daddr sport dport (read data 0 dlen) c)))
          (nic.ethBuffers + dataOff + 2) (62 + dlen) := by
  have hmax : udp6MaxPayload = 1452 := rfl
  by_cases hfree : nic.ethBuffers = 0
  · exact .inl ⟨hfree, by simp only [udp6Send, ethGetBuffer_none hfree]⟩
  have hget : ethGetBuffer nic (ethMtu + 2) = (nic.pop, some (nic.ethBuffers + dataOff)) :=
    ethGetBuffer_free (by decide) hfree
  by_cases hlen : dlen > udp6MaxPayload
  · exact .inr (.inl ⟨hfree, by simp only [udp6Send, hget, if_pos hlen, putBack]⟩)
  cases hres : resolveIp6 st daddr with
  | none =>
    exact .inr (.inl ⟨hfree, by simp only [udp6Send, hget, if_neg hlen, ip6Setup, hres, putBack]⟩)
  | some dmac =>
    exact .inr (.inr ⟨dmac, _, hfree, by omega, rfl,
      udp6Send_eq data dport sport hget (by omega) hres⟩)

theorem icmp6Send_cases (st : Stack) (nic : Nic) (data : Mem) (length : Nat) (daddr : Ip6Addr) :
    (nic.ethBuffers = 0 ∧ icmp6Send st nic data length daddr = some (nic, -1)) ∨
    (nic.ethBuffers ≠ 0 ∧ icmp6Send st nic data length daddr = putBack nic) ∨
    ∃ dmac c, nic.ethBuffers ≠ 0 ∧ length ≤ 1460 ∧ resolveIp6 st daddr = some dmac ∧
      icmp6Send st nic data length daddr =
        ethSend (nic.pop.withHeap (write (write nic.pop.heap (nic.ethBuffers + dataOff + 2)
          (header st dmac daddr length hdrIcmp6 ++ read data 0 length))
          (nic.ethBuffers + dataOff + 58) (bytes16 c)))
          (nic.ethBuffers + dataOff + 2) (54 + length) := by
  have hmax : icmp6MaxPayload = 1460 := rfl
  by_cases hfree : nic.ethBuffers = 0
  · exact .inl ⟨hfree, by simp only [icmp6Send, ethGetBuffer_none hfree]⟩
  have hget : ethGetBuffer nic (ethMtu + 2) = (nic.pop, some (nic.ethBuffers + dataOff)) :=
    ethGetBuffer_free (by decide) hfree
  by_cases hlen : length > icmp6MaxPayload
  · exact .inr (.inl ⟨hfree, by simp only [icmp6Send, hget, if_pos hlen, putBack]⟩)
  cases hres : resolveIp6 st daddr with
  | none =>
    exact .inr (.inl ⟨hfree, by simp only [icmp6Send, hget, if_neg hlen, ip6Setup, hres, putBack]⟩)
  | some dmac =>
    exact .inr (.inr ⟨dmac, _, hfree, by omega, rfl, icmp6Send_eq data hget (by omega) hres⟩)

end Gigaboot.Inet6
