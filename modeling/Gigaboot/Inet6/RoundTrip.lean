import Gigaboot.Inet6.Receive

/-!
# A datagram from one stack to another

What `udp6_send` on one host gives to its interface is what `eth_recv` on the other
host hands to the receiver.

* `storedSum_verifies`: a checksum that was stored is accepted;
* `udpFrame_delivered`: a UDP frame passes every test of the other host, whatever
  follows it;
* `udp6Send_roundTrip`: the whole way.
-/

namespace Gigaboot.Inet6

open ByteMem Netifc

/-- A datagram as `udp6_recv` gets it. -/
structure Udp6Datagram where
  payload : List UInt8
  daddr : Ip6Addr
  dport : UInt16
  saddr : Ip6Addr
  sport : UInt16
  deriving DecidableEq, Repr

def Call.datagram (c : Call) : Udp6Datagram :=
  ⟨read c.data 0 c.len, c.daddr, c.dport, c.saddr, c.sport⟩

def record : Handler (List Udp6Datagram) :=
  fun w c => some { w with app := w.app ++ [c.datagram] }

section Frame

variable {st : Stack} {dmac : MacAddr} {daddr : Ip6Addr} {sport dport : UInt16}
  {payload : List UInt8} {c : UInt16} {buf : Mem}

/-- The fields of a buffer that starts with a UDP frame. -/
structure FrameFields (st : Stack) (daddr : Ip6Addr) (sport dport : UInt16)
    (payload : List UInt8) (c : UInt16) (buf : Mem) : Prop where
  smac : arrayAt buf 6 6 = st.llMacAddr
  type₀ : buf 12 = 0x86
  type₁ : buf 13 = 0xDD
  version : ld32 buf 14 = 0x60
  length : ld16 buf 18 = swap16 (UInt16.ofNat (payload.length + 8))
  next : buf 20 = hdrUdp
  src : arrayAt buf 22 16 = st.llIp6Addr
  dst : arrayAt buf 38 16 = daddr
  sport : ld16 buf 54 = swap16 sport
  dport : ld16 buf 56 = swap16 dport
  ulen : ld16 buf 58 = swap16 (UInt16.ofNat (payload.length + 8))
  sum : ld16 buf 60 = c
  data : read buf 62 payload.length = payload

theorem frameFields
    (h : read buf 0 (62 + payload.length) = udpFrame st dmac daddr sport dport payload c) :
    FrameFields st daddr sport dport payload c buf := by
  unfold udpFrame udpPorts at h
  -- take the fields off the end one by one
  obtain ⟨h, hdata⟩ := read_eq_append h
  obtain ⟨h, hsum⟩ := read_eq_append h
  obtain ⟨h, hports⟩ := read_eq_append h
  obtain ⟨hports, hulen⟩ := read_eq_append hports
  obtain ⟨hsport, hdport⟩ := read_eq_append hports
  simp only [List.length_append, header_length, bytes16_length, Nat.zero_add, Nat.reduceAdd] at *
  have hh := headerFields h
  exact ⟨hh.smac, hh.type₀, hh.type₁, hh.version, hh.length, hh.next, hh.src, hh.dst,
    ld16_of_read hsport, ld16_of_read hdport, ld16_of_read hulen, ld16_of_read hsum, hdata⟩

/-- A checksum that is stored behind `pre`, which takes in the headers and `k` bytes of the
payload, passes the test of the receivers. -/
theorem storedSum_verifies {pre rest : List UInt8} {type : UInt8} {heap : Mem} {p k : Nat}
    (hpre : pre.length = 54 + k) (hk : k % 2 = 0) (hmax : k + 2 + rest.length ≤ 65535)
    (htype : swap16 type.toUInt16 ≠ 0)
    (hc : c = ip6Checksum (write heap (p + 2) (pre ++ bytes16 0 ++ rest)) (p + 16) type.toUInt16
      (k + 2 + rest.length))
    (h : read buf 0 (56 + k + rest.length) = pre ++ bytes16 c ++ rest) :
    ld16 buf (54 + k) ≠ 0 ∧
      sumOk (clearMax buf (54 + k)) 14 type.toUInt16 (k + 2 + rest.length) := by
  have hbuf := read_write_middle (bytes16 0) h rfl
  rw [hpre, Nat.zero_add] at hbuf
  have hheap : read (write heap (p + 2) (pre ++ bytes16 0 ++ rest)) (p + 2) (56 + k + rest.length) =
      pre ++ bytes16 0 ++ rest :=
    read_write_self _ _ _ _ (by simp only [List.length_append, hpre, bytes16_length]; omega)
  -- both packets are the frame with a zero checksum
  have hsame := hbuf.trans hheap.symm
  have hfield : ld16 buf (54 + k) = c := by
    have hword := (read_eq_append (read_eq_append h).1).2
    rw [hpre, Nat.zero_add] at hword
    exact ld16_of_read hword
  exact ip6Checksum_verifies hk (by omega) hmax htype (hfield.trans hc)
    (pseudoSum_congr _ (read_part hsame 18 2 (by omega)) (read_part hsame 22 _ (by omega)))

/-- The checksum that `udp6_send` stores passes the test of `_udp6_recv`. -/
theorem udpFrame_verifies {heap : Mem} {p : Nat} (hlen : payload.length ≤ 1452)
    (hc : c = ip6Checksum (write heap (p + 2) (udpFrame st dmac daddr sport dport payload 0))
      (p + 16) hdrUdp.toUInt16 (payload.length + 8))
    (h : read buf 0 (62 + payload.length) = udpFrame st dmac daddr sport dport payload c) :
    ld16 buf 60 ≠ 0 ∧ sumOk (clearMax buf 60) 14 hdrUdp.toUInt16 (payload.length + 8) := by
  have hk : 6 + 2 + payload.length = payload.length + 8 := Nat.add_comm 8 _
  rw [← hk] at hc ⊢
  exact storedSum_verifies (k := 6) (by simp [udpPorts]) rfl (by omega) (by decide) hc h

theorem length_field {k : Nat} (hk : k ≤ 65535) {n : UInt16}
    (hn : n = swap16 (UInt16.ofNat k)) : (swap16 n).toNat = k := by
  rw [hn, swap16_swap16, UInt16.toNat_ofNat']
  omega

theorem udpFrame_delivered {heap : Mem} {p total : Nat} {st' : Stack}
    (hlen : payload.length ≤ 1452)
    (hc : c = ip6Checksum (write heap (p + 2) (udpFrame st dmac daddr sport dport payload 0))
      (p + 16) hdrUdp.toUInt16 (payload.length + 8))
    (h : read buf 0 (62 + payload.length) = udpFrame st dmac daddr sport dport payload c)
    (htotal : 62 + payload.length ≤ total)
    (hmine : daddr = st'.llIp6Addr ∨ daddr = st'.snmIp6Addr) : Delivered st' buf total := by
  have hf := frameFields h
  obtain ⟨hfield, hsum⟩ := udpFrame_verifies hlen hc h
  have hn : payloadLen buf = payload.length + 8 := length_field (by omega) hf.length
  have hu : (swap16 (ld16 buf 58)).toNat = payload.length + 8 := length_field (by omega) hf.ulen
  refine ⟨⟨by omega, hf.type₀, hf.type₁, by rw [hf.version]; decide, by omega⟩, ?_, hf.next, ?_⟩
  · rw [Mine, hf.dst]
    exact hmine.imp Eq.symm Eq.symm
  · rw [hn]
    exact ⟨by omega, hfield, hsum, by omega, by omega⟩

end Frame

/-- **Round trip of a datagram.**  Two hosts with any addresses, a free buffer with any
contents, and a `Transmit` that succeeds: the frame given to `Transmit`, followed by any
padding, makes the other host call `udp6_recv` once, with the payload, the addresses and
the ports as they were sent, and leaves the sender in its cache. -/
theorem udp6Send_roundTrip (stA stB : Stack) (macA macB : MacAddr) (nic : Nic) (data : Mem)
    (dlen : Nat) (daddr : Ip6Addr) (dport sport : UInt16) (hlen : dlen ≤ 1452)
    (hdst : daddr = (ip6Init stB macB).llIp6Addr ∧ stA.rxIp6Addr = daddr ∨
      daddr = (ip6Init stB macB).snmIp6Addr)
    (hfree : nic.ethBuffers ≠ 0) (hok : nic.txStatus nic.transmitted.length = true) :
    ∃ nic' frame,
      udp6Send (ip6Init stA macA) nic data dlen daddr dport sport = some (nic', 0) ∧
      nic'.transmitted = nic.transmitted ++ [⟨nic.ethBuffers + 18, frame⟩] ∧
      frame.length = 62 + dlen ∧
      ∀ (w : World (List Udp6Datagram)) (buf : Mem) (total : Nat),
        w.stack = ip6Init stB macB → read buf 0 frame.length = frame →
        frame.length ≤ total → total ≤ 1514 →
        ethRecv record w buf total = some { w with
          stack := { w.stack with
            rxMacAddr := macA
            rxIp6Addr := ll6addrFromMac macA }
          app := w.app ++ [⟨read data 0 dlen, daddr, dport, ll6addrFromMac macA, sport⟩] } := by
  obtain ⟨dmac, hres⟩ : ∃ dmac, resolveIp6 (ip6Init stA macA) daddr = some dmac := by
    rcases hdst with ⟨-, hrx⟩ | hsnm
    · exact resolveIp6_rx hrx.symm
    · exact ⟨multicastFromIp6 daddr, by rw [hsnm]; rfl⟩
  have hpay : (read data 0 dlen).length = dlen := read_length _ _ _
  have hsend := udp6Send_eq data dport sport (ethGetBuffer_free (by decide) hfree) hlen hres
  dsimp only at hsend
  generalize hc : ip6Checksum _ _ _ _ = c at hsend
  rw [ethSend_ok (by exact hok)] at hsend
  refine ⟨_, udpFrame (ip6Init stA macA) dmac daddr sport dport (read data 0 dlen) c, hsend, ?_,
    by rw [udpFrame_length, hpay], ?_⟩
  · have hread : ∀ (heap : Mem) (a : Nat) (frame : List UInt8), frame.length = 62 + dlen →
        read (write heap a frame) a (62 + dlen) = frame :=
      fun heap a frame h => read_write_self _ _ _ _ h.symm
    simp only [Nic.accept, Nic.withHeap, Nic.pop]
    rw [hread _ _ _ (by rw [udpFrame_length, hpay])]
    rfl
  · intro w buf total hstack hbuf htotal _
    rw [udpFrame_length] at hbuf htotal
    have hmine : daddr = w.stack.llIp6Addr ∨ daddr = w.stack.snmIp6Addr := by
      rw [hstack]
      exact hdst.imp And.left id
    have hf := frameFields hbuf
    have hd : Delivered w.stack buf total :=
      udpFrame_delivered (by rw [hpay]; exact hlen) (by rw [hpay]; exact hc.symm) hbuf htotal hmine
    have hcall : (callOf buf).datagram =
        ⟨read data 0 dlen, daddr, dport, ll6addrFromMac macA, sport⟩ := by
      have hdata := hf.data
      rw [hpay] at hdata
      have hn : (swap16 (ld16 buf 58)).toNat - 8 = dlen := by
        rw [length_field (by rw [hpay]; omega) hf.ulen, hpay]
        omega
      simp only [Call.datagram, callOf, hn, read_shift, hdata, hf.dst, hf.src, hf.sport, hf.dport,
        swap16_swap16]
      rfl
    rw [ethRecv_delivered record hd, record, hcall]
    simp only [World.heard, hf.smac, hf.src]
    rfl

def blank : Stack := ⟨#v[0, 0, 0, 0, 0, 0], ip6LlAllNodes, #v[0, 0, 0, 0, 0, 0], ip6LlAllNodes,
  #v[0, 0, 0, 0, 0, 0], ip6LlAllNodes⟩

def oneBlock : Nic := ⟨fun _ => 1, 4096, fun _ => true, [], []⟩

/-- Three bytes to a solicited-node address, with four bytes of padding. -/
theorem udp6Send_roundTrip_three_bytes : ∃ nic' frame,
    udp6Send (ip6Init blank #v[2, 0, 0, 0, 0, 1]) oneBlock (ofList [7, 8, 9]) 3
      (snmaddrFromMac #v[2, 0, 0, 0, 0, 2]) 33330 5000 = some (nic', 0) ∧
    nic'.transmitted = [⟨4114, frame⟩] ∧
    (ethRecv record ⟨ip6Init blank #v[2, 0, 0, 0, 0, 2], oneBlock, []⟩ (ofList frame) 69).map
      World.app = some [⟨[7, 8, 9], snmaddrFromMac #v[2, 0, 0, 0, 0, 2], 33330,
        ll6addrFromMac #v[2, 0, 0, 0, 0, 1], 5000⟩] := by
  obtain ⟨nic', frame, hsend, htx, hlen, hrecv⟩ :=
    udp6Send_roundTrip blank blank #v[2, 0, 0, 0, 0, 1] #v[2, 0, 0, 0, 0, 2] oneBlock
      (ofList [7, 8, 9]) 3 (snmaddrFromMac #v[2, 0, 0, 0, 0, 2]) 33330 5000 (by decide)
      (.inr rfl) (by decide) rfl
  refine ⟨nic', frame, hsend, htx, ?_⟩
  rw [hrecv ⟨ip6Init blank #v[2, 0, 0, 0, 0, 2], oneBlock, []⟩ (ofList frame) 69 rfl
    (read_ofList frame) (by omega) (by omega)]
  rfl

end Gigaboot.Inet6
