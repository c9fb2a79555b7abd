import Gigaboot.Inet6.Send

/-!
# Receiving

`eth_recv`, `_udp6_recv` and `icmp6_recv` of `inet6.c` on a receive buffer.  The frame
lies at the start of the buffer, the IPv6 header at offset 14 and its payload at
offset 54; bytes after the frame are part of the memory the code sees.  The receiver of
datagrams, `udp6_recv`, is a parameter.

* `ethRecv_addressed`, `ethRecv_dropped`: a frame passes the tests of `eth_recv` and is
  handed on, or nothing happens;
* `udp6RecvHdr_accepted`, `udp6RecvHdr_rejected`: a datagram passes the tests of `_udp6_recv` and
  the receiver is called once, or it is not called.
-/

namespace Gigaboot.Inet6

open ByteMem Netifc

/-- The state of the stack, of the interface, and of the receiver of datagrams. -/
structure World (σ : Type*) where
  stack : Stack
  nic : Nic
  app : σ

/-- The arguments of a call of `udp6_recv`. -/
structure Call where
  /-- the memory behind the pointer `data` -/
  data : Mem
  len : Nat
  daddr : Ip6Addr
  dport : UInt16
  saddr : Ip6Addr
  sport : UInt16

/-- An implementation of `udp6_recv`; `none` if it does not return. -/
abbrev Handler (σ : Type*) := World σ → Call → Option (World σ)

variable {σ : Type*}

/-- A checksum field of `0xFFFF` is overwritten with 0 before the sum is taken. -/
def clearMax (buf : Mem) (a : Nat) : Mem :=
  if ld16 buf a = 0xFFFF then write buf a (bytes16 0) else buf

/-- `_udp6_recv` on the `len` bytes at offset 54. -/
def udp6RecvHdr (recv : Handler σ) (w : World σ) (buf : Mem) (len : Nat) : Option (World σ) :=
  if len < udpHdrLen then some w
  else if ld16 buf 60 = 0 then some w
  else
    let buf := clearMax buf 60
    if ¬ sumOk buf 14 hdrUdp.toUInt16 len then some w
    else
      let n := (swap16 (ld16 buf 58)).toNat
      if n < udpHdrLen then some w
      else if n > len then some w
      else
        recv w {
          data := shift buf 62
          len := n - udpHdrLen
          daddr := arrayAt buf 38 16
          dport := swap16 (ld16 buf 56)
          saddr := arrayAt buf 22 16
          sport := swap16 (ld16 buf 54) }

def icmp6EchoRequest : UInt8 := 128
def icmp6EchoReply : UInt8 := 129
def icmp6NdpNSolicit : UInt8 := 135
def icmp6NdpNAdvertise : UInt8 := 136
def ndpNTgtLlAddr : UInt8 := 2
def ndpNHdrSize : Nat := 24

/-- The neighbour advertisement `icmp6_recv` answers a solicitation with. -/
def advertisement (st : Stack) : List UInt8 :=
  [icmp6NdpNAdvertise, 0] ++ bytes16 0 ++ bytes32 0x60 ++ st.llIp6Addr.toList ++
    [ndpNTgtLlAddr, 1] ++ st.llMacAddr.toList

/-- The result of a send is not looked at. -/
def World.sent (w : World σ) (r : Option (Nic × Int)) : Option (World σ) :=
  r.map fun x => { w with nic := x.1 }

/-- `icmp6_recv` on the `len` bytes at offset 54. -/
def icmp6Recv (w : World σ) (buf : Mem) (len : Nat) : Option (World σ) :=
  if ld16 buf 56 = 0 then some w
  else
    let buf := clearMax buf 56
    if ¬ sumOk buf 14 hdrIcmp6.toUInt16 len then some w
    else if buf 54 = icmp6NdpNSolicit then
      if len < ndpNHdrSize then some w
      else if buf 55 ≠ 0 then some w
      else if arrayAt buf 62 16 ≠ w.stack.llIp6Addr then some w
      else
        w.sent (icmp6Send w.stack w.nic (ofList (advertisement w.stack)) 32 (arrayAt buf 22 16))
    else if buf 54 = icmp6EchoRequest then
      let buf := write buf 56 (bytes16 0)
      let buf := write buf 54 [icmp6EchoReply]
      w.sent (icmp6Send w.stack w.nic (shift buf 54) len (arrayAt buf 22 16))
    else some w

/-- `ntohs(ip->length)`. -/
def payloadLen (buf : Mem) : Nat := (swap16 (ld16 buf 18)).toNat

/-- The sender's info is stashed to simplify replies. -/
def World.heard (w : World σ) (buf : Mem) : World σ :=
  { w with stack := { w.stack with
      rxMacAddr := arrayAt buf 6 6
      rxIp6Addr := arrayAt buf 22 16 } }

/-- The Ethernet address that the sender of the frame in `buf` is answered at. -/
def replyMac (buf : Mem) : MacAddr :=
  if buf 22 = 0xFF then multicastFromIp6 (arrayAt buf 22 16) else arrayAt buf 6 6

/-- The sender of a frame is always resolved once it is in the cache. -/
theorem resolveIp6_heard (w : World σ) (buf : Mem) :
    resolveIp6 (w.heard buf).stack (arrayAt buf 22 16) = some (replyMac buf) := by
  have hbyte : (arrayAt buf 22 16)[0] = buf 22 := by simp [arrayAt]
  unfold resolveIp6 replyMac
  rw [hbyte]
  by_cases h : buf 22 = 0xFF
  · rw [if_pos h, if_pos h]
  · rw [if_neg h, if_neg h]
    exact if_pos rfl

def ethRecv (recv : Handler σ) (w : World σ) (buf : Mem) (len : Nat) : Option (World σ) :=
  if len < ethHdrLen + ip6HdrLen then some w
  else if buf 12 ≠ 0x86 then some w
  else if buf 13 ≠ 0xDD then some w
  else
    let len := len - (ethHdrLen + ip6HdrLen)
    if ld32 buf 14 &&& 0xF0 ≠ 0x60 then some w
    else
      let n := payloadLen buf
      if n > len then some w
      else if w.stack.llIp6Addr ≠ arrayAt buf 38 16 ∧ w.stack.snmIp6Addr ≠ arrayAt buf 38 16 then
        some w
      else
        let w := w.heard buf
        if buf 20 = hdrIcmp6 then icmp6Recv w buf n
        else if buf 20 = hdrUdp then udp6RecvHdr recv w buf n
        else some w

/-! ## Which frames get through -/

/-- A frame passes the tests before the one for the destination. -/
structure WellFormed (buf : Mem) (len : Nat) : Prop where
  long : 54 ≤ len
  type₀ : buf 12 = 0x86
  type₁ : buf 13 = 0xDD
  version : ld32 buf 14 &&& 0xF0 = 0x60
  fits : payloadLen buf ≤ len - 54

/-- The destination is one of the two addresses of the host. -/
def Mine (st : Stack) (buf : Mem) : Prop :=
  st.llIp6Addr = arrayAt buf 38 16 ∨ st.snmIp6Addr = arrayAt buf 38 16

/-- The end of `eth_recv`. -/
def dispatch (recv : Handler σ) (w : World σ) (buf : Mem) : Option (World σ) :=
  if buf 20 = hdrIcmp6 then icmp6Recv (w.heard buf) buf (payloadLen buf)
  else if buf 20 = hdrUdp then udp6RecvHdr recv (w.heard buf) buf (payloadLen buf)
  else some (w.heard buf)

theorem ethRecv_addressed (recv : Handler σ) {w : World σ} {buf : Mem} {len : Nat}
    (hf : WellFormed buf len) (hm : Mine w.stack buf) :
    ethRecv recv w buf len = dispatch recv w buf := by
  have hlong : ¬ len < ethHdrLen + ip6HdrLen := Nat.not_lt.mpr hf.long
  have hfits : ¬ payloadLen buf > len - (ethHdrLen + ip6HdrLen) := Nat.not_lt.mpr hf.fits
  have hmine : ¬ (w.stack.llIp6Addr ≠ arrayAt buf 38 16 ∧
      w.stack.snmIp6Addr ≠ arrayAt buf 38 16) := by
    rcases hm with h | h
    · exact fun hn => hn.1 h
    · exact fun hn => hn.2 h
  unfold ethRecv
  rw [if_neg hlong, if_neg (not_not_intro hf.type₀), if_neg (not_not_intro hf.type₁),
    if_neg (not_not_intro hf.version), if_neg hfits, if_neg hmine]
  rfl

theorem ethRecv_dropped (recv : Handler σ) {w : World σ} {buf : Mem} {len : Nat}
    (h : ¬ (WellFormed buf len ∧ Mine w.stack buf)) : ethRecv recv w buf len = some w := by
  unfold ethRecv
  by_cases h₁ : len < ethHdrLen + ip6HdrLen
  · rw [if_pos h₁]
  by_cases h₂ : buf 12 = 0x86
  swap
  · rw [if_neg h₁, if_pos h₂]
  by_cases h₃ : buf 13 = 0xDD
  swap
  · rw [if_neg h₁, if_neg (not_not_intro h₂), if_pos h₃]
  by_cases h₄ : ld32 buf 14 &&& 0xF0 = 0x60
  swap
  · rw [if_neg h₁, if_neg (not_not_intro h₂), if_neg (not_not_intro h₃), if_pos h₄]
  by_cases h₅ : payloadLen buf > len - (ethHdrLen + ip6HdrLen)
  · rw [if_neg h₁, if_neg (not_not_intro h₂), if_neg (not_not_intro h₃),
      if_neg (not_not_intro h₄), if_pos h₅]
  rw [if_neg h₁, if_neg (not_not_intro h₂), if_neg (not_not_intro h₃),
    if_neg (not_not_intro h₄), if_neg h₅, if_pos]
  have hf : WellFormed buf len := ⟨Nat.le_of_not_lt h₁, h₂, h₃, h₄, Nat.le_of_not_lt h₅⟩
  exact ⟨fun hl => h ⟨hf, .inl hl⟩, fun hs => h ⟨hf, .inr hs⟩⟩

/-- The tests of `_udp6_recv`. -/
structure UdpOk (buf : Mem) (len : Nat) : Prop where
  long : 8 ≤ len
  field : ld16 buf 60 ≠ 0
  sum : sumOk (clearMax buf 60) 14 hdrUdp.toUInt16 len
  min : 8 ≤ (swap16 (ld16 buf 58)).toNat
  max : (swap16 (ld16 buf 58)).toNat ≤ len

/-- The call that a datagram leads to. -/
def callOf (buf : Mem) : Call where
  data := shift buf 62
  len := (swap16 (ld16 buf 58)).toNat - 8
  daddr := arrayAt buf 38 16
  dport := swap16 (ld16 buf 56)
  saddr := arrayAt buf 22 16
  sport := swap16 (ld16 buf 54)

theorem clearMax_outside (buf : Mem) (a i : Nat) (h : i < a ∨ a + 2 ≤ i) :
    clearMax buf a i = buf i := by
  unfold clearMax
  split
  · exact write_outside _ _ _ _ (by rw [bytes16_length]; exact h)
  · rfl

theorem udp6RecvHdr_accepted (recv : Handler σ) (w : World σ) {buf : Mem} {len : Nat}
    (h : UdpOk buf len) : udp6RecvHdr recv w buf len = recv w (callOf buf) := by
  -- the checksum field is no part of the call
  have hword : ∀ a, a + 2 ≤ 60 → ld16 (clearMax buf 60) a = ld16 buf a := by
    intro a ha
    exact ld16_congr fun i _ _ => clearMax_outside _ _ _ (by omega)
  have haddr : ∀ a, a + 16 ≤ 60 → arrayAt (clearMax buf 60) a 16 = arrayAt buf a 16 := by
    intro a ha
    exact arrayAt_congr fun i _ _ => clearMax_outside _ _ _ (by omega)
  have hdata : shift (clearMax buf 60) 62 = shift buf 62 := by
    funext i
    exact clearMax_outside _ _ _ (by omega)
  have hn : ¬ len < udpHdrLen := Nat.not_lt.mpr h.long
  have hmin : ¬ (swap16 (ld16 buf 58)).toNat < udpHdrLen := Nat.not_lt.mpr h.min
  have hmax : ¬ (swap16 (ld16 buf 58)).toNat > len := Nat.not_lt.mpr h.max
  unfold udp6RecvHdr
  simp only [hword 58 (by omega), hword 56 (by omega), hword 54 (by omega), haddr 38 (by omega),
    haddr 22 (by omega), hdata]
  rw [if_neg hn, if_neg h.field, if_neg (not_not_intro h.sum), if_neg hmin, if_neg hmax]
  rfl

theorem udp6RecvHdr_rejected (recv : Handler σ) (w : World σ) {buf : Mem} {len : Nat}
    (h : ¬ UdpOk buf len) : udp6RecvHdr recv w buf len = some w := by
  have hword : ld16 (clearMax buf 60) 58 = ld16 buf 58 :=
    ld16_congr fun i _ _ => clearMax_outside _ _ _ (by omega)
  unfold udp6RecvHdr
  simp only [hword]
  by_cases h₁ : len < udpHdrLen
  · rw [if_pos h₁]
  by_cases h₂ : ld16 buf 60 = 0
  · rw [if_neg h₁, if_pos h₂]
  by_cases h₃ : sumOk (clearMax buf 60) 14 hdrUdp.toUInt16 len
  swap
  · rw [if_neg h₁, if_neg h₂, if_pos h₃]
  by_cases h₄ : (swap16 (ld16 buf 58)).toNat < udpHdrLen
  · rw [if_neg h₁, if_neg h₂, if_neg (not_not_intro h₃), if_pos h₄]
  rw [if_neg h₁, if_neg h₂, if_neg (not_not_intro h₃), if_neg h₄, if_pos]
  by_contra h₅
  exact h ⟨Nat.le_of_not_lt h₁, h₂, h₃, Nat.le_of_not_lt h₄, Nat.le_of_not_lt h₅⟩

/-- A datagram that gets through to the receiver. -/
structure Delivered (st : Stack) (buf : Mem) (len : Nat) : Prop where
  frame : WellFormed buf len
  mine : Mine st buf
  next : buf 20 = hdrUdp
  udp : UdpOk buf (payloadLen buf)

theorem ethRecv_delivered (recv : Handler σ) {w : World σ} {buf : Mem} {len : Nat}
    (h : Delivered w.stack buf len) :
    ethRecv recv w buf len = recv (w.heard buf) (callOf buf) := by
  have hne : buf 20 ≠ hdrIcmp6 := by rw [h.next]; decide
  rw [ethRecv_addressed recv h.frame h.mine, dispatch, if_neg hne, if_pos h.next,
    udp6RecvHdr_accepted recv _ h.udp]

end Gigaboot.Inet6
