import Gigaboot.Inet6.Icmp6
import Gigaboot.Netboot.Node

/-!
# Bytes after the end of a packet

`eth_recv` cuts a frame at the length in its IPv6 header, "ignore any trailing data in
the ethernet frame", and hands the rest of the work to `_udp6_recv` and `icmp6_recv`.
The first checks that the packet has room for its header.  The second does not: for a
payload of fewer than 4 bytes it takes its message type and checksum field from
whatever follows the packet.

* `udp6RecvHdr_agree`, `icmp6Recv_agree`: no other packet lets trailing bytes in;
* `replies_agree_iff`: the short messages whose trailing bytes decide about a reply;
* `trailing_ignored_iff`: which packets leave trailing bytes alone.
-/

namespace Gigaboot.Netboot.Trailing

open ByteMem OnesComplement Inet6 Netifc

def Agree (n : Nat) (f g : Mem) : Prop := ∀ i < n, f i = g i

section Agree

variable {f g : Mem}

theorem Agree.symm {n : Nat} (h : Agree n f g) : Agree n g f := fun i hi => (h i hi).symm

theorem Agree.ld16 {n a : Nat} (h : Agree n f g) (ha : a + 2 ≤ n) : ld16 f a = ld16 g a :=
  ld16_congr fun i _ _ => h i (by omega)

theorem Agree.arrayAt {n a k : Nat} (h : Agree n f g) (ha : a + k ≤ n) :
    arrayAt f a k = arrayAt g a k :=
  arrayAt_congr fun i _ _ => h i (by omega)

theorem Agree.payloadLen {n : Nat} (h : Agree (54 + n) f g) : payloadLen f = payloadLen g := by
  rw [Inet6.payloadLen, h.ld16 (by omega), Inet6.payloadLen]

theorem Agree.wellFormed {n lf lg : Nat} (h : Agree (54 + n) f g) (hn : Inet6.payloadLen f = n)
    (hlg : 54 + n ≤ lg) (hf : WellFormed f lf) : WellFormed g lg := by
  refine ⟨by omega, ?_, ?_, ?_, ?_⟩
  · rw [← h 12 (by omega)]; exact hf.type₀
  · rw [← h 13 (by omega)]; exact hf.type₁
  · rw [version_iff, ← h 14 (by omega), ← version_iff]; exact hf.version
  · rw [← h.payloadLen]; omega

theorem Agree.mine {n : Nat} (h : Agree (54 + n) f g) (st : Stack) : Mine st f ↔ Mine st g := by
  rw [Mine, Mine, h.arrayAt (by omega)]

theorem Agree.heard {σ : Type*} {n : Nat} (h : Agree (54 + n) f g) (w : World σ) :
    w.heard f = w.heard g := by
  simp only [World.heard, h.arrayAt (a := 6) (k := 6) (by omega),
    h.arrayAt (a := 22) (k := 16) (by omega)]

/-- The sum takes in the packet and nothing after it. -/
theorem Agree.sumOk {n : Nat} (h : Agree (54 + n) f g) (hn : n ≤ 65535) (type : UInt16) :
    sumOk f 14 type n ↔ sumOk g 14 type n := by
  rw [sumOk_iff_endAround _ _ _ _ hn, sumOk_iff_endAround _ _ _ _ hn, pseudoSum_congr type]
  · exact read_congr fun i _ _ => h i (by omega)
  · exact read_congr fun i _ _ => h i (by omega)

theorem Agree.write {n : Nat} (h : Agree n f g) (a : Nat) (bs : List UInt8) :
    Agree n (write f a bs) (write g a bs) := by
  intro i hi
  simp only [ByteMem.write]
  rw [h i hi]

theorem Agree.clearMax {n a : Nat} (h : Agree n f g) (ha : a + 2 ≤ n) :
    Agree n (clearMax f a) (clearMax g a) := by
  unfold Inet6.clearMax
  rw [h.ld16 ha]
  split
  · exact h.write a _
  · exact h

end Agree

/-! ## Packets with room for their header -/

theorem Agree.udpOk {f g : Mem} {n : Nat} (h : Agree (54 + n) f g) (hn : n ≤ 65535)
    (ho : UdpOk f n) : UdpOk g n := by
  have hlong := ho.long
  have hu := h.ld16 (a := 58) (by omega)
  refine ⟨hlong, ?_, ?_, ?_, ?_⟩
  · rw [← h.ld16 (by omega)]; exact ho.field
  · rw [← (h.clearMax (by omega)).sumOk hn]; exact ho.sum
  · rw [← hu]; exact ho.min
  · rw [← hu]; exact ho.max

theorem udp6RecvHdr_agree {f g : Mem} {n : Nat} (h : Agree (54 + n) f g) (hn : n ≤ 65535)
    (w : World Device) : udp6RecvHdr netbootRecv w f n = udp6RecvHdr netbootRecv w g n := by
  by_cases ho : UdpOk f n
  · have ho' := h.udpOk hn ho
    rw [udp6RecvHdr_accepted _ _ ho, udp6RecvHdr_accepted _ _ ho']
    have hlong := ho.long
    have hmax := ho.max
    refine netbootRecv_congr w ?_ ?_ ?_ ?_ fun i hi => ?_
    · simp only [callOf, h.ld16 (a := 58) (by omega)]
    · simp only [callOf, h.ld16 (a := 56) (by omega)]
    · simp only [callOf, h.arrayAt (a := 22) (k := 16) (by omega)]
    · simp only [callOf, h.ld16 (a := 54) (by omega)]
    · have hi' : i < (swap16 (ld16 f 58)).toNat - 8 := hi
      exact h (62 + i) (by omega)
  · have ho' : ¬ UdpOk g n := fun hg => ho (h.symm.udpOk hn hg)
    rw [udp6RecvHdr_rejected _ _ ho, udp6RecvHdr_rejected _ _ ho']

theorem icmp6Send_congr (st : Stack) (nic : Nic) {data data' : Mem} {len : Nat} (daddr : Ip6Addr)
    (h : read data 0 len = read data' 0 len) :
    icmp6Send st nic data len daddr = icmp6Send st nic data' len daddr := by
  simp only [icmp6Send, h]

def echo (w : World Device) (buf : Mem) (len : Nat) : Option (World Device) :=
  w.sent (icmp6Send w.stack w.nic
    (shift (write (write buf 56 (bytes16 0)) 54 [icmp6EchoReply]) 54) len (arrayAt buf 22 16))

theorem echo_agree {f g : Mem} {n : Nat} (h : Agree (54 + n) f g) (w : World Device) :
    echo w f n = echo w g n := by
  rw [echo, echo, h.arrayAt (by omega), icmp6Send_congr]
  rw [read_shift, read_shift]
  exact read_congr fun i _ hi => ((h.write 56 _).write 54 _) i (by omega)

theorem icmp6Dispatch_agree {f g : Mem} {n : Nat} (h : Agree (54 + n) f g) (hmin : 4 ≤ n)
    (w : World Device) : icmp6Dispatch w f n = icmp6Dispatch w g n := by
  have htype := h 54 (by omega)
  by_cases hecho : f 54 = icmp6EchoRequest
  · rw [icmp6Dispatch_echo w hecho, icmp6Dispatch_echo w (htype ▸ hecho)]
    exact echo_agree h w
  -- the target is only looked at if the message is long enough to have one
  have htarget : ¬ n < ndpNHdrSize → arrayAt f 62 16 = arrayAt g 62 16 := by
    intro hsize
    have h24 : ndpNHdrSize = 24 := rfl
    exact h.arrayAt (by omega)
  simp only [icmp6Dispatch, ← htype, if_neg hecho, ← h 55 (by omega),
    h.arrayAt (a := 22) (k := 16) (by omega)]
  by_cases hsize : n < ndpNHdrSize
  · simp only [if_pos hsize]
  · rw [htarget hsize]

theorem icmp6Recv_agree {f g : Mem} {n : Nat} (h : Agree (54 + n) f g) (hmin : 4 ≤ n)
    (hn : n ≤ 65535) (w : World Device) : icmp6Recv w f n = icmp6Recv w g n := by
  have hclear := h.clearMax (a := 56) (by omega)
  rw [icmp6Recv_dispatch, icmp6Recv_dispatch, h.ld16 (by omega), icmp6Dispatch_agree h hmin]
  simp only [hclear.sumOk hn]

/-! ## Echo requests without a header -/

/-- What a node shows to the outside: the frames it sent, and its state. -/
def seen (w : World Device) : List (List UInt8) × Stack × Device :=
  (w.nic.transmitted.map Transmitted.frame, w.stack, w.app)

/-- A message that is answered as an echo request. -/
def Replies (buf : Mem) (n : Nat) : Prop :=
  ld16 buf 56 ≠ 0 ∧ sumOk (clearMax buf 56) 14 hdrIcmp6.toUInt16 n ∧ buf 54 = icmp6EchoRequest

instance (buf : Mem) (n : Nat) : Decidable (Replies buf n) := inferInstanceAs (Decidable (_ ∧ _))

/-- A message that is too short for a solicitation is echoed or ignored. -/
theorem icmp6Recv_short (w : World Device) (buf : Mem) {n : Nat} (hn : n < 4) :
    icmp6Recv w buf n = if Replies buf n then echo w buf n else some w := by
  have hsize : n < ndpNHdrSize := Nat.lt_of_lt_of_le hn (by decide)
  rw [icmp6Recv_dispatch]
  by_cases hok : ld16 buf 56 ≠ 0 ∧ sumOk (clearMax buf 56) 14 hdrIcmp6.toUInt16 n
  swap
  · rw [if_neg hok, if_neg fun h => hok ⟨h.1, h.2.1⟩]
  by_cases htype : buf 54 = icmp6EchoRequest
  · rw [if_pos hok, icmp6Dispatch_echo w htype, if_pos ⟨hok.1, hok.2, htype⟩]
    rfl
  · rw [if_pos hok, icmp6Dispatch, if_pos hsize, if_neg htype, ite_self,
      if_neg fun h => htype h.2.2]

theorem echo_exhausted {w : World Device} (h : w.nic.ethBuffers = 0) (buf : Mem) (n : Nat) :
    echo w buf n = some w := by
  simp only [echo, icmp6Send, ethGetBuffer_none h]
  rfl

theorem echo_transmits {w w' : World Device} {buf : Mem} {n : Nat} (hn : n ≤ 1460)
    (hfree : w.nic.ethBuffers ≠ 0) (hsrc : arrayAt buf 22 16 = w.stack.rxIp6Addr)
    (h : echo w buf n = some w') :
    w'.nic.transmitted.length = w.nic.transmitted.length + 1 := by
  obtain ⟨mac, hmac⟩ := resolveIp6_rx hsrc
  have hget : ethGetBuffer w.nic (ethMtu + 2) = (w.nic.pop, some (w.nic.ethBuffers + dataOff)) :=
    ethGetBuffer_free (by decide) hfree
  unfold echo at h
  rw [icmp6Send_eq _ hget hn hmac] at h
  obtain ⟨⟨nic', r⟩, hsend, rfl⟩ := Option.map_eq_some_iff.mp h
  rw [ethSend_transmitted hsend, List.length_append]
  rfl

theorem echo_seen {w : World Device} {buf : Mem} {n : Nat} (hn : n ≤ 1460)
    (hfree : w.nic.ethBuffers ≠ 0) (hsrc : arrayAt buf 22 16 = w.stack.rxIp6Addr) :
    (echo w buf n).map seen ≠ some (seen w) := by
  intro h
  obtain ⟨w', hecho, hseen⟩ := Option.map_eq_some_iff.mp h
  have hlen := echo_transmits hn hfree hsrc hecho
  have hframes := congrArg (fun s => s.1.length) hseen
  simp only [seen, List.length_map] at hframes
  omega

/-- Whether it is answered is all that trailing bytes can change about a short message. -/
theorem icmp6Recv_short_seen {w : World Device} {f g : Mem} {n : Nat} (h : Agree (54 + n) f g)
    (hn : n < 4) (hsrc : arrayAt f 22 16 = w.stack.rxIp6Addr) :
    (icmp6Recv w f n).map seen = (icmp6Recv w g n).map seen ↔
      (w.nic.ethBuffers ≠ 0 → (Replies f n ↔ Replies g n)) := by
  rw [icmp6Recv_short w f hn, icmp6Recv_short w g hn, ← echo_agree h]
  by_cases hfree : w.nic.ethBuffers = 0
  · rw [echo_exhausted hfree, ite_self, ite_self]
    exact iff_of_true rfl fun hne => absurd hfree hne
  have hloud := echo_seen (n := n) (by omega) hfree hsrc
  by_cases hf : Replies f n <;> by_cases hg : Replies g n
  · rw [if_pos hf, if_pos hg]
    exact iff_of_true rfl fun _ => iff_of_true hf hg
  · rw [if_pos hf, if_neg hg]
    exact iff_of_false hloud fun hiff => hg ((hiff hfree).mp hf)
  · rw [if_neg hf, if_pos hg]
    exact iff_of_false hloud.symm fun hiff => hf ((hiff hfree).mpr hg)
  · rw [if_neg hf, if_neg hg]
    exact iff_of_true rfl fun _ => iff_of_false hf hg

/-- Whether a short message is answered is left to the bytes after it. -/
def Undecided (f : Mem) (n : Nat) : Prop :=
  n < 4 ∧ (n = 0 ∨ f 54 = icmp6EchoRequest) ∧
    -- the sum stops before the checksum field, or takes in its first byte
    if n < 3 then sumOk f 14 hdrIcmp6.toUInt16 n
    else
      f 56 = 0 ∧ sumOk f 14 hdrIcmp6.toUInt16 n ∨
      f 56 = 0xFF ∧
        (sumOk f 14 hdrIcmp6.toUInt16 n ∨ sumOk (write f 56 [0]) 14 hdrIcmp6.toUInt16 n)

theorem ld16_eq_zero_iff (m : Mem) (a : Nat) : ld16 m a = 0 ↔ m a = 0 ∧ m (a + 1) = 0 := by
  rw [ld16_eq_iff, read_two, show bytes16 0 = [0, 0] from rfl]
  simp

theorem ld16_eq_max_iff (m : Mem) (a : Nat) :
    ld16 m a = 0xFFFF ↔ m a = 0xFF ∧ m (a + 1) = 0xFF := by
  rw [ld16_eq_iff, read_two, show bytes16 0xFFFF = [0xFF, 0xFF] from rfl]
  simp

/-- The sum of a message of at most 2 bytes does not reach the checksum field. -/
theorem replies_two_iff (g : Mem) {n : Nat} (hn : n < 3) :
    Replies g n ↔ ld16 g 56 ≠ 0 ∧ sumOk g 14 hdrIcmp6.toUInt16 n ∧ g 54 = icmp6EchoRequest := by
  have hclear : Agree (54 + n) (clearMax g 56) g :=
    fun i hi => clearMax_outside _ _ _ (.inl (by omega))
  rw [Replies, hclear.sumOk (by omega)]

/-- The sum of a message of 3 bytes takes in one byte of the checksum field. -/
theorem replies_three_iff (g : Mem) :
    Replies g 3 ↔ ld16 g 56 ≠ 0 ∧
      (if ld16 g 56 = 0xFFFF then sumOk (write g 56 [0]) 14 hdrIcmp6.toUInt16 3
        else sumOk g 14 hdrIcmp6.toUInt16 3) ∧ g 54 = icmp6EchoRequest := by
  have hzero : Agree (54 + 3) (write g 56 (bytes16 0)) (write g 56 [0]) := by
    intro i hi
    rw [show bytes16 0 = [0] ++ [0] from rfl, ← write_append g 56 57 [0] [0] rfl,
      write_outside _ 57 _ _ (.inl hi)]
  unfold Replies clearMax
  by_cases hmax : ld16 g 56 = 0xFFFF
  · rw [if_pos hmax, if_pos hmax, hzero.sumOk (by omega)]
  · rw [if_neg hmax, if_neg hmax]

theorem pseudoSum_three (m : Mem) (type : UInt16) :
    pseudoSum m 14 type 3 = pseudoSum m 14 type 2 + (m 56).toNat := by
  have hlast : read m (14 + 8) (32 + 3) = read m (14 + 8) (32 + 2) ++ [m 56] :=
    read_add m (14 + 8) (32 + 2) 1
  rw [pseudoSum, pseudoSum, hlast, leSum_append _ (by rw [read_length]), leSum]
  omega

/-- With `0xFF` and with 0 in the first byte of the field the sums differ. -/
theorem sumOk_three_ne {f : Mem} (hf : f 56 = 0xFF) (h : sumOk f 14 hdrIcmp6.toUInt16 3) :
    ¬ sumOk (write f 56 [0]) 14 hdrIcmp6.toUInt16 3 := by
  have htype : swap16 hdrIcmp6.toUInt16 ≠ 0 := by decide
  have hsame : pseudoSum (write f 56 [0]) 14 hdrIcmp6.toUInt16 2 =
      pseudoSum f 14 hdrIcmp6.toUInt16 2 :=
    pseudoSum_congr _ (read_write_disjoint _ _ _ _ _ (.inl (by omega)))
      (read_write_disjoint _ _ _ _ _ (.inl (by omega)))
  have hzero : (write f 56 [0] 56).toNat = 0 := rfl
  have hmax : (f 56).toNat = 255 := by rw [hf]; rfl
  rw [sumOk_iff _ _ _ (by omega) htype, pseudoSum_three, hsame, hzero]
  rw [sumOk_iff _ _ _ (by omega) htype, pseudoSum_three, hmax] at h
  omega

theorem agree_write {f : Mem} {n a : Nat} (xs : List UInt8) (h : n ≤ a) :
    Agree n f (write f a xs) :=
  fun i hi => (write_outside _ _ _ _ (.inl (by omega))).symm

/-- Some trailing bytes get a message a reply, and others do not. -/
def Wavers (f : Mem) (n : Nat) : Prop :=
  ∃ g₀ g₁, Agree (54 + n) f g₀ ∧ Agree (54 + n) f g₁ ∧ ¬ Replies g₀ n ∧ Replies g₁ n

/-- A message of at most 2 bytes: all of the checksum field is behind it. -/
theorem wavers_two {f : Mem} {n : Nat} (hn : n < 3) (htype : n = 0 ∨ f 54 = icmp6EchoRequest)
    (hsum : sumOk f 14 hdrIcmp6.toUInt16 n) : Wavers f n := by
  have hloud : Agree (54 + n) f (write (write f 54 [icmp6EchoRequest]) 56 (bytes16 1)) := by
    intro i hi
    rw [write_outside _ _ _ _ (.inl (by omega))]
    by_cases h54 : i = 54
    · subst h54
      exact htype.resolve_left (by omega)
    · rw [write_outside _ _ _ _ (by rw [List.length_singleton]; omega)]
  refine ⟨write f 56 (bytes16 0), _, agree_write _ (by omega), hloud, ?_, ?_⟩
  · exact fun hr => hr.1 (ld16_write16 f 56 0)
  · rw [replies_two_iff _ hn, ld16_write16, ← hloud.sumOk (by omega)]
    exact ⟨by decide, hsum, rfl⟩

theorem write_57 (f : Mem) (x : UInt8) :
    Agree (54 + 3) f (write f 57 [x]) ∧ write f 57 [x] 54 = f 54 ∧ write f 57 [x] 56 = f 56 ∧
      write f 57 [x] (56 + 1) = x :=
  ⟨agree_write _ (by omega), write_outside _ _ _ _ (.inl (by omega)),
    write_outside _ _ _ _ (.inl (by omega)), rfl⟩

/-- Behind a byte other than `0xFF` the field is summed as it is. -/
theorem replies_write_57 {f : Mem} {x : UInt8} (h54 : f 54 = icmp6EchoRequest) (hx : x ≠ 0xFF) :
    Replies (write f 57 [x]) 3 ↔ ¬ (f 56 = 0 ∧ x = 0) ∧ sumOk f 14 hdrIcmp6.toUInt16 3 := by
  obtain ⟨hagree, h54', h56, h57⟩ := write_57 f x
  have hmax : ld16 (write f 57 [x]) 56 ≠ 0xFFFF := by
    rw [Ne, ld16_eq_max_iff, h57]
    exact fun h => hx h.2
  rw [replies_three_iff, if_neg hmax, ← hagree.sumOk (by omega), Ne, ld16_eq_zero_iff, h56, h57,
    h54']
  exact ⟨fun h => ⟨h.1, h.2.1⟩, fun h => ⟨h.1, h.2, h54⟩⟩

/-- With `0xFF` in both bytes the field is summed as 0. -/
theorem replies_write_57_max {f : Mem} (h54 : f 54 = icmp6EchoRequest) (h56 : f 56 = 0xFF) :
    Replies (write f 57 [0xFF]) 3 ↔ sumOk (write f 56 [0]) 14 hdrIcmp6.toUInt16 3 := by
  obtain ⟨hagree, h54', h56', h57⟩ := write_57 f 0xFF
  have hmax : ld16 (write f 57 [0xFF]) 56 = 0xFFFF :=
    (ld16_eq_max_iff _ _).mpr ⟨h56'.trans h56, h57⟩
  rw [replies_three_iff, hmax, if_pos rfl, ← (hagree.write 56 [0]).sumOk (by omega), h54']
  exact ⟨fun h => h.2.1, fun h => ⟨by decide, h, h54⟩⟩

theorem Undecided.wavers {f : Mem} {n : Nat} (h : Undecided f n) : Wavers f n := by
  obtain ⟨hn, htype, hsum⟩ := h
  by_cases h3 : n < 3
  · rw [if_pos h3] at hsum
    exact wavers_two h3 htype hsum
  · obtain rfl : n = 3 := by omega
    have h54 := htype.resolve_left (by omega)
    have hagree := fun x => (write_57 f x).1
    have hlow := replies_write_57 (x := 0) h54 (by decide)
    rw [if_neg h3] at hsum
    rcases hsum with ⟨hb, hs⟩ | ⟨hb, hs⟩
    · -- a zero first byte: the field is 0 or it is not
      have hone := replies_write_57 (x := 1) h54 (by decide)
      exact ⟨_, _, hagree 0, hagree 1, fun hr => (hlow.mp hr).1 ⟨hb, rfl⟩,
        hone.mpr ⟨fun h => absurd h.2 (by decide), hs⟩⟩
    · -- a first byte `0xFF`: it is summed as 0 or as it is
      have hhigh := replies_write_57_max h54 hb
      have hne : ¬ (f 56 = 0 ∧ (0 : UInt8) = 0) := by
        rw [hb]
        decide
      rcases hs with hs | hs
      · exact ⟨_, _, hagree 0xFF, hagree 0, fun hr => sumOk_three_ne hb hs (hhigh.mp hr),
          hlow.mpr ⟨hne, hs⟩⟩
      · exact ⟨_, _, hagree 0, hagree 0xFF, fun hr => sumOk_three_ne hb (hlow.mp hr).2 hs,
          hhigh.mpr hs⟩

/-- A short message that is not undecided decides by itself. -/
theorem replies_of_agree {f g : Mem} {n : Nat} (hn : n < 4) (hu : ¬ Undecided f n)
    (h : Agree (54 + n) f g) (hr : Replies f n) : Replies g n := by
  by_contra hg
  apply hu
  by_cases h3 : n < 3
  · rw [replies_two_iff f h3] at hr
    exact ⟨hn, .inr hr.2.2, by rw [if_pos h3]; exact hr.2.1⟩
  · obtain rfl : n = 3 := by omega
    have h56 := h 56 (by omega)
    have hwrite := h.write 56 [0]
    rw [replies_three_iff] at hr hg
    refine ⟨hn, .inr hr.2.2, ?_⟩
    rw [if_neg h3]
    rw [← h 54 (by omega), ← h.sumOk (by omega), ← hwrite.sumOk (by omega)] at hg
    by_cases hz : f 56 = 0
    · have hne : ld16 f 56 ≠ 0xFFFF := by
        intro hm
        rw [((ld16_eq_max_iff _ _).mp hm).1] at hz
        exact absurd hz (by decide)
      exact .inl ⟨hz, by rw [if_neg hne] at hr; exact hr.2.1⟩
    · by_cases hm : f 56 = 0xFF
      · refine .inr ⟨hm, ?_⟩
        by_cases hmax : ld16 f 56 = 0xFFFF
        · rw [if_pos hmax] at hr; exact .inr hr.2.1
        · rw [if_neg hmax] at hr; exact .inl hr.2.1
      · have hne : ∀ m : Mem, m 56 = f 56 → ld16 m 56 ≠ 0 ∧ ld16 m 56 ≠ 0xFFFF := by
          intro m hm56
          exact ⟨fun h0 => hz (hm56 ▸ ((ld16_eq_zero_iff _ _).mp h0).1),
            fun h1 => hm (hm56 ▸ ((ld16_eq_max_iff _ _).mp h1).1)⟩
        rw [if_neg (hne f rfl).2] at hr
        rw [if_neg (hne g h56.symm).2] at hg
        exact absurd ⟨(hne g h56.symm).1, hr.2⟩ hg

theorem Undecided.agree {f g : Mem} {n : Nat} (h : Agree (54 + n) f g) (hu : Undecided f n) :
    Undecided g n := by
  obtain ⟨hn, htype, hsum⟩ := hu
  refine ⟨hn, ?_, ?_⟩
  · by_cases h0 : n = 0
    · exact .inl h0
    · exact .inr ((h 54 (by omega)).symm.trans (htype.resolve_left h0))
  · rw [← h.sumOk (by omega)]
    by_cases h3 : n < 3
    · rw [if_pos h3] at hsum ⊢
      exact hsum
    · have hwrite := h.write 56 [0]
      rw [if_neg h3] at hsum ⊢
      rw [← h 56 (by omega), ← hwrite.sumOk (by omega)]
      exact hsum

/-- The short messages whose trailing bytes decide about a reply. -/
theorem replies_agree_iff {f : Mem} {n : Nat} (hn : n < 4) :
    (∀ g, Agree (54 + n) f g → (Replies f n ↔ Replies g n)) ↔ ¬ Undecided f n := by
  constructor
  · intro h hu
    obtain ⟨g₀, g₁, h₀, h₁, hquiet, hloud⟩ := hu.wavers
    exact hquiet ((h g₀ h₀).mp ((h g₁ h₁).mpr hloud))
  · intro hu g h
    exact ⟨replies_of_agree hn hu h,
      replies_of_agree hn (fun hg => hu (hg.agree h.symm)) h.symm⟩

/-! ## The whole node -/

/-- A message whose trailing bytes decide about a reply, at a node that can send one. -/
structure Exposed (w : World Device) (f : Mem) : Prop where
  frame : WellFormed f (54 + payloadLen f)
  mine : Mine w.stack f
  next : f 20 = hdrIcmp6
  free : w.nic.ethBuffers ≠ 0
  undecided : Undecided f (payloadLen f)

theorem heard_rxIp6Addr (w : World Device) (f : Mem) :
    arrayAt f 22 16 = (w.heard f).stack.rxIp6Addr := rfl

theorem ethRecv_icmp6 {w : World Device} {f : Mem} {len : Nat} (hf : WellFormed f len)
    (hm : Mine w.stack f) (hnext : f 20 = hdrIcmp6) :
    ethRecv netbootRecv w f len = icmp6Recv (w.heard f) f (payloadLen f) := by
  rw [ethRecv_addressed _ hf hm, dispatch, if_pos hnext]

/-- Every other frame is handled the same whatever follows its packet. -/
theorem ethRecv_agree {w : World Device} {f g : Mem} {lf lg : Nat} (hlf : 54 + payloadLen f ≤ lf)
    (hlg : 54 + payloadLen f ≤ lg) (h : Agree (54 + payloadLen f) f g) (hex : ¬ Exposed w f) :
    (ethRecv netbootRecv w f lf).map seen = (ethRecv netbootRecv w g lg).map seen := by
  have hlen := h.payloadLen
  by_cases ha : WellFormed f lf ∧ Mine w.stack f
  swap
  · have hb : ¬ (WellFormed g lg ∧ Mine w.stack g) := fun hb =>
      ha ⟨h.symm.wellFormed hlen.symm hlf hb.1, (h.mine _).mpr hb.2⟩
    rw [ethRecv_dropped _ ha, ethRecv_dropped _ hb]
  obtain ⟨hf, hm⟩ := ha
  have hg := h.wellFormed rfl hlg hf
  have hm' := (h.mine w.stack).mp hm
  have h20 := h 20 (by omega)
  by_cases hi : f 20 = hdrIcmp6
  · rw [ethRecv_icmp6 hf hm hi, ethRecv_icmp6 hg hm' (h20.symm.trans hi), ← h.heard w, ← hlen]
    by_cases hshort : payloadLen f < 4
    · rw [icmp6Recv_short_seen h hshort (heard_rxIp6Addr w f)]
      intro hfree
      refine (replies_agree_iff hshort).mpr (fun hu => hex ?_) g h
      have hfits : payloadLen f ≤ 54 + payloadLen f - 54 := by omega
      exact ⟨⟨by omega, hf.type₀, hf.type₁, hf.version, hfits⟩, hm, hi, hfree, hu⟩
    · rw [icmp6Recv_agree h (by omega) (payloadLen_le f)]
  · rw [ethRecv_addressed _ hf hm, ethRecv_addressed _ hg hm', dispatch, dispatch, ← h20,
      ← h.heard w, ← hlen, if_neg hi, if_neg hi, udp6RecvHdr_agree h (payloadLen_le f)]

/-- **Trailing data is ignored**, except for the ICMPv6 messages that are too short for
their own header: what `eth_recv` sends and the state it leaves is the same for any two
buffers that agree on the packet, if and only if the packet is not one of those. -/
theorem trailing_ignored_iff (w : World Device) (f : Mem) :
    (∀ (g : Mem) (lf lg : Nat), 54 + payloadLen f ≤ lf → 54 + payloadLen f ≤ lg →
      Agree (54 + payloadLen f) f g →
      (ethRecv netbootRecv w f lf).map seen = (ethRecv netbootRecv w g lg).map seen) ↔
    ¬ Exposed w f := by
  constructor
  · intro h hex
    have hn := hex.undecided.1
    refine (replies_agree_iff hn).mp (fun g hg => ?_) hex.undecided
    have hlen := hg.payloadLen
    have hsame := h g _ _ le_rfl le_rfl hg
    have hg' := hg.wellFormed rfl le_rfl hex.frame
    rw [ethRecv_icmp6 hex.frame hex.mine hex.next,
      ethRecv_icmp6 hg' ((hg.mine _).mp hex.mine) ((hg 20 (by omega)).symm.trans hex.next),
      ← hg.heard w, ← hlen, icmp6Recv_short_seen hg hn (heard_rxIp6Addr w f)] at hsame
    exact hsame hex.free
  · intro hex g lf lg hlf hlg h
    exact ethRecv_agree hlf hlg h hex

/-- An ICMPv6 packet without payload from `fe80::3c3` to the host `02:00:00:00:00:01`. -/
def headless : List UInt8 :=
  [2, 0, 0, 0, 0, 1, 2, 0, 0, 0, 0, 9, 0x86, 0xDD, 0x60, 0, 0, 0, 0, 0, 58, 255,
    0xFE, 0x80, 0, 0, 0, 0, 0, 0, 0, 0, 0, 0, 0, 0, 0x03, 0xC3,
    0xFE, 0x80, 0, 0, 0, 0, 0, 0, 0, 0, 0, 0xFF, 0xFE, 0, 0, 1]

def idleNode : World Device := ⟨ip6Init blank #v[2, 0, 0, 0, 0, 1], oneBlock,
  Device.start (fun _ => 0) (fun _ => 0)⟩

/-- With zeros as padding the packet is ignored, with other padding it is answered. -/
theorem padding_answered :
    payloadLen (ofList headless) = 0 ∧
    Agree (54 + 0) (ofList headless) (write (ofList headless) 54 [128, 0, 1, 0, 0, 0]) ∧
    (ethRecv netbootRecv idleNode (ofList headless) 60).map
      (fun w => w.nic.transmitted.length) = some 0 ∧
    (ethRecv netbootRecv idleNode (write (ofList headless) 54 [128, 0, 1, 0, 0, 0]) 60).map
      (fun w => w.nic.transmitted.length) = some 1 := by
  refine ⟨by decide, agree_write _ (by decide), ?_, ?_⟩
  · decide +kernel
  · decide +kernel

end Gigaboot.Netboot.Trailing
