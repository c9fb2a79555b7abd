import Gigaboot.Inet6.Accept
import Gigaboot.Inet6.InternetChecksum

/-!
# Which control messages are looked at

`icmp6_recv` makes two tests before it looks at the type of a message.  It takes both of
them from `_udp6_recv`, where a checksum field of 0 stands for "no checksum"; a control
message has no such case, and a field of 0 can be the right one.

* `icmp6Recv_eq`, `icmp6Recv_dispatch`: `icmp6_recv` is its tests and then the dispatch on
  the type;
* `icmp6Correct_iff`: the sum of the code and the sum in network byte order;
* `icmp6Check_exact_iff`: the tests are exact but for a field of 0.
-/

namespace Gigaboot.Inet6

open ByteMem OnesComplement

variable {σ : Type*}

/-- The tests of `icmp6_recv`; the result is the buffer as the type is then looked at. -/
def icmp6Check (buf : Mem) (len : Nat) : Option Mem :=
  if ld16 buf 56 = 0 then none
  else
    let buf := clearMax buf 56
    if ¬ sumOk buf 14 hdrIcmp6.toUInt16 len then none else some buf

/-- The rest of `icmp6_recv`. -/
def icmp6Dispatch (w : World σ) (buf : Mem) (len : Nat) : Option (World σ) :=
  if buf 54 = icmp6NdpNSolicit then
    if len < ndpNHdrSize then some w
    else if buf 55 ≠ 0 then some w
    else if arrayAt buf 62 16 ≠ w.stack.llIp6Addr then some w
    else
      w.sent (icmp6Send w.stack w.nic (ofList (advertisement w.stack)) 32 (arrayAt buf 22 16))
  else if buf 54 = icmp6EchoRequest then
    let buf := write buf 56 (bytes16 0)
    let buf := write buf 54 [icmp6EchoReply]
    w.sent (icmp6Send w.stack w.nic (shift buf 54) len (arrayAt buf 22 16))
  else some w

theorem icmp6Recv_eq (w : World σ) (buf : Mem) (len : Nat) :
    icmp6Recv w buf len =
      (icmp6Check buf len).elim (some w) fun buf => icmp6Dispatch w buf len := by
  unfold icmp6Recv icmp6Check
  dsimp only
  by_cases hfield : ld16 buf 56 = 0
  · rw [if_pos hfield, if_pos hfield]
    rfl
  by_cases hsum : sumOk (clearMax buf 56) 14 hdrIcmp6.toUInt16 len
  · rw [if_neg hfield, if_neg hfield, if_neg (not_not_intro hsum), if_neg (not_not_intro hsum)]
    rfl
  · rw [if_neg hfield, if_neg hfield, if_pos hsum, if_pos hsum]
    rfl

theorem icmp6Check_some {buf : Mem} {len : Nat} (hfield : ld16 buf 56 ≠ 0)
    (hsum : sumOk (clearMax buf 56) 14 hdrIcmp6.toUInt16 len) :
    icmp6Check buf len = some (clearMax buf 56) := by
  rw [icmp6Check, if_neg hfield]
  exact if_neg (not_not_intro hsum)

theorem icmp6Check_isSome_iff (buf : Mem) (len : Nat) :
    (icmp6Check buf len).isSome ↔
      ld16 buf 56 ≠ 0 ∧ sumOk (clearMax buf 56) 14 hdrIcmp6.toUInt16 len := by
  constructor
  · intro h
    unfold icmp6Check at h
    dsimp only at h
    by_cases hfield : ld16 buf 56 = 0
    · rw [if_pos hfield] at h
      cases h
    by_cases hsum : sumOk (clearMax buf 56) 14 hdrIcmp6.toUInt16 len
    · exact ⟨hfield, hsum⟩
    · rw [if_neg hfield, if_pos hsum] at h
      cases h
  · rintro ⟨hfield, hsum⟩
    rw [icmp6Check_some hfield hsum]
    rfl

theorem icmp6Dispatch_clearMax (w : World σ) (buf : Mem) (len : Nat) :
    icmp6Dispatch w (clearMax buf 56) len = icmp6Dispatch w buf len := by
  have hbyte : ∀ i, i < 56 ∨ 58 ≤ i → clearMax buf 56 i = buf i :=
    fun i hi => clearMax_outside _ _ _ hi
  have htarget : arrayAt (clearMax buf 56) 62 16 = arrayAt buf 62 16 :=
    arrayAt_congr fun i _ _ => hbyte i (by omega)
  have hsrc : arrayAt (clearMax buf 56) 22 16 = arrayAt buf 22 16 :=
    arrayAt_congr fun i _ _ => hbyte i (by omega)
  have hzero : write (clearMax buf 56) 56 (bytes16 0) = write buf 56 (bytes16 0) := by
    funext i
    by_cases hi : 56 ≤ i ∧ i < 56 + (bytes16 0).length
    · rw [write, write, if_pos hi, if_pos hi]
    · have hout : i < 56 ∨ 58 ≤ i := by
        rw [bytes16_length] at hi
        omega
      rw [write, write, if_neg hi, if_neg hi, hbyte i hout]
  unfold icmp6Dispatch
  simp only [hbyte 54 (by omega), hbyte 55 (by omega), htarget, hsrc, hzero]

theorem icmp6Recv_dispatch (w : World σ) (buf : Mem) (len : Nat) :
    icmp6Recv w buf len =
      if ld16 buf 56 ≠ 0 ∧ sumOk (clearMax buf 56) 14 hdrIcmp6.toUInt16 len then
        icmp6Dispatch w buf len
      else some w := by
  rw [icmp6Recv_eq]
  by_cases hok : ld16 buf 56 ≠ 0 ∧ sumOk (clearMax buf 56) 14 hdrIcmp6.toUInt16 len
  · rw [if_pos hok, icmp6Check_some hok.1 hok.2, Option.elim_some, icmp6Dispatch_clearMax]
  · have hnone : icmp6Check buf len = none := by
      rw [← Option.not_isSome_iff_eq_none, icmp6Check_isSome_iff]
      exact hok
    rw [if_neg hok, hnone, Option.elim_none]

theorem icmp6Dispatch_echo (w : World σ) {buf : Mem} (h : buf 54 = icmp6EchoRequest) (len : Nat) :
    icmp6Dispatch w buf len =
      w.sent (icmp6Send w.stack w.nic
        (shift (write (write buf 56 (bytes16 0)) 54 [icmp6EchoReply]) 54) len
        (arrayAt buf 22 16)) := by
  have hne : buf 54 ≠ icmp6NdpNSolicit := by
    rw [h]
    decide
  have hsrc : arrayAt (write (write buf 56 (bytes16 0)) 54 [icmp6EchoReply]) 22 16 =
      arrayAt buf 22 16 := by
    refine arrayAt_congr fun i _ hi => ?_
    rw [write_outside _ _ _ _ (.inl (by omega)), write_outside _ _ _ _ (.inl (by omega))]
  rw [icmp6Dispatch, if_neg hne, if_pos h]
  dsimp only
  rw [hsrc]

/-! ## Correct checksums -/

/-- The one's complement sum over the pseudo-header and the message is `0xFFFF`, the
checksum field included. -/
def Icmp6Correct (f : List UInt8) : Prop :=
  sum16 (pseudoHeader (arrayAt (ofList f) 22 16) (arrayAt (ofList f) 38 16) (be16 f 18) 58 ++
    slice f 54 (be16 f 18)) = 0xFFFF

instance (f : List UInt8) : Decidable (Icmp6Correct f) := inferInstanceAs (Decidable (_ = _))

theorem beSum_pseudoHeader (src dst : Ip6Addr) {n : Nat} (hn : n ≤ 65535) (next : UInt8) :
    beSum (pseudoHeader src dst n next) = beSum (src.toList ++ dst.toList) + n + next.toNat := by
  have hlen : beSum (be32 n) = n := by
    simp only [be32, beSum, UInt8.toNat_ofNat']
    omega
  have hnext : beSum [0, 0, 0, next] = next.toNat := by
    simp only [beSum]
    have h₀ : (0 : UInt8).toNat = 0 := rfl
    omega
  rw [pseudoHeader, beSum_append _ (by simp [be32]), beSum_append _ (by simp), hlen, hnext]

section Frame

variable {f : List UInt8} {buf : Mem}

theorem be16_le (f : List UInt8) (i : Nat) : be16 f i ≤ 65535 := by
  have h₀ := (f.getD i 0).toNat_lt
  have h₁ := (f.getD (i + 1) 0).toNat_lt
  unfold be16 byte
  omega

/-- The sum over the bytes of the frame, with the length and the next header added. -/
theorem icmp6Correct_iff_beSum (hfits : 54 + be16 f 18 ≤ f.length) :
    Icmp6Correct f ↔
      endAround (be16 f 18 + 58 + beSum (slice f 22 (32 + be16 f 18))) = 0xFFFF := by
  have hf := read_ofList f
  have hsplit : slice f 22 (32 + be16 f 18) =
      (arrayAt (ofList f) 22 16).toList ++ (arrayAt (ofList f) 38 16).toList ++
        slice f 54 (be16 f 18) := by
    rw [slice_eq hf (by omega), slice_eq hf (by omega), arrayAt_toList, arrayAt_toList, read_add]
    exact congrArg (· ++ _) (read_add _ 22 16 16)
  rw [Icmp6Correct, sum16_eq, hsplit, beSum_append _ (by simp [pseudoHeader, be32]),
    beSum_append _ (by simp), beSum_pseudoHeader _ _ (be16_le f 18)]
  have h58 : (58 : UInt8).toNat = 58 := rfl
  rw [h58, ← Nat.add_assoc, Nat.add_assoc (beSum _) (be16 f 18) 58, Nat.add_comm (beSum _)]

theorem icmp6Correct_iff (h : read buf 0 f.length = f) (hfits : 54 + be16 f 18 ≤ f.length) :
    Icmp6Correct f ↔ sumOk buf 14 hdrIcmp6.toUInt16 (be16 f 18) := by
  have hn : be16 f 18 = payloadLen buf := be16_eq h (by omega)
  rw [icmp6Correct_iff_beSum hfits, slice_eq h (by omega),
    sumOk_iff_beSum buf (be16_le f 18) (by decide), hn]
  rfl

/-- A frame for the host that carries a control message with room for its header. -/
structure Icmp6Frame (st : Stack) (f : List UInt8) : Prop where
  header : HeaderOk f
  dst : slice f 38 16 = st.llIp6Addr.toList ∨ slice f 38 16 = st.snmIp6Addr.toList
  next : byte f 20 = 58
  min : 4 ≤ be16 f 18

theorem Icmp6Frame.fits {st : Stack} (hf : Icmp6Frame st f) : 54 + be16 f 18 ≤ f.length := by
  have hlong := hf.header.long
  have hfits := hf.header.fits
  omega

theorem be16_eq_zero_iff (h : read buf 0 f.length = f) {i : Nat} (hi : i + 1 < f.length) :
    be16 f i = 0 ↔ ld16 buf i = 0 := by
  rw [be16_eq h hi, swap16_ld16_toNat, ← UInt16.toNat_inj, ld16_toNat]
  have hzero : (0 : UInt16).toNat = 0 := rfl
  omega

theorem icmp6Check_iff {st : Stack} (h : read buf 0 f.length = f) (hf : Icmp6Frame st f) :
    (icmp6Check buf (be16 f 18)).isSome ↔ be16 f 56 ≠ 0 ∧ Icmp6Correct f := by
  have hfits := hf.fits
  have hmin := hf.min
  rw [icmp6Check_isSome_iff, Ne, Ne, be16_eq_zero_iff h (by omega), icmp6Correct_iff h hfits]
  exact and_congr_right fun _ =>
    sumOk_clearMax buf (k := 2) rfl (by omega) (be16_le f 18) (by decide)

theorem ethRecv_icmp6 (recv : Handler σ) {w : World σ} (h : read buf 0 f.length = f)
    (hf : Icmp6Frame w.stack f) :
    ethRecv recv w buf f.length =
      (icmp6Check buf (be16 f 18)).elim (some (w.heard buf))
        fun buf' => icmp6Dispatch (w.heard buf) buf' (be16 f 18) := by
  have hlong := hf.header.long
  have hw := (headerOk_iff h).mp hf.header
  have hm := (mine_iff h hlong w.stack).mp hf.dst
  have hnext : buf 20 = hdrIcmp6 := (byte_eq_iff h (by omega) hdrIcmp6).mp hf.next
  have hn : be16 f 18 = payloadLen buf := be16_eq h (by omega)
  rw [ethRecv_addressed recv hw hm, dispatch, if_pos hnext, icmp6Recv_eq, hn]

/-- **Which control messages are looked at.**  For a frame with a control message for the
host, and whatever lies behind it in the receive buffer: `eth_recv` makes the tests of
`icmp6_recv` and goes on to the type of the message if they hold.  They hold exactly for a
correct checksum, unless the checksum is correct and its field is 0. -/
theorem icmp6Check_exact_iff (recv : Handler σ) (w : World σ) (h : read buf 0 f.length = f)
    (hf : Icmp6Frame w.stack f) :
    ethRecv recv w buf f.length =
      (icmp6Check buf (be16 f 18)).elim (some (w.heard buf))
        (fun buf' => icmp6Dispatch (w.heard buf) buf' (be16 f 18)) ∧
    (((icmp6Check buf (be16 f 18)).isSome ↔ Icmp6Correct f) ↔
      ¬ (be16 f 56 = 0 ∧ Icmp6Correct f)) := by
  refine ⟨ethRecv_icmp6 recv h hf, ?_⟩
  rw [icmp6Check_iff h hf]
  constructor
  · rintro hiff ⟨hzero, hsum⟩
    exact (hiff.mpr hsum).1 hzero
  · intro hn
    exact ⟨And.right, fun hsum => ⟨fun hzero => hn ⟨hzero, hsum⟩, hsum⟩⟩

end Frame

/-- An echo request to the host `02:00:00:00:00:01` that is correct with `0x0000` and with
`0xFFFF` in its checksum field. -/
def evenPing (c : UInt8) : List UInt8 := [
  2, 0, 0, 0, 0, 1, 2, 0, 0, 0, 0, 9, 134, 221, 96, 0, 0, 0, 0, 6, 58, 255, 254, 128, 0, 0,
  0, 0, 0, 0, 0, 0, 0, 255, 254, 0, 0, 9, 254, 128, 0, 0, 0, 0, 0, 0, 0, 0, 0, 255, 254, 0, 0,
  1, 128, 0, c, c, 132, 179]

theorem evenPing_frame (c : UInt8) :
    Icmp6Frame (ip6Init blank #v[2, 0, 0, 0, 0, 1]) (evenPing c) :=
  ⟨⟨show 54 ≤ 60 by decide, rfl, rfl, show 96 / 16 = 6 by decide, Nat.le_refl 6⟩, .inl rfl, rfl,
    show 4 ≤ 6 by decide⟩

theorem icmp6Check_exact_iff_max : (icmp6Check (ofList (evenPing 0xFF)) 6).isSome := by
  have hexact := icmp6Check_exact_iff record ⟨ip6Init blank #v[2, 0, 0, 0, 0, 1], oneBlock, []⟩
    (read_ofList (evenPing 0xFF)) (evenPing_frame 0xFF)
  exact (hexact.2.mpr (by decide)).mpr (by decide)

/-- The same ping with `0x0000` as its sum is dropped. -/
theorem correct_ping_dropped :
    Icmp6Frame (ip6Init blank #v[2, 0, 0, 0, 0, 1]) (evenPing 0) ∧ Icmp6Correct (evenPing 0) ∧
    icmp6Check (ofList (evenPing 0)) 6 = none ∧
    (ethRecv record ⟨ip6Init blank #v[2, 0, 0, 0, 0, 1], oneBlock, []⟩ (ofList (evenPing 0))
      60).map (fun w => w.nic.transmitted) = some [] :=
  ⟨evenPing_frame 0, by decide, rfl, by decide⟩

end Gigaboot.Inet6
