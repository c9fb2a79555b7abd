import Gigaboot.Inet6.RoundTrip

/-!
# Which frames reach `udp6_recv`

The tests of `eth_recv` and `_udp6_recv`, stated over the bytes of the frame and in
network byte order.

* `accepts_iff_delivered`: the tests that the code makes are the ones stated;
* `ethRecv_accepts`: a frame leads to a call of `udp6_recv` exactly if it passes them.
-/

namespace Gigaboot.Inet6

open ByteMem OnesComplement

def byte (f : List UInt8) (i : Nat) : Nat := (f.getD i 0).toNat

def be16 (f : List UInt8) (i : Nat) : Nat := 256 * byte f i + byte f (i + 1)

def slice (f : List UInt8) (a n : Nat) : List UInt8 := (f.drop a).take n

/-- The header of a frame is one `eth_recv` goes on with. -/
structure HeaderOk (f : List UInt8) : Prop where
  long : 54 ≤ f.length
  type₀ : byte f 12 = 0x86
  type₁ : byte f 13 = 0xDD
  version : byte f 14 / 16 = 6
  fits : be16 f 18 ≤ f.length - 54

/-- A frame that carries a datagram for the host. -/
structure Accepts (st : Stack) (f : List UInt8) : Prop where
  header : HeaderOk f
  dst : slice f 38 16 = st.llIp6Addr.toList ∨ slice f 38 16 = st.snmIp6Addr.toList
  next : byte f 20 = 17
  min : 8 ≤ be16 f 18
  field : be16 f 60 ≠ 0
  sum : endAround (be16 f 18 + 17 + beSum (slice f 22 (32 + be16 f 18))) = 0xFFFF
  ulen : 8 ≤ be16 f 58 ∧ be16 f 58 ≤ be16 f 18

/-- The datagram in a frame. -/
def datagramOf (f : List UInt8) : Udp6Datagram where
  payload := slice f 62 (be16 f 58 - 8)
  daddr := arrayAt (ofList f) 38 16
  dport := UInt16.ofNat (be16 f 56)
  saddr := arrayAt (ofList f) 22 16
  sport := UInt16.ofNat (be16 f 54)

section Bytes

variable {f : List UInt8} {buf : Mem}

theorem byte_eq (h : read buf 0 f.length = f) {i : Nat} (hi : i < f.length) :
    byte f i = (buf i).toNat := by
  have hg := read_getD buf 0 f.length i hi
  rw [h, Nat.zero_add] at hg
  rw [byte, hg]

theorem be16_eq (h : read buf 0 f.length = f) {i : Nat} (hi : i + 1 < f.length) :
    be16 f i = (swap16 (ld16 buf i)).toNat := by
  rw [be16, byte_eq h (by omega), byte_eq h hi, swap16_ld16_toNat]

theorem slice_eq (h : read buf 0 f.length = f) {a n : Nat} (hn : a + n ≤ f.length) :
    slice f a n = read buf a n := by
  obtain ⟨r, hr⟩ := Nat.exists_eq_add_of_le hn
  rw [hr, read_add, read_add, Nat.zero_add] at h
  rw [slice, ← h, List.append_assoc, List.drop_left' (by simp), List.take_left' (by simp)]

theorem byte_eq_iff (h : read buf 0 f.length = f) {i : Nat} (hi : i < f.length) (b : UInt8) :
    byte f i = b.toNat ↔ buf i = b := by
  rw [byte_eq h hi]
  exact UInt8.toNat_inj

theorem version_iff (m : Mem) (a : Nat) :
    ld32 m a &&& 0xF0 = 0x60 ↔ (m a).toNat / 16 = 6 := by
  have hsmall : ∀ b < 256, b &&& 240 = 96 ↔ b / 16 = 6 := by decide +kernel
  have hmask : (ld32 m a).toNat &&& 240 = (m a).toNat &&& 240 := by
    have hlow : (ld32 m a).toNat &&& 255 = (m a).toNat := by
      have h₀ := (m a).toNat_lt
      rw [Nat.and_two_pow_sub_one_eq_mod _ 8, ld32_toNat]
      omega
    calc (ld32 m a).toNat &&& 240 = (ld32 m a).toNat &&& (255 &&& 240) := rfl
      _ = (m a).toNat &&& 240 := by rw [← Nat.and_assoc, hlow]
  rw [← hsmall _ (m a).toNat_lt, ← hmask]
  exact UInt32.toNat_inj.symm

end Bytes

/-- Clearing a field of `0xFFFF` does not change the sum modulo 65535. -/
theorem pseudoSum_clearMax (buf : Mem) (type : UInt16) {k n : Nat} (hk : k % 2 = 0)
    (hn : k + 2 ≤ n) :
    pseudoSum (clearMax buf (54 + k)) 14 type n % 65535 = pseudoSum buf 14 type n % 65535 := by
  unfold clearMax
  split
  · rename_i h
    have hsum := pseudoSum_field buf 14 type hk hn
    have hmax : (ld16 buf (14 + 40 + k)).toNat = 65535 := by
      rw [show 14 + 40 + k = 54 + k from rfl, h]
      rfl
    rw [hsum, hmax, Nat.add_mod_right]
  · rfl

/-- The sum that the code takes, and the one in network byte order. -/
theorem sumOk_iff_beSum (buf : Mem) {n : Nat} {type : UInt8} (hmax : n ≤ 65535)
    (htype : type ≠ 0) :
    sumOk buf 14 type.toUInt16 n ↔
      endAround (payloadLen buf + type.toNat + beSum (read buf 22 (32 + n))) = 0xFFFF := by
  have ht := type.toNat_lt
  have hpos : type.toNat ≠ 0 := fun h => htype (UInt8.toNat_inj.mp h)
  have hswap : (swap16 type.toUInt16).toNat = 256 * type.toNat := by
    rw [swap16_toNat, UInt8.toNat_toUInt16]
    omega
  have hlen : payloadLen buf ≡ 256 * leSum (read buf 18 2) [MOD 65535] := by
    have hbe := beSum_modEq (read buf 18 2)
    rw [read_two, beSum, ← swap16_ld16_toNat] at hbe
    exact hbe
  rw [sumOk_iff_endAround _ _ _ _ hmax]
  refine (endAround_swapped_iff ?_ ?_).symm
  · have hdata := beSum_modEq (read buf (14 + 8) (32 + n))
    have htype' : type.toNat ≡ 256 * (256 * type.toNat) [MOD 65535] := by
      unfold Nat.ModEq
      omega
    rw [pseudoSum, hswap, Nat.mul_add, Nat.mul_add, Nat.add_comm (256 * (256 * type.toNat))]
    exact (hlen.add htype').add hdata
  · unfold pseudoSum
    omega

theorem sumOk_clearMax (buf : Mem) {type : UInt8} {k n : Nat} (hk : k % 2 = 0) (hn : k + 2 ≤ n)
    (hmax : n ≤ 65535) (htype : swap16 type.toUInt16 ≠ 0) :
    sumOk (clearMax buf (54 + k)) 14 type.toUInt16 n ↔ sumOk buf 14 type.toUInt16 n := by
  rw [sumOk_iff _ _ _ hmax htype, sumOk_iff _ _ _ hmax htype, pseudoSum_clearMax buf _ hk hn]

theorem payloadLen_le (buf : Mem) : payloadLen buf ≤ 65535 :=
  Nat.le_of_lt_succ (swap16 (ld16 buf 18)).toNat_lt

section Frame

variable {f : List UInt8} {buf : Mem}

theorem headerOk_iff (h : read buf 0 f.length = f) : HeaderOk f ↔ WellFormed buf f.length := by
  constructor
  · intro hh
    have hlong := hh.long
    refine ⟨hlong, (byte_eq_iff h (by omega) 0x86).mp hh.type₀,
      (byte_eq_iff h (by omega) 0xDD).mp hh.type₁, ?_, ?_⟩
    · rw [version_iff, ← byte_eq h (by omega)]
      exact hh.version
    · rw [payloadLen, ← be16_eq h (by omega)]
      exact hh.fits
  · intro hw
    have hlong := hw.long
    refine ⟨hlong, (byte_eq_iff h (by omega) 0x86).mpr hw.type₀,
      (byte_eq_iff h (by omega) 0xDD).mpr hw.type₁, ?_, ?_⟩
    · rw [byte_eq h (by omega), ← version_iff]
      exact hw.version
    · rw [be16_eq h (by omega)]
      exact hw.fits

theorem mine_iff (h : read buf 0 f.length = f) (hlong : 54 ≤ f.length) (st : Stack) :
    (slice f 38 16 = st.llIp6Addr.toList ∨ slice f 38 16 = st.snmIp6Addr.toList) ↔
      Mine st buf := by
  have hone : ∀ a : Ip6Addr, slice f 38 16 = a.toList ↔ a = arrayAt buf 38 16 := by
    intro a
    rw [slice_eq h (by omega), ← arrayAt_toList, Vector.toList_inj]
    exact eq_comm
  rw [hone, hone, Mine]

theorem udpOk_iff (h : read buf 0 f.length = f) (hfits : 54 + payloadLen buf ≤ f.length) :
    UdpOk buf (payloadLen buf) ↔
      8 ≤ be16 f 18 ∧ be16 f 60 ≠ 0 ∧
      endAround (be16 f 18 + 17 + beSum (slice f 22 (32 + be16 f 18))) = 0xFFFF ∧
      8 ≤ be16 f 58 ∧ be16 f 58 ≤ be16 f 18 := by
  have hn : be16 f 18 = payloadLen buf := be16_eq h (by omega)
  rw [hn]
  by_cases hmin : 8 ≤ payloadLen buf
  swap
  · exact ⟨fun ho => absurd ho.long hmin, fun ho => absurd ho.1 hmin⟩
  have hu : be16 f 58 = (swap16 (ld16 buf 58)).toNat := be16_eq h (by omega)
  have hfield : be16 f 60 ≠ 0 ↔ ld16 buf 60 ≠ 0 := by
    rw [be16_eq h (by omega), swap16_ld16_toNat, ← UInt16.toNat_inj.ne, ld16_toNat]
    have hzero : (0 : UInt16).toNat = 0 := rfl
    omega
  have hsum : sumOk (clearMax buf 60) 14 hdrUdp.toUInt16 (payloadLen buf) ↔
      endAround (payloadLen buf + 17 + beSum (slice f 22 (32 + payloadLen buf))) = 0xFFFF := by
    rw [slice_eq h (by omega)]
    exact (sumOk_clearMax buf (k := 6) rfl (by omega) (payloadLen_le buf) (by decide)).trans
      (sumOk_iff_beSum buf (payloadLen_le buf) (by decide))
  rw [hu, hfield, ← hsum]
  constructor
  · intro ho
    exact ⟨ho.long, ho.field, ho.sum, ho.min, ho.max⟩
  · rintro ⟨h₁, h₂, h₃, h₄, h₅⟩
    exact ⟨h₁, h₂, h₃, h₄, h₅⟩

theorem accepts_iff_delivered (st : Stack) (h : read buf 0 f.length = f) :
    Accepts st f ↔ Delivered st buf f.length := by
  constructor
  · intro ha
    have hw := (headerOk_iff h).mp ha.header
    have hlong := hw.long
    have hfits := hw.fits
    refine ⟨hw, (mine_iff h hlong st).mp ha.dst, (byte_eq_iff h (by omega) hdrUdp).mp ha.next, ?_⟩
    exact (udpOk_iff h (by omega)).mpr ⟨ha.min, ha.field, ha.sum, ha.ulen⟩
  · intro hd
    have hlong := hd.frame.long
    have hfits := hd.frame.fits
    obtain ⟨hmin, hfield, hsum, hulen⟩ := (udpOk_iff h (by omega)).mp hd.udp
    exact ⟨(headerOk_iff h).mpr hd.frame, (mine_iff h hlong st).mpr hd.mine,
      (byte_eq_iff h (by omega) hdrUdp).mpr hd.next, hmin, hfield, hsum, hulen⟩

theorem datagram_callOf (h : read buf 0 f.length = f) {st : Stack}
    (hd : Delivered st buf f.length) : (callOf buf).datagram = datagramOf f := by
  have hlong := hd.frame.long
  have hfits := hd.frame.fits
  have hmin := hd.udp.long
  have hmax := hd.udp.max
  have haddr : ∀ a, a + 16 ≤ 54 → arrayAt buf a 16 = arrayAt (ofList f) a 16 := by
    intro a ha
    apply arrayAt_of_read
    rw [arrayAt_toList]
    have hpart := read_part (h.trans (read_ofList f).symm) a 16 (by omega)
    rwa [Nat.zero_add] at hpart
  have hport : ∀ a, a + 1 < f.length → UInt16.ofNat (be16 f a) = swap16 (ld16 buf a) := by
    intro a ha
    rw [be16_eq h ha, UInt16.ofNat_toNat]
  rw [Call.datagram, callOf, datagramOf]
  simp only [haddr 38 (by omega), haddr 22 (by omega), hport 56 (by omega), hport 54 (by omega),
    read_shift, Nat.add_zero]
  rw [be16_eq h (i := 58) (by omega), slice_eq h (by omega)]

end Frame

theorem icmp6Recv_app {σ : Type*} {w w' : World σ} {buf : Mem} {len : Nat}
    (h : icmp6Recv w buf len = some w') : w'.app = w.app := by
  have hsent : ∀ {w : World σ} {r : Option (Netifc.Nic × Int)},
      w.sent r = some w' → w'.app = w.app := by
    intro w r hr
    cases r with
    | none => cases hr
    | some x =>
      cases hr
      rfl
  unfold icmp6Recv at h
  dsimp only at h
  repeat' split at h
  all_goals first | exact hsent h | (cases h; rfl)

theorem ethRecv_app_of_not_delivered {σ : Type*} (recv : Handler σ) {w w' : World σ} {buf : Mem}
    {len : Nat} (hn : ¬ Delivered w.stack buf len) (h : ethRecv recv w buf len = some w') :
    w'.app = w.app := by
  by_cases ha : WellFormed buf len ∧ Mine w.stack buf
  swap
  · rw [ethRecv_dropped recv ha, Option.some.injEq] at h
    rw [← h]
  have hheard : (w.heard buf).app = w.app := rfl
  rw [ethRecv_addressed recv ha.1 ha.2, dispatch] at h
  by_cases hi : buf 20 = hdrIcmp6
  · rw [if_pos hi] at h
    exact (icmp6Recv_app h).trans hheard
  rw [if_neg hi] at h
  by_cases hu : buf 20 = hdrUdp
  · have hno : ¬ UdpOk buf (payloadLen buf) := fun ho => hn ⟨ha.1, ha.2, hu, ho⟩
    rw [if_pos hu, udp6RecvHdr_rejected recv _ hno, Option.some.injEq] at h
    rw [← h, hheard]
  · rw [if_neg hu, Option.some.injEq] at h
    rw [← h, hheard]

/-- **Exact acceptance.**  Whatever lies behind the frame in the receive buffer:
`udp6_recv` is called exactly if the frame is accepted, once and with the datagram in the
frame; a frame whose header is refused changes nothing. -/
theorem ethRecv_accepts (w : World (List Udp6Datagram)) (f : List UInt8) (buf : Mem)
    (hbuf : read buf 0 f.length = f) :
    ((∃ w', ethRecv record w buf f.length = some w' ∧ w'.app ≠ w.app) ↔ Accepts w.stack f) ∧
    (Accepts w.stack f → ∃ w', ethRecv record w buf f.length = some w' ∧
      w'.app = w.app ++ [datagramOf f]) ∧
    (¬ HeaderOk f → ethRecv record w buf f.length = some w) := by
  have hcall : Accepts w.stack f → ∃ w', ethRecv record w buf f.length = some w' ∧
      w'.app = w.app ++ [datagramOf f] := by
    intro ha
    have hd := (accepts_iff_delivered w.stack hbuf).mp ha
    refine ⟨_, ethRecv_delivered record hd, ?_⟩
    rw [← datagram_callOf hbuf hd]
    rfl
  refine ⟨⟨?_, ?_⟩, hcall, ?_⟩
  · rintro ⟨w', hw', hne⟩
    by_contra hn
    rw [accepts_iff_delivered w.stack hbuf] at hn
    exact hne (ethRecv_app_of_not_delivered record hn hw')
  · intro ha
    obtain ⟨w', hw', happ⟩ := hcall ha
    exact ⟨w', hw', by rw [happ]; simp⟩
  · intro hh
    rw [headerOk_iff hbuf] at hh
    exact ethRecv_dropped record fun ha => hh ha.1

/-- The bytes 7, 8 and 9 from port 5000 to port 33330 of the host `02:00:00:00:00:01`, in a frame
with two bytes of padding. -/
def threeBytes : List UInt8 := [
  2, 0, 0, 0, 0, 1, 2, 0, 0, 0, 0, 9, 134, 221, 96, 0, 0, 0, 0, 11, 17, 255, 254, 128, 0, 0,
  0, 0, 0, 0, 0, 0, 0, 0, 0, 0, 0, 9, 254, 128, 0, 0, 0, 0, 0, 0, 0, 0, 0, 255, 254, 0, 0,
  1, 19, 136, 130, 50, 0, 11, 94, 10, 7, 8, 9, 0xAA, 0xAA]

theorem ethRecv_accepts_threeBytes : (datagramOf threeBytes).payload = [7, 8, 9] ∧ ∃ w',
    ethRecv record ⟨ip6Init blank #v[2, 0, 0, 0, 0, 1], oneBlock, []⟩ (ofList threeBytes) 67 =
      some w' ∧ w'.app = [datagramOf threeBytes] := by
  have ha : Accepts (ip6Init blank #v[2, 0, 0, 0, 0, 1]) threeBytes :=
    ⟨⟨by decide, rfl, rfl, rfl, by decide⟩, .inl rfl, rfl, by decide, by decide, by decide,
      by decide⟩
  exact ⟨by decide, (ethRecv_accepts ⟨_, oneBlock, []⟩ threeBytes _ (read_ofList _)).2.1 ha⟩

end Gigaboot.Inet6
