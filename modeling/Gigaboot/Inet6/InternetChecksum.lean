import Gigaboot.Inet6.Checksum

/-!
# The Internet checksum

The Internet checksum is defined over big-endian words, for IPv6 with a pseudo-header in
front of the payload.  `ip6_checksum` adds little-endian words, the type with its bytes
swapped and the 16-bit length out of the header, and folds the carries twice.

* `pseudoSum_eq_leSum`: what the code adds up is the pseudo-header and the payload;
* `checksumLoop_exact`, `foldSum_turns`: the accumulator is exact and the loop over the
  carries short;
* `ip6Checksum_internet`: what is stored is the Internet checksum.
-/

namespace Gigaboot.Inet6

open ByteMem OnesComplement

def be32 (n : Nat) : List UInt8 :=
  [UInt8.ofNat (n / 2 ^ 24), UInt8.ofNat (n / 2 ^ 16), UInt8.ofNat (n / 2 ^ 8), UInt8.ofNat n]

/-- The pseudo-header of IPv6: the addresses, the length, three zero bytes and the next
header. -/
def pseudoHeader (src dst : Ip6Addr) (length : Nat) (next : UInt8) : List UInt8 :=
  src.toList ++ dst.toList ++ be32 length ++ [0, 0, 0, next]

/-- The complement of the sum, with 0 replaced by `0xFFFF`. -/
def internetChecksum (bytes : List UInt8) : Nat :=
  if 65535 - sum16 bytes = 0 then 65535 else 65535 - sum16 bytes

def summed (m : Mem) (ip : Nat) (next : UInt8) (length : Nat) : List UInt8 :=
  pseudoHeader (arrayAt m (ip + 8) 16) (arrayAt m (ip + 24) 16) length next ++
    read m (ip + 40) length

/-- The length in the pseudo-header has the bytes of the length field, after two zeros. -/
theorem leSum_be32 {n : Nat} (h : n ≤ 65535) :
    leSum (be32 n) = (swap16 (UInt16.ofNat n)).toNat := by
  rw [swap16_toNat, UInt16.toNat_ofNat', Nat.mod_eq_of_lt (by omega)]
  simp only [be32, leSum, UInt8.toNat_ofNat']
  omega

theorem pseudoSum_eq_leSum {m : Mem} {ip length : Nat} (next : UInt8) (hmax : length ≤ 65535)
    (hlen : ld16 m (ip + 4) = swap16 (UInt16.ofNat length)) :
    pseudoSum m ip next.toUInt16 length = leSum (summed m ip next length) := by
  have hfield : leSum (read m (ip + 4) 2) = leSum (be32 length) := by
    rw [leSum_be32 hmax, ← hlen, ld16_toNat, read_two]
    rfl
  have hnext : (swap16 next.toUInt16).toNat = leSum [0, 0, 0, next] := by
    have ht := next.toNat_lt
    rw [swap16_toNat, UInt8.toNat_toUInt16]
    simp only [leSum]
    have h₀ : (0 : UInt8).toNat = 0 := rfl
    omega
  have haddrs : leSum (read m (ip + 8) (32 + length)) =
      leSum (read m (ip + 8) 32) + leSum (read m (ip + 40) length) := by
    rw [read_add, leSum_append _ (by rw [read_length])]
  have hsplit : read m (ip + 8) 32 =
      (arrayAt m (ip + 8) 16).toList ++ (arrayAt m (ip + 24) 16).toList := by
    rw [arrayAt_toList, arrayAt_toList]
    exact read_add m (ip + 8) 16 16
  have heven : (pseudoHeader (arrayAt m (ip + 8) 16) (arrayAt m (ip + 24) 16) length next).length
      % 2 = 0 := by
    simp [pseudoHeader, be32]
  have hhead : leSum (pseudoHeader (arrayAt m (ip + 8) 16) (arrayAt m (ip + 24) 16) length next) =
      leSum ((arrayAt m (ip + 8) 16).toList ++ (arrayAt m (ip + 24) 16).toList) +
        leSum (be32 length) + leSum [0, 0, 0, next] := by
    rw [pseudoHeader, leSum_append _ (by simp [be32]), leSum_append _ (by simp)]
  rw [pseudoSum, summed, hfield, hnext, haddrs, hsplit, leSum_append _ heven, hhead]
  omega

/-- The accumulator of the loop, at any point of it. -/
theorem checksumLoop_exact (m : Mem) (a : Nat) {k : Nat} (hk : k ≤ 65567) (s : UInt16) :
    (checksumLoop m a k s.toUInt32).toNat = s.toNat + leSum (read m a k) := by
  have hs := s.toNat_lt
  have hle := leSum_le (read m a k)
  rw [read_length] at hle
  rw [checksumLoop_toNat, UInt16.toNat_toUInt32]
  rw [UInt16.toNat_toUInt32]
  omega

/-- Two turns of the loop over the carries are enough. -/
theorem foldSum_turns (s : UInt32) :
    foldSum s ≤ 0xFFFF ∧
      (foldSum s = s ∨ foldSum s = foldStep s ∨ foldSum s = foldStep (foldStep s)) := by
  have hs := s.toNat_lt
  have htwice : ¬ 0xFFFF < foldStep (foldStep s) := by
    rw [UInt32.lt_iff_toNat_lt, foldStep_toNat, foldStep_toNat]
    show ¬ 65535 < _
    omega
  have hle : foldSum s ≤ 0xFFFF := by
    rw [UInt32.le_iff_toNat_le, foldSum_toNat]
    exact endAround_le _
  refine ⟨hle, ?_⟩
  by_cases h₁ : 0xFFFF < s
  swap
  · exact .inl (by rw [foldSum, if_neg h₁])
  by_cases h₂ : 0xFFFF < foldStep s
  swap
  · exact .inr (.inl (by rw [foldSum, if_pos h₁, foldSum, if_neg h₂]))
  · exact .inr (.inr (by rw [foldSum, if_pos h₁, foldSum, if_pos h₂, foldSum, if_neg htwice]))

theorem beSum_bytes16 (c : UInt16) : beSum (bytes16 c) = c.toNat / 256 + 256 * (c.toNat % 256) := by
  have hc := c.toNat_lt
  simp only [bytes16, beSum, UInt8.toNat_ofNat']
  omega

/-- **`ip6_checksum` computes the Internet checksum.**  For a packet whose header holds the
length of its payload, the two bytes that are stored are, in network order, the complement
of the one's complement sum of the pseudo-header and the payload, with 0 replaced by
`0xFFFF`.  The accumulator is exact at every point, and the carries are folded in at most
two turns. -/
theorem ip6Checksum_internet {m : Mem} {ip length : Nat} (next : UInt8) (hmax : length ≤ 65535)
    (hlen : ld16 m (ip + 4) = swap16 (UInt16.ofNat length)) :
    beSum (bytes16 (ip6Checksum m ip next.toUInt16 length)) =
      internetChecksum (summed m ip next length) ∧
    (∀ a k (s : UInt16), k ≤ 32 + length →
      (checksumLoop m a k s.toUInt32).toNat = s.toNat + leSum (read m a k)) ∧
    (∀ s, foldSum s ≤ 0xFFFF ∧
      (foldSum s = s ∨ foldSum s = foldStep s ∨ foldSum s = foldStep (foldStep s))) := by
  refine ⟨?_, fun a k s hk => checksumLoop_exact m a (by omega) s, foldSum_turns⟩
  have hsum := pseudoSum_eq_leSum next hmax hlen
  have hswap := endAround_swapped (beSum_modEq (summed m ip next length))
    (beSum_eq_zero_iff (summed m ip next length))
  have hle := endAround_le (leSum (summed m ip next length))
  rw [beSum_bytes16, ip6Checksum_toNat _ _ _ _ hmax, hsum, internetChecksum, sum16_eq, hswap]
  generalize endAround (leSum (summed m ip next length)) = x at hle
  split <;> split <;> omega

/-- A packet of three bytes, all other bytes 7. -/
def sevens : Mem := write (fun _ => 7) 4 (bytes16 (swap16 3))

theorem ip6Checksum_internet_sevens :
    beSum (bytes16 (ip6Checksum sevens 0 58 3)) = internetChecksum (summed sevens 0 58 3) := by
  have hlen : ld16 sevens (0 + 4) = swap16 (UInt16.ofNat 3) := by decide
  exact (ip6Checksum_internet 58 (by decide) hlen).1

end Gigaboot.Inet6
