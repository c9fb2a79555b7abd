import Gigaboot.Inet6.Address
import Gigaboot.Lib.OnesComplement

/-!
# The checksum

`checksum` and `ip6_checksum` of `inet6.c`: 16-bit words are loaded in the byte order of
the machine and added up in 32 bits, then the carries are folded.

* `checksum_toNat`: for every length a packet can have, nothing wraps and the result is
  the one's complement sum;
* `sumOk_iff`: the test of the receivers;
* `ip6Checksum_verifies`: the test holds once the checksum is stored.
-/

namespace Gigaboot.Inet6

open ByteMem OnesComplement

/-- `htons` and `ntohs`. -/
def swap16 (n : UInt16) : UInt16 := (n >>> 8) ||| (n <<< 8)

/-- The loop over the data, with `len` bytes to go. -/
def checksumLoop (m : Mem) (a : Nat) : Nat → UInt32 → UInt32
  | 0, sum => sum
  | 1, sum => sum + (ld16 m a &&& 0xFF).toUInt32
  | len + 2, sum => checksumLoop m (a + 2) len (sum + (ld16 m a).toUInt32)

/-- One turn of the loop over the carries. -/
def foldStep (sum : UInt32) : UInt32 := (sum &&& (0xFFFF : UInt32)) + (sum >>> (16 : UInt32))

theorem foldStep_toNat (sum : UInt32) :
    (foldStep sum).toNat = sum.toNat % 65536 + sum.toNat / 65536 := by
  have hlt := sum.toNat_lt
  have hmask : (0xFFFF : UInt32).toNat = 2 ^ 16 - 1 := rfl
  have hshift : (16 : UInt32).toNat % 32 = 16 := rfl
  rw [foldStep, UInt32.toNat_add, UInt32.toNat_and, UInt32.toNat_shiftRight, hmask, hshift,
    Nat.and_two_pow_sub_one_eq_mod, Nat.shiftRight_eq_div_pow]
  omega

/-- The loop over the carries. -/
def foldSum (sum : UInt32) : UInt32 :=
  if 0xFFFF < sum then foldSum (foldStep sum) else sum
termination_by sum.toNat
decreasing_by
  rename_i h
  have h' : 65535 < sum.toNat := UInt32.lt_iff_toNat_lt.mp h
  rw [foldStep_toNat]
  omega

def checksum (m : Mem) (a len : Nat) (sum : UInt16) : UInt16 :=
  (foldSum (checksumLoop m a len sum.toUInt32)).toUInt16

/-- `ip6_checksum` as it is stored: the header is at `ip`, its payload has `length`
bytes. -/
def ip6Checksum (m : Mem) (ip : Nat) (type : UInt16) (length : Nat) : UInt16 :=
  let sum := checksum m (ip + 4) 2 (swap16 type)
  let sum := checksum m (ip + 8) (32 + length) sum
  -- 0 is illegal, so 0xffff remains 0xffff
  if sum ≠ 0xFFFF then ~~~sum else sum

theorem swap16_toNat (n : UInt16) : (swap16 n).toNat = n.toNat / 256 + 256 * (n.toNat % 256) := by
  have hn := n.toNat_lt
  have h8 : (8 : UInt16).toNat % 16 = 8 := rfl
  -- the two bytes do not overlap
  have hlow : n.toNat / 2 ^ 8 < 2 ^ 8 := by omega
  have hhigh : n.toNat * 2 ^ 8 % 2 ^ 16 = 2 ^ 8 * (n.toNat % 256) := by omega
  rw [swap16, UInt16.toNat_or, UInt16.toNat_shiftRight, UInt16.toNat_shiftLeft, h8,
    Nat.shiftRight_eq_div_pow, Nat.shiftLeft_eq, hhigh, Nat.or_comm,
    ← Nat.two_pow_add_eq_or_of_lt hlow]
  omega

theorem swap16_swap16 (n : UInt16) : swap16 (swap16 n) = n := by
  have hn := n.toNat_lt
  apply UInt16.toNat_inj.mp
  rw [swap16_toNat, swap16_toNat]
  omega

theorem swap16_ld16_toNat (m : Mem) (a : Nat) :
    (swap16 (ld16 m a)).toNat = 256 * (m a).toNat + (m (a + 1)).toNat := by
  have h₀ := (m a).toNat_lt
  have h₁ := (m (a + 1)).toNat_lt
  rw [swap16_toNat, ld16_toNat]
  omega

theorem read_succ_succ (m : Mem) (a n : Nat) :
    read m a (n + 2) = m a :: m (a + 1) :: read m (a + 2) n := by
  rw [Nat.add_comm n 2, read_add]
  rfl

theorem checksumLoop_toNat (m : Mem) (a len : Nat) (sum : UInt32)
    (h : sum.toNat + leSum (read m a len) < 2 ^ 32) :
    (checksumLoop m a len sum).toNat = sum.toNat + leSum (read m a len) := by
  induction a, len, sum using checksumLoop.induct m with
  | case1 a sum => simp [checksumLoop, leSum]
  | case2 a sum =>
    rw [read_one, leSum] at h ⊢
    have hbyte : (ld16 m a &&& 0xFF).toUInt32.toNat = (m a).toNat := by
      have h₀ := (m a).toNat_lt
      have hmask : (0xFF : UInt16).toNat = 2 ^ 8 - 1 := rfl
      rw [UInt16.toNat_toUInt32, UInt16.toNat_and, ld16_toNat, hmask,
        Nat.and_two_pow_sub_one_eq_mod]
      omega
    rw [checksumLoop, UInt32.toNat_add, hbyte, Nat.mod_eq_of_lt h]
  | case3 a len sum ih =>
    rw [read_succ_succ, leSum] at h ⊢
    have hsum : (sum + (ld16 m a).toUInt32).toNat =
        sum.toNat + ((m a).toNat + 256 * (m (a + 1)).toNat) := by
      rw [UInt32.toNat_add, UInt16.toNat_toUInt32, ld16_toNat, Nat.mod_eq_of_lt (by omega)]
    rw [checksumLoop, ih (by rw [hsum]; omega), hsum]
    omega

theorem foldSum_toNat (sum : UInt32) : (foldSum sum).toNat = endAround sum.toNat := by
  induction sum using foldSum.induct with
  | case1 sum h ih => rw [foldSum, if_pos h, ih, foldStep_toNat, endAround_fold]
  | case2 sum h =>
    have h' : sum.toNat ≤ 65535 := UInt32.le_iff_toNat_le.mp (UInt32.not_lt.mp h)
    rw [foldSum, if_neg h, endAround_of_le h']

/-- **The checksum is the one's complement sum.**  Nothing wraps for the lengths a packet
can have. -/
theorem checksum_toNat (m : Mem) (a len : Nat) (sum : UInt16) (h : len ≤ 65567) :
    (checksum m a len sum).toNat = endAround (sum.toNat + leSum (read m a len)) := by
  have hs := sum.toNat_lt
  have hle := leSum_le (read m a len)
  rw [read_length] at hle
  have hloop := checksumLoop_toNat m a len sum.toUInt32 (by rw [UInt16.toNat_toUInt32]; omega)
  rw [UInt16.toNat_toUInt32] at hloop
  have hnorm := endAround_le (sum.toNat + leSum (read m a len))
  rw [checksum, UInt32.toNat_toUInt16, foldSum_toNat, hloop, Nat.mod_eq_of_lt (by omega)]

/-- The sum over the pseudo-header and the payload, before its carries are folded. -/
def pseudoSum (m : Mem) (ip : Nat) (type : UInt16) (length : Nat) : Nat :=
  (swap16 type).toNat + leSum (read m (ip + 4) 2) + leSum (read m (ip + 8) (32 + length))

/-- The two calls of `checksum` in `ip6_checksum` and in the receivers. -/
theorem checksum_pseudo (m : Mem) (ip : Nat) (type : UInt16) (length : Nat)
    (h : length ≤ 65535) :
    (checksum m (ip + 8) (32 + length) (checksum m (ip + 4) 2 (swap16 type))).toNat =
      endAround (pseudoSum m ip type length) := by
  rw [checksum_toNat _ _ _ _ (by omega), checksum_toNat _ _ _ _ (by omega), endAround_add]
  rfl

theorem ip6Checksum_toNat (m : Mem) (ip : Nat) (type : UInt16) (length : Nat)
    (h : length ≤ 65535) :
    (ip6Checksum m ip type length).toNat =
      if endAround (pseudoSum m ip type length) = 65535 then 65535
      else 65535 - endAround (pseudoSum m ip type length) := by
  have hsum := checksum_pseudo m ip type length h
  unfold ip6Checksum
  dsimp only
  generalize checksum m (ip + 8) (32 + length) (checksum m (ip + 4) 2 (swap16 type)) = sum at hsum
  rw [← hsum]
  by_cases hs : sum = 0xFFFF
  · rw [if_neg (not_not_intro hs), hs]
    rfl
  · have hne : sum.toNat ≠ 65535 := fun h => hs (UInt16.toNat_inj.mp h)
    rw [if_pos hs, if_neg hne, UInt16.toNat_not]
    rfl

/-- The test of the receivers, after the checksum field was looked at. -/
def sumOk (m : Mem) (ip : Nat) (type : UInt16) (len : Nat) : Prop :=
  checksum m (ip + 8) (32 + len) (checksum m (ip + 4) 2 (swap16 type)) = 0xFFFF

instance (m : Mem) (ip : Nat) (type : UInt16) (len : Nat) : Decidable (sumOk m ip type len) :=
  inferInstanceAs (Decidable (_ = _))

theorem sumOk_iff_endAround (m : Mem) (ip : Nat) (type : UInt16) (len : Nat)
    (hlen : len ≤ 65535) :
    sumOk m ip type len ↔ endAround (pseudoSum m ip type len) = 65535 := by
  rw [← checksum_pseudo m ip type len hlen]
  exact UInt16.toNat_inj.symm

/-- The protocol number is part of the sum, so the sum is never 0. -/
theorem sumOk_iff (m : Mem) (ip : Nat) {type : UInt16} (len : Nat) (hlen : len ≤ 65535)
    (htype : swap16 type ≠ 0) :
    sumOk m ip type len ↔ pseudoSum m ip type len % 65535 = 0 := by
  rw [sumOk_iff_endAround m ip type len hlen, endAround_eq_max_iff]
  have hpos : (swap16 type).toNat ≠ 0 := fun h => htype (UInt16.toNat_inj.mp h)
  have hsum : pseudoSum m ip type len ≠ 0 := by
    unfold pseudoSum
    omega
  exact and_iff_right hsum

theorem pseudoSum_congr {m m' : Mem} {ip ip' : Nat} (type : UInt16) {len : Nat}
    (h₁ : read m (ip + 4) 2 = read m' (ip' + 4) 2)
    (h₂ : read m (ip + 8) (32 + len) = read m' (ip' + 8) (32 + len)) :
    pseudoSum m ip type len = pseudoSum m' ip' type len := by
  rw [pseudoSum, pseudoSum, h₁, h₂]

/-- The checksum field counts like any other word at an even offset. -/
theorem pseudoSum_field (m : Mem) (ip : Nat) {k len : Nat} (type : UInt16) (hk : k % 2 = 0)
    (hlen : k + 2 ≤ len) :
    pseudoSum m ip type len =
      pseudoSum (write m (ip + 40 + k) (bytes16 0)) ip type len + (ld16 m (ip + 40 + k)).toNat := by
  -- the words before the field, the field, the words after it
  have hparts : ∀ m : Mem, leSum (read m (ip + 8) (32 + len)) =
      leSum (read m (ip + 8) (32 + k)) + (leSum (read m (ip + 40 + k) 2) +
        leSum (read m (ip + 40 + k + 2) (len - k - 2))) := by
    intro m
    have hsplit : 32 + len = (32 + k) + (2 + (len - k - 2)) := by omega
    have hat : ip + 8 + (32 + k) = ip + 40 + k := by omega
    rw [hsplit, read_add m (ip + 8) (32 + k), hat, read_add m (ip + 40 + k) 2,
      leSum_append _ (by rw [read_length]; omega), leSum_append _ (by rw [read_length])]
  have hzero : leSum (bytes16 0) = 0 := rfl
  have hword : leSum (read m (ip + 40 + k) 2) = (ld16 m (ip + 40 + k)).toNat := by
    rw [ld16_toNat, read_two]
    rfl
  unfold pseudoSum
  rw [hparts, hparts, read_write_disjoint _ _ _ _ _ (.inl (by omega)),
    read_write_disjoint _ _ _ _ _ (.inl (by omega)),
    read_write_self m (ip + 40 + k) 2 (bytes16 0) rfl,
    read_write_disjoint _ _ _ _ _ (.inr (by simp only [bytes16_length]; omega)), hzero, hword]
  omega

/-- **A checksum verifies.**  `m` is the packet with a zero checksum field, `m'` the
packet as it was sent.  The field of `m'` is not 0, and after a field `0xFFFF` is read
as 0 again the packet passes the test of the receivers. -/
theorem ip6Checksum_verifies {m m' : Mem} {ip ip' k len : Nat} {type : UInt16} (hk : k % 2 = 0)
    (hlen : k + 2 ≤ len) (hmax : len ≤ 65535) (htype : swap16 type ≠ 0)
    (hfield : ld16 m' (ip' + 40 + k) = ip6Checksum m ip type len)
    (hsame : pseudoSum (write m' (ip' + 40 + k) (bytes16 0)) ip' type len =
      pseudoSum m ip type len) :
    ld16 m' (ip' + 40 + k) ≠ 0 ∧
    sumOk (if ld16 m' (ip' + 40 + k) = 0xFFFF then write m' (ip' + 40 + k) (bytes16 0) else m')
      ip' type len := by
  have hc := ip6Checksum_toNat m ip type len hmax
  have hle := endAround_le (pseudoSum m ip type len)
  have hpos : (swap16 type).toNat ≠ 0 := fun h => htype (UInt16.toNat_inj.mp h)
  have hnorm : endAround (pseudoSum m ip type len) ≠ 0 := by
    unfold endAround pseudoSum
    split <;> omega
  rw [← hfield] at hc
  by_cases hs : endAround (pseudoSum m ip type len) = 65535
  · rw [if_pos hs] at hc
    have hmax' : ld16 m' (ip' + 40 + k) = 0xFFFF := UInt16.toNat_inj.mp hc
    refine ⟨by rw [hmax']; decide, ?_⟩
    rw [if_pos hmax', sumOk_iff_endAround _ _ _ _ hmax, hsame, hs]
  · rw [if_neg hs] at hc
    have hne : ld16 m' (ip' + 40 + k) ≠ 0xFFFF := by
      intro h
      rw [h] at hc
      have : (0xFFFF : UInt16).toNat = 65535 := rfl
      omega
    refine ⟨fun h => ?_, ?_⟩
    · rw [h] at hc
      have : (0 : UInt16).toNat = 0 := rfl
      omega
    · rw [if_neg hne, sumOk_iff_endAround _ _ _ _ hmax, pseudoSum_field _ _ type hk hlen, hsame, hc]
      exact endAround_add_compl _

end Gigaboot.Inet6
