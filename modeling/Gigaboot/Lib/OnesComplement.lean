import Mathlib.Data.Nat.ModEq

/-!
# One's complement sums

The 16-bit one's complement sum of a byte string, as Internet checksums use it.  A sum
of 16-bit words is folded, the carry added back in, until it fits 16 bits; what is left
is a representative of the sum modulo 65535, and 0 only for the sum 0.

* `endAround`, `endAround_fold`: what folding arrives at;
* `leSum`, `beSum`: the sums of the little-endian and big-endian words;
* `endAround_swapped`: the other byte order swaps the bytes of the sum;
* `sum16_eq`: adding word by word comes to the same.
-/

namespace OnesComplement

/-- The value that folding the carries of `t` arrives at. -/
def endAround (t : Nat) : Nat := if t = 0 then 0 else (t - 1) % 65535 + 1

theorem endAround_le (t : Nat) : endAround t ≤ 65535 := by
  unfold endAround
  split <;> omega

theorem endAround_of_le {t : Nat} (h : t ≤ 65535) : endAround t = t := by
  unfold endAround
  split <;> omega

theorem endAround_fold (t : Nat) : endAround (t % 65536 + t / 65536) = endAround t := by
  unfold endAround
  split <;> split <;> omega

theorem endAround_add (s t : Nat) : endAround (endAround s + t) = endAround (s + t) := by
  unfold endAround
  split <;> split <;> split <;> omega

/-- The sum of everything with its own checksum is `0xFFFF`, the other zero. -/
theorem endAround_eq_max_iff (t : Nat) : endAround t = 65535 ↔ t ≠ 0 ∧ t % 65535 = 0 := by
  unfold endAround
  split <;> omega

theorem endAround_add_compl (t : Nat) :
    endAround (t + (65535 - endAround t)) = 65535 := by
  have hle := endAround_le t
  rw [← endAround_add, Nat.add_sub_cancel' hle]
  decide

/-! ## Sums of byte strings -/

/-- The sum of the little-endian words; an odd last byte is padded with a zero. -/
def leSum : List UInt8 → Nat
  | [] => 0
  | [x] => x.toNat
  | x :: y :: rest => x.toNat + 256 * y.toNat + leSum rest

/-- The sum of the big-endian words; an odd last byte is padded with a zero. -/
def beSum : List UInt8 → Nat
  | [] => 0
  | [x] => 256 * x.toNat
  | x :: y :: rest => 256 * x.toNat + y.toNat + beSum rest

theorem leSum_le (l : List UInt8) : leSum l ≤ 65535 * ((l.length + 1) / 2) := by
  induction l using leSum.induct with
  | case1 => simp [leSum]
  | case2 x =>
    have hx := x.toNat_lt
    simp only [leSum, List.length_singleton]
    omega
  | case3 x y rest ih =>
    have hx := x.toNat_lt
    have hy := y.toNat_lt
    simp only [leSum, List.length_cons]
    omega

theorem leSum_append {xs : List UInt8} (ys : List UInt8) (h : xs.length % 2 = 0) :
    leSum (xs ++ ys) = leSum xs + leSum ys := by
  induction xs using leSum.induct with
  | case1 => simp [leSum]
  | case2 x => simp at h
  | case3 x y rest ih =>
    simp only [List.cons_append, leSum]
    rw [ih (by simp only [List.length_cons] at h; omega)]
    omega

theorem beSum_append {xs : List UInt8} (ys : List UInt8) (h : xs.length % 2 = 0) :
    beSum (xs ++ ys) = beSum xs + beSum ys := by
  induction xs using beSum.induct with
  | case1 => simp [beSum]
  | case2 x => simp at h
  | case3 x y rest ih =>
    simp only [List.cons_append, beSum]
    rw [ih (by simp only [List.length_cons] at h; omega)]
    omega

/-- Swapping the bytes of every word multiplies the sum by 256. -/
theorem beSum_modEq (l : List UInt8) : beSum l ≡ 256 * leSum l [MOD 65535] := by
  induction l using leSum.induct with
  | case1 => exact .rfl
  | case2 x => exact .rfl
  | case3 x y rest ih =>
    simp only [beSum, leSum]
    unfold Nat.ModEq at *
    omega

theorem beSum_eq_zero_iff (l : List UInt8) : beSum l = 0 ↔ leSum l = 0 := by
  induction l using leSum.induct with
  | case1 => exact Iff.rfl
  | case2 x =>
    simp only [beSum, leSum]
    omega
  | case3 x y rest ih =>
    simp only [beSum, leSum]
    omega

/-- The value that folding arrives at is the only one in its class, but for the two zeros. -/
theorem endAround_eq_of_modEq {t y : Nat} (ht : t ≠ 0) (hy : y ≠ 0) (hle : y ≤ 65535)
    (h : t ≡ y [MOD 65535]) : endAround t = y := by
  unfold Nat.ModEq at h
  rw [endAround, if_neg ht]
  omega

theorem endAround_modEq (t : Nat) : endAround t ≡ t [MOD 65535] := by
  unfold Nat.ModEq endAround
  split <;> omega

/-- **Byte order.**  Reading the words in the other byte order swaps the bytes of the sum. -/
theorem endAround_swapped {s t : Nat} (h : t ≡ 256 * s [MOD 65535]) (h₀ : t = 0 ↔ s = 0) :
    endAround t = endAround s / 256 + 256 * (endAround s % 256) := by
  have hle := endAround_le s
  have hmod := endAround_modEq s
  by_cases hs : s = 0
  · rw [hs, h₀.mpr hs]
    rfl
  · have hpos : endAround s ≠ 0 := by
      rw [endAround, if_neg hs]
      omega
    refine endAround_eq_of_modEq (fun ht => hs (h₀.mp ht)) (by omega) (by omega) ?_
    calc t ≡ 256 * s [MOD 65535] := h
      _ ≡ 256 * endAround s [MOD 65535] := (hmod.mul_left 256).symm
      _ ≡ endAround s / 256 + 256 * (endAround s % 256) [MOD 65535] := by
        unfold Nat.ModEq
        omega

/-- Whether a sum comes out as `0xFFFF` does not depend on the order in which the bytes of
its words are read. -/
theorem endAround_swapped_iff {s t : Nat} (h : t ≡ 256 * s [MOD 65535]) (h₀ : t = 0 ↔ s = 0) :
    endAround t = 65535 ↔ endAround s = 65535 := by
  have hle := endAround_le s
  rw [endAround_swapped h h₀]
  omega

/-! ## Word by word -/

/-- One's complement addition of two words: a carry comes back in at the other end. -/
def add16 (a b : Nat) : Nat := (a + b) % 65536 + (a + b) / 65536

/-- The one's complement sum of the big-endian words of a byte string. -/
def sum16 : List UInt8 → Nat
  | [] => 0
  | [x] => 256 * x.toNat
  | x :: y :: rest => add16 (256 * x.toNat + y.toNat) (sum16 rest)

theorem add16_eq {a b : Nat} (ha : a ≤ 65535) (hb : b ≤ 65535) : add16 a b = endAround (a + b) := by
  rw [← endAround_fold, endAround_of_le (by omega)]
  rfl

/-- The carries can as well be folded at the end. -/
theorem sum16_eq (l : List UInt8) : sum16 l = endAround (beSum l) := by
  induction l using sum16.induct with
  | case1 => rfl
  | case2 x =>
    have hx := x.toNat_lt
    rw [sum16, beSum, endAround_of_le (by omega)]
  | case3 x y rest ih =>
    have hx := x.toNat_lt
    have hy := y.toNat_lt
    rw [sum16, beSum, ih, add16_eq (by omega) (endAround_le _), Nat.add_comm, endAround_add,
      Nat.add_comm]

end OnesComplement
