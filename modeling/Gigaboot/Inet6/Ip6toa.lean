import Gigaboot.Lib.ByteMem
import Gigaboot.Lib.HexText

/-!
# Addresses as text

`ip6toa` of `inet6.c`, loop by loop.  Where `x` points to is told by the number of groups
from there to the end of the address, and `n` is always the group at `x`; with no groups left
that is made of the two bytes behind the address.

* `headGroups_cases`: the groups up to the first zeros, and what follows them;
* `ip6toa_cases`: the text is all groups, or has a double colon in the place of zeros;
* `ip6toa_roundtrip`: it fits into its buffer, reads back as the address, and is not the text
  of another one.
-/

namespace Gigaboot.Inet6

open ByteMem HexText

/-- The size of a buffer for the text, with its terminator. -/
def ip6toaMax : Nat := 40

/-- `(x[0] << 8) | x[1]`. -/
def wordAt (m : Mem) (x : Nat) : UInt16 := (m x).toUInt16 <<< 8 ||| (m (x + 1)).toUInt16

/-- The variable `n` with `k` groups left: `x` is at `end - 2 * k`. -/
def group (m : Mem) (k : Nat) : UInt16 := wordAt m (16 - 2 * k)

/-- `while ((n == 0) && (x < end))`: the number of groups left after it. -/
def skipZeros (m : Mem) : Nat → Nat
  | 0 => 0
  | k + 1 => if group m (k + 1) = 0 then skipZeros m k else k + 1

/-- `while (x < end)`, with a colon before each group. -/
def colonGroups (m : Mem) : Nat → List Char
  | 0 => []
  | k + 1 => ':' :: hex (group m (k + 1)) ++ colonGroups m k

/-- From the label `middle_zeros` on. -/
def middleZeros (m : Mem) (k : Nat) : List Char :=
  if skipZeros m k = 0 then [':'] else colonGroups m (skipZeros m k)

/-- `while (x < (end - 2))`, with a colon after each group, and what comes after it. -/
def headGroups (m : Mem) : Nat → List Char
  | 0 => hex (group m 0)
  | 1 => hex (group m 1)
  | k + 2 =>
    hex (group m (k + 2)) ++ ':' ::
      (if group m (k + 1) = 0 then middleZeros m (k + 1) else headGroups m (k + 1))

/-- The text that `ip6toa` writes for the address at `m`, without its terminator. -/
def ip6toa (m : Mem) : List Char :=
  let k := skipZeros m 8
  if 2 * k < 16 then
    -- all 0s - special case
    if k = 0 then [':', ':']
    -- we consumed some number of leading 0s
    else ':' :: colonGroups m k
  else headGroups m 8

/-! ## The groups of an address -/

def groups (m : Mem) : Nat → List UInt16
  | 0 => []
  | k + 1 => group m (k + 1) :: groups m k

@[simp] theorem groups_length (m : Mem) (k : Nat) : (groups m k).length = k := by
  induction k with
  | zero => rfl
  | succ k ih => rw [groups, List.length_cons, ih]

theorem groups_ne_nil (m : Mem) {k : Nat} (h : k ≠ 0) : groups m k ≠ [] := by
  intro hnil
  have hlen := groups_length m k
  rw [hnil] at hlen
  exact h hlen.symm

theorem colonGroups_eq (m : Mem) (k : Nat) :
    colonGroups m k = (groups m k).flatMap fun g => ':' :: hex g := by
  induction k with
  | zero => rfl
  | succ k ih => rw [colonGroups, groups, List.flatMap_cons, ih]

/-- The groups that the loop passes over are zero. -/
theorem skipZeros_spec (m : Mem) (k : Nat) :
    ∃ z, k = z + skipZeros m k ∧
      groups m k = List.replicate z 0 ++ groups m (skipZeros m k) := by
  induction k with
  | zero => exact ⟨0, rfl, rfl⟩
  | succ k ih =>
    rw [skipZeros]
    by_cases h : group m (k + 1) = 0
    · obtain ⟨z, hz, hg⟩ := ih
      rw [if_pos h]
      refine ⟨z + 1, by omega, ?_⟩
      rw [groups, h, hg, List.replicate_succ, List.cons_append]
    · rw [if_neg h]
      exact ⟨0, (Nat.zero_add _).symm, rfl⟩

/-! ## The text -/

/-- What is written from zeros inside the address on: a colon, and the rest joined. -/
theorem middleZeros_eq (m : Mem) (k : Nat) :
    middleZeros m k = ':' :: joined (groups m (skipZeros m k)) := by
  unfold middleZeros
  by_cases h : skipZeros m k = 0
  · rw [if_pos h, h]
    rfl
  · rw [if_neg h, colonGroups_eq, flatMap_colon (groups_ne_nil m h)]

/-- A text of `gs`: all of them joined, or with a double colon for some that are zero. -/
inductive TextOf (gs : List UInt16) : List Char → Prop
  | full : TextOf gs (joined gs)
  | elided (before after : List UInt16) (z : Nat) : 0 < z →
      gs = before ++ List.replicate z 0 ++ after →
      TextOf gs (joined before ++ ':' :: ':' :: joined after)

/-- The loop over the first groups.  The induction is on the groups that are left; the double
colon is found by the loop that gets to the first zero. -/
theorem headGroups_cases (m : Mem) (k : Nat) :
    headGroups m (k + 1) = joined (groups m (k + 1)) ∨
    ∃ before after z, before ≠ [] ∧ 0 < z ∧
      groups m (k + 1) = before ++ List.replicate z 0 ++ after ∧
      headGroups m (k + 1) = joined before ++ ':' :: ':' :: joined after := by
  induction k with
  | zero => exact .inl (joined_singleton _).symm
  | succ k ih =>
    rw [headGroups, groups]
    by_cases h : group m (k + 1) = 0
    · right
      obtain ⟨z, hz, hg⟩ := skipZeros_spec m (k + 1)
      have hpos : 0 < z := by
        have hle : skipZeros m (k + 1) ≤ k := by
          obtain ⟨z', hz', -⟩ := skipZeros_spec m k
          rw [skipZeros, if_pos h]
          omega
        omega
      refine ⟨[group m (k + 2)], groups m (skipZeros m (k + 1)), z, by nofun, hpos, ?_, ?_⟩
      · rw [hg]
        rfl
      · rw [if_pos h, middleZeros_eq, joined_singleton]
    · rw [if_neg h]
      rcases ih with hfull | ⟨before, after, z, hne, hz, hg, htext⟩
      · left
        rw [hfull, joined_cons _ (groups_ne_nil m (Nat.succ_ne_zero k))]
      · right
        refine ⟨group m (k + 2) :: before, after, z, by nofun, hz, ?_, ?_⟩
        · rw [hg]
          rfl
        · rw [htext, joined_cons _ hne, List.append_assoc]
          rfl

theorem ip6toa_cases (m : Mem) : TextOf (groups m 8) (ip6toa m) := by
  obtain ⟨z, hz, hg⟩ := skipZeros_spec m 8
  unfold ip6toa
  dsimp only
  by_cases hlead : 2 * skipZeros m 8 < 16
  · have hpos : 0 < z := by omega
    have htext := TextOf.elided [] (groups m (skipZeros m 8)) z hpos hg
    rw [if_pos hlead]
    by_cases hall : skipZeros m 8 = 0
    · rw [if_pos hall]
      rw [hall] at htext
      exact htext
    · rw [if_neg hall, colonGroups_eq, flatMap_colon (groups_ne_nil m hall)]
      exact htext
  · rw [if_neg hlead]
    rcases headGroups_cases m 7 with hfull | ⟨before, after, z', -, hz', hg', htext⟩
    · rw [hfull]
      exact .full
    · rw [htext]
      exact .elided before after z' hz' hg'

theorem TextOf.parse {gs : List UInt16} {text : List Char} (h : TextOf gs text) :
    parseElided gs.length text = some gs := by
  cases h with
  | full => exact parseElided_joined gs
  | elided before after z hz hgs =>
    rw [hgs, List.length_append, List.length_append, List.length_replicate]
    exact parseElided_elided before after hz

/-- At most five characters a group, less the colon that the last one does not have. -/
theorem TextOf.length_lt {gs : List UInt16} {text : List Char} (h : TextOf gs text)
    (hne : gs ≠ []) : text.length < 5 * gs.length := by
  cases h with
  | full => exact joined_length_lt hne
  | elided before after z hz hgs =>
    have hb := joined_length_le before
    have ha := joined_length_le after
    rw [hgs]
    simp only [List.length_append, List.length_cons, List.length_replicate]
    omega

/-! ## The address -/

def groupBytes (g : UInt16) : List UInt8 := [(g >>> 8).toUInt8, g.toUInt8]

/-- An address in text form: eight groups, of which a double colon may stand for some that are
zero. -/
def parseIp6 (text : List Char) : Option (List UInt8) :=
  (parseElided 8 text).map fun gs => gs.flatMap groupBytes

theorem wordAt_toNat (m : Mem) (x : Nat) :
    (wordAt m x).toNat = 256 * (m x).toNat + (m (x + 1)).toNat := by
  have h₀ := (m x).toNat_lt
  have h₁ := (m (x + 1)).toNat_lt
  have h8 : (8 : UInt16).toNat % 16 = 8 := rfl
  have hshift : (m x).toNat <<< 8 % 2 ^ 16 = 2 ^ 8 * (m x).toNat := by
    rw [Nat.shiftLeft_eq, Nat.mul_comm, Nat.mod_eq_of_lt (by omega)]
  rw [wordAt, UInt16.toNat_or, UInt16.toNat_shiftLeft, UInt8.toNat_toUInt16,
    UInt8.toNat_toUInt16, h8, hshift, ← Nat.two_pow_add_eq_or_of_lt h₁]

theorem groupBytes_wordAt (m : Mem) (x : Nat) : groupBytes (wordAt m x) = [m x, m (x + 1)] := by
  have h₀ := (m x).toNat_lt
  have h₁ := (m (x + 1)).toNat_lt
  have h8 : (8 : UInt16).toNat % 16 = 8 := rfl
  have hhigh : (wordAt m x >>> 8).toUInt8 = m x := by
    apply UInt8.toNat_inj.mp
    rw [UInt16.toNat_toUInt8, UInt16.toNat_shiftRight, h8, Nat.shiftRight_eq_div_pow, wordAt_toNat]
    omega
  have hlow : (wordAt m x).toUInt8 = m (x + 1) := by
    apply UInt8.toNat_inj.mp
    rw [UInt16.toNat_toUInt8, wordAt_toNat]
    omega
  rw [groupBytes, hhigh, hlow]

theorem flatMap_groups (m : Mem) {k : Nat} (hk : k ≤ 8) :
    (groups m k).flatMap groupBytes = read m (16 - 2 * k) (2 * k) := by
  induction k with
  | zero => rfl
  | succ k ih =>
    have hlen : 2 * (k + 1) = 2 + 2 * k := by omega
    have hnext : 16 - 2 * (k + 1) + 2 = 16 - 2 * k := by omega
    rw [groups, List.flatMap_cons, ih (by omega), group, groupBytes_wordAt, hlen, read_add,
      read_two, ← hlen, hnext]

/-- The text of the address at `m` reads back as its 16 bytes. -/
theorem parseIp6_ip6toa (m : Mem) : parseIp6 (ip6toa m) = some (read m 0 16) := by
  have hparse := (ip6toa_cases m).parse
  rw [groups_length] at hparse
  rw [parseIp6, hparse, Option.map_some, flatMap_groups m (Nat.le_refl 8)]

/-- **The text form of an address**: whatever follows it in memory, the text and its
terminator fit into the buffer, it reads back as the address, and no other address has the
same text. -/
theorem ip6toa_roundtrip (m : Mem) :
    (ip6toa m).length + 1 ≤ ip6toaMax ∧
    parseIp6 (ip6toa m) = some (read m 0 16) ∧
    ∀ m', ip6toa m' = ip6toa m → read m' 0 16 = read m 0 16 := by
  have hlen := (ip6toa_cases m).length_lt (groups_ne_nil m (by decide))
  rw [groups_length] at hlen
  refine ⟨hlen, parseIp6_ip6toa m, fun m' htext => ?_⟩
  have hparse := parseIp6_ip6toa m'
  rw [htext, parseIp6_ip6toa m] at hparse
  exact (Option.some.inj hparse).symm

end Gigaboot.Inet6
