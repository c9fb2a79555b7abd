import Gigaboot.Lib.Digits

/-!
# Numbers of `printf`

The conversions of `lk/src/printf.c` from numbers to text.  Each of them fills `num_buffer`
from its end or from its start; a store in front of the buffer makes the model fail.

* `decimalLoop_eq`, `hexLoop_eq`: the loops write the digits of the number;
* `longlongToString_eq`, `longlongToHexstring_eq`: `num_buffer` has room for every number.
-/

namespace Gigaboot.Printf

open Digits

def bytesOf (s : String) : List UInt8 := s.toList.map byte

/-- The bits of `flags`. -/
structure Flags where
  long : Bool := false
  longlong : Bool := false
  half : Bool := false
  halfhalf : Bool := false
  sizet : Bool := false
  intmax : Bool := false
  ptrdiff : Bool := false
  alt : Bool := false
  caps : Bool := false
  showsign : Bool := false
  signed : Bool := false
  leftformat : Bool := false
  leadzero : Bool := false
  blankpos : Bool := false
  deriving DecidableEq, Repr

def numBufferSize : Nat := 32

/-! ## Integers -/

/-- The loop of `longlong_to_string` and the digit after it, with `pos` bytes of the buffer in
front; `acc` is what was written behind them. -/
def decimalLoop : Nat → UInt64 → List UInt8 → Option (List UInt8)
  | 0, _, _ => none
  | pos + 1, n, acc =>
    if n ≥ 10 then decimalLoop pos (n / 10) (((n % 10).toUInt8 + 48) :: acc)
    else some ((n.toUInt8 + 48) :: acc)

/-- `(flag & SIGNEDFLAG) && (long long)n < 0`. -/
def negative (flag : Flags) (n : UInt64) : Bool := flag.signed && decide (n.toInt64 < 0)

/-- What `*signchar` is set to. -/
def signcharOf (flag : Flags) (n : UInt64) : UInt8 :=
  if negative flag n then 45
  else if flag.showsign then 43
  else if flag.blankpos then 32
  else 0

/-- `longlong_to_string`: the string and `*signchar`. -/
def longlongToString (n : UInt64) (len : Nat) (flag : Flags) : Option (List UInt8 × UInt8) :=
  if len = 0 then none
  else
    (decimalLoop (len - 1) (if negative flag n then -n else n) []).map fun s =>
      (s, signcharOf flag n)

def hextable : List UInt8 := bytesOf "0123456789abcdef"
def hextableCaps : List UInt8 := bytesOf "0123456789ABCDEF"

def hexLoop (table : List UInt8) : Nat → UInt64 → List UInt8 → Option (List UInt8)
  | 0, _, _ => none
  | pos + 1, u, acc =>
    let acc := table.getD (u % 16).toNat 0 :: acc
    if u / 16 ≠ 0 then hexLoop table pos (u / 16) acc else some acc

def longlongToHexstring (u : UInt64) (len : Nat) (flag : Flags) : Option (List UInt8) :=
  if len = 0 then none
  else hexLoop (if flag.caps then hextableCaps else hextable) (len - 1) u []

/-! ## Doubles -/

def exponentOf (bits : UInt64) : Nat := bits.toNat / 2 ^ 52 % 2 ^ 11

def fractionOf (bits : UInt64) : Nat := bits.toNat % 2 ^ 52

def signText (bits : UInt64) : List UInt8 := if bits.toNat / 2 ^ 63 = 1 then [45] else []

/-- The texts that depend on the flag for capitals. -/
def capsText (flag : Flags) (caps text : String) : List UInt8 :=
  if flag.caps then bytesOf caps else bytesOf text

/-- An integer rounded to the 53 bits of a `double`, to the even one of two that are equally
near. -/
def roundDouble (n : Nat) : Nat :=
  let s := Nat.log2 n + 1 - 53
  let q := n / 2 ^ s
  let r := n % 2 ^ s
  if s = 0 then n
  else if 2 * r > 2 ^ s ∨ (2 * r = 2 ^ s ∧ q % 2 = 1) then (q + 1) * 2 ^ s
  else q * 2 ^ s

/-- `((d - u) * 1000000) + .5` as a `uint32_t`, where `d - u` is `m / 2 ^ k`. -/
def fracOf (m k : Nat) : UInt32 :=
  UInt32.ofNat (roundDouble (2 * roundDouble (m * 1000000) + 2 ^ k) / 2 ^ (k + 1))

/-- The loop over the digits of `frac`, from the end of the text on to the left. -/
def fracLoop : Nat → UInt32 → List UInt8 → List UInt8
  | 0, _, acc => acc
  | pos + 1, frac, acc =>
    if frac ≠ 0 then fracLoop pos (frac / 10) (((frac % 10).toUInt8 + 48) :: acc) else acc

/-- The digits of `frac` in the place of the last characters of `text`. -/
def overlayFrac (text : List UInt8) (frac : UInt32) : List UInt8 :=
  let ds := fracLoop text.length frac []
  text.take (text.length - ds.length) ++ ds

/-- `double_to_string` for the bits of a `double`, with the buffer of `_printf_engine`. -/
def doubleToString (bits : UInt64) (flag : Flags) : Option (List UInt8) :=
  let exponent := exponentOf bits
  let fraction := fractionOf bits
  if exponent = 0x7ff then
    if fraction = 0 then some (signText bits ++ capsText flag "INF" "inf")
    else some (signText bits ++ capsText flag "NAN" "nan")
  else if exponent = 0 then
    if fraction = 0 then some (signText bits ++ bytesOf "0.000000")
    else some (signText bits ++ capsText flag "DEN" "den")
  -- `exponent_signed < -52 || exponent_signed > 52`
  else if exponent < 1023 - 52 ∨ exponent > 1023 + 52 then
    some (signText bits ++ bytesOf "<range>")
  else if exponent ≥ 1023 then
    let k := 52 - (exponent - 1023)
    let u := (2 ^ 52 + fraction) / 2 ^ k
    -- seven places and the terminator are behind the integer portion
    (longlongToString (UInt64.ofNat u) (numBufferSize - 8 + 1) flag).map fun s =>
      signText bits ++
        overlayFrac (s.1 ++ bytesOf ".000000") (fracOf ((2 ^ 52 + fraction) % 2 ^ k) k)
  else
    some (signText bits ++
      overlayFrac (bytesOf "0.000000") (fracOf (2 ^ 52 + fraction) (52 + (1023 - exponent))))

/-- The digits of an exponent, in as many places as it has. -/
def exponentLoop : Nat → Nat → List UInt8 → List UInt8
  | 0, _, acc => acc
  | i + 1, exponent, acc =>
    let acc := (UInt8.ofNat (exponent % 10) + 48) :: acc
    if exponent / 10 ≠ 0 then exponentLoop i (exponent / 10) acc else acc

/-- `exponent_to_string`, for an exponent of up to 4 digits. -/
def exponentToString (exponent : Int) : List UInt8 :=
  let n := exponent.natAbs
  let places := if n ≥ 1000 then 4 else if n ≥ 100 then 3 else if n ≥ 10 then 2 else 1
  (if exponent < 0 then 45 else 43) :: exponentLoop places n []

/-- The loop over the digits of a fraction, of which `i` are left: zeros are held back until a
digit follows them, and a dot is written before the first digit. -/
def hexFraction (table : List UInt8) (fraction : Nat) : Nat → Nat → Bool → List UInt8
  | 0, _, _ => []
  | i + 1, zeroCount, dot =>
    let digit := fraction / 16 ^ i % 16
    if digit = 0 then hexFraction table fraction i (zeroCount + 1) dot
    else
      (if dot then [] else [46]) ++ List.replicate zeroCount 48 ++
        table.getD digit 0 :: hexFraction table fraction i 0 true

/-- `double_to_hexstring` for the bits of a `double`. -/
def doubleToHexstring (bits : UInt64) (flag : Flags) : List UInt8 :=
  let exponent := exponentOf bits
  let fraction := fractionOf bits
  if exponent = 0x7ff then
    if fraction = 0 then signText bits ++ capsText flag "INF" "inf"
    else signText bits ++ capsText flag "NAN" "nan"
  else if exponent = 0 then
    if fraction = 0 then signText bits ++ capsText flag "0X0P+0" "0x0p+0"
    else signText bits ++ capsText flag "DEN" "den"
  else
    signText bits ++ capsText flag "0X1" "0x1" ++
      hexFraction (if flag.caps then hextableCaps else hextable) fraction 13 0 false ++
      (if flag.caps then 80 else 112) :: exponentToString ((exponent : Int) - 1023)

/-! ## The digits that are written -/

theorem decimal_digit {d : Nat} (h : d < 10) : UInt8.ofNat d + 48 = byte d.digitChar := by
  interval_cases d <;> decide

theorem hextable_getD {d : Nat} (h : d < 16) : hextable.getD d 0 = byte d.digitChar := by
  interval_cases d <;> decide

theorem hextableCaps_getD {d : Nat} (h : d < 16) :
    hextableCaps.getD d 0 = capsByte d.digitChar := by
  interval_cases d <;> decide

/-- The loop writes the digits of `n` if there is room for them. -/
theorem decimalLoop_eq (pos : Nat) : ∀ (n : UInt64) (acc : List UInt8),
    (digits byte 10 n.toNat).length ≤ pos →
      decimalLoop pos n acc = some (digits byte 10 n.toNat ++ acc) := by
  induction pos with
  | zero =>
    intro n acc h
    have := digits_length_pos (f := byte) (b := 10) n.toNat
    omega
  | succ pos ih =>
    intro n acc h
    rw [decimalLoop]
    rw [digits_eq_if (by decide)] at h ⊢
    have hten : n ≥ 10 ↔ ¬ n.toNat < 10 := by
      rw [ge_iff_le, UInt64.le_iff_toNat_le, Nat.not_lt]
      rfl
    by_cases hn : n.toNat < 10
    · have hd : n.toUInt8 + 48 = byte n.toNat.digitChar := decimal_digit hn
      rw [if_neg (by rwa [hten, not_not]), if_pos hn, hd]
      rfl
    · have hquot : (n / 10).toNat = n.toNat / 10 := UInt64.toNat_div n 10
      have hd : (n % 10).toUInt8 + 48 = byte (n.toNat % 10).digitChar := by
        have hmod : (n % 10).toNat = n.toNat % 10 := UInt64.toNat_mod n 10
        rw [← decimal_digit (Nat.mod_lt n.toNat (by decide)), ← hmod]
        rfl
      rw [if_neg hn] at h
      rw [List.length_append, List.length_singleton] at h
      rw [if_pos (hten.mpr hn), if_neg hn, hd, ih _ _ (by rw [hquot]; omega), hquot,
        List.append_assoc]
      rfl

theorem hexLoop_eq {table : List UInt8} {f : Char → UInt8}
    (ht : ∀ {d : Nat}, d < 16 → table.getD d 0 = f d.digitChar) (pos : Nat) :
    ∀ (u : UInt64) (acc : List UInt8), (digits f 16 u.toNat).length ≤ pos →
      hexLoop table pos u acc = some (digits f 16 u.toNat ++ acc) := by
  induction pos with
  | zero =>
    intro u acc h
    have := digits_length_pos (f := f) (b := 16) u.toNat
    omega
  | succ pos ih =>
    intro u acc h
    have hquot : (u / 16).toNat = u.toNat / 16 := UInt64.toNat_div u 16
    have hmod : (u % 16).toNat = u.toNat % 16 := UInt64.toNat_mod u 16
    have hzero : u / 16 ≠ 0 ↔ ¬ u.toNat < 16 := by
      rw [ne_eq, ← UInt64.toNat_inj, hquot, show (0 : UInt64).toNat = 0 from rfl]
      omega
    rw [hexLoop, hmod, ht (Nat.mod_lt u.toNat (by decide))]
    rw [digits_eq_if (by decide)] at h ⊢
    by_cases hu : u.toNat < 16
    · rw [if_neg (by rwa [hzero, not_not]), if_pos hu, Nat.mod_eq_of_lt hu]
      rfl
    · rw [if_neg hu] at h
      rw [List.length_append, List.length_singleton] at h
      rw [if_pos (hzero.mpr hu), if_neg hu, ih _ _ (by rw [hquot]; omega), hquot,
        List.append_assoc]
      rfl

/-- The number that `longlong_to_string` writes. -/
def magnitude (flag : Flags) (n : UInt64) : Nat := (if negative flag n then -n else n).toNat

/-- Twenty digits are enough for a decimal number. -/
theorem longlongToString_eq (n : UInt64) {len : Nat} (hlen : 21 ≤ len) (flag : Flags) :
    longlongToString n len flag =
      some (digits byte 10 (magnitude flag n), signcharOf flag n) := by
  have hroom : (digits byte 10 (magnitude flag n)).length ≤ len - 1 := by
    refine Nat.le_trans ((digits_length_le_iff (by decide) (k := 20) (by decide)).mpr ?_)
      (by omega)
    exact Nat.lt_trans (UInt64.toNat_lt _) (by decide)
  rw [longlongToString, if_neg (by omega), decimalLoop_eq _ _ _ hroom, List.append_nil]
  rfl

def hexByte (flag : Flags) : Char → UInt8 := if flag.caps then capsByte else byte

theorem hexByte_spells (flag : Flags) : Spells (hexByte flag) 16 := by
  unfold hexByte
  split
  · exact capsByte_spells
  · exact byte_spells

/-- Sixteen digits are enough for a hexadecimal number. -/
theorem longlongToHexstring_eq (u : UInt64) {len : Nat} (hlen : 17 ≤ len) (flag : Flags) :
    longlongToHexstring u len flag = some (digits (hexByte flag) 16 u.toNat) := by
  have hroom : (digits (hexByte flag) 16 u.toNat).length ≤ len - 1 := by
    refine Nat.le_trans ((digits_length_le_iff (by decide) (k := 16) (by decide)).mpr ?_)
      (by omega)
    exact Nat.lt_of_lt_of_eq (UInt64.toNat_lt u) (by decide)
  rw [longlongToHexstring, if_neg (by omega)]
  unfold hexByte at hroom ⊢
  by_cases hc : flag.caps = true
  · rw [if_pos hc] at hroom
    rw [if_pos hc, if_pos hc, hexLoop_eq hextableCaps_getD _ _ _ hroom, List.append_nil]
  · rw [if_neg hc] at hroom
    rw [if_neg hc, if_neg hc, hexLoop_eq hextable_getD _ _ _ hroom, List.append_nil]

end Gigaboot.Printf
