import Gigaboot.Printf.Meaning

/-!
# Reading numbers back

A field that `printf` has printed for an integer, read by someone who does not know its flags:
spaces before the number, a sign or `0x`, leading zeros, and spaces behind it are passed over, in
this order.

* `readField_fieldText`, `readHex_hexText`: how a field is read;
* `signedArg_toInt`, `unsignedArg_toNat`: which number an argument stands for;
* `number_reads_back_iff`: what is read is the argument, except for a negative number that is
  justified to the left, and for `0x` with spaces behind it.
-/

namespace Gigaboot.Printf

open Console Digits

/-! ## A reader -/

/-- Digits and nothing behind them but spaces. -/
def readDigits (b : Nat) (text : List UInt8) : Option Nat :=
  let body := text.takeWhile (· ≠ 32)
  if body = [] ∨ (text.dropWhile (· ≠ 32)).any (· ≠ 32) then none else value b body

def readSigned (b : Nat) (text : List UInt8) : Option Int :=
  if text.head? = some 45 then (readDigits b text.tail).map fun n => -(n : Int)
  else if text.head? = some 43 then (readDigits b text.tail).map fun n => (n : Int)
  else (readDigits b text).map fun n => (n : Int)

def readField (b : Nat) (text : List UInt8) : Option Int := readSigned b (text.dropWhile (· = 32))

/-- A text without `0x` or `0X` at its front. -/
def stripHex (text : List UInt8) : List UInt8 :=
  if text.take 2 = [48, 120] ∨ text.take 2 = [48, 88] then text.drop 2 else text

/-- A hexadecimal number in a field. -/
def readHex (text : List UInt8) : Option Int :=
  (readDigits 16 (stripHex (text.dropWhile (· = 32)))).map fun n => (n : Int)

/-! ## Fields that are read -/

/-- A text that starts and ends with a digit, and has the value `n`. -/
structure Numeral (b n : Nat) (ds : List UInt8) : Prop where
  value : Digits.value b ds = some n
  ne_nil : ds ≠ []

theorem Numeral.digit {b n : Nat} {ds : List UInt8} (h : Numeral b n ds) {c : UInt8}
    (hc : c ∈ ds) : digitVal c ≠ none :=
  digitVal_of_valueFrom h.value c hc

theorem Numeral.zeros {b n : Nat} {ds : List UInt8} (h : Numeral b n ds) (hb : 1 < b) (k : Nat) :
    Numeral b n (List.replicate k 48 ++ ds) :=
  ⟨by rw [value_replicate_zero hb, h.value], by simp [h.ne_nil]⟩

theorem numeral_digits {b : Nat} {f : Char → UInt8} (hb : 1 < b) (hf : Spells f b) (n : Nat) :
    Numeral b n (digits f b n) :=
  ⟨value_digits hb hf n, List.ne_nil_of_length_pos (digits_length_pos n)⟩

theorem Numeral.ne_space {b n : Nat} {ds : List UInt8} (h : Numeral b n ds) {c : UInt8}
    (hc : c ∈ ds) : c ≠ 32 := by
  rintro rfl
  exact h.digit hc (by decide)

theorem Numeral.readDigits {b n : Nat} {ds : List UInt8} (h : Numeral b n ds) (k : Nat) :
    readDigits b (ds ++ List.replicate k 32) = some n := by
  have hall : ∀ c ∈ ds, decide (c ≠ 32) = true := fun c hc => decide_eq_true (h.ne_space hc)
  have hbody : (ds ++ List.replicate k 32).takeWhile (· ≠ 32) = ds := by
    rw [List.takeWhile_append_of_pos hall]
    cases k with
    | zero => simp
    | succ k => simp [List.replicate_succ]
  have hrest : (ds ++ List.replicate k 32).dropWhile (· ≠ 32) = List.replicate k 32 := by
    rw [List.dropWhile_append_of_pos hall]
    cases k with
    | zero => rfl
    | succ k => simp [List.replicate_succ]
  have hany : (List.replicate k (32 : UInt8)).any (· ≠ 32) = false := by
    rw [List.any_eq_false]
    intro c hc
    simp [List.eq_of_mem_replicate hc]
  unfold Printf.readDigits
  dsimp only
  rw [hbody, hrest, hany]
  simp [h.ne_nil, h.value]

/-- Digits at the front are not taken for a sign. -/
theorem Numeral.readSigned {b n : Nat} {ds : List UInt8} (h : Numeral b n ds) (k : Nat) :
    readSigned b (ds ++ List.replicate k 32) = some (n : Int) := by
  have hread := h.readDigits k
  cases ds with
  | nil => exact absurd rfl h.ne_nil
  | cons c ds =>
    have hc := h.digit List.mem_cons_self
    have hminus : c ≠ 45 := by
      rintro rfl
      exact hc (by decide)
    have hplus : c ≠ 43 := by
      rintro rfl
      exact hc (by decide)
    rw [Printf.readSigned, List.cons_append, List.head?_cons,
      if_neg (fun he => hminus (Option.some.inj he)), if_neg (fun he => hplus (Option.some.inj he)),
      ← List.cons_append, hread]
    rfl

theorem Numeral.dropWhile {b n : Nat} {ds : List UInt8} (h : Numeral b n ds) (t : List UInt8) :
    (ds ++ t).dropWhile (· = 32) = ds ++ t := by
  cases ds with
  | nil => exact absurd rfl h.ne_nil
  | cons c ds =>
    rw [List.cons_append, List.dropWhile_cons_of_neg]
    simpa using h.ne_space List.mem_cons_self

theorem dropWhile_spaces (k : Nat) (t : List UInt8) :
    (List.replicate k 32 ++ t).dropWhile (· = 32) = t.dropWhile (· = 32) := by
  induction k with
  | zero => rfl
  | succ k ih => rw [List.replicate_succ, List.cons_append, List.dropWhile_cons_of_pos rfl, ih]

theorem Numeral.stripHex {b n : Nat} {ds : List UInt8} (h : Numeral b n ds) (k : Nat) :
    stripHex (ds ++ List.replicate k 32) = ds ++ List.replicate k 32 := by
  have hno : ∀ x, digitVal x = none → x ≠ 32 →
      (ds ++ List.replicate k 32).take 2 ≠ [48, x] := by
    intro x hx h32 htake
    have hmem : x ∈ ds ++ List.replicate k 32 :=
      List.mem_of_mem_take (htake ▸ List.mem_cons_of_mem _ List.mem_cons_self)
    rcases List.mem_append.mp hmem with hd | hs
    · exact h.digit hd hx
    · exact h32 (List.eq_of_mem_replicate hs)
  refine if_neg ?_
  rintro (h' | h')
  · exact hno 120 (by decide) (by decide) h'
  · exact hno 88 (by decide) (by decide) h'

theorem readDigits_space (b : Nat) (t : List UInt8) : readDigits b (32 :: t) = none := by
  simp [readDigits]

def signedNumber (signchar : UInt8) (n : Nat) : Int := if signchar = 45 then -(n : Int) else n

def IsSign (signchar : UInt8) : Prop :=
  signchar = 45 ∨ signchar = 43 ∨ signchar = 32 ∨ signchar = 0

theorem signcharOf_isSign (flags : Flags) (n : UInt64) : IsSign (signcharOf flags n) := by
  unfold signcharOf IsSign
  repeat' split
  all_goals simp

section Fields

variable {b n : Nat} {ds : List UInt8}

theorem readField_sign (h : Numeral b n ds) {signchar : UInt8} (hs : IsSign signchar) :
    readField b (signOf signchar ++ ds) = some (signedNumber signchar n) := by
  have hplain : readSigned b ds = some (n : Int) := by
    have hr := h.readSigned 0
    rwa [List.replicate_zero, List.append_nil] at hr
  have hdigits : Printf.readDigits b ds = some n := by
    have hr := h.readDigits 0
    rwa [List.replicate_zero, List.append_nil] at hr
  have hdrop : ds.dropWhile (· = 32) = ds := by
    have hd := h.dropWhile []
    rwa [List.append_nil] at hd
  unfold readField
  rcases hs with rfl | rfl | rfl | rfl
  · have hsign : (signOf 45 ++ ds).dropWhile (· = 32) = 45 :: ds := rfl
    rw [hsign, Printf.readSigned, if_pos List.head?_cons, List.tail_cons, hdigits]
    rfl
  · have hsign : (signOf 43 ++ ds).dropWhile (· = 32) = 43 :: ds := rfl
    rw [hsign, Printf.readSigned, if_neg (by simp), if_pos List.head?_cons, List.tail_cons, hdigits]
    rfl
  · rw [signOf, if_pos (by decide), List.singleton_append, List.dropWhile_cons_of_pos rfl, hdrop,
      hplain]
    rfl
  · rw [signOf, if_neg (by decide), List.nil_append, hdrop, hplain]
    rfl

/-- A field that is justified to the left is read without the sign. -/
theorem readField_left (h : Numeral b n ds) (k : Nat) :
    readField b (ds ++ List.replicate k 32) = some (n : Int) := by
  rw [readField, h.dropWhile, h.readSigned]

theorem readField_spaces (h : Numeral b n ds) {signchar : UInt8} (hs : IsSign signchar) (k : Nat) :
    readField b (List.replicate k 32 ++ signOf signchar ++ ds) =
      some (signedNumber signchar n) := by
  rw [List.append_assoc, readField, dropWhile_spaces]
  exact readField_sign h hs

theorem readField_fieldText (h : Numeral b n ds) (hb : 1 < b) {signchar : UInt8}
    (hs : IsSign signchar) (flags : Flags) (width : Nat) :
    readField b (fieldText flags width (signOf signchar) ds) =
      some (if flags.leftformat then (n : Int) else signedNumber signchar n) := by
  unfold fieldText
  by_cases hleft : flags.leftformat = true
  · rw [if_pos hleft, if_pos hleft, readField_left h]
  · rw [if_neg hleft, if_neg hleft]
    by_cases hzero : flags.leadzero = true
    · rw [if_pos hzero, List.append_assoc]
      exact readField_sign (h.zeros hb _) hs
    · rw [if_neg hzero]
      exact readField_spaces h hs _

/-- A field without a sign is digits with spaces before or behind them. -/
theorem fieldText_numeral (h : Numeral b n ds) (hb : 1 < b) (flags : Flags) (width : Nat) :
    ∃ j k ds', Numeral b n ds' ∧
      fieldText flags width [] ds = List.replicate j 32 ++ (ds' ++ List.replicate k 32) ∧
      (0 < j ↔ flags.leftformat = false ∧ flags.leadzero = false ∧ ds.length < width) := by
  unfold fieldText
  cases hleft : flags.leftformat with
  | true =>
    refine ⟨0, _, ds, h, if_pos rfl, iff_of_false (Nat.lt_irrefl 0) ?_⟩
    rintro ⟨h', -⟩
    cases h'
  | false =>
    rw [if_neg Bool.false_ne_true]
    cases hzero : flags.leadzero with
    | true =>
      refine ⟨0, 0, _, h.zeros hb (width - ds.length), ?_, iff_of_false (Nat.lt_irrefl 0) ?_⟩
      · rw [if_pos rfl, List.replicate_zero, List.append_nil]
        rfl
      · rintro ⟨-, h', -⟩
        cases h'
    | false =>
      refine ⟨width - ds.length, 0, ds, h, ?_, ?_⟩
      · rw [if_neg Bool.false_ne_true, List.replicate_zero, List.append_nil, List.append_nil]
        rfl
      · rw [Nat.sub_pos_iff_lt]
        exact ⟨fun hlt => ⟨rfl, rfl, hlt⟩, fun hall => hall.2.2⟩

/-- A hexadecimal field: `0x` is of no use before spaces. -/
theorem readHex_hexText (flags : Flags) (width : Nat) (n : UInt64) :
    readHex (hexText flags width n) =
      if flags.alt = true ∧ flags.leftformat = false ∧ flags.leadzero = false ∧
          (digits (hexByte flags) 16 n.toNat).length < width then none
      else some (n.toNat : Int) := by
  obtain ⟨j, k, ds, h, htext, hj⟩ := fieldText_numeral
    (numeral_digits (by decide) (hexByte_spells flags) n.toNat) (by decide) flags width
  unfold readHex hexText
  simp only [htext, ← hj]
  cases halt : flags.alt with
  | false =>
    rw [if_neg Bool.false_ne_true, List.nil_append, dropWhile_spaces, h.dropWhile, h.stripHex,
      h.readDigits, if_neg (fun h' => Bool.false_ne_true h'.1)]
    rfl
  | true =>
    have hfront : ∀ t, Printf.stripHex
        (([48, if flags.caps then 88 else 120] ++ t).dropWhile (· = 32)) = t := by
      intro t
      cases flags.caps <;> rfl
    rw [if_pos rfl, hfront]
    cases j with
    | zero =>
      rw [List.replicate_zero, List.nil_append, h.readDigits,
        if_neg (fun h' => Nat.lt_irrefl 0 h'.2)]
      rfl
    | succ j =>
      rw [List.replicate_succ, List.cons_append, readDigits_space,
        if_pos ⟨rfl, Nat.succ_pos j⟩]
      rfl

end Fields

/-! ## Arguments -/

def signedBits (flags : Flags) : Nat :=
  if flags.longlong then 64
  else if flags.long then 64
  else if flags.halfhalf then 8
  else if flags.half then 16
  else if flags.sizet then 32
  else if flags.intmax then 64
  else if flags.ptrdiff then 64
  else 32

def unsignedBits (flags : Flags) : Nat :=
  if flags.longlong then 64
  else if flags.long then 64
  else if flags.halfhalf then 8
  else if flags.half then 16
  else if flags.sizet then 64
  else if flags.intmax then 64
  else if flags.ptrdiff then 64
  else 32

theorem toInt_toInt64 (w : UInt64) : w.toInt64.toInt = Int.bmod w.toNat (2 ^ 64) :=
  BitVec.toInt_eq_toNat_bmod w.toBitVec

theorem bmod_bmod_bits {k : Nat} (hk : k ≤ 64) (w : UInt64) :
    Int.bmod (Int.bmod w.toNat (2 ^ 64)) (2 ^ k) = Int.bmod w.toNat (2 ^ k) :=
  Int.bmod_bmod_of_dvd (Nat.pow_dvd_pow 2 hk)

/-- The argument of `%d` is the low part of its slot, as a signed number. -/
theorem signedArg_toInt (flags : Flags) (w : UInt64) :
    (signedArg flags w).toInt64.toInt = Int.bmod w.toNat (2 ^ signedBits flags) := by
  have h8 : w.toInt64.toInt8.toInt64.toUInt64.toInt64.toInt = Int.bmod w.toNat (2 ^ 8) := by
    rw [Int64.toInt64_toUInt64, Int8.toInt_toInt64, Int64.toInt_toInt8, toInt_toInt64,
      bmod_bmod_bits (by decide)]
  have h16 : w.toInt64.toInt16.toInt64.toUInt64.toInt64.toInt = Int.bmod w.toNat (2 ^ 16) := by
    rw [Int64.toInt64_toUInt64, Int16.toInt_toInt64, Int64.toInt_toInt16, toInt_toInt64,
      bmod_bmod_bits (by decide)]
  have h32 : w.toInt64.toInt32.toInt64.toUInt64.toInt64.toInt = Int.bmod w.toNat (2 ^ 32) := by
    rw [Int64.toInt64_toUInt64, Int32.toInt_toInt64, Int64.toInt_toInt32, toInt_toInt64,
      bmod_bmod_bits (by decide)]
  have h64 := toInt_toInt64 w
  unfold signedArg signedBits
  split_ifs
  exacts [h64, h64, h8, h16, h32, h64, h64, h32]

/-- The argument of `%u` is the low part of its slot. -/
theorem unsignedArg_toNat (flags : Flags) (w : UInt64) :
    (unsignedArg flags w).toNat = w.toNat % 2 ^ unsignedBits flags := by
  have h64 : w.toNat = w.toNat % 2 ^ 64 := (Nat.mod_eq_of_lt w.toNat_lt).symm
  have h8 : w.toUInt8.toUInt64.toNat = w.toNat % 2 ^ 8 := by
    rw [UInt8.toNat_toUInt64, UInt64.toNat_toUInt8]
  have h16 : w.toUInt16.toUInt64.toNat = w.toNat % 2 ^ 16 := by
    rw [UInt16.toNat_toUInt64, UInt64.toNat_toUInt16]
  have h32 : w.toUInt32.toUInt64.toNat = w.toNat % 2 ^ 32 := by
    rw [UInt32.toNat_toUInt64, UInt64.toNat_toUInt32]
  unfold unsignedArg unsignedBits
  split_ifs
  exacts [h64, h64, h8, h16, h64, h64, h64, h32]

theorem negative_iff {flags : Flags} (hf : flags.signed = true) (n : UInt64) :
    negative flags n = true ↔ n.toInt64.toInt < 0 := by
  rw [negative, hf, Bool.true_and, decide_eq_true_eq, Int64.lt_iff_toInt_lt]
  rfl

theorem signcharOf_eq_minus_iff (flags : Flags) (n : UInt64) :
    signcharOf flags n = 45 ↔ negative flags n = true := by
  unfold signcharOf
  by_cases hneg : negative flags n = true
  · rw [if_pos hneg]
    exact iff_of_true rfl hneg
  · rw [if_neg hneg]
    refine iff_of_false ?_ hneg
    repeat' split
    all_goals decide

theorem magnitude_signed {flags : Flags} (hf : flags.signed = true) (n : UInt64) :
    magnitude flags n = n.toInt64.toInt.natAbs := by
  have hlt := n.toNat_lt
  have hint := toInt_toInt64 n
  have hneg := negative_iff hf n
  have hsize : UInt64.size = 2 ^ 64 := rfl
  unfold magnitude
  rw [Int.bmod_def] at hint
  by_cases h : negative flags n = true
  · have hv := hneg.mp h
    rw [if_pos h, UInt64.toNat_neg, hsize]
    split at hint
    · omega
    · omega
  · have hv := mt hneg.mpr h
    rw [if_neg h]
    split at hint
    · omega
    · omega

theorem signedNumber_signed {flags : Flags} (hf : flags.signed = true) (n : UInt64) :
    signedNumber (signcharOf flags n) (magnitude flags n) = n.toInt64.toInt := by
  have hneg := negative_iff hf n
  rw [← signcharOf_eq_minus_iff] at hneg
  rw [magnitude_signed hf]
  unfold signedNumber
  by_cases h : signcharOf flags n = 45
  · rw [if_pos h]
    have := hneg.mp h
    omega
  · rw [if_neg h]
    have := mt hneg.mpr h
    omega

theorem signedNumber_unsigned {flags : Flags} (hf : flags.signed = false) (n : UInt64) :
    magnitude flags n = n.toNat ∧
      signedNumber (signcharOf flags n) (magnitude flags n) = (n.toNat : Int) := by
  have hneg : negative flags n = false := by rw [negative, hf, Bool.false_and]
  have hmag : magnitude flags n = n.toNat := by
    rw [magnitude, hneg]
    rfl
  have hsign : signcharOf flags n ≠ 45 := by
    rw [ne_eq, signcharOf_eq_minus_iff, hneg]
    nofun
  exact ⟨hmag, by rw [signedNumber, if_neg hsign, hmag]⟩

/-! ## Formats -/

/-- No character of a format sets the flag for signed numbers. -/
theorem directive_signed {sp sp' : Spec} {c : UInt8} (h : directive sp c = .more sp') :
    sp'.flags.signed = sp.flags.signed := by
  unfold directive at h
  dsimp only at h
  split at h
  · cases h
    dsimp only
    split <;> rfl
  · split at h
    all_goals cases h
    all_goals rfl

theorem modify_signed {sp' : Spec} (cs : List UInt8) : ∀ {sp : Spec}, modify sp cs = some sp' →
    sp'.flags.signed = sp.flags.signed := by
  induction cs with
  | nil =>
    intro sp h
    obtain rfl := Option.some.inj h
    rfl
  | cons c cs ih =>
    intro sp h
    rw [modify] at h
    cases hd : directive sp c with
    | more sp₁ =>
      rw [hd] at h
      rw [ih h, directive_signed hd]
    | convert k =>
      rw [hd] at h
      cases h

/-- The conversions of integers. -/
def Conversion.IsNumber : Conversion → Prop
  | .signed | .unsigned | .pointer | .capsHex | .hex => True
  | _ => False

def readNumber : Conversion → List UInt8 → Option Int
  | .signed, text => readField 10 text
  | .unsigned, text => readField 10 text
  | _, text => readHex text

/-- The number that an argument stands for. -/
def argValue (flags : Flags) (w : UInt64) : Conversion → Int
  | .signed => Int.bmod w.toNat (2 ^ signedBits flags)
  | .pointer => w.toNat
  | _ => (w.toNat % 2 ^ unsignedBits flags : Nat)

theorem fieldText_length (flags : Flags) (width : Nat) (sign s : List UInt8) :
    width ≤ (fieldText flags width sign s).length := by
  unfold fieldText
  split
  · simp only [List.length_append, List.length_replicate]
    omega
  · split
    all_goals
      simp only [List.length_append, List.length_replicate]
      omega

theorem mem_fieldText {flags : Flags} {width : Nat} {s : List UInt8} {c : UInt8}
    (h : c ∈ fieldText flags width [] s) : c ∈ s ∨ c = 32 ∨ c = 48 := by
  unfold fieldText at h
  split at h
  · rcases List.mem_append.mp h with h | h
    · exact .inl h
    · exact .inr (.inl (List.eq_of_mem_replicate h))
  · split at h
    · rw [List.nil_append] at h
      rcases List.mem_append.mp h with h | h
      · exact .inr (.inr (List.eq_of_mem_replicate h))
      · exact .inl h
    · rw [List.append_nil] at h
      rcases List.mem_append.mp h with h | h
      · exact .inr (.inl (List.eq_of_mem_replicate h))
      · exact .inl h

theorem readField_decimalText (flags : Flags) (width : Nat) (n : UInt64) :
    readField 10 (decimalText flags width n) =
      some (if flags.leftformat then (magnitude flags n : Int)
        else signedNumber (signcharOf flags n) (magnitude flags n)) :=
  readField_fieldText (numeral_digits (by decide) (byte_spells.mono (by decide)) _) (by decide)
    (signcharOf_isSign flags n) flags width

/-- The sign of a number is lost when the field is justified to the left. -/
def SignLost (sp : Spec) (w : UInt64) (k : Conversion) : Prop :=
  sp.flags.leftformat = true ∧ argValue sp.flags w k < 0

instance (sp : Spec) (w : UInt64) (k : Conversion) : Decidable (SignLost sp w k) :=
  inferInstanceAs (Decidable (_ ∧ _))

/-- The conversion prints `0x`. -/
def Conversion.withHex (sp : Spec) : Conversion → Bool
  | .pointer => true
  | .capsHex | .hex => sp.flags.alt
  | _ => false

/-- The field is filled with spaces between `0x` and the digits. -/
def HexApart (sp : Spec) (w : UInt64) (k : Conversion) : Prop :=
  k.withHex sp = true ∧ sp.flags.leftformat = false ∧ sp.flags.leadzero = false ∧
    (Nat.toDigits 16 (argValue sp.flags w k).toNat).length < sp.formatNum.toNat

instance (sp : Spec) (w : UInt64) (k : Conversion) : Decidable (HexApart sp w k) :=
  inferInstanceAs (Decidable (_ ∧ _))

/-- A field with one conversion of an integer: its text, and what it is read as. -/
structure NumberField (sp : Spec) (w : UInt64) (k : Conversion) (text : List UInt8) : Prop where
  width : sp.formatNum.toNat ≤ text.length
  read_iff : readNumber k text = some (argValue sp.flags w k) ↔
    ¬ SignLost sp w k ∧ ¬ HexApart sp w k

theorem hexText_length (flags : Flags) (width : Nat) (n : UInt64) :
    width ≤ (hexText flags width n).length := by
  have hfield := fieldText_length flags width [] (digits (hexByte flags) 16 n.toNat)
  rw [hexText, List.length_append]
  omega

theorem numberField_signed (sp : Spec) (w : UInt64) :
    NumberField sp w .signed (decimalText { sp.flags with signed := true } sp.formatNum.toNat
      (signedArg { sp.flags with signed := true } w)) := by
  refine ⟨fieldText_length _ _ _ _, ?_⟩
  have hvalue : (signedArg { sp.flags with signed := true } w).toInt64.toInt =
      argValue sp.flags w .signed := signedArg_toInt _ w
  have hhex : ¬ HexApart sp w .signed := fun h => Bool.false_ne_true h.1
  rw [readNumber, readField_decimalText, Option.some.injEq, and_iff_left hhex]
  by_cases hleft : sp.flags.leftformat = true
  · rw [if_pos hleft, magnitude_signed rfl, hvalue]
    constructor
    · rintro h ⟨-, hneg⟩
      omega
    · intro h
      have hpos : ¬ argValue sp.flags w .signed < 0 := fun hneg => h ⟨hleft, hneg⟩
      omega
  · rw [if_neg hleft, signedNumber_signed rfl, hvalue]
    exact iff_of_true rfl fun h => hleft h.1

theorem numberField_unsigned {sp : Spec} (hs : sp.flags.signed = false) (w : UInt64) :
    NumberField sp w .unsigned
      (decimalText sp.flags sp.formatNum.toNat (unsignedArg sp.flags w)) := by
  refine ⟨fieldText_length _ _ _ _, ?_⟩
  obtain ⟨hmag, hnum⟩ := signedNumber_unsigned hs (unsignedArg sp.flags w)
  have hvalue : ((unsignedArg sp.flags w).toNat : Int) = argValue sp.flags w .unsigned :=
    congrArg Nat.cast (unsignedArg_toNat sp.flags w)
  have hsign : ¬ SignLost sp w .unsigned := fun h => by
    have hneg := h.2
    omega
  rw [readNumber, readField_decimalText, hnum, hmag, ite_self, hvalue]
  exact iff_of_true rfl ⟨hsign, fun h => Bool.false_ne_true h.1⟩

/-- The three hexadecimal conversions, which differ in their flags. -/
theorem numberField_hex {sp : Spec} {w : UInt64} {k : Conversion} {flags : Flags}
    (hread : ∀ text, readNumber k text = readHex text) (halt : flags.alt = k.withHex sp)
    (hleft : flags.leftformat = sp.flags.leftformat) (hzero : flags.leadzero = sp.flags.leadzero)
    (hvalue : ((unsignedArg flags w).toNat : Int) = argValue sp.flags w k) :
    NumberField sp w k (hexText flags sp.formatNum.toNat (unsignedArg flags w)) := by
  refine ⟨hexText_length _ _ _, ?_⟩
  have hsign : ¬ SignLost sp w k := fun h => by
    have hneg := h.2
    omega
  have hlen : (digits (hexByte flags) 16 (unsignedArg flags w).toNat).length =
      (Nat.toDigits 16 (argValue sp.flags w k).toNat).length := by
    rw [← hvalue, Int.toNat_natCast, digits, List.length_map]
  rw [hread, readHex_hexText, hvalue, halt, hleft, hzero, hlen, and_iff_right hsign]
  unfold HexApart
  split
  · rename_i hapart
    exact iff_of_false (Option.some_ne_none _).symm (not_not_intro hapart)
  · rename_i hapart
    exact iff_of_true rfl hapart

theorem meaning_number {mods : List UInt8} {sp : Spec} {c : UInt8} {k : Conversion}
    (hmods : modify {} mods = some sp) (hc : directive sp c = .convert k) (hk : k.IsNumber)
    (w : UInt64) :
    ∃ text, meaning (37 :: mods ++ [c]) [.word w] = some ⟨text, [], []⟩ ∧
      NumberField sp w k text := by
  have hs : sp.flags.signed = false := modify_signed mods hmods
  have hmeaning : meaning (37 :: mods ++ [c]) [.word w] =
      Meaning.convert ⟨[], [.word w], []⟩ sp k := by
    rw [meaning, loop_field hmods hc]
    cases Meaning.convert ⟨[], [.word w], []⟩ sp k <;> rfl
  rw [hmeaning]
  cases k with
  | signed => exact ⟨_, rfl, numberField_signed sp w⟩
  | unsigned => exact ⟨_, rfl, numberField_unsigned hs w⟩
  | pointer =>
    refine ⟨_, rfl, numberField_hex (fun _ => rfl) rfl rfl rfl ?_⟩
    simp [unsignedArg, argValue]
  | capsHex =>
    exact ⟨_, rfl, numberField_hex (fun _ => rfl) rfl rfl rfl
      (congrArg Nat.cast (unsignedArg_toNat _ w))⟩
  | hex =>
    exact ⟨_, rfl, numberField_hex (fun _ => rfl) rfl rfl rfl
      (congrArg Nat.cast (unsignedArg_toNat _ w))⟩
  | percent | char | string | count | capsFixed | fixed | capsHexFloat | hexFloat | unknown _ =>
    cases hk

/-- **Integers are read back** from what `_printf_engine` hands over for a field with any flags,
width and length modifiers, as the number that the argument stands for: unless that is negative and
the field is justified to the left, or the field has spaces between `0x` and the digits. -/
theorem number_reads_back_iff {mods : List UInt8} {sp : Spec} {c : UInt8} {k : Conversion}
    (hmods : modify {} mods = some sp) (hc : directive sp c = .convert k) (hk : k.IsNumber)
    (w : UInt64) :
    ∃ pieces : List (List UInt8), NumberField sp w k pieces.flatten ∧
      ∀ {σ : Type} (out : Out σ) (s s' : σ), feed out s pieces = some s' →
        printfEngine out s (37 :: mods ++ [c]) [.word w] =
          some ⟨s', intOf pieces.flatten.length, []⟩ := by
  obtain ⟨text, hmeaning, hfield⟩ := meaning_number hmods hc hk w
  obtain ⟨pieces, rfl, hprint⟩ := printfEngine_meaning hmeaning
  exact ⟨pieces, hfield, hprint⟩

/-- `%08llx` and 255, `%-8lld` and -5, `%10p` and 255. -/
theorem number_reads_back_iff_runs :
    (∃ pieces, printfEngine tally [] (37 :: bytesOf "08ll" ++ [120]) [.word 255] =
        some ⟨pieces, intOf pieces.flatten.length, []⟩ ∧
      readNumber .hex pieces.flatten = some 255) ∧
    (∃ pieces, printfEngine tally [] (37 :: bytesOf "-8ll" ++ [100]) [.word (-5)] =
        some ⟨pieces, intOf pieces.flatten.length, []⟩ ∧
      readNumber .signed pieces.flatten ≠ some (-5)) ∧
    ∃ pieces, printfEngine tally [] (37 :: bytesOf "10" ++ [112]) [.word 255] =
        some ⟨pieces, intOf pieces.flatten.length, []⟩ ∧
      readNumber .pointer pieces.flatten ≠ some 255 := by
  have hhex : modify {} (bytesOf "08ll") =
      some ⟨{ leadzero := true, longlong := true, long := true }, 8⟩ := by decide
  have hleft : modify {} (bytesOf "-8ll") =
      some ⟨{ leftformat := true, longlong := true, long := true }, 8⟩ := by decide
  have hten : modify {} (bytesOf "10") = some ⟨{}, 10⟩ := by decide
  refine ⟨?_, ?_, ?_⟩
  · obtain ⟨pieces, hfield, hprint⟩ := number_reads_back_iff hhex (c := 120) (k := .hex) (by decide)
      trivial 255
    exact ⟨pieces, hprint tally [] pieces (feed_tally pieces []),
      hfield.read_iff.mpr ⟨by decide, by decide⟩⟩
  · obtain ⟨pieces, hfield, hprint⟩ := number_reads_back_iff hleft (c := 100) (k := .signed)
      (by decide) trivial (-5)
    have hvalue : argValue { leftformat := true, longlong := true, long := true } (-5) .signed =
        -5 := by decide +kernel
    refine ⟨pieces, hprint tally [] pieces (feed_tally pieces []), fun h => ?_⟩
    rw [← hvalue] at h
    exact (hfield.read_iff.mp h).1 ⟨rfl, by dsimp only; rw [hvalue]; decide⟩
  · obtain ⟨pieces, hfield, hprint⟩ := number_reads_back_iff hten (c := 112) (k := .pointer)
      (by decide) trivial 255
    exact ⟨pieces, hprint tally [] pieces (feed_tally pieces []),
      fun h => (hfield.read_iff.mp h).2 (by decide)⟩

end Gigaboot.Printf
