import Mathlib.Algebra.Group.Nat.Defs
import Mathlib.Tactic.Common
import Mathlib.Tactic.IntervalCases

/-!
# Numbers as texts

The digits of a number in some base as the characters or the bytes of a text, and the value of such
a text.

* `digits_eq_if`: the digits of a number from those of its quotient;
* `value_digits`: the digits of a number have that number as their value;
* `value_replicate_zero`: zeros in front of them do not matter.
-/

namespace Digits

/-- The byte of a character, with letters as they are. -/
def byte (c : Char) : UInt8 := UInt8.ofNat c.toNat

/-- The byte of a character, with capital letters. -/
def capsByte (c : Char) : UInt8 := byte c.toUpper

/-- What a text can be made of. -/
class Coded (α : Type*) where
  code : α → Nat

instance : Coded Char := ⟨Char.toNat⟩

instance : Coded UInt8 := ⟨UInt8.toNat⟩

section Texts

variable {α : Type*}

/-- The digits of a number, the most significant first. -/
def digits (f : Char → α) (b n : Nat) : List α := (Nat.toDigits b n).map f

variable [Coded α]

def digitVal (c : α) : Option Nat :=
  let n := Coded.code c
  if 48 ≤ n ∧ n ≤ 57 then some (n - 48)
  else if 97 ≤ n ∧ n ≤ 102 then some (n - 87)
  else if 65 ≤ n ∧ n ≤ 70 then some (n - 55)
  else none

/-- The value of digits that follow a number with the value `acc`. -/
def valueFrom (b acc : Nat) : List α → Option Nat
  | [] => some acc
  | c :: cs =>
    match digitVal c with
    | none => none
    | some d => if d < b then valueFrom b (b * acc + d) cs else none

def value (b : Nat) (text : List α) : Option Nat := valueFrom b 0 text

/-- `f` writes every digit of the base so that it can be read. -/
def Spells (f : Char → α) (b : Nat) : Prop := ∀ d < b, digitVal (f d.digitChar) = some d

theorem Spells.mono {f : Char → α} {b c : Nat} (h : Spells f c) (hbc : b ≤ c) : Spells f b :=
  fun d hd => h d (Nat.lt_of_lt_of_le hd hbc)

end Texts

theorem id_spells : Spells (id : Char → Char) 16 := by
  intro d hd
  interval_cases d <;> decide

theorem byte_spells : Spells byte 16 := by
  intro d hd
  interval_cases d <;> decide

theorem capsByte_spells : Spells capsByte 16 := by
  intro d hd
  interval_cases d <;> decide

section Base

variable {α : Type*} {f : Char → α} {b : Nat}

theorem digits_eq_if (hb : 1 < b) (n : Nat) :
    digits f b n =
      if n < b then [f n.digitChar] else digits f b (n / b) ++ [f (n % b).digitChar] := by
  unfold digits
  rw [Nat.toDigits_eq_if hb]
  by_cases h : n < b
  · rw [if_pos h, if_pos h]
    rfl
  · rw [if_neg h, if_neg h, List.map_append]
    rfl

theorem digits_length_pos (n : Nat) : 0 < (digits f b n).length := by
  rw [digits, List.length_map]
  exact Nat.length_toDigits_pos

theorem digits_length_le_iff (hb : 1 < b) {n k : Nat} (hk : 0 < k) :
    (digits f b n).length ≤ k ↔ n < b ^ k := by
  rw [digits, List.length_map]
  exact Nat.length_toDigits_le_iff hb hk

variable [Coded α]

theorem valueFrom_append (cs cs' : List α) : ∀ acc,
    valueFrom b acc (cs ++ cs') = (valueFrom b acc cs).bind fun v => valueFrom b v cs' := by
  induction cs with
  | nil => exact fun acc => rfl
  | cons c cs ih =>
    intro acc
    rw [List.cons_append, valueFrom, valueFrom]
    cases digitVal c with
    | none => rfl
    | some d =>
      by_cases hd : d < b
      · simp only [if_pos hd]
        exact ih _
      · simp only [if_neg hd]
        rfl

theorem valueFrom_spelled (hf : Spells f b) {d : Nat} (hd : d < b) (acc : Nat) :
    valueFrom b acc [f d.digitChar] = some (b * acc + d) := by
  rw [valueFrom, hf d hd]
  simp only [if_pos hd]
  rfl

theorem value_digits (hb : 1 < b) (hf : Spells f b) (n : Nat) :
    value b (digits f b n) = some n := by
  induction n using Nat.strongRecOn with
  | ind n ih =>
    rw [digits_eq_if hb, value]
    by_cases h : n < b
    · rw [if_pos h, valueFrom_spelled hf h, Nat.mul_zero, Nat.zero_add]
    · have hquot : valueFrom b 0 (digits f b (n / b)) = some (n / b) :=
        ih _ (Nat.div_lt_self (by omega) hb)
      rw [if_neg h, valueFrom_append, hquot, Option.bind_some,
        valueFrom_spelled hf (Nat.mod_lt n (by omega)), Nat.div_add_mod]

theorem value_replicate_zero (hb : 1 < b) (k : Nat) (cs : List UInt8) :
    value b (List.replicate k 48 ++ cs) = value b cs := by
  induction k with
  | zero => rfl
  | succ k ih =>
    have hz : digitVal (48 : UInt8) = some 0 := by decide
    rw [← ih, List.replicate_succ, List.cons_append]
    unfold value
    rw [valueFrom, hz]
    simp only [if_pos (Nat.lt_trans Nat.zero_lt_one hb), Nat.mul_zero, Nat.add_zero]

theorem digitVal_of_valueFrom {cs : List α} : ∀ {acc v : Nat}, valueFrom b acc cs = some v →
    ∀ c ∈ cs, digitVal c ≠ none := by
  induction cs with
  | nil => exact fun _ c hc => nomatch hc
  | cons c cs ih =>
    intro acc v h
    rw [valueFrom] at h
    cases hc : digitVal c with
    | none =>
      rw [hc] at h
      cases h
    | some d =>
      rw [hc] at h
      by_cases hd : d < b
      · simp only [if_pos hd] at h
        rw [List.forall_mem_cons, hc]
        exact ⟨by nofun, ih h⟩
      · simp only [if_neg hd] at h
        cases h

theorem digitVal_of_mem_digits (hb : 1 < b) (hf : Spells f b) {n : Nat} {c : α}
    (h : c ∈ digits f b n) : digitVal c ≠ none :=
  digitVal_of_valueFrom (value_digits hb hf n) c h

end Base

end Digits
