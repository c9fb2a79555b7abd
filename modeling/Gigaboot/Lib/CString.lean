import Gigaboot.Lib.ByteMem
import Mathlib.Tactic.Common

/-!
# Strings in memory

Strings that end at a zero byte, and what a comparison of a fixed number of bytes says
about them.

* `Holds.read_eq_iff_prefix`: as many bytes as a text has are that text if and only if the
  string starts with it;
* `Holds.read_succ_eq_iff`: with the terminator, if and only if the string is that text;
* `Holds.takeWhile_read`: the bytes up to the first zero are the string.
-/

namespace CString

open ByteMem

/-- The memory starts with the string `s` and its terminator. -/
structure Holds (m : Mem) (s : List UInt8) : Prop where
  chars : read m 0 s.length = s
  stop : m s.length = 0
  nonzero : 0 ∉ s

theorem Holds.getElem {m : Mem} {s : List UInt8} (h : Holds m s) {i : Nat} (hi : i < s.length) :
    m i = s[i] := by
  have hg := read_getD m 0 s.length i hi
  rw [h.chars, List.getD_eq_getElem _ _ hi, Nat.zero_add] at hg
  exact hg.symm

/-- A string is as long as the bytes before the first zero. -/
theorem Holds.length_le {m : Mem} {s : List UInt8} (h : Holds m s) {n : Nat}
    (hn : ∀ i < n, m i ≠ 0) : n ≤ s.length := by
  by_contra hlt
  exact hn s.length (by omega) h.stop

/-- As many bytes as `t` has. -/
theorem Holds.read_eq_iff_prefix {m : Mem} {s t : List UInt8} (h : Holds m s) (ht : 0 ∉ t) :
    read m 0 t.length = t ↔ t <+: s := by
  constructor
  · intro hread
    have hchar : ∀ i (hi : i < t.length), m i = t[i] := by
      intro i hi
      have hg := read_getD m 0 t.length i hi
      rw [hread, List.getD_eq_getElem _ _ hi, Nat.zero_add] at hg
      exact hg.symm
    have hlen : t.length ≤ s.length := h.length_le fun i hi hz =>
      ht (hz ▸ hchar i hi ▸ List.getElem_mem hi)
    rw [List.prefix_iff_eq_take, ← hread, read_length]
    apply List.ext_getElem
    · rw [read_length, List.length_take, Nat.min_eq_left hlen]
    · intro i h₁ h₂
      rw [read_length] at h₁
      rw [read_getElem, List.getElem_take, Nat.zero_add, h.getElem (by omega)]
  · rintro ⟨u, rfl⟩
    have hall := h.chars
    rw [List.length_append] at hall
    exact (read_eq_append (n := t.length + u.length) hall).1

/-- As many bytes as `t` has with its terminator. -/
theorem Holds.read_succ_eq_iff {m : Mem} {s t : List UInt8} (h : Holds m s) (ht : 0 ∉ t) :
    read m 0 (t.length + 1) = t ++ [0] ↔ s = t := by
  rw [read_add, read_one, Nat.zero_add]
  constructor
  · intro hread
    obtain ⟨htext, hzero⟩ := List.append_inj hread (read_length _ _ _)
    obtain ⟨u, rfl⟩ := (h.read_eq_iff_prefix ht).mp htext
    cases u with
    | nil => exact List.append_nil t
    | cons c u =>
      -- the string would go on after its first zero
      have hlt : t.length < (t ++ c :: u).length := by
        rw [List.length_append, List.length_cons]
        omega
      have hc := h.getElem hlt
      have hzero' : m t.length = 0 := (List.cons.inj hzero).1
      rw [hzero'] at hc
      exact absurd (hc ▸ List.getElem_mem _) h.nonzero
  · rintro rfl
    rw [h.chars, h.stop]

theorem Holds.takeWhile_read {m : Mem} {s : List UInt8} (h : Holds m s) {n : Nat}
    (hn : s.length < n) : (read m 0 n).takeWhile (· ≠ 0) = s := by
  obtain ⟨k, rfl⟩ := Nat.exists_eq_add_of_lt hn
  have hkeep : ∀ c ∈ s, decide (c ≠ 0) = true := fun c hc =>
    decide_eq_true fun hzero => h.nonzero (hzero ▸ hc)
  rw [Nat.add_assoc, read_add, h.chars, Nat.add_comm k 1, read_add, Nat.zero_add, read_one, h.stop,
    List.takeWhile_append_of_pos hkeep]
  exact List.append_nil s

end CString
