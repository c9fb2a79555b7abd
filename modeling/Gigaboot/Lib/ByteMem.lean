import Mathlib.Data.List.GetD

/-!
# Byte memory

Memory as one pointer sees it, with reads and writes of byte strings and the
little- and big-endian words of the usual machine types.

* `read_write_self`, `read_write_disjoint`: what a read gives after a write of
  the same range, and of a range apart from it;
* `write_outside`: a write changes nothing outside its range;
* `read_add`: a read splits at any point, so a layout is checked field by field;
* `ld16_of_read`, `ld32_of_read`, `ld64_of_read`: a word from the bytes it was
  stored as.
-/

namespace ByteMem

/-- The byte at each offset from a pointer.  No offset is out of bounds here: a
read past the end of an object gives whatever lies there. -/
abbrev Mem := Nat → UInt8

/-- The `n` bytes from offset `a` on. -/
def read (m : Mem) (a n : Nat) : List UInt8 := (List.range n).map fun i => m (a + i)

/-- Store the bytes `bs` from offset `a` on. -/
def write (m : Mem) (a : Nat) (bs : List UInt8) : Mem :=
  fun i => if a ≤ i ∧ i < a + bs.length then bs.getD (i - a) 0 else m i

/-- A memory that holds `bs` from offset 0 on. -/
def ofList (bs : List UInt8) : Mem := fun i => bs.getD i 0

/-- The memory behind the pointer moved forward by `k`. -/
def shift (m : Mem) (k : Nat) : Mem := fun i => m (k + i)

/-! ## Reads -/

@[simp] theorem read_length (m : Mem) (a n : Nat) : (read m a n).length = n := by
  simp [read]

@[simp] theorem read_zero (m : Mem) (a : Nat) : read m a 0 = [] := rfl

theorem read_getElem (m : Mem) (a n i : Nat) (h : i < (read m a n).length) :
    (read m a n)[i] = m (a + i) := by
  simp [read]

theorem read_getD (m : Mem) (a n i : Nat) (h : i < n) : (read m a n).getD i 0 = m (a + i) := by
  rw [List.getD_eq_getElem _ _ (by simpa using h), read_getElem]

theorem read_add (m : Mem) (a n k : Nat) : read m a (n + k) = read m a n ++ read m (a + n) k := by
  apply List.ext_getElem
  · simp
  · intro i h₁ h₂
    rw [List.getElem_append]
    split
    · rw [read_getElem, read_getElem]
    · rename_i h
      rw [read_length] at h
      rw [read_getElem, read_getElem, read_length]
      congr 1
      omega

theorem read_one (m : Mem) (a : Nat) : read m a 1 = [m a] := rfl

theorem read_two (m : Mem) (a : Nat) : read m a 2 = [m a, m (a + 1)] := rfl

theorem read_congr {m m' : Mem} {a n : Nat} (h : ∀ i, a ≤ i → i < a + n → m i = m' i) :
    read m a n = read m' a n := by
  apply List.map_congr_left
  intro i hi
  rw [List.mem_range] at hi
  exact h (a + i) (by omega) (by omega)

theorem read_eq_iff {m m' : Mem} {a n : Nat} :
    read m a n = read m' a n ↔ ∀ i < n, m (a + i) = m' (a + i) := by
  constructor
  · intro h i hi
    rw [← read_getD m a n i hi, ← read_getD m' a n i hi, h]
  · intro h
    apply read_congr
    intro i hlo hhi
    have := h (i - a) (by omega)
    rwa [Nat.add_sub_cancel' hlo] at this

theorem read_shift (m : Mem) (k a n : Nat) : read (shift m k) a n = read m (k + a) n := by
  simp [read, shift, Nat.add_assoc]

theorem read_ofList (bs : List UInt8) : read (ofList bs) 0 bs.length = bs := by
  apply List.ext_getElem
  · simp
  · intro i h₁ h₂
    rw [read_getElem, Nat.zero_add, ofList, List.getD_eq_getElem _ _ h₂]

/-- A read that is a concatenation splits into its two parts. -/
theorem read_eq_append {m : Mem} {a n : Nat} {xs ys : List UInt8}
    (h : read m a n = xs ++ ys) :
    read m a xs.length = xs ∧ read m (a + xs.length) ys.length = ys := by
  have hn : n = xs.length + ys.length := by
    have := congrArg List.length h
    simpa using this
  rw [hn, read_add] at h
  exact List.append_inj h (by simp)

theorem read_part {m m' : Mem} {a b n : Nat} (h : read m a n = read m' b n) (k r : Nat)
    (hk : k + r ≤ n) : read m (a + k) r = read m' (b + k) r := by
  obtain ⟨t, rfl⟩ := Nat.exists_eq_add_of_le hk
  rw [read_add, read_add, read_add, read_add] at h
  have h' := (List.append_inj h (by simp)).1
  exact (List.append_inj h' (by simp)).2

theorem read_ofList_read (m : Mem) (a n k r : Nat) (h : k + r ≤ n) :
    read (ofList (read m a n)) k r = read m (a + k) r := by
  have hcopy : read (ofList (read m a n)) 0 n = read m a n := by
    have := read_ofList (read m a n)
    rwa [read_length] at this
  have hpart := read_part hcopy k r h
  rwa [Nat.zero_add] at hpart

/-! ## Writes -/

theorem write_outside (m : Mem) (a : Nat) (bs : List UInt8) (i : Nat)
    (h : i < a ∨ a + bs.length ≤ i) : write m a bs i = m i := by
  simp only [write]
  rw [if_neg (by omega)]

theorem write_inside (m : Mem) (a : Nat) (bs : List UInt8) (i : Nat) (h : i < bs.length) :
    write m a bs (a + i) = bs[i] := by
  simp only [write]
  rw [if_pos (by omega), Nat.add_sub_cancel_left, List.getD_eq_getElem _ _ h]

@[simp] theorem write_nil (m : Mem) (a : Nat) : write m a [] = m := by
  funext i
  exact write_outside m a [] i (by simp only [List.length_nil]; omega)

theorem read_write_self (m : Mem) (a n : Nat) (bs : List UInt8) (h : n = bs.length) :
    read (write m a bs) a n = bs := by
  subst h
  apply List.ext_getElem
  · simp
  · intro i h₁ h₂
    rw [read_getElem, write_inside _ _ _ _ h₂]

theorem read_write_disjoint (m : Mem) (a n b : Nat) (bs : List UInt8)
    (h : a + n ≤ b ∨ b + bs.length ≤ a) : read (write m b bs) a n = read m a n := by
  apply read_congr
  intro i hlo hhi
  exact write_outside _ _ _ _ (by omega)

/-- Writing right after a prefix extends it. -/
theorem read_write_append (m : Mem) (n : Nat) (bs : List UInt8) :
    read (write m n bs) 0 (n + bs.length) = read m 0 n ++ bs := by
  rw [read_add, Nat.zero_add, read_write_disjoint _ _ _ _ _ (.inl (by omega)),
    read_write_self _ _ _ _ rfl]

theorem write_append (m : Mem) (a b : Nat) (xs ys : List UInt8) (h : b = a + xs.length) :
    write (write m a xs) b ys = write m a (xs ++ ys) := by
  subst h
  funext i
  simp only [write, List.length_append]
  by_cases hlo : i < a + xs.length
  · rw [if_neg (by omega)]
    by_cases ha : a ≤ i
    · rw [if_pos ⟨ha, hlo⟩, if_pos ⟨ha, by omega⟩, List.getD_append _ _ _ _ (by omega)]
    · rw [if_neg (by omega), if_neg (by omega)]
  · by_cases hhi : i < a + xs.length + ys.length
    · rw [if_pos ⟨by omega, hhi⟩, if_pos ⟨by omega, by omega⟩,
        List.getD_append_right _ _ _ _ (by omega)]
      congr 1
      omega
    · rw [if_neg (by omega), if_neg (by omega), if_neg (by omega)]

/-- A write over a part of a write replaces that part. -/
theorem write_middle (m : Mem) (a b : Nat) (xs ys ys' zs : List UInt8) (h : b = a + xs.length)
    (hlen : ys'.length = ys.length) :
    write (write m a (xs ++ ys ++ zs)) b ys' = write m a (xs ++ ys' ++ zs) := by
  subst h
  funext i
  simp only [write, List.length_append, hlen]
  by_cases hin : a + xs.length ≤ i ∧ i < a + xs.length + ys.length
  · rw [if_pos hin, if_pos (by omega), List.append_assoc, List.getD_append_right _ _ _ _ (by omega),
      List.getD_append _ _ _ _ (by omega)]
    congr 1
    omega
  · rw [if_neg hin]
    by_cases hall : a ≤ i ∧ i < a + (xs.length + ys.length + zs.length)
    · rw [if_pos hall, if_pos hall]
      by_cases hlo : i < a + xs.length
      · rw [List.append_assoc, List.append_assoc, List.getD_append _ _ _ _ (by omega),
          List.getD_append _ _ _ _ (by omega)]
      · rw [List.getD_append_right _ _ _ _ (by simp only [List.length_append]; omega),
          List.getD_append_right _ _ _ _ (by simp only [List.length_append]; omega)]
        simp only [List.length_append, hlen]
    · rw [if_neg hall, if_neg hall]

theorem read_write_middle {m : Mem} {a n : Nat} {xs ys zs : List UInt8} (ys' : List UInt8)
    (h : read m a n = xs ++ ys ++ zs) (hlen : ys'.length = ys.length) :
    read (write m (a + xs.length) ys') a n = xs ++ ys' ++ zs := by
  have hn : n = xs.length + ys.length + zs.length := by
    have := congrArg List.length h
    rwa [read_length, List.length_append, List.length_append] at this
  obtain ⟨h, hz⟩ := read_eq_append h
  obtain ⟨hx, -⟩ := read_eq_append h
  rw [List.length_append] at hz
  rw [hn, read_add, read_add, read_write_disjoint _ _ _ _ _ (.inl (Nat.le_refl _)), hx,
    read_write_self _ _ _ _ hlen.symm, read_write_disjoint _ _ _ _ _ (.inr (by omega)), hz]

/-! ## Words -/

/-- Little-endian 16-bit load. -/
def ld16 (m : Mem) (a : Nat) : UInt16 :=
  UInt16.ofNat ((m a).toNat + 256 * (m (a + 1)).toNat)

/-- Little-endian 32-bit load. -/
def ld32 (m : Mem) (a : Nat) : UInt32 :=
  UInt32.ofNat ((m a).toNat + 256 * (m (a + 1)).toNat + 65536 * (m (a + 2)).toNat
    + 16777216 * (m (a + 3)).toNat)

/-- Little-endian 64-bit load. -/
def ld64 (m : Mem) (a : Nat) : UInt64 :=
  UInt64.ofNat ((ld32 m a).toNat + 4294967296 * (ld32 m (a + 4)).toNat)

/-- The bytes of a little-endian 16-bit store. -/
def bytes16 (v : UInt16) : List UInt8 := [UInt8.ofNat v.toNat, UInt8.ofNat (v.toNat / 256)]

/-- The bytes of a little-endian 32-bit store. -/
def bytes32 (v : UInt32) : List UInt8 :=
  [UInt8.ofNat v.toNat, UInt8.ofNat (v.toNat / 256), UInt8.ofNat (v.toNat / 65536),
    UInt8.ofNat (v.toNat / 16777216)]

/-- The bytes of a little-endian 64-bit store. -/
def bytes64 (v : UInt64) : List UInt8 :=
  bytes32 (UInt32.ofNat v.toNat) ++ bytes32 (UInt32.ofNat (v.toNat / 4294967296))

@[simp] theorem bytes16_length (v : UInt16) : (bytes16 v).length = 2 := rfl
@[simp] theorem bytes32_length (v : UInt32) : (bytes32 v).length = 4 := rfl
@[simp] theorem bytes64_length (v : UInt64) : (bytes64 v).length = 8 := rfl

theorem ld16_toNat (m : Mem) (a : Nat) :
    (ld16 m a).toNat = (m a).toNat + 256 * (m (a + 1)).toNat := by
  have h₀ := (m a).toNat_lt
  have h₁ := (m (a + 1)).toNat_lt
  simp only [ld16, UInt16.toNat_ofNat']
  omega

theorem ld32_toNat (m : Mem) (a : Nat) :
    (ld32 m a).toNat = (m a).toNat + 256 * (m (a + 1)).toNat + 65536 * (m (a + 2)).toNat
      + 16777216 * (m (a + 3)).toNat := by
  have h₀ := (m a).toNat_lt
  have h₁ := (m (a + 1)).toNat_lt
  have h₂ := (m (a + 2)).toNat_lt
  have h₃ := (m (a + 3)).toNat_lt
  simp only [ld32, UInt32.toNat_ofNat']
  omega

theorem ld64_toNat (m : Mem) (a : Nat) :
    (ld64 m a).toNat = (ld32 m a).toNat + 4294967296 * (ld32 m (a + 4)).toNat := by
  have h₀ := (ld32 m a).toNat_lt
  have h₁ := (ld32 m (a + 4)).toNat_lt
  simp only [ld64, UInt64.toNat_ofNat']
  omega

theorem ld16_congr {m m' : Mem} {a : Nat} (h : ∀ i, a ≤ i → i < a + 2 → m i = m' i) :
    ld16 m a = ld16 m' a := by
  simp only [ld16, h a (by omega) (by omega), h (a + 1) (by omega) (by omega)]

theorem ld32_congr {m m' : Mem} {a : Nat} (h : ∀ i, a ≤ i → i < a + 4 → m i = m' i) :
    ld32 m a = ld32 m' a := by
  simp only [ld32, h a (by omega) (by omega), h (a + 1) (by omega) (by omega),
    h (a + 2) (by omega) (by omega), h (a + 3) (by omega) (by omega)]

theorem ld64_congr {m m' : Mem} {a : Nat} (h : ∀ i, a ≤ i → i < a + 8 → m i = m' i) :
    ld64 m a = ld64 m' a := by
  have h₀ : ld32 m a = ld32 m' a := ld32_congr fun i h₁ h₂ => h i h₁ (by omega)
  have h₁ : ld32 m (a + 4) = ld32 m' (a + 4) :=
    ld32_congr fun i h₁ h₂ => h i (by omega) (by omega)
  simp only [ld64, h₀, h₁]

theorem ld16_of_read {m : Mem} {a : Nat} {v : UInt16} (h : read m a 2 = bytes16 v) :
    ld16 m a = v := by
  rw [read_two, bytes16, List.cons.injEq, List.cons.injEq] at h
  obtain ⟨h₀, h₁, -⟩ := h
  have hv := v.toNat_lt
  apply UInt16.toNat_inj.mp
  rw [ld16_toNat, h₀, h₁, UInt8.toNat_ofNat', UInt8.toNat_ofNat']
  omega

theorem ld32_of_read {m : Mem} {a : Nat} {v : UInt32} (h : read m a 4 = bytes32 v) :
    ld32 m a = v := by
  have hb : read m a 4 = [m a, m (a + 1), m (a + 2), m (a + 3)] := rfl
  rw [hb, bytes32, List.cons.injEq, List.cons.injEq, List.cons.injEq, List.cons.injEq] at h
  obtain ⟨h₀, h₁, h₂, h₃, -⟩ := h
  have hv := v.toNat_lt
  apply UInt32.toNat_inj.mp
  rw [ld32_toNat, h₀, h₁, h₂, h₃]
  simp only [UInt8.toNat_ofNat']
  omega

theorem ld64_of_read {m : Mem} {a : Nat} {v : UInt64} (h : read m a 8 = bytes64 v) :
    ld64 m a = v := by
  obtain ⟨h₀, h₁⟩ := read_eq_append h
  rw [bytes32_length, bytes32_length] at h₁
  have hv := v.toNat_lt
  apply UInt64.toNat_inj.mp
  rw [ld64_toNat, ld32_of_read h₀, ld32_of_read h₁]
  simp only [UInt32.toNat_ofNat']
  omega

theorem bytes64_injective {v w : UInt64} (h : bytes64 v = bytes64 w) : v = w := by
  have hv : ld64 (ofList (bytes64 v)) 0 = v := ld64_of_read (read_ofList (bytes64 v))
  have hw : ld64 (ofList (bytes64 w)) 0 = w := ld64_of_read (read_ofList (bytes64 w))
  rw [← hv, h, hw]

theorem bytes32_injective {v w : UInt32} (h : bytes32 v = bytes32 w) : v = w := by
  have hv : ld32 (ofList (bytes32 v)) 0 = v := ld32_of_read (read_ofList (bytes32 v))
  have hw : ld32 (ofList (bytes32 w)) 0 = w := ld32_of_read (read_ofList (bytes32 w))
  rw [← hv, h, hw]

theorem bytes16_ld16 (m : Mem) (a : Nat) : bytes16 (ld16 m a) = read m a 2 := by
  have h₀ := (m a).toNat_lt
  have h₁ := (m (a + 1)).toNat_lt
  rw [read_two, bytes16, ld16_toNat]
  simp only [List.cons.injEq, and_true, ← UInt8.toNat_inj, UInt8.toNat_ofNat']
  omega

theorem ld16_eq_iff (m : Mem) (a : Nat) (v : UInt16) : ld16 m a = v ↔ read m a 2 = bytes16 v :=
  ⟨fun h => h ▸ (bytes16_ld16 m a).symm, ld16_of_read⟩

theorem bytes32_ld32 (m : Mem) (a : Nat) : bytes32 (ld32 m a) = read m a 4 := by
  have hb : read m a 4 = [m a, m (a + 1), m (a + 2), m (a + 3)] := rfl
  have h₀ := (m a).toNat_lt
  have h₁ := (m (a + 1)).toNat_lt
  have h₂ := (m (a + 2)).toNat_lt
  have h₃ := (m (a + 3)).toNat_lt
  rw [hb, bytes32, ld32_toNat]
  simp only [List.cons.injEq, and_true, ← UInt8.toNat_inj, UInt8.toNat_ofNat']
  omega

/-- The `n` bytes at `a` as a fixed-size array. -/
def arrayAt (m : Mem) (a n : Nat) : Vector UInt8 n := Vector.ofFn fun i => m (a + i)

@[simp] theorem arrayAt_toList (m : Mem) (a n : Nat) : (arrayAt m a n).toList = read m a n := by
  apply List.ext_getElem
  · simp
  · intro i h₁ h₂
    rw [read_getElem]
    simp [arrayAt]

theorem arrayAt_of_read {m : Mem} {a n : Nat} {v : Vector UInt8 n} (h : read m a n = v.toList) :
    arrayAt m a n = v :=
  Vector.toList_inj.mp (by rw [arrayAt_toList, h])

theorem arrayAt_congr {m m' : Mem} {a n : Nat} (h : ∀ i, a ≤ i → i < a + n → m i = m' i) :
    arrayAt m a n = arrayAt m' a n :=
  arrayAt_of_read (by rw [arrayAt_toList]; exact read_congr h)

theorem ld16_write16 (m : Mem) (a : Nat) (v : UInt16) : ld16 (write m a (bytes16 v)) a = v :=
  ld16_of_read (read_write_self _ _ _ _ rfl)

theorem ld64_write64 (m : Mem) (a : Nat) (v : UInt64) : ld64 (write m a (bytes64 v)) a = v :=
  ld64_of_read (read_write_self _ _ _ _ rfl)

end ByteMem
