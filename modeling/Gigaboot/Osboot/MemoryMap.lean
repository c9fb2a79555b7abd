import Mathlib.Tactic.Common
import Gigaboot.Lib.ByteMem

/-!
# The memory map

`process_memory_map` of `osboot.c`: the descriptors that `GetMemoryMap` left in the
scratch buffer are turned into E820 entries, with neighbours of one type merged.

* `convert`: the entries that the descriptors of a map stand for;
* `scan_eq`: the loop of `process_memory_map` computes them, or stops at a full table;
* `processMemoryMap_ok`, `processMemoryMap_failed`: the maps for which the call succeeds;
* `capacity_used_iff`: how much of the table can be used.
-/

namespace Gigaboot.Osboot

open ByteMem

inductive E820Type
  | ignore | ram | reserved | acpi | nvs | unusable
  deriving DecidableEq, Repr

def E820Type.toUInt32 : E820Type → UInt32
  | ignore => 0
  | ram => 1
  | reserved => 2
  | acpi => 3
  | nvs => 4
  | unusable => 5

def efiReservedMemoryType : UInt32 := 0
def efiLoaderCode : UInt32 := 1
def efiLoaderData : UInt32 := 2
def efiBootServicesCode : UInt32 := 3
def efiBootServicesData : UInt32 := 4
def efiRuntimeServicesCode : UInt32 := 5
def efiRuntimeServicesData : UInt32 := 6
def efiConventionalMemory : UInt32 := 7
def efiACPIReclaimMemory : UInt32 := 9
def efiACPIMemoryNVS : UInt32 := 10
def efiMemoryMappedIO : UInt32 := 11
def efiMemoryMappedIOPortSpace : UInt32 := 12
def efiPalCode : UInt32 := 13

/-- `e820type`, without `WITH_RUNTIME_SERVICES`. -/
def e820type (uefiMemType : UInt32) : E820Type :=
  if uefiMemType = efiReservedMemoryType ∨ uefiMemType = efiPalCode then .reserved
  else if uefiMemType = efiRuntimeServicesCode ∨ uefiMemType = efiRuntimeServicesData then .ram
  else if uefiMemType = efiACPIReclaimMemory then .acpi
  else if uefiMemType = efiACPIMemoryNVS then .nvs
  else if uefiMemType = efiLoaderCode ∨ uefiMemType = efiLoaderData ∨
      uefiMemType = efiBootServicesCode ∨ uefiMemType = efiBootServicesData ∨
      uefiMemType = efiConventionalMemory then .ram
  else if uefiMemType = efiMemoryMappedIO ∨ uefiMemType = efiMemoryMappedIOPortSpace then .ignore
  else if uefiMemType ≥ 0x80000000 then .ram
  else .unusable

/-- The fields of an `EFI_MEMORY_DESCRIPTOR` that are looked at. -/
structure Descriptor where
  type : UInt32
  physicalStart : UInt64
  numberOfPages : UInt64
  deriving DecidableEq, Repr

structure E820Entry where
  addr : UInt64
  size : UInt64
  type : E820Type
  deriving DecidableEq, Repr

/-- The 20 bytes of an entry, which is packed. -/
def E820Entry.bytes (e : E820Entry) : List UInt8 :=
  bytes64 e.addr ++ bytes64 e.size ++ bytes32 e.type.toUInt32

@[simp] theorem E820Entry.bytes_length (e : E820Entry) : e.bytes.length = 20 := by
  simp [bytes]

/-- What `GetMemoryMap` reports when it succeeds. -/
structure MemoryMap where
  /-- the scratch buffer after the call -/
  scratch : Mem
  msize : Nat
  /-- the size of a descriptor -/
  dsize : Nat

def scratchSize : Nat := 32768
def e820Max : Nat := 128

def descriptorAt (scratch : Mem) (off : Nat) : Descriptor :=
  ⟨ld32 scratch off, ld64 scratch (off + 8), ld64 scratch (off + 24)⟩

/-- The body of the loop up to `n++`: a descriptor is skipped, extends the last entry, or
becomes a new one. -/
def addEntry (entries : List E820Entry) (d : Descriptor) : List E820Entry :=
  let type := e820type d.type
  if type = .ignore then entries
  else
    let new : E820Entry := ⟨d.physicalStart, d.numberOfPages * 4096, type⟩
    match entries.getLast? with
    | none => entries ++ [new]
    | some e =>
      if e.type = type ∧ e.addr + e.size = d.physicalStart then
        entries.dropLast ++ [{ e with size := e.size + d.numberOfPages * 4096 }]
      else entries ++ [new]

inductive Scan
  | finished (entries : List E820Entry)
  | full (entries : List E820Entry)
  | endless

/-- The loop over the descriptors from `off` on.  The count only grows when an entry is
appended, so the table is found to be full there.  A sum of `off` and `dsize` does not
overflow: a second round starts below `msize`, which is at most 32768. -/
def scanLoop (m : MemoryMap) : Nat → Nat → List E820Entry → Scan
  | 0, _, _ => .endless
  | fuel + 1, off, entries =>
    if off < m.msize then
      let entries := addEntry entries (descriptorAt m.scratch off)
      if entries.length = e820Max then .full entries
      else scanLoop m fuel (off + m.dsize) entries
    else .finished entries

/-- With a positive `dsize` there are at most `msize` rounds.  With `dsize` 0 the loop
stays at one descriptor, which fills the table in 128 rounds or never. -/
def scan (m : MemoryMap) : Scan := scanLoop m (m.msize + e820Max + 1) 0 []

structure MapReply where
  status : UInt64
  mkey : UInt64
  map : MemoryMap

/-- The static table, and the caller's `key`. -/
structure MapVars where
  e820table : List E820Entry
  key : UInt64

/-- The table before its first use, and any `key`. -/
def freshVars (key : UInt64) : MapVars := ⟨List.replicate e820Max ⟨0, 0, .ignore⟩, key⟩

/-- The table after its first entries were written. -/
def overlay (entries table : List E820Entry) : List E820Entry :=
  entries ++ table.drop entries.length

def efiSuccess : UInt64 := 0

/-- The returns with a message about `msize / dsize` entries, which faults without a size. -/
def tooLarge (r : MapReply) (silent : Bool) (v : MapVars) : Option (Int × MapVars) :=
  if silent = false ∧ r.map.dsize = 0 then none else some (-1, v)

/-- `process_memory_map`; `none` if it does not return. -/
def processMemoryMap (r : MapReply) (v : MapVars) (silent : Bool) : Option (Int × MapVars) :=
  if r.status ≠ efiSuccess then some (-1, v)
  else if r.map.msize > scratchSize then tooLarge r silent v
  else
    match scan r.map with
    | .endless => none
    | .full entries => tooLarge r silent { v with e820table := overlay entries v.e820table }
    | .finished entries => some (entries.length, ⟨overlay entries v.e820table, r.mkey⟩)

/-! ## The map as a list -/

def descriptorsFrom (m : MemoryMap) : Nat → Nat → List Descriptor
  | 0, _ => []
  | k + 1, off => descriptorAt m.scratch off :: descriptorsFrom m k (off + m.dsize)

/-- The descriptors that start inside the map. -/
def descriptors (m : MemoryMap) : List Descriptor :=
  descriptorsFrom m ((m.msize + m.dsize - 1) / m.dsize) 0

/-- The E820 table that a map stands for. -/
def convert (m : MemoryMap) : List E820Entry := (descriptors m).foldl addEntry []

theorem length_le_addEntry (entries : List E820Entry) (d : Descriptor) :
    entries.length ≤ (addEntry entries d).length ∧
      (addEntry entries d).length ≤ entries.length + 1 := by
  unfold addEntry
  dsimp only
  split
  · exact ⟨Nat.le_refl _, Nat.le_succ _⟩
  · cases hlast : entries.getLast? with
    | none => simp
    | some e =>
      have hne : entries ≠ [] := by rintro rfl; cases hlast
      have hpos := List.length_pos_iff.mpr hne
      dsimp only
      split
      · simp only [List.length_append, List.length_dropLast, List.length_singleton]
        omega
      · simp

theorem length_le_foldl_addEntry (ds : List Descriptor) (entries : List E820Entry) :
    entries.length ≤ (ds.foldl addEntry entries).length := by
  induction ds generalizing entries with
  | nil => exact Nat.le_refl _
  | cons d ds ih => exact Nat.le_trans (length_le_addEntry entries d).1 (ih _)

/-- `k` is the number of descriptors that start at or after `off`. -/
def Remaining (m : MemoryMap) (off k : Nat) : Prop :=
  m.msize ≤ off + k * m.dsize ∧ ∀ j < k, off + j * m.dsize < m.msize

theorem Remaining.next {m : MemoryMap} {off k : Nat} (h : Remaining m off (k + 1)) :
    Remaining m (off + m.dsize) k := by
  refine ⟨?_, fun j hj => ?_⟩
  · have := h.1
    rw [Nat.succ_mul] at this
    omega
  · have := h.2 (j + 1) (by omega)
    rw [Nat.succ_mul] at this
    omega

theorem remaining_start {m : MemoryMap} (hd : 0 < m.dsize) :
    Remaining m 0 ((m.msize + m.dsize - 1) / m.dsize) := by
  have hdiv := Nat.div_add_mod (m.msize + m.dsize - 1) m.dsize
  have hmod := Nat.mod_lt (m.msize + m.dsize - 1) hd
  rw [Nat.mul_comm] at hdiv
  refine ⟨by omega, fun j hj => ?_⟩
  have hle := Nat.mul_le_mul_right m.dsize hj
  rw [Nat.succ_mul] at hle
  omega

/-- The loop computes the conversion of the descriptors it has before it, unless the
table is full on the way. -/
theorem scanLoop_eq {m : MemoryMap} {k : Nat} : ∀ {fuel off : Nat} {entries : List E820Entry},
    k < fuel → Remaining m off k → entries.length < e820Max →
    if ((descriptorsFrom m k off).foldl addEntry entries).length < e820Max then
      scanLoop m fuel off entries =
        .finished ((descriptorsFrom m k off).foldl addEntry entries)
    else ∃ full, scanLoop m fuel off entries = .full full := by
  induction k with
  | zero =>
    intro fuel off entries hfuel hrem hlen
    obtain ⟨fuel, rfl⟩ := Nat.exists_eq_succ_of_ne_zero (Nat.ne_of_gt hfuel)
    have hoff : ¬ off < m.msize := by
      have := hrem.1
      omega
    rw [descriptorsFrom, List.foldl_nil, if_pos hlen, scanLoop, if_neg hoff]
  | succ k ih =>
    intro fuel off entries hfuel hrem hlen
    obtain ⟨fuel, rfl⟩ := Nat.exists_eq_succ_of_ne_zero (Nat.ne_of_gt (Nat.zero_lt_of_lt hfuel))
    have hoff : off < m.msize := by
      have := hrem.2 0 (by omega)
      omega
    have hstep := length_le_addEntry entries (descriptorAt m.scratch off)
    rw [descriptorsFrom, List.foldl_cons, scanLoop, if_pos hoff]
    dsimp only
    by_cases hfull : (addEntry entries (descriptorAt m.scratch off)).length = e820Max
    · have hmono := length_le_foldl_addEntry (descriptorsFrom m k (off + m.dsize))
        (addEntry entries (descriptorAt m.scratch off))
      rw [if_neg (by omega), if_pos hfull]
      exact ⟨_, rfl⟩
    · rw [if_neg hfull]
      exact ih (by omega) hrem.next (by omega)

/-- The loop of `process_memory_map`, on a map with descriptors of a positive size. -/
theorem scan_eq {m : MemoryMap} (hd : 0 < m.dsize) :
    if (convert m).length < e820Max then scan m = .finished (convert m)
    else ∃ full, scan m = .full full := by
  have hrem := remaining_start hd
  refine scanLoop_eq ?_ hrem (by decide)
  have hle : (m.msize + m.dsize - 1) / m.dsize ≤ m.msize := by
    by_contra hlt
    have := hrem.2 m.msize (by omega)
    have := Nat.le_mul_of_pos_right m.msize hd
    omega
  omega

/-- Without a size the loop does not get to the end of a map. -/
theorem scanLoop_stuck {m : MemoryMap} (hd : m.dsize = 0) (hm : 0 < m.msize) (fuel : Nat) :
    ∀ entries result, scanLoop m fuel 0 entries ≠ .finished result := by
  induction fuel with
  | zero =>
    intro entries result h
    cases h
  | succ fuel ih =>
    intro entries result h
    rw [scanLoop, if_pos hm] at h
    dsimp only at h
    split at h
    · cases h
    · rw [hd] at h
      exact ih _ _ h

/-- The maps that fit: they are in the scratch buffer and have at most 127 entries. -/
structure Fits (m : MemoryMap) : Prop where
  size : m.msize ≤ scratchSize
  step : m.msize = 0 ∨ 0 < m.dsize
  entries : (convert m).length < e820Max

theorem convert_empty {m : MemoryMap} (h : m.msize = 0) : convert m = [] := by
  have hcount : (m.msize + m.dsize - 1) / m.dsize = 0 := by
    rcases Nat.eq_zero_or_pos m.dsize with hd | hd
    · rw [hd, Nat.div_zero]
    · exact Nat.div_eq_of_lt (by omega)
  rw [convert, descriptors, hcount]
  rfl

theorem scan_of_fits {m : MemoryMap} (h : Fits m) : scan m = .finished (convert m) := by
  rcases h.step with h0 | hd
  · rw [convert_empty h0, scan, h0, scanLoop, if_neg (by omega)]
  · have hscan := scan_eq hd
    rw [if_pos h.entries] at hscan
    exact hscan

/-- The call succeeds on a map that fits, with its conversion and its key. -/
theorem processMemoryMap_ok {r : MapReply} (hs : r.status = efiSuccess) (hf : Fits r.map)
    (v : MapVars) (silent : Bool) :
    processMemoryMap r v silent =
      some (((convert r.map).length : Int), ⟨overlay (convert r.map) v.e820table, r.mkey⟩) := by
  rw [processMemoryMap, if_neg (not_not_intro hs), if_neg (Nat.not_lt.mpr hf.size),
    scan_of_fits hf]

theorem tooLarge_some {r : MapReply} {silent : Bool} {v v' : MapVars} {n : Int}
    (h : tooLarge r silent v = some (n, v')) : n = -1 ∧ v' = v := by
  unfold tooLarge at h
  split at h
  · cases h
  · cases h
    exact ⟨rfl, rfl⟩

/-- A call for a map that does not fit fails, if it returns, and leaves `key` alone. -/
theorem processMemoryMap_failed {r : MapReply} (h : ¬ (r.status = efiSuccess ∧ Fits r.map))
    {v v' : MapVars} {silent : Bool} {n : Int}
    (hr : processMemoryMap r v silent = some (n, v')) : n = -1 ∧ v'.key = v.key := by
  unfold processMemoryMap at hr
  by_cases hs : r.status = efiSuccess
  swap
  · rw [if_pos hs, Option.some.injEq, Prod.mk.injEq] at hr
    exact ⟨hr.1.symm, by rw [← hr.2]⟩
  by_cases hsize : r.map.msize > scratchSize
  · rw [if_neg (not_not_intro hs), if_pos hsize] at hr
    obtain ⟨hn, rfl⟩ := tooLarge_some hr
    exact ⟨hn, rfl⟩
  rw [if_neg (not_not_intro hs), if_neg hsize] at hr
  cases hscan : scan r.map with
  | endless => rw [hscan] at hr; cases hr
  | full entries =>
    rw [hscan] at hr
    obtain ⟨hn, rfl⟩ := tooLarge_some hr
    exact ⟨hn, rfl⟩
  | finished entries =>
    exfalso
    rcases Nat.eq_zero_or_pos r.map.dsize with hd | hd
    · rcases Nat.eq_zero_or_pos r.map.msize with hm | hm
      · refine h ⟨hs, Nat.le_of_not_lt hsize, .inl hm, ?_⟩
        rw [convert_empty hm]
        decide
      · exact scanLoop_stuck hd hm _ _ _ hscan
    · have hfits := scan_eq hd
      split at hfits
      · rename_i hlen
        exact h ⟨hs, Nat.le_of_not_lt hsize, .inr hd, hlen⟩
      · obtain ⟨full, hfull⟩ := hfits
        rw [hfull] at hscan
        cases hscan

/-! ## The capacity of the table -/

/-- The table is found to be full with its last entry. -/
theorem scanLoop_full {m : MemoryMap} (fuel : Nat) : ∀ {off : Nat} {entries full : List E820Entry},
    scanLoop m fuel off entries = .full full → full.length = e820Max := by
  induction fuel with
  | zero =>
    intro off entries full h
    cases h
  | succ fuel ih =>
    intro off entries full h
    rw [scanLoop] at h
    by_cases hoff : off < m.msize
    · rw [if_pos hoff] at h
      dsimp only at h
      by_cases hfull : (addEntry entries (descriptorAt m.scratch off)).length = e820Max
      · rw [if_pos hfull] at h
        cases h
        exact hfull
      · rw [if_neg hfull] at h
        exact ih h
    · rw [if_neg hoff] at h
      cases h

theorem overlay_length {entries table : List E820Entry} (h : entries.length ≤ table.length) :
    (overlay entries table).length = table.length := by
  rw [overlay, List.length_append, List.length_drop]
  omega

theorem processMemoryMap_full {r : MapReply} (hs : r.status = efiSuccess)
    (hsize : r.map.msize ≤ scratchSize) (hlen : e820Max ≤ (convert r.map).length) (v : MapVars)
    (silent : Bool) :
    ∃ full, full.length = e820Max ∧
      processMemoryMap r v silent =
        some (-1, { v with e820table := overlay full v.e820table }) := by
  have hd : 0 < r.map.dsize := by
    by_contra h0
    have hnone : descriptors r.map = [] := by
      rw [descriptors, Nat.eq_zero_of_not_pos h0, Nat.div_zero]
      rfl
    rw [convert, hnone] at hlen
    exact absurd hlen (by decide)
  have hscan := scan_eq hd
  rw [if_neg (Nat.not_lt.mpr hlen)] at hscan
  obtain ⟨full, hfull⟩ := hscan
  refine ⟨full, scanLoop_full _ hfull, ?_⟩
  rw [processMemoryMap, if_neg (not_not_intro hs), if_neg (Nat.not_lt.mpr hsize), hfull]
  exact if_neg fun hnone => Nat.ne_of_gt hd hnone.2

/-- A call that gives up only on a map of more than 128 entries. -/
structure CapacityUsed (r : MapReply) (n : Int) (v' : MapVars) : Prop where
  fails_iff : n = -1 ↔ e820Max < (convert r.map).length
  succeeds : (convert r.map).length ≤ e820Max → n = (convert r.map).length ∧ v'.key = r.mkey

/-- **The capacity of the E820 table** is never exceeded, and it is used in full except by
a map of exactly 128 entries, which is turned down. -/
theorem capacity_used_iff {r : MapReply} (hs : r.status = efiSuccess)
    (hsize : r.map.msize ≤ scratchSize) (hstep : r.map.msize = 0 ∨ 0 < r.map.dsize)
    {v : MapVars} (hv : v.e820table.length = e820Max) (silent : Bool) :
    ∃ n v', processMemoryMap r v silent = some (n, v') ∧ v'.e820table.length = e820Max ∧
      (CapacityUsed r n v' ↔ (convert r.map).length ≠ e820Max) := by
  by_cases hlen : (convert r.map).length < e820Max
  · refine ⟨_, _, processMemoryMap_ok hs ⟨hsize, hstep, hlen⟩ v silent, ?_, ?_⟩
    · dsimp only
      rw [overlay_length (by omega), hv]
    · refine iff_of_true ⟨?_, fun _ => ⟨rfl, rfl⟩⟩ (Nat.ne_of_lt hlen)
      exact iff_of_false (by omega) (by omega)
  · obtain ⟨full, hfull, hcall⟩ := processMemoryMap_full hs hsize (Nat.not_lt.mp hlen) v silent
    refine ⟨_, _, hcall, ?_, ?_⟩
    · dsimp only
      rw [overlay_length (by omega), hv]
    · constructor
      · intro hused
        have hmore := hused.fails_iff.mp rfl
        omega
      · intro hne
        have hmore : e820Max < (convert r.map).length := by omega
        exact ⟨iff_of_true rfl hmore, fun hle => absurd hmore (Nat.not_lt.mpr hle)⟩

/-- `count` pages of conventional memory, at every other page from 0 on: the type, two bytes of
the address and the number of pages of each descriptor are not zero. -/
def scatteredPages (count : Nat) : MemoryMap where
  scratch off :=
    if off % 48 = 0 then 7
    else if off % 48 = 9 then UInt8.ofNat (32 * (off / 48))
    else if off % 48 = 10 then UInt8.ofNat (off / 48 / 8)
    else if off % 48 = 24 then 1
    else 0
  msize := 48 * count
  dsize := 48

/-- A map of 127 entries gets in, and one of 129 is turned down. -/
theorem capacity_used_iff_scattered :
    (∃ v', processMemoryMap ⟨efiSuccess, 7, scatteredPages 127⟩ (freshVars 0) false =
        some (127, v') ∧ v'.e820table.length = e820Max ∧ v'.key = 7) ∧
    ∃ v', processMemoryMap ⟨efiSuccess, 7, scatteredPages 129⟩ (freshVars 0) false =
        some (-1, v') ∧ v'.e820table.length = e820Max := by
  have hmost : (convert (scatteredPages 127)).length = 127 := by decide +kernel
  have hmore : (convert (scatteredPages 129)).length = 129 := by decide +kernel
  constructor
  · obtain ⟨n, v', hcall, hlen, hiff⟩ :=
      capacity_used_iff (r := ⟨efiSuccess, 7, scatteredPages 127⟩) (v := freshVars 0) rfl
        (by decide) (.inr (by decide)) List.length_replicate false
    obtain ⟨rfl, hkey⟩ := (hiff.mpr (by rw [hmost]; decide)).succeeds (by rw [hmost]; decide)
    rw [hmost] at hcall
    exact ⟨v', hcall, hlen, hkey⟩
  · obtain ⟨n, v', hcall, hlen, hiff⟩ :=
      capacity_used_iff (r := ⟨efiSuccess, 7, scatteredPages 129⟩) (v := freshVars 0) rfl
        (by decide) (.inr (by decide)) List.length_replicate false
    obtain rfl := (hiff.mpr (by rw [hmore]; decide)).fails_iff.mpr (by rw [hmore]; decide)
    exact ⟨v', hcall, hlen⟩

/-- A map of 128 entries, for all of which there is room. -/
theorem full_table_refused :
    (convert (scatteredPages 128)).length = e820Max ∧
    (processMemoryMap ⟨efiSuccess, 7, scatteredPages 128⟩ (freshVars 0) false).map Prod.fst =
      some (-1) := by
  have hlen : (convert (scatteredPages 128)).length = e820Max := by decide +kernel
  refine ⟨hlen, ?_⟩
  obtain ⟨full, -, hcall⟩ := processMemoryMap_full (r := ⟨efiSuccess, 7, scatteredPages 128⟩) rfl
    (by decide) (Nat.le_of_eq hlen.symm) (freshVars 0) false
  rw [hcall]
  rfl

/-- A map that is too large, of descriptors without a size: the message about it faults. -/
example : processMemoryMap ⟨efiSuccess, 7, fun _ => 0, scratchSize + 1, 0⟩ (freshVars 0) false =
    none := rfl

end Gigaboot.Osboot
