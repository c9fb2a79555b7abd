import Gigaboot.Lib.Ranges
import Gigaboot.Osboot.MemoryMap
import Mathlib.Algebra.Group.Nat.Defs

/-!
# What the E820 table means

The entries and the descriptors of a memory map as ranges of physical addresses.  The loop
of `process_memory_map` adds a descriptor to its table as a range is added to a list of
ranges, so long as no range reaches the end of the address space.

* `addEntry_ranges`: one round of the loop;
* `convert_ranges`: the table is the list of the descriptors, with neighbours merged;
* `processMemoryMap_meaning`: what follows for a call that succeeds.
-/

namespace Gigaboot.Osboot

open ByteMem Ranges

def E820Entry.range (e : E820Entry) : Range E820Type where
  start := e.addr.toNat
  stop := e.addr.toNat + e.size.toNat
  label := e.type
  le := Nat.le_add_right _ _

/-- The addresses that a descriptor describes, under the type it is given. -/
def Descriptor.range (d : Descriptor) : Range E820Type where
  start := d.physicalStart.toNat
  stop := d.physicalStart.toNat + 4096 * d.numberOfPages.toNat
  label := e820type d.type
  le := Nat.le_add_right _ _

/-- The ranges that get into the table. -/
def kept (ds : List Descriptor) : List (Range E820Type) :=
  (ds.map Descriptor.range).filter fun r => r.label ≠ .ignore

def InSpace (r : Range E820Type) : Prop := r.stop < 2 ^ 64

theorem Descriptor.size_toNat {d : Descriptor} (h : InSpace d.range) :
    (d.numberOfPages * 4096).toNat = 4096 * d.numberOfPages.toNat := by
  have h₁ : (4096 : UInt64).toNat = 4096 := rfl
  have hlt : d.physicalStart.toNat + 4096 * d.numberOfPages.toNat < 2 ^ 64 := h
  rw [UInt64.toNat_mul, h₁, Nat.mul_comm, Nat.mod_eq_of_lt (by omega)]

theorem Descriptor.new_range {d : Descriptor} (h : InSpace d.range) :
    E820Entry.range ⟨d.physicalStart, d.numberOfPages * 4096, e820type d.type⟩ = d.range := by
  simp only [E820Entry.range, Descriptor.range, Descriptor.size_toNat h]

/-- The comparison of addresses in 64 bits. -/
theorem touches_iff {e : E820Entry} (he : InSpace e.range) (d : Descriptor) :
    e.range.Touches d.range ↔ e.type = e820type d.type ∧ e.addr + e.size = d.physicalStart := by
  have hlt : e.addr.toNat + e.size.toNat < 2 ^ 64 := he
  have hsum : (e.addr + e.size).toNat = e.addr.toNat + e.size.toNat := by
    rw [UInt64.toNat_add, Nat.mod_eq_of_lt hlt]
  refine and_congr Iff.rfl ?_
  rw [← UInt64.toNat_inj, hsum]
  rfl

theorem merged_range {e : E820Entry} {d : Descriptor} (hd : InSpace d.range)
    (h : e.range.Touches d.range) :
    E820Entry.range { e with size := e.size + d.numberOfPages * 4096 } =
      e.range.merge d.range h := by
  have hstop : e.addr.toNat + e.size.toNat = d.physicalStart.toNat := h.2
  have hlt : d.physicalStart.toNat + 4096 * d.numberOfPages.toNat < 2 ^ 64 := hd
  simp only [E820Entry.range, Descriptor.range, Range.merge, UInt64.toNat_add,
    Descriptor.size_toNat hd, Range.mk.injEq, true_and, and_true]
  omega

theorem addEntry_ranges {entries : List E820Entry} (he : ∀ e ∈ entries, InSpace e.range)
    {d : Descriptor} (hd : InSpace d.range) (ht : e820type d.type ≠ .ignore) :
    (addEntry entries d).map E820Entry.range = push (entries.map E820Entry.range) d.range := by
  unfold addEntry
  dsimp only
  rw [if_neg ht]
  rcases List.eq_nil_or_concat entries with rfl | ⟨l, e, rfl⟩
  · simp [Descriptor.new_range hd]
  · rw [List.concat_eq_append] at he ⊢
    have hin : InSpace e.range := he e (by simp)
    rw [List.map_append, List.map_singleton, push_concat]
    simp only [List.getLast?_concat, List.dropLast_concat]
    by_cases h : e.range.Touches d.range
    · rw [if_pos ((touches_iff hin d).mp h), dif_pos h, List.map_append, List.map_singleton,
        merged_range hd h]
    · rw [if_neg (fun hc => h ((touches_iff hin d).mpr hc)), dif_neg h]
      simp [Descriptor.new_range hd]

theorem foldl_addEntry_ranges (ds : List Descriptor) (hds : ∀ d ∈ ds, InSpace d.range)
    (entries : List E820Entry) (he : ∀ e ∈ entries, InSpace e.range) :
    (ds.foldl addEntry entries).map E820Entry.range =
      (kept ds).foldl push (entries.map E820Entry.range) := by
  induction ds generalizing entries with
  | nil => rfl
  | cons d ds ih =>
    have hd := hds d List.mem_cons_self
    have hrest : ∀ d ∈ ds, InSpace d.range := fun d' h => hds d' (List.mem_cons_of_mem _ h)
    by_cases ht : e820type d.type = .ignore
    · have hskip : addEntry entries d = entries := by
        unfold addEntry
        dsimp only
        rw [if_pos ht]
      have hkept : kept (d :: ds) = kept ds := by simp [kept, Descriptor.range, ht]
      rw [List.foldl_cons, hskip, ih hrest entries he, hkept]
    · have hkept : kept (d :: ds) = d.range :: kept ds := by simp [kept, Descriptor.range, ht]
      have hnew : ∀ e ∈ addEntry entries d, InSpace e.range := by
        intro e hmem
        -- a merged range ends where the descriptor does
        have hin := forall_push (fun _ _ _ _ hr => hr) (List.forall_mem_map.mpr he) hd
        rw [← addEntry_ranges he hd ht] at hin
        exact hin _ (List.mem_map_of_mem hmem)
      rw [List.foldl_cons, ih hrest _ hnew, addEntry_ranges he hd ht, hkept, List.foldl_cons]

theorem convert_ranges {m : MemoryMap} (h : ∀ d ∈ descriptors m, InSpace d.range) :
    (convert m).map E820Entry.range = coalesce (kept (descriptors m)) :=
  foldl_addEntry_ranges _ h [] nofun

/-! ## Calls that succeed -/

/-- The first `n` entries are the conversion of the map. -/
theorem processMemoryMap_table {r : MapReply} {v v' : MapVars} {silent : Bool} {n : Int}
    (h : processMemoryMap r v silent = some (n, v')) (hn : 0 ≤ n) :
    n = (convert r.map).length ∧ v'.e820table.take n.toNat = convert r.map := by
  by_cases hok : r.status = efiSuccess ∧ Fits r.map
  · rw [processMemoryMap_ok hok.1 hok.2, Option.some.injEq, Prod.mk.injEq] at h
    obtain ⟨rfl, rfl⟩ := h
    exact ⟨rfl, List.take_left⟩
  · have := (processMemoryMap_failed hok h).1
    omega

theorem cover_kept (ds : List Descriptor) {t : E820Type} (ht : t ≠ .ignore) (a : Nat) :
    cover t a (kept ds) = cover t a (ds.map Descriptor.range) := by
  rw [kept, cover, cover, List.countP_filter]
  refine List.countP_congr fun r _ => ?_
  simp only [Bool.and_eq_true, decide_eq_true_eq]
  constructor
  · exact fun h => h.1
  · rintro ⟨rfl, ha⟩
    exact ⟨⟨rfl, ha⟩, ht⟩

/-- **The table means what the map means.**  After a call that returns `n ≥ 0`, the first `n`
entries have no ignored type among them, and each address lies in as many entries of any
other type as in descriptors of that type.  No entry continues the one before it.  Ranges
that are sorted and disjoint stay so, whether empty ranges may lie inside others or not. -/
theorem processMemoryMap_meaning {r : MapReply} {v v' : MapVars} {silent : Bool} {n : Int}
    (h : processMemoryMap r v silent = some (n, v')) (hn : 0 ≤ n)
    (hd : ∀ d ∈ descriptors r.map, d.physicalStart.toNat + 4096 * d.numberOfPages.toNat < 2 ^ 64) :
    (v'.e820table.take n.toNat).length = n.toNat ∧
    (∀ e ∈ v'.e820table.take n.toNat, e.type ≠ .ignore) ∧
    (∀ t ≠ .ignore, ∀ a, cover t a ((v'.e820table.take n.toNat).map E820Entry.range) =
      cover t a ((descriptors r.map).map Descriptor.range)) ∧
    Canonical ((v'.e820table.take n.toNat).map E820Entry.range) ∧
    (((descriptors r.map).map Descriptor.range).Pairwise Range.Apart →
      ((v'.e820table.take n.toNat).map E820Entry.range).Pairwise Range.Apart) ∧
    (((descriptors r.map).map Descriptor.range).Pairwise Range.Before →
      ((v'.e820table.take n.toNat).map E820Entry.range).Pairwise Range.Before) := by
  obtain ⟨hlen, htable⟩ := processMemoryMap_table h hn
  have hranges := convert_ranges (m := r.map) hd
  rw [htable, hranges]
  refine ⟨by omega, ?_, ?_, canonical_coalesce _, ?_, ?_⟩
  · intro e he
    have hlabel : ∀ s ∈ coalesce (kept (descriptors r.map)), s.label ≠ .ignore :=
      forall_coalesce (fun _ _ _ he _ => he) fun s hs => by simpa using (List.mem_filter.mp hs).2
    rw [← hranges] at hlabel
    exact hlabel _ (List.mem_map_of_mem he)
  · intro t ht a
    rw [cover_coalesce, cover_kept _ ht]
  · exact fun hp => pairwise_coalesce apart_inherited (hp.filter _)
  · exact fun hp => pairwise_coalesce before_inherited (hp.filter _)

/-- A map of two regions of usable memory side by side. -/
def adjoining : MemoryMap where
  scratch := ofList (bytes32 efiConventionalMemory ++ bytes32 0 ++ bytes64 0x100000 ++ bytes64 0 ++
    bytes64 16 ++ bytes64 0 ++ bytes32 efiLoaderData ++ bytes32 0 ++ bytes64 0x110000 ++
    bytes64 0 ++ bytes64 16 ++ bytes64 0)
  msize := 80
  dsize := 40

/-- They become one entry. -/
theorem processMemoryMap_meaning_adjoining : ∃ v',
    processMemoryMap ⟨efiSuccess, 7, adjoining⟩ (freshVars 0) false = some (1, v') ∧
    cover .ram 0x10FFFF ((v'.e820table.take 1).map E820Entry.range) =
      cover .ram 0x10FFFF ((descriptors adjoining).map Descriptor.range) := by
  have hres : (processMemoryMap ⟨efiSuccess, 7, adjoining⟩ (freshVars 0) false).map Prod.fst =
      some 1 := by decide +kernel
  obtain ⟨⟨n, v'⟩, h, hn⟩ := Option.map_eq_some_iff.mp hres
  obtain rfl : n = 1 := hn
  have hd : ∀ d ∈ descriptors adjoining,
      d.physicalStart.toNat + 4096 * d.numberOfPages.toNat < 2 ^ 64 := by decide +kernel
  obtain ⟨-, -, hcover, -⟩ := processMemoryMap_meaning h (by decide) hd
  exact ⟨v', h, hcover .ram (by decide) 0x10FFFF⟩

end Gigaboot.Osboot
