import Gigaboot.Netboot.Device

/-!
# The ACPI root

`find_acpi_root` of `osboot.c`: the search of the configuration table for the Root System
Description Pointer, with the comparisons of `gnu-efi` as they are.  `CompareGuid` is 0 on
equal GUIDs, so the test in the loop passes over an entry only if its GUID is both that of
ACPI 1.0 and that of ACPI 2.0.

* `findAcpiRootLoop_snd`: the search goes by the signature alone;
* `mem_inspected_iff`: the vendor tables that are looked at;
* `selects_by_guid_iff`: the tables on which this is a search by GUID and signature.
-/

namespace Gigaboot.Osboot

open ByteMem Netboot

/-- An `EFI_GUID` in memory. -/
abbrev Guid := Vector UInt8 16

def guid (data1 : UInt32) (data2 data3 : UInt16) (data4 : List UInt8) : Guid :=
  arrayAt (ofList (bytes32 data1 ++ bytes16 data2 ++ bytes16 data3 ++ data4)) 0 16

def acpiTableGuid : Guid :=
  guid 0xeb9d2d30 0x2d88 0x11d3 [0x9a, 0x16, 0x0, 0x90, 0x27, 0x3f, 0xc1, 0x4d]

def acpi20TableGuid : Guid :=
  guid 0x8868e871 0xe4f1 0x11d3 [0xbc, 0x22, 0x0, 0x80, 0xc7, 0x3c, 0x88, 0x81]

def acpiRsdPtr : List UInt8 := [82, 83, 68, 32, 80, 84, 82, 32]

/-- `CompareGuid`: 32 bits at a time. -/
def compareGuid (guid1 guid2 : Guid) : UInt32 :=
  let g1 := ofList guid1.toList
  let g2 := ofList guid2.toList
  (ld32 g1 0 - ld32 g2 0) ||| (ld32 g1 4 - ld32 g2 4) ||| (ld32 g1 8 - ld32 g2 8) |||
    (ld32 g1 12 - ld32 g2 12)

/-- `CompareMem`, which goes through the bytes as `memcmp` does. -/
def compareMem (dest src : Mem) (len : Nat) : Int := memcmp dest src 0 len

/-- An `EFI_CONFIGURATION_TABLE`, with the memory behind its pointer. -/
structure ConfigurationTable where
  vendorGuid : Guid
  vendorTable : UInt64
  contents : Mem

/-- The loop of `find_acpi_root`: the entries whose vendor table was compared with the
signature, and the entry it returns. -/
def findAcpiRootLoop :
    List ConfigurationTable → List ConfigurationTable × Option ConfigurationTable
  | [] => ([], none)
  | entry :: cfgtab =>
    if compareGuid entry.vendorGuid acpiTableGuid = 0 ∧
        compareGuid entry.vendorGuid acpi20TableGuid = 0 then
      -- not an ACPI table
      findAcpiRootLoop cfgtab
    else if compareMem entry.contents (ofList acpiRsdPtr) 8 ≠ 0 then
      -- not the Root Description Pointer
      (entry :: (findAcpiRootLoop cfgtab).1, (findAcpiRootLoop cfgtab).2)
    else ([entry], some entry)

/-- The pointer that `find_acpi_root` returns, before its conversion to 32 bits. -/
def acpiRootPtr (cfgtab : List ConfigurationTable) : UInt64 :=
  match (findAcpiRootLoop cfgtab).2 with
  | some entry => entry.vendorTable
  | none => 0

def findAcpiRoot (cfgtab : List ConfigurationTable) : UInt32 := (acpiRootPtr cfgtab).toUInt32

/-- The entries whose vendor table is looked at. -/
def inspected (cfgtab : List ConfigurationTable) : List ConfigurationTable :=
  (findAcpiRootLoop cfgtab).1

/-! ## The two comparisons -/

theorem read_sixteen (m : Mem) : read m 0 16 =
    bytes32 (ld32 m 0) ++ bytes32 (ld32 m 4) ++ bytes32 (ld32 m 8) ++ bytes32 (ld32 m 12) := by
  simp only [bytes32_ld32]
  rfl

theorem Guid.read_toList (g : Guid) : read (ofList g.toList) 0 16 = g.toList := by
  have h := read_ofList g.toList
  rwa [Vector.length_toList] at h

theorem eq_of_sub_eq_zero {a b : UInt32} (h : a - b = 0) : a = b := by
  rw [← UInt32.sub_add_cancel a b, h, UInt32.zero_add]

theorem compareGuid_eq_zero_iff (guid1 guid2 : Guid) :
    compareGuid guid1 guid2 = 0 ↔ guid1 = guid2 := by
  constructor
  · intro h
    simp only [compareGuid, UInt32.or_eq_zero_iff] at h
    obtain ⟨⟨⟨h₀, h₄⟩, h₈⟩, h₁₂⟩ := h
    apply Vector.toList_inj.mp
    rw [← Guid.read_toList guid1, ← Guid.read_toList guid2, read_sixteen, read_sixteen,
      eq_of_sub_eq_zero h₀, eq_of_sub_eq_zero h₄, eq_of_sub_eq_zero h₈, eq_of_sub_eq_zero h₁₂]
  · rintro rfl
    simp [compareGuid]

def ConfigurationTable.Signed (entry : ConfigurationTable) : Prop :=
  read entry.contents 0 8 = acpiRsdPtr

instance (entry : ConfigurationTable) : Decidable entry.Signed :=
  inferInstanceAs (Decidable (_ = _))

def ConfigurationTable.Acpi (entry : ConfigurationTable) : Prop :=
  entry.vendorGuid = acpiTableGuid ∨ entry.vendorGuid = acpi20TableGuid

instance (entry : ConfigurationTable) : Decidable entry.Acpi :=
  inferInstanceAs (Decidable (_ ∨ _))

theorem compareMem_eq_zero_iff (entry : ConfigurationTable) :
    compareMem entry.contents (ofList acpiRsdPtr) 8 = 0 ↔ entry.Signed := by
  rw [compareMem, memcmp_eq_zero_iff]
  exact Iff.of_eq (congrArg _ (read_ofList acpiRsdPtr))

/-! ## The search -/

/-- What the loop does at one entry: no GUID is equal to both. -/
theorem findAcpiRootLoop_cons (entry : ConfigurationTable) (cfgtab : List ConfigurationTable) :
    findAcpiRootLoop (entry :: cfgtab) =
      if entry.Signed then ([entry], some entry)
      else (entry :: inspected cfgtab, (findAcpiRootLoop cfgtab).2) := by
  have hnever : ¬ (compareGuid entry.vendorGuid acpiTableGuid = 0 ∧
      compareGuid entry.vendorGuid acpi20TableGuid = 0) := by
    rw [compareGuid_eq_zero_iff, compareGuid_eq_zero_iff]
    rintro ⟨h₁, h₂⟩
    have hdiff : acpiTableGuid ≠ acpi20TableGuid := by decide
    exact hdiff (h₁.symm.trans h₂)
  rw [findAcpiRootLoop, if_neg hnever]
  by_cases hsig : entry.Signed
  · rw [if_neg (not_not_intro ((compareMem_eq_zero_iff entry).mpr hsig)), if_pos hsig]
  · rw [if_pos (fun h => hsig ((compareMem_eq_zero_iff entry).mp h)), if_neg hsig]
    rfl

/-- The search goes by the signature alone. -/
theorem findAcpiRootLoop_snd (cfgtab : List ConfigurationTable) :
    (findAcpiRootLoop cfgtab).2 = cfgtab.find? fun entry => entry.Signed := by
  induction cfgtab with
  | nil => rfl
  | cons entry cfgtab ih =>
    rw [findAcpiRootLoop_cons, List.find?_cons]
    by_cases hsig : entry.Signed
    · rw [if_pos hsig, decide_eq_true hsig]
    · rw [if_neg hsig, decide_eq_false hsig]
      exact ih

/-- An entry is looked at if no entry before it has the signature. -/
theorem mem_inspected_iff {cfgtab : List ConfigurationTable} {entry : ConfigurationTable} :
    entry ∈ inspected cfgtab ↔
      ∃ before after, cfgtab = before ++ entry :: after ∧ ∀ e ∈ before, ¬ e.Signed := by
  induction cfgtab with
  | nil =>
    constructor
    · intro h
      cases h
    · rintro ⟨before, after, h, -⟩
      cases before <;> cases h
  | cons first cfgtab ih =>
    rw [inspected, findAcpiRootLoop_cons]
    by_cases hsig : first.Signed
    · rw [if_pos hsig, List.mem_singleton]
      constructor
      · rintro rfl
        exact ⟨[], cfgtab, rfl, by nofun⟩
      · rintro ⟨before, after, h, hno⟩
        cases before with
        | nil => exact (List.cons.inj h).1.symm
        | cons b before =>
          obtain ⟨rfl, -⟩ := List.cons.inj h
          exact absurd hsig (hno _ List.mem_cons_self)
    · rw [if_neg hsig, List.mem_cons, ih]
      constructor
      · rintro (rfl | ⟨before, after, rfl, hno⟩)
        · exact ⟨[], cfgtab, rfl, by nofun⟩
        · exact ⟨first :: before, after, rfl, List.forall_mem_cons.mpr ⟨hsig, hno⟩⟩
      · rintro ⟨before, after, h, hno⟩
        cases before with
        | nil => exact .inl (List.cons.inj h).1.symm
        | cons b before =>
          obtain ⟨rfl, rfl⟩ := List.cons.inj h
          exact .inr ⟨before, after, rfl, fun e he => hno e (List.mem_cons_of_mem _ he)⟩

def rootEntry (cfgtab : List ConfigurationTable) : Option ConfigurationTable :=
  cfgtab.find? fun entry => entry.Acpi ∧ entry.Signed

/-- If all that is looked at has an ACPI GUID, the first entry with the signature is the
one that is meant. -/
theorem find_signed_eq {cfgtab : List ConfigurationTable} (h : ∀ e ∈ inspected cfgtab, e.Acpi) :
    (cfgtab.find? fun entry => entry.Signed) = rootEntry cfgtab := by
  induction cfgtab with
  | nil => rfl
  | cons first cfgtab ih =>
    rw [inspected, findAcpiRootLoop_cons] at h
    rw [rootEntry, List.find?_cons, List.find?_cons]
    by_cases hsig : first.Signed
    · rw [if_pos hsig, List.forall_mem_singleton] at h
      rw [decide_eq_true hsig, decide_eq_true ⟨h, hsig⟩]
    · rw [if_neg hsig, List.forall_mem_cons] at h
      rw [decide_eq_false hsig, decide_eq_false (fun hb => hsig hb.2)]
      exact ih h.2

/-- The lookup by GUID and signature: its result, and that no other table is touched. -/
structure SelectsByGuid (cfgtab : List ConfigurationTable) : Prop where
  root : findAcpiRoot cfgtab = ((rootEntry cfgtab).elim 0 ConfigurationTable.vendorTable).toUInt32
  untouched : ∀ e ∈ inspected cfgtab, e.Acpi

/-- **The ACPI root is looked up by GUID and signature** exactly on the tables where every
entry up to the first one with the signature, that one included, has an ACPI GUID. -/
theorem selects_by_guid_iff (cfgtab : List ConfigurationTable) :
    SelectsByGuid cfgtab ↔
      ∀ before entry after, cfgtab = before ++ entry :: after → (∀ e ∈ before, ¬ e.Signed) →
        entry.Acpi := by
  constructor
  · intro h before entry after hsplit hno
    exact h.untouched entry (mem_inspected_iff.mpr ⟨before, after, hsplit, hno⟩)
  · intro h
    have hall : ∀ e ∈ inspected cfgtab, e.Acpi := by
      intro e he
      obtain ⟨before, after, hsplit, hno⟩ := mem_inspected_iff.mp he
      exact h before e after hsplit hno
    refine ⟨?_, hall⟩
    rw [findAcpiRoot, acpiRootPtr, findAcpiRootLoop_snd, find_signed_eq hall]
    cases rootEntry cfgtab with
    | none => rfl
    | some entry => rfl

/-- A vendor table under a GUID of its own that happens to start with the signature. -/
def foreignTable : ConfigurationTable where
  vendorGuid := guid 1 2 3 []
  vendorTable := 0x1000
  contents := ofList acpiRsdPtr

/-- It is returned in the place of the ACPI 2.0 table behind it. -/
theorem foreign_root_selected :
    rootEntry [foreignTable, ⟨acpi20TableGuid, 0x2000, ofList acpiRsdPtr⟩] ≠ none ∧
    findAcpiRoot [foreignTable, ⟨acpi20TableGuid, 0x2000, ofList acpiRsdPtr⟩] = 0x1000 ∧
    ¬ SelectsByGuid [foreignTable, ⟨acpi20TableGuid, 0x2000, ofList acpiRsdPtr⟩] := by
  refine ⟨by decide, by decide, fun h => ?_⟩
  have hacpi : foreignTable.Acpi :=
    h.untouched foreignTable (mem_inspected_iff.mpr ⟨[], _, rfl, by nofun⟩)
  revert hacpi
  decide

end Gigaboot.Osboot
