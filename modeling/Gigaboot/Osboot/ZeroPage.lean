import Gigaboot.Osboot.AcpiRoot
import Gigaboot.Osboot.BootKernel
import Mathlib.Algebra.Group.Nat.Defs

/-!
# The zero page

What `load_kernel` and `boot_kernel` leave in the page that is handed to the kernel: the
copy of the setup header, the fields that the loader sets, and the four pointers and sizes
that are stored in 32 bits.

* `zeropage_byte`: the page after `load_kernel`, byte by byte;
* `setup_copied_iff`: when the whole setup header is in it;
* `installMemmap_field`, `bootStores_acpiRsd` and the like: a field once stored is kept;
* `params_intact_iff`: when the boot parameters are the values they were stored from.
-/

namespace Gigaboot.Osboot

open ByteMem

theorem zp32_outside (p : Mem) (off : Nat) (v : UInt32) {i : Nat} (h : i < off ∨ off + 4 ≤ i) :
    zp32 p off v i = p i :=
  write_outside p off (bytes32 v) i h

theorem ld32_zp32 (p : Mem) (off : Nat) (v : UInt32) : ld32 (zp32 p off v) off = v :=
  ld32_of_read (read_write_self _ _ _ _ rfl)

theorem ld32_zp32_of_disjoint (p : Mem) (off : Nat) (v : UInt32) {field : Nat}
    (h : field + 4 ≤ off ∨ off + 4 ≤ field) : ld32 (zp32 p off v) field = ld32 p field :=
  ld32_congr fun i hlo hhi => zp32_outside p off v (by omega)

/-! ## The setup header -/

/-- The bytes that `load_kernel` sets itself: the loader type, the ramdisk, the pointer to
the command line. -/
def LoaderField (i : Nat) : Prop :=
  i = zpLoaderType ∨ (zpRamdiskBase ≤ i ∧ i < zpRamdiskSize + 4) ∨
    (zpCmdline ≤ i ∧ i < zpCmdline + 4)

instance (i : Nat) : Decidable (LoaderField i) := inferInstanceAs (Decidable (_ ∨ _))

/-- The end of the setup header: the target of the short jump of two bytes at 0x200. -/
def headerEnd (image : Mem) : Nat := zpJump + 2 + (image (zpJump + 1)).toNat

theorem setupEnd_toNat (image : Mem) :
    (setupEnd image).toNat = zpJump + (image (zpJump + 1)).toNat := by
  have hlt := (image (zpJump + 1)).toNat_lt
  have h : (0x200 : UInt32).toNat = zpJump := rfl
  rw [setupEnd, UInt32.toNat_add, UInt8.toNat_toUInt32, h, Nat.mod_eq_of_lt]
  have : zpJump = 512 := rfl
  omega

/-- The zero fill and the copy of the header. -/
theorem copied_byte (page image : Mem) (stop : Nat) {i : Nat} (hi : i < 4096) :
    write (write page 0 (List.replicate 4096 0)) zpSetup (read image zpSetup (stop - zpSetup)) i =
      if zpSetup ≤ i ∧ i < stop then image i else 0 := by
  by_cases hin : zpSetup ≤ i ∧ i < stop
  · obtain ⟨j, rfl⟩ := Nat.exists_eq_add_of_le hin.1
    have hj : j < (read image zpSetup (stop - zpSetup)).length := by
      rw [read_length]
      omega
    rw [if_pos hin, write_inside _ _ _ _ hj, read_getElem]
  · rw [if_neg hin, write_outside _ _ _ _ (by rw [read_length]; omega)]
    have hz := write_inside page 0 (List.replicate 4096 0) i (by rwa [List.length_replicate])
    rw [Nat.zero_add] at hz
    rw [hz, List.getElem_replicate]

theorem zeropage_byte (k : KernelT) (pages : Pages) (image : Mem) {i : Nat} (hi : i < 4096)
    (hf : ¬ LoaderField i) :
    (loadStores k pages image).zeropage i =
      if zpSetup ≤ i ∧ i < (setupEnd image).toNat then image i else 0 := by
  simp only [LoaderField, not_or, not_and_or] at hf
  obtain ⟨htype, hrd, hcmd⟩ := hf
  simp only [zpLoaderType, zpRamdiskBase, zpRamdiskSize, zpCmdline] at htype hrd hcmd
  unfold loadStores
  dsimp only
  rw [write_outside _ _ _ _ (by simp only [zpLoaderType, List.length_singleton]; omega),
    zp32_outside _ _ _ (by simp only [zpRamdiskSize]; omega),
    zp32_outside _ _ _ (by simp only [zpRamdiskBase]; omega),
    zp32_outside _ _ _ (by simp only [zpCmdline]; omega), copied_byte _ _ _ hi]

theorem loadStores_loaderType (k : KernelT) (pages : Pages) (image : Mem) :
    (loadStores k pages image).zeropage zpLoaderType = 0xFF := by
  unfold loadStores
  dsimp only
  exact write_inside _ zpLoaderType [0xFF] 0 Nat.zero_lt_one

theorem ld32_loadStores (k : KernelT) (pages : Pages) (image : Mem) {field : Nat}
    (h : field + 4 ≤ zpLoaderType ∨ zpLoaderType + 1 ≤ field) :
    ld32 (loadStores k pages image).zeropage field =
      ld32 (zp32 (zp32 (zp32 (write (write pages.zeropage 0 (List.replicate 4096 0)) zpSetup
        (read image zpSetup ((setupEnd image).toNat - zpSetup))) zpCmdline k.cmdline.toUInt32)
        zpRamdiskBase 0) zpRamdiskSize 0) field :=
  ld32_congr fun i hlo hhi => write_outside _ _ _ _ (by rw [List.length_singleton]; omega)

theorem loadStores_ramdiskBase (k : KernelT) (pages : Pages) (image : Mem) :
    ld32 (loadStores k pages image).zeropage zpRamdiskBase = 0 := by
  rw [ld32_loadStores _ _ _ (by decide), ld32_zp32_of_disjoint _ _ _ (by decide), ld32_zp32]

theorem loadStores_ramdiskSize (k : KernelT) (pages : Pages) (image : Mem) :
    ld32 (loadStores k pages image).zeropage zpRamdiskSize = 0 := by
  rw [ld32_loadStores _ _ _ (by decide), ld32_zp32]

theorem loadStores_cmdline (k : KernelT) (pages : Pages) (image : Mem) :
    ld32 (loadStores k pages image).zeropage zpCmdline = k.cmdline.toUInt32 := by
  rw [ld32_loadStores _ _ _ (by decide), ld32_zp32_of_disjoint _ _ _ (by decide),
    ld32_zp32_of_disjoint _ _ _ (by decide), ld32_zp32]

/-- The whole setup header is in the zero page, under the fields of the loader, and
nothing else. -/
structure SetupCopied (image : Mem) (k : KernelT) (zeropage : Mem) : Prop where
  header : ∀ i, zpSetup ≤ i → i < headerEnd image → ¬ LoaderField i → zeropage i = image i
  loaderType : zeropage zpLoaderType = 0xFF
  ramdiskBase : ld32 zeropage zpRamdiskBase = 0
  ramdiskSize : ld32 zeropage zpRamdiskSize = 0
  cmdline : ld32 zeropage zpCmdline = k.cmdline.toUInt32
  rest : ∀ i < 4096, ¬ (zpSetup ≤ i ∧ i < headerEnd image) → ¬ LoaderField i → zeropage i = 0

/-- **The whole setup header reaches the zero page** if and only if each of its last two
bytes is zero or belongs to the loader: the copy ends at 0x200 plus the displacement of the
jump, which counts from 0x202. -/
theorem setup_copied_iff {bs : Allocations} {pages : Pages} {image : Mem} {sz : UInt64}
    (h : (loadKernel bs pages image sz).ret = 0) :
    SetupCopied image (loadKernel bs pages image sz).k
        (loadKernel bs pages image sz).pages.zeropage ↔
      ∀ i, zpJump + (image (zpJump + 1)).toNat ≤ i → i < headerEnd image →
        LoaderField i ∨ image i = 0 := by
  rw [loadKernel_pages h]
  generalize (loadKernel bs pages image sz).k = k
  have hend := setupEnd_toNat image
  have hjump : (image (zpJump + 1)).toNat < 256 := (image (zpJump + 1)).toNat_lt
  have hj : zpJump = 512 := rfl
  have hs : zpSetup = 497 := rfl
  constructor
  · intro hall i hlo hhi
    rw [or_iff_not_imp_left]
    intro hf
    have hi : i < 4096 := by
      rw [headerEnd] at hhi
      omega
    rw [← hall.header i (by omega) hhi hf, zeropage_byte k pages image hi hf, if_neg (by omega)]
  · intro hlast
    refine ⟨?_, loadStores_loaderType k pages image, loadStores_ramdiskBase k pages image,
      loadStores_ramdiskSize k pages image, loadStores_cmdline k pages image, ?_⟩
    · intro i hlo hhi hf
      have hi : i < 4096 := by
        rw [headerEnd] at hhi
        omega
      rw [zeropage_byte k pages image hi hf]
      by_cases hcopied : i < (setupEnd image).toNat
      · rw [if_pos ⟨hlo, hcopied⟩]
      · rw [if_neg (fun hc => hcopied hc.2)]
        have hzero := (hlast i (by omega) hhi).resolve_left hf
        exact hzero.symm
    · intro i hi hout hf
      rw [zeropage_byte k pages image hi hf, if_neg]
      rw [headerEnd] at hout
      omega

/-- A kernel whose setup header ends at 0x264, with the given bytes before its end. -/
def headerImage (bs : List UInt8) : Mem :=
  write (write smallImage zpJump [0xEB, 0x62]) (0x264 - bs.length) bs

/-- A word that is followed by two zeros gets there. -/
theorem setup_copied_iff_padded :
    (loadKernel ⟨some 0x90000, some 0x91000, true⟩ zeroPages
      (headerImage [0x12, 0x34, 0, 0]) 1024).ret = 0 ∧
    SetupCopied (headerImage [0x12, 0x34, 0, 0])
      (loadKernel ⟨some 0x90000, some 0x91000, true⟩ zeroPages
        (headerImage [0x12, 0x34, 0, 0]) 1024).k
      (loadKernel ⟨some 0x90000, some 0x91000, true⟩ zeroPages
        (headerImage [0x12, 0x34, 0, 0]) 1024).pages.zeropage := by
  have hret : (loadKernel ⟨some 0x90000, some 0x91000, true⟩ zeroPages
      (headerImage [0x12, 0x34, 0, 0]) 1024).ret = 0 := by decide
  refine ⟨hret, (setup_copied_iff hret).mpr fun i hlo hhi => .inr ?_⟩
  have hjump : (headerImage [0x12, 0x34, 0, 0] (zpJump + 1)).toNat = 98 := by decide
  have hj : zpJump = 512 := rfl
  rw [headerEnd, hjump] at hhi
  rw [hjump] at hlo
  have hcases : i = 610 ∨ i = 611 := by omega
  rcases hcases with rfl | rfl
  · decide
  · decide

/-- A last word that is not zero is lost. -/
theorem long_header_cut :
    (loadKernel ⟨some 0x90000, some 0x91000, true⟩ zeroPages
      (headerImage [0x12, 0x34]) 1024).ret = 0 ∧
    ¬ SetupCopied (headerImage [0x12, 0x34])
      (loadKernel ⟨some 0x90000, some 0x91000, true⟩ zeroPages (headerImage [0x12, 0x34]) 1024).k
      (loadKernel ⟨some 0x90000, some 0x91000, true⟩ zeroPages
        (headerImage [0x12, 0x34]) 1024).pages.zeropage := by
  refine ⟨by decide, fun h => ?_⟩
  have hlast := h.header 0x262 (by decide) (by decide) (by decide)
  revert hlast
  decide +kernel

/-! ## The boot parameters -/

def System.withTable (sys : System) (cfgtab : List ConfigurationTable) : System :=
  { sys with acpiRoot := findAcpiRoot cfgtab }

/-- `install_memmap` writes the count and from the table on. -/
theorem installMemmap_field (zeropage memmap : Mem) (count : UInt32) {field : Nat}
    (h : field + 4 ≤ zpE820Count ∨ zpE820Count + 1 ≤ field ∧ field + 4 ≤ zpE820Table) :
    ld32 (installMemmap zeropage memmap count) field = ld32 zeropage field := by
  have htable : zpE820Count ≤ zpE820Table := by decide
  apply ld32_congr
  intro i hlo hhi
  rw [installMemmap, write_outside _ _ _ _ (by rw [List.length_singleton]; omega),
    write_outside _ _ _ _ (by omega)]

section Stores

variable (sys : System) (args : BootArgs) (zeropage : Mem)

theorem bootStores_acpiRsd :
    ld32 (bootStores sys args zeropage) zpAcpiRsd = sys.acpiRoot := by
  unfold bootStores
  split <;> simp (disch := decide) only [ld32_zp32_of_disjoint, ld32_zp32]

theorem bootStores_fbBase :
    ld32 (bootStores sys args zeropage) zpFbBase = sys.gop.frameBufferBase.toUInt32 := by
  unfold bootStores
  split <;> simp (disch := decide) only [ld32_zp32_of_disjoint, ld32_zp32]

theorem bootStores_ramdiskBase :
    ld32 (bootStores sys args zeropage) zpRamdiskBase =
      if args.ramdisk ≠ 0 ∧ args.rsz ≠ 0 then args.ramdisk.toUInt32
      else ld32 zeropage zpRamdiskBase := by
  unfold bootStores
  split <;> simp (disch := decide) only [ld32_zp32_of_disjoint, ld32_zp32]

theorem bootStores_ramdiskSize :
    ld32 (bootStores sys args zeropage) zpRamdiskSize =
      if args.ramdisk ≠ 0 ∧ args.rsz ≠ 0 then args.rsz.toUInt32
      else ld32 zeropage zpRamdiskSize := by
  unfold bootStores
  split <;> simp (disch := decide) only [ld32_zp32_of_disjoint, ld32_zp32]

end Stores

/-- The four words as they were stored.  A ramdisk is passed on only if it has an address
and a size. -/
structure ParamsStored (sys : System) (args : BootArgs) (zeropage : Mem) : Prop where
  acpiRsd : ld32 zeropage zpAcpiRsd = sys.acpiRoot
  fbBase : ld32 zeropage zpFbBase = sys.gop.frameBufferBase.toUInt32
  ramdiskBase : ld32 zeropage zpRamdiskBase =
    if args.ramdisk ≠ 0 ∧ args.rsz ≠ 0 then args.ramdisk.toUInt32 else 0
  ramdiskSize : ld32 zeropage zpRamdiskSize =
    if args.ramdisk ≠ 0 ∧ args.rsz ≠ 0 then args.rsz.toUInt32 else 0

/-- No later store overwrites them, however long the memory map is. -/
theorem bootKernel_params {sys : System} {pages pages' : Pages} {v : MapVars} {args : BootArgs}
    {k : KernelT} (h : bootKernel sys pages v args = .started k pages') :
    ParamsStored sys args pages'.zeropage := by
  obtain ⟨a, n, v', hret, -, hzp, -⟩ := bootKernel_started h
  rw [hzp, loadKernel_pages hret]
  constructor
  · rw [installMemmap_field _ _ _ (.inl (by decide)), bootStores_acpiRsd]
  · rw [installMemmap_field _ _ _ (.inl (by decide)), bootStores_fbBase]
  · rw [installMemmap_field _ _ _ (.inr (by decide)), bootStores_ramdiskBase,
      loadStores_ramdiskBase]
  · rw [installMemmap_field _ _ _ (.inr (by decide)), bootStores_ramdiskSize,
      loadStores_ramdiskSize]

theorem narrowed_eq_iff (x : UInt64) : x.toUInt32.toUInt64 = x ↔ x.toNat < 2 ^ 32 := by
  rw [← UInt64.toNat_inj, UInt32.toNat_toUInt64, UInt64.toNat_toUInt32]
  have hlt := Nat.mod_lt x.toNat (y := 2 ^ 32) (by decide)
  constructor
  · intro h
    omega
  · exact Nat.mod_eq_of_lt

/-- The four words are the 64-bit values they stand for. -/
structure ParamsIntact (rsdp fb ramdisk rsz : UInt64) (zeropage : Mem) : Prop where
  acpiRsd : (ld32 zeropage zpAcpiRsd).toUInt64 = rsdp
  fbBase : (ld32 zeropage zpFbBase).toUInt64 = fb
  ramdiskBase : (ld32 zeropage zpRamdiskBase).toUInt64 = ramdisk
  ramdiskSize : (ld32 zeropage zpRamdiskSize).toUInt64 = rsz

/-- The values that fit: all of them are below 4 GiB, and a ramdisk has both an address
and a size, or neither. -/
structure ParamsFit (rsdp fb ramdisk rsz : UInt64) : Prop where
  acpiRsd : rsdp.toNat < 2 ^ 32
  fbBase : fb.toNat < 2 ^ 32
  ramdiskBase : ramdisk.toNat < 2 ^ 32
  ramdiskSize : rsz.toNat < 2 ^ 32
  both : ramdisk = 0 ↔ rsz = 0

/-- The two words for a ramdisk. -/
theorem ramdisk_intact_iff (ramdisk rsz : UInt64) :
    (if ramdisk ≠ 0 ∧ rsz ≠ 0 then ramdisk.toUInt32 else 0).toUInt64 = ramdisk ∧
      (if ramdisk ≠ 0 ∧ rsz ≠ 0 then rsz.toUInt32 else 0).toUInt64 = rsz ↔
    ramdisk.toNat < 2 ^ 32 ∧ rsz.toNat < 2 ^ 32 ∧ (ramdisk = 0 ↔ rsz = 0) := by
  by_cases hboth : ramdisk ≠ 0 ∧ rsz ≠ 0
  · rw [if_pos hboth, if_pos hboth, narrowed_eq_iff, narrowed_eq_iff]
    have hiff : ramdisk = 0 ↔ rsz = 0 := iff_of_false hboth.1 hboth.2
    exact and_congr_right fun _ => (and_iff_left hiff).symm
  · rw [if_neg hboth, if_neg hboth]
    constructor
    · rintro ⟨hbase, hsize⟩
      have h₁ : ramdisk = 0 := hbase.symm
      have h₂ : rsz = 0 := hsize.symm
      subst h₁ h₂
      exact ⟨by decide, by decide, Iff.rfl⟩
    · rintro ⟨-, -, hiff⟩
      rw [not_and_or, not_not, not_not] at hboth
      obtain ⟨rfl, rfl⟩ : ramdisk = 0 ∧ rsz = 0 := by
        rcases hboth with h₁ | h₂
        · exact ⟨h₁, hiff.mp h₁⟩
        · exact ⟨hiff.mpr h₂, h₂⟩
      exact ⟨rfl, rfl⟩

/-- **The boot parameters of a kernel that is started** are still as they were stored
after `install_memmap`, and they are the 64-bit values of the ramdisk, the framebuffer and
the ACPI root exactly if those fit. -/
theorem params_intact_iff {sys : System} {cfgtab : List ConfigurationTable}
    {pages pages' : Pages} {v : MapVars} {args : BootArgs} {k : KernelT}
    (h : bootKernel (sys.withTable cfgtab) pages v args = .started k pages') :
    ParamsStored (sys.withTable cfgtab) args pages'.zeropage ∧
    (ParamsIntact (acpiRootPtr cfgtab) sys.gop.frameBufferBase args.ramdisk args.rsz
        pages'.zeropage ↔
      ParamsFit (acpiRootPtr cfgtab) sys.gop.frameBufferBase args.ramdisk args.rsz) := by
  have hst := bootKernel_params h
  have hacpi : ld32 pages'.zeropage zpAcpiRsd = (acpiRootPtr cfgtab).toUInt32 := hst.acpiRsd
  have hfb : ld32 pages'.zeropage zpFbBase = sys.gop.frameBufferBase.toUInt32 := hst.fbBase
  have hrd := ramdisk_intact_iff args.ramdisk args.rsz
  rw [← hst.ramdiskBase, ← hst.ramdiskSize] at hrd
  refine ⟨hst, fun hi => ?_, fun hf => ?_⟩
  · obtain ⟨hbase, hsize, hiff⟩ := hrd.mp ⟨hi.ramdiskBase, hi.ramdiskSize⟩
    have h₁ := hi.acpiRsd
    have h₂ := hi.fbBase
    rw [hacpi, narrowed_eq_iff] at h₁
    rw [hfb, narrowed_eq_iff] at h₂
    exact ⟨h₁, h₂, hbase, hsize, hiff⟩
  · obtain ⟨hbase, hsize⟩ := hrd.mpr ⟨hf.ramdiskBase, hf.ramdiskSize, hf.both⟩
    refine ⟨?_, ?_, hbase, hsize⟩
    · rw [hacpi, narrowed_eq_iff]
      exact hf.acpiRsd
    · rw [hfb, narrowed_eq_iff]
      exact hf.fbBase

def ramdiskArgs (ramdisk rsz : UInt64) : BootArgs := ⟨smallImage, 1024, ramdisk, rsz, none, 0⟩

theorem params_intact_iff_low : ∃ k pages',
    bootKernel ((systemWith steadyFirmware).withTable []) zeroPages (freshVars 0)
      (ramdiskArgs 0x200000 4096) = .started k pages' ∧
    ParamsIntact 0 0x80000000 0x200000 4096 pages'.zeropage := by
  have hcount : (bootKernel ((systemWith steadyFirmware).withTable []) zeroPages (freshVars 0)
      (ramdiskArgs 0x200000 4096)).count = some 1 := by decide +kernel
  obtain ⟨k, pages', hstart⟩ := Outcome.started_of_count hcount
  exact ⟨k, pages', hstart, (params_intact_iff hstart).2.mpr
    ⟨by decide, by decide, by decide, by decide, by decide⟩⟩

/-- A ramdisk of one page at 4 GiB is passed on as one at address 0. -/
theorem high_ramdisk_truncated : ∃ k pages',
    bootKernel ((systemWith steadyFirmware).withTable []) zeroPages (freshVars 0)
      (ramdiskArgs 0x100000000 4096) = .started k pages' ∧
    ld32 pages'.zeropage zpRamdiskBase = 0 ∧
    ¬ ParamsIntact 0 0x80000000 0x100000000 4096 pages'.zeropage := by
  have hcount : (bootKernel ((systemWith steadyFirmware).withTable []) zeroPages (freshVars 0)
      (ramdiskArgs 0x100000000 4096)).count = some 1 := by decide +kernel
  obtain ⟨k, pages', hstart⟩ := Outcome.started_of_count hcount
  have hbase : ld32 pages'.zeropage zpRamdiskBase = 0 := (bootKernel_params hstart).ramdiskBase
  refine ⟨k, pages', hstart, hbase, fun h => ?_⟩
  have hread := h.ramdiskBase
  rw [hbase] at hread
  revert hread
  decide

end Gigaboot.Osboot
