import Gigaboot.Osboot.LoadKernel
import Gigaboot.Osboot.MemoryMap

/-!
# Booting a kernel

`boot_kernel` of `osboot.c`, with any behaviour of the firmware: it may answer a call of
`GetMemoryMap` with any status, and `ExitBootServices` only accepts the key of the map
that is in force.  A key stands for one map.

* `leaveBootServices_left`: the attempt that got out of boot services ends with a call of
  `process_memory_map` whose key was accepted;
* `started_memmap_iff`: when the kernel is started with the memory map in force.
-/

namespace Gigaboot.Osboot

open ByteMem

inductive Attempt
  | first | second
  deriving DecidableEq, Repr

/-- The firmware's side of the two attempts. -/
structure Firmware where
  /-- the map that a key stands for -/
  mapOf : UInt64 → MemoryMap
  /-- what `GetMemoryMap` returns, and the key it reports -/
  status : Attempt → UInt64
  mkey : Attempt → UInt64
  /-- the key of the map in force when `ExitBootServices` is called -/
  current : Attempt → UInt64
  /-- what `ExitBootServices` returns for a key -/
  exitStatus : Attempt → UInt64 → UInt64
  accepts : ∀ a key, exitStatus a key = efiSuccess → key = current a

def Firmware.reply (fw : Firmware) (a : Attempt) : MapReply :=
  ⟨fw.status a, fw.mkey a, fw.mapOf (fw.mkey a)⟩

def efiInvalidParameter : UInt64 := 0x8000000000000002
def efiDeviceError : UInt64 := 0x8000000000000007

/-- What becomes of the attempts: boot services are left, with the number of entries that
the last call of `process_memory_map` returned, or `boot_kernel` gives up, or one of those calls
does not return. -/
inductive Exit
  | left (a : Attempt) (n : Int) (v : MapVars)
  | refused
  | endless

/-- The part of `boot_kernel` from the first `process_memory_map` on. -/
def leaveBootServices (fw : Firmware) (v : MapVars) : Exit :=
  match processMemoryMap (fw.reply .first) v false with
  | none => .endless
  | some (n, v) =>
    let r := fw.exitStatus .first v.key
    if r = efiInvalidParameter then
      match processMemoryMap (fw.reply .second) v true with
      | none => .endless
      | some (n, v) =>
        if fw.exitStatus .second v.key ≠ efiSuccess then .refused else .left .second n v
    else if r ≠ efiSuccess then .refused
    else .left .first n v

structure Gop where
  frameBufferBase : UInt64
  horizontalResolution : UInt32
  verticalResolution : UInt32
  pixelsPerScanLine : UInt32

/-- What `boot_kernel` finds around it. -/
structure System where
  bs : Allocations
  gop : Gop
  /-- the result of `find_acpi_root` -/
  acpiRoot : UInt32
  fw : Firmware
  /-- the memory after `e820table` -/
  behind : Mem

structure BootArgs where
  image : Mem
  sz : UInt64
  /-- a pointer, of which only the value is used -/
  ramdisk : UInt64
  rsz : UInt64
  /-- the memory behind the pointer, `none` if it is `NULL` -/
  cmdline : Option Mem
  csz : UInt64

def tableMem (table : List E820Entry) (behind : Mem) : Mem :=
  write behind 0 (table.flatMap E820Entry.bytes)

def installMemmap (zeropage memmap : Mem) (count : UInt32) : Mem :=
  let zp := write zeropage zpE820Table (read memmap 0 (20 * count.toNat))
  write zp zpE820Count [count.toUInt8]

/-- The stores of `boot_kernel` in the zero page before the memory map. -/
def bootStores (sys : System) (args : BootArgs) (zeropage : Mem) : Mem :=
  let zp := zp32 zeropage zpExtraMagic zpMagicValue
  let zp := zp32 zp zpAcpiRsd sys.acpiRoot
  let zp := zp32 zp zpFbBase sys.gop.frameBufferBase.toUInt32
  let zp := zp32 zp zpFbWidth sys.gop.horizontalResolution
  let zp := zp32 zp zpFbHeight sys.gop.verticalResolution
  let zp := zp32 zp zpFbStride sys.gop.pixelsPerScanLine
  let zp := zp32 zp zpFbFormat 4
  let zp := zp32 zp zpFbRegbase 0
  let zp := zp32 zp zpFbSize (256 * 1024 * 1024)
  if args.ramdisk ≠ 0 ∧ args.rsz ≠ 0 then
    zp32 (zp32 zp zpRamdiskBase args.ramdisk.toUInt32) zpRamdiskSize args.rsz.toUInt32
  else zp

/-- The copy of the command line. -/
def bootCmdline (args : BootArgs) (page : Mem) : Mem :=
  match args.cmdline with
  | none => page
  | some cmdline =>
    -- Truncate the cmdline to fit on a page
    let csz := if args.csz ≥ 4095 then 4095 else args.csz
    write (write page 0 (read cmdline 0 csz.toNat)) csz.toNat [0]

/-- How `boot_kernel` ends. -/
inductive Outcome
  | failed
  | endless
  | started (k : KernelT) (pages : Pages)

/-- `boot_kernel`, with the contents of its pages before they were allocated, of
`e820table`, and of the local variable `key`. -/
def bootKernel (sys : System) (pages : Pages) (v : MapVars) (args : BootArgs) : Outcome :=
  let loaded := loadKernel sys.bs pages args.image args.sz
  if loaded.ret ≠ 0 then .failed
  else
    let zeropage := bootStores sys args loaded.pages.zeropage
    let cmdline := bootCmdline args loaded.pages.cmdline
    match leaveBootServices sys.fw v with
    | .endless => .endless
    | .refused => .failed
    | .left _ n v =>
      .started loaded.k
        { loaded.pages with
          zeropage :=
            installMemmap zeropage (tableMem v.e820table sys.behind) (UInt32.ofInt n)
          cmdline := cmdline }

theorem bootKernel_started {sys : System} {pages pages' : Pages} {v : MapVars} {args : BootArgs}
    {k : KernelT} (h : bootKernel sys pages v args = .started k pages') :
    ∃ a n v',
      (loadKernel sys.bs pages args.image args.sz).ret = 0 ∧
      leaveBootServices sys.fw v = .left a n v' ∧
      pages'.zeropage =
        installMemmap
          (bootStores sys args (loadKernel sys.bs pages args.image args.sz).pages.zeropage)
          (tableMem v'.e820table sys.behind) (UInt32.ofInt n) ∧
      pages'.cmdline =
        bootCmdline args (loadKernel sys.bs pages args.image args.sz).pages.cmdline := by
  unfold bootKernel at h
  dsimp only at h
  by_cases hret : (loadKernel sys.bs pages args.image args.sz).ret = 0
  swap
  · rw [if_pos hret] at h
    cases h
  rw [if_neg (not_not_intro hret)] at h
  cases hexit : leaveBootServices sys.fw v with
  | endless => rw [hexit] at h; cases h
  | refused => rw [hexit] at h; cases h
  | left a n v' =>
    rw [hexit] at h
    cases h
    exact ⟨a, n, v', hret, rfl, rfl, rfl⟩

/-- Both attempts end the same way. -/
theorem leaveBootServices_left {fw : Firmware} {v v' : MapVars} {a : Attempt} {n : Int}
    (h : leaveBootServices fw v = .left a n v') :
    (∃ v₀ silent, processMemoryMap (fw.reply a) v₀ silent = some (n, v')) ∧
      v'.key = fw.current a := by
  unfold leaveBootServices at h
  cases hfirst : processMemoryMap (fw.reply .first) v false with
  | none => rw [hfirst] at h; cases h
  | some x =>
    obtain ⟨n₁, v₁⟩ := x
    rw [hfirst] at h
    dsimp only at h
    by_cases hretry : fw.exitStatus .first v₁.key = efiInvalidParameter
    · rw [if_pos hretry] at h
      cases hsecond : processMemoryMap (fw.reply .second) v₁ true with
      | none => rw [hsecond] at h; cases h
      | some y =>
        obtain ⟨n₂, v₂⟩ := y
        rw [hsecond] at h
        dsimp only at h
        by_cases hok : fw.exitStatus .second v₂.key = efiSuccess
        · rw [if_neg (not_not_intro hok)] at h
          cases h
          exact ⟨⟨v₁, true, hsecond⟩, fw.accepts _ _ hok⟩
        · rw [if_pos hok] at h
          cases h
    · rw [if_neg hretry] at h
      by_cases hok : fw.exitStatus .first v₁.key = efiSuccess
      · rw [if_neg (not_not_intro hok)] at h
        cases h
        exact ⟨⟨v, false, hfirst⟩, fw.accepts _ _ hok⟩
      · rw [if_pos hok] at h
        cases h

/-- The zero page holds the memory map in force, and its count is what the last call of
`process_memory_map` returned. -/
structure MemmapCurrent (fw : Firmware) (a : Attempt) (n : Int) (zeropage : Mem) : Prop where
  succeeded : fw.status a = efiSuccess
  count : n = (convert (fw.mapOf (fw.current a))).length
  count_installed : (zeropage zpE820Count).toNat = n
  table_installed : read zeropage zpE820Table (20 * n.toNat) =
    (convert (fw.mapOf (fw.current a))).flatMap E820Entry.bytes

theorem flatMap_bytes_length (entries : List E820Entry) :
    (entries.flatMap E820Entry.bytes).length = 20 * entries.length := by
  induction entries with
  | nil => rfl
  | cons e entries ih =>
    rw [List.flatMap_cons, List.length_append, ih, E820Entry.bytes_length, List.length_cons]
    omega

theorem read_tableMem (entries table : List E820Entry) (behind : Mem) :
    read (tableMem (overlay entries table) behind) 0 (20 * entries.length) =
      entries.flatMap E820Entry.bytes := by
  have hall := read_write_self behind 0 _ ((overlay entries table).flatMap E820Entry.bytes) rfl
  rw [overlay, List.flatMap_append, List.length_append, read_add, flatMap_bytes_length] at hall
  rw [tableMem, overlay, List.flatMap_append]
  refine (List.append_inj hall ?_).1
  rw [read_length, flatMap_bytes_length]

theorem installMemmap_count (zeropage memmap : Mem) (count : UInt32) :
    installMemmap zeropage memmap count zpE820Count = count.toUInt8 :=
  write_inside _ zpE820Count [count.toUInt8] 0 Nat.zero_lt_one

theorem installMemmap_table (zeropage memmap : Mem) (count : UInt32) :
    read (installMemmap zeropage memmap count) zpE820Table (20 * count.toNat) =
      read memmap 0 (20 * count.toNat) := by
  unfold installMemmap
  rw [read_write_disjoint _ _ _ _ _ (.inr (by rw [List.length_singleton]; decide)),
    read_write_self]
  rw [read_length]

/-- **The kernel is started with the memory map in force** if and only if the last call
of `GetMemoryMap` succeeded and its map fits into the scratch buffer and the table.
Nothing else checks the result of `process_memory_map`. -/
theorem started_memmap_iff {sys : System} {pages pages' : Pages} {v : MapVars} {args : BootArgs}
    {k : KernelT} (h : bootKernel sys pages v args = .started k pages') :
    ∃ a n v', leaveBootServices sys.fw v = .left a n v' ∧
      (MemmapCurrent sys.fw a n pages'.zeropage ↔
        sys.fw.status a = efiSuccess ∧ Fits (sys.fw.mapOf (sys.fw.mkey a))) := by
  obtain ⟨a, n, v', -, hexit, hzp, -⟩ := bootKernel_started h
  obtain ⟨⟨v₀, silent, hcall⟩, hkey⟩ := leaveBootServices_left hexit
  refine ⟨a, n, v', hexit, ?_, ?_⟩
  · intro hcur
    by_contra hbad
    have hneg := (processMemoryMap_failed hbad hcall).1
    have hcount := hcur.count
    omega
  · rintro ⟨hs, hfits⟩
    have hok := processMemoryMap_ok (r := sys.fw.reply a) hs hfits v₀ silent
    rw [hcall, Option.some.injEq, Prod.mk.injEq] at hok
    obtain ⟨hn, hv⟩ := hok
    have hmap : sys.fw.mapOf (sys.fw.current a) = (sys.fw.reply a).map := by
      rw [← hkey, hv]
      rfl
    have hlt : (convert (sys.fw.reply a).map).length < 128 := hfits.entries
    have hcount : (UInt32.ofInt n).toNat = (convert (sys.fw.reply a).map).length := by
      rw [hn, UInt32.ofInt, UInt32.toNat_ofNat']
      omega
    refine ⟨hs, by rw [hmap, hn], ?_, ?_⟩
    · rw [hzp, installMemmap_count, UInt32.toNat_toUInt8, hcount, hn]
      omega
    · have hn' : n.toNat = (UInt32.ofInt n).toNat := by
        rw [hcount, hn, Int.toNat_natCast]
      rw [hzp, hn', installMemmap_table, hcount, hv, read_tableMem, hmap]

/-! ## Two boots -/

/-- A kernel of 1024 bytes that passes the checks. -/
def smallImage : Mem :=
  write (write (write (fun _ => 0) zpHeader (bytes32 0x53726448)) zpVersion (bytes16 0x020B))
    zpSetupSects [1]

/-- A map with one descriptor: 64 KiB of conventional memory at 1 MiB. -/
def oneRegion : MemoryMap where
  scratch := write (write (write (fun _ => 0) 0 (bytes32 efiConventionalMemory))
    8 (bytes64 0x100000)) 24 (bytes64 16)
  msize := 48
  dsize := 48

/-- Every `GetMemoryMap` reports the map under key 7, and `ExitBootServices` takes it. -/
def steadyFirmware : Firmware where
  mapOf _ := oneRegion
  status _ := efiSuccess
  mkey _ := 7
  current _ := 7
  exitStatus _ key := if key = 7 then efiSuccess else efiInvalidParameter
  accepts := by
    intro a key h
    by_contra hne
    rw [if_neg hne] at h
    cases h

/-- The first `ExitBootServices` and the second `GetMemoryMap` fail. -/
def failingFirmware : Firmware where
  mapOf _ := oneRegion
  status
    | .first => efiSuccess
    | .second => efiDeviceError
  mkey _ := 7
  current _ := 7
  exitStatus
    | .first, _ => efiInvalidParameter
    | .second, key => if key = 7 then efiSuccess else efiInvalidParameter
  accepts := by
    intro a key h
    by_contra hne
    cases a with
    | first => cases h
    | second =>
      dsimp only at h
      rw [if_neg hne] at h
      cases h

def systemWith (fw : Firmware) : System where
  bs := ⟨some 0x90000, some 0x91000, true⟩
  gop := ⟨0x80000000, 1024, 768, 1024⟩
  acpiRoot := 0
  fw := fw
  behind := fun _ => 0

def smallArgs : BootArgs := ⟨smallImage, 1024, 0, 0, none, 0⟩

def zeroPages : Pages := ⟨fun _ => 0, fun _ => 0, fun _ => 0⟩

/-- The count in the zero page of a kernel that is started. -/
def Outcome.count : Outcome → Option UInt8
  | .started _ pages => some (pages.zeropage zpE820Count)
  | _ => none

def Exit.result : Exit → Option (Attempt × Int)
  | .left a n _ => some (a, n)
  | _ => none

theorem Outcome.started_of_count {o : Outcome} {c : UInt8} (h : o.count = some c) :
    ∃ k pages, o = .started k pages := by
  cases o with
  | failed => cases h
  | endless => cases h
  | started k pages => exact ⟨k, pages, rfl⟩

theorem started_memmap_iff_steady : ∃ k pages a n v',
    bootKernel (systemWith steadyFirmware) zeroPages (freshVars 0) smallArgs = .started k pages ∧
    leaveBootServices steadyFirmware (freshVars 0) = .left a n v' ∧
    MemmapCurrent steadyFirmware a n pages.zeropage := by
  have hcount : (bootKernel (systemWith steadyFirmware) zeroPages (freshVars 0) smallArgs).count =
      some 1 := by decide +kernel
  have hfits : Fits oneRegion := ⟨by decide, .inr (by decide), by decide +kernel⟩
  obtain ⟨k, pages, hstart⟩ := Outcome.started_of_count hcount
  obtain ⟨a, n, v', hexit, hiff⟩ := started_memmap_iff hstart
  exact ⟨k, pages, a, n, v', hstart, hexit, hiff.mpr ⟨rfl, hfits⟩⟩

/-- The kernel is started after a `process_memory_map` that returned -1, with 255 in the
place of the count. -/
theorem started_after_failed_map :
    (leaveBootServices failingFirmware (freshVars 0)).result = some (.second, -1) ∧
    (bootKernel (systemWith failingFirmware) zeroPages (freshVars 0) smallArgs).count =
      some 255 := by
  constructor
  · decide +kernel
  · decide +kernel

end Gigaboot.Osboot
